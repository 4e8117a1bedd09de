import Genesis.Error

/-! The three ways in which validators can be staked. -/

namespace Genesis

inductive Kind where
  /-- Every validator is staked by the wallet that owns it. -/
  | direct
  /-- Every validator is staked through the delegation contract. -/
  | delegated
  /-- The first validators are staked through the contract, the others by their owners. -/
  | mixed
  deriving DecidableEq, Repr

namespace Kind

def name : Kind → String
  | .direct => "direct"
  | .delegated => "delegated"
  | .mixed => "mixed"

def title : Kind → String
  | .direct => "Direct"
  | .delegated => "Delegated"
  | .mixed => "Mixed"

def ofName? (name : String) : Except Error Kind :=
  if name = Kind.direct.name then .ok .direct
  else if name = Kind.delegated.name then .ok .delegated
  else if name = Kind.mixed.name then .ok .mixed
  else .error (.unknownStrategy name)

end Kind

end Genesis
