import Genesis.Key.Basic

/-! The entries of a genesis: accounts, and the nodes that validators start as. -/

namespace Genesis

structure Delegation where
  /-- The written address of the contract, empty when nothing is delegated. -/
  address : String := ""
  value : Int := 0
  deriving DecidableEq, Repr, Inhabited

structure Account where
  address : String
  supply : Int
  balance : Int
  stakingValue : Int
  delegation : Delegation
  deriving DecidableEq, Repr, Inhabited

def Account.parts (a : Account) : Int := a.balance + a.stakingValue + a.delegation.value

def Account.ofParts (address : String) (balance stakingValue : Int) (delegation : Delegation) :
    Account :=
  { address, supply := balance + stakingValue + delegation.value, balance, stakingValue,
    delegation }

structure Node where
  pubKey : String
  address : String
  initialRating : UInt32
  deriving DecidableEq, Repr, Inhabited

def defaultRating : UInt32 := 5000001

structure Bundle where
  validators : List BlsKey := []
  observers : List BlsKey := []
  /-- The owners of validators, or one wallet for each validator that is staked by delegation. -/
  wallets : List WalletKey := []
  additional : List WalletKey := []
  delegators : List WalletKey := []
  accounts : List Account := []
  nodes : List Node := []
  deriving DecidableEq, Repr, Inhabited

end Genesis
