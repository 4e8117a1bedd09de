import Genesis.Amount
import Genesis.Codec.Hex

/-! Key pairs of validators and of wallets, and how they are shown in short. -/

namespace Genesis

structure BlsKey where
  publicKey : Bytes
  privateKey : Bytes
  deriving DecidableEq, Repr, Inhabited

/-- The key pair of one genesis account, with the amounts that a strategy gives to it. -/
structure WalletKey where
  publicKey : Bytes
  privateKey : Bytes
  blsKeys : List BlsKey := []
  balance : Int := 0
  delegated : Int := 0
  /-- The address of the delegation contract, empty when nothing is delegated. -/
  contract : Bytes := []
  /-- What the wallet stakes for its own validators. -/
  staked : Int := 0
  deriving DecidableEq, Repr, Inhabited

/-- The number of base-16 digits of a key that are shown. -/
def shownDigits : Nat := 16

def shortHex (key : Bytes) : String :=
  let digits := key.flatMap Hex.encodeByte
  if shownDigits < digits.length then String.ofList (digits.take shownDigits ++ ['…'])
  else String.ofList digits

def BlsKey.summary (key : BlsKey) : String := "BlsKey(" ++ shortHex key.publicKey ++ ")"

namespace WalletKey

/-- What is shown of a wallet: no private key, and of the validators only their number. -/
def shownFields (key : WalletKey) : List (String × String) :=
  [("pub_key", "\"" ++ shortHex key.publicKey ++ "\""),
   ("bls_keys", toString key.blsKeys.length),
   ("balance", Amount.render key.balance),
   ("staked_value", Amount.render key.staked),
   ("delegated_value", Amount.render key.delegated)]

def summary (key : WalletKey) : String :=
  let fields := key.shownFields.map fun (name, value) => name ++ ": " ++ value
  "WalletKey \x7b " ++ ", ".intercalate fields ++ " \x7d"

def details (key : WalletKey) : String :=
  let fields := key.shownFields.map fun (name, value) => "    " ++ name ++ ": " ++ value ++ ",\n"
  "WalletKey \x7b\n" ++ String.join fields ++ "\x7d"

end WalletKey

end Genesis
