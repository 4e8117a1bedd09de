import Genesis.Account
import Genesis.Key.Format

/-! Addresses known beforehand that take the place of the last accounts of a genesis. -/

namespace Genesis

structure DemoAddresses where
  faucet : String
  web : String
  controller : String
  sponsor : String
  deriving DecidableEq, Repr

namespace DemoAddresses

def toList (d : DemoAddresses) : List String := [d.faucet, d.web, d.controller, d.sponsor]

def ofList? : List String → Option DemoAddresses
  | [faucet, web, controller, sponsor] => some { faucet, web, controller, sponsor }
  | _ => none

def apply (d : DemoAddresses) (format : KeyFormat) (accounts : List Account) :
    Except Error (List Account) := do
  if accounts.length < d.toList.length then
    throw (.invalidValue "number of accounts for demo addresses")
  d.toList.forM fun address => discard (format.decode address)
  let kept := accounts.length - d.toList.length
  return accounts.take kept ++
    (accounts.drop kept).zipWith (fun a address => { a with address }) d.toList

def firstIndex (d : DemoAddresses) (accounts : List Account) : Nat :=
  accounts.length - d.toList.length

end DemoAddresses

end Genesis
