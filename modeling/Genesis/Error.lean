/-! The causes for which a genesis cannot be made, checked or written, and their wording. -/

namespace Genesis

inductive FileFault where
  | notFound
  | notFolder
  | isFolder
  | alreadyThere
  | nameTooLong
  | zeroInName
  | other (reason : String)
  deriving DecidableEq, Repr

def FileFault.message : FileFault → String
  | .notFound => "No such file or directory (os error 2)"
  | .notFolder => "Not a directory (os error 20)"
  | .isFolder => "Is a directory (os error 21)"
  | .alreadyThere => "File exists (os error 17)"
  | .nameTooLong => "File name too long (os error 36)"
  | .zeroInName => "file name contained an unexpected NUL byte"
  | .other reason => reason

inductive Error where
  | noKeySource
  | noRandomizer
  | noNodePrice
  | noConverter (field : String)
  | noShards
  | notPositive (field : String)
  | missingValue (field : String)
  | missingFile (field : String)
  | invalidValue (field : String)
  | supplyTooSmall (supply used : Int)
  | noWallets
  | atIndex (index : Nat) (cause : Error)
  | unknownStrategy (name : String)
  | noAccounts
  | negativeField (address field : String)
  | supplyMismatch (address : String)
  | unevenStake (address : String)
  | delegationNowhere (address : String)
  | totalMismatch (computed provided : Int)
  | notANumber (text : String)
  | negativeNumber (text : String)
  | badAddress (reason : String)
  | badDerivation (reason : String)
  | badKey (reason : String)
  | badJson (reason : String)
  | fileSystem (fault : FileFault)
  deriving DecidableEq, Repr

namespace Error

def message : Error → String
  | .noKeySource => "nil key generator"
  | .noRandomizer => "nil randomizer"
  | .noNodePrice => "nil node price"
  | .noConverter field => s!"nil pub key converter for the {field}"
  | .noShards => "number of shards is zero"
  | .notPositive field => s!"zero or negative value for {field}"
  | .missingValue field => s!"nil value for {field}"
  | .missingFile field => s!"nil file handler for {field}"
  | .invalidValue field => s!"invalid value for {field}"
  | .supplyTooSmall supply used =>
    s!"total supply too small, total supply: {supply}, usedBalance: {used}"
  | .noWallets => "invalid number of wallet keys"
  | .atIndex index cause => s!"{cause.message} at index {index}"
  | .unknownStrategy name => s!"unknown data generation type: {name}"
  | .noAccounts => "empty initial accounts list"
  | .negativeField address field => s!"negative value for address {address}, field {field}"
  | .supplyMismatch address => s!"supply mismatch for address {address}"
  | .unevenStake address => s!"staking value error for address {address}"
  | .delegationNowhere address => s!"delegation values error for address {address}"
  | .totalMismatch computed provided =>
    s!"total supply mismatch computed: {computed}, provided: {provided}"
  | .notANumber text => s!"string is not a number: {text}"
  | .negativeNumber text => s!"negative value: {text}"
  | .badAddress reason => s!"pub key conversion error: {reason}"
  | .badDerivation reason => s!"address derivation error: {reason}"
  | .badKey reason => s!"key serialization error: {reason}"
  | .badJson reason => s!"serialization error: {reason}"
  | .fileSystem fault => s!"io error: {fault.message}"

def causes : Error → List String
  | .atIndex _ cause => cause.message :: cause.causes
  | .fileSystem fault => [fault.message]
  | _ => []

end Error

/-- What a call gives back, a value or an error. Nothing comes of a call that breaks off or that
never ends. -/
abbrev Attempt (α : Type) := ExceptT Error Option α

end Genesis
