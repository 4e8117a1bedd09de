import Genesis.Binary.Text
import Genesis.Json.Draft

/-!
Reading values out of drafts. A record may be given as an object, with its fields in any order
among others, or as an array of its fields in order. The first failure from left to right counts,
and fields that are missing count at the end of their object.
-/

namespace Genesis.Json

inductive ReadFault where
  | malformed
  | badAmount (text : String)
  | missing (field : String)
  | duplicate (field : String)
  deriving DecidableEq, Repr

def afterNumbered? (word : String) (text : List Char) : Option (List Char) :=
  match word.toList.isPrefixOf? text with
  | none => none
  | some rest =>
    let digits := rest.takeWhile Char.isDigit
    if digits.isEmpty || UInt64.size ≤ Binary.natOfDigits digits then none
    else some (rest.dropWhile Char.isDigit)

def isPosition (text : List Char) : Bool :=
  (afterNumbered? " at line " text).bind (afterNumbered? " column ") == some []

def withoutPosition : List Char → List Char
  | [] => []
  | c :: cs => if isPosition (c :: cs) then [] else c :: withoutPosition cs

/-- The wording of a fault, where it is fixed. The position of a fault is told apart from its
wording, also if the text of a value looks like one. -/
def ReadFault.message? : ReadFault → Option String
  | .malformed => none
  | .badAmount text =>
    some (String.ofList (withoutPosition ("invalid decimal amount: " ++ text).toList))
  | .missing field => some ("missing field `" ++ field ++ "`")
  | .duplicate field => some ("duplicate field `" ++ field ++ "`")

abbrev Reader (α : Type) := Draft → Except ReadFault α

namespace Reader

variable {α : Type}

def text : Reader String
  | .string text => .ok text
  | _ => .error .malformed

def amount : Reader Int := fun d => do
  let s ← text d
  match Amount.parse? s with
  | some n => return n
  | none => throw (.badAmount s)

def flag : Reader Bool
  | .bool value => .ok value
  | _ => .error .malformed

def wholeValue (n : Numeral) : Option Int :=
  if n.fraction.isEmpty && n.exponent.isNone then
    let value := Binary.natOfDigits n.whole
    if n.negative then if value = 0 then none else some (-(value : Int)) else some value
  else none

def whole (least greatest : Int) : Reader Int
  | .number n =>
    match wholeValue n with
    | some value => if least ≤ value ∧ value ≤ greatest then .ok value else .error .malformed
    | none => .error .malformed
  | _ => .error .malformed

def word32 : Reader UInt32 := fun d => do
  let n ← whole 0 (UInt32.size - 1) d
  return UInt32.ofNat n.toNat

def word64 : Reader UInt64 := fun d => do
  let n ← whole 0 (UInt64.size - 1) d
  return UInt64.ofNat n.toNat

def signed64 : Reader Int64 := fun d => do
  let n ← whole Int64.minValue.toInt Int64.maxValue.toInt d
  return Int64.ofInt n

def list (item : Reader α) : Reader (List α)
  | .array items closed => do
    let values ← items.mapM item
    if closed then return values else throw .malformed
  | _ => .error .malformed

structure Field where
  name : String
  check : Reader Unit

def field (name : String) (reader : Reader α) : Field :=
  { name, check := fun d => discard (reader d) }

def isWhole : Draft → Bool
  | .cut => false
  | .array _ closed => closed
  | .object _ closed => closed
  | _ => true

/-- Checks members in order. Those that are no fields are passed over. -/
def checkMembers (fields : List Field) (seen : List String) :
    List (Option String × Draft) → Except ReadFault Unit
  | [] => .ok ()
  | (none, _) :: _ => .error .malformed
  | (some name, value) :: rest =>
    match fields.find? (·.name = name) with
    | none => if isWhole value then checkMembers fields seen rest else .error .malformed
    | some f =>
      if seen.contains name then .error (.duplicate name)
      else do
        f.check value
        checkMembers fields (name :: seen) rest

def checkItems : List Field → List Draft → Except ReadFault Unit
  | [], [] => .ok ()
  | f :: fields, value :: rest => do
    f.check value
    checkItems fields rest
  | _, _ => .error .malformed

def row (fields : List Field) : Reader (List (String × Draft))
  | .object members closed => do
    checkMembers fields [] members
    if closed then return members.filterMap fun (name, value) => name.map (·, value)
    else throw .malformed
  | .array items closed => do
    checkItems fields items
    if closed then return (fields.map (·.name)).zip items else throw .malformed
  | _ => .error .malformed

def fetch (values : List (String × Draft)) (name : String) (reader : Reader α) :
    Except ReadFault α :=
  match values.lookup name with
  | some value => reader value
  | none => .error (.missing name)

end Reader

def read {α : Type} (reader : Reader α) (text : String) : Except ReadFault α :=
  let (draft, rest) := readDraft text.toList
  match reader draft with
  | .error fault => .error fault
  | .ok value =>
    match rest with
    | none => .error .malformed
    | some rest => if (skipSpace rest).isEmpty then .ok value else .error .malformed

end Genesis.Json
