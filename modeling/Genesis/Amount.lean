import Genesis.Error
import Genesis.Text.Blank

/-! Amounts of base units and their decimal texts. -/

namespace Genesis.Amount

/-- The decimal digits of `n`, most significant first, without leading zeros. -/
def digits (n : Nat) : List Char := Nat.toDigits 10 n

def render : Int → String
  | .ofNat n => String.ofList (digits n)
  | .negSucc n => String.ofList ('-' :: digits (n + 1))

/-- A digit, then digits and underscores; underscores do not count. -/
def readDigits : List Char → Option Nat
  | [] => none
  | c :: cs =>
    if c.isDigit && cs.all (fun c => c.isDigit || c = '_') then
      some (Nat.ofDigitChars 10 ((c :: cs).filter Char.isDigit) 0)
    else none

/-- At most one sign, then digits as `readDigits` takes them. -/
def readSigned : List Char → Option Int
  | '-' :: cs => (readDigits cs).map fun n => -(n : Int)
  | '+' :: cs => (readDigits cs).map Int.ofNat
  | cs => (readDigits cs).map Int.ofNat

def parse? (text : String) : Option Int := readSigned text.toList

/-- Reads an amount that may stand between blanks and must not be below zero. -/
def parseNonNegative (text : String) : Except Error Int :=
  match readSigned (Text.trim text.toList) with
  | none => .error (.notANumber text)
  | some n => if n < 0 then .error (.negativeNumber text) else .ok n

def parseOrZero (text : String) : Int := (parse? text).getD 0

def oneToken : Int := 1000000000000000000

def defaultTotalSupply : Int := 20000000 * oneToken

def defaultNodePrice : Int := 2500 * oneToken

def defaultMinimumBalance : Int := oneToken

end Genesis.Amount
