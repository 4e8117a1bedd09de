import Genesis.Json.Reader

/-!
Reading a numeral as a number of 32 bits. Whole numbers of 64 bits are rounded once. All others
pass through a number of 64 bits: the digits that fit a word of 64 bits, scaled by a power of ten.
-/

namespace Genesis.Json

open Binary

def maxWord : Nat := UInt64.size - 1

/-- Appends digits to a number for as long as it fits a word, and counts them. -/
def takeDigits (n taken : Nat) : List Char → Nat × Nat × List Char
  | [] => (n, taken, [])
  | c :: cs =>
    let next := 10 * n + (c.toNat - 48)
    if maxWord < next then (n, taken, c :: cs) else takeDigits next (taken + 1) cs

def scaleBy (divide : Bool) : Number → Number → Number
  | .finite s m e, .finite t m' e' =>
    let (n, d) := scale m 1 e
    let (n', d') := scale m' 1 e'
    if divide then round double (s != t) (n * d') (d * n')
    else round double (s != t) (n * n') (d * d')
  | x, _ => x

def maxPower : Nat := 308

def power (n : Nat) : Number := round double false (tenTo n) 1

def isZero : Number → Bool
  | .finite _ m _ => m = 0
  | _ => false

def isInfinite : Number → Bool
  | .infinite _ => true
  | _ => false

/-- Scales a number of 64 bits by a power of ten; there is none if that leads out of range. -/
def scaleTen : (fuel : Nat) → Number → Int → Option Number
  | 0, x, _ => some x
  | fuel + 1, x, exponent =>
    if exponent.natAbs ≤ maxPower then
      if 0 ≤ exponent then
        let y := scaleBy false x (power exponent.natAbs)
        if isInfinite y then none else some y
      else some (scaleBy true x (power exponent.natAbs))
    else if isZero x then some x
    else if 0 ≤ exponent then none
    else scaleTen fuel (scaleBy true x (power maxPower)) (exponent + maxPower)

/-- After this many steps downwards any number of 64 bits is zero. -/
def scaleSteps : Nat := 4

def maxExponent : Nat := 0x7FFFFFFF

/-- A numeral as a number of 64 bits; there is none if it is out of range. -/
def Numeral.toDouble (n : Numeral) : Option Number :=
  let (value, _, left) := takeDigits 0 0 n.whole
  let (value, places, _) := takeDigits value 0 n.fraction
  let before : Int := (left.length : Int) - places
  let zero : Number := .finite n.negative 0 double.minExponent
  let start := round double n.negative value 1
  match n.exponent with
  | none => scaleTen scaleSteps start before
  | some (down, digits) =>
    let exponent := natOfDigits digits
    if maxExponent < exponent then if value ≠ 0 ∧ !down then none else some zero
    else scaleTen scaleSteps start (if down then before - exponent else before + exponent)

def Numeral.toSingle (n : Numeral) : Option Number :=
  match Reader.wholeValue n with
  | some value =>
    if Int64.minValue.toInt ≤ value ∧ value ≤ maxWord then
      some (round single (value < 0) value.natAbs 1)
    else (n.toDouble).map (·.convert single)
  | none => (n.toDouble).map (·.convert single)

def Reader.single : Reader Number
  | .number n =>
    match n.toSingle with
    | some value => .ok value
    | none => .error .malformed
  | _ => .error .malformed

def ofSingle (x : Number) : Json :=
  match x.text? with
  | some text => .number text
  | none => .null

end Genesis.Json
