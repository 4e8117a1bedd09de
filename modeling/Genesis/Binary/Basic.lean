/-! Binary floating-point numbers of a given precision, and rounding to them. -/

namespace Genesis.Binary

/-- The precision in bits, and the least and greatest exponent of a number's last place. -/
structure Format where
  precision : Nat
  minExponent : Int
  maxExponent : Int

def single : Format := ⟨24, -149, 104⟩

def double : Format := ⟨53, -1074, 971⟩

/-- A finite number is its mantissa times a power of two. -/
inductive Number where
  | finite (negative : Bool) (mantissa : Nat) (exponent : Int)
  | infinite (negative : Bool)
  | notANumber
  deriving DecidableEq, Repr, Inhabited

def scale (n d : Nat) (e : Int) : Nat × Nat :=
  if 0 ≤ e then (n <<< e.toNat, d) else (n, d <<< (-e).toNat)

/-- The whole number nearest to `n / d`, of two equally near the even one. -/
def roundDiv (n d : Nat) : Nat :=
  let q := n / d
  let r := n % d
  if d < 2 * r ∨ (d = 2 * r ∧ q % 2 = 1) then q + 1 else q

/-- The exponent of the last place of the number that `n / d` is rounded to. -/
def lastPlace (f : Format) (n d : Nat) : Int :=
  let low : Int := (Nat.log2 n : Int) - Nat.log2 d - f.precision
  let (n', d') := scale n d (-(low + f.precision))
  max f.minExponent (if n' < d' then low else low + 1)

def round (f : Format) (negative : Bool) (n d : Nat) : Number :=
  if n = 0 then .finite negative 0 f.minExponent
  else
    let e := lastPlace f n d
    let (n', d') := scale n d (-e)
    let m := roundDiv n' d'
    let (m, e) := if m = 1 <<< f.precision then (1 <<< (f.precision - 1), e + 1) else (m, e)
    if f.maxExponent < e then .infinite negative else .finite negative m e

def Number.convert (f : Format) : Number → Number
  | .finite negative m e =>
    let (n, d) := scale m 1 e
    round f negative n d
  | x => x

def tenTo (n : Nat) : Nat := Nat.pow 10 n

/-- Beyond this many places before or behind the point, numbers of 32 bits end. -/
def maxPlaces : Int := 60

/-- The number of 32 bits nearest to `digits * 10 ^ exponent`. -/
def ofDecimal (negative : Bool) (digits : Nat) (exponent : Int) : Number :=
  let places : Int := (Nat.toDigits 10 digits).length + exponent
  if digits = 0 ∨ places < -maxPlaces then .finite negative 0 single.minExponent
  else if maxPlaces < places then .infinite negative
  else if 0 ≤ exponent then round single negative (digits * tenTo exponent.toNat) 1
  else round single negative digits (tenTo (-exponent).toNat)

end Genesis.Binary
