import Genesis.Binary.Basic

/-! The fewest decimal digits that read back as a given binary number. -/

namespace Genesis.Binary

/-- Whether `digits * 10 ^ exponent` is rounded to `m * 2 ^ e`. The bounds themselves are rounded
to the number with the even mantissa. Below a power of two the numbers lie twice as close. -/
def readsBack (f : Format) (m : Nat) (e : Int) (digits : Nat) (exponent : Int) : Bool :=
  let quarters := if m = 1 <<< (f.precision - 1) ∧ f.minExponent < e then 4 * m - 1 else 4 * m - 2
  let (d, t) : Nat × Nat :=
    if 0 ≤ exponent then (digits * tenTo exponent.toNat, 1) else (digits, tenTo (-exponent).toNat)
  let (lowNum, lowDen) := scale quarters 4 e
  let (highNum, highDen) := scale (4 * m + 2) 4 e
  if m % 2 = 0 then lowNum * t ≤ d * lowDen && d * highDen ≤ highNum * t
  else lowNum * t < d * lowDen && d * highDen < highNum * t

def firstPlace (n d : Nat) : Int :=
  let guess : Int := ((Nat.toDigits 10 n).length : Int) - (Nat.toDigits 10 d).length
  let reached :=
    if 0 ≤ guess then d * tenTo guess.toNat ≤ n else d ≤ n * tenTo (-guess).toNat
  if reached then guess else guess - 1

/-- The whole part of `n / d / 10 ^ exponent`, and whether the next whole number is nearer; of two
equally near ones the even one counts as nearer. -/
def decimalBelow (n d : Nat) (exponent : Int) : Nat × Bool :=
  let (n, d) :=
    if 0 ≤ exponent then (n, d * tenTo exponent.toNat) else (n * tenTo (-exponent).toNat, d)
  let q := n / d
  let r := n % d
  (q, d < 2 * r || (d = 2 * r && q % 2 = 1))

/-- Digits and exponent of the shortest decimal that reads back as `m * 2 ^ e`: on the grids of
one digit, two digits and so on, the nearer of the two neighbours that do. -/
def shortest (f : Format) (m : Nat) (e : Int) : Nat × Int :=
  let (n, d) := scale m 1 e
  let first := firstPlace n d
  let rec search : (fuel : Nat) → (exponent : Int) → Nat × Int
    | 0, exponent => ((decimalBelow n d exponent).1, exponent)
    | fuel + 1, exponent =>
      let (below, upperNearer) := decimalBelow n d exponent
      let fits := readsBack f m e below exponent
      let upperFits := readsBack f m e (below + 1) exponent
      if fits && !(upperFits && upperNearer) then (below, exponent)
      else if upperFits then (below + 1, exponent)
      else search fuel (exponent - 1)
  search f.precision first

end Genesis.Binary
