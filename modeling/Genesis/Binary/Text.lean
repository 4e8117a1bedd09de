import Genesis.Binary.Shortest

/-! Texts of 32-bit numbers. -/

namespace Genesis.Binary

/-- When a number is written without an exponent: the least and greatest place of its first digit,
counted from the one before the point. -/
structure Notation where
  leastPlain : Int
  greatestPlain : Int

/-- From a millionth up to ten million millions, numbers are written without an exponent. -/
def plainRange : Notation := ⟨-6, 12⟩

def dropZeros : (fuel : Nat) → (n : Nat) → (exponent : Int) → Nat × Int
  | 0, n, exponent => (n, exponent)
  | fuel + 1, n, exponent =>
    if n % 10 = 0 then dropZeros fuel (n / 10) (exponent + 1) else (n, exponent)

/-- The text of `0.digits * 10 ^ point` without an exponent, always with a digit on both sides of
the point. -/
def plainText (digits : List Char) (point : Int) : List Char :=
  if point ≤ 0 then ['0', '.'] ++ List.replicate (-point).toNat '0' ++ digits
  else
    let whole := digits.take point.toNat
    let rest := digits.drop point.toNat
    whole ++ List.replicate (point.toNat - whole.length) '0' ++ '.' ::
      (if rest.isEmpty then ['0'] else rest)

/-- The text of `d.igits * 10 ^ place`; the exponent has a sign. -/
def scientificText (digits : List Char) (place : Int) : List Char :=
  let mantissa :=
    match digits with
    | [] => []
    | [first] => [first]
    | first :: others => first :: '.' :: others
  let sign := if place < 0 then '-' else '+'
  mantissa ++ 'e' :: sign :: Nat.toDigits 10 place.natAbs

/-- The shortest text that reads back as a finite number; there is none for other numbers. -/
def Number.text? : Number → Option String
  | .finite negative m e =>
    let sign := if negative then ['-'] else []
    let body :=
      if m = 0 then ['0', '.', '0']
      else
        let (n, exponent) := shortest single m e
        let (n, exponent) := dropZeros (Nat.toDigits 10 n).length n exponent
        let digits := Nat.toDigits 10 n
        let point : Int := digits.length + exponent
        if plainRange.leastPlain ≤ point - 1 ∧ point - 1 ≤ plainRange.greatestPlain then
          plainText digits point
        else scientificText digits (point - 1)
    some (String.ofList (sign ++ body))
  | _ => none

def spanDigits (text : List Char) : List Char × List Char :=
  (text.takeWhile Char.isDigit, text.dropWhile Char.isDigit)

def natOfDigits (digits : List Char) : Nat := Nat.ofDigitChars 10 digits 0

def readSign : List Char → Bool × List Char
  | '-' :: rest => (true, rest)
  | '+' :: rest => (false, rest)
  | rest => (false, rest)

def readExponent : List Char → Option Int
  | [] => some 0
  | c :: rest =>
    if c = 'e' ∨ c = 'E' then
      let (negative, rest) := readSign rest
      let (digits, rest) := spanDigits rest
      if digits.isEmpty ∨ !rest.isEmpty then none
      else some (if negative then -(natOfDigits digits : Int) else natOfDigits digits)
    else none

/-- Digits with a point among, before or behind them, and an exponent. -/
def readDecimal (negative : Bool) (text : List Char) : Option Number :=
  let (whole, rest) := spanDigits text
  let (fraction, rest) :=
    match rest with
    | '.' :: rest => spanDigits rest
    | _ => ([], rest)
  if whole.isEmpty ∧ fraction.isEmpty then none
  else
    (readExponent rest).map fun exponent =>
      ofDecimal negative (natOfDigits (whole ++ fraction)) (exponent - fraction.length)

def Number.parse? (text : String) : Option Number :=
  let (negative, rest) := readSign text.toList
  let name := String.ofList (rest.map Char.toLower)
  if name = "inf" ∨ name = "infinity" then some (.infinite negative)
  else if name = "nan" then some .notANumber
  else readDecimal negative rest

end Genesis.Binary
