import Genesis.Json.Basic

/-!
Texts taken as JSON, as far as they go: a draft holds what stands in a text up to the place where
it stops being JSON.
-/

namespace Genesis.Json

structure Numeral where
  negative : Bool
  whole : List Char
  fraction : List Char
  exponent : Option (Bool × List Char)
  deriving DecidableEq, Repr, Inhabited

/-- What a text holds. Arrays and objects tell whether they are closed; a member has no name if that
holds an escape for one half of a character. -/
inductive Draft where
  | null
  | bool (value : Bool)
  | number (numeral : Numeral)
  | string (text : String)
  /-- A string with an escape for one half of a character. -/
  | halfString
  | array (items : List Draft) (closed : Bool)
  | object (members : List (Option String × Draft)) (closed : Bool)
  /-- Where the text stops being JSON. -/
  | cut
  deriving Repr, Inhabited

def isSpace (c : Char) : Bool := c = ' ' || c = '\n' || c = '\t' || c = '\r'

def skipSpace (s : List Char) : List Char := s.dropWhile isSpace

def hexValue (c : Char) : Option Nat :=
  if '0' ≤ c ∧ c ≤ '9' then some (c.toNat - 48)
  else if 'a' ≤ c ∧ c ≤ 'f' then some (c.toNat - 87)
  else if 'A' ≤ c ∧ c ≤ 'F' then some (c.toNat - 55)
  else none

def unescape (c : Char) : Option Char :=
  if c = '"' ∨ c = '\\' ∨ c = '/' then some c
  else if c = 'b' then some '\x08'
  else if c = 'f' then some '\x0c'
  else if c = 'n' then some '\n'
  else if c = 'r' then some '\r'
  else if c = 't' then some '\t'
  else none

/-- The code units of a string up to the quote that closes it, and what follows. A character that
is not escaped is one unit. -/
def stringUnits : List Char → Option (List Nat × List Char)
  | [] => none
  | '"' :: r => some ([], r)
  | '\\' :: 'u' :: a :: b :: c :: d :: r => do
    let unit :=
      4096 * (← hexValue a) + 256 * (← hexValue b) + 16 * (← hexValue c) + (← hexValue d)
    let (units, r) ← stringUnits r
    return (unit :: units, r)
  | '\\' :: c :: r => do
    let c ← unescape c
    let (units, r) ← stringUnits r
    return (c.toNat :: units, r)
  | c :: r =>
    if c.toNat < 0x20 then none
    else do
      let (units, r) ← stringUnits r
      return (c.toNat :: units, r)

def isHighHalf (unit : Nat) : Bool := 0xD800 ≤ unit && unit < 0xDC00

def isLowHalf (unit : Nat) : Bool := 0xDC00 ≤ unit && unit < 0xE000

/-- Puts the halves of characters together, none of which may stand alone. -/
def joinUnits : List Nat → Option (List Char)
  | [] => some []
  | [unit] => if isHighHalf unit || isLowHalf unit then none else some [Char.ofNat unit]
  | unit :: next :: rest =>
    if isHighHalf unit then
      if isLowHalf next then
        (joinUnits rest).map
          (Char.ofNat (0x10000 + 0x400 * (unit - 0xD800) + (next - 0xDC00)) :: ·)
      else none
    else if isLowHalf unit then none
    else (joinUnits (next :: rest)).map (Char.ofNat unit :: ·)

def readFraction (s : List Char) : Option (List Char × List Char) :=
  match s with
  | '.' :: r =>
    let digits := r.takeWhile Char.isDigit
    if digits.isEmpty then none else some (digits, r.dropWhile Char.isDigit)
  | _ => some ([], s)

def readExponent (s : List Char) : Option (Option (Bool × List Char) × List Char) :=
  match s with
  | c :: r =>
    if c = 'e' ∨ c = 'E' then
      let (negative, r) :=
        match r with
        | '-' :: r => (true, r)
        | '+' :: r => (false, r)
        | r => (false, r)
      let digits := r.takeWhile Char.isDigit
      if digits.isEmpty then none
      else some (some (negative, digits), r.dropWhile Char.isDigit)
    else some (none, s)
  | [] => some (none, [])

def readNumeral (s : List Char) : Option (Numeral × List Char) := do
  let (negative, s) :=
    match s with
    | '-' :: r => (true, r)
    | s => (false, s)
  let whole := s.takeWhile Char.isDigit
  if whole.isEmpty || (whole.head? = some '0' && 1 < whole.length) then none
  let (fraction, s) ← readFraction (s.dropWhile Char.isDigit)
  let (exponent, s) ← readExponent s
  return ({ negative, whole, fraction, exponent }, s)

def expect : List Char → List Char → Option (List Char)
  | [], s => some s
  | c :: cs, d :: s => if c = d then expect cs s else none
  | _ :: _, [] => none

def readWord (value : Draft) (letters s : List Char) : Draft × Option (List Char) :=
  match expect letters s with
  | some r => (value, some r)
  | none => (.cut, none)

mutual

/-- Reads a value, and tells what follows it if it is whole. -/
def readValue (fuel : Nat) (s : List Char) : Draft × Option (List Char) :=
  match fuel with
  | 0 => (.cut, none)
  | fuel + 1 =>
    match skipSpace s with
    | [] => (.cut, none)
    | '"' :: r =>
      match stringUnits r with
      | none => (.cut, none)
      | some (units, r) =>
        match joinUnits units with
        | some text => (.string (String.ofList text), some r)
        | none => (.halfString, some r)
    | '[' :: r =>
      match skipSpace r with
      | ']' :: r => (.array [] true, some r)
      | r =>
        let (items, rest) := readItems fuel r
        (.array items rest.isSome, rest)
    | '{' :: r =>
      match skipSpace r with
      | '}' :: r => (.object [] true, some r)
      | r =>
        let (members, rest) := readMembers fuel r
        (.object members rest.isSome, rest)
    | 'n' :: r => readWord .null ['u', 'l', 'l'] r
    | 't' :: r => readWord (.bool true) ['r', 'u', 'e'] r
    | 'f' :: r => readWord (.bool false) ['a', 'l', 's', 'e'] r
    | s =>
      match readNumeral s with
      | none => (.cut, none)
      | some (numeral, r) => (.number numeral, some r)

def readItems (fuel : Nat) (s : List Char) : List Draft × Option (List Char) :=
  match fuel with
  | 0 => ([], none)
  | fuel + 1 =>
    match readValue fuel s with
    | (v, none) => ([v], none)
    | (v, some r) =>
      match skipSpace r with
      | ']' :: r => ([v], some r)
      | ',' :: r =>
        let (vs, rest) := readItems fuel r
        (v :: vs, rest)
      | _ => ([v], none)

def readMembers (fuel : Nat) (s : List Char) :
    List (Option String × Draft) × Option (List Char) :=
  match fuel with
  | 0 => ([], none)
  | fuel + 1 =>
    match skipSpace s with
    | '"' :: r =>
      match stringUnits r with
      | none => ([], none)
      | some (units, r) =>
        let name := (joinUnits units).map String.ofList
        match skipSpace r with
        | ':' :: r =>
          match readValue fuel r with
          | (v, none) => ([(name, v)], none)
          | (v, some r) =>
            match skipSpace r with
            | '}' :: r => ([(name, v)], some r)
            | ',' :: r =>
              let (ms, rest) := readMembers fuel r
              ((name, v) :: ms, rest)
            | _ => ([(name, v)], none)
        | _ => ([(name, .cut)], none)
    | _ => ([], none)

end

/-- Every step down or onwards takes at least one character in two. -/
def enoughFuel (s : List Char) : Nat := 2 * s.length + 2

def readDraft (s : List Char) : Draft × Option (List Char) := readValue (enoughFuel s) s

end Genesis.Json
