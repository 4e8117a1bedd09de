import Genesis.Codec.Bech32.Checksum
import Genesis.Codec.Bits

/-!
Bech32 texts: a prefix, the character `1`, and data in an alphabet of 32 characters that ends in a
checksum of six.
-/

namespace Genesis.Bech32

inductive Fault where
  | noSeparator
  | badChecksum
  | badLength
  | badCharacter (c : Char)
  | mixedCase
  deriving DecidableEq, Repr

def Fault.message : Fault → String
  | .noSeparator => "missing human-readable separator, \"1\""
  | .badChecksum => "invalid checksum"
  | .badLength => "invalid length"
  | .badCharacter c => s!"invalid character (code={c})"
  | .mixedCase => "mixed-case strings not allowed"

def alphabet : List Char := "qpzry9x8gf2tvdw0s3jn54khce6mua7l".toList

def symbolChar (v : Symbol) : Char := alphabet.getD v.toNat 'q'

def charSymbol (c : Char) : Option Symbol :=
  (alphabet.findIdx? (· = c.toLower)).map (BitVec.ofNat 5)

inductive LetterCase where
  | unknown
  | lower
  | upper
  deriving DecidableEq, Repr

def LetterCase.meet (seen : LetterCase) (c : Char) : Except Fault LetterCase :=
  if c.isLower then if seen = .upper then .error .mixedCase else .ok .lower
  else if c.isUpper then if seen = .lower then .error .mixedCase else .ok .upper
  else .ok seen

/-- A character as its first byte in UTF-8 shows it. -/
def leadCharacter (c : Char) : Char :=
  Char.ofNat ((String.utf8EncodeChar c).headD 0).toNat

def maxPrefixLength : Nat := 83

/-- Walks over the characters of a prefix, which are visible ASCII of one case. -/
def prefixCase (seen : LetterCase) : List Char → Except Fault LetterCase
  | [] => .ok seen
  | c :: cs =>
    if 33 ≤ c.toNat ∧ c.toNat ≤ 126 then do prefixCase (← seen.meet c) cs
    else .error (.badCharacter (leadCharacter c))

def checkPrefix (hrp : List Char) : Except Fault LetterCase :=
  if hrp.isEmpty || maxPrefixLength < (hrp.flatMap String.utf8EncodeChar).length then
    .error .badLength
  else prefixCase .unknown hrp

/-- Reads data characters, the letters so far having shown the case `seen`. -/
def readSymbols (seen : LetterCase) : List Char → Except Fault (List Symbol)
  | [] => .ok []
  | c :: cs =>
    if 128 ≤ c.toNat then .error (.badCharacter c)
    else do
      let seen ← seen.meet c
      match charSymbol c with
      | none => .error (.badCharacter c)
      | some v => return v :: (← readSymbols seen cs)

def splitLast (text : List Char) : Option (List Char × List Char) :=
  let behind := text.reverse.takeWhile (· ≠ '1')
  match text.reverse.dropWhile (· ≠ '1') with
  | [] => none
  | _ :: before => some (before.reverse, behind.reverse)

def checksumLength : Nat := 6

/-- A text's prefix in lower case, its data without the checksum, and the checksum's variant. -/
def decode (text : List Char) : Except Fault (List Char × List Symbol × Variant) := do
  let some (hrp, data) := splitLast text | throw .noSeparator
  let seen ← checkPrefix hrp
  let hrp := hrp.map Char.toLower
  let symbols ← readSymbols seen data
  if symbols.length < checksumLength then throw .badLength
  let some variant := verify hrp symbols | throw .badChecksum
  return (hrp, symbols.take (symbols.length - checksumLength), variant)

/-- Writes data behind a prefix that has no capital letters. -/
def encode (variant : Variant) (hrp : List Char) (data : List Symbol) :
    Except Fault (List Char) := do
  let _ ← checkPrefix hrp
  return hrp ++ '1' :: (data ++ checksum variant hrp data).map symbolChar

def ofBytes (bytes : Bytes) : List Symbol :=
  let bits := bytes.flatMap fun b => Bits.ofNat 8 b.toNat
  (chunksOf 5 (Bits.padTo 5 bits)).map fun five => BitVec.ofNat 5 (Bits.toNat five)

/-- The bytes that symbols carry; what is left over must be fewer than five bits, all zero. -/
def toBytes? (symbols : List Symbol) : Option Bytes :=
  let bits := symbols.flatMap fun v => Bits.ofNat 5 v.toNat
  let whole := bits.length / 8 * 8
  let rest := bits.drop whole
  if rest.length < 5 ∧ rest.all (· = false) then
    some ((chunksOf 8 (bits.take whole)).map fun eight => UInt8.ofNat (Bits.toNat eight))
  else none

end Genesis.Bech32
