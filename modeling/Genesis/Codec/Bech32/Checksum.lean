/-!
The checksum of bech32 texts: a remainder of polynomials over the field of 32 elements, kept as six
symbols of five bits.
-/

namespace Genesis.Bech32

/-- One character's worth of data: five bits. -/
abbrev Symbol := BitVec 5

/-- The six symbols of a remainder, the highest power first. -/
abbrev Remainder := BitVec 30

/-- What each bit of the highest symbol adds when it is carried out. -/
def generators : List Remainder :=
  [0x3b6a57b2, 0x26508e6d, 0x1ea119fa, 0x3d4233dd, 0x2a1462b3]

def carried (top : Symbol) : Remainder :=
  (generators.zipIdx.map fun (g, i) => if top.getLsbD i then g else 0).foldl (· ^^^ ·) 0

def absorb (r : Remainder) (v : Symbol) : Remainder :=
  ((r <<< 5) ^^^ v.zeroExtend 30) ^^^ carried ((r >>> 25).truncate 5)

def remainder (values : List Symbol) : Remainder := values.foldl absorb 1

/-- The symbols that stand for a prefix in the checksum: high bits, a zero, low bits. -/
def expandPrefix (hrp : List Char) : List Symbol :=
  hrp.map (fun c => BitVec.ofNat 5 (c.toNat / 32)) ++ [0] ++
    hrp.map (fun c => BitVec.ofNat 5 c.toNat)

def remainderSymbols (r : Remainder) : List Symbol :=
  [5, 4, 3, 2, 1, 0].map fun i => (r >>> (5 * i)).truncate 5

/-- The two checksums in use differ in the remainder of a correct text. -/
inductive Variant where
  | bech32
  | bech32m
  deriving DecidableEq, Repr

def Variant.target : Variant → Remainder
  | .bech32 => 1
  | .bech32m => 0x2bc830a3

/-- The symbols that, set behind the prefix and the data, bring the remainder to the target. -/
def checksum (variant : Variant) (hrp : List Char) (data : List Symbol) : List Symbol :=
  remainderSymbols
    (remainder (expandPrefix hrp ++ data ++ List.replicate 6 0) ^^^ variant.target)

def verify (hrp : List Char) (symbols : List Symbol) : Option Variant :=
  let r := remainder (expandPrefix hrp ++ symbols)
  if r = Variant.bech32.target then some .bech32
  else if r = Variant.bech32m.target then some .bech32m
  else none

end Genesis.Bech32
