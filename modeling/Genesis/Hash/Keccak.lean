import Genesis.Bytes

/-! The Keccak permutation on 25 lanes of 64 bits, and the 256-bit digest built on it. -/

namespace Genesis.Keccak

/-- The lane in column `x` and row `y` stands at place `x + 5 * y`. -/
abbrev State := Vector UInt64 25

def rotateLeft (a : UInt64) (n : UInt64) : UInt64 :=
  if n = 0 then a else (a <<< n) ||| (a >>> (64 - n))

/-- What the first lane is changed by in each of the 24 rounds. -/
def roundConstants : List UInt64 :=
  [0x0000000000000001, 0x0000000000008082, 0x800000000000808a, 0x8000000080008000,
   0x000000000000808b, 0x0000000080000001, 0x8000000080008081, 0x8000000000008009,
   0x000000000000008a, 0x0000000000000088, 0x0000000080008009, 0x000000008000000a,
   0x000000008000808b, 0x800000000000008b, 0x8000000000008089, 0x8000000000008003,
   0x8000000000008002, 0x8000000000000080, 0x000000000000800a, 0x800000008000000a,
   0x8000000080008081, 0x8000000000008080, 0x0000000080000001, 0x8000000080008008]

def rotations : Vector UInt64 25 :=
  #v[0, 1, 62, 28, 27, 36, 44, 6, 55, 20, 3, 10, 43, 25, 39, 41, 45, 15, 21, 8, 18, 2, 61, 56, 14]

def columns (a : State) : Vector UInt64 5 :=
  Vector.ofFn fun x : Fin 5 =>
    a[x.val] ^^^ a[x.val + 5] ^^^ a[x.val + 10] ^^^ a[x.val + 15] ^^^ a[x.val + 20]

/-- Adds to each lane the parities of the columns beside its own. -/
def mixColumns (a : State) : State :=
  let sums := columns a
  let d : Vector UInt64 5 := Vector.ofFn fun x : Fin 5 =>
    sums[Fin.ofNat 5 (x.val + 4)] ^^^ rotateLeft sums[Fin.ofNat 5 (x.val + 1)] 1
  Vector.ofFn fun i : Fin 25 => a[i] ^^^ d[Fin.ofNat 5 i.val]

/-- The place that a lane comes from: column `x + 3 * y` of row `x` goes to column `x`, row `y`. -/
def sourceLane (i : Nat) : Nat := (i % 5 + 3 * (i / 5)) % 5 + 5 * (i % 5)

theorem sourceLane_lt (i : Nat) : sourceLane i < 25 := by
  unfold sourceLane; omega

def moveLanes (a : State) : State :=
  Vector.ofFn fun i : Fin 25 =>
    have h := sourceLane_lt i.val
    rotateLeft a[sourceLane i.val] rotations[sourceLane i.val]

/-- The lane `n` places further in the row of lane `i`, which is closed to a ring. -/
def inRow (i : Fin 25) (n : Nat) : Fin 25 := ⟨i.val / 5 * 5 + (i.val % 5 + n) % 5, by omega⟩

def mixRows (a : State) : State :=
  Vector.ofFn fun i : Fin 25 => a[i] ^^^ (~~~a[inRow i 1] &&& a[inRow i 2])

def round (a : State) (constant : UInt64) : State :=
  let a := mixRows (moveLanes (mixColumns a))
  a.set 0 (a[0] ^^^ constant)

def permute (a : State) : State := roundConstants.foldl round a

def rate : Nat := 136

/-- A message followed by a one bit, zeros, and a one bit that ends a block. -/
def pad (message : Bytes) : Bytes :=
  let missing := rate - message.length % rate
  if missing = 1 then message ++ [0x81]
  else message ++ 0x01 :: List.replicate (missing - 2) 0 ++ [0x80]

/-- The lanes of a block, least significant byte first. -/
def lanes (block : Bytes) : Array UInt64 :=
  ((chunksOf 8 block).map fun eight => UInt64.ofNat (bigEndian eight.reverse)).toArray

def absorb (a : State) (block : Bytes) : State :=
  let l := lanes block
  permute (Vector.ofFn fun i : Fin 25 => a[i] ^^^ l.getD i.val 0)

def digest (message : Bytes) : Bytes :=
  let a := (chunksOf rate (pad message)).foldl absorb (Vector.replicate 25 0)
  [a[0], a[1], a[2], a[3]].flatMap fun lane => littleEndian 8 lane.toNat

def digestLength : Nat := 32

@[simp] theorem length_digest (message : Bytes) : (digest message).length = digestLength := by
  simp [digest, digestLength]

end Genesis.Keccak
