/-! Byte strings and the fixed-width numbers laid out in them. -/

namespace Genesis

abbrev Bytes := List UInt8

/-- The lowest `width` bytes of `n`, least significant first. -/
def littleEndian (width n : Nat) : Bytes :=
  match width with
  | 0 => []
  | width + 1 => UInt8.ofNat n :: littleEndian width (n / 256)

@[simp] theorem length_littleEndian (width n : Nat) : (littleEndian width n).length = width := by
  induction width generalizing n with
  | zero => rfl
  | succ width ih => simp [littleEndian, ih]

/-- The number whose digits in base 256 are `bytes`, most significant first. -/
def bigEndian (bytes : Bytes) : Nat :=
  bytes.foldl (fun n b => 256 * n + b.toNat) 0

/-- Cuts a list into pieces of `size`, the last one possibly shorter. -/
def chunksOf {α : Type} (size : Nat) (l : List α) : List (List α) :=
  go l.length l
where
  go : Nat → List α → List (List α)
    | 0, _ => []
    | _ + 1, [] => []
    | n + 1, l => l.take size :: go n (l.drop size)

end Genesis
