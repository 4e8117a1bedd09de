import Genesis.Bytes

/-! Strings of bits, most significant first, and how they are cut into words of one width. -/

namespace Genesis.Bits

/-- The lowest `width` bits of `n`, most significant first. -/
def ofNat (width n : Nat) : List Bool :=
  match width with
  | 0 => []
  | width + 1 => n.testBit width :: ofNat width n

/-- The number whose binary digits are `bits`, most significant first. -/
def toNat (bits : List Bool) : Nat :=
  bits.foldl (fun n b => 2 * n + b.toNat) 0

/-- `bits` with as many zeros at the end as bring its length to a multiple of `width`. -/
def padTo (width : Nat) (bits : List Bool) : List Bool :=
  bits ++ List.replicate ((width - bits.length % width) % width) false

end Genesis.Bits
