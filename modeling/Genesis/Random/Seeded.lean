import Genesis.Random.Basic
import Genesis.Random.ChaCha

/-! Numbers drawn from a ChaCha key stream, whose key is given or spread out of one 64-bit seed. -/

namespace Genesis

/-- A place in a key stream: the words left of the current block, and the number of the next. -/
structure Seeded where
  key : Vector UInt32 8
  counter : UInt64 := 0
  pending : List UInt32 := []

namespace Seeded

/-- The stream of a key of 32 bytes, of which every four make a word, the lowest byte first. -/
def ofKey (key : Bytes) : Seeded :=
  let words := (chunksOf 4 key).map fun four => UInt32.ofNat (bigEndian four.reverse)
  { key := Vector.ofFn fun i : Fin 8 => words.getD i.val 0 }

/-- The next state of the congruential generator that spreads a seed. -/
def spreadStep (s : UInt64) : UInt64 := s * 6364136223846793005 + 11634580027462260723

def spreadWord (s : UInt64) : UInt32 :=
  let x := (((s >>> 18) ^^^ s) >>> 27).toUInt32
  let turn := (s >>> 59).toUInt32
  (x >>> turn) ||| (x <<< ((32 - turn) % 32))

def ofSeed (seed : UInt64) : Seeded :=
  let states := (List.range 8).map fun i => (i + 1).repeat spreadStep seed
  { key := Vector.ofFn fun i : Fin 8 => spreadWord (states.getD i.val 0) }

def nextWord (r : Seeded) : UInt32 × Seeded :=
  match r.pending with
  | word :: rest => (word, { r with pending := rest })
  | [] =>
    let words := ChaCha.block r.key r.counter
    (words.headD 0, { r with counter := r.counter + 1, pending := words.tail })

/-- Two words of the stream, the lower one first. -/
def nextLong (r : Seeded) : Nat × Seeded :=
  let (low, r) := r.nextWord
  let (high, r) := r.nextWord
  (high.toNat * UInt32.size + low.toNat, r)

/-- The greatest low half of a product for which every answer is equally likely. -/
def zone (n : Nat) : Nat := ((n <<< (63 - Nat.log2 n)) - 1) % UInt64.size

/-- The high half of the first product of a draw and `n` whose low half is in the zone. Nothing
comes of a stream without such a draw. -/
def scaled (n : Nat) (r : Seeded) : Option (Nat × Seeded) :=
  let (v, next) := r.nextLong
  if v * n % UInt64.size ≤ zone n then some (v * n / UInt64.size, next) else next |>.scaled n
partial_fixpoint

/-- Bounds are taken as 64-bit numbers. Nothing is drawn for a bound of zero. A source has to
answer: a stream that never comes to an answer is taken to answer zero. -/
def below (r : Seeded) (n : Nat) : Nat × Seeded :=
  if n = 0 then (0, r) else (scaled n r).getD (0, r)

theorem nextLong_lt (r : Seeded) : r.nextLong.1 < UInt64.size := by
  have hlow : r.nextWord.1.toNat < UInt32.size := UInt32.toNat_lt_size _
  have hhigh : r.nextWord.2.nextWord.1.toNat < UInt32.size := UInt32.toNat_lt_size _
  change r.nextWord.2.nextWord.1.toNat * UInt32.size + r.nextWord.1.toNat < UInt64.size
  unfold UInt32.size UInt64.size at *
  omega

theorem scaled_lt {n : Nat} (hn : 0 < n) {r : Seeded} {answer : Nat × Seeded}
    (h : scaled n r = some answer) : answer.1 < n := by
  refine scaled.partial_correctness n (fun _ answer => answer.1 < n) ?_ r answer h
  intro scaled ih r answer h
  dsimp only at h
  split at h
  · cases h
    -- the high half of the product of a bound and 64 bits is below the bound
    exact Nat.div_lt_of_lt_mul (Nat.mul_lt_mul_of_pos_right r.nextLong_lt hn)
  · exact ih _ _ h

theorem below_lt {n : Nat} (hn : 0 < n) (r : Seeded) : (r.below n).1 < n := by
  unfold below
  rw [if_neg (Nat.ne_of_gt hn)]
  cases h : scaled n r with
  | none => exact hn
  | some answer => exact scaled_lt hn h

end Seeded

instance : Randomizer Seeded where
  below := Seeded.below
  succ_lt r n h := by
    rcases Nat.eq_zero_or_pos n with rfl | hn
    · exact (by decide : 0 + 1 < UInt64.size)
    · exact Nat.lt_of_le_of_lt (Seeded.below_lt hn r) h

end Genesis
