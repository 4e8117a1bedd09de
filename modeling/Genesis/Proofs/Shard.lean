import Genesis.Shard
import Mathlib.Algebra.Group.Nat.Even
import Mathlib.Data.List.Basic

/-!
Where addresses fall: only their last bytes count, and those that are the number of a shard lead to
that shard.
-/

namespace Genesis.Coordinator

variable {c : Coordinator} {address other : Bytes} {b : UInt8}

theorem count_le_two_pow_width (c : Coordinator) : c.count ≤ 2 ^ c.width := by
  have hpos := c.count_pos
  unfold width
  split_ifs with h
  · rw [h]
    decide
  · have hlt : c.count - 1 < 2 ^ (Nat.log2 (c.count - 1) + 1) := Nat.lt_log2_self
    omega

theorem shardOf_congr (h : address.drop (address.length - c.bytesNeeded) =
    other.drop (other.length - c.bytesNeeded)) : c.shardOf address = c.shardOf other := by
  unfold shardOf
  rw [h]

/-- A number keeps its lowest bits, one fewer if it would lie beyond the last shard. -/
theorem shardOf_eq {n : Nat}
    (hn : bigEndian (address.drop (address.length - c.bytesNeeded)) = n) :
    c.shardOf address =
      if n % 2 ^ c.width < c.count then n % 2 ^ c.width else n % 2 ^ (c.width - 1) := by
  have hpos := c.count_pos
  have hbeyond : c.count - 1 < n % 2 ^ c.width ↔ ¬n % 2 ^ c.width < c.count := by omega
  unfold shardOf highMask lowMask
  dsimp only
  simp only [hn, Nat.shiftLeft_eq, Nat.one_mul, Nat.and_two_pow_sub_one_eq_mod, hbeyond, ite_not]

theorem shardOf_eq_self
    (h : bigEndian (address.drop (address.length - c.bytesNeeded)) < c.count) :
    c.shardOf address = bigEndian (address.drop (address.length - c.bytesNeeded)) := by
  have hmask := Nat.lt_of_lt_of_le h c.count_le_two_pow_width
  rw [shardOf_eq rfl, Nat.mod_eq_of_lt hmask, if_pos h]

theorem shardOf_ne_zero {k : Nat} (hc : 2 ^ k < c.count)
    (hn : bigEndian (address.drop (address.length - c.bytesNeeded)) % 2 ^ (k + 1) = 2 ^ k) :
    c.shardOf address ≠ 0 := by
  have hwidth : k < c.width :=
    (Nat.pow_lt_pow_iff_right (by decide)).mp (Nat.lt_of_lt_of_le hc c.count_le_two_pow_width)
  have hbit : ∀ w, k < w →
      bigEndian (address.drop (address.length - c.bytesNeeded)) % 2 ^ w ≠ 0 := by
    intro w hw hzero
    have hlow := Nat.mod_mod_of_dvd (bigEndian (address.drop (address.length - c.bytesNeeded)))
      (Nat.pow_dvd_pow 2 hw)
    rw [hzero, Nat.zero_mod, hn] at hlow
    exact Nat.ne_of_lt (Nat.two_pow_pos k) hlow
  rw [shardOf_eq rfl]
  split
  · exact hbit _ hwidth
  · rename_i hbeyond
    -- were it the highest bit, the number would be that of a shard
    refine hbit _ (Nat.lt_of_le_of_ne (Nat.le_sub_one_of_lt hwidth) fun hhighest => hbeyond ?_)
    rw [show c.width = k + 1 by omega, hn]
    exact hc

theorem shardOf_of_getLast? (hc : c.count ≤ 256) (hb : address.getLast? = some b)
    (hlt : b.toNat < c.count) : c.shardOf address = b.toNat := by
  obtain ⟨before, rfl⟩ := List.getLast?_eq_some_iff.mp hb
  have hbytes : c.bytesNeeded = 1 := if_pos hc
  have hlast : (before ++ [b]).drop ((before ++ [b]).length - c.bytesNeeded) = [b] := by
    rw [hbytes, List.length_append, List.length_singleton, Nat.add_sub_cancel, List.drop_left]
  have hvalue : bigEndian [b] = b.toNat := by
    rw [bigEndian, List.foldl_cons, List.foldl_nil, Nat.mul_zero, Nat.zero_add]
  rw [shardOf_eq_self (by rwa [hlast, hvalue]), hlast, hvalue]

end Genesis.Coordinator
