import Genesis.Bytes
import Mathlib.Algebra.Group.Nat.Even
import Mathlib.Data.List.Induction

/-! Numbers and the bytes that write them, most significant first. -/

namespace Genesis

theorem bigEndian_concat (bytes : Bytes) (b : UInt8) :
    bigEndian (bytes ++ [b]) = 256 * bigEndian bytes + b.toNat := by
  simp only [bigEndian, List.foldl_append, List.foldl_cons, List.foldl_nil]

theorem bigEndian_replicate_append (n : Nat) (bytes : Bytes) :
    bigEndian (List.replicate n 0 ++ bytes) = bigEndian bytes := by
  induction n with
  | zero => rfl
  | succ n ih =>
    rw [List.replicate_succ, List.cons_append, ← ih]
    rfl

theorem bigEndian_lt (bytes : Bytes) : bigEndian bytes < 256 ^ bytes.length := by
  induction bytes using List.reverseRecOn with
  | nil => decide
  | append_singleton bytes b ih =>
    have hb := b.toNat_lt
    rw [bigEndian_concat, List.length_append, List.length_singleton, Nat.pow_succ]
    omega

theorem bigEndian_reverse_littleEndian (width n : Nat) :
    bigEndian (littleEndian width n).reverse = n % 256 ^ width := by
  induction width generalizing n with
  | zero =>
    rw [Nat.pow_zero, Nat.mod_one]
    rfl
  | succ width ih =>
    have hsplit : n % 256 ^ (width + 1) = n % 256 + 256 * (n / 256 % 256 ^ width) := by
      rw [Nat.pow_succ', Nat.mod_mul]
    rw [littleEndian, List.reverse_cons, bigEndian_concat, ih, UInt8.toNat_ofNat', hsplit,
      Nat.add_comm]

theorem exists_bigEndian {width n : Nat} (h : n < 256 ^ width) :
    ∃ bytes : Bytes, bytes.length = width ∧ bigEndian bytes = n := by
  refine ⟨(littleEndian width n).reverse, ?_, ?_⟩
  · rw [List.length_reverse, length_littleEndian]
  · rw [bigEndian_reverse_littleEndian, Nat.mod_eq_of_lt h]

end Genesis
