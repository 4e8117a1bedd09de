import Genesis.Codec.Bits
import Mathlib.Tactic.Linarith
import Mathlib.Tactic.Ring

/-! Numbers as strings of bits of one width, and lists as chunks of one size. -/

namespace Genesis

namespace Bits

@[simp] theorem length_ofNat (width n : Nat) : (ofNat width n).length = width := by
  induction width with
  | zero => rfl
  | succ width ih => rw [ofNat, List.length_cons, ih]

theorem foldl_eq (bits : List Bool) (n : Nat) :
    bits.foldl (fun n b => 2 * n + b.toNat) n = n * 2 ^ bits.length + toNat bits := by
  induction bits generalizing n with
  | nil => simp [toNat]
  | cons b bits ih =>
    unfold toNat
    rw [List.foldl_cons, ih, List.foldl_cons, ih, List.length_cons, Nat.pow_succ]
    ring

theorem toNat_cons (b : Bool) (bits : List Bool) :
    toNat (b :: bits) = 2 ^ bits.length * b.toNat + toNat bits := by
  rw [toNat, List.foldl_cons, foldl_eq]
  ring

theorem toNat_lt (bits : List Bool) : toNat bits < 2 ^ bits.length := by
  induction bits with
  | nil => exact Nat.one_pos
  | cons b bits ih =>
    have hb : 2 ^ bits.length * b.toNat ≤ 2 ^ bits.length :=
      (Nat.mul_le_mul_left _ b.toNat_le).trans_eq (Nat.mul_one _)
    rw [toNat_cons, List.length_cons, Nat.pow_succ]
    omega

theorem toNat_ofNat (width n : Nat) : toNat (ofNat width n) = n % 2 ^ width := by
  induction width with
  | zero => simp [ofNat, toNat, Nat.mod_one]
  | succ width ih =>
    rw [ofNat, toNat_cons, length_ofNat, ih, Nat.mod_pow_succ, Nat.toNat_testBit]
    exact Nat.add_comm ..

theorem ofNat_mod {width m : Nat} (h : width ≤ m) (n : Nat) :
    ofNat width (n % 2 ^ m) = ofNat width n := by
  induction width with
  | zero => rfl
  | succ width ih =>
    have hlt : width < m := h
    rw [ofNat, ofNat, ih hlt.le, Nat.testBit_mod_two_pow]
    simp only [hlt, decide_true, Bool.true_and]

theorem ofNat_toNat (bits : List Bool) : ofNat bits.length (toNat bits) = bits := by
  induction bits with
  | nil => rfl
  | cons b bits ih =>
    have hlow : toNat (b :: bits) % 2 ^ bits.length = toNat bits := by
      rw [toNat_cons, Nat.mul_add_mod, Nat.mod_eq_of_lt (toNat_lt bits)]
    have hhigh : (toNat (b :: bits)).testBit bits.length = b := by
      rw [toNat_cons, Nat.testBit_two_pow_mul_add _ (toNat_lt bits), if_neg (lt_irrefl _),
        Nat.sub_self]
      cases b <;> rfl
    rw [List.length_cons, ofNat, hhigh, ← ofNat_mod le_rfl, hlow, ih]

end Bits

section Chunks

variable {α β : Type} {size : Nat}

theorem length_flatMap_of_length {f : α → List β} (hf : ∀ a, (f a).length = size) (l : List α) :
    (l.flatMap f).length = size * l.length := by
  simp only [List.length_flatMap, hf, List.map_const', List.sum_replicate_nat, Nat.mul_comm]

theorem chunksOf_go_flatMap (hs : 0 < size) {f : α → List β} (hf : ∀ a, (f a).length = size)
    (n : Nat) (l : List α) (hl : size * l.length ≤ n) :
    chunksOf.go size n (l.flatMap f) = l.map f := by
  induction l generalizing n with
  | nil => cases n <;> rfl
  | cons a l ih =>
    rw [List.length_cons, Nat.mul_succ] at hl
    obtain ⟨n, rfl⟩ : ∃ k, n = k + 1 := ⟨n - 1, by omega⟩
    have hne : (a :: l).flatMap f ≠ [] := by
      rw [List.flatMap_cons, ← List.length_pos_iff, List.length_append, hf]
      omega
    rw [chunksOf.go.eq_3 _ _ _ hne, List.flatMap_cons, List.take_left' (hf a),
      List.drop_left' (hf a), ih n (by omega), List.map_cons]

theorem chunksOf_flatMap (hs : 0 < size) {f : α → List β} (hf : ∀ a, (f a).length = size)
    (l : List α) : chunksOf size (l.flatMap f) = l.map f :=
  chunksOf_go_flatMap hs hf _ l (length_flatMap_of_length hf l).ge

theorem flatten_chunksOf_go (hs : 0 < size) (n : Nat) (l : List α) (hl : l.length ≤ n) :
    (chunksOf.go size n l).flatten = l := by
  induction n generalizing l with
  | zero =>
    rw [List.length_eq_zero_iff.mp (Nat.le_zero.mp hl)]
    rfl
  | succ n ih =>
    cases l with
    | nil => rfl
    | cons a l =>
      have hdrop : ((a :: l).drop size).length ≤ n := by
        rw [List.length_drop]
        omega
      rw [chunksOf.go, List.flatten_cons, ih _ hdrop, List.take_append_drop]
      exact List.cons_ne_nil a l

theorem flatten_chunksOf (hs : 0 < size) (l : List α) : (chunksOf size l).flatten = l :=
  flatten_chunksOf_go hs l.length l le_rfl

theorem length_of_mem_chunksOf_go (n : Nat) (l : List α) (hd : size ∣ l.length) :
    ∀ c ∈ chunksOf.go size n l, c.length = size := by
  induction n generalizing l with
  | zero => exact fun c hc => by cases hc
  | succ n ih =>
    cases l with
    | nil => exact fun c hc => by cases hc
    | cons a l =>
      have hle : size ≤ (a :: l).length := Nat.le_of_dvd (Nat.succ_pos _) hd
      intro c hc
      rw [chunksOf.go] at hc
      · rcases List.mem_cons.mp hc with rfl | hc
        · rw [List.length_take, Nat.min_eq_left hle]
        · refine ih _ ?_ c hc
          rw [List.length_drop]
          exact Nat.dvd_sub hd (dvd_refl size)
      · exact List.cons_ne_nil a l

theorem length_of_mem_chunksOf {l : List α} (hd : size ∣ l.length) {c : List α}
    (hc : c ∈ chunksOf size l) : c.length = size :=
  length_of_mem_chunksOf_go l.length l hd c hc

theorem bounds_of_mem_chunksOf_go (hs : 0 < size) (n : Nat) (l : List α) :
    ∀ c ∈ chunksOf.go size n l, 0 < c.length ∧ c.length ≤ size := by
  induction n generalizing l with
  | zero => exact fun c hc => by cases hc
  | succ n ih =>
    cases l with
    | nil => exact fun c hc => by cases hc
    | cons a l =>
      rw [chunksOf.go.eq_3 _ _ _ (List.cons_ne_nil a l)]
      refine List.forall_mem_cons.mpr ⟨?_, ih _⟩
      rw [List.length_take, List.length_cons]
      omega

theorem bounds_of_mem_chunksOf (hs : 0 < size) {l c : List α} (hc : c ∈ chunksOf size l) :
    0 < c.length ∧ c.length ≤ size :=
  bounds_of_mem_chunksOf_go hs l.length l c hc

theorem length_of_mem_dropLast_chunksOf_go (n : Nat) (l : List α) :
    ∀ c ∈ (chunksOf.go size n l).dropLast, c.length = size := by
  induction n generalizing l with
  | zero => exact fun c hc => by cases hc
  | succ n ih =>
    cases l with
    | nil => exact fun c hc => by cases hc
    | cons a l =>
      rw [chunksOf.go.eq_3 _ _ _ (List.cons_ne_nil a l)]
      cases hrest : chunksOf.go size n ((a :: l).drop size) with
      | nil => exact fun c hc => by cases hc
      -- a piece before another one leaves something to it, so it is full
      | cons d ds =>
        have hne : (a :: l).drop size ≠ [] := by
          intro hnil
          rw [hnil] at hrest
          cases n <;> cases hrest
        have hlt : size < (a :: l).length := Nat.lt_of_not_le (mt List.drop_eq_nil_of_le hne)
        rw [List.dropLast_cons_cons]
        refine List.forall_mem_cons.mpr ⟨?_, hrest ▸ ih _⟩
        rw [List.length_take, Nat.min_eq_left hlt.le]

theorem length_of_mem_dropLast_chunksOf {l c : List α} (hc : c ∈ (chunksOf size l).dropLast) :
    c.length = size :=
  length_of_mem_dropLast_chunksOf_go l.length l c hc

end Chunks

theorem Bits.flatMap_chunksOf {width : Nat} (hw : 0 < width) {bits : List Bool}
    (hd : width ∣ bits.length) :
    (chunksOf width bits).flatMap (fun piece => Bits.ofNat width (Bits.toNat piece)) = bits := by
  have hpiece : ∀ piece ∈ chunksOf width bits, Bits.ofNat width (Bits.toNat piece) = piece := by
    intro piece hmem
    have hlength := length_of_mem_chunksOf hd hmem
    exact (congrArg (Bits.ofNat · (Bits.toNat piece)) hlength.symm).trans (Bits.ofNat_toNat piece)
  rw [List.flatMap_def, List.map_congr_left hpiece, List.map_id']
  exact flatten_chunksOf hw bits

end Genesis
