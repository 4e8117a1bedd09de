import Genesis.Proofs.Bytes
import Genesis.Proofs.Shard
import Mathlib.Data.Nat.Log

/-!
The shard of an address is told by the number that its last bytes make. It is always one of the
shards that there are, each of these is met, and all numbers on the way fit into words.
-/

namespace Genesis.Coordinator

variable {c : Coordinator} {address other : Bytes}

/-- The number in the last bytes of an address, where bytes that it does not have are zero. -/
def number (c : Coordinator) (address : Bytes) : Nat :=
  bigEndian ((List.replicate c.bytesNeeded 0 ++ address).drop address.length)

theorem bigEndian_drop (c : Coordinator) (address : Bytes) :
    bigEndian (address.drop (address.length - c.bytesNeeded)) = c.number address := by
  rw [number, List.drop_append, List.drop_replicate, List.length_replicate,
    bigEndian_replicate_append]

theorem bytesNeeded_le_iff_le_pow {k : Nat} :
    c.bytesNeeded ≤ k ↔ 1 ≤ k ∧ c.count ≤ 256 ^ k := by
  have hcount : c.count < 4294967296 := c.count_lt
  have hmono : ∀ j, j ≤ k → 256 ^ j ≤ 256 ^ k := fun j => Nat.pow_le_pow_right (by decide)
  rcases k with _ | _ | _ | _ | k
  · unfold bytesNeeded
    split_ifs <;> omega
  · unfold bytesNeeded
    split_ifs <;> omega
  · unfold bytesNeeded
    split_ifs <;> omega
  · unfold bytesNeeded
    split_ifs <;> omega
  · have h4 := hmono 4 (by omega)
    unfold bytesNeeded
    split_ifs <;> omega

theorem le_pow_bytesNeeded (c : Coordinator) : c.count ≤ 256 ^ c.bytesNeeded :=
  (bytesNeeded_le_iff_le_pow.mp le_rfl).2

theorem number_lt (c : Coordinator) (address : Bytes) : c.number address < 256 ^ c.bytesNeeded := by
  have hlength : ((List.replicate c.bytesNeeded 0 ++ address).drop address.length).length =
      c.bytesNeeded := by
    rw [List.length_drop, List.length_append, List.length_replicate, Nat.add_sub_cancel]
  have hlt := bigEndian_lt ((List.replicate c.bytesNeeded 0 ++ address).drop address.length)
  rwa [hlength] at hlt

theorem width_le_iff {w : Nat} : c.width ≤ w ↔ c.count ≤ 2 ^ w := by
  have hpos := c.count_pos
  unfold width
  split_ifs with h
  · rw [h]
    exact ⟨fun _ => Nat.one_le_two_pow, fun _ => w.zero_le⟩
  · rw [Nat.succ_le_iff, Nat.log2_lt (by omega)]
    omega

theorem width_eq_clog (c : Coordinator) : c.width = Nat.clog 2 c.count :=
  eq_of_forall_ge_iff fun _ => width_le_iff.trans (Nat.clog_le_iff_le_pow (by decide)).symm

theorem width_le (c : Coordinator) : c.width ≤ 32 :=
  width_le_iff.mpr c.count_lt.le

theorem shardOf_eq_of_number (c : Coordinator) (address : Bytes) :
    c.shardOf address =
      if c.number address % 2 ^ c.width < c.count then c.number address % 2 ^ c.width
      else c.number address % 2 ^ (c.width - 1) :=
  shardOf_eq (c.bigEndian_drop address)

/-- What is left without the highest bit is a shard, since the width is no greater than needed. -/
theorem two_pow_width_pred_lt (h : c.count ≠ 1) : 2 ^ (c.width - 1) < c.count := by
  have hwidth : 0 < c.width := by
    unfold width
    rw [if_neg h]
    exact Nat.succ_pos _
  refine Nat.lt_of_not_le fun hle => ?_
  have hsmaller := width_le_iff.mpr hle
  omega

theorem shardOf_lt (c : Coordinator) (address : Bytes) : c.shardOf address < c.count := by
  rw [shardOf_eq_of_number]
  split_ifs with h
  · exact h
  · have hmany : c.count ≠ 1 := by
      intro hone
      have hwidth : c.width = 0 := if_pos hone
      rw [hwidth, hone, Nat.pow_zero, Nat.mod_one] at h
      exact h Nat.one_pos
    exact (Nat.mod_lt _ (Nat.two_pow_pos _)).trans (two_pow_width_pred_lt hmany)

theorem exists_shardOf_eq {shard : Nat} (h : shard < c.count) :
    ∃ address : Bytes, address.length = c.bytesNeeded ∧ c.shardOf address = shard := by
  obtain ⟨address, hlength, hvalue⟩ := exists_bigEndian (h.trans_le c.le_pow_bytesNeeded)
  have hall : address.drop (address.length - c.bytesNeeded) = address := by
    rw [hlength, Nat.sub_self, List.drop_zero]
  refine ⟨address, hlength, ?_⟩
  rw [shardOf_eq_self (by rwa [hall, hvalue]), hall, hvalue]

/-- How the number of an address decides on its shard: as it is, if it is that of a shard, and else
by its lowest bits. -/
structure Places (c : Coordinator) (address : Bytes) : Prop where
  lt : c.shardOf address < c.count
  congr : ∀ other, c.number other = c.number address → c.shardOf other = c.shardOf address
  of_lt : c.number address < c.count → c.shardOf address = c.number address
  of_two_pow : ∀ m, c.count = 2 ^ m → c.shardOf address = c.number address % c.count
  eq : c.shardOf address =
    if c.number address % 2 ^ Nat.clog 2 c.count < c.count then
      c.number address % 2 ^ Nat.clog 2 c.count
    else c.number address % 2 ^ (Nat.clog 2 c.count - 1)

theorem places (c : Coordinator) (address : Bytes) : c.Places address where
  lt := c.shardOf_lt address
  congr other h := by rw [shardOf_eq_of_number, shardOf_eq_of_number, h]
  of_lt h := by
    rw [← bigEndian_drop] at h ⊢
    exact shardOf_eq_self h
  of_two_pow m hm := by
    have hwidth : c.width = m := by rw [width_eq_clog, hm, Nat.clog_pow 2 m (by decide)]
    have hlt : c.number address % c.count < c.count := Nat.mod_lt _ c.count_pos
    rw [shardOf_eq_of_number, hwidth, ← hm, if_pos hlt]
  eq := by
    rw [← width_eq_clog]
    exact c.shardOf_eq_of_number address

/-- A mask of some bits: shifted in a word of 64 bits, of which the lower half is kept. -/
def wordMask (bits : Nat) : UInt32 := ((1 <<< UInt64.ofNat bits) - 1).toUInt32

theorem toNat_wordMask {bits : Nat} (h : bits ≤ 32) :
    (wordMask bits).toNat = (1 <<< bits) - 1 := by
  have hpow : 2 ^ bits ≤ 2 ^ 32 := Nat.pow_le_pow_right (by decide) h
  have hone := Nat.one_le_two_pow (n := bits)
  have hshift : ((1 : UInt64) <<< UInt64.ofNat bits).toNat = 2 ^ bits := by
    rw [UInt64.toNat_shiftLeft, UInt64.toNat_ofNat', Nat.shiftLeft_eq, UInt64.toNat_one,
      Nat.mod_eq_of_lt (a := bits) (by omega), Nat.mod_eq_of_lt (a := bits) (by omega), Nat.one_mul,
      Nat.mod_eq_of_lt (by omega)]
  have hle : (1 : UInt64) ≤ 1 <<< UInt64.ofNat bits := by
    rw [UInt64.le_iff_toNat_le, hshift]
    exact hone
  rw [wordMask, UInt64.toNat_toUInt32, UInt64.toNat_sub_of_le _ _ hle, hshift, UInt64.toNat_one,
    Nat.shiftLeft_eq, Nat.one_mul, Nat.mod_eq_of_lt (by omega)]

theorem width_eq_of_toNat {word : BitVec 32} (h : word.toNat = c.count - 1) :
    c.width = 32 - word.clz.toNat := by
  have hpos := c.count_pos
  have hbelow := BitVec.toNat_lt_two_pow_sub_clz (x := word)
  refine Nat.le_antisymm (width_le_iff.mpr (by omega)) ?_
  by_cases hzero : word = 0
  · have hall : word.clz.toNat = 32 := by
      rw [BitVec.clz_eq_iff_eq_zero.mpr hzero]
      rfl
    rw [hall]
    exact c.width.zero_le
  · have habove := BitVec.two_pow_sub_clz_le_toNat_of_ne_zero (by decide) hzero
    have hcount := width_le_iff.mp (le_refl c.width)
    have hlt : 32 - 1 - word.clz.toNat < c.width :=
      (Nat.pow_lt_pow_iff_right (by decide)).mp (habove.trans_lt (by omega))
    omega

/-- Words of 32 bits, and one of 64 bits for a shift, are enough to compute with `n` shards: the
bits behind the leading zeros of the greatest shard give the width, and nothing is lost. -/
structure FitsWords (c : Coordinator) (n : UInt32) : Prop where
  greatest : (n - 1).toNat = c.count - 1
  width_eq : c.width = 32 - (n - 1).toBitVec.clz.toNat
  width_le : c.width ≤ 32
  highMask : (wordMask c.width).toNat = c.highMask
  lowMask : (wordMask (c.width - 1)).toNat = c.lowMask
  number_lt : ∀ address, c.number address < UInt32.size

theorem fitsWords {n : UInt32} (h : c.count = n.toNat) : c.FitsWords n := by
  have hpos : 1 ≤ n := UInt32.le_iff_toNat_le.mpr (h ▸ c.count_pos)
  have hgreatest : (n - 1).toNat = c.count - 1 := by
    rw [UInt32.toNat_sub_of_le _ _ hpos, h]
    rfl
  refine ⟨hgreatest, width_eq_of_toNat hgreatest, c.width_le, toNat_wordMask c.width_le,
    toNat_wordMask ((c.width.sub_le 1).trans c.width_le), fun address => ?_⟩
  have hbytes : c.bytesNeeded ≤ 4 := bytesNeeded_le_iff_le_pow.mpr ⟨by decide, c.count_lt.le⟩
  exact (c.number_lt address).trans_le (Nat.pow_le_pow_right (by decide) hbytes)

end Genesis.Coordinator

namespace Genesis

/-- Every count of shards from one on makes a coordinator that fits into words. It places every
address by the number in its last bytes, into shards that there are, and leaves no shard out. -/
theorem shards_are_reached (n : UInt32) (hn : 1 ≤ n.toNat) :
    ∃ c, Coordinator.ofCount? n = .ok c ∧ c.count = n.toNat ∧ c.FitsWords n ∧
      (∀ k, c.bytesNeeded ≤ k ↔ 1 ≤ k ∧ n.toNat ≤ 256 ^ k) ∧ (∀ address, c.Places address) ∧
      ∀ shard < n.toNat, ∃ address : Bytes,
        address.length = c.bytesNeeded ∧ c.shardOf address = shard := by
  refine ⟨⟨n.toNat, hn, n.toNat_lt⟩, dif_pos hn, rfl, Coordinator.fitsWords rfl,
    fun _ => Coordinator.bytesNeeded_le_iff_le_pow, Coordinator.places _, fun shard hshard => ?_⟩
  exact Coordinator.exists_shardOf_eq hshard

/-- With one shard more than half of all numbers of four bytes, the greatest of these numbers loses
its highest bit, and the last shard is met all the same. -/
theorem shards_beyond_half_are_reached :
    1 ≤ (2147483649 : UInt32).toNat ∧ ∃ c, Coordinator.ofCount? 2147483649 = .ok c ∧
      c.FitsWords 2147483649 ∧ c.bytesNeeded = 4 ∧
      c.shardOf [255, 255, 255, 255] = 2147483647 ∧
      ∃ address : Bytes, address.length = 4 ∧ c.shardOf address = 2147483648 := by
  have hn : 1 ≤ (2147483649 : UInt32).toNat := by decide
  obtain ⟨c, hc, _, hwords, hbytes, _, hreached⟩ := shards_are_reached 2147483649 hn
  have hfour : c.bytesNeeded = 4 := by
    have hle := (hbytes 4).mpr (by decide)
    have hlt := mt (hbytes 3).mp (by decide)
    omega
  have hgreatest : c.shardOf [255, 255, 255, 255] = 2147483647 := by
    cases hc
    rfl
  obtain ⟨address, hlength, hlast⟩ := hreached 2147483648 (by decide)
  exact ⟨hn, c, hc, hwords, hfour, hgreatest, address, hlength.trans hfour, hlast⟩

end Genesis
