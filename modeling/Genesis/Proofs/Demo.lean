import Genesis.Demo
import Genesis.Proofs.Steps

/-! Which accounts keep their addresses when the last four are given others. -/

namespace Genesis.DemoAddresses

open Steps

variable {d : DemoAddresses} {format : KeyFormat} {accounts accounts' : List Account}

theorem apply_of_lt (h : accounts.length < 4) :
    d.apply format accounts = .error (.invalidValue "number of accounts for demo addresses") :=
  if_pos h

theorem apply_of_le (h : 4 ≤ accounts.length) :
    d.apply format accounts =
      (d.toList.forM fun address => discard (format.decode address)) >>= fun _ =>
        .ok (accounts.take (accounts.length - 4) ++
          (accounts.drop (accounts.length - 4)).zipWith (fun a address => { a with address })
            d.toList) :=
  if_neg (Nat.not_lt.mpr h)

theorem apply_eq_ok_iff :
    d.apply format accounts = .ok accounts' ↔
      4 ≤ accounts.length ∧ (∀ address ∈ d.toList, ∃ key, format.decode address = .ok key) ∧
        accounts' = accounts.take (accounts.length - 4) ++
          (accounts.drop (accounts.length - 4)).zipWith (fun a address => { a with address })
            d.toList := by
  by_cases hfew : accounts.length < 4
  · rw [apply_of_lt hfew]
    exact ⟨nofun, fun h => absurd hfew (Nat.not_lt.mpr h.1)⟩
  · rw [apply_of_le (Nat.not_lt.mp hfew), bind_eq_ok, and_iff_right (Nat.not_lt.mp hfew)]
    simp only [forM_discard_eq_ok, Except.ok.injEq, exists_const, eq_comm (a := accounts')]

theorem apply_eq_error_iff {e : Error} :
    d.apply format accounts = .error e ↔
      accounts.length < 4 ∧ e = .invalidValue "number of accounts for demo addresses" ∨
      4 ≤ accounts.length ∧ FailsFirst format.decode d.toList e := by
  rw [← forM_discard_eq_error]
  by_cases hfew : accounts.length < 4
  · rw [apply_of_lt hfew, Except.error.injEq, and_iff_right hfew, eq_comm,
      or_iff_left fun h => Nat.not_lt.mpr h.1 hfew]
  · rw [apply_of_le (Nat.not_lt.mp hfew), and_iff_right (Nat.not_lt.mp hfew),
      or_iff_right fun h => hfew h.1, bind_eq_error]
    simp only [reduceCtorEq, and_false, exists_false, or_false]

theorem mem_of_apply (h : d.apply format accounts = .ok accounts') {a : Account}
    (ha : a ∈ accounts.take (accounts.length - 4)) : a ∈ accounts' := by
  obtain ⟨_, _, rfl⟩ := apply_eq_ok_iff.mp h
  exact List.mem_append_left _ ha

theorem address_of_apply (h : d.apply format accounts = .ok accounts') (hfour : accounts.length = 4)
    {a : Account} (ha : a ∈ accounts') : a.address ∈ d.toList := by
  obtain ⟨_, _, rfl⟩ := apply_eq_ok_iff.mp h
  rw [hfour, Nat.sub_self, List.take_zero, List.drop_zero, List.nil_append,
    ← List.map_uncurry_zip_eq_zipWith] at ha
  obtain ⟨⟨_, address⟩, hpair, rfl⟩ := List.mem_map.mp ha
  exact (List.of_mem_zip hpair).2

end Genesis.DemoAddresses
