import Mathlib.Data.List.Forall2

/-! Chains of steps that may fail: what is known of each step when the whole chain succeeds. -/

namespace Genesis.Steps

variable {ε α β γ δ : Type}

theorem bind_eq_ok {x : Except ε α} {f : α → Except ε β} {b : β} :
    x >>= f = .ok b ↔ ∃ a, x = .ok a ∧ f a = .ok b := by
  cases x with
  | error e => simp only [bind, Except.bind, reduceCtorEq, false_and, exists_false]
  | ok a => simp only [bind, Except.bind, Except.ok.injEq, exists_eq_left']

theorem bind_eq_error {x : Except ε α} {f : α → Except ε β} {e : ε} :
    x >>= f = .error e ↔ x = .error e ∨ ∃ a, x = .ok a ∧ f a = .error e := by
  cases x with
  | error e' =>
    simp only [bind, Except.bind, Except.error.injEq, reduceCtorEq, false_and, exists_false,
      or_false]
  | ok a => simp only [bind, Except.bind, Except.ok.injEq, exists_eq_left', reduceCtorEq, false_or]

theorem pure_eq_ok {a b : α} : (pure a : Except ε α) = .ok b ↔ a = b :=
  ⟨fun h => Except.ok.inj h, fun h => congrArg Except.ok h⟩

section Attempts

variable {x : ExceptT ε Option α} {f : α → ExceptT ε Option β}

theorem bind_eq_some_ok {b : β} :
    x >>= f = some (.ok b) ↔ ∃ a, x = some (.ok a) ∧ f a = some (.ok b) := by
  constructor
  · intro h
    rcases x with _ | e | a
    · cases h
    · cases h
    · exact ⟨a, rfl, h⟩
  · rintro ⟨a, rfl, h⟩
    exact h

theorem bind_eq_none : x >>= f = none ↔ x = none ∨ ∃ a, x = some (.ok a) ∧ f a = none := by
  constructor
  · intro h
    rcases x with _ | e | a
    · exact .inl rfl
    · cases h
    · exact .inr ⟨a, rfl, h⟩
  · rintro (rfl | ⟨a, rfl, h⟩)
    · rfl
    · exact h

theorem lift_eq_some_iff {y r : Except ε α} : (y : ExceptT ε Option α) = some r ↔ y = r := by
  constructor
  · intro h
    exact Option.some.inj h
  · rintro rfl
    rfl

end Attempts

theorem mapError_bind_congr {ε' : Type} {look : ε → ε'} {x x' : Except ε α}
    {f f' : α → Except ε β} (hx : x'.mapError look = x.mapError look)
    (hf : ∀ a, (f' a).mapError look = (f a).mapError look) :
    (x' >>= f').mapError look = (x >>= f).mapError look := by
  cases x with
  | error e =>
    cases x' with
    | error e' => exact congrArg Except.error (Except.error.inj hx)
    | ok a' => cases hx
  | ok a =>
    cases x' with
    | error e' => cases hx
    | ok a' =>
      obtain rfl : a' = a := Except.ok.inj hx
      exact hf a'

theorem eq_ok_iff_of_mapError {ε' : Type} {look : ε → ε'} {x x' : Except ε α}
    (h : x'.mapError look = x.mapError look) {a : α} : x' = .ok a ↔ x = .ok a := by
  cases x with
  | error e =>
    cases x' with
    | error e' => simp only [reduceCtorEq]
    | ok a' => cases h
  | ok b =>
    cases x' with
    | error e' => cases h
    | ok b' => rw [Except.ok.inj h]

/-- Two chains end alike: with one and the same error, or with results that are as `R` says. -/
inductive EndAlike (R : α → β → Prop) : Except ε α → Except ε β → Prop
  | failed (e : ε) : EndAlike R (.error e) (.error e)
  | done {a : α} {b : β} (related : R a b) : EndAlike R (.ok a) (.ok b)

theorem EndAlike.bind {R : α → β → Prop} {S : γ → δ → Prop} {x : Except ε α} {y : Except ε β}
    {f : α → Except ε γ} {g : β → Except ε δ} (h : EndAlike R x y)
    (hf : ∀ a b, R a b → EndAlike S (f a) (g b)) : EndAlike S (x >>= f) (y >>= g) := by
  cases h with
  | failed e => exact .failed e
  | done related => exact hf _ _ related

theorem EndAlike.eq {x y : Except ε α} (h : EndAlike (· = ·) x y) : x = y := by
  cases h with
  | failed e => rfl
  | done related => exact congrArg Except.ok related

/-- If one of two attempts that end alike never ends, the other one does not either. -/
theorem rel_endAlike_bind {R : α → β → Prop} {S : γ → δ → Prop} {x : ExceptT ε Option α}
    {y : ExceptT ε Option β} {f : α → ExceptT ε Option γ} {g : β → ExceptT ε Option δ}
    (h : Option.Rel (EndAlike R) x.run y.run)
    (hf : ∀ a b, R a b → Option.Rel (EndAlike S) (f a).run (g b).run) :
    Option.Rel (EndAlike S) (x >>= f).run (y >>= g).run := by
  rcases x with _ | x
  · cases h
    exact .none
  · cases h with
    | some h =>
      cases h with
      | failed e => exact .some (.failed e)
      | done related => exact hf _ _ related

theorem eq_of_rel_endAlike {x y : ExceptT ε Option α}
    (h : Option.Rel (EndAlike (· = ·)) x.run y.run) : x = y := by
  rcases x with _ | x
  · cases h
    rfl
  · cases h with
    | some h => exact congrArg some h.eq

theorem of_guard {c : Prop} [Decidable c] {e : ε} {f : Unit → Except ε β} {b : β}
    (h : (if c then throw e >>= f else f ()) = .ok b) : ¬c ∧ f () = .ok b := by
  split at h
  · cases h
  · rename_i hc
    exact ⟨hc, h⟩

theorem exists_bind {x : Except ε α} {f : α → Except ε β} {a : α} (hx : x = .ok a)
    (hf : ∃ b, f a = .ok b) : ∃ b, x >>= f = .ok b := by
  obtain ⟨b, hb⟩ := hf
  exact ⟨b, bind_eq_ok.mpr ⟨a, hx, hb⟩⟩

theorem mapM_eq_ok {f : α → Except ε β} {l : List α} {l' : List β} :
    l.mapM f = .ok l' ↔ List.Forall₂ (fun a b => f a = .ok b) l l' := by
  induction l generalizing l' with
  | nil =>
    rw [List.mapM_nil, pure_eq_ok, List.forall₂_nil_left_iff]
    exact eq_comm
  | cons a l ih =>
    simp only [List.mapM_cons, bind_eq_ok, pure_eq_ok, ih, List.forall₂_cons_left_iff]
    constructor
    · rintro ⟨b, hb, bs, hbs, rfl⟩
      exact ⟨b, bs, hb, hbs, rfl⟩
    · rintro ⟨b, bs, hb, hbs, rfl⟩
      exact ⟨b, hb, bs, hbs, rfl⟩

theorem forM_discard_eq_ok {f : α → Except ε β} {l : List α} {u : PUnit} :
    l.forM (fun a => discard (f a)) = .ok u ↔ ∀ a ∈ l, ∃ b, f a = .ok b := by
  induction l with
  | nil => exact ⟨fun _ => List.forall_mem_nil _, fun _ => rfl⟩
  | cons a l ih =>
    have hdiscard : discard (f a) = .ok PUnit.unit ↔ ∃ b, f a = .ok b := by
      cases f a with
      | error e => exact ⟨nofun, nofun⟩
      | ok b => exact ⟨fun _ => ⟨b, rfl⟩, fun _ => rfl⟩
    rw [List.forM, bind_eq_ok, List.forall_mem_cons, ← ih, ← hdiscard]
    exact ⟨fun ⟨_, hfirst, hrest⟩ => ⟨hfirst, hrest⟩, fun ⟨hfirst, hrest⟩ => ⟨_, hfirst, hrest⟩⟩

/-- At one entry of a list `f` fails with `e`, and at none before it. -/
def FailsFirst (f : α → Except ε β) (l : List α) (e : ε) : Prop :=
  ∃ before a after, l = before ++ a :: after ∧ (∀ b ∈ before, ∃ c, f b = .ok c) ∧ f a = .error e

theorem not_failsFirst_nil {f : α → Except ε β} {e : ε} : ¬FailsFirst f [] e := by
  rintro ⟨before, a, after, hsplit, _⟩
  exact List.append_ne_nil_of_right_ne_nil before (List.cons_ne_nil a after) hsplit.symm

theorem failsFirst_cons {f : α → Except ε β} {a : α} {l : List α} {e : ε} :
    FailsFirst f (a :: l) e ↔ f a = .error e ∨ (∃ b, f a = .ok b) ∧ FailsFirst f l e := by
  constructor
  · rintro ⟨before, a', after, hsplit, hbefore, hfails⟩
    cases before with
    | nil =>
      obtain ⟨rfl, rfl⟩ := List.cons.inj hsplit
      exact .inl hfails
    | cons b before =>
      obtain ⟨rfl, rfl⟩ := List.cons.inj hsplit
      obtain ⟨hfirst, hbefore⟩ := List.forall_mem_cons.mp hbefore
      exact .inr ⟨hfirst, before, a', after, rfl, hbefore, hfails⟩
  · rintro (hfails | ⟨hfirst, before, a', after, rfl, hbefore, hfails⟩)
    · exact ⟨[], a, l, rfl, List.forall_mem_nil _, hfails⟩
    · exact ⟨a :: before, a', after, rfl, List.forall_mem_cons.mpr ⟨hfirst, hbefore⟩, hfails⟩

theorem failsFirst_map {f : β → Except ε γ} {g : α → β} {l : List α} {e : ε} :
    FailsFirst f (l.map g) e ↔ FailsFirst (fun a => f (g a)) l e := by
  induction l with
  | nil => exact iff_of_false not_failsFirst_nil not_failsFirst_nil
  | cons a l ih => rw [List.map_cons, failsFirst_cons, failsFirst_cons, ih]

theorem exists_failsFirst_iff {f : α → Except ε β} {l : List α} :
    (∃ e, FailsFirst f l e) ↔ ∃ a ∈ l, ¬∃ b, f a = .ok b := by
  induction l with
  | nil => simp [not_failsFirst_nil]
  | cons a l ih =>
    simp only [failsFirst_cons, exists_or, exists_and_left, ih, List.exists_mem_cons_iff]
    cases f a with
    | error e => simp
    | ok b => simp

theorem forM_discard_eq_error {f : α → Except ε β} {l : List α} {e : ε} :
    l.forM (fun a => discard (f a)) = .error e ↔ FailsFirst f l e := by
  induction l with
  | nil => exact iff_of_false nofun not_failsFirst_nil
  | cons a l ih =>
    rw [failsFirst_cons, ← ih, List.forM, bind_eq_error]
    cases f a with
    | error e' => simp [discard, Functor.mapConst, Except.map]
    | ok b => simp [discard, Functor.mapConst, Except.map]

theorem exists_mapM_eq_ok {f : α → Except ε β} {l : List α} (h : ∀ a ∈ l, ∃ b, f a = .ok b) :
    ∃ l', l.mapM f = .ok l' := by
  induction l with
  | nil => exact ⟨[], rfl⟩
  | cons a l ih =>
    obtain ⟨b, hb⟩ := h a List.mem_cons_self
    obtain ⟨bs, hbs⟩ := ih fun c hc => h c (List.mem_cons_of_mem a hc)
    refine ⟨b :: bs, mapM_eq_ok.2 (.cons hb (mapM_eq_ok.1 hbs))⟩

theorem map_eq_map_of_forall₂ {R : α → β → Prop} {l : List α} {l' : List β}
    (h : List.Forall₂ R l l') {f : α → γ} {g : β → γ} (hfg : ∀ a b, R a b → f a = g b) :
    l.map f = l'.map g := by
  induction h with
  | nil => rfl
  | cons hab _ ih => rw [List.map_cons, List.map_cons, hfg _ _ hab, ih]

theorem forall₂_of_forall₂ {R : α → β → Prop} {S : α → δ → Prop} {l : List α} {l₁ : List β}
    {l₂ : List δ} (h₁ : List.Forall₂ R l l₁) (h₂ : List.Forall₂ S l l₂) :
    List.Forall₂ (fun b d => ∃ a, R a b ∧ S a d) l₁ l₂ := by
  induction h₁ generalizing l₂ with
  | nil =>
    cases h₂
    exact .nil
  | cons hb _ ih =>
    obtain ⟨d, l₂, hd, hrest, rfl⟩ := List.forall₂_cons_left_iff.mp h₂
    exact .cons ⟨_, hb, hd⟩ (ih hrest)

theorem map_eq_map_of_ok {f : α → Except ε γ} {g : β → γ} {g' : δ → γ} {l : List α} {l₁ : List β}
    {l₂ : List δ} (h₁ : List.Forall₂ (fun a b => f a = .ok (g b)) l l₁)
    (h₂ : List.Forall₂ (fun a d => f a = .ok (g' d)) l l₂) : l₁.map g = l₂.map g' := by
  refine map_eq_map_of_forall₂ (forall₂_of_forall₂ h₁ h₂) ?_
  rintro b d ⟨a, hb, hd⟩
  exact Except.ok.inj (hb.symm.trans hd)

theorem exists_append_of_forall₂ {R : α → β → Prop} {l₁ l₂ : List α} {l : List β}
    (h : List.Forall₂ R (l₁ ++ l₂) l) :
    ∃ l₁' l₂', l = l₁' ++ l₂' ∧ List.Forall₂ R l₁ l₁' ∧ List.Forall₂ R l₂ l₂' := by
  induction l₁ generalizing l with
  | nil => exact ⟨[], l, rfl, .nil, h⟩
  | cons a l₁ ih =>
    obtain ⟨b, l, hab, hrest, rfl⟩ := List.forall₂_cons_left_iff.mp h
    obtain ⟨l₁', l₂', rfl, h₁, h₂⟩ := ih hrest
    exact ⟨b :: l₁', l₂', rfl, .cons hab h₁, h₂⟩

theorem exists_mem_of_forall₂ {R : α → β → Prop} {l : List α} {l' : List β}
    (h : List.Forall₂ R l l') {b : β} (hb : b ∈ l') : ∃ a ∈ l, R a b := by
  induction h with
  | nil => cases hb
  | cons hab _ ih =>
    rcases List.mem_cons.mp hb with rfl | hb
    · exact ⟨_, List.mem_cons_self, hab⟩
    · obtain ⟨a, ha, hab⟩ := ih hb
      exact ⟨a, List.mem_cons_of_mem _ ha, hab⟩

theorem nodup_of_forall₂ {R : α → β → Prop} {l : List α} {l' : List β}
    (h : List.Forall₂ R l l') (hR : ∀ a ∈ l, ∀ a' ∈ l, ∀ b, R a b → R a' b → a = a')
    (hl : l.Nodup) : l'.Nodup := by
  induction h with
  | nil => exact List.nodup_nil
  | @cons a b l l' hab hrest ih =>
    obtain ⟨hnew, hl⟩ := List.nodup_cons.mp hl
    refine List.nodup_cons.mpr ⟨fun hb => ?_, ih (fun c hc c' hc' => ?_) hl⟩
    · obtain ⟨a', ha', hab'⟩ := exists_mem_of_forall₂ hrest hb
      have heq := hR a List.mem_cons_self a' (List.mem_cons_of_mem a ha') b hab hab'
      exact hnew (heq ▸ ha')
    · exact hR c (List.mem_cons_of_mem a hc) c' (List.mem_cons_of_mem a hc')

end Genesis.Steps
