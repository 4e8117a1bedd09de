import Genesis.Text.Blank
import Mathlib.Data.List.TakeWhile

/-! What a text is without the blanks at its ends. -/

namespace Genesis.Text

variable {text core before after : List Char}

def Blank (cs : List Char) : Prop := ∀ c ∈ cs, isBlank c = true

/-- The text `core`, which neither begins nor ends with a blank, stands in `text` between blanks. -/
structure Strips (text core : List Char) : Prop where
  within : ∃ before after, text = before ++ core ++ after ∧ Blank before ∧ Blank after
  head : ∀ c ∈ core.head?, isBlank c = false
  last : ∀ c ∈ core.getLast?, isBlank c = false

theorem dropWhile_isBlank_append (hbefore : Blank before)
    (hhead : ∀ c ∈ core.head?, isBlank c = false) : (before ++ core).dropWhile isBlank = core := by
  rw [List.dropWhile_append_of_pos hbefore]
  cases core with
  | nil => rfl
  | cons c cs =>
    refine List.dropWhile_cons_of_neg ?_
    rw [hhead c rfl]
    exact Bool.false_ne_true

theorem isBlank_head_dropWhile (cs : List Char) :
    ∀ c ∈ (cs.dropWhile isBlank).head?, isBlank c = false := by
  intro c hc
  have hnot := List.head?_dropWhile_not isBlank cs
  rw [Option.mem_def.mp hc] at hnot
  simpa using hnot

theorem exists_blank_append_dropWhile (cs : List Char) :
    ∃ before, cs = before ++ cs.dropWhile isBlank ∧ Blank before :=
  ⟨cs.takeWhile isBlank, List.takeWhile_append_dropWhile.symm,
    fun _ hc => List.mem_takeWhile_imp hc⟩

theorem Strips.trim_eq (h : Strips text core) : trim text = core := by
  obtain ⟨before, after, rfl, hbefore, hafter⟩ := h.within
  unfold trim
  by_cases hcore : core = []
  -- without a core the blanks before run on into those after
  · subst hcore
    have hall : Blank (before ++ [] ++ after) := by
      intro c hc
      simp only [List.append_nil, List.mem_append] at hc
      exact hc.elim (hbefore c) (hafter c)
    rw [List.dropWhile_eq_nil_iff.mpr hall]
    rfl
  · have hhead : ∀ c ∈ (core ++ after).head?, isBlank c = false := by
      rw [List.head?_append, Option.or_of_isSome (List.isSome_head?.mpr hcore)]
      exact h.head
    have hlast : ∀ c ∈ core.reverse.head?, isBlank c = false := by
      rw [List.head?_reverse]
      exact h.last
    have hreverse : Blank after.reverse := fun c hc => hafter c (List.mem_reverse.mp hc)
    rw [List.append_assoc, dropWhile_isBlank_append hbefore hhead, List.reverse_append,
      dropWhile_isBlank_append hreverse hlast, List.reverse_reverse]

theorem strips_trim (text : List Char) : Strips text (trim text) := by
  obtain ⟨before, hbefore, hblank⟩ := exists_blank_append_dropWhile text
  obtain ⟨after, hafter, hblank'⟩ := exists_blank_append_dropWhile (text.dropWhile isBlank).reverse
  have hrest : text.dropWhile isBlank = trim text ++ after.reverse := by
    have hback := congrArg List.reverse hafter
    rwa [List.reverse_reverse, List.reverse_append] at hback
  have hreverse : Blank after.reverse := fun c hc => hblank' c (List.mem_reverse.mp hc)
  refine ⟨⟨before, after.reverse, ?_, hblank, hreverse⟩, ?_, ?_⟩
  · rw [List.append_assoc, ← hrest]
    exact hbefore
  · intro c hc
    refine isBlank_head_dropWhile text c ?_
    rw [hrest, List.head?_append, Option.mem_def.mp hc]
    rfl
  · intro c hc
    refine isBlank_head_dropWhile (text.dropWhile isBlank).reverse c ?_
    rwa [trim, List.getLast?_reverse] at hc

theorem trim_eq_iff : trim text = core ↔ Strips text core :=
  ⟨fun h => h ▸ strips_trim text, Strips.trim_eq⟩

end Genesis.Text
