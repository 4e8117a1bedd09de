import Genesis.Proofs.Json.Numeral
import Genesis.Proofs.Json.Text

/-!
Values are read back from their texts, whatever blanks these have between their parts. The texts
without blanks and over several lines are two of them.
-/

namespace Genesis.Json

/-- The blanks in front of the items and members at a depth, and behind colons. -/
structure Spacing where
  before : Nat → List Char
  behindColon : List Char
  before_blank : ∀ depth, ∀ c ∈ before depth, isSpace c = true
  behindColon_blank : ∀ c ∈ behindColon, isSpace c = true

mutual

def spaced (sp : Spacing) (depth : Nat) : Json → List Char
  | .null => ['n', 'u', 'l', 'l']
  | .bool value => word value
  | .number token => token.toList
  | .string text => quote text
  | .array [] => ['[', ']']
  | .array (v :: vs) =>
    '[' :: sp.before (depth + 1) ++ spaced sp (depth + 1) v ++ spacedItems sp depth vs
  | .object [] => ['{', '}']
  | .object ((k, v) :: ms) =>
    '{' :: sp.before (depth + 1) ++ quote k ++ ':' :: sp.behindColon ++ spaced sp (depth + 1) v ++
      spacedMembers sp depth ms

def spacedItems (sp : Spacing) (depth : Nat) : List Json → List Char
  | [] => sp.before depth ++ [']']
  | v :: vs =>
    ',' :: sp.before (depth + 1) ++ spaced sp (depth + 1) v ++ spacedItems sp depth vs

def spacedMembers (sp : Spacing) (depth : Nat) : List (String × Json) → List Char
  | [] => sp.before depth ++ ['}']
  | (k, v) :: ms =>
    ',' :: sp.before (depth + 1) ++ quote k ++ ':' :: sp.behindColon ++ spaced sp (depth + 1) v ++
      spacedMembers sp depth ms

end

section Texts

theorem isSpace_of_mem_lineAt (depth : Nat) : ∀ c ∈ lineAt depth, isSpace c = true := by
  intro c hc
  rcases List.mem_cons.mp hc with rfl | hc
  · rfl
  · rw [List.eq_of_mem_replicate hc]
    rfl

def Spacing.none : Spacing where
  before := fun _ => []
  behindColon := []
  before_blank := fun _ => List.forall_mem_nil _
  behindColon_blank := List.forall_mem_nil _

def Spacing.lines : Spacing where
  before := lineAt
  behindColon := [' ']
  before_blank := isSpace_of_mem_lineAt
  behindColon_blank := List.forall_mem_singleton.mpr rfl

mutual

theorem spaced_none (depth : Nat) : ∀ v : Json, v.spaced .none depth = v.compact
  | .null | .bool _ | .number _ | .string _ | .array [] | .object [] => by rw [spaced, compact]
  | .array (v :: vs) => by
    rw [spaced, compact, spaced_none (depth + 1) v, spacedItems_none depth vs]
    rfl
  | .object ((k, v) :: ms) => by
    rw [spaced, compact, spaced_none (depth + 1) v, spacedMembers_none depth ms]
    simp [Spacing.none]

theorem spacedItems_none (depth : Nat) : ∀ vs, spacedItems .none depth vs = compactItems vs
  | [] => by rw [spacedItems, compactItems]; rfl
  | v :: vs => by
    rw [spacedItems, compactItems, spaced_none (depth + 1) v, spacedItems_none depth vs]
    rfl

theorem spacedMembers_none (depth : Nat) : ∀ ms, spacedMembers .none depth ms = compactMembers ms
  | [] => by rw [spacedMembers, compactMembers]; rfl
  | (k, v) :: ms => by
    rw [spacedMembers, compactMembers, spaced_none (depth + 1) v, spacedMembers_none depth ms]
    simp [Spacing.none]

end

mutual

theorem spaced_lines (depth : Nat) : ∀ v : Json, v.spaced .lines depth = v.pretty depth
  | .null | .bool _ | .number _ | .string _ | .array [] | .object [] => by rw [spaced, pretty]
  | .array (v :: vs) => by
    rw [spaced, pretty, spaced_lines (depth + 1) v, spacedItems_lines depth vs]
    rfl
  | .object ((k, v) :: ms) => by
    rw [spaced, pretty, spaced_lines (depth + 1) v, spacedMembers_lines depth ms]
    simp [Spacing.lines]

theorem spacedItems_lines (depth : Nat) : ∀ vs, spacedItems .lines depth vs = prettyItems depth vs
  | [] => by rw [spacedItems, prettyItems]; rfl
  | v :: vs => by
    rw [spacedItems, prettyItems, spaced_lines (depth + 1) v, spacedItems_lines depth vs]
    rfl

theorem spacedMembers_lines (depth : Nat) :
    ∀ ms, spacedMembers .lines depth ms = prettyMembers depth ms
  | [] => by rw [spacedMembers, prettyMembers]; rfl
  | (k, v) :: ms => by
    rw [spacedMembers, prettyMembers, spaced_lines (depth + 1) v, spacedMembers_lines depth ms]
    simp [Spacing.lines]

end

end Texts

/-- Whatever its blanks and its depth, and whatever follows it, the text of `v` is read as the
draft `d`. -/
structure ReadAs (v : Json) (d : Draft) : Prop where
  whole : Reader.isWhole d = true
  starts : ∀ sp depth, ∃ c cs, v.spaced sp depth = c :: cs ∧ isSpace c = false ∧ c ≠ ']'
  reads : ∀ {sp : Spacing} {depth fuel : Nat} {rest : List Char}, Ends rest →
    (v.spaced sp depth).length < fuel →
      readValue fuel (v.spaced sp depth ++ rest) = (d, some rest)

section Blanks

variable {sp : Spacing} {depth : Nat}

theorem skipSpace_cons {c : Char} (h : isSpace c = false) (s : List Char) :
    skipSpace (c :: s) = c :: s :=
  List.dropWhile_cons_of_neg (by simp [h])

theorem skipSpace_append {blanks : List Char} (h : ∀ c ∈ blanks, isSpace c = true)
    (s : List Char) : skipSpace (blanks ++ s) = skipSpace s :=
  List.dropWhile_append_of_pos h

theorem skipSpace_before (s : List Char) : skipSpace (sp.before depth ++ s) = skipSpace s :=
  skipSpace_append (sp.before_blank depth) s

theorem skipSpace_behindColon (s : List Char) : skipSpace (sp.behindColon ++ s) = skipSpace s :=
  skipSpace_append sp.behindColon_blank s

theorem readValue_congr {s s' : List Char} (h : skipSpace s = skipSpace s') (fuel : Nat) :
    readValue fuel s = readValue fuel s' := by
  cases fuel with
  | zero => rfl
  | succ fuel => rw [readValue, readValue, h]

theorem readItems_congr {s s' : List Char} (h : skipSpace s = skipSpace s') (fuel : Nat) :
    readItems fuel s = readItems fuel s' := by
  cases fuel with
  | zero => rfl
  | succ fuel => rw [readItems, readItems, readValue_congr h]

theorem readMembers_congr {s s' : List Char} (h : skipSpace s = skipSpace s') (fuel : Nat) :
    readMembers fuel s = readMembers fuel s' := by
  cases fuel with
  | zero => rfl
  | succ fuel => rw [readMembers, readMembers, h]

theorem ends_of_isSpace {c : Char} (h : isSpace c = true) (s : List Char) : Ends (c :: s) := by
  intro d hd
  obtain rfl : c = d := Option.some.inj hd
  simp only [isSpace, Bool.or_eq_true, decide_eq_true_eq, or_assoc] at h
  rcases h with rfl | rfl | rfl | rfl <;> decide

theorem ends_before {s : List Char} (h : Ends s) : Ends (sp.before depth ++ s) := by
  cases hblanks : sp.before depth with
  | nil => exact h
  | cons c cs =>
    exact ends_of_isSpace (sp.before_blank depth c (hblanks ▸ List.mem_cons_self)) _

theorem ends_comma (s : List Char) : Ends (',' :: s) := by
  intro c hc
  obtain rfl : ',' = c := Option.some.inj hc
  decide

theorem ends_nil : Ends [] := fun _ hc => by cases hc

theorem ends_spacedItems (sp : Spacing) (depth : Nat) (vs : List Json) (s : List Char) :
    Ends (spacedItems sp depth vs ++ s) := by
  cases vs with
  | nil =>
    rw [spacedItems, List.append_assoc]
    refine ends_before fun c hc => ?_
    obtain rfl : ']' = c := Option.some.inj hc
    decide
  | cons v vs =>
    rw [spacedItems]
    exact ends_comma _

theorem ends_spacedMembers (sp : Spacing) (depth : Nat) (ms : List (String × Json))
    (s : List Char) : Ends (spacedMembers sp depth ms ++ s) := by
  cases ms with
  | nil =>
    rw [spacedMembers, List.append_assoc]
    refine ends_before fun c hc => ?_
    obtain rfl : '}' = c := Option.some.inj hc
    decide
  | cons m ms =>
    rw [spacedMembers]
    exact ends_comma _

end Blanks

section Simple

theorem readAs_null : ReadAs .null .null where
  whole := rfl
  starts := fun _ _ => ⟨'n', ['u', 'l', 'l'], rfl, by decide, by decide⟩
  reads := fun {_ _ fuel rest} _ hf => by
    obtain ⟨fuel, rfl⟩ := Nat.exists_eq_succ_of_ne_zero (Nat.ne_zero_of_lt hf)
    rfl

theorem readAs_bool (value : Bool) : ReadAs (.bool value) (.bool value) where
  whole := rfl
  starts := fun _ _ => by cases value <;> exact ⟨_, _, rfl, by decide, by decide⟩
  reads := fun {_ _ fuel rest} _ hf => by
    obtain ⟨fuel, rfl⟩ := Nat.exists_eq_succ_of_ne_zero (Nat.ne_zero_of_lt hf)
    cases value <;> rfl

theorem readValue_quote {r r' : List Char} {units : List Nat} {text : List Char} (fuel : Nat)
    (hunits : stringUnits r = some (units, r')) (htext : joinUnits units = some text) :
    readValue (fuel + 1) ('"' :: r) = (.string (String.ofList text), some r') := by
  rw [readValue, skipSpace_cons (by decide)]
  simp only [hunits, htext]

theorem quote_append (text : String) (rest : List Char) :
    quote text ++ rest = '"' :: (text.toList.flatMap escapeChar ++ '"' :: rest) := by
  simp [quote]

theorem readAs_string (text : String) : ReadAs (.string text) (.string text) where
  whole := rfl
  starts := fun _ _ => ⟨'"', _, rfl, by decide, by decide⟩
  reads := fun {_ _ fuel rest} _ hf => by
    obtain ⟨fuel, rfl⟩ := Nat.exists_eq_succ_of_ne_zero (Nat.ne_zero_of_lt hf)
    have hread := readValue_quote fuel (stringUnits_quoted text.toList rest)
      (joinUnits_map_toNat text.toList)
    rw [spaced, quote_append, hread, String.ofList_toList]

theorem Numeral.exists_cons {n : Numeral} (h : n.Sound) :
    ∃ c cs, n.text = c :: cs ∧ (c = '-' ∨ c.isDigit = true) := by
  obtain ⟨c, cs, hcons⟩ := List.exists_cons_of_ne_nil h.whole_ne_nil
  unfold text signText
  split
  · exact ⟨'-', _, rfl, .inl rfl⟩
  · rw [hcons]
    exact ⟨c, _, rfl, .inr (h.whole_digits c (hcons ▸ List.mem_cons_self))⟩

theorem ne_of_starts_numeral {c d : Char} (h : c = '-' ∨ c.isDigit = true)
    (hd : d ≠ '-' ∧ d.isDigit = false) : c ≠ d := by
  rintro rfl
  rcases h with h | h
  · exact hd.1 h
  · rw [hd.2] at h
    exact Bool.false_ne_true h

theorem isSpace_of_starts_numeral {c : Char} (h : c = '-' ∨ c.isDigit = true) :
    isSpace c = false := by
  have hblank := ne_of_starts_numeral (d := ' ') h (by decide)
  have hline := ne_of_starts_numeral (d := '\n') h (by decide)
  have htab := ne_of_starts_numeral (d := '\t') h (by decide)
  have hreturn := ne_of_starts_numeral (d := '\r') h (by decide)
  simp [isSpace, hblank, hline, htab, hreturn]

theorem readValue_numeral {n : Numeral} (h : n.Sound) {rest : List Char} (hr : Ends rest)
    (fuel : Nat) : readValue (fuel + 1) (n.text ++ rest) = (.number n, some rest) := by
  have hread := Numeral.readNumeral_append h hr
  obtain ⟨c, cs, hcons, hc⟩ := Numeral.exists_cons h
  rw [hcons, List.cons_append] at hread ⊢
  rw [readValue, skipSpace_cons (isSpace_of_starts_numeral hc)]
  have hother := fun d hd => ne_of_starts_numeral (d := d) hc hd
  split
  case h_8 => rw [hread]
  all_goals
    rename_i heq
    cases heq
    try exact absurd rfl (hother _ (by decide))

theorem readAs_number {n : Numeral} {token : String} (h : n.Sound) (ht : n.text = token.toList) :
    ReadAs (.number token) (.number n) where
  whole := rfl
  starts := fun _ _ => by
    obtain ⟨c, cs, hcons, hc⟩ := Numeral.exists_cons h
    exact ⟨c, cs, ht.symm.trans hcons, isSpace_of_starts_numeral hc,
      ne_of_starts_numeral hc (by decide)⟩
  reads := fun {_ _ fuel rest} hr hf => by
    obtain ⟨fuel, rfl⟩ := Nat.exists_eq_succ_of_ne_zero (Nat.ne_zero_of_lt hf)
    rw [spaced, ← ht]
    exact readValue_numeral h hr fuel

theorem readAs_ofInt (n : Int) : ReadAs (ofInt n) (.number (.ofInt n)) :=
  readAs_number (Numeral.sound_ofInt n) (Numeral.text_ofInt n)

theorem exists_readAs_ofSingle (x : Binary.Number) : ∃ d, ReadAs (ofSingle x) d := by
  unfold ofSingle
  cases htext : x.text? with
  | none => exact ⟨_, readAs_null⟩
  | some text =>
    obtain ⟨n, hsound, hn⟩ := Numeral.exists_text? htext
    exact ⟨_, readAs_number hsound hn⟩

end Simple

section Compound

variable {sp : Spacing} {v : Json} {d : Draft} {vs : List Json} {ds : List Draft}
  {depth fuel : Nat}

theorem readItems_eq (hv : ReadAs v d) (hvs : List.Forall₂ ReadAs vs ds) (rest : List Char)
    (hf : (v.spaced sp (depth + 1)).length + (spacedItems sp depth vs).length < fuel) :
    readItems fuel (v.spaced sp (depth + 1) ++ (spacedItems sp depth vs ++ rest)) =
      (d :: ds, some rest) := by
  -- on the items behind the first, each of which costs one unit of fuel
  induction hvs generalizing v d fuel with
  | nil =>
    obtain ⟨fuel, rfl⟩ := Nat.exists_eq_succ_of_ne_zero (Nat.ne_zero_of_lt hf)
    have hfuel : (v.spaced sp (depth + 1)).length < fuel := by
      simp only [spacedItems, List.length_append, List.length_singleton] at hf
      omega
    rw [readItems, hv.reads (ends_spacedItems sp depth [] rest) hfuel]
    dsimp only
    rw [spacedItems, List.append_assoc, skipSpace_before, List.singleton_append,
      skipSpace_cons (by decide)]
    rfl
  | @cons w e ws es hw hws ih =>
    obtain ⟨fuel, rfl⟩ := Nat.exists_eq_succ_of_ne_zero (Nat.ne_zero_of_lt hf)
    have hfuel : (v.spaced sp (depth + 1)).length < fuel ∧
        (w.spaced sp (depth + 1)).length + (spacedItems sp depth ws).length < fuel := by
      simp only [spacedItems, List.length_append, List.length_cons] at hf
      omega
    have hrest := ih hw hfuel.2
    rw [readItems, hv.reads (ends_spacedItems sp depth (w :: ws) rest) hfuel.1]
    dsimp only
    rw [spacedItems, List.cons_append, List.cons_append, List.cons_append, List.append_assoc,
      List.append_assoc, skipSpace_cons (by decide)]
    simp only [readItems_congr (skipSpace_before _), hrest]

theorem readAs_array (h : List.Forall₂ ReadAs vs ds) : ReadAs (.array vs) (.array ds true) where
  whole := rfl
  starts := fun _ _ => by
    cases vs with
    | nil => exact ⟨'[', _, rfl, by decide, by decide⟩
    | cons v vs => exact ⟨'[', _, by rw [spaced]; rfl, by decide, by decide⟩
  reads := fun {sp depth fuel rest} _ hf => by
    obtain ⟨fuel, rfl⟩ := Nat.exists_eq_succ_of_ne_zero (Nat.ne_zero_of_lt hf)
    cases h with
    | nil => rfl
    | @cons v d vs ds hv hvs =>
      rw [spaced] at hf ⊢
      have hfuel :
          (v.spaced sp (depth + 1)).length + (spacedItems sp depth vs).length < fuel := by
        simp only [List.length_append, List.length_cons] at hf
        omega
      have hitems := readItems_eq hv hvs rest hfuel
      obtain ⟨c, cs, hcons, hc, hclose⟩ := hv.starts sp (depth + 1)
      rw [hcons, List.cons_append] at hitems
      rw [List.cons_append, List.cons_append, List.cons_append, List.append_assoc,
        List.append_assoc, readValue, skipSpace_cons (by decide)]
      simp only [skipSpace_before, hcons, List.cons_append, skipSpace_cons hc]
      split
      -- no item starts like the end of the array
      · rename_i heq
        exact absurd (List.cons.inj heq).1 hclose
      · rw [hitems]
        rfl

theorem readMembers_eq {k : String} {ms : List (String × Json)}
    {es : List (Option String × Draft)} (hv : ReadAs v d)
    (hms : List.Forall₂ (fun m e => e.1 = some m.1 ∧ ReadAs m.2 e.2) ms es) (rest : List Char)
    (hf : (v.spaced sp (depth + 1)).length + (spacedMembers sp depth ms).length < fuel) :
    readMembers fuel (quote k ++ (':' :: (sp.behindColon ++ (v.spaced sp (depth + 1) ++
      (spacedMembers sp depth ms ++ rest))))) = ((some k, d) :: es, some rest) := by
  induction hms generalizing v d k fuel with
  | nil =>
    obtain ⟨fuel, rfl⟩ := Nat.exists_eq_succ_of_ne_zero (Nat.ne_zero_of_lt hf)
    have hfuel : (v.spaced sp (depth + 1)).length < fuel := by
      simp only [spacedMembers, List.length_append, List.length_singleton] at hf
      omega
    have hvalue := hv.reads (ends_spacedMembers sp depth [] rest) hfuel
    rw [quote_append, readMembers, skipSpace_cons (by decide)]
    simp only [stringUnits_quoted, joinUnits_map_toNat, Option.map_some, String.ofList_toList]
    rw [skipSpace_cons (by decide)]
    simp only [readValue_congr (skipSpace_behindColon _), hvalue]
    rw [spacedMembers, List.append_assoc, skipSpace_before, List.singleton_append,
      skipSpace_cons (by decide)]
    rfl
  | @cons m e ms es hm hms ih =>
    obtain ⟨fuel, rfl⟩ := Nat.exists_eq_succ_of_ne_zero (Nat.ne_zero_of_lt hf)
    obtain ⟨name, w⟩ := m
    obtain ⟨_, e⟩ := e
    obtain ⟨rfl, hw⟩ := hm
    have hfuel : (v.spaced sp (depth + 1)).length < fuel ∧
        (w.spaced sp (depth + 1)).length + (spacedMembers sp depth ms).length < fuel := by
      simp only [spacedMembers, List.length_append, List.length_cons] at hf
      omega
    have hvalue := hv.reads (ends_spacedMembers sp depth ((name, w) :: ms) rest) hfuel.1
    have hrest := ih (k := name) hw hfuel.2
    rw [quote_append, readMembers, skipSpace_cons (by decide)]
    simp only [stringUnits_quoted, joinUnits_map_toNat, Option.map_some, String.ofList_toList]
    rw [skipSpace_cons (by decide)]
    simp only [readValue_congr (skipSpace_behindColon _), hvalue]
    rw [spacedMembers]
    simp only [List.cons_append, List.append_assoc]
    rw [skipSpace_cons (by decide)]
    simp only [readMembers_congr (skipSpace_before _), hrest]

theorem readAs_object {ms : List (String × Json)} {es : List (Option String × Draft)}
    (h : List.Forall₂ (fun m e => e.1 = some m.1 ∧ ReadAs m.2 e.2) ms es) :
    ReadAs (.object ms) (.object es true) where
  whole := rfl
  starts := fun _ _ => by
    cases ms with
    | nil => exact ⟨'{', _, rfl, by decide, by decide⟩
    | cons m ms => exact ⟨'{', _, by rw [spaced]; rfl, by decide, by decide⟩
  reads := fun {sp depth fuel rest} _ hf => by
    obtain ⟨fuel, rfl⟩ := Nat.exists_eq_succ_of_ne_zero (Nat.ne_zero_of_lt hf)
    cases h with
    | nil => rfl
    | @cons m e ms es hm hms =>
      obtain ⟨name, v⟩ := m
      obtain ⟨_, e⟩ := e
      obtain ⟨rfl, hv⟩ := hm
      dsimp only at hv ⊢
      rw [spaced] at hf ⊢
      have hfuel :
          (v.spaced sp (depth + 1)).length + (spacedMembers sp depth ms).length < fuel := by
        simp only [List.length_append, List.length_cons] at hf
        omega
      have hmembers := readMembers_eq (k := name) hv hms rest hfuel
      simp only [List.cons_append, List.append_assoc]
      rw [readValue, skipSpace_cons (by decide)]
      rw [quote_append] at hmembers ⊢
      simp only [skipSpace_before, skipSpace_cons (c := '"') (by decide)]
      split
      · rename_i heq
        exact absurd (List.cons.inj heq).1 (by decide)
      · rw [hmembers]
        rfl

end Compound

section Whole

variable {α : Type} {reader : Reader α} {v : Json} {d : Draft} {a : α}

theorem read_spaced (hv : ReadAs v d) (hd : reader d = .ok a) (sp : Spacing) :
    read reader (String.ofList (v.spaced sp 0)) = .ok a := by
  have hfuel : (v.spaced sp 0).length < enoughFuel (v.spaced sp 0) := by
    unfold enoughFuel
    omega
  have hread := hv.reads ends_nil hfuel
  rw [List.append_nil] at hread
  unfold read readDraft
  rw [String.toList_ofList, hread]
  simp only [hd]
  rfl

theorem read_line (hv : ReadAs v d) (hd : reader d = .ok a) : read reader v.line = .ok a := by
  rw [line, ← spaced_none 0]
  exact read_spaced hv hd .none

theorem read_lines (hv : ReadAs v d) (hd : reader d = .ok a) : read reader v.lines = .ok a := by
  rw [lines, ← spaced_lines 0]
  exact read_spaced hv hd .lines

end Whole

end Genesis.Json
