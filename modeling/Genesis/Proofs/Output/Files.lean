import Genesis.Output
import Genesis.Proofs.FileTree

/-!
What stands in the files of an output: each of them holds the texts that have been written to it,
in order, and nothing else.
-/

namespace Genesis

/-- What has been written for each role; a role without a file has no text. -/
abbrev Texts := Role → Option String

namespace Texts

variable {texts : Texts} {role : Role}

def add (texts : Texts) (role : Role) (text : String) : Texts := fun r =>
  if r = role then (texts r).map (· ++ text) else texts r

theorem isSome_add (texts : Texts) (role r : Role) (text : String) :
    (texts.add role text r).isSome = (texts r).isSome := by
  unfold add
  split
  · exact Option.isSome_map
  · rfl

theorem add_of_none (h : texts role = none) (text : String) : texts.add role text = texts := by
  funext r
  unfold add
  split
  · rename_i hr
    rw [hr, h]
    rfl
  · rfl

theorem add_add (texts : Texts) (role : Role) (text text' : String) :
    (texts.add role text).add role text' = texts.add role (text ++ text') := by
  funext r
  unfold add
  split
  · simp [Option.map_map, Function.comp_def, String.append_assoc]
  · rfl

theorem add_empty (texts : Texts) (role : Role) : texts.add role "" = texts := by
  funext r
  unfold add
  split
  · simp
  · rfl

end Texts

theorem Role.plain_fileName (role : Role) : Path.Plain role.fileName := by
  cases role <;> exact ⟨by decide, by decide⟩

theorem Role.fileName_injective {r r' : Role} (h : r.fileName = r'.fileName) : r = r' := by
  cases r <;> cases r' <;> first | rfl | exact absurd h (by decide)

def Role.placeIn (folder : Path) (role : Role) : Path := folder ++ [role.fileName]

theorem Role.placeIn_injective (folder : Path) : Function.Injective (Role.placeIn folder) :=
  fun _ _ h => Role.fileName_injective (List.singleton_inj.mp (List.append_cancel_left h))

/-- The open files stand at these places, apart from each other, with these texts, and each is open
at its end. -/
structure OpenFiles.Show (files : OpenFiles) (t : FileTree) (place : Role → Path) (texts : Texts) :
    Prop where
  absent : ∀ role, texts role = none → files role = none
  shown : ∀ role text, texts role = some text →
    ∃ handle, files role = some handle ∧ handle.path = place role ∧ handle.AtEnd t text
  apart : ∀ role role', (texts role).isSome → (texts role').isSome → place role = place role' →
    role = role'

namespace OpenFiles

variable {files files' : OpenFiles} {t t' : FileTree} {place : Role → Path} {texts : Texts}

theorem show_empty (t : FileTree) (place : Role → Path) : Show .empty t place fun _ => none where
  absent := fun _ _ => rfl
  shown := fun _ _ h => by cases h
  apart := fun _ _ h => by cases h

theorem Show.text?_eq (h : files.Show t place texts) {role : Role} {text : String}
    (ht : texts role = some text) : t.text? (place role) = some text := by
  obtain ⟨handle, _, hpath, hend⟩ := h.shown role text ht
  exact FileTree.text?_of_get? (hpath ▸ hend.file)

theorem Show.exists_text (h : files.Show t place texts) {role : Role} {handle : FileHandle}
    (hfile : files role = some handle) :
    ∃ text, texts role = some text ∧ handle.path = place role ∧ handle.AtEnd t text := by
  cases ht : texts role with
  | none => cases (h.absent role ht).symm.trans hfile
  | some text =>
    obtain ⟨handle', hfile', hopen⟩ := h.shown role text ht
    obtain rfl : handle' = handle := Option.some.inj (hfile'.symm.trans hfile)
    exact ⟨text, rfl, hopen⟩

theorem Show.isNone_eq (h : files.Show t place texts) (role : Role) :
    (files role).isNone = (texts role).isNone := by
  cases ht : texts role with
  | none =>
    rw [h.absent role ht]
    rfl
  | some text =>
    obtain ⟨handle, hfile, _⟩ := h.shown role text ht
    rw [hfile]
    rfl

theorem Show.set {role : Role} {handle : FileHandle} {text : String}
    (h : files.Show t place texts) (hpath : handle.path = place role)
    (hapart : ∀ r, (texts r).isSome → place r = place role → r = role)
    (hend : handle.AtEnd t' text)
    (hothers : ∀ q, q ≠ handle.path → t'.get? q = t.get? q) :
    (files.set role handle).Show t' place fun r => if r = role then some text else texts r where
  absent := fun r hr => by
    split at hr
    · cases hr
    · rename_i hne
      exact (if_neg hne).trans (h.absent r hr)
  shown := fun r text' hr => by
    split at hr
    · rename_i heq
      cases hr
      exact ⟨handle, if_pos heq, heq ▸ hpath, hend⟩
    · rename_i hne
      obtain ⟨other, hother, hpath', hend'⟩ := h.shown r text' hr
      have hpaths : other.path ≠ handle.path := by
        rw [hpath', hpath]
        exact fun heq => hne (hapart r (Option.isSome_of_eq_some hr) heq)
      exact ⟨other, (if_neg hne).trans hother, hpath', hend'.path_ne, hend'.place,
        (hothers _ hpaths).trans hend'.file⟩
  apart := fun r r' hr hr' heq => by
    split at hr
    · rename_i hrole
      subst hrole
      split at hr'
      · rename_i hrole'
        exact hrole'.symm
      · exact (hapart r' hr' heq.symm).symm
    · split at hr'
      · rename_i hrole'
        subst hrole'
        exact hapart r hr heq
      · exact h.apart r r' hr hr' heq

theorem createAll_ok {way : Path} {roles : List Role}
    (h : files.Show t (Role.placeIn way.reached) texts)
    (hcreate : createAll way files t roles = (.ok files', t')) :
    files'.Show t' (Role.placeIn way.reached) fun r =>
      if r ∈ roles then some "" else texts r := by
  induction roles generalizing files t texts with
  | nil =>
    cases hcreate
    exact h
  | cons role roles ih =>
    rw [createAll] at hcreate
    split at hcreate
    · cases hcreate
    · rename_i handle t₁ hopen
      obtain ⟨hpath, hothers⟩ := FileTree.create_plain role.plain_fileName hopen
      have hset : (files.set role handle).Show t₁ (Role.placeIn way.reached) fun r =>
          if r = role then some "" else texts r :=
        h.set hpath (fun r _ heq => Role.placeIn_injective _ heq) (FileTree.atEnd_of_create hopen)
          hothers
      have hshow := ih hset hcreate
      convert hshow using 2 with r
      by_cases hr : r ∈ roles <;> by_cases heq : r = role <;> simp [hr, heq]

end OpenFiles

end Genesis
