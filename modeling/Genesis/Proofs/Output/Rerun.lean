import Genesis.Proofs.Output.Writing

/-!
What becomes of the files that a folder holds already when an output is made in it. Those that are
asked for are made anew, so that nothing of them is left. All others stay as they are.
-/

namespace Genesis

namespace FileTree

variable {t t' : FileTree} {p : Path}

/-- The bytes of the file at a path, no bytes for a folder, and nothing where nothing is. The
number of a file is not seen. -/
def contents? (t : FileTree) (p : Path) : Option (Option ByteArray) :=
  (t.get? p).map fun
    | .file _ bytes => some bytes
    | .folder => none

theorem contents?_congr (h : t'.get? p = t.get? p) : t'.contents? p = t.contents? p := by
  unfold contents?
  rw [h]

theorem contents?_of_get? {number : Nat} {bytes : ByteArray}
    (h : t.get? p = some (.file number bytes)) : t.contents? p = some (some bytes) := by
  unfold contents?
  rw [h]
  rfl

end FileTree

def Role.place (way : Path) (role : Role) : Path := way.reached ++ [role.fileName]

namespace OpenFiles

variable {files files' : OpenFiles} {t t' : FileTree} {way : Path} {roles : List Role}

def path? (files : OpenFiles) (role : Role) : Option Path := (files role).map (·.path)

theorem createAll_others (h : createAll way files t roles = (.ok files', t')) {q : Path}
    (hq : ∀ role ∈ roles, q ≠ role.place way) : t'.get? q = t.get? q := by
  induction roles generalizing files t with
  | nil =>
    cases h
    rfl
  | cons role roles ih =>
    obtain ⟨hhere, hrest⟩ := List.forall_mem_cons.mp hq
    rw [createAll] at h
    split at h
    · cases h
    · rename_i handle t₁ hopen
      obtain ⟨hpath, hothers⟩ := FileTree.create_plain role.plain_fileName hopen
      rw [ih h hrest, hothers q (hpath ▸ hhere)]

theorem Show.path?_eq {texts : Texts} {place : Role → Path} (h : files.Show t place texts)
    (role : Role) : files.path? role = (texts role).map fun _ => place role := by
  unfold path?
  cases ht : texts role with
  | none =>
    rw [h.absent role ht]
    rfl
  | some text =>
    obtain ⟨handle, hfile, hpath, _⟩ := h.shown role text ht
    rw [hfile, Option.map_some, Option.map_some, hpath]

end OpenFiles

namespace OutputParts

variable {way : Path} {validatorFormat walletFormat : KeyFormat} {coordinator : Coordinator}
  {traffic delegators : Bool} {network : NetworkConfig} {t t' : FileTree} {files : OpenFiles}
  {parts : OutputParts}

theorem createAll_of_create
    (h : create way validatorFormat walletFormat coordinator traffic delegators network t =
      (.ok parts, t')) :
    OpenFiles.createAll way .empty t (roles traffic delegators) = (.ok parts.files, t') := by
  unfold create at h
  split at h
  · cases h
  · rename_i hcreate
    cases h
    exact hcreate

theorem exists_create
    (h : OpenFiles.createAll way .empty t (roles traffic delegators) = (.ok files, t')) :
    ∃ parts, create way validatorFormat walletFormat coordinator traffic delegators network t =
      (.ok parts, t') := by
  unfold create
  rw [h]
  exact ⟨_, rfl⟩

end OutputParts

/-- From one desk to another the files stay open where they are, and nothing but them is touched. -/
structure Desk.Within (desk desk' : Desk) : Prop where
  paths : ∀ role, desk'.writer.files.path? role = desk.writer.files.path? role
  others : ∀ q, (∀ role, desk.writer.files.path? role ≠ some q) →
    desk'.tree.get? q = desk.tree.get? q

theorem Desk.Within.refl (desk : Desk) : desk.Within desk where
  paths := fun _ => rfl
  others := fun _ _ => rfl

theorem Desk.Within.trans {desk desk' desk'' : Desk} (h : desk.Within desk')
    (h' : desk'.Within desk'') : desk.Within desk'' where
  paths := fun role => (h'.paths role).trans (h.paths role)
  others := fun q hq =>
    (h'.others q fun role => (h.paths role).symm ▸ hq role).trans (h.others q hq)

namespace Writing

variable {α β : Type}

def Confined (x : Writing α) : Prop := ∀ desk : Desk, desk.Within (x.run desk).2

theorem confined_pure (a : α) : Confined (pure a) := fun desk => .refl desk

theorem confined_lift (x : Except Error α) : Confined (liftM x) := by
  cases x <;> exact fun desk => .refl desk

theorem confined_bind {x : Writing α} {f : α → Writing β} (hx : Confined x)
    (hf : ∀ a, Confined (f a)) : Confined (x >>= f) := by
  intro desk
  rw [ExceptT.run_bind]
  simp only [bind, StateT.bind]
  have hfirst := hx desk
  rcases hrun : x.run desk with ⟨e | a, desk'⟩
  · rw [hrun] at hfirst
    exact hfirst
  · rw [hrun] at hfirst
    exact hfirst.trans (hf a desk')

theorem confined_get : Confined get := fun desk => .refl desk

theorem confined_report (event : Event) : Confined (report event) :=
  fun _ => ⟨fun _ => rfl, fun _ _ => rfl⟩

theorem confined_put (role : Role) (text : String) : Confined (put role text) := by
  intro desk
  have hrun : (put role text).run desk = (.ok (), _) := rfl
  rw [hrun]
  dsimp only
  cases hfile : desk.writer.files role with
  | none => exact .refl desk
  | some handle =>
    have hpath : desk.writer.files.path? role = some handle.path := by
      rw [OpenFiles.path?, hfile, Option.map_some]
    refine ⟨fun r => ?_, fun q hq => ?_⟩
    -- the handle moves on within its file, but its path stays
    · dsimp only [OpenFiles.path?, OpenFiles.set]
      split
      · rename_i hr
        rw [hr, hfile, Option.map_some, Option.map_some, FileHandle.write_path]
      · rfl
    · have hne : q ≠ handle.path := fun heq => hq role (heq ▸ hpath)
      exact FileHandle.get?_write_of_ne hne text desk.tree

theorem confined_putKeys (role : Role) (format : KeyFormat) (keys : List (Bytes × Bytes)) :
    Confined (putKeys role format keys) := by
  induction keys with
  | nil => exact confined_pure ()
  | cons key keys ih =>
    unfold putKeys at ih ⊢
    rw [List.forM]
    exact confined_bind (confined_bind (confined_lift _) fun _ => confined_put role _) fun _ => ih

theorem confined_putDelegators (delegators : List WalletKey) :
    Confined (putDelegators delegators) := by
  refine confined_bind confined_get fun desk => ?_
  dsimp only
  split
  · exact confined_report _
  · exact confined_putKeys .delegators _ _

theorem confined_putTraffic (wallets : List WalletKey) : Confined (putTraffic wallets) := by
  refine confined_bind confined_get fun desk => ?_
  dsimp only
  split
  · exact confined_report _
  · exact confined_bind (confined_lift _) fun _ => confined_put .traffic _

theorem confined_putBundle (b : Bundle) : Confined (putBundle b) := by
  refine confined_bind confined_get fun desk => ?_
  refine confined_bind (confined_bind confined_get fun _ => confined_put .setup _) fun _ => ?_
  refine confined_bind (confined_put .genesis _) fun _ => ?_
  refine confined_bind (confined_putKeys .validators _ _) fun _ => ?_
  refine confined_bind (confined_putKeys .wallets _ _) fun _ => ?_
  refine confined_bind (confined_putDelegators b.delegators) fun _ => ?_
  refine confined_bind (confined_putTraffic b.additional) fun _ => ?_
  exact confined_report _

end Writing

/-- The files for an output are made in a folder, and a generation is written to them. Of all this
nothing fails, and it leaves the second tree. -/
inductive Layout.Fills (l : Layout) (way : Path) (traffic delegators : Bool) (b : Bundle)
    (t : FileTree) : FileTree → Prop where
  | intro {parts : OutputParts} {made : FileTree} {writer : Writer} {desk : Desk}
    (hmade : OutputParts.create way l.validatorFormat l.walletFormat l.coordinator traffic
      delegators l.network t = (.ok parts, made))
    (hwriter : Writer.ofParts? parts = .ok writer)
    (hrun : (Writing.putBundle b).run { writer, tree := made } = (.ok (), desk)) :
    l.Fills way traffic delegators b t desk.tree

namespace Layout

variable {l : Layout} {way : Path} {traffic delegators : Bool} {b : Bundle}
  {t t' t₁ t₂ : FileTree} {role : Role}

theorem exists_fills {files : OpenFiles} {made : FileTree}
    (hmade : OpenFiles.createAll way .empty t (OutputParts.roles traffic delegators) =
      (.ok files, made))
    (hchunks : ∀ role ∈ OutputParts.roles traffic delegators, (l.chunk b role).1 = .ok ()) :
    ∃ t', l.Fills way traffic delegators b t t' := by
  obtain ⟨parts, hparts⟩ := OutputParts.exists_create hmade
  obtain ⟨writer, desk, hwriter, hrun, _⟩ := OutputParts.exists_run_putBundle b hparts
  have hresult : (l.addAll b (.fresh traffic delegators) Role.order).1 = .ok () :=
    congrArg Prod.fst (addAll_order fun role hasks => hchunks role (Texts.asks_fresh.mp hasks))
  exact ⟨desk.tree, .intro hparts hwriter (hrun.trans (Prod.ext hresult rfl))⟩

theorem Fills.contents?_of_mem (h : l.Fills way traffic delegators b t t')
    (hrole : role ∈ OutputParts.roles traffic delegators) :
    t'.contents? (role.place way) = some (some (l.chunk b role).2.toUTF8) := by
  obtain ⟨hmade, hwriter, hrun⟩ := h
  obtain ⟨hresult, hshow⟩ := OutputParts.show_of_putBundle hmade hwriter hrun
  obtain ⟨handle, _, hpath, hend⟩ := hshow.shown role _ (addAll_fresh hresult hrole)
  exact FileTree.contents?_of_get? (hpath ▸ hend.file)

theorem Fills.get?_of_ne (h : l.Fills way traffic delegators b t t') {q : Path}
    (hq : ∀ role ∈ OutputParts.roles traffic delegators, q ≠ role.place way) :
    t'.get? q = t.get? q := by
  obtain @⟨_, made, writer, _, hmade, hwriter, hrun⟩ := h
  obtain ⟨writer', hwriter', hshows⟩ := OutputParts.create_ok hmade
  obtain rfl : writer = writer' := Except.ok.inj (hwriter.symm.trans hwriter')
  have hwithin := Writing.confined_putBundle b { writer, tree := made }
  rw [hrun] at hwithin
  -- `q` is neither where a file is made nor where one is open
  rw [hwithin.others q fun role heq => ?_,
    OpenFiles.createAll_others (OutputParts.createAll_of_create hmade) hq]
  have hpath : writer.files.path? role =
      (Texts.fresh traffic delegators role).map fun _ => role.place way :=
    hshows.files.path?_eq role
  rw [hpath, Texts.fresh] at heq
  split at heq
  · rename_i hrole
    exact hq role hrole (Option.some.inj heq).symm
  · cases heq

theorem Fills.contents?_of_not_mem (h : l.Fills way traffic delegators b t t')
    (hrole : role ∉ OutputParts.roles traffic delegators) :
    t'.contents? (role.place way) = t.contents? (role.place way) :=
  FileTree.contents?_congr <| h.get?_of_ne fun _ hr =>
    fun heq => hrole (Role.placeIn_injective way.reached heq ▸ hr)

end Layout

section Samples

def Layout.sample : Layout :=
  ⟨.hex 1 Nat.one_pos, .hex 1 Nat.one_pos, ⟨1, Nat.one_pos, by decide⟩, {}⟩

def Bundle.sample : Bundle where
  validators := [⟨[1], [2]⟩]
  wallets := [{ publicKey := [3], privateKey := [4] }]
  additional := [{ publicKey := [5], privateKey := [6] }]
  delegators := [{ publicKey := [7], privateKey := [8] }]

/-- Files at the root from before, one of which stands for an optional one. -/
def FileTree.used : FileTree where
  entries := [(["walletKey.pem"], .file 0 "old wallets".toUTF8),
    (["accounts.json"], .file 1 "old accounts".toUTF8)]
  made := 2

theorem Layout.chunk_sample (role : Role) : (sample.chunk .sample role).1 = .ok () := by
  cases role <;> rfl

theorem Layout.exists_fills_sample (traffic : Bool) :
    (∃ t, sample.Fills [] traffic false .sample {} t) ∧
      ∃ t, sample.Fills [] traffic false .sample .used t := by
  cases traffic <;>
    exact ⟨exists_fills rfl fun role _ => chunk_sample role,
      exists_fills rfl fun role _ => chunk_sample role⟩

end Samples

namespace Layout

variable {l : Layout} {way : Path} {traffic delegators : Bool} {b : Bundle}
  {t₁ t₂ t₁' t₂' : FileTree}

/-- Whatever two folders held before, the same output leaves a file of it alike in both just when
it has been asked for or was alike already. One that has not been asked for is left as it was. -/
theorem Fills.alike_iff (h₁ : l.Fills way traffic delegators b t₁ t₁')
    (h₂ : l.Fills way traffic delegators b t₂ t₂') (role : Role) :
    (t₁'.contents? (role.place way) = t₂'.contents? (role.place way) ↔
      role ∈ OutputParts.roles traffic delegators ∨
        t₁.contents? (role.place way) = t₂.contents? (role.place way)) ∧
    (role ∉ OutputParts.roles traffic delegators →
      t₁'.contents? (role.place way) = t₁.contents? (role.place way) ∧
        t₂'.contents? (role.place way) = t₂.contents? (role.place way)) := by
  by_cases hrole : role ∈ OutputParts.roles traffic delegators
  · have halike : t₁'.contents? (role.place way) = t₂'.contents? (role.place way) := by
      rw [h₁.contents?_of_mem hrole, h₂.contents?_of_mem hrole]
    exact ⟨iff_of_true halike (.inl hrole), fun hnot => absurd hrole hnot⟩
  · have hleft₁ := h₁.contents?_of_not_mem hrole
    have hleft₂ := h₂.contents?_of_not_mem hrole
    refine ⟨?_, fun _ => ⟨hleft₁, hleft₂⟩⟩
    rw [hleft₁, hleft₂, or_iff_right hrole]

theorem sample_alike : ∃ t₁ t₂, sample.Fills [] true false .sample {} t₁ ∧
    sample.Fills [] true false .sample .used t₂ ∧
      ∀ role : Role, t₁.contents? (role.place []) = t₂.contents? (role.place []) := by
  obtain ⟨⟨t₁, h₁⟩, t₂, h₂⟩ := exists_fills_sample true
  refine ⟨t₁, t₂, h₁, h₂, fun role => (h₁.alike_iff h₂ role).1.mpr ?_⟩
  cases role with
  | delegators => exact .inr rfl
  | _ => exact .inl (by decide)

/-- Accounts for transactions that are not asked for any more stay in the folder. -/
theorem sample_leaves_accounts : ∃ t₁ t₂, sample.Fills [] false false .sample {} t₁ ∧
    sample.Fills [] false false .sample .used t₂ ∧
      t₁.contents? (Role.traffic.place []) = none ∧
        t₂.contents? (Role.traffic.place []) = some (some "old accounts".toUTF8) := by
  obtain ⟨⟨t₁, h₁⟩, t₂, h₂⟩ := exists_fills_sample false
  exact ⟨t₁, t₂, h₁, h₂, h₁.contents?_of_not_mem (by decide), h₂.contents?_of_not_mem (by decide)⟩

end Layout

end Genesis
