import Genesis.Proofs.Cli.Counts
import Genesis.Proofs.Cli.Prepare
import Genesis.Proofs.Output.Reading
import Genesis.Proofs.Strategy.Made

/-! What becomes of the files once the gate has let a generation pass. -/

namespace Genesis.Cli

open Steps

namespace Preparation

variable {o : Options} {s : Sources}

theorem walletFormat_eq (q : Preparation o s) : q.plan.terms.walletFormat = q.walletFormat :=
  (Option.some.inj q.follows.terms.walletFormat).symm

theorem validatorFormat_eq (q : Preparation o s) : q.plan.terms.validatorFormat = .validator :=
  (Option.some.inj q.follows.terms.validatorFormat).symm

theorem validatorKeys_eq (q : Preparation o s) : q.plan.terms.validatorKeys = s.validatorKeys :=
  (Option.some.inj q.follows.terms.validatorKeys).symm

theorem made (q : Preparation o s) : q.plan.Made q.bundle := Plan.made_of_outcome q.generated

theorem length_validators (q : Preparation o s) :
    q.bundle.validators.length = q.counts.validators :=
  q.made.validators.length_eq.trans q.follows.terms.validators

theorem length_observers (q : Preparation o s) :
    q.bundle.observers.length = q.counts.observers :=
  q.made.observers.length_eq.trans q.follows.terms.observers

theorem forall₂_nodes (q : Preparation o s) :
    List.Forall₂ (fun key node => KeyFormat.validator.encode key.publicKey = .ok node.pubKey)
      q.bundle.validators q.bundle.nodes := by
  have hnodes := q.made.nodes
  unfold Terms.Written at hnodes
  rwa [q.validatorFormat_eq] at hnodes

/-- The public keys of all wallets can be written, since they have been written before. -/
theorem exists_encode (q : Preparation o s) {w : WalletKey}
    (hw : w ∈ q.bundle.delegators ++ (q.bundle.wallets ++ q.bundle.additional)) :
    ∃ text, q.walletFormat.encode w.publicKey = .ok text := by
  rw [← q.walletFormat_eq]
  exact q.made.exists_encode hw

/-- The keys of observers have not been written before. That they can be is known from the length
of the keys in their stream. -/
theorem exists_encode_bls (q : Preparation o s)
    (sized : ∀ i key, s.validatorKeys.publicKey i = .ok key → key.length = KeyFormat.validatorSize)
    {key : BlsKey} (hkey : key ∈ q.bundle.validators ++ q.bundle.observers) :
    ∃ text, KeyFormat.validator.encode key.publicKey = .ok text := by
  obtain ⟨i, hi⟩ : ∃ i, s.validatorKeys.publicKey i = .ok key.publicKey := by
    rw [← q.validatorKeys_eq]
    exact q.made.exists_publicKey hkey
  exact ⟨_, KeyFormat.encode_hex (sized i _ hi)⟩

end Preparation

namespace Options

variable {o : Options} {s : Sources} {coordinator : Coordinator} {t : FileTree}

def layout (o : Options) (p : Prepared) (coordinator : Coordinator) : Layout :=
  ⟨.validator, p.walletFormat, coordinator, o.network⟩

/-- Whatever comes after the gate, apart from files, has nothing left to fail at. -/
theorem exists_chunks (q : Preparation o s)
    (sized : ∀ i key, s.validatorKeys.publicKey i = .ok key →
      key.length = KeyFormat.validatorSize) :
    ∃ coordinator, Coordinator.ofCount? o.shards = .ok coordinator ∧
      ∀ role, ((o.layout q.prepared coordinator).chunk q.prepared.bundle role).1 = .ok () := by
  have hshards := (counts?_ok q.counted).shards
  refine ⟨⟨o.shards.toNat, hshards, o.shards.toNat_lt⟩, dif_pos hshards, Layout.chunks_ok ?_ ?_⟩
  · exact fun key hkey => q.exists_encode_bls sized hkey
  · exact fun w hw => q.exists_encode hw

/-- The folder is there, or can be made, and new files can be opened in it. -/
def Unhindered (o : Options) (t : FileTree) : Prop :=
  ∃ made files opened, t.makeFolders (Path.parts o.outputFolder) = .ok made ∧
    OpenFiles.createAll o.folder .empty made (OutputParts.roles o.traffic o.delegatorsFile) =
      (.ok files, opened)

def Complete (o : Options) (p : Prepared) (coordinator : Coordinator) (t : FileTree) : Prop :=
  (o.layout p coordinator).Complete p.bundle t o.folder
    (OutputParts.roles o.traffic o.delegatorsFile)

def Restored (o : Options) (p : Prepared) (coordinator : Coordinator) (t : FileTree) : Prop :=
  ∀ role ∈ OutputParts.roles o.traffic o.delegatorsFile, ∃ text,
    t.text? (o.folder ++ [role.fileName]) = some text ∧
      (o.layout p coordinator).Restores p.bundle text role

theorem Complete.restored {p : Prepared} (h : o.Complete p coordinator t) :
    o.Restored p coordinator t :=
  fun _ hrole => Layout.Complete.restores h hrole

theorem reached_folder (o : Options) : o.folder.reached = o.folder :=
  Path.reached_join o.outputFolder

theorem write_of_unhindered (p : Prepared)
    (hcoordinator : Coordinator.ofCount? o.shards = .ok coordinator) (h : o.Unhindered t) :
    ∃ t' files, OpenFiles.Show files t' (Role.placeIn o.folder)
        ((o.layout p coordinator).addAll p.bundle (.fresh o.traffic o.delegatorsFile)
          Role.order).2 ∧
      o.write p t = (Step.writeFiles.take ((o.layout p coordinator).addAll p.bundle
        (.fresh o.traffic o.delegatorsFile) Role.order).1, t') := by
  obtain ⟨made, files, opened, hmade, hopened⟩ := h
  obtain ⟨parts, hparts⟩ : ∃ parts, OutputParts.create o.folder .validator p.walletFormat
      coordinator o.traffic o.delegatorsFile o.network made = (.ok parts, opened) := by
    unfold OutputParts.create
    rw [hopened]
    exact ⟨_, rfl⟩
  obtain ⟨writer, desk, hwriter, hrun, hshow⟩ := OutputParts.exists_run_putBundle p.bundle hparts
  rw [o.reached_folder] at hshow
  refine ⟨desk.tree, desk.writer.files, hshow, ?_⟩
  unfold write
  rw [hmade]
  dsimp only
  rw [hcoordinator]
  dsimp only
  rw [hparts]
  dsimp only
  rw [hwriter]
  dsimp only
  rw [hrun]
  rfl

theorem write_complete {p : Prepared}
    (hcoordinator : Coordinator.ofCount? o.shards = .ok coordinator)
    (hchunks : ∀ role, ((o.layout p coordinator).chunk p.bundle role).1 = .ok ())
    (h : o.Unhindered t) : ∃ t', o.write p t = (.ok (), t') ∧ o.Complete p coordinator t' := by
  obtain ⟨t', files, hshow, hwrite⟩ := write_of_unhindered p hcoordinator h
  refine ⟨t', ?_, Layout.complete_of_show hshow fun role _ => hchunks role⟩
  rw [hwrite, Layout.addAll_order fun role _ => hchunks role]
  rfl

end Options

namespace OpenFiles

end OpenFiles

namespace Options

variable {o : Options} {s : Sources} {p : Prepared} {failure : Failure} {coordinator : Coordinator}
  {t t' : FileTree}

theorem write_ok (h : o.write p t = (.ok (), t')) :
    ∃ coordinator, o.Complete p coordinator t' := by
  unfold write at h
  split at h
  · cases h
  split at h
  · cases h
  rename_i coordinator _
  split at h
  · cases h
  rename_i hparts
  split at h
  · cases h
  rename_i hwriter
  obtain ⟨hresult, rfl⟩ := Prod.mk.inj h
  have hcomplete := OutputParts.complete_of_putBundle hparts hwriter
    (Prod.ext (Step.take_eq_ok.mp hresult) rfl)
  rw [o.reached_folder] at hcomplete
  exact ⟨coordinator, hcomplete⟩

theorem run_eq (o : Options) (s : Sources) (t : FileTree) :
    o.run s t = (o.prepare s).run.map fun
      | .error failure => (.error failure, t)
      | .ok prepared => o.write prepared t := by
  unfold run
  rcases (o.prepare s).run with _ | failure | prepared <;> rfl

theorem run_of_preparation (q : Preparation o s) (t : FileTree) :
    o.run s t = some (o.write q.prepared t) := by
  rw [run_eq, prepare_of_preparation q]
  rfl

theorem run_ok (h : o.run s t = some (.ok (), t')) :
    ∃ (q : Preparation o s) (coordinator : Coordinator), o.Complete q.prepared coordinator t' := by
  rw [run_eq] at h
  have hprepares := prepares o s
  generalize (o.prepare s).run = result at h hprepares
  cases hprepares with
  | refused => cases h
  | endless => cases h
  | prepared q =>
    obtain ⟨coordinator, hcomplete⟩ := write_ok (Option.some.inj h)
    exact ⟨q, coordinator, hcomplete⟩

end Options

end Genesis.Cli
