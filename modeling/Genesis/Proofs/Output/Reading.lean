import Genesis.Proofs.Json.Reader
import Genesis.Proofs.Key.Text
import Genesis.Proofs.Output.Writing
import Genesis.Proofs.Pem
import Genesis.Proofs.Traffic

/-! What is read back from the files of an output. -/

namespace Genesis

open Steps

namespace KeyFormat

structure Names (format : KeyFormat) (key : Bytes × Bytes) (block : String × Bytes) : Prop where
  identifier : format.encode key.1 = .ok block.1
  privateKey : block.2 = key.2

variable {format : KeyFormat} {keys : List (Bytes × Bytes)} {blocks : List (String × Bytes)}

theorem chunk_of_names (h : List.Forall₂ format.Names keys blocks) :
    format.chunk keys = (.ok (), String.join (blocks.map fun e => Pem.block e.1 e.2)) := by
  induction h with
  | nil => rfl
  | @cons key block keys blocks hkey _ ih =>
    obtain ⟨publicKey, privateKey⟩ := key
    obtain ⟨identifier, _⟩ := block
    obtain ⟨hidentifier, rfl⟩ := hkey
    rw [chunk, hidentifier]
    dsimp only
    rw [ih, List.map_cons, String.join_cons]

theorem exists_names (h : ∀ key ∈ keys, ∃ text, format.encode key.1 = .ok text) :
    ∃ blocks, List.Forall₂ format.Names keys blocks := by
  induction keys with
  | nil => exact ⟨[], .nil⟩
  | cons key keys ih =>
    obtain ⟨⟨text, htext⟩, hkeys⟩ := List.forall_mem_cons.mp h
    obtain ⟨blocks, hblocks⟩ := ih hkeys
    exact ⟨(text, key.2) :: blocks, .cons ⟨htext, rfl⟩ hblocks⟩

theorem exists_names_of_chunk (h : (format.chunk keys).1 = .ok ()) :
    ∃ blocks, List.Forall₂ format.Names keys blocks := by
  induction keys with
  | nil => exact ⟨[], .nil⟩
  | cons key keys ih =>
    obtain ⟨publicKey, privateKey⟩ := key
    rw [chunk] at h
    split at h
    · cases h
    · rename_i text htext
      obtain ⟨blocks, hblocks⟩ := ih h
      exact ⟨(text, privateKey) :: blocks, .cons ⟨htext, rfl⟩ hblocks⟩

theorem read_chunk (h : List.Forall₂ format.Names keys blocks) :
    Pem.read (format.chunk keys).2 = some blocks := by
  rw [chunk_of_names h]
  refine Pem.read_join fun block hblock => ?_
  obtain ⟨key, _, hkey⟩ := exists_mem_of_forall₂ h hblock
  exact newline_not_mem_of_encode hkey.identifier

end KeyFormat

theorem Layout.chunks_ok {l : Layout} {b : Bundle}
    (hbls : ∀ key ∈ b.validators ++ b.observers,
      ∃ text, l.validatorFormat.encode key.publicKey = .ok text)
    (hwallets : ∀ w ∈ b.delegators ++ (b.wallets ++ b.additional),
      ∃ text, l.walletFormat.encode w.publicKey = .ok text) (role : Role) :
    (l.chunk b role).1 = .ok () := by
  have hkeys : ∀ {format : KeyFormat} {keys : List (Bytes × Bytes)},
      (∀ key ∈ keys, ∃ text, format.encode key.1 = .ok text) → (format.chunk keys).1 = .ok () := by
    intro format keys hall
    obtain ⟨blocks, hblocks⟩ := KeyFormat.exists_names hall
    rw [KeyFormat.chunk_of_names hblocks]
  obtain ⟨hdelegators, hothers⟩ := List.forall_mem_append.mp hwallets
  obtain ⟨howners, hadditional⟩ := List.forall_mem_append.mp hothers
  cases role with
  | setup => rfl
  | genesis => rfl
  | validators => exact hkeys (List.forall_mem_map.mpr hbls)
  | wallets => exact hkeys (List.forall_mem_map.mpr howners)
  | delegators => exact hkeys (List.forall_mem_map.mpr hdelegators)
  | traffic =>
    obtain ⟨groups, hgroups⟩ := TrafficAccount.exists_group l.coordinator hadditional
    rw [Layout.chunk, hgroups]

def FileTree.Holds {α : Type} (t : FileTree) (folder : Path) (role : Role)
    (read : String → Option α) (value : α) : Prop :=
  ∃ text, t.text? (folder ++ [role.fileName]) = some text ∧ read text = some value

def Json.read? {α : Type} (reader : Json.Reader α) (text : String) : Option α :=
  (Json.read reader text).toOption

theorem Json.Reader.Yields.read? {α : Type} {reader : Json.Reader α} {v : Json} {a : α}
    (h : reader.Yields v a) : Json.read? reader v.lines = some a := by
  unfold Json.read?
  rw [h.read_lines]
  rfl

namespace Json

/-- Every member of a setup is read back by itself. There is nothing to say about its hysteresis,
which may be no number at all. -/
structure Describes (text : String) (setup : NodesSetup) : Prop where
  startTime : read? (.member "startTime" .signed64) text = some setup.startTime
  roundDuration : read? (.member "roundDuration" .word64) text = some setup.config.roundDuration
  consensusGroupSize :
    read? (.member "consensusGroupSize" .word32) text = some setup.config.consensusGroupSize
  minNodesPerShard :
    read? (.member "minNodesPerShard" .word32) text = some setup.config.minNodesPerShard
  metaConsensusGroupSize : read? (.member "metaChainConsensusGroupSize" .word32) text =
    some setup.config.metaConsensusGroupSize
  metaMinNodes : read? (.member "metaChainMinNodes" .word32) text = some setup.config.metaMinNodes
  adaptivity : read? (.member "adaptivity" .flag) text = some setup.config.adaptivity
  chainId : read? (.member "chainID" .text) text = some setup.config.chainId
  minTransactionVersion :
    read? (.member "minTransactionVersion" .word32) text = some setup.config.minTransactionVersion
  initialNodes : read? (.member "initialNodes" (.list .node)) text = some setup.initialNodes

theorem read?_member_setup {α : Type} {reader : Reader α} {name : String} {v : Json} {a : α}
    (setup : NodesSetup) {ms : List (String × Json)} (hms : ofSetup setup = .object ms)
    (hmem : (name, v) ∈ ms) (h : reader.Yields v a) :
    read? (.member name reader) (ofSetup setup).lines = some a :=
  (Reader.yields_member_setup setup hms hmem h).read?

theorem describes_lines (setup : NodesSetup) : Describes (ofSetup setup).lines setup where
  startTime := read?_member_setup setup rfl (by simp) (Reader.yields_signed64 _)
  roundDuration := read?_member_setup setup rfl (by simp) (Reader.yields_word64 _)
  consensusGroupSize := read?_member_setup setup rfl (by simp) (Reader.yields_word32 _)
  minNodesPerShard := read?_member_setup setup rfl (by simp) (Reader.yields_word32 _)
  metaConsensusGroupSize := read?_member_setup setup rfl (by simp) (Reader.yields_word32 _)
  metaMinNodes := read?_member_setup setup rfl (by simp) (Reader.yields_word32 _)
  adaptivity := read?_member_setup setup rfl (by simp) (Reader.yields_flag _)
  chainId := read?_member_setup setup rfl (by simp) (Reader.yields_text _)
  minTransactionVersion := read?_member_setup setup rfl (by simp) (Reader.yields_word32 _)
  initialNodes :=
    read?_member_setup setup rfl (by simp) (Reader.yields_list_map Reader.yields_node _)

end Json

/-- The blocks of a text are those of the keys, in their order. -/
def KeyFormat.Restores (format : KeyFormat) (keys : List (Bytes × Bytes)) (text : String) : Prop :=
  ∃ blocks, List.Forall₂ format.Names keys blocks ∧ Pem.read text = some blocks

/-- What a generation has for a role is all that is read back from the text. -/
def Layout.Restores (l : Layout) (b : Bundle) (text : String) : Role → Prop
  | .setup => Json.Describes text { config := l.network, initialNodes := b.nodes }
  | .genesis => Json.read? (.list .account) text = some b.accounts
  | .validators =>
    l.validatorFormat.Restores (Writing.blsPairs (b.validators ++ b.observers)) text
  | .wallets => l.walletFormat.Restores (Writing.walletPairs b.wallets) text
  | .delegators => l.walletFormat.Restores (Writing.walletPairs b.delegators) text
  | .traffic => ∃ groups,
    TrafficAccount.group l.walletFormat l.coordinator b.additional = .ok groups ∧
      Json.read? (.members (.list .traffic)) text =
        some (groups.map fun g => (Amount.render (g.1 : Int), g.2))

theorem KeyFormat.restores_of_chunk_ok {format : KeyFormat} {keys : List (Bytes × Bytes)}
    (h : (format.chunk keys).1 = .ok ()) : format.Restores keys (format.chunk keys).2 := by
  obtain ⟨blocks, hblocks⟩ := exists_names_of_chunk h
  exact ⟨blocks, hblocks, read_chunk hblocks⟩

theorem Layout.restores_of_chunk_ok {l : Layout} {b : Bundle} {role : Role}
    (h : (l.chunk b role).1 = .ok ()) : l.Restores b (l.chunk b role).2 role := by
  cases role with
  | setup => exact Json.describes_lines _
  | genesis => exact (Json.Reader.yields_list_map Json.Reader.yields_account b.accounts).read?
  | validators => exact KeyFormat.restores_of_chunk_ok h
  | wallets => exact KeyFormat.restores_of_chunk_ok h
  | delegators => exact KeyFormat.restores_of_chunk_ok h
  | traffic =>
    cases hgroup : TrafficAccount.group l.walletFormat l.coordinator b.additional with
    | error e =>
      rw [chunk, hgroup] at h
      cases h
    | ok groups =>
      rw [chunk, hgroup]
      exact ⟨groups, hgroup, (Json.Reader.yields_trafficGroups groups).read?⟩

theorem Layout.Complete.restores {l : Layout} {b : Bundle} {t : FileTree} {folder : Path}
    {roles : List Role} {role : Role} (h : l.Complete b t folder roles) (hrole : role ∈ roles) :
    ∃ text, t.text? (folder ++ [role.fileName]) = some text ∧ l.Restores b text role :=
  ⟨_, (h role hrole).2, restores_of_chunk_ok (h role hrole).1⟩

end Genesis
