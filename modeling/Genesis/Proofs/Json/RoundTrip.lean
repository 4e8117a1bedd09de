import Genesis.Proofs.FileTree
import Genesis.Proofs.Json.Reader

/-!
The entries of a genesis come back from the texts that are written for them, also if these have
gone through a file. Texts that others have written settle after they have been written once.
-/

namespace Genesis.Json

variable {α : Type} {reader : Reader α} {form : α → Json}

def rewrite (reader : Reader α) (write : α → String) (text : String) : Except ReadFault String :=
  (read reader text).map write

/-- The text that comes out of rewriting is taken again, and rewriting leaves it as it is. -/
def Settles (reader : Reader α) (write : α → String) : Prop :=
  ∀ text text', rewrite reader write text = .ok text' → rewrite reader write text' = .ok text'

def KeptByFiles (reader : Reader α) (form : α → Json) : Prop :=
  ∀ (t t' : FileTree) (folder : Path) (name : String) (handle : FileHandle),
    FileHandle.create t folder name = .ok (handle, t') → ∀ a, ∃ text,
      (handle.write (form a).lines t').2.get? handle.path =
        some (.file handle.number text.toUTF8) ∧ read reader text = .ok a

structure RoundTrip (reader : Reader α) (form : α → Json) : Prop where
  line : ∀ a, read reader (form a).line = .ok a
  lines : ∀ a, read reader (form a).lines = .ok a
  file : KeptByFiles reader form
  settles_line : Settles reader fun a => (form a).line
  settles_lines : Settles reader fun a => (form a).lines

theorem settles_of_read {write : α → String} (h : ∀ a, read reader (write a) = .ok a) :
    Settles reader write := by
  intro text text' htext
  cases hread : read reader text with
  | error fault =>
    rw [rewrite, hread] at htext
    cases htext
  | ok a =>
    rw [rewrite, hread] at htext
    cases htext
    rw [rewrite, h a]
    rfl

theorem keptByFiles_of_read (h : ∀ a, read reader (form a).lines = .ok a) :
    KeptByFiles reader form := by
  intro t t' folder name handle hcreate a
  refine ⟨(form a).lines, ?_, h a⟩
  have hfile := FileHandle.get?_writeAll hcreate [(form a).lines]
  rw [String.join_cons, String.join_nil, String.append_empty] at hfile
  exact hfile

theorem roundTrip_of_yields (h : ∀ a, reader.Yields (form a) a) : RoundTrip reader form where
  line := fun a => (h a).read_line
  lines := fun a => (h a).read_lines
  file := keptByFiles_of_read fun a => (h a).read_lines
  settles_line := settles_of_read fun a => (h a).read_line
  settles_lines := settles_of_read fun a => (h a).read_lines

/-- All entries of a genesis, and the list of its accounts, can be read out of what is written for
them. -/
theorem entries_round_trip :
    RoundTrip (.list .account) (fun accounts => .array (accounts.map ofAccount)) ∧
      RoundTrip .delegation ofDelegation ∧ RoundTrip .account ofAccount ∧
      RoundTrip .node ofNode ∧ RoundTrip .traffic ofTraffic :=
  ⟨roundTrip_of_yields (Reader.yields_list_map Reader.yields_account),
    roundTrip_of_yields Reader.yields_delegation, roundTrip_of_yields Reader.yields_account,
    roundTrip_of_yields Reader.yields_node, roundTrip_of_yields Reader.yields_traffic⟩

/-- An account with a text that has to be escaped, and with amounts below zero. -/
def overdrawn : Account := ⟨"\"\n\\é", -10, 0, 10, ⟨"", -20⟩⟩

def staleTree : FileTree := ⟨[(["genesis.json"], .file 0 "[".toUTF8)], 1⟩

def freshTree : FileTree := ⟨[(["genesis.json"], .file 1 .empty)], 2⟩

theorem create_staleTree : FileHandle.create staleTree [] "genesis.json" =
    .ok (⟨["genesis.json"], 1, 0⟩, freshTree) := by
  rfl

theorem overdrawn_round_trip :
    FileHandle.create staleTree [] "genesis.json" = .ok (⟨["genesis.json"], 1, 0⟩, freshTree) ∧
      ∃ text, (FileHandle.write ⟨["genesis.json"], 1, 0⟩
          (Json.array ([overdrawn].map ofAccount)).lines freshTree).2.get? ["genesis.json"] =
            some (.file 1 text.toUTF8) ∧ read (.list .account) text = .ok [overdrawn] :=
  ⟨create_staleTree, entries_round_trip.1.file _ _ _ _ _ create_staleTree [overdrawn]⟩

/-- Members may come in any order and among others, and amounts may have more signs and digits
than are written for them. -/
example : rewrite .delegation (fun d => (ofDelegation d).line)
    "\x7b \"value\" : \"+0_70_\", \"note\" : [-0.5e3, \x7b\x7d], \"address\" : \"\\u0061\\n\" \x7d" =
      .ok "\x7b\"address\":\"a\\n\",\"value\":\"70\"\x7d" := by
  cbv

end Genesis.Json
