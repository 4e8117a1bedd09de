import Genesis.FileTree
import Genesis.Proofs.Steps

/-! Where the path of a name leads, and what files hold that are made and written. -/

namespace Genesis

open Steps

/-- Where a way from the root ends up. -/
def Path.reached (way : Path) : Path := way.foldl Path.step []

theorem Path.reached_append {p q : Path} (h : ∀ part ∈ q, part ≠ "." ∧ part ≠ "..") :
    q.foldl Path.step p = p ++ q := by
  induction q generalizing p with
  | nil => exact (List.append_nil p).symm
  | cons part q ih =>
    obtain ⟨⟨hpoint, hpoints⟩, hq⟩ := List.forall_mem_cons.mp h
    rw [List.foldl_cons, Path.step, if_neg hpoint, if_neg hpoints, ih hq, List.append_assoc,
      List.singleton_append]

theorem Path.no_points_foldl {p q : Path} (h : ∀ part ∈ p, part ≠ "." ∧ part ≠ "..") :
    ∀ part ∈ q.foldl Path.step p, part ≠ "." ∧ part ≠ ".." := by
  induction q generalizing p with
  | nil => exact h
  | cons part q ih =>
    refine ih ?_
    unfold Path.step
    split_ifs with hpoint hpoints
    · exact h
    · exact fun part hpart => h part (p.dropLast_subset hpart)
    · intro other hother
      rcases List.mem_append.mp hother with hother | hother
      · exact h other hother
      · rw [List.mem_singleton.mp hother]
        exact ⟨hpoint, hpoints⟩

theorem Path.reached_join (name : String) : (Path.join [] name).reached = Path.join [] name := by
  have horigin : Path.origin [] name = [] := by
    unfold Path.origin
    split <;> rfl
  unfold Path.reached Path.join
  rw [horigin, Path.reached_append (Path.no_points_foldl (List.forall_mem_nil _)), List.nil_append]

/-- A name that leads straight to an entry of its folder. -/
structure Path.Plain (name : String) : Prop where
  parts : Path.parts name = [name]
  relative : name.toList.head? ≠ some '/'

/-- A handle that has reached the end of its file, in which this text stands. -/
structure FileHandle.AtEnd (handle : FileHandle) (t : FileTree) (text : String) : Prop where
  path_ne : handle.path ≠ []
  place : handle.place = text.utf8ByteSize
  file : t.get? handle.path = some (.file handle.number text.toUTF8)

namespace FileTree

variable {t t' : FileTree} {folder here path : Path} {name : String}

section Entries

theorem lookup_filter_ne {p q : Path} (h : q ≠ p) (entries : List (Path × Entry)) :
    (entries.filter fun e => e.1 != p).lookup q = entries.lookup q := by
  induction entries with
  | nil => rfl
  | cons e entries ih =>
    obtain ⟨key, entry⟩ := e
    rw [List.filter_cons]
    split
    · rw [List.lookup_cons, List.lookup_cons, ih]
    · rename_i hkey
      have hkey : key = p := by simpa using hkey
      have hne : (q == key) = false := beq_eq_false_iff_ne.mpr (hkey ▸ h)
      rw [ih, List.lookup_cons, hne]

theorem get?_erase_of_ne {q : Path} (h : q ≠ path) : (t.erase path).get? q = t.get? q := by
  unfold get? erase
  rw [lookup_filter_ne h]

theorem get?_put_of_ne {e : Entry} {q : Path} (h : q ≠ path) :
    (t.put path e).get? q = t.get? q := by
  have hne : (q == path) = false := beq_eq_false_iff_ne.mpr h
  unfold get? put erase
  rw [List.lookup_cons, hne, lookup_filter_ne h]

theorem get?_put_self {e : Entry} (h : path ≠ []) : (t.put path e).get? path = some e := by
  have hempty : path.isEmpty = false := List.isEmpty_eq_false_iff.mpr h
  unfold get? put
  rw [hempty, List.lookup_cons, beq_self_eq_true]
  rfl

end Entries

section Ways

theorem enter_ok {way : List String} (h : t.enter here way = .ok path) :
    path = way.foldl Path.step here := by
  induction way generalizing here with
  | nil =>
    cases h
    rfl
  | cons part rest ih =>
    rw [enter] at h
    split at h
    · exact ih h
    · split at h
      · cases h
      · cases h
      · cases h
      · exact ih h

theorem seek_named {slash : Bool} (h : t.seek folder name = .ok (.named path slash)) :
    ∃ last, (Path.parts name).getLast? = some last ∧
      path = (Path.origin folder name ++ (Path.parts name).dropLast).reached ++ [last] := by
  unfold seek at h
  dsimp only at h
  split at h
  · cases h
  split at h
  · cases h
  obtain ⟨here, hhere, h⟩ := bind_eq_ok.mp h
  split at h
  · cases h
  · cases h
  · cases h
  · rename_i last _ _ hlast
    cases h
    exact ⟨last, hlast, by rw [enter_ok hhere]; rfl⟩

theorem ne_nil_of_seek {slash : Bool} (h : t.seek folder name = .ok (.named path slash)) :
    path ≠ [] := by
  obtain ⟨last, _, hpath⟩ := seek_named h
  rw [hpath]
  exact List.append_ne_nil_of_right_ne_nil _ (List.cons_ne_nil _ _)

theorem seek_plain (hname : Path.Plain name) {slash : Bool}
    (h : t.seek folder name = .ok (.named path slash)) : path = folder.reached ++ [name] := by
  obtain ⟨last, hlast, hpath⟩ := seek_named h
  have horigin : Path.origin folder name = folder := if_neg hname.relative
  rw [hname.parts, List.getLast?_singleton, Option.some.injEq] at hlast
  rw [hpath, horigin, hname.parts, ← hlast, List.dropLast_singleton, List.append_nil]

end Ways

section Made

variable {handle : FileHandle}

theorem removeFile_ok (hname : Path.Plain name) (h : t.removeFile folder name = .ok t') :
    ∀ q, q ≠ folder.reached ++ [name] → t'.get? q = t.get? q := by
  unfold removeFile at h
  obtain ⟨goal, hgoal, h⟩ := bind_eq_ok.mp h
  cases goal with
  | folder => cases h
  | named path slash =>
    have hpath := seek_plain hname hgoal
    obtain ⟨found, _, h⟩ := bind_eq_ok.mp h
    split at h
    · cases h
    · cases h
    · split at h
      · cases h
      · cases h
        exact fun q hq => get?_erase_of_ne (hpath ▸ hq)

theorem openFile_ok (h : t.openFile folder name = .ok (handle, t')) :
    t.seek folder name = .ok (.named handle.path false) ∧ handle.AtEnd t' "" ∧
      ∀ q, q ≠ handle.path → t'.get? q = t.get? q := by
  unfold openFile at h
  obtain ⟨goal, hgoal, h⟩ := bind_eq_ok.mp h
  split at h
  · cases h
  · cases h
  · rename_i path
    have hne : path ≠ [] := ne_nil_of_seek hgoal
    obtain ⟨found, _, h⟩ := bind_eq_ok.mp h
    split at h
    · cases h
    · cases h
      exact ⟨hgoal, ⟨hne, rfl, get?_put_self hne⟩, fun q hq => get?_put_of_ne hq⟩
    · cases h
      exact ⟨hgoal, ⟨hne, rfl, get?_put_self hne⟩, fun q hq => get?_put_of_ne hq⟩

theorem atEnd_of_create (h : FileHandle.create t folder name = .ok (handle, t')) :
    handle.AtEnd t' "" := by
  unfold FileHandle.create at h
  split at h
  · exact (openFile_ok h).2.1
  · exact (openFile_ok h).2.1
  · cases h

theorem create_plain (hname : Path.Plain name)
    (h : FileHandle.create t folder name = .ok (handle, t')) :
    handle.path = folder.reached ++ [name] ∧ ∀ q, q ≠ handle.path → t'.get? q = t.get? q := by
  unfold FileHandle.create at h
  split at h
  · rename_i removed hremoved
    obtain ⟨hseek, _, hothers⟩ := openFile_ok h
    have hpath := seek_plain hname hseek
    refine ⟨hpath, fun q hq => ?_⟩
    rw [hothers q hq, removeFile_ok hname hremoved q (hpath ▸ hq)]
  · obtain ⟨hseek, _, hothers⟩ := openFile_ok h
    exact ⟨seek_plain hname hseek, hothers⟩
  · cases h

theorem text?_of_get? {number : Nat} {text : String}
    (h : t.get? path = some (.file number text.toUTF8)) : t.text? path = some text := by
  unfold text?
  rw [h]
  exact congrArg some (Text.ofBytes_toUTF8 text)

end Made

end FileTree

namespace FileHandle

variable {handle : FileHandle} {t : FileTree} {old : String}

theorem write_fst (handle : FileHandle) (text : String) (t : FileTree) :
    (handle.write text t).1 = { handle with place := handle.place + text.utf8ByteSize } := by
  unfold write
  dsimp only
  split
  · split <;> rfl
  · rfl

theorem write_path (handle : FileHandle) (text : String) (t : FileTree) :
    (handle.write text t).1.path = handle.path := by
  rw [write_fst]

theorem write_number (handle : FileHandle) (text : String) (t : FileTree) :
    (handle.write text t).1.number = handle.number := by
  rw [write_fst]

theorem get?_write_of_ne {q : Path} (h : q ≠ handle.path) (text : String) (t : FileTree) :
    (handle.write text t).2.get? q = t.get? q := by
  unfold write
  dsimp only
  split
  · split
    · exact FileTree.get?_put_of_ne h
    · rfl
  · rfl

theorem AtEnd.write (h : handle.AtEnd t old) (text : String) :
    (handle.write text t).1.AtEnd (handle.write text t).2 (old ++ text) := by
  have hsize : handle.place = old.toUTF8.size := h.place.trans String.size_toByteArray.symm
  have hbytes : (old ++ text).toUTF8 = old.toUTF8 ++ text.toUTF8 := String.toByteArray_append
  have heq : handle.write text t = ({ handle with place := handle.place + text.utf8ByteSize },
      t.put handle.path (.file handle.number (old ++ text).toUTF8)) := by
    unfold FileHandle.write
    rw [h.file]
    dsimp only
    rw [if_pos rfl, hsize, overwrite_size, hbytes]
  rw [heq]
  refine ⟨h.path_ne, ?_, FileTree.get?_put_self h.path_ne⟩
  rw [String.utf8ByteSize_append, h.place]

def writeAll (handle : FileHandle) (t : FileTree) : List String → FileHandle × FileTree
  | [] => (handle, t)
  | text :: texts =>
    let (handle, t) := handle.write text t
    handle.writeAll t texts

theorem AtEnd.get?_writeAll (h : handle.AtEnd t old) (texts : List String) :
    (handle.writeAll t texts).2.get? handle.path =
      some (.file handle.number (old ++ String.join texts).toUTF8) := by
  induction texts generalizing handle t old with
  | nil =>
    rw [String.join_nil, String.append_empty]
    exact h.file
  | cons text texts ih =>
    have hrest := ih (h.write text)
    rw [handle.write_path, handle.write_number, String.append_assoc, ← String.join_cons] at hrest
    exact hrest

theorem get?_writeAll {t' : FileTree} {folder : Path} {name : String}
    (h : create t folder name = .ok (handle, t')) (texts : List String) :
    (handle.writeAll t' texts).2.get? handle.path =
      some (.file handle.number (String.join texts).toUTF8) := by
  have hfile := (FileTree.atEnd_of_create h).get?_writeAll texts
  rw [String.empty_append] at hfile
  exact hfile

end FileHandle

end Genesis
