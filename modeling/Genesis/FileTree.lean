import Genesis.Error
import Genesis.Text.Utf8

/-!
A tree of files and folders as a value, and files that are open for writing. An open file stays the
file that it is: if another one takes its place in the tree, what is written to it is not seen.
-/

namespace Genesis

abbrev Path := List String

namespace Path

def step (p : Path) (part : String) : Path :=
  if part = "." then p else if part = ".." then p.dropLast else p ++ [part]

def parts (name : String) : List String :=
  ((name.toList.splitOn '/').filter (· ≠ [])).map String.ofList

/-- Where the way of a name begins: at the root if it starts with a slash. -/
def origin (folder : Path) (name : String) : Path :=
  if name.toList.head? = some '/' then [] else folder

/-- The path of a name below a folder; the name may lead through further folders. -/
def join (folder : Path) (name : String) : Path := (parts name).foldl step (origin folder name)

def nameLimit : Nat := 255

/-- The bytes that a whole path may have, its slashes among them. -/
def textLimit : Nat := 4095

def textLength (folder : Path) (name : String) : Nat :=
  folder.foldl (fun n part => n + part.utf8ByteSize + 1) (name.utf8ByteSize + 1)

end Path

/-- What stands at a path. A file is known by its number, which no other file of its tree has. -/
inductive Entry where
  | file (number : Nat) (bytes : ByteArray)
  | folder

structure FileTree where
  entries : List (Path × Entry) := []
  made : Nat := 0

structure FileHandle where
  path : Path
  number : Nat
  place : Nat := 0
  deriving DecidableEq, Repr

inductive Goal where
  /-- A name in a folder. A slash behind it says that it is to be a folder's. -/
  | named (path : Path) (slash : Bool)
  /-- A folder, by points or by nothing at all. -/
  | folder
  deriving DecidableEq, Repr

namespace FileTree

def get? (t : FileTree) (p : Path) : Option Entry :=
  if p.isEmpty then some .folder else t.entries.lookup p

def erase (t : FileTree) (p : Path) : FileTree :=
  { t with entries := t.entries.filter fun e => e.1 != p }

def put (t : FileTree) (p : Path) (e : Entry) : FileTree :=
  { t with entries := (p, e) :: (t.erase p).entries }

/-- What stands at a path, unless its last name is longer than names can be. -/
def find (t : FileTree) (p : Path) : Except FileFault (Option Entry) :=
  if Path.nameLimit < (p.getLastD "").utf8ByteSize then .error .nameTooLong else .ok (t.get? p)

/-- The folder that is reached from `here` by a way. All that it leads through must be folders,
also where it leads back again. -/
def enter (t : FileTree) (here : Path) : List String → Except FileFault Path
  | [] => .ok here
  | part :: rest =>
    let next := here.step part
    if part = "." ∨ part = ".." then t.enter next rest
    else
      match t.find next with
      | .error fault => .error fault
      | .ok none => .error .notFound
      | .ok (some (.file ..)) => .error .notFolder
      | .ok (some .folder) => t.enter next rest

def seek (t : FileTree) (folder : Path) (name : String) : Except FileFault Goal := do
  if '\x00' ∈ name.toList then throw .zeroInName
  let origin := Path.origin folder name
  if Path.textLimit < Path.textLength origin name then throw .nameTooLong
  let parts := Path.parts name
  let here ← t.enter [] (origin ++ parts.dropLast)
  match parts.getLast? with
  | none | some "." | some ".." => return .folder
  | some last => return .named (here ++ [last]) (name.toList.getLast? = some '/')

def removeFile (t : FileTree) (folder : Path) (name : String) : Except FileFault FileTree := do
  match ← t.seek folder name with
  | .folder => throw .isFolder
  | .named path slash =>
    match ← t.find path with
    | none => throw .notFound
    | some .folder => throw .isFolder
    | some (.file ..) => if slash then throw .notFolder else return t.erase path

/-- Opens a file at its start: a new one, or the one that is there, without what it held. -/
def openFile (t : FileTree) (folder : Path) (name : String) :
    Except FileFault (FileHandle × FileTree) := do
  match ← t.seek folder name with
  | .folder | .named _ true => throw .isFolder
  | .named path false =>
    match ← t.find path with
    | some .folder => throw .isFolder
    | some (.file number _) => return ({ path, number }, t.put path (.file number .empty))
    | none =>
      let t := t.put path (.file t.made .empty)
      return ({ path, number := t.made }, { t with made := t.made + 1 })

def makeFolder (t : FileTree) (folder : Path) (name : String) : Except FileFault FileTree := do
  match ← t.seek folder name with
  | .folder => throw .alreadyThere
  | .named path _ =>
    match ← t.find path with
    | none => return t.put path .folder
    | some _ => throw .alreadyThere

/-- Makes the folders that a way leads through, as far as they are not there. A fault comes with
the tree as it is then, for folders that were made before it stay. -/
def makeWay (t : FileTree) (here : Path) : List String → Except (FileFault × FileTree) FileTree
  | [] => .ok t
  | part :: rest =>
    let next := here.step part
    if part = "." ∨ part = ".." then t.makeWay next rest
    else
      match t.find next with
      | .error fault => .error (fault, t)
      | .ok none => (t.put next .folder).makeWay next rest
      | .ok (some (.file ..)) => .error (if rest.isEmpty then .alreadyThere else .notFolder, t)
      | .ok (some .folder) => t.makeWay next rest

def makeFolders (t : FileTree) (way : List String) : Except (FileFault × FileTree) FileTree :=
  t.makeWay [] way

def text? (t : FileTree) (p : Path) : Option String :=
  match t.get? p with
  | some (.file _ bytes) => some (Text.ofBytes bytes)
  | _ => none

def filesIn (t : FileTree) (folder : Path) : List (String × ByteArray) :=
  t.entries.filterMap fun (p, e) =>
    match e, p.getLast? with
    | .file _ bytes, some name => if p.dropLast = folder then some (name, bytes) else none
    | _, _ => none

end FileTree

namespace FileHandle

/-- The bytes after `new` is written at a place. A gap before it is filled with zeros. -/
def overwrite (old : ByteArray) (place : Nat) (new : ByteArray) : ByteArray :=
  let gap := ByteArray.mk (Array.replicate (place - old.size) 0)
  old.extract 0 place ++ gap ++ new ++ old.extract (place + new.size) old.size

theorem overwrite_size (old new : ByteArray) : overwrite old old.size new = old ++ new := by
  have behind : old.extract (old.size + new.size) old.size = .empty := by
    rw [ByteArray.extract_eq_empty_iff]
    omega
  have gap : ByteArray.mk (Array.replicate (old.size - old.size) 0) = .empty := by
    rw [Nat.sub_self]
    rfl
  simp only [overwrite, behind, gap, ByteArray.extract_zero_size, ByteArray.append_empty]

def create (t : FileTree) (folder : Path) (name : String) :
    Except FileFault (FileHandle × FileTree) :=
  match t.removeFile folder name with
  | .ok t => t.openFile folder name
  | .error .notFound => t.openFile folder name
  | .error fault => .error fault

def write (h : FileHandle) (text : String) (t : FileTree) : FileHandle × FileTree :=
  let next := { h with place := h.place + text.utf8ByteSize }
  match t.get? h.path with
  | some (.file number old) =>
    if number = h.number then
      (next, t.put h.path (.file number (overwrite old h.place text.toUTF8)))
    else (next, t)
  | _ => (next, t)

end FileHandle

end Genesis
