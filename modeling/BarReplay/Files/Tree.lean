import BarReplay.Files.Basic

namespace BarReplay

-- What a name in a tree of files stands for.
inductive FileNode where
  | directory
  | file (bytes : List UInt8)

-- Files and directories by the names that lead to them from a working directory, or from the
-- root of all files, which has a slash as its name. Whatever stands above something is itself an
-- entry, a directory. The working directory, those above it and the root have none.
structure FileTree where
  entries : List (List String × FileNode)

namespace FileTree

def empty : FileTree := ⟨[]⟩

def rootPlace : List String := ["/"]

-- The working directory is where no name leads; two dots lead to those above it.
def isAbove (place : List String) : Bool :=
  place.all (· == "..")

def node? (t : FileTree) (place : List String) : Option FileNode :=
  if isAbove place || place == rootPlace then some .directory else t.entries.lookup place

-- The place of the directory that a place is in. The root is in itself.
def outer (place : List String) : List String :=
  if place == rootPlace then place
  else if isAbove place then ".." :: place
  else place.dropLast

-- Puts an entry, in the place of one that is there.
def put (t : FileTree) (place : List String) (node : FileNode) : FileTree :=
  if t.entries.any (·.1 == place) then
    ⟨t.entries.map fun e => if e.1 == place then (place, node) else e⟩
  else
    ⟨t.entries ++ [(place, node)]⟩

-- Makes a directory, and those above it, unless there is something in the place.
def makeDirectory (t : FileTree) (place : List String) : FileTree :=
  (List.range place.length).foldl (fun t k =>
    let above := place.take (k + 1)
    if (t.node? above).isSome then t else t.put above .directory) t

-- The most bytes that a name and a whole path may have.
def longestName : Nat := 255
def longestPath : Nat := 4095

-- Where the names of a path lead: two dots go up, and every name but the last is that of a
-- directory.
def follow (t : FileTree) (path : FilePath) (place : List String) :
    List String → Except FileError (List String)
  | [] => .ok place
  | name :: rest =>
    match t.node? place with
    | none => .error (.missing path)
    | some (.file _) => .error (.notDirectory path)
    | some .directory =>
      if name = ".." then
        t.follow path (outer place) rest
      else if longestName < name.utf8ByteSize then
        .error (.nameTooLong path)
      else
        t.follow path (place ++ [name]) rest

-- The place of a path.
def place (t : FileTree) (path : FilePath) : Except FileError (List String) :=
  if path.text.contains (Char.ofNat 0) then .error .zeroCharacter
  else if longestPath < path.text.utf8ByteSize then .error (.nameTooLong path)
  else t.follow path (if path.root.isEmpty then [] else rootPlace) path.names

-- What a path leads to.
def find (t : FileTree) (path : FilePath) : Except FileError FileNode := do
  match t.node? (← t.place path) with
  | some node => .ok node
  | none => .error (.missing path)

def read (t : FileTree) (path : FilePath) : Except FileError (List UInt8) := do
  match ← t.find path with
  | .file bytes => .ok bytes
  | .directory => .error (.isDirectory path)

-- The names of the files in a directory, in no particular order.
def list (t : FileTree) (path : FilePath) : Except FileError (List String) := do
  let place ← t.place path
  match ← t.find path with
  | .file _ => .error (.notDirectory path)
  | .directory =>
    .ok (t.entries.filterMap fun (names, node) =>
      match node with
      | .file _ => if names.dropLast = place then names.getLast? else none
      | .directory => none)

def write (t : FileTree) (path : FilePath) (text : String) : Except FileError FileTree := do
  let place ← t.place path
  match t.node? place with
  | some .directory => .error (.isDirectory path)
  | some (.file _) => .ok (t.put place (.file text.toUTF8.toList))
  | none =>
    match t.node? place.dropLast with
    | some .directory => .ok (t.put place (.file text.toUTF8.toList))
    | some (.file _) => .error (.notDirectory path)
    | none => .error (.missing path)

-- Whether a path leads to something. One that names nothing or leads through a file does not.
def has (t : FileTree) (path : FilePath) : Except FileError Bool :=
  match t.find path with
  | .ok _ => .ok true
  | .error (.nameTooLong path) => .error (.nameTooLong path)
  | .error _ => .ok false

-- Access to a tree that is the state of `m`.
def access {m : Type → Type} [Monad m] [MonadStateOf FileTree m] : FileAccess m where
  has path := return (← get).has path
  read path := return (← get).read path
  list path := return (← get).list path
  write path text := do
    match (← get).write path text with
    | .ok t =>
      set t
      return .ok ()
    | .error e => return .error e

end FileTree

end BarReplay
