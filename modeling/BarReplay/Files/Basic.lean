import BarReplay.Text.Classes
import BarReplay.Text.Quoted

namespace BarReplay

-- A path of files: whether and how it begins at the root, and the names on the way.
-- Empty names and single dots are left out, as they lead nowhere.
structure FilePath where
  root : String
  names : List String
  deriving DecidableEq

namespace FilePath

-- The slashes that a path begins with: two of them are kept as such, any other number counts
-- as one.
def rootOf (cs : List Char) : String :=
  match (cs.takeWhile (· = '/')).length with
  | 0 => ""
  | 2 => "//"
  | _ => "/"

def ofText (s : String) : FilePath :=
  ⟨rootOf s.toList, (Text.split '/' s).filter fun name => name ≠ "" ∧ name ≠ "."⟩

def text (p : FilePath) : String :=
  if p.root.isEmpty ∧ p.names.isEmpty then "." else p.root ++ "/".intercalate p.names

-- The path that `s` names in the directory `p`; one that begins at the root stands for itself.
def append (p : FilePath) (s : String) : FilePath :=
  let q := ofText s
  if q.root.isEmpty then ⟨p.root, p.names ++ q.names⟩ else q

-- The last name on the way.
def name (p : FilePath) : String :=
  p.names.getLast?.getD ""

end FilePath

-- Why a file or a directory cannot be used.
inductive FileError where
  | missing (path : FilePath)
  | notDirectory (path : FilePath)
  | isDirectory (path : FilePath)
  | nameTooLong (path : FilePath)
  -- a path with a zero character names nothing
  | zeroCharacter
  -- for a reason of its own
  | failed (reason : String)
  deriving DecidableEq

def FileError.message : FileError → String
  | missing path => "[Errno 2] No such file or directory: " ++ Text.quoted path.text
  | notDirectory path => "[Errno 20] Not a directory: " ++ Text.quoted path.text
  | isDirectory path => "[Errno 21] Is a directory: " ++ Text.quoted path.text
  | nameTooLong path => "[Errno 36] File name too long: " ++ Text.quoted path.text
  | zeroCharacter => "embedded null byte"
  | failed reason => reason

-- What can be done with files, with effects in `m`.
structure FileAccess (m : Type → Type) where
  -- whether a path leads to a file or a directory, if that can be found out
  has : FilePath → m (Except FileError Bool)
  read : FilePath → m (Except FileError (List UInt8))
  -- the names of the files in a directory, without those of directories
  list : FilePath → m (Except FileError (List String))
  -- puts a file with this text, in the place of one that is there
  write : FilePath → String → m (Except FileError Unit)

-- The same files among further effects.
def FileAccess.lifted {m n : Type → Type} [MonadLiftT m n] (files : FileAccess m) :
    FileAccess n where
  has path := liftM (files.has path)
  read path := liftM (files.read path)
  list path := liftM (files.list path)
  write path text := liftM (files.write path text)

end BarReplay
