import LakeSchema.Cli.Surroundings
import LakeSchema.Document.Format

/-!
# Workspaces

A table of texts to run on in place of a disk. A path leads through the table piece by piece, as it
does on a disk: every piece, `..` included, has to leave a directory that is there, and a directory
is there when a file lies below it.
-/

namespace LakeSchema.Cli

/-! ### Places -/

/-- A directory below which names count: the root, or the one some levels above the working
directory. -/
inductive Origin where
  | root
  | above (levels : Nat)
deriving DecidableEq

/-- Where a path leads. The names stand innermost first. -/
structure Place where
  origin : Origin
  names : List (List Char)
deriving DecidableEq

namespace Place

def start (path : String) : Place :=
  ⟨if Path.isAbsolute path then .root else .above 0, []⟩

/-- The directory that holds a place; the root holds itself. -/
def outer (p : Place) : Place :=
  match p.names, p.origin with
  | _ :: names, _ => { p with names }
  | [], .above levels => ⟨.above (levels + 1), []⟩
  | [], .root => p

def enter (p : Place) (piece : List Char) : Place :=
  if piece == [] || piece == ['.'] then p
  else if piece == ['.', '.'] then p.outer
  else { p with names := piece :: p.names }

/-- Where a path leads when all directories on the way are there. -/
def ofPath (path : String) : Place :=
  (Path.pieces path).foldl enter (start path)

/-- Whether `q` lies below `p`. -/
def holds (p q : Place) : Bool :=
  p.origin == q.origin && p.names != q.names && p.names.isSuffixOf q.names

end Place

/-! ### Files -/

/-- Files by their places, and the text of the standard input. -/
structure Workspace where
  files : List (Place × String)
  input : String

namespace Workspace

def maxName : Nat :=
  255

def maxPath : Nat :=
  4095

/-- Whether a directory is there. Those that paths start from or climb to always are. -/
def isDirectory (w : Workspace) (p : Place) : Bool :=
  p.names.isEmpty || w.files.any fun (file, _) => p.holds file

/-- Leaves a directory by a piece of a path. -/
def step (w : Workspace) (p : Place) (piece : List Char) : Except FileFault Place :=
  if !w.isDirectory p then
    .error (if (w.files.lookup p).isSome then .notADirectory else .missing)
  else if Text.byteSize piece > maxName then .error .nameTooLong
  else .ok (p.enter piece)

/-- Where pieces of a path lead. The last of them need not be there. -/
def follow (w : Workspace) (path : String) (pieces : List (List Char)) : Except FileFault Place :=
  if path.isEmpty then .error .missing
  else if path.utf8ByteSize > maxPath then .error .nameTooLong
  else pieces.foldlM w.step (.start path)

def find (w : Workspace) (path : String) : Except FileFault String := do
  let p ← w.follow path (Path.pieces path)
  match w.files.lookup p with
  | some content => .ok content
  | none => .error (if w.isDirectory p then .isADirectory else .missing)

/-- Gives a file a new text, and makes it where its directory is there. A path that ends with a
slash can only be that of a directory. -/
def replace (w : Workspace) (path content : String) : Except FileFault Workspace := do
  let pieces := Path.pieces path
  let p ← w.follow path (pieces.reverse.dropWhile (· == [])).reverse
  if pieces.getLast? == some [] || w.isDirectory p then .error .isADirectory
  else .ok { w with files := (p, content) :: w.files.filter (·.1 != p) }

/-- The workspace as what surrounds a run, with the environment that `valueOf?` gives. -/
def surroundings (valueOf? : String → Option String) : Surroundings (StateM Workspace) where
  textOfFile := fun path w => (w.find path, w)
  replaceFile := fun path content w =>
    match w.replace path content with
    | .ok w => (.ok (), w)
    | .error fault => (.error fault, w)
  textOfInput := fun w => (.ok w.input, w)
  getVariable := fun name w => (valueOf? name, w)

end Workspace
end LakeSchema.Cli
