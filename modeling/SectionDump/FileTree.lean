import SectionDump.FileSystem

/-!
# File trees

A directory tree in memory, as the list of its nodes under their full locations.
The top directory is always there and has no node. Paths are relative to it. The
tree lies in directories of a machine that a path may climb to or start from, and
nothing but directories is known of them.
-/
namespace SectionDump

/-- The names on the way down from the top directory. -/
abbrev Location := List Bytes

inductive FileNode where
  | file (data : Bytes)
  | directory
  deriving DecidableEq, Repr

structure FileTree where
  nodes : List (Location × FileNode)
  deriving DecidableEq, Repr

namespace FileTree

/-- Where a path has led to. -/
inductive Place where
  | inside (location : Location)
  /-- A directory that the tree lies in. -/
  | around
  | nowhere
  deriving DecidableEq, Repr

def empty : FileTree := ⟨[]⟩

def node? (t : FileTree) : Place → Option FileNode
  | .inside l => if l = [] then some .directory else t.nodes.lookup l
  | .around => some .directory
  | .nowhere => none

def slash : UInt8 := 0x2F
def hereName : Bytes := [0x2E]
def parentName : Bytes := [0x2E, 0x2E]

/-- The most bytes that a name may have. -/
def nameLimit : Nat := 255

/-- The most bytes that a path may have. -/
def pathLimit : Nat := 4095

/-- Where a name leads from a place. The directories around the tree have others
around them, up to the root, which is its own parent. -/
def step (p : Place) (name : Bytes) : Place :=
  if name = [] ∨ name = hereName then p
  else match p with
    | .inside l =>
      if name ≠ parentName then .inside (l ++ [name])
      else if l = [] then .around
      else .inside l.dropLast
    | .around => if name = parentName then .around else .nowhere
    | .nowhere => .nowhere

/-- Where a path starts: the root, if a slash comes first, else the top directory. -/
def start (path : Bytes) : Place :=
  if path.head? = some slash then .around else .inside []

/-- Follows names down and up from a place. Every name is taken in a directory, so
a path below a file leads nowhere. -/
def follow (t : FileTree) (p : Place) : List Bytes → Except IoFault Place
  | [] => .ok p
  | n :: rest => match t.node? p with
    | none => .error .notFound
    | some (.file _) => .error .notADirectory
    | some .directory =>
      if nameLimit < n.length then .error .nameTooLong else follow t (step p n) rest

/-- The node at a path and its place. The empty path leads nowhere. What is wrong
with the path as a whole is noticed before it is followed. -/
def locate (t : FileTree) (path : Bytes) : Except IoFault (Place × FileNode) :=
  if 0 ∈ path then .error .nulInPath
  else if pathLimit < path.length then .error .nameTooLong
  else if path = [] then .error .notFound
  else (t.follow (start path) (path.splitOn slash)).bind fun p => match t.node? p with
    | some node => .ok (p, node)
    | none => .error .notFound

/-- The path of an entry, from that of its directory. -/
def entryPath (directory name : Bytes) : Bytes :=
  if directory.getLast? = some slash then directory ++ name else directory ++ slash :: name

/-- Whether a path leads to a file. -/
def isFile (t : FileTree) (path : Bytes) : Bool :=
  match t.locate path with
  | .ok (_, .file _) => true
  | _ => false

/-- The names of the nodes right below a place. -/
def namesBelow (t : FileTree) : Place → List Bytes
  | .inside l => t.nodes.filterMap fun m => m.1.getLast?.filter fun _ => m.1.dropLast = l
  | _ => []

/-- The entries of a directory. Whether one is a file is asked of its own path,
which may be too long where that of the directory is not. -/
def entries (t : FileTree) (path : Path) : Except IoFault (List DirectoryEntry) :=
  (t.locate (Utf8.encode path)).bind fun
    | (_, .file _) => .error .notADirectory
    | (p, .directory) => .ok <| (t.namesBelow p).map fun name =>
      ⟨name, t.isFile (entryPath (Utf8.encode path) name)⟩

def contents (t : FileTree) (path : Path) : Except IoFault Bytes :=
  (t.locate (Utf8.encode path)).bind fun
    | (_, .file data) => .ok data
    | (_, .directory) => .error .isADirectory

def fileSystem (t : FileTree) : FileSystem := ⟨t.entries, t.contents⟩

/-- The places that names pass on the way from a place, the last one included. One
that is left upwards again is among them. -/
def way (p : Place) : List Bytes → List Place
  | [] => [p]
  | n :: rest => p :: way (step p n) rest

/-- The place that a path is about to name, by its names alone. -/
def target (path : Bytes) : Place := (path.splitOn slash).foldl step (start path)

/-- Puts a node at a place in the tree, instead of the one that is there. -/
def put (t : FileTree) (node : FileNode) : Place → FileTree
  | .inside l =>
    if t.nodes.any fun m => m.1 = l then
      ⟨t.nodes.map fun m => if m.1 = l then (l, node) else m⟩
    else ⟨t.nodes ++ [(l, node)]⟩
  | _ => t

/-- Makes directories where they are missing, in order. -/
def makeDirectories (t : FileTree) (ps : List Place) : FileTree :=
  ps.foldl (fun t p => if (t.node? p).isSome then t else t.put .directory p) t

/-- Writes a file, and the directories on the way to it where they are missing. -/
def write (t : FileTree) (path : Bytes) (data : Bytes) : FileTree :=
  (t.makeDirectories (way (start path) (path.splitOn slash)).dropLast).put (.file data)
    (target path)

/-- Makes a directory and those on the way to it. -/
def makeDirectory (t : FileTree) (path : Bytes) : FileTree :=
  t.makeDirectories (way (start path) (path.splitOn slash))

/-- Whether the last name of a path leads up. -/
def endsUpwards (path : Bytes) : Bool :=
  ((path.splitOn slash).filter fun n => n ≠ [] && n ≠ hereName).getLast? = some parentName

/-- Removes what is at a path and all below it. Where the path ends upwards it goes
through what is removed first, so the directory at its end stays, with nothing in it. -/
def remove (t : FileTree) (path : Bytes) : FileTree :=
  match target path with
  | .inside l => ⟨t.nodes.filter fun m => !l.isPrefixOf m.1 || (endsUpwards path && m.1 = l)⟩
  | _ => t

end FileTree
end SectionDump
