import SectionDump.Fault

/-!
# File systems

A file system is what it answers: the entries of a directory, in any order, and
the bytes of a file. Names of entries are bytes that need not be text.
-/
namespace SectionDump

structure DirectoryEntry where
  name : Bytes
  /-- A regular file, and so no directory. -/
  isFile : Bool
  deriving DecidableEq, Repr

structure FileSystem where
  entries : Path → Except IoFault (List DirectoryEntry)
  contents : Path → Except IoFault Bytes

namespace FileSystem

/-- The bytes of a file that is mapped into memory, which no directory can be. -/
def mapFile (fs : FileSystem) (path : Path) : Except IoFault Bytes :=
  (fs.contents path).mapError fun
    | .isADirectory => .notMappable
    | fault => fault

/-- The bytes of a mapped file, or a fault that names it. -/
def readBytes (fs : FileSystem) (path : Path) : Except LoadFault Bytes :=
  (fs.mapFile path).mapError (.unreadable path)

/-- The text of a file. -/
def readText (fs : FileSystem) (path : Path) : Except LoadFault Text :=
  match fs.contents path with
  | .error fault => .error (.unreadable path fault)
  | .ok bytes => match Utf8.decode? bytes with
    | some text => .ok text
    | none => .error (.unreadable path .notText)

end FileSystem
end SectionDump
