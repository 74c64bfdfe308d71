import SectionDump.FileSystem
import SectionDump.Image.Build

/-!
# Dumps

A dump is a directory of section files with at most one metadata file. Scanning
sorts the files of a directory by what their names say; loading reads the ones
that were listed, whatever the directory holds by then.
-/
namespace SectionDump

structure Dump where
  root : Path
  sectionFiles : List Path
  metadataFile : Option Path
  deriving DecidableEq, Repr

namespace Dump

/-- What a file name says about the file. -/
inductive Role where
  | sectionFile
  | metadataFile
  | other
  deriving DecidableEq, Repr

def metadataExtension : Text := "ini".toList

/-- The metadata file that is taken where there are several. -/
def preferredMetadata : Text := "aux.ini".toList

def Role.ofName (name : Text) : Role :=
  if Identity.isDumpName name then .sectionFile
  else if Path.extension? name = some metadataExtension then .metadataFile
  else .other

/-- The names of the regular files of a directory, in ascending order of bytes. -/
def fileNames (entries : List DirectoryEntry) : List Bytes :=
  Sorting.sort (fun a b => a ≤ b) ((entries.filter DirectoryEntry.isFile).map DirectoryEntry.name)

/-- The names that are text, of a given role. -/
def namesOf (role : Role) (names : List Bytes) : List Text :=
  (names.filterMap Utf8.decode?).filter fun n => Role.ofName n = role

/-- The preferred metadata file if it is there, otherwise the only one. -/
def chooseMetadata (root : Path) (candidates : List Text) : Except LoadFault (Option Path) :=
  if preferredMetadata ∈ candidates then .ok (some (Path.child root preferredMetadata))
  else match candidates with
    | [] => .ok none
    | [name] => .ok (some (Path.child root name))
    | first :: second :: _ =>
      .error (.severalMetadataFiles (Path.child root first) (Path.child root second))

/-- Sorts the entries of a directory by their names. -/
def classify (root : Path) (entries : List DirectoryEntry) : Except LoadFault Dump :=
  let names := fileNames entries
  (chooseMetadata root (namesOf .metadataFile names)).map fun metadataFile =>
    { root, sectionFiles := (namesOf .sectionFile names).map (Path.child root), metadataFile }

/-- Lists the files of a directory. -/
def scan (fs : FileSystem) (root : Path) : Except LoadFault Dump :=
  match fs.entries root with
  | .error fault => .error (.unreadable root fault)
  | .ok entries => classify root entries

/-- The dump with another metadata file. -/
def withMetadata (d : Dump) (path : Path) : Dump := { d with metadataFile := some path }

/-- The bytes of files, each with its path. -/
def readSections (fs : FileSystem) : List Path → Except LoadFault (List (Path × Bytes))
  | [] => .ok []
  | path :: rest => match fs.mapFile path with
    | .error fault => .error (.sectionFile path (.unreadable path fault))
    | .ok data => (readSections fs rest).map ((path, data) :: ·)

/-- The metadata of a file, when there is a file. -/
def readMetadata (fs : FileSystem) : Option Path → Except LoadFault (Option Metadata)
  | none => .ok none
  | some path => match fs.readText path with
    | .error fault => .error fault
    | .ok text => match Metadata.parse text with
      | .error fault => .error (.metadata fault)
      | .ok m => .ok (some m)

/-- Reads all listed files and builds the image. The section files are read first
and the metadata second; only then is any of the sections looked at. -/
def load (fs : FileSystem) (d : Dump) : Except LoadFault Image :=
  (readSections fs d.sectionFiles).bind fun files =>
    (readMetadata fs d.metadataFile).bind fun metadata => Image.build files metadata

/-- Scans a directory and loads what it holds. -/
def loadDirectory (fs : FileSystem) (root : Path) : Except LoadFault Image :=
  (scan fs root).bind (load fs)

/-- What is passed over in favour of the preferred file: the last candidate takes
its place among the others. -/
def passedOver (candidates : List Text) : List Text :=
  let before := candidates.takeWhile (· ≠ preferredMetadata)
  match (candidates.dropWhile (· ≠ preferredMetadata)).drop 1 with
  | [] => before
  | after => before ++ after.getLast?.toList ++ after.dropLast

def nameEvents (root : Path) (name : Bytes) : List Event :=
  match Utf8.decode? name with
  | none => [.unreadableName (Path.child root (Utf8.decodeLossy name))]
  | some text => match Role.ofName text with
    | .other => [.fileIgnored (Path.child root text)]
    | _ => []

def chooseEvents (root : Path) (candidates : List Text) : List Event :=
  if preferredMetadata ∈ candidates then
    (passedOver candidates).map fun n => .metadataPassedOver (Path.child root n) preferredMetadata
  else []

def classifyEvents (root : Path) (entries : List DirectoryEntry) : List Event :=
  let names := fileNames entries
  names.flatMap (nameEvents root) ++ chooseEvents root (namesOf .metadataFile names) ++
    match classify root entries with
    | .error _ => []
    | .ok d => [.scanned root d.sectionFiles.length d.metadataFile]

def scanEvents (fs : FileSystem) (root : Path) : List Event :=
  match fs.entries root with
  | .error _ => []
  | .ok entries => classifyEvents root entries

def metadataEvents (fs : FileSystem) (path : Path) : List Event :=
  match fs.readText path with
  | .error _ => []
  | .ok text => Metadata.parseEvents text

def loadEvents (fs : FileSystem) (d : Dump) : List Event :=
  match readSections fs d.sectionFiles with
  | .error _ => []
  | .ok files => d.metadataFile.toList.flatMap (metadataEvents fs) ++
      match readMetadata fs d.metadataFile with
      | .error _ => []
      | .ok metadata => Image.buildEvents files metadata

def loadDirectoryEvents (fs : FileSystem) (root : Path) : List Event :=
  scanEvents fs root ++ match scan fs root with
    | .error _ => []
    | .ok d => loadEvents fs d

end Dump
end SectionDump
