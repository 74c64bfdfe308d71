import SectionDump.Metadata.Reader
import SectionDump.Section

/-!
# Faults

Why a dump cannot be loaded, and why a loaded image cannot answer. Loading stops
at the first fault; a query that fails leaves everything as it was.
-/
namespace SectionDump

/-- Why a file or directory could not be read. -/
inductive IoFault where
  | notFound
  | notADirectory
  | isADirectory
  /-- The path holds a NUL, which no path can. -/
  | nulInPath
  /-- The path, or a name in it, is longer than the system allows. -/
  | nameTooLong
  /-- Only files can be mapped into memory. -/
  | notMappable
  /-- The bytes are no text. -/
  | notText
  /-- Any other reason, in the words of the system. -/
  | other (reason : Text)
  deriving DecidableEq, Repr

def IoFault.message : IoFault → Text
  | .notFound => "No such file or directory (os error 2)".toList
  | .notADirectory => "Not a directory (os error 20)".toList
  | .isADirectory => "Is a directory (os error 21)".toList
  | .nulInPath => "file name contained an unexpected NUL byte".toList
  | .nameTooLong => "File name too long (os error 36)".toList
  | .notMappable => "No such device (os error 19)".toList
  | .notText => "stream did not contain valid UTF-8".toList
  | .other reason => reason

/-- Why a listed file gave no section. -/
inductive FileFault where
  | unreadable (path : Path) (fault : IoFault)
  | noSection (fault : SectionFault)
  deriving DecidableEq, Repr

inductive LoadFault where
  | sectionFile (path : Path) (fault : FileFault)
  /-- Both sections hold the address, where the second one starts. -/
  | overlap (first second : Text) (address : UInt64)
  | metadata (fault : MetadataFault)
  | severalMetadataFiles (first second : Path)
  | unreadable (path : Path) (fault : IoFault)
  deriving DecidableEq, Repr

def unreadableMessage (path : Path) : Text := "I/O error on ".toList ++ path

def FileFault.message : FileFault → Text
  | .unreadable path _ => unreadableMessage path
  | .noSection fault => fault.message

namespace LoadFault

def message : LoadFault → Text
  | .sectionFile path _ => "failed to load ".toList ++ path
  | .overlap first second address =>
    "section ".toList ++ second ++ " overlaps section ".toList ++ first ++ " at ".toList ++
      Numeral.markedHex address
  | .metadata fault => fault.message
  | .severalMetadataFiles first second =>
    "more than one metadata file: ".toList ++ first ++ " and ".toList ++ second
  | .unreadable path _ => unreadableMessage path

/-- The message of a fault and those of what led to it, outermost first. -/
def chain (f : LoadFault) : List Text :=
  f.message :: match f with
    | .sectionFile _ (.unreadable path fault) => [unreadableMessage path, fault.message]
    | .sectionFile _ (.noSection fault) => [fault.message]
    | .unreadable _ fault => [fault.message]
    | _ => []

end LoadFault

/-- Why an image does not answer a query. -/
inductive QueryFault where
  | notFound (address : UInt64)
  /-- The section with the first byte ends before the last one. -/
  | outOfBounds (address size last : UInt64)
  | unknownArchitecture
  deriving DecidableEq, Repr

def QueryFault.message : QueryFault → Text
  | .notFound address => "no section or label at ".toList ++ Numeral.markedHex address
  | .outOfBounds address size last =>
    "read of ".toList ++ Numeral.decimal size ++ " bytes at ".toList ++
      Numeral.markedHex address ++ " crosses section end ".toList ++ Numeral.markedHex last
  | .unknownArchitecture => "architecture is absent or unrecognised".toList

end SectionDump
