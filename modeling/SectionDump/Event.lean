import SectionDump.Label
import SectionDump.Section

/-!
# Events

What the library has to report beside its answers. An event names what happened;
its level and its text follow from that.
-/
namespace SectionDump

inductive Level where
  | trace
  | debug
  | info
  | warn
  deriving DecidableEq, Repr

def Level.label : Level → Text
  | .trace => "TRACE".toList
  | .debug => "DEBUG".toList
  | .info => "INFO".toList
  | .warn => "WARN".toList

/-- How much an image holds. -/
structure ImageCounts where
  sections : Nat
  arch : Option Text
  entryPoints : Nat
  exitPoints : Nat
  relocations : Nat
  functions : Nat
  deriving DecidableEq, Repr

inductive Event where
  | unknownGroup (name : Text)
  | unknownKey (key : Text)
  | unknownArchitecture (name : Text)
  | labelCollision (address : UInt64) (label previous : Label)
  | emptySection (s : Section)
  | sectionLoaded (s : Section)
  | imageBuilt (counts : ImageCounts)
  | unmapped (address : UInt64)
  | readPastEnd (address size : UInt64) (s : Section)
  | unreadableName (path : Path)
  | fileIgnored (path : Path)
  | metadataPassedOver (path : Path) (chosen : Text)
  | scanned (root : Path) (sections : Nat) (metadata : Option Path)
  deriving DecidableEq, Repr

namespace Event

def level : Event → Level
  | .unknownGroup .. | .unknownKey .. | .unknownArchitecture .. | .emptySection .. => .warn
  | .imageBuilt .. => .info
  | .labelCollision .. | .sectionLoaded .. | .unreadableName .. | .fileIgnored ..
  | .metadataPassedOver .. | .scanned .. => .debug
  | .unmapped .. | .readPastEnd .. => .trace

def labelText (l : Label) : Text := l.name ++ " (".toList ++ l.kind.word ++ [')']

def metadataText : Option Path → Text
  | none => "None".toList
  | some path => "Some(".toList ++ Text.quoted path ++ [')']

def countsText (c : ImageCounts) : Text :=
  Numeral.ofNat c.sections ++ " sections, arch ".toList ++ c.arch.getD "unknown".toList ++
    ", ".toList ++ Numeral.ofNat c.entryPoints ++ " entry points, ".toList ++
    Numeral.ofNat c.exitPoints ++ " exit points, ".toList ++
    Numeral.ofNat c.relocations ++ " relocations, ".toList ++
    Numeral.ofNat c.functions ++ " function hints".toList

def message : Event → Text
  | .unknownGroup name => "Ignoring unknown metadata group [".toList ++ name ++ [']']
  | .unknownKey key => "Ignoring unknown aux key ".toList ++ key
  | .unknownArchitecture name => "Unrecognised architecture ".toList ++ Text.quoted name
  | .labelCollision address label previous =>
    "Label collision at ".toList ++ Numeral.markedHex address ++ ": ".toList ++
      labelText label ++ " after ".toList ++ labelText previous
  | .emptySection s =>
    "Skipping empty section ".toList ++ s.name ++ " at ".toList ++ Numeral.markedHex s.start
  | .sectionLoaded s =>
    "Loaded section ".toList ++ s.name ++ " [".toList ++ Numeral.markedHex s.start ++
      ", ".toList ++ Numeral.markedHex s.last ++ "] (size: ".toList ++ Numeral.decimal s.size ++
      ", offset: ".toList ++ Numeral.decimal s.id.offset ++ ", flags: ".toList ++
      s.id.flags ++ [')']
  | .imageBuilt counts => "Built address space: ".toList ++ countsText counts
  | .unmapped address => "No section contains ".toList ++ Numeral.markedHex address
  | .readPastEnd address size s =>
    "Read of ".toList ++ Numeral.decimal size ++ " bytes at ".toList ++
      Numeral.markedHex address ++ " runs past ".toList ++ s.name ++ " ending at ".toList ++
      Numeral.markedHex s.last
  | .unreadableName path => "Skipping non UTF-8 file name ".toList ++ path
  | .fileIgnored path => "Ignoring ".toList ++ path
  | .metadataPassedOver path chosen =>
    "Ignoring ".toList ++ path ++ " in favour of ".toList ++ chosen
  | .scanned root sections metadata =>
    "Scanned ".toList ++ root ++ ": ".toList ++ Numeral.ofNat sections ++
      " section files, metadata ".toList ++ metadataText metadata

end Event
end SectionDump
