import SectionDump.Metadata.Line
import SectionDump.Event

/-!
# Reading metadata

The only memory between lines is the name in the last header. Each line adds its
own share to the metadata, and the first bad line is the fault of the whole text.
-/
namespace SectionDump

/-- A bad line, with the name in the header above it and its number from one. -/
structure MetadataFault where
  group : Text
  line : Nat
  fault : Metadata.LineFault
  deriving DecidableEq, Repr

def MetadataFault.message (f : MetadataFault) : Text :=
  "metadata [".toList ++ f.group ++ "] line ".toList ++ Numeral.ofNat f.line ++ ": ".toList ++
    f.fault.message

namespace Metadata

/-- Reads a line under a header, if there is one: the header for the lines below,
and the share of the line. -/
def readLine (heading : Option Text) (raw : Text) :
    Except LineFault (Option Text × Metadata) :=
  match Line.read raw with
  | .error fault => .error fault
  | .ok .blank => .ok (heading, empty)
  | .ok (.header name) => .ok (some name, empty)
  | .ok (.entry key value) => match heading with
    | none => .error (.keyBeforeHeader key)
    | some name => (entry (Group.ofName? name) key value).map fun m => (heading, m)

/-- Reads lines from the given number on. -/
def readLines (heading : Option Text) (number : Nat) :
    List Text → Except MetadataFault Metadata
  | [] => .ok empty
  | raw :: rest => match readLine heading raw with
    | .error fault => .error ⟨heading.getD [], number, fault⟩
    | .ok (next, m) => (readLines next (number + 1) rest).map (m ++ ·)

def lines (text : Text) : List Text := text.splitOn '\n'

def parse (text : Text) : Except MetadataFault Metadata := readLines none 1 (lines text)

@[simp] theorem readLines_nil (heading : Option Text) (number : Nat) :
    readLines heading number [] = .ok empty := rfl

/-- What is worth a word about a line that can be read. -/
def notice (heading : Option Text) (raw : Text) : List Event :=
  match Line.read raw with
  | .ok (.header name) => if (Group.ofName? name).isNone then [.unknownGroup name] else []
  | .ok (.entry key _) =>
    if heading.bind Group.ofName? = some .aux ∧ key ≠ archKey then [.unknownKey key] else []
  | _ => []

/-- The notices on the lines before the first bad one. -/
def noticesFrom (heading : Option Text) : List Text → List Event
  | [] => []
  | raw :: rest => match readLine heading raw with
    | .error _ => []
    | .ok (next, _) => notice heading raw ++ noticesFrom next rest

def parseEvents (text : Text) : List Event := noticesFrom none (lines text)

end Metadata
end SectionDump
