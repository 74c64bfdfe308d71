import SectionDump.Metadata
import SectionDump.Numeral
import SectionDump.Text.Quoted

/-!
# Metadata lines

The metadata file is read line by line. A line is blank or a comment, or it heads
a group, or it is an entry of the group above it: a key and a value, of which the
group says what the value has to be.
-/
namespace SectionDump.Metadata

/-- The groups that mean something. -/
inductive Group where
  | aux
  | entryPoints
  | exitPoints
  | relocations
  | functions
  deriving DecidableEq, Repr

namespace Group

def name : Group → Text
  | .aux => "aux".toList
  | .entryPoints => "entry_points".toList
  | .exitPoints => "exit_points".toList
  | .relocations => "relocations".toList
  | .functions => "functions".toList

def all : List Group := [.aux, .entryPoints, .exitPoints, .relocations, .functions]

/-- The group of a name, letter case included. -/
def ofName? (n : Text) : Option Group := all.find? fun g => g.name = n

@[simp] theorem ofName?_name (g : Group) : ofName? g.name = some g := by cases g <;> decide

end Group

/-- The key of the architecture in the group `aux`. -/
def archKey : Text := "arch".toList

/-- What is wrong with a line. -/
inductive LineFault where
  | unterminatedHeader (line : Text)
  | missingDelimiter (line : Text)
  | keyBeforeHeader (key : Text)
  | emptyArch
  | missingComma (value : Text)
  | missingName (value : Text)
  | invalidAddress (text : Text)
  deriving DecidableEq, Repr

def LineFault.message : LineFault → Text
  | .unterminatedHeader line => "unterminated group header ".toList ++ Text.quoted line
  | .missingDelimiter line => "expected key = value, got ".toList ++ Text.quoted line
  | .keyBeforeHeader key => Text.quoted key ++ " appears before any group header".toList
  | .emptyArch => "empty arch".toList
  | .missingComma value =>
    "expected \"<address>,<name>\", got ".toList ++ Text.quoted value
  | .missingName value => "missing name in ".toList ++ Text.quoted value
  | .invalidAddress text => "invalid address ".toList ++ Text.quoted text

/-- A line by its form alone. -/
inductive Line where
  | blank
  | header (name : Text)
  | entry (key value : Text)
  deriving DecidableEq, Repr

def isCommentMark (c : Char) : Bool := c == ';' || c == '#'

def isDelimiter (c : Char) : Bool := c == '=' || c == ':'

/-- Cuts at the first comment mark that follows a blank, given the character before. -/
def cutCommentAfter (before : Char) : Text → Text
  | [] => []
  | c :: r => if isCommentMark c && Text.isWhite before then [] else c :: cutCommentAfter c r

/-- Drops the comment from a value. The first character never starts a comment. -/
def cutComment : Text → Text
  | [] => []
  | c :: r => c :: cutCommentAfter c r

@[simp] theorem cutComment_nil : cutComment [] = [] := rfl

/-- Reads a line that neither is blank nor starts with a comment mark or a bracket. -/
def Line.ofEntry (line : Text) : Except LineFault Line :=
  match Text.cut? isDelimiter line with
  | some (key, value) =>
    .ok (.entry (Text.lower (Text.trim key)) (Text.trim (cutComment value)))
  | none => .error (.missingDelimiter line)

/-- Reads the rest of a line after its opening bracket. -/
def Line.ofHeader (rest : Text) : Except LineFault Line :=
  if rest.getLast? = some ']' then .ok (.header (Text.trim rest.dropLast))
  else .error (.unterminatedHeader ('[' :: rest))

/-- Reads a line, without its line end. Blanks around it do not matter. -/
def Line.read (raw : Text) : Except LineFault Line :=
  match Text.trim raw with
  | [] => .ok .blank
  | c :: rest =>
    if isCommentMark c then .ok .blank
    else if c = '[' then ofHeader rest
    else ofEntry (c :: rest)

def address (text : Text) : Except LineFault UInt64 :=
  match Numeral.hex? text with
  | some a => .ok a
  | none => .error (.invalidAddress text)

/-- Reads an address and a name with a comma between. A missing name is noticed
before a wrong address. -/
def symbol (value : Text) : Except LineFault Symbol :=
  match Text.cut? (· == ',') value with
  | none => .error (.missingComma value)
  | some (a, n) =>
    let name := Text.trim n
    if name = [] then .error (.missingName value)
    else (address (Text.trim a)).map fun a => ⟨a, name⟩

/-- What an entry adds to the metadata. Keys count in the group `aux` only, and
groups without a meaning take any entry. -/
def entry (group : Option Group) (key value : Text) : Except LineFault Metadata :=
  match group with
  | none => .ok empty
  | some .aux =>
    if key = archKey then
      if value = [] then .error .emptyArch else .ok { empty with arch := some value }
    else .ok empty
  | some .entryPoints => (symbol value).map fun s => { empty with entryPoints := [s] }
  | some .exitPoints => (symbol value).map fun s => { empty with exitPoints := [s] }
  | some .relocations => (address value).map fun a => { empty with relocations := [a] }
  | some .functions => (address value).map fun a => { empty with functions := [a] }

end SectionDump.Metadata
