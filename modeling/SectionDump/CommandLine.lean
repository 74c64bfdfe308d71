import SectionDump.Numeral
import SectionDump.Path
import SectionDump.Text.Quoted

/-!
# Command line

The options, and how a value is read, are the program's own. How arguments are put
together is a common convention, of which this much is followed. The value of an option
is what stands after `=`, or else the next argument, which then must not look like an
option. A lone hyphen is plain, and so is all that follows `--`. Names of options are
not shortened. An option for a list gathers its values in the order in which they
appear, any other one is given once at most, and one plain argument names the directory.
Help and version end the reading. Arguments that are not text have no place here.

Arguments are read from left to right and the first problem ends the reading. An
option keeps its value unread until the next known argument or the end has been
reached, so an unknown argument is noticed before a bad value in front of it. Only
the kind of a fault in the arguments is told here, and the text where a value is
refused; the page around it belongs to the `Setting`.
-/
namespace SectionDump

/-- A number of bytes to show, from an address on. -/
structure ReadRequest where
  address : UInt64
  size : UInt64
  deriving DecidableEq, Repr

/-- What the program is asked to do with a dump. -/
structure Request where
  directory : Path
  metadata : Option Path
  finds : List UInt64
  reads : List ReadRequest
  /-- What to report beside the answers, where the environment does not settle that.
  Whether it can be used is asked before anything else, and is left to the `Setting`. -/
  logLevel : Text
  deriving DecidableEq, Repr

inductive Command where
  | inspect (request : Request)
  | help
  | version
  deriving DecidableEq, Repr

/-- Why the value of an option is refused. -/
inductive ValueFault where
  | invalidAddress (text : Text)
  | missingColon (text : Text)
  | invalidLength (text : Text)
  deriving DecidableEq, Repr

def ValueFault.message : ValueFault → Text
  | .invalidAddress text => "invalid hex address ".toList ++ Text.quoted text
  | .missingColon text => "expected ADDR:LEN, got ".toList ++ Text.quoted text
  | .invalidLength text => "invalid length ".toList ++ Text.quoted text

/-- The options that take a value. -/
inductive ValueOption where
  | metadata
  | find
  | read
  | logLevel
  deriving DecidableEq, Repr

def ValueOption.name : ValueOption → Text
  | .metadata => "metadata".toList
  | .find => "find".toList
  | .read => "read".toList
  | .logLevel => "log-level".toList

inductive UsageFault where
  | missingDirectory
  | unknownArgument (argument : Text)
  | missingValue (o : ValueOption)
  | emptyPath
  | repeatedOption (o : ValueOption)
  | unexpectedValue (option : Text)
  | refusedValue (fault : ValueFault)
  deriving DecidableEq, Repr

namespace CommandLine

def address (text : Text) : Except ValueFault UInt64 :=
  match Numeral.hex? text with
  | some a => .ok a
  | none => .error (.invalidAddress text)

/-- Reads an address and a length with a colon between, the address first. -/
def readRequest (text : Text) : Except ValueFault ReadRequest :=
  match Text.cut? (· == ':') text with
  | none => .error (.missingColon text)
  | some (a, n) => (address a).bind fun a => match Numeral.count? n with
    | some n => .ok ⟨a, n⟩
    | none => .error (.invalidLength n)

/-- The form of an argument. -/
inductive Form where
  | plain
  /-- From here on all arguments are plain. -/
  | endOfOptions
  | long (name : Text) (value : Option Text)
  | short (first : Char)
  deriving DecidableEq, Repr

/-- A lone hyphen is plain. -/
def Form.of : Text → Form
  | ['-', '-'] => .endOfOptions
  | '-' :: '-' :: rest => match Text.cut? (· == '=') rest with
    | some (name, value) => .long name (some value)
    | none => .long rest none
  | '-' :: c :: _ => .short c
  | _ => .plain

/-- What a known option asks for. -/
inductive Meaning where
  | value (o : ValueOption)
  | flag (command : Command)
  deriving DecidableEq, Repr

def meanings : List (Text × Meaning) :=
  [ValueOption.metadata, .find, .read, .logLevel].map (fun o => (o.name, .value o)) ++
    [("help".toList, .flag .help), ("version".toList, .flag .version)]

def shortMeanings : List (Char × Command) := [('h', .help), ('V', .version)]

/-- An argument whose value has not been read. -/
inductive Pending where
  | nothing
  | directory (path : Path)
  | option (o : ValueOption) (value : Option Text)
  deriving DecidableEq, Repr

/-- What has been read. -/
structure Draft where
  directory : Option Path
  metadata : Option Path
  finds : List UInt64
  reads : List ReadRequest
  logLevel : Option Text
  deriving DecidableEq, Repr

def Draft.empty : Draft := ⟨none, none, [], [], none⟩

/-- The value of an option. That an option was given before is noticed before its
value is looked at. -/
def Draft.set (d : Draft) (value : Text) : ValueOption → Except UsageFault Draft
  | .metadata =>
    if d.metadata.isSome then .error (.repeatedOption .metadata)
    else if value = [] then .error .emptyPath
    else .ok { d with metadata := some value }
  | .logLevel =>
    if d.logLevel.isSome then .error (.repeatedOption .logLevel)
    else .ok { d with logLevel := some value }
  | .find => match address value with
    | .ok a => .ok { d with finds := d.finds ++ [a] }
    | .error fault => .error (.refusedValue fault)
  | .read => match readRequest value with
    | .ok r => .ok { d with reads := d.reads ++ [r] }
    | .error fault => .error (.refusedValue fault)

/-- Reads the value of the argument that waits. -/
def Draft.settle (d : Draft) : Pending → Except UsageFault Draft
  | .nothing => .ok d
  | .directory path =>
    if path = [] then .error .emptyPath else .ok { d with directory := some path }
  | .option o none => .error (.missingValue o)
  | .option o (some value) => d.set value o

/-- A directory has been named, whether or not the name has been read. -/
def hasDirectory (d : Draft) : Pending → Bool
  | .directory _ => true
  | _ => d.directory.isSome

def defaultLevel : Text := "info".toList

def finish (d : Draft) : Except UsageFault Command :=
  match d.directory with
  | none => .error .missingDirectory
  | some directory =>
    .ok (.inspect ⟨directory, d.metadata, d.finds, d.reads, d.logLevel.getD defaultLevel⟩)

/-- Reads arguments one after another; `options` tells whether options may still
come. -/
def readFrom (d : Draft) (p : Pending) (options : Bool) : List Text → Except UsageFault Command
  | [] => (d.settle p).bind finish
  | arg :: rest =>
    match if options then Form.of arg else .plain with
    | .endOfOptions => readFrom d p false rest
    | .long name value => match meanings.lookup name, value with
      | none, _ => .error (.unknownArgument arg)
      | some (.flag command), none => (d.settle p).map fun _ => command
      | some (.flag _), some _ => .error (.unexpectedValue name)
      | some (.value o), none => (d.settle p).bind fun d => readFrom d (.option o none) options rest
      | some (.value o), some v => (d.settle p).bind fun d => (d.set v o).bind fun d =>
          readFrom d .nothing options rest
    | .short c => match shortMeanings.lookup c with
      | none => .error (.unknownArgument arg)
      | some command => (d.settle p).map fun _ => command
    | .plain => match options, p with
      | true, .option o none => readFrom d (.option o (some arg)) options rest
      | _, _ =>
        if hasDirectory d p then .error (.unknownArgument arg)
        else (d.settle p).bind fun d => readFrom d (.directory arg) options rest

/-- Reads the arguments that follow the name of the program. -/
def parse (args : List Text) : Except UsageFault Command := readFrom .empty .nothing true args

end CommandLine
end SectionDump
