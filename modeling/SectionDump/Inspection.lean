import SectionDump.Dump
import SectionDump.Image.Query
import SectionDump.Setting

/-!
# Inspection

The program: it loads a dump and prints a summary of it, or the answers to the
queries on its command line, all lookups before all reads. A query without an
answer gets a line that says why and does not stop the others. Before all that,
what is to be reported beside the answers has to be settled; where it cannot be,
the program fails and leaves the dump alone.
-/
namespace SectionDump.Inspection

structure Outcome where
  exitCode : UInt32
  output : Text
  /-- What goes to the error stream, apart from the events that are asked for. -/
  report : Text
  deriving DecidableEq, Repr

def unlines (lines : List Text) : Text := lines.flatMap fun l => l ++ ['\n']

def describe (s : Section) : Text :=
  s.name ++ " [".toList ++ Numeral.markedHex s.start ++ ", ".toList ++ Numeral.markedHex s.last ++
    "] size ".toList ++ Numeral.decimal s.size ++ " offset ".toList ++
    Numeral.decimal s.id.offset ++ " flags ".toList ++ s.id.flags

def archLine : Option Architecture → Text
  | some a => "arch: ".toList ++ a.name ++ " (".toList ++ a.machineLabel ++ [')']
  | none => "arch: unknown".toList

def countLine (what : String) (n : Nat) : Text := what.toList ++ ": ".toList ++ Numeral.ofNat n

def collisionLine (row : LabelRow) : Text :=
  "label collision at ".toList ++ Numeral.markedHex row.1 ++ ": ".toList ++
    ", ".toList.intercalate (row.2.map Label.name)

def summary (image : Image) : List Text :=
  [archLine image.arch, "sections:".toList] ++
    image.sections.toList.map (fun s => ' ' :: ' ' :: describe s) ++
    [countLine "entry points" image.entryPoints.size,
      countLine "exit points" image.exitPoints.size,
      countLine "relocations" image.relocations.size,
      countLine "function hints" image.functions.size] ++
    image.labels.collisions.map collisionLine

/-- A line that answers for an address. -/
def answerLine (address : UInt64) (answer : Text) : Text :=
  Numeral.markedHex address ++ ": ".toList ++ answer

def findLine (image : Image) (address : UInt64) : Text :=
  answerLine address <| match image.find address with
    | .ok s => describe s
    | .error fault => fault.message

def rowLength : Nat := 16

/-- Rows of bytes, of which only the last one may be shorter. -/
def rows : Bytes → List Bytes
  | [] => []
  | b :: rest => (b :: rest).take rowLength :: rows ((b :: rest).drop rowLength)
termination_by bytes => bytes.length
decreasing_by
  simp only [List.length_drop, List.length_cons, rowLength]
  omega

def rowLine (address : UInt64) (row : Bytes) : Text :=
  Numeral.paddedHex 8 address ++ ": ".toList ++ " ".toList.intercalate (row.map Numeral.hexByte)

/-- The bytes from an address on, a line for each row. -/
def hexDump (address : UInt64) (bytes : Bytes) : List Text :=
  (rows bytes).zipIdx.map fun (row, i) => rowLine (address + .ofNat (rowLength * i)) row

def readLines (image : Image) (r : ReadRequest) : List Text :=
  match image.read r.address r.size with
  | .ok bytes => hexDump r.address bytes
  | .error fault => [answerLine r.address fault.message]

/-- What a loaded image has to say to a request. -/
def answers (image : Image) (request : Request) : List Text :=
  if request.finds = [] ∧ request.reads = [] then summary image
  else request.finds.map (findLine image) ++ request.reads.flatMap (readLines image)

/-- A cause of several lines is set in as a block. -/
def indented (first rest cause : Text) : Text :=
  first ++ cause.flatMap (fun c => if c = '\n' then '\n' :: rest else [c])

def causeLines : List Text → List Text
  | [] => []
  | [cause] => [indented "    ".toList "    ".toList cause]
  | causes => causes.zipIdx.map fun (cause, i) =>
      indented ("    ".toList ++ Numeral.ofNat i ++ ": ".toList) "       ".toList cause

/-- An error with what led to it, outermost first. -/
def errorReport (error : Text) (causes : List Text) : Text :=
  unlines <| ("Error: ".toList ++ error) ::
    if causes = [] then [] else [] :: "Caused by:".toList :: causeLines causes

def failure (error : Text) (causes : List Text) : Outcome := ⟨1, [], errorReport error causes⟩

/-- The dump that a request is about: its metadata file, when it names one, takes
the place of the one that the scan found. -/
def dumpOf (request : Request) (found : Dump) : Dump :=
  match request.metadata with
  | some path => found.withMetadata path
  | none => found

/-- The answers of a dump, or why there is none to answer from. -/
def inspectDump (fs : FileSystem) (request : Request) : Outcome :=
  match Dump.scan fs request.directory with
  | .error fault => failure ("failed to scan ".toList ++ request.directory) fault.chain
  | .ok found =>
    if found.sectionFiles = [] then failure ("no section dumps in ".toList ++ found.root) []
    else match (dumpOf request found).load fs with
      | .error fault => failure ("failed to load ".toList ++ request.directory) fault.chain
      | .ok image => ⟨0, unlines (answers image request), []⟩

/-- What to report is settled before anything of the dump is looked at. -/
def inspect (setting : Setting) (fs : FileSystem) (request : Request) : Outcome :=
  match setting.levelRefusal? request.logLevel with
  | some refusal => failure "invalid log level".toList refusal.chain
  | none => inspectDump fs request

def versionLine : Text := "secload 0.1.0".toList

/-- Runs the program on the arguments that follow its name. -/
def run (setting : Setting) (fs : FileSystem) (args : List Text) : Outcome :=
  match CommandLine.parse args with
  | .error fault => ⟨2, [], setting.usagePage fault⟩
  | .ok .help => ⟨0, setting.helpPage, []⟩
  | .ok .version => ⟨0, unlines [versionLine], []⟩
  | .ok (.inspect request) => inspect setting fs request

end SectionDump.Inspection
