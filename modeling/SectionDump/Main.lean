import SectionDump.FileTree
import SectionDump.Inspection

/-!
# The program

Takes what the request needs from the disk, in one go, and the directives on what to
report from the environment, and leaves the rest to `Inspection.run`. The pages on its
use are worded here. Nothing but the error report is written to the error stream.
-/
namespace SectionDump.Main

def faultOf : IO.Error → IoFault
  | .noFileOrDirectory .. => .notFound
  | .inappropriateType .. => .notADirectory
  | e => .other (toString e).toList

/-- The bytes of the file at a path. -/
def fetch (path : Path) : IO (Except IoFault Bytes) := do
  let file := (← IO.currentDir) / String.ofList path
  try
    if ← file.isDir then return .error .isADirectory
    return .ok (← IO.FS.readBinFile file).toList
  catch e => return .error (faultOf e)

/-- The entries of the directory at a path. -/
def list (path : Path) : IO (Except IoFault (List DirectoryEntry)) := do
  let directory := (← IO.currentDir) / String.ofList path
  try
    let mut entries := []
    for entry in ← directory.readDir do
      let isFile := !(← entry.path.isDir) && (← entry.path.pathExists)
      entries := entries ++ [⟨entry.fileName.toUTF8.toList, isFile⟩]
    return .ok entries
  catch e => return .error (faultOf e)

/-- The part of the disk that a request is about. -/
def snapshot (request : Request) : IO FileSystem := do
  let root := request.directory
  let entries ← list root
  let names := match entries with
    | .ok entries => Dump.fileNames entries |>.filterMap Utf8.decode?
    | .error _ => []
  let paths := names.map (Path.child root) ++ request.metadata.toList
  let files ← paths.mapM fun path => return (path, ← fetch path)
  return {
    entries := fun path => if path = root then entries else .error .notFound
    contents := fun path => (files.lookup path).getD (.error .notFound) }

def helpLines : List Text := [
  "Inspect an executable reconstructed from section dumps".toList,
  [],
  "Usage: secload [OPTIONS] <DUMP_DIR>".toList,
  [],
  "Arguments:".toList,
  "  <DUMP_DIR>  Directory holding the section dumps".toList,
  [],
  "Options:".toList,
  "      --metadata <METADATA>    ".toList ++
    "Metadata file to use instead of the one found in the directory".toList,
  "      --find <ADDR>            Print the section containing ADDR (hex)".toList,
  "      --read <ADDR:LEN>        ".toList ++
    "Hex dump LEN bytes at ADDR (hex address, decimal length)".toList,
  "      --log-level <LOG_LEVEL>  Set the logging level [default: info]".toList,
  "  -h, --help                   Print help".toList,
  "  -V, --version                Print version".toList]

def faultLine : UsageFault → Text
  | .missingDirectory => "no dump directory given".toList
  | .unknownArgument argument => "unexpected argument ".toList ++ Text.quoted argument
  | .missingValue o => "a value is required for --".toList ++ o.name
  | .emptyPath => "a path cannot be empty".toList
  | .repeatedOption o => "--".toList ++ o.name ++ " cannot be given twice".toList
  | .unexpectedValue option => "no value can be given to --".toList ++ option
  | .refusedValue fault => fault.message

def setting : IO Setting := do
  let directives ← IO.getEnv "RUST_LOG"
  return {
    directives := directives.map String.toList
    refusal? := Directive.refusal?
    helpPage := Inspection.unlines helpLines
    usagePage := fun fault => Inspection.unlines ["error: ".toList ++ faultLine fault] }

end SectionDump.Main

open SectionDump in
def main (args : List String) : IO UInt32 := do
  let args := args.map String.toList
  let fs ← match CommandLine.parse args with
    | .ok (.inspect request) => Main.snapshot request
    | _ => pure FileTree.empty.fileSystem
  let outcome := Inspection.run (← Main.setting) fs args
  IO.print (String.ofList outcome.output)
  IO.eprint (String.ofList outcome.report)
  return outcome.exitCode
