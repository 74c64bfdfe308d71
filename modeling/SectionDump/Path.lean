import SectionDump.Text

/-!
# Paths

A path is a text whose names are separated by slashes. Empty names and `.` say
nothing, so repeated and trailing slashes do not matter. A path that is not text has
no place here, be it given or scanned; only a directory's entries may have such names,
and a scan passes them over.
-/
namespace SectionDump

abbrev Path := Text

namespace Path

def hereName : Text := ['.']
def parentName : Text := ['.', '.']

/-- The names of a path that lead somewhere. -/
def names (path : Path) : List Text :=
  (path.splitOn '/').filter fun n => n ≠ [] ∧ n ≠ hereName

@[simp] theorem names_nil : names [] = [] := rfl

/-- The last name of a path. A path to nowhere and one that goes up last have none. -/
def fileName? (path : Path) : Option Text :=
  (names path).getLast?.filter (· ≠ parentName)

/-- The last name of a path, or the whole path when it has none. -/
def baseName (path : Path) : Text := (fileName? path).getD path

/-- The text of a name after its last dot. A name that starts with its only dot
has no extension. -/
def extension? (name : Text) : Option Text :=
  match Text.splitLast? (fun t => t.head? = some '.') name with
  | some (_ :: _, _ :: extension) => some extension
  | _ => none

/-- The path of an entry of a directory. -/
def child (directory : Path) (name : Text) : Path :=
  match directory.getLast? with
  | none => name
  | some '/' => directory ++ name
  | some _ => directory ++ '/' :: name

end Path
end SectionDump
