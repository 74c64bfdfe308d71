import SectionDump.Metadata.Line

/-!
# Writing metadata

The text that states a metadata value group by group. Keys inside the list groups
mean nothing; they number the entries by any rule.
-/
namespace SectionDump.Metadata

/-- A key of decimal digits, leading zeros included. -/
structure Index where
  digits : Text
  ne_nil : digits ≠ []
  decimal : digits.all Char.isDigit = true

def headerRow (g : Group) : Text := '[' :: (g.name ++ [']'])

def entryRow (key value : Text) : Text := key ++ '=' :: value

def symbolValue (s : Symbol) : Text := Numeral.markedHex s.address ++ ',' :: s.name

/-- Entries under the keys from the given one on. -/
def entryRows (key : Nat → Index) : Nat → List Text → List Text
  | _, [] => []
  | i, value :: rest => entryRow (key i).digits value :: entryRows key (i + 1) rest

/-- A group of numbered entries under its header. -/
def groupRows (g : Group) (key : Group → Nat → Index) (values : List Text) : List Text :=
  headerRow g :: entryRows (key g) 0 values

def archRows : Option Text → List Text
  | none => []
  | some arch => [headerRow .aux, entryRow archKey arch]

/-- The lines of a metadata value. -/
def rowsOf (key : Group → Nat → Index) (m : Metadata) : List Text :=
  archRows m.arch ++
    (groupRows .entryPoints key (m.entryPoints.map symbolValue) ++
    (groupRows .exitPoints key (m.exitPoints.map symbolValue) ++
    (groupRows .relocations key (m.relocations.map Numeral.markedHex) ++
    groupRows .functions key (m.functions.map Numeral.markedHex))))

/-- Each row as a line of its own. -/
def ended (rows : List Text) : Text := rows.flatMap fun row => row ++ ['\n']

/-- The text of a metadata value. -/
def render (key : Group → Nat → Index) (m : Metadata) : Text := ended (rowsOf key m)

end SectionDump.Metadata
