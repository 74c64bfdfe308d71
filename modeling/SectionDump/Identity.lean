import SectionDump.Numeral
import SectionDump.Path
import SectionDump.Text.Quoted

/-!
# Section identities

A dump file says in its name where its bytes belong:
`NAME-START-SIZE-OFFSET-FLAGS.bin`, the start in hexadecimal, size and offset in
decimal. `Identity.parse` reads such a name and `Identity.fileName` writes it.
The flags are the rest of the name, so they may hold hyphens and dots.
-/
namespace SectionDump

structure Identity where
  name : Text
  /-- Address of the first byte. -/
  start : UInt64
  size : UInt64
  /-- Where the bytes were in the dumped file. Nothing depends on it. -/
  offset : UInt64
  flags : Text
  deriving DecidableEq, Repr

/-- The components of a file name that can be malformed. -/
inductive Component where
  | name
  | start
  | size
  | offset
  deriving DecidableEq, Repr

def Component.label : Component → Text
  | .name => "name".toList
  | .start => "start address".toList
  | .size => "size".toList
  | .offset => "offset".toList

/-- Why a file name identifies no section. -/
inductive NameFault where
  | missingComponents (found : Nat)
  | malformed (component : Component) (text : Text)
  /-- The last byte would lie above the last address. -/
  | rangeOverflow (start size : UInt64)
  deriving DecidableEq, Repr

namespace NameFault

def malformedMessage (component : Component) (text : Text) : Text :=
  "malformed ".toList ++ component.label ++ " component: ".toList ++ Text.quoted text

def message : NameFault → Text
  | .missingComponents found =>
    "expected 5 hyphen-delimited components, found ".toList ++ Numeral.ofNat found
  | .malformed component text => malformedMessage component text
  | .rangeOverflow start size =>
    malformedMessage .size (Numeral.decimal size ++ " (overflows address space at ".toList ++
      Numeral.markedHex start ++ [')'])

end NameFault

namespace Identity

/-- The bytes of the section have addresses. An empty section fits anywhere. -/
def Fits (id : Identity) : Prop := id.size = 0 ∨ id.start.toNat + id.size.toNat ≤ UInt64.size

instance (id : Identity) : Decidable id.Fits := inferInstanceAs (Decidable (_ ∨ _))

/-- The extension of dump files. -/
def marker : Text := ".bin".toList

/-- The marker counts where the name ends or another extension follows. -/
def atMarker (s : Text) : Bool :=
  marker.isPrefixOf s && match s.drop marker.length with
    | [] => true
    | c :: _ => c == '.'

/-- The part of a base name that holds the components: what comes before the
last marker, or before the last extension when there is no marker. -/
def stem (base : Text) : Text :=
  match Text.splitLast? atMarker base with
  | some (s, _) => s
  | none => match Text.splitLast? (fun t => t.head? = some '.') base with
    | some (s, _) => s
    | none => base

/-- Files that carry the marker after a non-empty stem hold sections. -/
def isDumpName (path : Path) : Bool :=
  match Text.splitLast? atMarker (Path.baseName path) with
  | some (s, _) => s ≠ []
  | none => false

/-- Splits at the first hyphens, as many as given. -/
def components : Nat → Text → List Text
  | 0, s => [s]
  | n + 1, s => match Text.cut? (· == '-') s with
    | none => [s]
    | some (first, rest) => first :: components n rest

@[simp] theorem components_zero (s : Text) : components 0 s = [s] := rfl

/-- A number that could not be read is a fault of its component. -/
def require (component : Component) (text : Text) : Option UInt64 → Except NameFault UInt64
  | some value => .ok value
  | none => .error (.malformed component text)

/-- An identity whose bytes have addresses. -/
def fitted (id : Identity) : Except NameFault Identity :=
  if id.Fits then .ok id else .error (.rangeOverflow id.start id.size)

/-- Reads the identity from the components of a stem, from left to right. That the
range fits is asked last. -/
def ofComponents : List Text → Except NameFault Identity
  | [name, start, size, offset, flags] =>
    if name = [] then .error (.malformed .name name)
    else
      (require .start start (Numeral.hex? start)).bind fun start =>
      (require .size size (Numeral.decimal? size)).bind fun size =>
      (require .offset offset (Numeral.decimal? offset)).bind fun offset =>
      fitted ⟨name, start, size, offset, flags⟩
  | found => .error (.missingComponents found.length)

def ofStem (stem : Text) : Except NameFault Identity := ofComponents (components 4 stem)

/-- Reads a dump file name. Directories on the way to the file do not matter. -/
def parse (path : Path) : Except NameFault Identity := ofStem (stem (Path.baseName path))

theorem fitted_eq_ok_iff {id i : Identity} : fitted id = .ok i ↔ id = i ∧ i.Fits := by
  unfold fitted
  split
  · rename_i h
    constructor
    · rintro ⟨⟩
      exact ⟨rfl, h⟩
    · rintro ⟨rfl, -⟩
      rfl
  · rename_i h
    constructor
    · intro e
      cases e
    · rintro ⟨rfl, hfit⟩
      exact absurd hfit h

theorem fits_of_bind {α : Type} {x : Except NameFault α} {f : α → Except NameFault Identity}
    {id : Identity} (h : x.bind f = .ok id) (hf : ∀ a, f a = .ok id → id.Fits) : id.Fits := by
  cases x with
  | error fault => cases h
  | ok a => exact hf a h

theorem fits_of_ofComponents {l : List Text} {id : Identity} (h : ofComponents l = .ok id) :
    id.Fits := by
  unfold ofComponents at h
  split at h
  · split at h
    · cases h
    · refine fits_of_bind h fun start h => ?_
      refine fits_of_bind h fun size h => ?_
      refine fits_of_bind h fun offset h => ?_
      exact (fitted_eq_ok_iff.1 h).2
  · cases h

/-- Whatever reads from a path has addresses for its bytes. -/
theorem fits_of_parse {p : Path} {id : Identity} (h : parse p = .ok id) : id.Fits :=
  fits_of_ofComponents h

/-- The file name that says the least about the identity: no leading zeros, no
mark on the start, no second extension. -/
def fileName (id : Identity) : Text :=
  id.name ++ '-' :: Numeral.hex id.start ++ '-' :: Numeral.decimal id.size ++
    '-' :: Numeral.decimal id.offset ++ '-' :: id.flags ++ marker

end Identity
end SectionDump
