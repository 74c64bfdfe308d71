import SectionDump.Identity
import SectionDump.Text.Utf8

/-!
# Sections

A section is an identity together with the bytes it declares. The bytes are as
many as the identity says and all of them have addresses, so positions and
addresses convert into each other without wrapping.
-/
namespace SectionDump

structure Section where
  id : Identity
  /-- The file that the section came from. -/
  path : Path
  data : Bytes
  length_data : data.length = id.size.toNat
  fits : id.Fits
  deriving DecidableEq, Repr

/-- Why a file holds no section. -/
inductive SectionFault where
  | name (fault : NameFault)
  | sizeMismatch (declared : UInt64) (actual : Nat)
  deriving DecidableEq, Repr

def SectionFault.message : SectionFault → Text
  | .name fault => fault.message
  | .sizeMismatch declared actual => "declared size ".toList ++ Numeral.decimal declared ++
      " does not match content length ".toList ++ Numeral.ofNat actual

namespace Section

/-- Pairs an identity with its bytes. That they have addresses is known before, so only
their number is left to ask. -/
def ofIdentity (id : Identity) (fits : id.Fits) (path : Path) (data : Bytes) :
    Except SectionFault Section :=
  if length_data : data.length = id.size.toNat then .ok { id, path, data, length_data, fits }
  else .error (.sizeMismatch id.size data.length)

/-- The section that a file holds, by the file's name and its bytes. -/
def ofFile (path : Path) (data : Bytes) : Except SectionFault Section :=
  match h : Identity.parse path with
  | .ok id => ofIdentity id (Identity.fits_of_parse h) path data
  | .error fault => .error (.name fault)

theorem ofFile_of_parse {path : Path} {id : Identity} (h : Identity.parse path = .ok id)
    (data : Bytes) : ofFile path data = ofIdentity id (Identity.fits_of_parse h) path data := by
  unfold ofFile
  split
  · rename_i e
    rw [h] at e
    cases e
    rfl
  · rename_i e
    rw [h] at e
    cases e

theorem ofFile_of_parse_error {path : Path} {fault : NameFault}
    (h : Identity.parse path = .error fault) (data : Bytes) :
    ofFile path data = .error (.name fault) := by
  unfold ofFile
  split
  · rename_i e
    rw [h] at e
    cases e
  · rename_i e
    rw [h] at e
    cases e
    rfl

def name (s : Section) : Text := s.id.name

def start (s : Section) : UInt64 := s.id.start

def size (s : Section) : UInt64 := s.id.size

def isEmpty (s : Section) : Bool := s.data.isEmpty

/-- Address of the last byte. An empty section gives its start. -/
def last (s : Section) : UInt64 := if s.size = 0 then s.start else s.start + (s.size - 1)

/-- The address is that of a byte of the section. -/
def contains (s : Section) (address : UInt64) : Bool :=
  s.start ≤ address && address.toNat - s.start.toNat < s.size.toNat

/-- The given number of bytes from an address on, when the section has them all. -/
def slice (s : Section) (address length : UInt64) : Option Bytes :=
  let position := address.toNat - s.start.toNat
  if s.start ≤ address ∧ position + length.toNat ≤ s.size.toNat then
    some ((s.data.drop position).take length.toNat)
  else none

/-- The range of a section that is not empty ends within the address space. -/
theorem start_add_size_le (s : Section) (h : s.size ≠ 0) :
    s.start.toNat + s.size.toNat ≤ UInt64.size := s.fits.resolve_left h

theorem size_pos {s : Section} (h : s.size ≠ 0) : 0 < s.size.toNat := by
  refine Nat.pos_of_ne_zero fun e => h (UInt64.toNat_inj.1 ?_)
  simpa using e

@[simp] theorem last_of_size_eq_zero {s : Section} (h : s.size = 0) : s.last = s.start := by
  simp [last, h]

/-- The last address does not wrap: it lies one below the end of the range. -/
theorem toNat_last {s : Section} (h : s.size ≠ 0) :
    s.last.toNat = s.start.toNat + s.size.toNat - 1 := by
  have hpos := size_pos h
  have hfit := s.start_add_size_le h
  have hone : (1 : UInt64).toNat = 1 := rfl
  have hsub : (s.size - 1).toNat = s.size.toNat - 1 := by
    rw [UInt64.toNat_sub_of_le _ _ (by rw [UInt64.le_iff_toNat_le, hone]; omega), hone]
  simp only [UInt64.size] at hfit
  rw [last, if_neg h, UInt64.toNat_add, hsub, Nat.mod_eq_of_lt (by omega)]
  omega

/-- The last address does not wrap, and that of an empty section is its start. -/
theorem toNat_last_eq (s : Section) : s.last.toNat = s.start.toNat + (s.size.toNat - 1) := by
  by_cases h : s.size = 0
  · rw [last_of_size_eq_zero h, h, UInt64.toNat_zero]
    omega
  · have hpos := size_pos h
    rw [toNat_last h]
    omega

/-- The start is not above the last address, whatever the size. -/
theorem start_le_last (s : Section) : s.start ≤ s.last := by
  rw [UInt64.le_iff_toNat_le, toNat_last_eq]
  omega

theorem contains_iff {s : Section} {a : UInt64} :
    s.contains a = true ↔
      s.start.toNat ≤ a.toNat ∧ a.toNat < s.start.toNat + s.size.toNat := by
  simp only [contains, Bool.and_eq_true, decide_eq_true_eq, UInt64.le_iff_toNat_le]
  omega

/-- A slice is had exactly when the range of the section holds all of it. -/
theorem slice_eq_some_iff {s : Section} {a n : UInt64} {bytes : Bytes} :
    s.slice a n = some bytes ↔
      (s.start.toNat ≤ a.toNat ∧ a.toNat + n.toNat ≤ s.start.toNat + s.size.toNat) ∧
        (s.data.drop (a.toNat - s.start.toNat)).take n.toNat = bytes := by
  simp only [slice, UInt64.le_iff_toNat_le, Option.ite_none_right_eq_some, Option.some.injEq]
  refine and_congr_left fun _ => ?_
  omega

end Section
end SectionDump
