import SectionDump.Proofs.Overlaps
import SectionDump.Proofs.Reading

/-!
# Finding sections

Bisection asks one section only whether it has an address. Asking all of them in turn
comes to the same one, or to none as well: sections lie apart, so no other one can have
the address, and the one that has it is the candidate.
-/
namespace SectionDump.Image

/-- Asks the sections one after another, from the lowest on. -/
def scan (image : Image) (a : UInt64) : Except QueryFault Section :=
  match image.sections.toList.find? fun s => s.contains a with
  | some s => .ok s
  | none => .error (.notFound a)

theorem sections_apart (image : Image) : image.sections.toList.Pairwise Section.Apart := by
  apply image.ordered.imp_of_mem
  intro s t hs _ hbelow
  exact Section.apart_of_below (image.size_ne_zero hs) hbelow

theorem holders_sections_le_one (image : Image) (a : UInt64) :
    Section.holders image.sections.toList a ≤ 1 :=
  Section.holders_le_one image.sections_apart a

theorem find_eq_notFound_iff (image : Image) {a : UInt64} {fault : QueryFault} :
    image.find a = .error fault ↔
      fault = .notFound a ∧ ∀ s ∈ image.sections.toList, s.contains a = false := by
  rw [find_eq_error_iff]
  apply and_congr_right
  intro _
  apply forall₂_congr
  intro s _
  rw [← Section.contains_iff_covers, Bool.not_eq_true]

/-- What the scan stops at is what bisection finds. -/
theorem find_eq_scan (image : Image) (a : UInt64) : image.find a = image.scan a := by
  rw [scan]
  cases h : image.sections.toList.find? fun s => s.contains a with
  | some s =>
    have hmem : s ∈ image.sections.toList := List.mem_of_find?_eq_some h
    have hcontains := List.find?_some h
    exact image.find_eq_ok_iff.2 ⟨hmem, Section.contains_iff_covers.1 hcontains⟩
  | none =>
    have hnone : ∀ s ∈ image.sections.toList, s.contains a = false := by
      intro s hs
      have hnot := List.find?_eq_none.1 h s hs
      simpa using hnot
    exact image.find_eq_notFound_iff.2 ⟨rfl, hnone⟩

/-- Bisection and a scan of all sections give the same section or fault. There is never
more than one section to find, the fault is that nothing is found, exactly where no
section has the address, and everywhere else the address is one that the image contains. -/
theorem find_scan_agree (image : Image) (a : UInt64) :
    image.find a = image.scan a ∧
    Section.holders image.sections.toList a ≤ 1 ∧
    (∀ fault, image.find a = .error fault ↔
      fault = .notFound a ∧ ∀ s ∈ image.sections.toList, s.contains a = false) ∧
    (image.contains a = true ↔ ∃ s, image.find a = .ok s) :=
  ⟨image.find_eq_scan a, image.holders_sections_le_one a, fun _ => image.find_eq_notFound_iff,
    image.contains_eq_true_iff⟩

end SectionDump.Image
