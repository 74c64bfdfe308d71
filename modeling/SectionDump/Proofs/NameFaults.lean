import SectionDump.Proofs.FileNames

/-!
# Names that read and names that do not

A stem that reads is a name, three numerals and flags, with hyphens between them. Only
the flags may hold hyphens of their own, so there is one way at most to take a stem apart,
and it is at its first four hyphens. Every other stem has one fault: it has too few
hyphens, or a component is not what it has to be and all those before it are, or all of
them are but the range does not end within the address space.
-/
namespace SectionDump

open Numeral (SpellsHex SpellsDecimal)

/-- The texts of five components. -/
structure Parts where
  name : Text
  start : Text
  size : Text
  offset : Text
  flags : Text
  deriving DecidableEq, Repr

namespace Parts

def components (p : Parts) : List Text := [p.name, p.start, p.size, p.offset, p.flags]

/-- The stem that is made up of the parts. -/
def stem (p : Parts) : Text := Identity.joined p.name p.start p.size p.offset p.flags

def text (p : Parts) : Component → Text
  | .name => p.name
  | .start => p.start
  | .size => p.size
  | .offset => p.offset

/-- The parts state the identity: its name, its three numbers in digits, and its flags. -/
structure States (p : Parts) (id : Identity) : Prop where
  name_eq : p.name = id.name
  name_ne_nil : p.name ≠ []
  hyphen_not_mem : '-' ∉ p.name
  start_spells : SpellsHex p.start id.start
  size_spells : SpellsDecimal p.size id.size
  offset_spells : SpellsDecimal p.offset id.offset
  flags_eq : p.flags = id.flags
  fits : id.size = 0 ∨ id.start.toNat + id.size.toNat ≤ UInt64.size

/-- The stem taken apart at its first four hyphens. -/
structure Splits (p : Parts) (stem : Text) : Prop where
  stem_eq : stem = p.stem
  hyphen_not_mem : ∀ c, '-' ∉ p.text c

end Parts

namespace Identity

/-- The first four hyphens are where a stem is taken apart. -/
theorem components_eq_iff_splits {p : Parts} {s : Text} :
    components 4 s = p.components ↔ p.Splits s := by
  rw [Parts.components, components_eq_five_iff]
  constructor
  · rintro ⟨hs, hname, hstart, hsize, hoffset⟩
    refine ⟨hs, ?_⟩
    intro c
    cases c with
    | name => exact hname
    | start => exact hstart
    | size => exact hsize
    | offset => exact hoffset
  · rintro ⟨hs, hc⟩
    exact ⟨hs, hc .name, hc .start, hc .size, hc .offset⟩

end Identity

namespace Parts

variable {p q : Parts} {s : Text} {id : Identity}

/-- A stem is taken apart in one way only. -/
theorem Splits.unique (hp : p.Splits s) (hq : q.Splits s) : p = q := by
  have h := Identity.components_eq_iff_splits.2 hp
  rw [Identity.components_eq_iff_splits.2 hq] at h
  obtain ⟨name, start, size, offset, flags⟩ := p
  obtain ⟨name', start', size', offset', flags'⟩ := q
  simp only [components, List.cons.injEq, and_true] at h
  obtain ⟨rfl, rfl, rfl, rfl, rfl⟩ := h
  rfl

theorem States.spelled (h : p.States id) :
    Identity.Spelled id p.stem p.start p.size p.offset where
  stem_eq := by rw [stem, h.name_eq, h.flags_eq]
  name_ne_nil := by
    rw [← h.name_eq]
    exact h.name_ne_nil
  hyphen_not_mem := by
    rw [← h.name_eq]
    exact h.hyphen_not_mem
  start_reads := Numeral.hex?_eq_some_iff.2 h.start_spells
  size_reads := Numeral.decimal?_eq_some_iff.2 h.size_spells
  offset_reads := Numeral.decimal?_eq_some_iff.2 h.offset_spells
  fits := h.fits

end Parts

namespace Identity

variable {p : Parts} {s : Text}

/-- A sign before the offset is one more hyphen, so the offset is empty. -/
example : parse "text-1000-10--1-rx.bin".toList = .error (.malformed .offset []) := rfl

end Identity
end SectionDump
