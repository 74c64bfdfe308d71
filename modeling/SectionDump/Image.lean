import SectionDump.AddressSet
import SectionDump.Architecture
import SectionDump.Label.Table
import SectionDump.Section

/-!
# Images

The address space of a dumped file. Its sections are not empty, lie in ascending
order and share no address; labels and address sets come from the metadata and
may name addresses that no section holds.
-/
namespace SectionDump

/-- All of one section lies below all of the other. -/
def Section.Below (s t : Section) : Prop := s.last < t.start

instance (s t : Section) : Decidable (s.Below t) := inferInstanceAs (Decidable (_ < _))

theorem Section.Below.trans {s t u : Section} (h : s.Below t) (h' : t.Below u) : s.Below u :=
  UInt64.lt_trans (UInt64.lt_of_lt_of_le h t.start_le_last) h'

structure Image where
  sections : Array Section
  arch : Option Architecture
  entryPoints : AddressSet
  exitPoints : AddressSet
  relocations : AddressSet
  functions : AddressSet
  labels : LabelTable
  ordered : sections.toList.Pairwise Section.Below
  inhabited : ∀ s ∈ sections.toList, s.isEmpty = false

end SectionDump
