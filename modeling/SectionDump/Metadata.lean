import SectionDump.Label

/-!
# Metadata

What the dumping tool knew about the file beside its sections. Lists keep the
order and the repetitions of the metadata file.
-/
namespace SectionDump

structure Metadata where
  arch : Option Text
  entryPoints : List Symbol
  exitPoints : List Symbol
  relocations : List UInt64
  functions : List UInt64
  deriving DecidableEq, Repr

namespace Metadata

def empty : Metadata := ⟨none, [], [], [], []⟩

/-- The lists of one after those of the other. The later architecture counts. -/
def append (a b : Metadata) : Metadata where
  arch := b.arch.or a.arch
  entryPoints := a.entryPoints ++ b.entryPoints
  exitPoints := a.exitPoints ++ b.exitPoints
  relocations := a.relocations ++ b.relocations
  functions := a.functions ++ b.functions

instance : Append Metadata := ⟨append⟩

@[simp] theorem arch_append (a b : Metadata) : (a ++ b).arch = b.arch.or a.arch := rfl
@[simp] theorem entryPoints_append (a b : Metadata) :
    (a ++ b).entryPoints = a.entryPoints ++ b.entryPoints := rfl
@[simp] theorem exitPoints_append (a b : Metadata) :
    (a ++ b).exitPoints = a.exitPoints ++ b.exitPoints := rfl
@[simp] theorem relocations_append (a b : Metadata) :
    (a ++ b).relocations = a.relocations ++ b.relocations := rfl
@[simp] theorem functions_append (a b : Metadata) :
    (a ++ b).functions = a.functions ++ b.functions := rfl

@[simp] theorem empty_append (m : Metadata) : empty ++ m = m := by
  show append empty m = m
  simp [append, empty]

@[simp] theorem append_empty (m : Metadata) : m ++ empty = m := by
  show append m empty = m
  simp [append, empty]

theorem append_assoc (a b c : Metadata) : a ++ b ++ c = a ++ (b ++ c) := by
  show append (append a b) c = append a (append b c)
  simp [append, Option.or_assoc]

/-- Exit points come first, so that of two names of one address an entry name is
the newer. -/
def labels (m : Metadata) : List (UInt64 × Label) :=
  m.exitPoints.map (fun s => (s.address, ⟨s.name, .exit⟩)) ++
    m.entryPoints.map (fun s => (s.address, ⟨s.name, .entry⟩))

end Metadata
end SectionDump
