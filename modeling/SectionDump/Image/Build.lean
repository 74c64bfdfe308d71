import SectionDump.Event
import SectionDump.Fault
import SectionDump.Image
import SectionDump.Sorting

/-!
# Building images

An image is built from all files or not at all. Sections may come in any order;
empty ones take no part. Of sorted sections it is enough to compare neighbours:
when each lies below the next one, no two of them share an address.
-/
namespace SectionDump

namespace Section

/-- The sections of files, or the fault of the first file that has none. -/
def ofFiles : List (Path × Bytes) → Except LoadFault (List Section)
  | [] => .ok []
  | (path, data) :: rest => match ofFile path data with
    | .error fault => .error (.sectionFile path (.noSection fault))
    | .ok s => (ofFiles rest).map (s :: ·)

/-- The sections that are not empty, by ascending start. Sections with the same
start keep their order. -/
def arrange (sections : List Section) : List Section :=
  Sorting.sort (fun s t => s.start ≤ t.start) (sections.filter fun s => !s.isEmpty)

/-- The first two neighbours of which the first does not lie below the second. -/
def firstOverlap? : List Section → Option (Section × Section)
  | s :: t :: rest => if s.Below t then firstOverlap? (t :: rest) else some (s, t)
  | _ => none

theorem pairwise_of_firstOverlap? {l : List Section} (h : firstOverlap? l = none) :
    l.Pairwise Section.Below := by
  induction l with
  | nil => simp
  | cons s rest ih =>
    cases rest with
    | nil => simp
    | cons t rest =>
      rw [firstOverlap?] at h
      split at h
      · rename_i hst
        have ht := ih h
        rw [List.pairwise_cons]
        refine ⟨fun u hu => ?_, ht⟩
        rcases List.mem_cons.1 hu with rfl | hu
        · exact hst
        · exact hst.trans (List.rel_of_pairwise_cons ht hu)
      · simp at h

theorem mem_arrange {sections : List Section} {s : Section} :
    s ∈ arrange sections ↔ s ∈ sections ∧ s.isEmpty = false := by
  simp [arrange]

end Section

namespace Image

/-- The image of arranged sections of which none overlap. -/
def ofArranged (sections : List Section) (h : Section.firstOverlap? sections = none)
    (inhabited : ∀ s ∈ sections, s.isEmpty = false) (metadata : Metadata) : Image where
  sections := sections.toArray
  arch := metadata.arch.map Architecture.ofName
  entryPoints := .ofList (metadata.entryPoints.map Symbol.address)
  exitPoints := .ofList (metadata.exitPoints.map Symbol.address)
  relocations := .ofList metadata.relocations
  functions := .ofList metadata.functions
  labels := .ofList metadata.labels
  ordered := Section.pairwise_of_firstOverlap? h
  inhabited := inhabited

/-- Builds an image from sections and metadata. -/
def ofSections (sections : List Section) (metadata : Metadata) : Except LoadFault Image :=
  if h : (Section.firstOverlap? (Section.arrange sections)).isSome then
    let (s, t) := (Section.firstOverlap? (Section.arrange sections)).get h
    .error (.overlap s.name t.name t.start)
  else .ok (ofArranged (Section.arrange sections) (Option.not_isSome_iff_eq_none.1 h)
    (fun _ hs => (Section.mem_arrange.1 hs).2) metadata)

/-- Builds an image from dump files and metadata. Of a path only the last name
counts. -/
def build (files : List (Path × Bytes)) (metadata : Option Metadata) : Except LoadFault Image :=
  (Section.ofFiles files).bind fun sections => ofSections sections (metadata.getD .empty)

def counts (image : Image) : ImageCounts where
  sections := image.sections.size
  arch := image.arch.map Architecture.name
  entryPoints := image.entryPoints.size
  exitPoints := image.exitPoints.size
  relocations := image.relocations.size
  functions := image.functions.size

end Image

def Architecture.ofNameEvents (name : Text) : List Event :=
  if (ofName name).isKnown then [] else [.unknownArchitecture name]

namespace LabelTable

/-- A label that joins others at its address collides with the newest of them. -/
def insertEvents (t : LabelTable) (a : UInt64) (l : Label) : List Event :=
  match (t.all a).getLast? with
  | some previous => [.labelCollision a l previous]
  | none => []

/-- The events of adding labels one after another. -/
def addEvents (t : LabelTable) : List (UInt64 × Label) → List Event
  | [] => []
  | (a, l) :: rest => t.insertEvents a l ++ addEvents (t.insert a l) rest

end LabelTable

namespace Image

def sectionEvent (s : Section) : Event := if s.isEmpty then .emptySection s else .sectionLoaded s

def metadataEvents (m : Metadata) : List Event :=
  (m.arch.map Architecture.ofNameEvents).getD [] ++ LabelTable.empty.addEvents m.labels

/-- The events of building: nothing when a file holds no section, and nothing of
the metadata when sections overlap. -/
def buildEvents (files : List (Path × Bytes)) (metadata : Option Metadata) : List Event :=
  match Section.ofFiles files with
  | .error _ => []
  | .ok sections =>
    sections.map sectionEvent ++ match ofSections sections (metadata.getD .empty) with
      | .error _ => []
      | .ok image => metadataEvents (metadata.getD .empty) ++ [.imageBuilt image.counts]

end Image
end SectionDump
