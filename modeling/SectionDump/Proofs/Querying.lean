import SectionDump.Image.Query
import SectionDump.Proofs.FileNames
import SectionDump.Proofs.Reading
import SectionDump.Proofs.Building

/-!
# Queries and what they rest on

A query is about the bytes, which come from the files, or about what the metadata says.
Metadata never decides whether an image is built nor what bytes it has, and the layout
of the sections hides no label and no address of the metadata. A word of the machine is
the only thing that is told by both: its size and byte order by the one, its bytes by
the other.
-/
namespace SectionDump

/-- What an image can be asked. -/
inductive Query where
  | sections
  | sectionNamed (name : Text)
  | find (address : UInt64)
  | contains (address : UInt64)
  | read (address size : UInt64)
  | readUInt16 (address : UInt64) (order : ByteOrder)
  | readUInt32 (address : UInt64) (order : ByteOrder)
  | readUInt64 (address : UInt64) (order : ByteOrder)
  | arch
  | entryPoints
  | exitPoints
  | relocations
  | functions
  | isRelocation (address : UInt64)
  | isFunction (address : UInt64)
  | labels
  | labelFor (address : UInt64)
  | labelsAt (address : UInt64)
  | collisions
  | readWord (address : UInt64)

namespace Query

def Answer : Query → Type
  | sections => Array Section
  | sectionNamed _ => Option Section
  | find _ => Except QueryFault Section
  | contains _ | isRelocation _ | isFunction _ => Bool
  | read _ _ => Except QueryFault Bytes
  | readUInt16 _ _ => Except QueryFault UInt16
  | readUInt32 _ _ => Except QueryFault UInt32
  | readUInt64 _ _ | readWord _ => Except QueryFault UInt64
  | arch => Option Architecture
  | entryPoints | exitPoints | relocations | functions => AddressSet
  | labels => LabelTable
  | labelFor _ => Except QueryFault Text
  | labelsAt _ => List Label
  | collisions => List LabelRow

/-- Where an answer comes from. -/
inductive Source where
  | files
  | metadata
  | both
  deriving DecidableEq, Repr

def source : Query → Source
  | sections | sectionNamed _ | find _ | contains _ | read _ _ | readUInt16 _ _ | readUInt32 _ _
  | readUInt64 _ _ => .files
  | arch | entryPoints | exitPoints | relocations | functions | isRelocation _ | isFunction _
  | labels | labelFor _ | labelsAt _ | collisions => .metadata
  | readWord _ => .both

theorem source_eq_both_iff {q : Query} : q.source = .both ↔ ∃ a, q = readWord a := by
  cases q <;> simp [source]

end Query

namespace Image

def ask (image : Image) : (q : Query) → q.Answer
  | .sections => image.sections
  | .sectionNamed name => image.sectionNamed? name
  | .find a => image.find a
  | .contains a => image.contains a
  | .read a n => image.read a n
  | .readUInt16 a order => image.readUInt16 a order
  | .readUInt32 a order => image.readUInt32 a order
  | .readUInt64 a order => image.readUInt64 a order
  | .arch => image.arch
  | .entryPoints => image.entryPoints
  | .exitPoints => image.exitPoints
  | .relocations => image.relocations
  | .functions => image.functions
  | .isRelocation a => image.relocations.contains a
  | .isFunction a => image.functions.contains a
  | .labels => image.labels
  | .labelFor a => image.labelFor a
  | .labelsAt a => image.labels.all a
  | .collisions => image.labels.collisions
  | .readWord a => image.readWord a

section Agreement

variable {image other : Image}

/-- Two images have the same of everything that comes from metadata. -/
structure SameMetadata (image other : Image) : Prop where
  arch : image.arch = other.arch
  entryPoints : image.entryPoints = other.entryPoints
  exitPoints : image.exitPoints = other.exitPoints
  relocations : image.relocations = other.relocations
  functions : image.functions = other.functions
  labels : image.labels = other.labels

theorem find_congr (h : image.sections = other.sections) (a : UInt64) :
    image.find a = other.find a := by
  simp only [find, candidate?, h]

theorem read_of_find_eq {a : UInt64} (h : image.find a = other.find a) (n : UInt64) :
    image.read a n = other.read a n := by
  simp only [read, h]

theorem ask_of_sections_eq (h : image.sections = other.sections) {q : Query}
    (hq : q.source = .files) : image.ask q = other.ask q := by
  have hread : ∀ a n, image.read a n = other.read a n :=
    fun a n => read_of_find_eq (find_congr h a) n
  cases q <;> simp only [Query.source, reduceCtorEq] at hq
  case sections => exact h
  case sectionNamed name =>
    show image.sectionNamed? name = other.sectionNamed? name
    rw [sectionNamed?, sectionNamed?, h]
  case find a => exact find_congr h a
  case contains a =>
    show image.contains a = other.contains a
    rw [contains, contains, find_congr h]
  case read a n => exact hread a n
  case readUInt16 a order => exact congrArg (Except.map _) (hread a 2)
  case readUInt32 a order => exact congrArg (Except.map _) (hread a 4)
  case readUInt64 a order => exact congrArg (Except.map _) (hread a 8)

theorem ask_of_sameMetadata (h : SameMetadata image other) {q : Query}
    (hq : q.source = .metadata) : image.ask q = other.ask q := by
  cases q <;> simp only [Query.source, reduceCtorEq] at hq
  case arch => exact h.arch
  case entryPoints => exact h.entryPoints
  case exitPoints => exact h.exitPoints
  case relocations => exact h.relocations
  case functions => exact h.functions
  case isRelocation a => exact congrArg (AddressSet.contains · a) h.relocations
  case isFunction a => exact congrArg (AddressSet.contains · a) h.functions
  case labels => exact h.labels
  case labelFor a =>
    show image.labelFor a = other.labelFor a
    rw [labelFor, labelFor, h.labels]
  case labelsAt a => exact congrArg (LabelTable.all · a) h.labels
  case collisions => exact congrArg LabelTable.collisions h.labels

end Agreement

section Building

variable {files files' : List (Path × Bytes)} {metadata metadata' : Option Metadata}
  {image other : Image}

theorem sections_eq_of_build (h : build files metadata = .ok image)
    (h' : build files metadata' = .ok other) : image.sections = other.sections := by
  obtain ⟨sections, hsections, himage⟩ := build_eq_ok_iff.1 h
  obtain ⟨sections', hsections', hother⟩ := build_eq_ok_iff.1 h'
  rw [hsections, Except.ok.injEq] at hsections'
  subst hsections'
  apply Array.toList_inj.1
  rw [sections_of_ofSections himage, sections_of_ofSections hother]

theorem sameMetadata_of_build (h : build files metadata = .ok image)
    (h' : build files' metadata = .ok other) : SameMetadata image other := by
  obtain ⟨sections, -, himage⟩ := build_eq_ok_iff.1 h
  obtain ⟨sections', -, hother⟩ := build_eq_ok_iff.1 h'
  obtain ⟨hnone, rfl⟩ := ofSections_eq_ok_iff.1 himage
  obtain ⟨hnone', rfl⟩ := ofSections_eq_ok_iff.1 hother
  exact ⟨rfl, rfl, rfl, rfl, rfl, rfl⟩

/-- Files are refused for what they are, whatever the metadata. -/
theorem build_error_of_metadata {fault : LoadFault} (h : build files metadata = .error fault)
    (metadata' : Option Metadata) : build files metadata' = .error fault := by
  rw [build] at h ⊢
  cases hfiles : Section.ofFiles files with
  | error fault' =>
    rw [hfiles] at h
    exact h
  | ok sections =>
    rw [hfiles] at h
    change ofSections sections _ = _ at h
    change ofSections sections _ = _
    unfold ofSections at h ⊢
    split at h
    · rename_i hsome
      rw [dif_pos hsome]
      exact h
    · cases h

end Building

end Image

namespace Query

/-- Some change of the files alone changes the answer. -/
def DependsOnFiles (q : Query) : Prop :=
  ∃ files files' metadata image image', Image.build files metadata = .ok image ∧
    Image.build files' metadata = .ok image' ∧ image.ask q ≠ image'.ask q

/-- Some change of the metadata alone changes the answer. -/
def DependsOnMetadata (q : Query) : Prop :=
  ∃ files metadata metadata' image image', Image.build files metadata = .ok image ∧
    Image.build files metadata' = .ok image' ∧ image.ask q ≠ image'.ask q

theorem not_dependsOnMetadata {q : Query} (h : q.source = .files) : ¬q.DependsOnMetadata := by
  rintro ⟨files, metadata, metadata', image, image', hbuild, hbuild', hne⟩
  exact hne (Image.ask_of_sections_eq (Image.sections_eq_of_build hbuild hbuild') h)

theorem not_dependsOnFiles {q : Query} (h : q.source = .metadata) : ¬q.DependsOnFiles := by
  rintro ⟨files, files', metadata, image, image', hbuild, hbuild', hne⟩
  exact hne (Image.ask_of_sameMetadata (Image.sameMetadata_of_build hbuild hbuild') h)

end Query

namespace Image

theorem arch_of_build {files : List (Path × Bytes)} {metadata : Option Metadata} {image : Image}
    (h : build files metadata = .ok image) :
    image.arch = (metadata.getD .empty).arch.map Architecture.ofName := by
  obtain ⟨sections, -, himage⟩ := build_eq_ok_iff.1 h
  obtain ⟨hnone, rfl⟩ := ofSections_eq_ok_iff.1 himage
  rfl

theorem readWord_of_target_eq_none (image : Image) {a : UInt64} (h : image.target? = none) :
    image.readWord a = .error .unknownArchitecture := by
  rw [readWord, h]

theorem readWord_of_read_error (image : Image) {a : UInt64} {t : Target} {fault : QueryFault}
    (ht : image.target? = some t)
    (h : image.read a (.ofNat t.wordSize.bytes) = .error fault) :
    image.readWord a = .error fault := by
  rw [readWord, ht]
  cases hsize : t.wordSize with
  | bits32 =>
    rw [hsize] at h
    have hread : image.read a 4 = .error fault := h
    simp only [hsize, readUInt32, hread, Except.map]
  | bits64 =>
    rw [hsize] at h
    have hread : image.read a 8 = .error fault := h
    simp only [hsize, readUInt64, hread, Except.map]

/-! Words depend on both sides at every address: the one byte of a section is too short
for a word, and without sections there is none at all. -/

/-- A section of one byte. -/
def byteAt (a : UInt64) : Identity := ⟨"s".toList, a, 1, 0, []⟩

def byteFiles (a : UInt64) : List (Path × Bytes) := [((byteAt a).fileName, [0])]

def wordMetadata : Metadata := { Metadata.empty with arch := some "x86_64".toList }

theorem canonical_byteAt (a : UInt64) : (byteAt a).Canonical where
  name_ne_nil := by simp [byteAt]
  hyphen_not_mem_name := by simp [byteAt]
  slash_not_mem_name := by simp [byteAt]
  slash_not_mem_flags := by simp [byteAt]
  fits := .inr a.toNat_lt_size

theorem declares_byteFiles (a : UInt64) : Declares ((byteAt a).fileName, [0]) (byteAt a) :=
  ⟨Identity.parse_fileName_of_canonical (canonical_byteAt a), rfl⟩

theorem exists_build_byteFiles (a : UInt64) (metadata : Option Metadata) :
    ∃ image s, build (byteFiles a) metadata = .ok image ∧ s ∈ image.sections.toList ∧
      s.id = byteAt a := by
  have hheld : ∀ f ∈ byteFiles a, HoldsSection f := by
    rw [byteFiles, List.forall_mem_singleton]
    exact ⟨_, declares_byteFiles a⟩
  obtain ⟨image, himage⟩ : ∃ image, build (byteFiles a) metadata = .ok image :=
    exists_build_iff.2 ⟨hheld, List.pairwise_singleton _ _⟩
  have hinhabited : (byteFiles a).filterMap inhabited? =
      [(byteAt a, (byteAt a).fileName, [0])] := by
    rw [byteFiles, List.filterMap_cons, inhabited?, (declares_byteFiles a).1]
    rfl
  have hcomplete := (laidOut_of_build himage).complete
  rw [hinhabited, List.perm_singleton] at hcomplete
  have hmem : (byteAt a, (byteAt a).fileName, ([0] : Bytes)) ∈
      image.sections.toList.map fun s => (s.id, s.file) := by
    rw [hcomplete]
    exact List.mem_singleton.2 rfl
  obtain ⟨s, hs, he⟩ := List.mem_map.1 hmem
  exact ⟨image, s, himage, hs, (Prod.mk.inj he).1⟩

theorem readWord_of_byteFiles {a : UInt64} {image : Image}
    (h : build (byteFiles a) (some wordMetadata) = .ok image) :
    image.readWord a = .error (.outOfBounds a 8 a) := by
  obtain ⟨image', s, himage, hs, hid⟩ := exists_build_byteFiles a (some wordMetadata)
  rw [h, Except.ok.injEq] at himage
  subst himage
  have hstart : s.start = a := congrArg Identity.start hid
  have hsize : s.size = 1 := congrArg Identity.size hid
  have hlast : s.last = a := by
    rw [Section.last, hsize, hstart]
    simp
  have hcovers : s.id.Covers a.toNat := by
    rw [hid]
    exact ⟨Nat.le_refl _, Nat.lt_succ_self _⟩
  have hshort : ¬s.HoldsAll a 8 := by
    rw [Section.holdsAll_iff (by decide), hstart, hsize]
    simp
  have hread := image.read_of_not_holdsAll (n := 8) (by decide) hs hcovers hshort
  rw [hlast] at hread
  have htarget : image.target? = some ⟨.x86_64, .little⟩ := by
    rw [target?, arch_of_build h]
    rfl
  exact image.readWord_of_read_error htarget hread

theorem readWord_of_no_files {a : UInt64} {image : Image}
    (h : build [] (some wordMetadata) = .ok image) : image.readWord a = .error (.notFound a) := by
  have htarget : image.target? = some ⟨.x86_64, .little⟩ := by
    rw [target?, arch_of_build h]
    rfl
  have hnone : image.sections.toList = [] := by
    have hcomplete := (laidOut_of_build h).complete
    rw [List.filterMap_nil, List.perm_nil, List.map_eq_nil_iff] at hcomplete
    exact hcomplete
  have hread : image.read a 8 = .error (.notFound a) := by
    apply image.read_of_not_covers (by decide)
    simp [hnone]
  exact image.readWord_of_read_error htarget hread

end Image

namespace Query

theorem readWord_dependsOnFiles (a : UInt64) : (readWord a).DependsOnFiles := by
  obtain ⟨image, -, himage, -, -⟩ := Image.exists_build_byteFiles a (some Image.wordMetadata)
  obtain ⟨bare, hbare⟩ : ∃ bare, Image.build [] (some Image.wordMetadata) = .ok bare := ⟨_, rfl⟩
  refine ⟨Image.byteFiles a, [], some Image.wordMetadata, image, bare, himage, hbare, ?_⟩
  intro heq
  have hword : image.readWord a = bare.readWord a := heq
  rw [Image.readWord_of_byteFiles himage, Image.readWord_of_no_files hbare] at hword
  simp at hword

theorem readWord_dependsOnMetadata (a : UInt64) : (readWord a).DependsOnMetadata := by
  obtain ⟨named, hnamed⟩ : ∃ named, Image.build [] (some Image.wordMetadata) = .ok named := ⟨_, rfl⟩
  obtain ⟨bare, hbare⟩ : ∃ bare, Image.build [] none = .ok bare := ⟨_, rfl⟩
  refine ⟨[], some Image.wordMetadata, none, named, bare, hnamed, hbare, ?_⟩
  intro heq
  have hword : named.readWord a = bare.readWord a := heq
  have htarget : bare.target? = none := by
    rw [Image.target?, Image.arch_of_build hbare]
    rfl
  rw [Image.readWord_of_no_files hnamed, Image.readWord_of_target_eq_none bare htarget] at hword
  simp at hword

/-- Metadata never reaches what is told by the files, nor the files what is told by the
metadata. Every query but that for a word depends on one of them at most. -/
theorem ask_eq_of_source :
    (∀ (files : List (Path × Bytes)) (metadata metadata' : Option Metadata),
      (∀ fault, Image.build files metadata = .error fault ↔
        Image.build files metadata' = .error fault) ∧
      ∀ image image', Image.build files metadata = .ok image →
        Image.build files metadata' = .ok image' →
          ∀ q : Query, q.source = .files → image.ask q = image'.ask q) ∧
    (∀ (files files' : List (Path × Bytes)) (metadata : Option Metadata) (image image' : Image),
      Image.build files metadata = .ok image → Image.build files' metadata = .ok image' →
        ∀ q : Query, q.source = .metadata → image.ask q = image'.ask q) ∧
    ∀ q : Query, q.DependsOnFiles ∧ q.DependsOnMetadata ↔ ∃ a, q = readWord a := by
  refine ⟨?_, ?_, ?_⟩
  · intro files metadata metadata'
    refine ⟨?_, ?_⟩
    · intro fault
      exact ⟨fun h => Image.build_error_of_metadata h metadata',
        fun h => Image.build_error_of_metadata h metadata⟩
    · intro image image' h h' q hq
      exact Image.ask_of_sections_eq (Image.sections_eq_of_build h h') hq
  · intro files files' metadata image image' h h' q hq
    exact Image.ask_of_sameMetadata (Image.sameMetadata_of_build h h') hq
  · intro q
    constructor
    · rintro ⟨hfiles, hmetadata⟩
      apply source_eq_both_iff.1
      cases hsource : q.source with
      | files => exact absurd hmetadata (not_dependsOnMetadata hsource)
      | metadata => exact absurd hfiles (not_dependsOnFiles hsource)
      | both => rfl
    · rintro ⟨a, rfl⟩
      exact ⟨readWord_dependsOnFiles a, readWord_dependsOnMetadata a⟩

end Query
end SectionDump
