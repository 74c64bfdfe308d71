import SectionDump.Proofs.FileNames
import SectionDump.Proofs.Ranges

/-!
# Building

Files make an image exactly when each of them holds a section and no two ranges
share an address, in whatever order the files come. The image then holds the
sections of the files that are not empty and nothing else. A file that holds no
section is noticed before any overlap, and of several such files the first one.
-/
namespace SectionDump

/-- The file's name reads as the identity, and its bytes are as many as that says. -/
def Declares (file : Path × Bytes) (id : Identity) : Prop :=
  Identity.parse file.1 = .ok id ∧ file.2.length = id.size.toNat

/-- The file has a name that reads and as many bytes as the name declares. -/
def HoldsSection (file : Path × Bytes) : Prop := ∃ id, Declares file id

/-- No address is in the ranges of both files. -/
def FilesApart (file other : Path × Bytes) : Prop :=
  ∀ i j, Declares file i → Declares other j → i.Apart j

namespace Section

def file (s : Section) : Path × Bytes := (s.path, s.data)

theorem ofIdentity_eq_ok_iff {id : Identity} {fits : id.Fits} {path : Path} {data : Bytes}
    {s : Section} :
    ofIdentity id fits path data = .ok s ↔ s.id = id ∧ s.path = path ∧ s.data = data := by
  unfold ofIdentity
  constructor
  · intro h
    split at h
    · cases h
      exact ⟨rfl, rfl, rfl⟩
    · cases h
  · rintro ⟨rfl, rfl, rfl⟩
    simp [s.length_data]

/-- A section is told by its file alone. -/
theorem ofFile_eq_ok_iff {path : Path} {data : Bytes} {s : Section} :
    ofFile path data = .ok s ↔ s.file = (path, data) ∧ Identity.parse s.path = .ok s.id := by
  rw [file, Prod.mk.injEq]
  constructor
  · intro h
    cases hp : Identity.parse path with
    | error fault =>
      rw [ofFile_of_parse_error hp] at h
      cases h
    | ok id =>
      rw [ofFile_of_parse hp] at h
      obtain ⟨rfl, rfl, rfl⟩ := ofIdentity_eq_ok_iff.1 h
      exact ⟨⟨rfl, rfl⟩, hp⟩
  · rintro ⟨⟨rfl, rfl⟩, hp⟩
    rw [ofFile_of_parse hp]
    exact ofIdentity_eq_ok_iff.2 ⟨rfl, rfl, rfl⟩

/-- The range of an identity that was read fits, so only the length is left to ask. -/
theorem exists_ofFile_id_iff {path : Path} {data : Bytes} {id : Identity} :
    (∃ s, ofFile path data = .ok s ∧ s.id = id) ↔ Declares (path, data) id := by
  constructor
  · rintro ⟨s, hs, rfl⟩
    obtain ⟨hfile, hp⟩ := ofFile_eq_ok_iff.1 hs
    obtain ⟨rfl, rfl⟩ := Prod.mk.inj hfile
    exact ⟨hp, s.length_data⟩
  · rintro ⟨hp, hlen⟩
    exact ⟨⟨id, path, data, hlen, Identity.fits_of_parse hp⟩, ofFile_eq_ok_iff.2 ⟨rfl, hp⟩, rfl⟩

theorem exists_ofFile_iff {path : Path} {data : Bytes} :
    (∃ s, ofFile path data = .ok s) ↔ HoldsSection (path, data) := by
  constructor
  · rintro ⟨s, hs⟩
    exact ⟨s.id, exists_ofFile_id_iff.1 ⟨s, hs, rfl⟩⟩
  · rintro ⟨id, hid⟩
    obtain ⟨s, hs, -⟩ := exists_ofFile_id_iff.2 hid
    exact ⟨s, hs⟩

theorem ofFiles_eq_ok_iff {files : List (Path × Bytes)} {sections : List Section} :
    ofFiles files = .ok sections ↔
      sections.map file = files ∧ ∀ s ∈ sections, Identity.parse s.path = .ok s.id := by
  induction files generalizing sections with
  | nil =>
    rw [ofFiles]
    constructor
    · rintro ⟨⟩
      simp
    · rintro ⟨h, -⟩
      rw [List.map_eq_nil_iff.1 h]
  | cons f rest ih =>
    obtain ⟨path, data⟩ := f
    rw [ofFiles]
    constructor
    · intro h
      cases hs : ofFile path data with
      | error fault => rw [hs] at h; cases h
      | ok s =>
        obtain ⟨hfile, hp⟩ := ofFile_eq_ok_iff.1 hs
        cases hrest : ofFiles rest with
        | error fault => rw [hs, hrest] at h; cases h
        | ok others =>
          rw [hs, hrest] at h
          cases h
          obtain ⟨hfiles, hothers⟩ := ih.1 hrest
          exact ⟨by rw [List.map_cons, hfile, hfiles], List.forall_mem_cons.2 ⟨hp, hothers⟩⟩
    · rintro ⟨hfiles, hparse⟩
      cases sections with
      | nil => cases hfiles
      | cons s others =>
        rw [List.map_cons, List.cons.injEq] at hfiles
        rw [List.forall_mem_cons] at hparse
        have hs := ofFile_eq_ok_iff.2 ⟨hfiles.1, hparse.1⟩
        have hrest := ih.2 ⟨hfiles.2, hparse.2⟩
        rw [hs, hrest]
        rfl

/-- The first file that holds no section decides, whatever comes after it. -/
theorem ofFiles_of_not_forall {files : List (Path × Bytes)}
    (h : ¬∀ f ∈ files, HoldsSection f) :
    ∃ pre f post fault, files = pre ++ f :: post ∧ (∀ g ∈ pre, HoldsSection g) ∧
      ofFile f.1 f.2 = .error fault ∧
      ofFiles files = .error (.sectionFile f.1 (.noSection fault)) := by
  induction files with
  | nil => exact absurd (by simp) h
  | cons f rest ih =>
    obtain ⟨path, data⟩ := f
    cases hf : ofFile path data with
    | error fault =>
      refine ⟨[], (path, data), rest, fault, rfl, by simp, hf, ?_⟩
      rw [ofFiles, hf]
    | ok s =>
      have hfirst : HoldsSection (path, data) := exists_ofFile_iff.1 ⟨s, hf⟩
      have hrest : ¬∀ g ∈ rest, HoldsSection g :=
        fun hall => h (List.forall_mem_cons.2 ⟨hfirst, hall⟩)
      obtain ⟨pre, g, post, fault, rfl, hpre, hg, herr⟩ := ih hrest
      refine ⟨(path, data) :: pre, g, post, fault, rfl, ?_, hg, ?_⟩
      · exact List.forall_mem_cons.2 ⟨hfirst, hpre⟩
      · rw [ofFiles, hf, herr]
        rfl

theorem ofFiles_of_forall {files : List (Path × Bytes)} (h : ∀ f ∈ files, HoldsSection f) :
    ∃ sections, ofFiles files = .ok sections := by
  induction files with
  | nil => exact ⟨[], rfl⟩
  | cons f rest ih =>
    obtain ⟨path, data⟩ := f
    rw [List.forall_mem_cons] at h
    obtain ⟨s, hs⟩ := exists_ofFile_iff.2 h.1
    obtain ⟨others, hrest⟩ := ih h.2
    refine ⟨s :: others, ?_⟩
    rw [ofFiles, hs, hrest]
    rfl

theorem holdsSection_of_ofFiles {files : List (Path × Bytes)} {sections : List Section}
    (h : ofFiles files = .ok sections) : ∀ f ∈ files, HoldsSection f := by
  obtain ⟨rfl, hparse⟩ := ofFiles_eq_ok_iff.1 h
  intro f hf
  obtain ⟨s, hs, rfl⟩ := List.mem_map.1 hf
  exact ⟨s.id, hparse s hs, s.length_data⟩

/-- A file declares the identity of its section and no other. -/
theorem declares_file_iff {s : Section} (hp : Identity.parse s.path = .ok s.id) {id : Identity} :
    Declares s.file id ↔ id = s.id := by
  constructor
  · rintro ⟨hid, -⟩
    rw [file, hp] at hid
    exact (Except.ok.inj hid).symm
  · rintro rfl
    exact ⟨hp, s.length_data⟩

theorem pairwise_apart_iff {files : List (Path × Bytes)} {sections : List Section}
    (h : ofFiles files = .ok sections) :
    sections.Pairwise Apart ↔ files.Pairwise FilesApart := by
  obtain ⟨rfl, hparse⟩ := ofFiles_eq_ok_iff.1 h
  rw [List.pairwise_map]
  apply List.Pairwise.iff_of_mem
  intro s t hs ht
  simp only [FilesApart, declares_file_iff (hparse s hs), declares_file_iff (hparse t ht)]
  constructor
  · rintro h i j rfl rfl
    exact h
  · intro h
    exact h _ _ rfl rfl

end Section

namespace Image

theorem ofSections_eq_ok_iff {sections : List Section} {metadata : Metadata} {image : Image} :
    ofSections sections metadata = .ok image ↔
      ∃ h : Section.firstOverlap? (Section.arrange sections) = none,
        ofArranged (Section.arrange sections) h (fun _ hs => (Section.mem_arrange.1 hs).2)
          metadata = image := by
  unfold ofSections
  split
  · rename_i h
    constructor
    · intro e
      cases e
    · rintro ⟨hnone, -⟩
      rw [hnone] at h
      cases h
  · rename_i h
    rw [Except.ok.injEq]
    exact ⟨fun e => ⟨Option.not_isSome_iff_eq_none.1 h, e⟩, fun ⟨_, e⟩ => e⟩

/-- An image is built from the sections of all files, arranged. -/
theorem build_eq_ok_iff {files : List (Path × Bytes)} {metadata : Option Metadata}
    {image : Image} :
    build files metadata = .ok image ↔
      ∃ sections, Section.ofFiles files = .ok sections ∧
        ofSections sections (metadata.getD .empty) = .ok image := by
  rw [build, bind_eq_ok_iff]

theorem exists_ofSections_iff {sections : List Section} {metadata : Metadata} :
    (∃ image, ofSections sections metadata = .ok image) ↔
      sections.Pairwise Section.Apart := by
  rw [← Section.arrange_pairwise_below_iff, ← Section.firstOverlap?_eq_none_iff]
  constructor
  · rintro ⟨image, h⟩
    obtain ⟨hnone, -⟩ := ofSections_eq_ok_iff.1 h
    exact hnone
  · intro hnone
    exact ⟨_, ofSections_eq_ok_iff.2 ⟨hnone, rfl⟩⟩

theorem sections_of_ofSections {sections : List Section} {metadata : Metadata} {image : Image}
    (h : ofSections sections metadata = .ok image) :
    image.sections.toList = Section.arrange sections := by
  obtain ⟨hnone, rfl⟩ := ofSections_eq_ok_iff.1 h
  rfl

theorem exists_build_iff {files : List (Path × Bytes)} {metadata : Option Metadata} :
    (∃ image, build files metadata = .ok image) ↔
      (∀ f ∈ files, HoldsSection f) ∧ files.Pairwise FilesApart := by
  constructor
  · rintro ⟨image, h⟩
    obtain ⟨sections, hfiles, himage⟩ := build_eq_ok_iff.1 h
    refine ⟨Section.holdsSection_of_ofFiles hfiles, ?_⟩
    exact (Section.pairwise_apart_iff hfiles).1 (exists_ofSections_iff.1 ⟨image, himage⟩)
  · rintro ⟨hall, hapart⟩
    obtain ⟨sections, hfiles⟩ := Section.ofFiles_of_forall hall
    obtain ⟨image, himage⟩ := exists_ofSections_iff.2 ((Section.pairwise_apart_iff hfiles).2 hapart)
    exact ⟨image, build_eq_ok_iff.2 ⟨sections, hfiles, himage⟩⟩

/-- The file of a section with at least one byte, and the identity in its name. -/
def inhabited? (file : Path × Bytes) : Option (Identity × Path × Bytes) :=
  match Identity.parse file.1 with
  | .ok id => if id.size = 0 then none else some (id, file)
  | .error _ => none

/-- The sections are those of the files that are not empty, one above the other. -/
structure LaidOut (files : List (Path × Bytes)) (sections : List Section) : Prop where
  /-- Each file's section is there once, with identity, path and bytes unchanged. -/
  complete : (sections.map fun s => (s.id, s.file)).Perm (files.filterMap inhabited?)
  ascending : ∀ n s t, sections[n]? = some s → sections[n + 1]? = some t → s.last < t.start
  length_data : ∀ s ∈ sections, s.data.length = s.size.toNat
  size_pos : ∀ s ∈ sections, 0 < s.size
  last_sub_start : ∀ s ∈ sections, s.last - s.start + 1 = s.size
  /-- The last address is reached without wrapping. -/
  toNat_last : ∀ s ∈ sections, s.last.toNat + 1 = s.start.toNat + s.size.toNat

theorem filterMap_inhabited? {sections : List Section}
    (h : ∀ s ∈ sections, Identity.parse s.path = .ok s.id) :
    (sections.map Section.file).filterMap inhabited? =
      (sections.filter fun s => !s.isEmpty).map fun s => (s.id, s.file) := by
  induction sections with
  | nil => rfl
  | cons s rest ih =>
    rw [List.forall_mem_cons] at h
    have hs : inhabited? s.file = if s.size = 0 then none else some (s.id, s.file) := by
      rw [inhabited?, Section.file, h.1]
      rfl
    rw [List.map_cons, List.filterMap_cons, hs, ih h.2]
    by_cases he : s.size = 0
    · simp [he, Section.isEmpty_iff.2 he]
    · simp [he, Section.isEmpty_eq_false_iff.2 he]

theorem laidOut_of_build {files : List (Path × Bytes)} {metadata : Option Metadata}
    {image : Image} (h : build files metadata = .ok image) :
    LaidOut files image.sections.toList := by
  obtain ⟨sections, hfiles, himage⟩ := build_eq_ok_iff.1 h
  obtain ⟨rfl, hparse⟩ := Section.ofFiles_eq_ok_iff.1 hfiles
  have hsize : ∀ s ∈ image.sections.toList, s.size ≠ 0 :=
    fun s hs => Section.isEmpty_eq_false_iff.1 (image.inhabited s hs)
  have hlast : ∀ s ∈ image.sections.toList,
      s.last.toNat + 1 = s.start.toNat + s.size.toNat := by
    intro s hs
    have hpos := Section.size_pos (hsize s hs)
    have hend := Section.toNat_last (hsize s hs)
    omega
  refine ⟨?_, ?_, fun s _ => s.length_data, fun s hs => UInt64.pos_iff_ne_zero.2 (hsize s hs),
    fun s hs => Section.last_sub_start (hsize s hs), hlast⟩
  · rw [filterMap_inhabited? hparse, sections_of_ofSections himage]
    exact (Section.arrange_perm sections).map _
  · intro n s t hs ht
    obtain ⟨hn, rfl⟩ := List.getElem?_eq_some_iff.1 hs
    obtain ⟨hn', rfl⟩ := List.getElem?_eq_some_iff.1 ht
    exact List.pairwise_iff_getElem.1 image.ordered n (n + 1) hn hn' (Nat.lt_succ_self n)

/-- Building succeeds exactly on files that all hold sections and lie apart, all
against all; it then lays out the sections of the files that are not empty. When
some file holds no section, the first such file is the fault, overlap or not. -/
theorem build_iff_apart (files : List (Path × Bytes)) (metadata : Option Metadata) :
    ((∃ image, build files metadata = .ok image) ↔
      (∀ f ∈ files, HoldsSection f) ∧ files.Pairwise FilesApart) ∧
    (∀ image, build files metadata = .ok image → LaidOut files image.sections.toList) ∧
    ((¬∀ f ∈ files, HoldsSection f) →
      ∃ pre f post fault, files = pre ++ f :: post ∧ (∀ g ∈ pre, HoldsSection g) ∧
        Section.ofFile f.1 f.2 = .error fault ∧
        build files metadata = .error (.sectionFile f.1 (.noSection fault))) := by
  refine ⟨exists_build_iff, fun image h => laidOut_of_build h, fun h => ?_⟩
  obtain ⟨pre, f, post, fault, hfiles, hpre, hf, herr⟩ := Section.ofFiles_of_not_forall h
  refine ⟨pre, f, post, fault, hfiles, hpre, hf, ?_⟩
  rw [build, herr]
  rfl

end Image
end SectionDump
