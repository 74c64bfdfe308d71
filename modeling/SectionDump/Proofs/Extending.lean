import SectionDump.Proofs.Querying

/-!
# Extending an image

One more file leaves all answers as they were. The new section lies apart from the
others, so wherever it stands among them an address that one of them has is found there
as before. Each other address is one of the new section or is found nowhere.
-/
namespace SectionDump

/-- A file among others adds its own section to theirs. -/
theorem Section.exists_of_ofFiles_insert {front back : List (Path × Bytes)} {f : Path × Bytes}
    {sections : List Section} (h : ofFiles (front ++ f :: back) = .ok sections) :
    ∃ before t after, sections = before ++ t :: after ∧ ofFile f.1 f.2 = .ok t ∧
      ofFiles (front ++ back) = .ok (before ++ after) := by
  obtain ⟨hfiles, hparse⟩ := ofFiles_eq_ok_iff.1 h
  obtain ⟨before, rest, rfl, hfront, hrest⟩ := List.map_eq_append_iff.1 hfiles
  obtain ⟨t, after, rfl, ht, hback⟩ := List.map_eq_cons_iff.1 hrest
  refine ⟨before, t, after, rfl, ?_, ?_⟩
  · exact ofFile_eq_ok_iff.2 ⟨ht, hparse t (by simp)⟩
  · refine ofFiles_eq_ok_iff.2 ⟨by rw [List.map_append, hfront, hback], ?_⟩
    intro s hs
    apply hparse s
    rcases List.mem_append.1 hs with hs | hs
    · exact List.mem_append_left _ hs
    · exact List.mem_append_right _ (List.mem_cons_of_mem _ hs)

namespace Image

theorem mem_sections_iff {sections : List Section} {metadata : Metadata} {image : Image}
    (h : ofSections sections metadata = .ok image) {s : Section} :
    s ∈ image.sections.toList ↔ s ∈ sections ∧ s.isEmpty = false := by
  rw [sections_of_ofSections h, Section.mem_arrange]

/-- The larger image answers as the smaller one does, except where this one has no
section and the added one has. -/
structure ExtendsBy (added : Section) (smaller larger : Image) : Prop where
  find_of_mapped : ∀ a s, smaller.find a = .ok s → larger.find a = .ok s
  read_of_mapped : ∀ a n, smaller.contains a = true → larger.read a n = smaller.read a n
  contains_of_unmapped : ∀ a, smaller.contains a = false →
    (larger.contains a = true ↔ added.id.Covers a.toNat)
  find_of_unmapped : ∀ a, smaller.contains a = false → added.id.Covers a.toNat →
    larger.find a = .ok added
  ask_of_metadata : ∀ q : Query, q.source = .metadata → larger.ask q = smaller.ask q

section Members

variable {added : Section} {smaller larger : Image}

theorem extendsBy_of_mem (hmem : ∀ s, s ∈ larger.sections.toList ↔
      s ∈ smaller.sections.toList ∨ s = added ∧ added.isEmpty = false)
    (hmetadata : SameMetadata larger smaller) : ExtendsBy added smaller larger := by
  have hfind : ∀ a s, smaller.find a = .ok s → larger.find a = .ok s := by
    intro a s hs
    obtain ⟨hold, ha⟩ := smaller.find_eq_ok_iff.1 hs
    exact larger.find_eq_ok_iff.2 ⟨(hmem s).2 (.inl hold), ha⟩
  have hadded : ∀ a, added.id.Covers a.toNat → larger.find a = .ok added := by
    intro a ha
    have hne : added.isEmpty = false := Section.isEmpty_eq_false_iff.2
      fun hsize => Identity.not_covers_of_size_eq_zero hsize _ ha
    exact larger.find_eq_ok_iff.2 ⟨(hmem added).2 (.inr ⟨rfl, hne⟩), ha⟩
  constructor
  case find_of_mapped => exact hfind
  case read_of_mapped =>
    intro a n hmapped
    obtain ⟨s, hs⟩ := smaller.contains_eq_true_iff.1 hmapped
    exact read_of_find_eq ((hfind a s hs).trans hs.symm) n
  case contains_of_unmapped =>
    intro a hunmapped
    rw [contains_eq_true_iff]
    constructor
    · rintro ⟨s, hs⟩
      obtain ⟨hnew, ha⟩ := larger.find_eq_ok_iff.1 hs
      rcases (hmem s).1 hnew with hold | ⟨rfl, -⟩
      · have hmapped := smaller.contains_eq_true_iff.2 ⟨s, smaller.find_eq_ok_iff.2 ⟨hold, ha⟩⟩
        rw [hunmapped] at hmapped
        cases hmapped
      · exact ha
    · intro ha
      exact ⟨added, hadded a ha⟩
  case find_of_unmapped => exact fun a _ ha => hadded a ha
  case ask_of_metadata => exact fun q hq => ask_of_sameMetadata hmetadata hq

end Members

/-- Files that make an image do so without any one of them, and the image with it answers
as the image without it at every address that the latter has. -/
theorem extendsBy_of_build_insert {front back : List (Path × Bytes)} {f : Path × Bytes}
    {metadata : Option Metadata} {larger : Image}
    (h : build (front ++ f :: back) metadata = .ok larger) :
    ∃ smaller added, build (front ++ back) metadata = .ok smaller ∧
      Section.ofFile f.1 f.2 = .ok added ∧ ExtendsBy added smaller larger := by
  obtain ⟨sections, hfiles, hlarger⟩ := build_eq_ok_iff.1 h
  obtain ⟨before, t, after, rfl, ht, hfewer⟩ := Section.exists_of_ofFiles_insert hfiles
  have hapart : (before ++ t :: after).Pairwise Section.Apart :=
    exists_ofSections_iff.1 ⟨larger, hlarger⟩
  have hsublist : (before ++ after).Sublist (before ++ t :: after) :=
    (List.sublist_cons_self t after).append_left before
  obtain ⟨smaller, hsmaller⟩ :
      ∃ smaller, ofSections (before ++ after) (metadata.getD .empty) = .ok smaller :=
    exists_ofSections_iff.2 (hapart.sublist hsublist)
  have hbuild : build (front ++ back) metadata = .ok smaller :=
    build_eq_ok_iff.2 ⟨_, hfewer, hsmaller⟩
  refine ⟨smaller, t, hbuild, ht, extendsBy_of_mem ?_ (sameMetadata_of_build h hbuild)⟩
  intro s
  rw [mem_sections_iff hlarger, mem_sections_iff hsmaller]
  simp only [List.mem_append, List.mem_cons]
  constructor
  · rintro ⟨hs | rfl | hs, hne⟩
    · exact .inl ⟨.inl hs, hne⟩
    · exact .inr ⟨rfl, hne⟩
    · exact .inl ⟨.inr hs, hne⟩
  · rintro (⟨hs | hs, hne⟩ | ⟨rfl, hne⟩)
    · exact ⟨.inl hs, hne⟩
    · exact ⟨.inr (.inr hs), hne⟩
    · exact ⟨.inr (.inl rfl), hne⟩

/-! A section with neighbours on both sides of it and an empty one inside of it. -/

def outerFiles : List (Path × Bytes) := [("text-1000-2-0-rx.bin".toList, [1, 2])]

def innerFile : Path × Bytes := ("rodata-1002-2-2-r.bin".toList, [3, 4])

def otherFiles : List (Path × Bytes) :=
  [("data-1004-1-4-rw.bin".toList, [5]), ("bss-1003-0-5-rw.bin".toList, [])]

theorem extendsBy_of_build_insert_between :
    ∃ larger, build (outerFiles ++ innerFile :: otherFiles) none = .ok larger ∧
      ∃ smaller added, build (outerFiles ++ otherFiles) none = .ok smaller ∧
        Section.ofFile innerFile.1 innerFile.2 = .ok added ∧ ExtendsBy added smaller larger ∧
        smaller.contains 0x1003 = false ∧ larger.find 0x1003 = .ok added := by
  have hlarger : (build (outerFiles ++ innerFile :: otherFiles) none).toOption.map
      (fun image => image.contains 0x1003) = some true := by decide +kernel
  have hsmaller : (build (outerFiles ++ otherFiles) none).toOption.map
      (fun image => image.contains 0x1003) = some false := by decide +kernel
  have hinner : (Section.ofFile innerFile.1 innerFile.2).toOption.map
      (fun s => s.contains 0x1003) = some true := by decide +kernel
  obtain ⟨larger, hbuild, -⟩ := toOption_map_eq_some_iff.1 hlarger
  obtain ⟨smaller, added, hsmall, hadded, hextends⟩ := extendsBy_of_build_insert hbuild
  rw [hsmall] at hsmaller
  rw [hadded] at hinner
  have hunmapped : smaller.contains 0x1003 = false := Option.some.inj hsmaller
  have hcovers : added.id.Covers (0x1003 : UInt64).toNat :=
    Section.contains_iff_covers.1 (Option.some.inj hinner)
  exact ⟨larger, hbuild, smaller, added, hsmall, hadded, hextends, hunmapped,
    hextends.find_of_unmapped _ hunmapped hcovers⟩

end Image
end SectionDump
