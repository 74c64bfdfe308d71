import SectionDump.Proofs.Overlaps

/-!
# Reordering

In whatever order the same files come, they make the same image or none. Sections
that lie apart have one ascending order only. Where two share an address, the least
such address is reported in every order, and where a file holds no section, one such
file is.
-/
namespace SectionDump

namespace Section

/-- The sections are those of the files, one by one, so they are reordered with them. -/
theorem eq_filterMap_of_ofFiles {files : List (Path × Bytes)} {sections : List Section}
    (h : ofFiles files = .ok sections) :
    sections = files.filterMap fun f => (ofFile f.1 f.2).toOption := by
  obtain ⟨rfl, hparse⟩ := ofFiles_eq_ok_iff.1 h
  have hself : ∀ s ∈ sections,
      ((fun f : Path × Bytes => (ofFile f.1 f.2).toOption) ∘ file) s = some s := by
    intro s hs
    have hok : ofFile s.path s.data = .ok s := ofFile_eq_ok_iff.2 ⟨rfl, hparse s hs⟩
    simp only [Function.comp_apply, file, hok, Except.toOption]
  rw [List.filterMap_map, List.filterMap_congr hself, List.filterMap_some]

theorem perm_of_ofFiles {files files' : List (Path × Bytes)} {sections sections' : List Section}
    (h : files.Perm files') (hs : ofFiles files = .ok sections)
    (hs' : ofFiles files' = .ok sections') : sections.Perm sections' := by
  rw [eq_filterMap_of_ofFiles hs, eq_filterMap_of_ofFiles hs']
  exact h.filterMap _

theorem Below.asymm {s t : Section} (h : s.Below t) (h' : t.Below s) : False :=
  UInt64.lt_irrefl _ (UInt64.lt_of_lt_of_le (h.trans h') s.start_le_last)

/-- Sections that lie apart can be arranged in one way only. -/
theorem arrange_eq_of_perm {sections sections' : List Section} (h : sections.Perm sections')
    (hapart : sections.Pairwise Apart) : arrange sections = arrange sections' := by
  have hapart' : sections'.Pairwise Apart :=
    (h.pairwise_iff fun hst => Identity.Apart.symm hst).1 hapart
  have hperm : (arrange sections).Perm (arrange sections') :=
    (arrange_perm sections).trans ((h.filter _).trans (arrange_perm sections').symm)
  have hantisymm : ∀ s t : Section, s ∈ arrange sections → t ∈ arrange sections' →
      s.Below t → t.Below s → s = t := fun s t _ _ hst hts => (hst.asymm hts).elim
  exact hperm.eq_of_pairwise hantisymm ((arrange_pairwise_below_iff sections).2 hapart)
    ((arrange_pairwise_below_iff sections').2 hapart')

end Section

namespace Image

/-- Two outcomes of building that differ in the names in a fault at most. -/
inductive Alike (files : List (Path × Bytes)) :
    Except LoadFault Image → Except LoadFault Image → Prop where
  | built (image : Image) : Alike files (.ok image) (.ok image)
  /-- Each fault is that of a file which holds no section. -/
  | badFile {f g : Path × Bytes} {fault fault' : SectionFault} :
      f ∈ files → Section.ofFile f.1 f.2 = .error fault →
      g ∈ files → Section.ofFile g.1 g.2 = .error fault' →
        Alike files (.error (.sectionFile f.1 (.noSection fault)))
          (.error (.sectionFile g.1 (.noSection fault')))
  | overlap (first second first' second' : Text) (a : UInt64) :
      Alike files (.error (.overlap first second a)) (.error (.overlap first' second' a))

theorem ofArranged_congr {sections sections' : List Section} (e : sections = sections')
    (h : Section.firstOverlap? sections = none) (h' : Section.firstOverlap? sections' = none)
    (inhabited : ∀ s ∈ sections, s.isEmpty = false)
    (inhabited' : ∀ s ∈ sections', s.isEmpty = false) (metadata : Metadata) :
    ofArranged sections h inhabited metadata = ofArranged sections' h' inhabited' metadata := by
  subst e
  rfl

theorem ofSections_perm {sections sections' : List Section} (h : sections.Perm sections')
    (metadata : Metadata) {image image' : Image} (himage : ofSections sections metadata = .ok image)
    (himage' : ofSections sections' metadata = .ok image') : image = image' := by
  have hapart := exists_ofSections_iff.1 ⟨image, himage⟩
  obtain ⟨hnone, rfl⟩ := ofSections_eq_ok_iff.1 himage
  obtain ⟨hnone', rfl⟩ := ofSections_eq_ok_iff.1 himage'
  exact ofArranged_congr (Section.arrange_eq_of_perm h hapart) _ _ _ _ _

theorem exists_ofSections_perm {sections sections' : List Section} (h : sections.Perm sections')
    (metadata : Metadata) : (∃ image, ofSections sections metadata = .ok image) ↔
      ∃ image, ofSections sections' metadata = .ok image := by
  rw [exists_ofSections_iff, exists_ofSections_iff]
  exact h.pairwise_iff fun hst => Identity.Apart.symm hst

theorem alike_of_sections {files : List (Path × Bytes)} {sections sections' : List Section}
    (h : sections.Perm sections') (metadata : Metadata) :
    Alike files (ofSections sections metadata) (ofSections sections' metadata) := by
  cases hbuilt : ofSections sections metadata with
  | ok image =>
    obtain ⟨image', hbuilt'⟩ := (exists_ofSections_perm h metadata).1 ⟨image, hbuilt⟩
    rw [hbuilt', ofSections_perm h metadata hbuilt hbuilt']
    exact .built image'
  | error fault =>
    cases hbuilt' : ofSections sections' metadata with
    | ok image' =>
      obtain ⟨image, he⟩ := (exists_ofSections_perm h metadata).2 ⟨image', hbuilt'⟩
      rw [hbuilt] at he
      cases he
    | error fault' =>
      obtain ⟨s, t, -, rfl, hfirst⟩ := exists_of_ofSections_error hbuilt
      obtain ⟨s', t', -, rfl, hfirst'⟩ := exists_of_ofSections_error hbuilt'
      rw [(hfirst.perm h).unique hfirst']
      exact .overlap _ _ _ _ _

/-- The order of the files decides at most which names a fault carries. -/
theorem build_alike_of_perm {files files' : List (Path × Bytes)} (h : files.Perm files')
    (metadata : Option Metadata) :
    Alike files (build files metadata) (build files' metadata) := by
  by_cases hall : ∀ f ∈ files, HoldsSection f
  · have hall' : ∀ f ∈ files', HoldsSection f := fun f hf => hall f (h.mem_iff.2 hf)
    obtain ⟨sections, hs⟩ := Section.ofFiles_of_forall hall
    obtain ⟨sections', hs'⟩ := Section.ofFiles_of_forall hall'
    rw [build, build, hs, hs']
    exact alike_of_sections (Section.perm_of_ofFiles h hs hs') _
  · have hall' : ¬∀ f ∈ files', HoldsSection f :=
      fun hforall => hall fun f hf => hforall f (h.mem_iff.1 hf)
    obtain ⟨pre, f, post, fault, rfl, -, hf, hs⟩ := Section.ofFiles_of_not_forall hall
    obtain ⟨pre', g, post', fault', rfl, -, hg, hs'⟩ := Section.ofFiles_of_not_forall hall'
    rw [build, build, hs, hs']
    exact .badFile (by simp) hf (h.mem_iff.2 (by simp)) hg

/-- Two sections that start together, with a third in the second half of both. -/
def overlappingFiles : List (Path × Bytes) := [
  ("b-1000-4-0-r.bin".toList, [1, 2, 3, 4]),
  ("c-1002-1-0-r.bin".toList, [5]),
  ("a-1000-4-0-r.bin".toList, [6, 7, 8, 9])]

theorem build_alike_of_reverse :
    overlappingFiles.Perm overlappingFiles.reverse ∧
      Alike overlappingFiles (build overlappingFiles none)
        (build overlappingFiles.reverse none) ∧
      build overlappingFiles none = .error (.overlap "b".toList "a".toList 0x1000) ∧
      build overlappingFiles.reverse none =
        .error (.overlap "a".toList "b".toList 0x1000) := by
  have hperm : overlappingFiles.Perm overlappingFiles.reverse := (List.reverse_perm _).symm
  exact ⟨hperm, build_alike_of_perm hperm none, rfl, rfl⟩

end Image
end SectionDump
