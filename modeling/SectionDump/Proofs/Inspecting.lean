import Mathlib.Data.List.Pairwise
import SectionDump.Inspection
import SectionDump.Proofs.Classifying
import SectionDump.Proofs.Loading

/-!
# Inspecting

A request is answered when it is settled what to report, the scan decides on the metadata
and finds a section file, and the section files and the metadata file in use make an image.
Every other request fails and says nothing on the output. A load reads the listed files
only, so a metadata file that the request names makes the others irrelevant, except that
the scan must still decide among them: where it cannot, the named file is never looked at.
-/
namespace SectionDump

namespace Dump

/-! ## What is read -/

section Reading

variable {fs fs' : FileSystem} {d : Dump}

theorem mapFile_eq_ok_iff {path : Path} {data : Bytes} :
    fs.mapFile path = .ok data ↔ fs.contents path = .ok data := by
  rw [FileSystem.mapFile]
  cases fs.contents path <;> simp [Except.mapError]

theorem exists_readSections_iff {paths : List Path} :
    (∃ files, readSections fs paths = .ok files) ↔
      ∀ p ∈ paths, ∃ data, fs.contents p = .ok data := by
  constructor
  · intro h
    induction paths with
    | nil => simp
    | cons p rest ih =>
      obtain ⟨files, hfiles⟩ := h
      rw [readSections] at hfiles
      cases hp : fs.mapFile p with
      | error fault =>
        rw [hp] at hfiles
        cases hfiles
      | ok data =>
        rw [hp] at hfiles
        obtain ⟨more, hmore, -⟩ := map_eq_ok_iff.1 hfiles
        exact List.forall_mem_cons.2 ⟨⟨data, mapFile_eq_ok_iff.1 hp⟩, ih ⟨more, hmore⟩⟩
  · intro h
    exact ⟨_, readSections_eq h⟩

theorem readSections_congr {paths : List Path}
    (h : ∀ p ∈ paths, fs'.contents p = fs.contents p) :
    readSections fs' paths = readSections fs paths := by
  induction paths with
  | nil => rfl
  | cons p rest ih =>
    rw [List.forall_mem_cons] at h
    rw [readSections, readSections, FileSystem.mapFile, FileSystem.mapFile, h.1, ih h.2]

theorem readMetadata_congr {path : Path} (h : fs'.contents path = fs.contents path) :
    readMetadata fs' (some path) = readMetadata fs (some path) := by
  rw [readMetadata, readMetadata, FileSystem.readText, FileSystem.readText, h]

/-- A load depends on the listed files and on no others. -/
theorem load_congr (hsections : ∀ p ∈ d.sectionFiles, fs'.contents p = fs.contents p)
    (hmetadata : ∀ p ∈ d.metadataFile, fs'.contents p = fs.contents p) :
    load fs' d = load fs d := by
  have hread : readMetadata fs' d.metadataFile = readMetadata fs d.metadataFile := by
    cases hfile : d.metadataFile with
    | none => rfl
    | some path => exact readMetadata_congr (hmetadata path hfile)
  rw [load, load, readSections_congr hsections, hread]

theorem load_eq_ok_iff {image : Image} : load fs d = .ok image ↔
    ∃ files metadata, readSections fs d.sectionFiles = .ok files ∧
      readMetadata fs d.metadataFile = .ok metadata ∧ Image.build files metadata = .ok image := by
  rw [load, bind_eq_ok_iff]
  constructor
  · rintro ⟨files, hfiles, h⟩
    obtain ⟨metadata, hmetadata, hbuild⟩ := bind_eq_ok_iff.1 h
    exact ⟨files, metadata, hfiles, hmetadata, hbuild⟩
  · rintro ⟨files, metadata, hfiles, hmetadata, hbuild⟩
    exact ⟨files, hfiles, bind_eq_ok_iff.2 ⟨metadata, hmetadata, hbuild⟩⟩

end Reading

/-! ## Section files and candidates -/

section Entries

variable {fs fs' : FileSystem} {root : Path} {entries entries' : List DirectoryEntry}

/-- A regular file of the directory is named as a section file. -/
def ListsSection (entries : List DirectoryEntry) (n : Text) : Prop :=
  Lists entries n ∧ Identity.isDumpName n = true

def sectionNames (entries : List DirectoryEntry) : List Text :=
  namesOf .sectionFile (fileNames entries)

theorem mem_sectionNames_iff {n : Text} : n ∈ sectionNames entries ↔ ListsSection entries n := by
  rw [sectionNames, mem_namesOf_iff, role_eq_sectionFile_iff, ListsSection]

theorem sectionNames_ne_nil_iff : sectionNames entries ≠ [] ↔ ∃ n, ListsSection entries n := by
  constructor
  · intro h
    obtain ⟨n, hn⟩ := List.exists_mem_of_ne_nil _ h
    exact ⟨n, mem_sectionNames_iff.1 hn⟩
  · rintro ⟨n, hn⟩
    exact List.ne_nil_of_mem (mem_sectionNames_iff.2 hn)

/-- There are several candidates for the metadata and none of them is preferred. -/
def Ambiguous (entries : List DirectoryEntry) : Prop :=
  ¬Candidate entries preferredMetadata ∧
    ∃ m n, m ≠ n ∧ Candidate entries m ∧ Candidate entries n

theorem Chosen.ambiguous_of_error {fault : LoadFault}
    (h : Chosen root (Candidate entries) (.error fault)) : Ambiguous entries := by
  cases h with
  | several hpreferred hm hn hlt _ =>
    refine ⟨hpreferred, _, _, ?_, hm, hn⟩
    rintro rfl
    exact List.lt_irrefl _ hlt

theorem Chosen.not_ambiguous_of_ok {metadataFile : Option Path}
    (h : Chosen root (Candidate entries) (.ok metadataFile)) : ¬Ambiguous entries := by
  rintro ⟨hpreferred, m, n, hne, hm, hn⟩
  cases h with
  | preferred hpreferred' => exact hpreferred hpreferred'
  | only honly => exact hne (((honly m).1 hm).trans ((honly n).1 hn).symm)
  | none hnone => exact hnone m hm

/-- The scan fails exactly where it cannot decide on the metadata. -/
theorem scan_of_ambiguous (hdistinct : (entries.map DirectoryEntry.name).Nodup)
    (hentries : fs.entries root = .ok entries) (h : Ambiguous entries) :
    ∃ fault, scan fs root = .error fault := by
  have hchosen := chosen_of_entries root hdistinct
  rw [scan_eq_classify hentries (.refl _), classify]
  cases hchoice : chooseMetadata root (namesOf .metadataFile (fileNames entries)) with
  | error fault => exact ⟨fault, rfl⟩
  | ok metadataFile =>
    rw [hchoice] at hchosen
    exact absurd h hchosen.not_ambiguous_of_ok

theorem scan_of_not_ambiguous (hdistinct : (entries.map DirectoryEntry.name).Nodup)
    (hentries : fs.entries root = .ok entries) (h : ¬Ambiguous entries) :
    ∃ metadataFile, scan fs root =
      .ok ⟨root, (sectionNames entries).map (Path.child root), metadataFile⟩ := by
  have hchosen := chosen_of_entries root hdistinct
  rw [scan_eq_classify hentries (.refl _), classify]
  cases hchoice : chooseMetadata root (namesOf .metadataFile (fileNames entries)) with
  | error fault =>
    rw [hchoice] at hchosen
    exact absurd hchosen.ambiguous_of_error h
  | ok metadataFile => exact ⟨metadataFile, rfl⟩

/-- The path of a file in a directory, and what it gives. -/
def fileAt (fs : FileSystem) (root : Path) (n : Text) : Path × Bytes :=
  (Path.child root n, bytesOf fs (Path.child root n))

/-- The section files of a directory make an image: each can be read and holds its
section, and no two have an address in common. -/
structure Loadable (fs : FileSystem) (root : Path) (entries : List DirectoryEntry) : Prop where
  readable : ∀ n, ListsSection entries n → ∃ data, fs.contents (Path.child root n) = .ok data
  held : ∀ n, ListsSection entries n → HoldsSection (fileAt fs root n)
  apart : ∀ m n, ListsSection entries m → ListsSection entries n → m ≠ n →
    FilesApart (fileAt fs root m) (fileAt fs root n)

theorem sectionNames_pairwise_apart_iff (hdistinct : (entries.map DirectoryEntry.name).Nodup) :
    ((sectionNames entries).Pairwise fun m n =>
      FilesApart (fileAt fs root m) (fileAt fs root n)) ↔
      ∀ m n, ListsSection entries m → ListsSection entries n → m ≠ n →
        FilesApart (fileAt fs root m) (fileAt fs root n) := by
  constructor
  · intro h m n hm hn hne
    have hsymm : Std.Symm fun m n => FilesApart (fileAt fs root m) (fileAt fs root n) :=
      ⟨fun _ _ => FilesApart.symm⟩
    exact h.forall (mem_sectionNames_iff.2 hm) (mem_sectionNames_iff.2 hn) hne
  · intro h
    have hascending : Ascending (sectionNames entries) := namesOf_ascending .sectionFile hdistinct
    refine hascending.imp_of_mem ?_
    intro m n hm hn hlt
    refine h m n (mem_sectionNames_iff.1 hm) (mem_sectionNames_iff.1 hn) ?_
    rintro rfl
    exact List.lt_irrefl _ hlt

theorem exists_build_fileAt_iff (hdistinct : (entries.map DirectoryEntry.name).Nodup)
    {metadata : Option Metadata} :
    (∃ image, Image.build ((sectionNames entries).map (fileAt fs root)) metadata = .ok image) ↔
      (∀ n, ListsSection entries n → HoldsSection (fileAt fs root n)) ∧
        ∀ m n, ListsSection entries m → ListsSection entries n → m ≠ n →
          FilesApart (fileAt fs root m) (fileAt fs root n) := by
  rw [Image.exists_build_iff, List.forall_mem_map, List.pairwise_map,
    sectionNames_pairwise_apart_iff hdistinct]
  simp only [mem_sectionNames_iff]

theorem readSections_sectionNames_eq
    (h : ∀ n, ListsSection entries n → ∃ data, fs.contents (Path.child root n) = .ok data) :
    readSections fs ((sectionNames entries).map (Path.child root)) =
      .ok ((sectionNames entries).map (fileAt fs root)) := by
  have hreadable : ∀ p ∈ (sectionNames entries).map (Path.child root),
      ∃ data, fs.contents p = .ok data := by
    rw [List.forall_mem_map]
    exact fun n hn => h n (mem_sectionNames_iff.1 hn)
  rw [readSections_eq hreadable, List.map_map]
  rfl

/-- With metadata that can be read it is left to the section files whether a load
succeeds. -/
theorem exists_load_iff (hdistinct : (entries.map DirectoryEntry.name).Nodup)
    {metadataFile : Option Path} {metadata : Option Metadata}
    (hmetadata : readMetadata fs metadataFile = .ok metadata) :
    (∃ image, load fs ⟨root, (sectionNames entries).map (Path.child root), metadataFile⟩ =
      .ok image) ↔ Loadable fs root entries := by
  constructor
  · rintro ⟨image, hload⟩
    obtain ⟨files, m, hread, hm, himage⟩ := load_eq_ok_iff.1 hload
    have hreadable : ∀ n, ListsSection entries n →
        ∃ data, fs.contents (Path.child root n) = .ok data := fun n hn =>
      exists_readSections_iff.1 ⟨files, hread⟩ _
        (List.mem_map_of_mem (mem_sectionNames_iff.2 hn))
    rw [readSections_sectionNames_eq hreadable, Except.ok.injEq] at hread
    rw [hmetadata, Except.ok.injEq] at hm
    subst hread hm
    obtain ⟨hheld, hapart⟩ := (exists_build_fileAt_iff hdistinct).1 ⟨image, himage⟩
    exact ⟨hreadable, hheld, hapart⟩
  · rintro ⟨hreadable, hheld, hapart⟩
    obtain ⟨image, himage⟩ := (exists_build_fileAt_iff hdistinct).2 ⟨hheld, hapart⟩
    exact ⟨image, load_eq_ok_iff.2
      ⟨_, metadata, readSections_sectionNames_eq hreadable, hmetadata, himage⟩⟩

/-- Two machines have the same section files in a directory. What else lies there may
differ. -/
structure SameSections (root : Path) (fs fs' : FileSystem)
    (entries entries' : List DirectoryEntry) : Prop where
  listed : fs.entries root = .ok entries
  listed' : fs'.entries root = .ok entries'
  distinct : (entries.map DirectoryEntry.name).Nodup
  distinct' : (entries'.map DirectoryEntry.name).Nodup
  names : ∀ n, ListsSection entries' n ↔ ListsSection entries n
  contents : ∀ n, ListsSection entries n →
    fs'.contents (Path.child root n) = fs.contents (Path.child root n)

theorem SameSections.sectionNames_eq (h : SameSections root fs fs' entries entries') :
    sectionNames entries' = sectionNames entries := by
  refine Ascending.eq_of_mem_iff (namesOf_ascending .sectionFile h.distinct')
    (namesOf_ascending .sectionFile h.distinct) ?_
  intro n
  exact mem_sectionNames_iff.trans ((h.names n).trans mem_sectionNames_iff.symm)

theorem SameSections.load_eq (h : SameSections root fs fs' entries entries') {path : Path}
    (hpath : fs'.contents path = fs.contents path) :
    load fs' ⟨root, (sectionNames entries).map (Path.child root), some path⟩ =
      load fs ⟨root, (sectionNames entries).map (Path.child root), some path⟩ := by
  apply load_congr
  · intro p hp
    obtain ⟨n, hn, rfl⟩ := List.mem_map.1 hp
    exact h.contents n (mem_sectionNames_iff.1 hn)
  · rintro p ⟨⟩
    exact hpath

end Entries

end Dump

namespace Inspection

/-! ## What is answered -/

/-- The dump that a request is about has section files, and they load as the image. -/
def Shows (fs : FileSystem) (request : Request) (image : Image) : Prop :=
  ∃ found, Dump.scan fs request.directory = .ok found ∧ found.sectionFiles ≠ [] ∧
    (dumpOf request found).load fs = .ok image

section Answers

variable {setting : Setting} {fs fs' : FileSystem} {request : Request} {image : Image}

theorem inspectDump_of_shows (h : Shows fs request image) :
    inspectDump fs request = ⟨0, unlines (answers image request), []⟩ := by
  obtain ⟨found, hscan, hfiles, hload⟩ := h
  rw [inspectDump, hscan]
  simp only [if_neg hfiles, hload]

theorem inspectDump_of_not_shows (h : ∀ image, ¬Shows fs request image) :
    (inspectDump fs request).exitCode = 1 ∧ (inspectDump fs request).output = [] := by
  rw [inspectDump]
  split
  · exact ⟨rfl, rfl⟩
  · rename_i found hscan
    split
    · exact ⟨rfl, rfl⟩
    · rename_i hfiles
      split
      · exact ⟨rfl, rfl⟩
      · rename_i image hload
        exact absurd ⟨found, hscan, hfiles, hload⟩ (h image)

theorem inspect_of_takes (h : setting.Takes request.logLevel) :
    inspect setting fs request = inspectDump fs request := by
  rw [inspect, Setting.levelRefusal?_eq_none_iff.2 h]

/-- A level that is refused is reported with what led to that. -/
theorem inspect_of_refused {refusal : Refusal}
    (h : setting.levelRefusal? request.logLevel = some refusal) :
    inspect setting fs request = failure "invalid log level".toList refusal.chain := by
  rw [inspect, h]

/-- The program has an answer where it is told what to report and an image is shown. -/
def Answered (setting : Setting) (fs : FileSystem) (request : Request) (image : Image) : Prop :=
  setting.Takes request.logLevel ∧ Shows fs request image

theorem inspect_of_answered (h : Answered setting fs request image) :
    inspect setting fs request = ⟨0, unlines (answers image request), []⟩ := by
  rw [inspect_of_takes h.1, inspectDump_of_shows h.2]

/-- Everywhere else it fails, with no output. -/
theorem inspect_of_not_answered (h : ∀ image, ¬Answered setting fs request image) :
    (inspect setting fs request).exitCode = 1 ∧ (inspect setting fs request).output = [] := by
  cases hlevel : setting.levelRefusal? request.logLevel with
  | some refusal =>
    rw [inspect_of_refused hlevel]
    exact ⟨rfl, rfl⟩
  | none =>
    have htakes := Setting.levelRefusal?_eq_none_iff.1 hlevel
    rw [inspect_of_takes htakes]
    exact inspectDump_of_not_shows fun image hshows => h image ⟨htakes, hshows⟩

theorem run_of_parse {args : List Text} (h : CommandLine.parse args = .ok (.inspect request)) :
    run setting fs args = inspect setting fs request := by
  rw [run, h]

/-- The same exit code and the same output. Reports may differ. -/
def Outcome.SameAnswer (o o' : Outcome) : Prop := o'.exitCode = o.exitCode ∧ o'.output = o.output

theorem sameAnswer_iff
    (hagree : ∀ image image', Answered setting fs request image →
      Answered setting fs' request image' → image' = image) :
    (inspect setting fs request).SameAnswer (inspect setting fs' request) ↔
      ((∃ image, Answered setting fs' request image) ↔
        ∃ image, Answered setting fs request image) := by
  by_cases hfirst : ∃ image, Answered setting fs request image <;>
    by_cases hsecond : ∃ image, Answered setting fs' request image
  · obtain ⟨image, himage⟩ := hfirst
    obtain ⟨image', himage'⟩ := hsecond
    obtain rfl := hagree image image' himage himage'
    rw [inspect_of_answered himage, inspect_of_answered himage']
    simp only [Outcome.SameAnswer, true_and, true_iff]
    exact ⟨fun _ => ⟨_, himage⟩, fun _ => ⟨_, himage'⟩⟩
  · obtain ⟨image, himage⟩ := hfirst
    have hfails := inspect_of_not_answered (not_exists.1 hsecond)
    rw [inspect_of_answered himage, Outcome.SameAnswer, hfails.1]
    simp [hsecond, show ∃ image, Answered setting fs request image from ⟨image, himage⟩]
  · obtain ⟨image', himage'⟩ := hsecond
    have hfails := inspect_of_not_answered (not_exists.1 hfirst)
    rw [inspect_of_answered himage', Outcome.SameAnswer, hfails.1]
    simp [hfirst, show ∃ image, Answered setting fs' request image from ⟨image', himage'⟩]
  · have hfails := inspect_of_not_answered (not_exists.1 hfirst)
    have hfails' := inspect_of_not_answered (not_exists.1 hsecond)
    simp only [Outcome.SameAnswer, hfails, hfails', hfirst, hsecond, and_self]

end Answers

end Inspection
end SectionDump
