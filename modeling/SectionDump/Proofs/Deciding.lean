import SectionDump.Proofs.Inspecting
import SectionDump.Proofs.Keeping

/-!
# What decides a load

A load asks for the listed section files first, in their order, then for the metadata
file, and looks at names, sizes and ranges last of all. The first thing amiss is the
fault, so a file that cannot be read hides all that is wrong with the metadata, and the
metadata hides bad names and overlaps. Nothing that is not listed takes part.
-/
namespace SectionDump

namespace Dump

def Readable (fs : FileSystem) (path : Path) : Prop := ∃ data, fs.contents path = .ok data

/-- The files of these paths, in this order, with the bytes that they have now. -/
def Current (fs : FileSystem) (paths : List Path) (files : List (Path × Bytes)) : Prop :=
  List.Forall₂ (fun path file => file.1 = path ∧ fs.contents path = .ok file.2) paths files

/-- The metadata that a file states, when there is a file. -/
inductive Stated (fs : FileSystem) : Option Path → Option Metadata → Prop where
  | none : Stated fs none none
  | some {path : Path} {text : Text} {m : Metadata} :
      fs.contents path = .ok (Utf8.encode text) → Metadata.parse text = .ok m →
        Stated fs (some path) (some m)

/-- What comes of a load, in the order in which it is decided. -/
inductive Decided (fs : FileSystem) (d : Dump) : Except LoadFault Image → Prop where
  /-- The first listed file that is not to be had. -/
  | missing {front back : List Path} {path : Path} {fault : IoFault} :
      d.sectionFiles = front ++ path :: back → (∀ p ∈ front, Readable fs p) →
      fs.contents path = .error fault →
        Decided fs d (.error (.sectionFile path (.unreadable path fault)))
  | metadataUnreadable {path : Path} {fault : IoFault} : (∀ p ∈ d.sectionFiles, Readable fs p) →
      d.metadataFile = some path → fs.contents path = .error fault →
        Decided fs d (.error (.unreadable path fault))
  | metadataNotText {path : Path} {bytes : Bytes} : (∀ p ∈ d.sectionFiles, Readable fs p) →
      d.metadataFile = some path → fs.contents path = .ok bytes →
      (∀ text, bytes ≠ Utf8.encode text) →
        Decided fs d (.error (.unreadable path .notText))
  | metadataRefused {path : Path} {text : Text} {fault : MetadataFault} :
      (∀ p ∈ d.sectionFiles, Readable fs p) → d.metadataFile = some path →
      fs.contents path = .ok (Utf8.encode text) → Metadata.parse text = .error fault →
        Decided fs d (.error (.metadata fault))
  | built {files : List (Path × Bytes)} {metadata : Option Metadata} :
      Current fs d.sectionFiles files → Stated fs d.metadataFile metadata →
        Decided fs d (Image.build files metadata)

section Reading

variable {fs : FileSystem} {paths : List Path} {files : List (Path × Bytes)}

theorem current_of_readable (h : ∀ p ∈ paths, Readable fs p) :
    Current fs paths (paths.map fun p => (p, bytesOf fs p)) := by
  induction paths with
  | nil => exact .nil
  | cons p rest ih =>
    rw [List.forall_mem_cons] at h
    obtain ⟨data, hdata⟩ := h.1
    have hbytes : bytesOf fs p = data := by
      rw [bytesOf, hdata]
    refine .cons ⟨rfl, ?_⟩ (ih h.2)
    show fs.contents p = .ok (bytesOf fs p)
    rw [hbytes, hdata]

theorem readSections_of_current (h : Current fs paths files) :
    readSections fs paths = .ok files := by
  induction h with
  | nil => rfl
  | @cons path file rest others hfile _ ih =>
    obtain ⟨rfl, hdata⟩ := hfile
    rw [readSections, mapFile_eq_ok_iff.2 hdata, ih]
    rfl

/-- The first file that cannot be read decides, whatever comes after it. -/
theorem readSections_of_missing {front back : List Path} {path : Path} {fault : IoFault}
    (hfront : ∀ p ∈ front, Readable fs p) (hfault : fs.contents path = .error fault)
    (hfile : fault ≠ .isADirectory) :
    readSections fs (front ++ path :: back) =
      .error (.sectionFile path (.unreadable path fault)) := by
  induction front with
  | nil =>
    have hmap : fs.mapFile path = .error fault := by
      rw [FileSystem.mapFile, hfault]
      cases fault with
      | isADirectory => exact absurd rfl hfile
      | _ => rfl
    rw [List.nil_append, readSections, hmap]
  | cons p rest ih =>
    rw [List.forall_mem_cons] at hfront
    obtain ⟨data, hdata⟩ := hfront.1
    rw [List.cons_append, readSections, mapFile_eq_ok_iff.2 hdata, ih hfront.2]
    rfl

theorem readable_or_missing (fs : FileSystem) (paths : List Path) :
    (∀ p ∈ paths, Readable fs p) ∨ ∃ front path back fault, paths = front ++ path :: back ∧
      (∀ p ∈ front, Readable fs p) ∧ fs.contents path = .error fault := by
  induction paths with
  | nil => exact .inl (by simp)
  | cons p rest ih =>
    cases hp : fs.contents p with
    | error fault => exact .inr ⟨[], p, rest, fault, rfl, by simp, hp⟩
    | ok data =>
      rcases ih with hall | ⟨front, path, back, fault, rfl, hfront, hfault⟩
      · exact .inl (List.forall_mem_cons.2 ⟨⟨data, hp⟩, hall⟩)
      · exact .inr ⟨p :: front, path, back, fault, rfl,
          List.forall_mem_cons.2 ⟨⟨data, hp⟩, hfront⟩, hfault⟩

theorem readMetadata_of_stated {file : Option Path} {metadata : Option Metadata}
    (h : Stated fs file metadata) : readMetadata fs file = .ok metadata := by
  cases h with
  | none => rfl
  | some htext hparse =>
    simp only [readMetadata, FileSystem.readText, htext, Utf8.decode?_encode, hparse]

end Reading

section Loading

variable {fs : FileSystem} {d : Dump} {outcome : Except LoadFault Image}

theorem load_of_readable (h : ∀ p ∈ d.sectionFiles, Readable fs p) :
    load fs d = (readMetadata fs d.metadataFile).bind fun metadata =>
      Image.build (d.sectionFiles.map fun p => (p, bytesOf fs p)) metadata := by
  rw [load, readSections_of_current (current_of_readable h)]
  rfl

theorem load_of_decided (hfiles : ∀ p ∈ d.sectionFiles, fs.contents p ≠ .error .isADirectory)
    (h : Decided fs d outcome) : load fs d = outcome := by
  cases h with
  | @missing front back path fault hlisted hfront hfault =>
    have hfile : fault ≠ .isADirectory := by
      rintro rfl
      exact hfiles path (by simp [hlisted]) hfault
    rw [load, hlisted, readSections_of_missing hfront hfault hfile]
    rfl
  | metadataUnreadable hread hpath hfault =>
    rw [load_of_readable hread, hpath]
    simp only [readMetadata, FileSystem.readText, hfault]
    rfl
  | @metadataNotText path bytes hread hpath hbytes hnot =>
    have hdecode : Utf8.decode? bytes = none := by
      cases htext : Utf8.decode? bytes with
      | none => rfl
      | some text => exact absurd (Utf8.decode?_eq_some_iff.1 htext) (hnot text)
    rw [load_of_readable hread, hpath]
    simp only [readMetadata, FileSystem.readText, hbytes, hdecode]
    rfl
  | metadataRefused hread hpath htext hparse =>
    rw [load_of_readable hread, hpath]
    simp only [readMetadata, FileSystem.readText, htext, Utf8.decode?_encode, hparse]
    rfl
  | built hcurrent hstated =>
    rw [load, readSections_of_current hcurrent, readMetadata_of_stated hstated]
    rfl

theorem exists_decided (fs : FileSystem) (d : Dump) : ∃ outcome, Decided fs d outcome := by
  rcases readable_or_missing fs d.sectionFiles with
    hread | ⟨front, path, back, fault, hlisted, hfront, hfault⟩
  · have hcurrent := current_of_readable hread
    cases hpath : d.metadataFile with
    | none =>
      have hstated : Stated fs d.metadataFile none := hpath ▸ Stated.none
      exact ⟨_, .built hcurrent hstated⟩
    | some path =>
      cases hcontents : fs.contents path with
      | error fault => exact ⟨_, .metadataUnreadable hread hpath hcontents⟩
      | ok bytes =>
        by_cases htext : ∃ text, bytes = Utf8.encode text
        · obtain ⟨text, rfl⟩ := htext
          cases hparse : Metadata.parse text with
          | error fault => exact ⟨_, .metadataRefused hread hpath hcontents hparse⟩
          | ok m =>
            have hstated : Stated fs d.metadataFile (some m) := hpath ▸ Stated.some hcontents hparse
            exact ⟨_, .built hcurrent hstated⟩
        · exact ⟨_, .metadataNotText hread hpath hcontents (not_exists.1 htext)⟩
  · exact ⟨_, .missing hlisted hfront hfault⟩

theorem load_eq_iff_decided
    (hfiles : ∀ p ∈ d.sectionFiles, fs.contents p ≠ .error .isADirectory) :
    load fs d = outcome ↔ Decided fs d outcome := by
  constructor
  · rintro rfl
    obtain ⟨outcome, h⟩ := exists_decided fs d
    rw [load_of_decided hfiles h]
    exact h
  · exact load_of_decided hfiles

/-- All listed files are read and have their sections in the image, or there is none. -/
theorem laidOut_of_load {image : Image} (h : load fs d = .ok image) :
    (∀ p ∈ d.sectionFiles, Readable fs p) ∧
      Image.LaidOut (d.sectionFiles.map fun p => (p, bytesOf fs p)) image.sections.toList := by
  obtain ⟨files, metadata, hfiles, -, himage⟩ := load_eq_ok_iff.1 h
  have hread := exists_readSections_iff.1 ⟨files, hfiles⟩
  rw [readSections_eq hread, Except.ok.injEq] at hfiles
  subst hfiles
  exact ⟨hread, Image.laidOut_of_build himage⟩

end Loading

/-- The dump lists the path, as that of a section file or of the metadata file. -/
def Needs (d : Dump) (p : Path) : Prop := p ∈ d.sectionFiles ∨ p ∈ d.metadataFile

theorem load_of_grown {t u : FileTree} {d : Dump} (h : t.Grown u)
    (hread : ∀ p, d.Needs p → Readable t.fileSystem p) :
    load u.fileSystem d = load t.fileSystem d := by
  have hkept : ∀ p, d.Needs p → u.fileSystem.contents p = t.fileSystem.contents p := by
    intro p hp
    obtain ⟨data, hdata⟩ := hread p hp
    rw [hdata]
    exact h.contents hdata
  exact load_congr (fun p hp => hkept p (.inl hp)) fun p hp => hkept p (.inr hp)

/-- A load is decided by the listed files alone and in the order given, and an image has all
of them. In a tree that a scan has been made of before, a listed file is read unless it is
missing by now, and creating other files makes no difference. -/
theorem load_decided {fs : FileSystem} {d : Dump}
    (hfiles : ∀ p ∈ d.sectionFiles, fs.contents p ≠ .error .isADirectory) :
    (∀ outcome, load fs d = outcome ↔ Decided fs d outcome) ∧
    (∀ image, load fs d = .ok image → (∀ p ∈ d.sectionFiles, Readable fs p) ∧
      Image.LaidOut (d.sectionFiles.map fun p => (p, bytesOf fs p)) image.sections.toList) ∧
    (∀ fs', (∀ p, d.Needs p → fs'.contents p = fs.contents p) → load fs' d = load fs d) ∧
    ∀ (before now : FileTree) (root : Path) (found : Dump), now.fileSystem = fs →
      scan before.fileSystem root = .ok found → d.sectionFiles = found.sectionFiles →
        (∀ p ∈ d.sectionFiles,
          ((∃ fault, fs.contents p = .error fault) ↔ now.Missing (Utf8.encode p)) ∧
          ∀ fault, fs.contents p = .error fault → fault = .notFound ∨ fault = .notADirectory) ∧
        ∀ later, now.Grown later → (∀ p, d.Needs p → Readable fs p) →
          load later.fileSystem d = load fs d := by
  refine ⟨fun outcome => load_eq_iff_decided hfiles, fun image => laidOut_of_load, ?_, ?_⟩
  · intro fs' hsame
    exact load_congr (fun p hp => hsame p (.inl hp)) fun p hp => hsame p (.inr hp)
  · rintro before now root found rfl hscan hlisted
    refine ⟨?_, fun later hgrown hread => load_of_grown hgrown hread⟩
    intro p hp
    have hallowed := allowed_of_scan hscan (hlisted ▸ hp)
    exact ⟨FileTree.exists_contents_error_iff hallowed (hfiles p hp),
      fun fault => FileTree.fault_of_contents hallowed (hfiles p hp)⟩

/-! A dump that loses a section file after the scan. The other one is too short for what its
name says, and the metadata does not read. -/

def scannedTree : FileTree :=
  FileTree.empty.writeAll "d".toList [("text-1000-2-0-rx.bin".toList, [1, 2]),
    ("data-2000-9-2-rw.bin".toList, [3]), ("aux.ini".toList, Utf8.encode "[aux".toList)]

def scannedDump : Dump :=
  ⟨"d".toList, ["d/data-2000-9-2-rw.bin".toList, "d/text-1000-2-0-rx.bin".toList],
    some "d/aux.ini".toList⟩

def laterTree : FileTree :=
  (scannedTree.remove (Utf8.encode "d/text-1000-2-0-rx.bin".toList)).write
    (Utf8.encode "d/bss-3000-1-3-rw.bin".toList) [0]

theorem load_decided_of_removal :
    scan scannedTree.fileSystem "d".toList = .ok scannedDump ∧
      (∀ p ∈ scannedDump.sectionFiles,
        laterTree.fileSystem.contents p ≠ .error .isADirectory) ∧
      load laterTree.fileSystem scannedDump =
        .error (.sectionFile "d/text-1000-2-0-rx.bin".toList
          (.unreadable "d/text-1000-2-0-rx.bin".toList .notFound)) := by
  have hread : laterTree.fileSystem.contents "d/data-2000-9-2-rw.bin".toList = .ok [3] := rfl
  have hmissing : laterTree.fileSystem.contents "d/text-1000-2-0-rx.bin".toList =
      .error .notFound := rfl
  have hfiles : ∀ p ∈ scannedDump.sectionFiles,
      laterTree.fileSystem.contents p ≠ .error .isADirectory := by
    rw [scannedDump, List.forall_mem_cons, List.forall_mem_singleton, hread, hmissing]
    exact ⟨by simp, by simp⟩
  have hlisted : scannedDump.sectionFiles =
      ["d/data-2000-9-2-rw.bin".toList] ++ "d/text-1000-2-0-rx.bin".toList :: [] := rfl
  have hfront : ∀ p ∈ ["d/data-2000-9-2-rw.bin".toList], Readable laterTree.fileSystem p := by
    rw [List.forall_mem_singleton]
    exact ⟨[3], hread⟩
  exact ⟨rfl, hfiles, ((load_decided hfiles).1 _).2 (.missing hlisted hfront hmissing)⟩

end Dump
end SectionDump
