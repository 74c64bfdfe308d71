import Mathlib.Tactic.Tauto
import SectionDump.Proofs.Inspecting

/-!
# Overriding the metadata

Two machines that share the section files of a directory and the metadata file that a
request names may differ in every other file of the directory. In the same setting the
program answers alike on both, unless it is settled there what to report, the section
files make an image and the scan can decide on the metadata on one of them only: the
named file takes the place of the one decided on, and not of the decision.
-/
namespace SectionDump.Inspection

open Dump

section Override

variable {fs fs' : FileSystem} {request : Request} {path : Path}
  {entries entries' : List DirectoryEntry}

/-- With a metadata file of its own, a request is about the section files and this
file, wherever the scan succeeds. -/
theorem shows_iff (hpath : request.metadata = some path)
    (hdistinct : (entries.map DirectoryEntry.name).Nodup)
    (hentries : fs.entries request.directory = .ok entries) {image : Image} :
    Shows fs request image ↔ ¬Ambiguous entries ∧ sectionNames entries ≠ [] ∧
      load fs ⟨request.directory, (sectionNames entries).map (Path.child request.directory),
        some path⟩ = .ok image := by
  by_cases hambiguous : Ambiguous entries
  · obtain ⟨fault, hscan⟩ := scan_of_ambiguous hdistinct hentries hambiguous
    simp [Shows, hscan, hambiguous]
  · obtain ⟨metadataFile, hscan⟩ := scan_of_not_ambiguous hdistinct hentries hambiguous
    simp [Shows, hscan, hambiguous, dumpOf, hpath, withMetadata]

theorem inspect_sameAnswer_iff (setting : Setting) (hpath : request.metadata = some path)
    {metadata : Option Metadata} (hmetadata : readMetadata fs (some path) = .ok metadata)
    (hkept : fs'.contents path = fs.contents path)
    (hsame : SameSections request.directory fs fs' entries entries')
    (hsome : ∃ n, ListsSection entries n) :
    (inspect setting fs request).SameAnswer (inspect setting fs' request) ↔
      ¬setting.Takes request.logLevel ∨ (Ambiguous entries' ↔ Ambiguous entries) ∨
        ¬Loadable fs request.directory entries := by
  have hne : sectionNames entries ≠ [] := sectionNames_ne_nil_iff.2 hsome
  have hshows : ∀ image, Shows fs request image ↔ ¬Ambiguous entries ∧
      load fs ⟨request.directory, (sectionNames entries).map (Path.child request.directory),
        some path⟩ = .ok image := by
    intro image
    rw [shows_iff hpath hsame.distinct hsame.listed]
    simp only [hne, ne_eq, not_false_eq_true, true_and]
  -- The other machine loads the same dump, to the same end.
  have hshows' : ∀ image, Shows fs' request image ↔ ¬Ambiguous entries' ∧
      load fs ⟨request.directory, (sectionNames entries).map (Path.child request.directory),
        some path⟩ = .ok image := by
    intro image
    rw [shows_iff hpath hsame.distinct' hsame.listed', hsame.sectionNames_eq, hsame.load_eq hkept]
    simp only [hne, ne_eq, not_false_eq_true, true_and]
  have hagree : ∀ image image', Answered setting fs request image →
      Answered setting fs' request image' → image' = image := by
    rintro image image' ⟨-, h⟩ ⟨-, h'⟩
    have hload := ((hshows' image').1 h').2
    rw [((hshows image).1 h).2] at hload
    exact (Except.ok.inj hload).symm
  rw [sameAnswer_iff hagree]
  simp only [Answered, hshows, hshows', exists_and_left, exists_load_iff hsame.distinct hmetadata]
  tauto

/-- With valid metadata in the file that is named, what else is in the directory matters
exactly where it is settled what to report, the section files make an image, and the scan
fails on one side only. -/
theorem run_sameAnswer_iff (setting : Setting) {args : List Text}
    (hargs : CommandLine.parse args = .ok (.inspect request))
    (hpath : request.metadata = some path) {metadata : Metadata}
    (hmetadata : readMetadata fs (some path) = .ok (some metadata))
    (hkept : fs'.contents path = fs.contents path)
    (hsame : SameSections request.directory fs fs' entries entries')
    (hsome : ∃ n, ListsSection entries n) :
    (run setting fs args).SameAnswer (run setting fs' args) ↔
      ¬setting.Takes request.logLevel ∨ (Ambiguous entries' ↔ Ambiguous entries) ∨
        ¬Loadable fs request.directory entries := by
  rw [run_of_parse hargs, run_of_parse hargs]
  exact inspect_sameAnswer_iff setting hpath hmetadata hkept hsame hsome

end Override

/-! A section, a metadata file outside of its directory, and a request for both. -/

def outsideTree : FileTree :=
  (FileTree.empty.writeAll "dump".toList [("text-1000-2-0-rx.bin".toList, [1, 2])]).writeAll
    ".".toList [("m".toList, Utf8.encode "[aux]\narch=x86_64\n".toList)]

def outsideEntries : List DirectoryEntry := [⟨Utf8.encode "text-1000-2-0-rx.bin".toList, true⟩]

def outsideRequest : Request := ⟨"dump".toList, some "m".toList, [], [⟨0x1000, 2⟩], "info".toList⟩

def outsideArgs : List Text := ["dump", "--metadata", "m", "--read", "1000:2"].map String.toList

theorem parse_outsideArgs : CommandLine.parse outsideArgs = .ok (.inspect outsideRequest) := rfl

/-- The level that counts where none is named. -/
theorem takes_outsideRequest : (Setting.plain none).Takes outsideRequest.logLevel :=
  Setting.takes_of_mem_levels (by decide)

theorem readMetadata_outsideTree : readMetadata outsideTree.fileSystem (some "m".toList) =
    .ok (some ⟨some "x86_64".toList, [], [], [], []⟩) := rfl

theorem listsSection_outsideEntries_iff {n : Text} :
    ListsSection outsideEntries n ↔ n = "text-1000-2-0-rx.bin".toList := by
  constructor
  · rintro ⟨hmem, -⟩
    have hbytes := congrArg DirectoryEntry.name (List.mem_singleton.1 hmem)
    exact Utf8.encode_injective hbytes
  · rintro rfl
    exact ⟨List.mem_singleton.2 rfl, by decide⟩

/-- Two candidates in the directory of the section, one of them preferred. -/
def preferredFiles : List (Text × Bytes) := [("aux.ini".toList, []), ("b.ini".toList, [])]

def preferredTree : FileTree := outsideTree.writeAll "dump".toList preferredFiles

def preferredEntries : List DirectoryEntry :=
  outsideEntries ++ preferredFiles.map FileSystem.entryOf

theorem sameSections_preferredTree : SameSections "dump".toList outsideTree.fileSystem
    preferredTree.fileSystem outsideEntries preferredEntries where
  listed := rfl
  listed' := rfl
  distinct := by decide
  distinct' := by decide
  names n := by
    constructor
    · rintro ⟨hmem, hdump⟩
      rcases List.mem_append.1 hmem with hmem | hmem
      · exact ⟨hmem, hdump⟩
      obtain ⟨f, hf, hentry⟩ := List.mem_map.1 hmem
      obtain rfl : f.1 = n := Utf8.encode_injective (congrArg DirectoryEntry.name hentry)
      have hnone : ∀ f ∈ preferredFiles, Identity.isDumpName f.1 = false := by decide
      rw [hnone f hf] at hdump
      cases hdump
    · rintro ⟨hmem, hdump⟩
      exact ⟨List.mem_append_left _ hmem, hdump⟩
  contents n hn := by
    rw [listsSection_outsideEntries_iff] at hn
    subst hn
    rfl

theorem not_ambiguous_outsideEntries : ¬Ambiguous outsideEntries := by
  have hchosen : Chosen "dump".toList (Candidate outsideEntries) (.ok none) :=
    chosen_of_entries "dump".toList (by decide)
  exact hchosen.not_ambiguous_of_ok

theorem not_ambiguous_preferredEntries : ¬Ambiguous preferredEntries := by
  rintro ⟨hpreferred, -⟩
  exact hpreferred (mem_candidates_iff.1 (by decide))

theorem run_sameAnswer_preferredTree :
    CommandLine.parse outsideArgs = .ok (.inspect outsideRequest) ∧
      outsideRequest.metadata = some "m".toList ∧
      readMetadata outsideTree.fileSystem (some "m".toList) =
        .ok (some ⟨some "x86_64".toList, [], [], [], []⟩) ∧
      preferredTree.fileSystem.contents "m".toList =
        outsideTree.fileSystem.contents "m".toList ∧
      SameSections outsideRequest.directory outsideTree.fileSystem preferredTree.fileSystem
        outsideEntries preferredEntries ∧
      (∃ n, ListsSection outsideEntries n) ∧
      ((run (.plain none) outsideTree.fileSystem outsideArgs).SameAnswer
          (run (.plain none) preferredTree.fileSystem outsideArgs) ↔
        ¬(Setting.plain none).Takes outsideRequest.logLevel ∨
          (Ambiguous preferredEntries ↔ Ambiguous outsideEntries) ∨
          ¬Loadable outsideTree.fileSystem outsideRequest.directory outsideEntries) ∧
      (Setting.plain none).Takes outsideRequest.logLevel ∧
      (run (.plain none) outsideTree.fileSystem outsideArgs).SameAnswer
        (run (.plain none) preferredTree.fileSystem outsideArgs) := by
  have hkept : preferredTree.fileSystem.contents "m".toList =
      outsideTree.fileSystem.contents "m".toList := rfl
  have hsome : ∃ n, ListsSection outsideEntries n := ⟨_, listsSection_outsideEntries_iff.2 rfl⟩
  have hsame := run_sameAnswer_iff (.plain none) parse_outsideArgs rfl
    readMetadata_outsideTree hkept sameSections_preferredTree hsome
  have hneither : Ambiguous preferredEntries ↔ Ambiguous outsideEntries :=
    iff_of_false not_ambiguous_preferredEntries not_ambiguous_outsideEntries
  exact ⟨parse_outsideArgs, rfl, readMetadata_outsideTree, hkept, sameSections_preferredTree,
    hsome, hsame, takes_outsideRequest, hsame.2 (.inr (.inl hneither))⟩

/-- More candidates in the directory can change the exit code and the output, though the
metadata is taken from elsewhere and the level can be used. -/
theorem not_forall_run_sameAnswer :
    ¬∀ (setting : Setting) (t : FileTree) (entries : List DirectoryEntry)
      (files : List (Text × Bytes)) (args : List Text) (request : Request) (path : Path)
      (metadata : Metadata), CommandLine.parse args = .ok (.inspect request) →
      setting.Takes request.logLevel → request.metadata = some path →
      readMetadata t.fileSystem (some path) = .ok (some metadata) →
      t.fileSystem.entries request.directory = .ok entries → (∃ n, ListsSection entries n) →
      (∀ f ∈ files, Role.ofName f.1 = .metadataFile ∧ Path.child request.directory f.1 ≠ path) →
        (run setting t.fileSystem args).SameAnswer
          (run setting (t.writeAll request.directory files).fileSystem args) := by
  intro hall
  have hsame := hall (.plain none) outsideTree outsideEntries
    [("a.ini".toList, []), ("b.ini".toList, [])] outsideArgs outsideRequest "m".toList _
    parse_outsideArgs takes_outsideRequest rfl readMetadata_outsideTree rfl
    ⟨_, listsSection_outsideEntries_iff.2 rfl⟩ (by decide)
  have hcodes : (1 : UInt32) = 0 := hsame.1
  exact absurd hcodes (by decide)

end SectionDump.Inspection
