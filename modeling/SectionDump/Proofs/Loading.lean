import SectionDump.Dump
import SectionDump.Proofs.Building
import SectionDump.Proofs.Markers
import SectionDump.Proofs.Storing

/-!
# Loading what was written

A dump that is written section by section, under the canonical file names, loads
as the image of these sections. Each name is that of a section file and of no
metadata file, and reads as its identity below any root. The files are listed by
name and the sections lie by address, so nothing depends on the order in which
either side keeps them.
-/
namespace SectionDump

namespace Identity

theorem proper_fileName {id : Identity} (h : id.Canonical) : Path.Proper id.fileName :=
  proper_append_marker (slash_not_mem_writtenStem h.slash_not_mem_name h.slash_not_mem_flags)

theorem fileName_injective {i j : Identity} (hi : i.Canonical) (hj : j.Canonical)
    (h : i.fileName = j.fileName) : i = j := by
  have hread := parse_fileName_of_canonical hi
  rw [h, parse_fileName_of_canonical hj] at hread
  exact (Except.ok.inj hread).symm

end Identity

namespace Dump

/-- An identity and the bytes of its section. -/
abbrev Piece := Identity × Bytes

/-- The file of a piece, by its canonical name. -/
def Piece.file (p : Piece) : Text × Bytes := (p.1.fileName, p.2)

/-- The file of a piece, by its path in a directory. -/
def Piece.located (root : Path) (p : Piece) : Path × Bytes := (Path.child root p.1.fileName, p.2)

theorem parse_child_fileName (root : Path) {id : Identity} (h : id.Canonical) :
    Identity.parse (Path.child root id.fileName) = .ok id := by
  have hchild := Path.fileName?_child root (Identity.proper_fileName h)
  have hself := Path.fileName?_of_proper (Identity.proper_fileName h)
  rw [← Identity.parse_fileName_of_canonical h, Identity.parse, Identity.parse,
    Path.baseName_of_fileName? hchild, Path.baseName_of_fileName? hself]

theorem role_fileName {id : Identity} (h : id.Canonical) :
    Role.ofName id.fileName = .sectionFile := by
  rw [Role.ofName,
    if_pos (Identity.isDumpName_fileName h.slash_not_mem_name h.slash_not_mem_flags)]

section Scanning

variable {fs : FileSystem} {root : Path} {pieces : List Piece}

theorem fileNames_perm {entries : List DirectoryEntry} {files : List (Text × Bytes)}
    (h : entries.Perm (files.map FileSystem.entryOf)) :
    (fileNames entries).Perm (files.map fun f => Utf8.encode f.1) := by
  have hfiles : ((files.map FileSystem.entryOf).filter DirectoryEntry.isFile).map
      DirectoryEntry.name = files.map fun f => Utf8.encode f.1 := by
    have hall : (files.map FileSystem.entryOf).filter DirectoryEntry.isFile =
        files.map FileSystem.entryOf := by
      rw [List.filter_eq_self]
      intro e he
      obtain ⟨f, -, rfl⟩ := List.mem_map.1 he
      rfl
    rw [hall, List.map_map]
    rfl
  rw [← hfiles]
  exact (Sorting.sort_perm _ _).trans ((h.filter _).map _)

theorem namesOf_perm {names : List Bytes} {texts : List Text} (role : Role)
    (h : names.Perm (texts.map Utf8.encode)) :
    (namesOf role names).Perm (texts.filter fun n => Role.ofName n = role) := by
  have hdecode : (texts.map Utf8.encode).filterMap Utf8.decode? = texts := by
    rw [List.filterMap_map]
    have hsome : Utf8.decode? ∘ Utf8.encode = some := by
      funext s
      exact Utf8.decode?_encode s
    rw [hsome, List.filterMap_some]
  have hperm := (h.filterMap Utf8.decode?).filter fun n => Role.ofName n = role
  rwa [hdecode] at hperm

/-- All files of a written dump are section files, so there is no metadata. -/
theorem scan_of_holds (h : fs.Holds root (pieces.map Piece.file))
    (hcanonical : ∀ p ∈ pieces, p.1.Canonical) :
    ∃ found, scan fs root = .ok ⟨root, found, none⟩ ∧
      found.Perm (pieces.map fun p => Path.child root p.1.fileName) := by
  obtain ⟨entries, hentries, hlisted⟩ := h.listed
  have hnames : (fileNames entries).Perm
      ((pieces.map fun p => p.1.fileName).map Utf8.encode) := by
    have hperm := fileNames_perm hlisted
    rwa [List.map_map] at hperm ⊢
  have hrole : ∀ n ∈ pieces.map fun p => p.1.fileName, Role.ofName n = .sectionFile := by
    intro n hn
    obtain ⟨p, hp, rfl⟩ := List.mem_map.1 hn
    exact role_fileName (hcanonical p hp)
  have hmetadata : namesOf .metadataFile (fileNames entries) = [] := by
    have hnone : ((pieces.map fun p => p.1.fileName).filter fun n =>
        Role.ofName n = .metadataFile) = [] := by
      rw [List.filter_eq_nil_iff]
      intro n hn
      simp [hrole n hn]
    have hperm := namesOf_perm .metadataFile hnames
    rw [hnone] at hperm
    exact hperm.eq_nil
  have hsections : (namesOf .sectionFile (fileNames entries)).Perm
      (pieces.map fun p => p.1.fileName) := by
    have hall : ((pieces.map fun p => p.1.fileName).filter fun n =>
        Role.ofName n = .sectionFile) = pieces.map fun p => p.1.fileName := by
      rw [List.filter_eq_self]
      intro n hn
      simp [hrole n hn]
    have hperm := namesOf_perm .sectionFile hnames
    rwa [hall] at hperm
  refine ⟨_, ?_, (hsections.map (Path.child root)).trans (.of_eq (List.map_map ..))⟩
  rw [scan, hentries]
  simp only [classify, hmetadata]
  rfl

end Scanning

/-- What a file gives, or nothing. -/
def bytesOf (fs : FileSystem) (path : Path) : Bytes :=
  match fs.contents path with
  | .ok data => data
  | .error _ => []

theorem readSections_eq {fs : FileSystem} {paths : List Path}
    (h : ∀ p ∈ paths, ∃ data, fs.contents p = .ok data) :
    readSections fs paths = .ok (paths.map fun p => (p, bytesOf fs p)) := by
  induction paths with
  | nil => rfl
  | cons p rest ih =>
    rw [List.forall_mem_cons] at h
    obtain ⟨data, hdata⟩ := h.1
    have hmap : fs.mapFile p = .ok data := by
      rw [FileSystem.mapFile, hdata]
      rfl
    have hbytes : bytesOf fs p = data := by
      rw [bytesOf, hdata]
    rw [readSections, hmap, ih h.2, List.map_cons, hbytes]
    rfl

section Loading

variable {fs : FileSystem} {root : Path} {pieces : List Piece}

/-- Reading the files gives the bytes that were written, in the order of the scan. -/
theorem readSections_of_holds (h : fs.Holds root (pieces.map Piece.file)) {found : List Path}
    (hfound : found.Perm (pieces.map fun p => Path.child root p.1.fileName)) :
    ∃ files, readSections fs found = .ok files ∧
      files.Perm (pieces.map (Piece.located root)) := by
  have hcontents : ∀ p ∈ pieces, fs.contents (Path.child root p.1.fileName) = .ok p.2 :=
    fun p hp => h.returned p.file (List.mem_map_of_mem hp)
  have hread : ∀ path ∈ found, ∃ data, fs.contents path = .ok data := by
    intro path hpath
    obtain ⟨p, hp, rfl⟩ := List.mem_map.1 (hfound.mem_iff.1 hpath)
    exact ⟨p.2, hcontents p hp⟩
  refine ⟨_, readSections_eq hread, (hfound.map _).trans (.of_eq ?_)⟩
  rw [List.map_map]
  apply List.map_congr_left
  intro p hp
  simp only [Function.comp_apply, bytesOf, hcontents p hp]
  rfl

/-- The pieces of a dump: canonical identities, no two the same, each with as many
bytes as it declares, and no two with an address in common. -/
structure Sound (pieces : List Piece) : Prop where
  distinct : (pieces.map Prod.fst).Nodup
  canonical : ∀ p ∈ pieces, p.1.Canonical
  length_data : ∀ p ∈ pieces, p.2.length = p.1.size.toNat
  apart : pieces.Pairwise fun p q => p.1.Apart q.1

theorem Sound.declares (h : Sound pieces) (root : Path) {p : Piece} (hp : p ∈ pieces) :
    Declares (p.located root) p.1 :=
  ⟨parse_child_fileName root (h.canonical p hp), h.length_data p hp⟩

theorem Sound.holdsSection (h : Sound pieces) :
    ∀ f ∈ pieces.map (Piece.located root), HoldsSection f := by
  intro f hf
  obtain ⟨p, hp, rfl⟩ := List.mem_map.1 hf
  exact ⟨p.1, h.declares root hp⟩

theorem Sound.filesApart (h : Sound pieces) :
    (pieces.map (Piece.located root)).Pairwise FilesApart := by
  rw [List.pairwise_map]
  refine h.apart.imp_of_mem ?_
  intro p q hp hq hpq i j hi hj
  have hpi := (h.declares root hp).1
  have hqj := (h.declares root hq).1
  rw [hi.1, Except.ok.injEq] at hpi
  rw [hj.1, Except.ok.injEq] at hqj
  rwa [hpi, hqj]

theorem FilesApart.symm {f g : Path × Bytes} (h : FilesApart f g) : FilesApart g f :=
  fun i j hi hj => (h j i hj hi).symm

theorem filterMap_inhabited?_located (h : ∀ p ∈ pieces, Declares (p.located root) p.1) :
    (pieces.map (Piece.located root)).filterMap Image.inhabited? =
      (pieces.filter fun p => p.1.size ≠ 0).map fun p => (p.1, p.located root) := by
  induction pieces with
  | nil => rfl
  | cons p rest ih =>
    rw [List.forall_mem_cons] at h
    have hp : Image.inhabited? (p.located root) =
        if p.1.size = 0 then none else some (p.1, p.located root) := by
      rw [Image.inhabited?, h.1.1]
    rw [List.map_cons, List.filterMap_cons, hp, ih h.2]
    by_cases hsize : p.1.size = 0 <;> simp [hsize]

/-- The image has the sections of the pieces that are not empty, by address, and
nothing beside them. -/
structure Restores (root : Path) (pieces : List Piece) (image : Image) : Prop where
  sections : (image.sections.toList.map fun s => (s.id, s.path, s.data)).Perm
    ((pieces.filter fun p => p.1.size ≠ 0).map fun p =>
      (p.1, Path.child root p.1.fileName, p.2))
  ascending : image.sections.toList.Pairwise fun s t => s.last < t.start
  arch : image.arch = none
  labels : image.labels = .empty
  entryPoints : image.entryPoints = .empty
  exitPoints : image.exitPoints = .empty
  relocations : image.relocations = .empty
  functions : image.functions = .empty

theorem build_of_sound (h : Sound pieces) {files : List (Path × Bytes)}
    (hfiles : files.Perm (pieces.map (Piece.located root))) :
    ∃ image, Image.build files none = .ok image ∧ Restores root pieces image := by
  have hall : ∀ f ∈ files, HoldsSection f :=
    fun f hf => h.holdsSection f (hfiles.mem_iff.1 hf)
  have hapart : files.Pairwise FilesApart :=
    (hfiles.pairwise_iff FilesApart.symm).2 h.filesApart
  obtain ⟨image, himage⟩ := Image.exists_build_iff.2 ⟨hall, hapart⟩
  have hlaid := (Image.laidOut_of_build himage).complete
  obtain ⟨sections, -, hsections⟩ := Image.build_eq_ok_iff.1 himage
  obtain ⟨hnone, rfl⟩ := Image.ofSections_eq_ok_iff.1 hsections
  refine ⟨_, himage, ⟨?_, Image.ordered _, rfl, rfl, rfl, rfl, rfl, rfl⟩⟩
  have hcomplete := hlaid.trans (hfiles.filterMap _)
  rw [filterMap_inhabited?_located fun p hp => h.declares root hp] at hcomplete
  exact hcomplete

theorem load_of_holds (h : fs.Holds root (pieces.map Piece.file)) (hsound : Sound pieces) :
    ∃ image, loadDirectory fs root = .ok image ∧ Restores root pieces image := by
  obtain ⟨found, hscan, hfound⟩ := scan_of_holds h hsound.canonical
  obtain ⟨files, hread, hfiles⟩ := readSections_of_holds h hfound
  obtain ⟨image, hbuild, hrestores⟩ := build_of_sound hsound hfiles
  refine ⟨image, ?_, hrestores⟩
  rw [loadDirectory, hscan]
  show load fs ⟨root, found, none⟩ = _
  rw [load, hread]
  exact hbuild

/-- Distinct canonical identities have distinct file names, so none is overwritten. -/
theorem Sound.names_nodup (h : Sound pieces) :
    ((pieces.map Piece.file).map Prod.fst).Nodup := by
  have hids := h.distinct
  rw [List.map_map]
  rw [List.Nodup, List.pairwise_map] at hids ⊢
  refine hids.imp_of_mem ?_
  intro p q hp hq hne e
  exact hne (Identity.fileName_injective (h.canonical p hp) (h.canonical q hq) e)

/-- Written into an empty directory, in whatever order the pieces come, a dump loads
as their image, in whatever order the directory lists its files. -/
theorem loadDirectory_of_written {before after : FileSystem} (hsound : Sound pieces)
    (hempty : before.entries root = .ok [])
    (hwritten : FileSystem.Written root before (pieces.map Piece.file) after) :
    ∃ image, loadDirectory after root = .ok image ∧ Restores root pieces image := by
  have hproper : ∀ f ∈ pieces.map Piece.file, Path.Proper f.1 := by
    intro f hf
    obtain ⟨p, hp, rfl⟩ := List.mem_map.1 hf
    exact Identity.proper_fileName (hsound.canonical p hp)
  have hholds := FileSystem.holds_of_written hempty hwritten hproper hsound.names_nodup
  exact load_of_holds hholds hsound

end Loading

/-- By name the first piece comes last, by address it comes first. The second has a
marker in its flags, and the third no bytes. -/
def samplePieces : List Piece := [
  (⟨"text".toList, 0x1000, 2, 0, "rx".toList⟩, [1, 2]),
  (⟨"data".toList, 0x1002, 1, 2, "rw-.bin.-".toList⟩, [3]),
  (⟨"bss".toList, 0x1001, 0, 3, []⟩, [])]

def sampleRoot : Path := "a-1-1-1-.bin/".toList

theorem sound_samplePieces : Sound samplePieces where
  distinct := by decide
  canonical := by
    intro p hp
    simp only [samplePieces, List.mem_cons, List.not_mem_nil, or_false] at hp
    rcases hp with rfl | rfl | rfl <;> exact ⟨by decide, by decide, by decide, by decide, by decide⟩
  length_data := by decide
  apart := by
    simp [samplePieces, Identity.Apart, Identity.Covers]
    omega

theorem loadDirectory_of_written_tree :
    Sound samplePieces ∧ ∃ image,
      loadDirectory ((FileTree.empty.makeDirectory (Utf8.encode sampleRoot)).writeAll sampleRoot
        (samplePieces.map Piece.file)).fileSystem sampleRoot = .ok image ∧
      Restores sampleRoot samplePieces image := by
  have hflat : FileTree.FlatDirectory (FileTree.empty.makeDirectory (Utf8.encode sampleRoot))
      sampleRoot [Utf8.encode "a-1-1-1-.bin".toList] :=
    FileTree.flatDirectory_of_empty rfl rfl
  have hstorable : ∀ f ∈ samplePieces.map Piece.file, FileTree.Storable sampleRoot f.1 := by
    intro f hf
    obtain ⟨p, hp, rfl⟩ := List.mem_map.1 hf
    refine ⟨Identity.proper_fileName (sound_samplePieces.canonical p hp), ?_, ?_, ?_⟩
    · revert p
      decide
    · revert p
      decide
    · revert p
      decide
  exact ⟨sound_samplePieces, loadDirectory_of_written sound_samplePieces rfl
    (hflat.written hstorable)⟩

end Dump
end SectionDump
