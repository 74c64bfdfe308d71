import SectionDump.Dump
import SectionDump.Proofs.Decoding
import SectionDump.Proofs.FileNames

/-!
# Classifying

What a scan finds depends on the names of the regular files alone. Sorting makes one
ascending list of them, however they are listed, so the section files come by name
and two candidates for the metadata are reported by the least two names. Directories,
names that are no text and all other files take no part.
-/
namespace SectionDump

namespace Path

/-- The extension follows the last dot of a name, and something comes before that. -/
theorem extension?_eq_some_iff {name e : Text} :
    extension? name = some e ↔ '.' ∉ e ∧ ∃ p, p ≠ [] ∧ name = p ++ '.' :: e := by
  constructor
  · intro h
    rw [extension?] at h
    split at h
    · rename_i x p y e' hname
      cases h
      obtain ⟨rfl, -, hy, hend⟩ := Text.splitLast?_eq_some_iff.1 hname
      obtain rfl : y = '.' := by simpa using hy
      exact ⟨Text.splitLast?_dot_eq_none_iff.1 hend, x :: p, List.cons_ne_nil x p, rfl⟩
    · cases h
  · rintro ⟨he, p, hp, rfl⟩
    obtain ⟨x, p, rfl⟩ := List.exists_cons_of_ne_nil hp
    rw [extension?, Text.splitLast?_dot_append _ he]

end Path

namespace Dump

theorem role_eq_sectionFile_iff {n : Text} :
    Role.ofName n = .sectionFile ↔ Identity.isDumpName n = true := by
  rw [Role.ofName]
  split
  · rename_i h
    simp [h]
  · rename_i h
    split <;> simp [h]

theorem role_eq_metadataFile_iff {n : Text} :
    Role.ofName n = .metadataFile ↔
      Identity.isDumpName n = false ∧ ∃ p, p ≠ [] ∧ n = p ++ ".ini".toList := by
  have hextension : Path.extension? n = some metadataExtension ↔
      ∃ p, p ≠ [] ∧ n = p ++ ".ini".toList := by
    rw [Path.extension?_eq_some_iff]
    exact and_iff_right (by decide)
  rw [Role.ofName, ← hextension]
  split
  · rename_i h
    simp [h]
  · rename_i h
    split <;> simp_all

section Names

variable {entries entries' : List DirectoryEntry}

theorem fileNames_sorted (entries : List DirectoryEntry) :
    (fileNames entries).Pairwise fun a b => a ≤ b := by
  have htotal : ∀ a b : Bytes, decide (a ≤ b) = true ∨ decide (b ≤ a) = true :=
    fun a b => by simpa only [decide_eq_true_eq] using List.le_total a b
  have htrans : ∀ a b c : Bytes, decide (a ≤ b) = true → decide (b ≤ c) = true →
      decide (a ≤ c) = true := by
    intro a b c hab hbc
    simp only [decide_eq_true_eq] at hab hbc ⊢
    exact List.le_trans hab hbc
  exact (Sorting.sort_pairwise htotal htrans _).imp fun hle => of_decide_eq_true hle

theorem fileNames_perm_filter (entries : List DirectoryEntry) : (fileNames entries).Perm
    ((entries.filter DirectoryEntry.isFile).map DirectoryEntry.name) := Sorting.sort_perm _ _

/-- The order of the listing is lost in sorting. -/
theorem fileNames_eq_of_perm (h : entries.Perm entries') :
    fileNames entries = fileNames entries' := by
  have hperm : (fileNames entries).Perm (fileNames entries') :=
    (fileNames_perm_filter entries).trans
      (((h.filter _).map _).trans (fileNames_perm_filter entries').symm)
  have hantisymm : ∀ a b : Bytes, a ∈ fileNames entries → b ∈ fileNames entries' →
      a ≤ b → b ≤ a → a = b := fun a b _ _ hab hba => List.le_antisymm hab hba
  exact hperm.eq_of_pairwise hantisymm (fileNames_sorted entries) (fileNames_sorted entries')

theorem fileNames_ascending (h : (entries.map DirectoryEntry.name).Nodup) :
    (fileNames entries).Pairwise fun a b => a < b := by
  have hnodup : (fileNames entries).Nodup :=
    (fileNames_perm_filter entries).nodup_iff.2 (h.sublist (List.filter_sublist.map _))
  refine (hnodup.and (fileNames_sorted entries)).imp ?_
  rintro a b ⟨hne, hle⟩
  apply Classical.byContradiction
  intro hlt
  exact hne (List.le_antisymm hle (List.not_lt.1 hlt))

theorem mem_fileNames_iff {b : Bytes} : b ∈ fileNames entries ↔ ⟨b, true⟩ ∈ entries := by
  rw [(fileNames_perm_filter entries).mem_iff, List.mem_map]
  constructor
  · rintro ⟨e, he, rfl⟩
    obtain ⟨hmem, hfile⟩ := List.mem_filter.1 he
    rwa [← hfile]
  · intro hmem
    exact ⟨⟨b, true⟩, List.mem_filter.2 ⟨hmem, rfl⟩, rfl⟩

/-- A regular file of the directory has this text as its name. -/
def Lists (entries : List DirectoryEntry) (n : Text) : Prop := ⟨Utf8.encode n, true⟩ ∈ entries

/-- By the bytes of their names, each once. -/
def Ascending (names : List Text) : Prop :=
  names.Pairwise fun m n => Utf8.encode m < Utf8.encode n

/-- Ascending names are told by which names there are. -/
theorem Ascending.eq_of_mem_iff {names names' : List Text} (h : Ascending names)
    (h' : Ascending names') (hmem : ∀ n, n ∈ names ↔ n ∈ names') : names = names' := by
  have hne : ∀ {m n : Text}, Utf8.encode m < Utf8.encode n → m ≠ n := by
    rintro m n hlt rfl
    exact List.lt_irrefl _ hlt
  have hperm : names.Perm names' :=
    (List.perm_ext_iff_of_nodup (h.imp hne) (h'.imp hne)).2 hmem
  have hantisymm : ∀ m n : Text, m ∈ names → n ∈ names' → Utf8.encode m < Utf8.encode n →
      Utf8.encode n < Utf8.encode m → m = n :=
    fun m n _ _ hmn hnm => absurd hnm (List.lt_asymm hmn)
  exact hperm.eq_of_pairwise hantisymm h h'

theorem mem_namesOf_iff {role : Role} {n : Text} :
    n ∈ namesOf role (fileNames entries) ↔ Lists entries n ∧ Role.ofName n = role := by
  rw [namesOf, List.mem_filter, List.mem_filterMap, decide_eq_true_eq]
  apply and_congr_left
  intro _
  constructor
  · rintro ⟨b, hb, hread⟩
    rw [mem_fileNames_iff, Utf8.decode?_eq_some_iff.1 hread] at hb
    exact hb
  · intro hn
    exact ⟨Utf8.encode n, mem_fileNames_iff.2 hn, Utf8.decode?_encode n⟩

theorem namesOf_ascending (role : Role) (h : (entries.map DirectoryEntry.name).Nodup) :
    Ascending (namesOf role (fileNames entries)) := by
  apply List.Pairwise.filter
  refine (fileNames_ascending h).filterMap Utf8.decode? ?_
  intro a b hab m hm n hn
  rwa [Utf8.decode?_eq_some_iff.1 hm, Utf8.decode?_eq_some_iff.1 hn] at hab

/-- A regular file that holds no section and has the extension of metadata. -/
def Candidate (entries : List DirectoryEntry) (n : Text) : Prop :=
  Lists entries n ∧ Identity.isDumpName n = false ∧ ∃ p, p ≠ [] ∧ n = p ++ ".ini".toList

theorem mem_candidates_iff {n : Text} :
    n ∈ namesOf .metadataFile (fileNames entries) ↔ Candidate entries n := by
  rw [mem_namesOf_iff, role_eq_metadataFile_iff, Candidate]

end Names

/-- The metadata file among candidates: the preferred one if it is there, otherwise the
only one. Two or more others are told by the least two. -/
inductive Chosen (root : Path) (candidate : Text → Prop) :
    Except LoadFault (Option Path) → Prop where
  | preferred : candidate preferredMetadata →
      Chosen root candidate (.ok (some (Path.child root preferredMetadata)))
  | only {n : Text} : (∀ m, candidate m ↔ m = n) →
      Chosen root candidate (.ok (some (Path.child root n)))
  | none : (∀ m, ¬candidate m) → Chosen root candidate (.ok none)
  | several {m n : Text} : ¬candidate preferredMetadata → candidate m → candidate n →
      Utf8.encode m < Utf8.encode n →
      (∀ k, candidate k → k = m ∨ Utf8.encode n ≤ Utf8.encode k) →
        Chosen root candidate
          (.error (.severalMetadataFiles (Path.child root m) (Path.child root n)))

theorem chosen_chooseMetadata (root : Path) {candidates : List Text} (h : Ascending candidates) :
    Chosen root (· ∈ candidates) (chooseMetadata root candidates) := by
  unfold chooseMetadata
  split
  · rename_i hpreferred
    exact .preferred hpreferred
  · rename_i hpreferred
    match candidates, h with
    | [], _ => exact .none (by simp)
    | [n], _ => exact .only (by simp)
    | m :: n :: rest, h =>
      obtain ⟨hm, hrest⟩ := List.pairwise_cons.1 h
      refine .several hpreferred (by simp) (by simp) (hm n (by simp)) ?_
      intro k hk
      rcases List.mem_cons.1 hk with rfl | hk
      · exact .inl rfl
      rcases List.mem_cons.1 hk with rfl | hk
      · exact .inr (List.le_refl _)
      · exact .inr (List.le_of_lt (List.rel_of_pairwise_cons hrest hk))

/-- What is found in a directory, told by its entries in no particular order. -/
inductive Classified (root : Path) (entries : List DirectoryEntry) :
    Except LoadFault Dump → Prop where
  | found {names : List Text} {metadataFile : Option Path} : Ascending names →
      (∀ n, n ∈ names ↔ Lists entries n ∧ Identity.isDumpName n = true) →
      Chosen root (Candidate entries) (.ok metadataFile) →
        Classified root entries (.ok ⟨root, names.map (Path.child root), metadataFile⟩)
  | undecided {fault : LoadFault} : Chosen root (Candidate entries) (.error fault) →
      Classified root entries (.error fault)

theorem chosen_of_entries (root : Path) {entries : List DirectoryEntry}
    (h : (entries.map DirectoryEntry.name).Nodup) : Chosen root (Candidate entries)
      (chooseMetadata root (namesOf .metadataFile (fileNames entries))) := by
  have hsame : (fun n => n ∈ namesOf .metadataFile (fileNames entries)) = Candidate entries := by
    funext n
    exact propext mem_candidates_iff
  have hchosen := chosen_chooseMetadata root (namesOf_ascending .metadataFile h)
  rwa [hsame] at hchosen

theorem classified_classify (root : Path) {entries : List DirectoryEntry}
    (h : (entries.map DirectoryEntry.name).Nodup) :
    Classified root entries (classify root entries) := by
  have hchosen := chosen_of_entries root h
  simp only [classify]
  cases hchoice : chooseMetadata root (namesOf .metadataFile (fileNames entries)) with
  | error fault =>
    rw [hchoice] at hchosen
    exact .undecided hchosen
  | ok metadataFile =>
    rw [hchoice] at hchosen
    refine .found (namesOf_ascending .sectionFile h) ?_ hchosen
    intro n
    rw [mem_namesOf_iff, role_eq_sectionFile_iff]

theorem scan_eq_classify {fs : FileSystem} {root : Path} {entries listed : List DirectoryEntry}
    (hlisted : fs.entries root = .ok listed) (hperm : listed.Perm entries) :
    scan fs root = classify root entries := by
  simp only [scan, hlisted, classify, fileNames_eq_of_perm hperm]

/-- A scan finds the same in whatever order a directory is listed: the section files by
name and the one metadata file, or the least two candidates for it. -/
theorem scan_classified {fs fs' : FileSystem} {root : Path}
    {entries listed : List DirectoryEntry}
    (hdistinct : (entries.map DirectoryEntry.name).Nodup)
    (hentries : fs.entries root = .ok entries) (hlisted : fs'.entries root = .ok listed)
    (hperm : listed.Perm entries) :
    scan fs' root = scan fs root ∧ Classified root entries (scan fs root) := by
  have hscan := scan_eq_classify hentries (.refl _)
  refine ⟨(scan_eq_classify hlisted hperm).trans hscan.symm, ?_⟩
  rw [hscan]
  exact classified_classify root hdistinct

/-- A machine with one directory, under every path. -/
def listing (entries : List DirectoryEntry) : FileSystem :=
  ⟨fun _ => .ok entries, fun _ => .error .notFound⟩

/-- A section file with the extension of metadata, a directory with the name of a section
file, a name that is no text and one that has no extension. -/
def sampleEntries : List DirectoryEntry := [
  ⟨Utf8.encode "text-1000-2-0-rx.bin".toList, true⟩,
  ⟨Utf8.encode "zeta.ini".toList, true⟩,
  ⟨Utf8.encode "data-2000-1-2-rw.bin.ini".toList, true⟩,
  ⟨Utf8.encode "aux.ini".toList, true⟩,
  ⟨Utf8.encode "bss-3000-1-3-rw.bin".toList, false⟩,
  ⟨0xFF :: Utf8.encode ".ini".toList, true⟩,
  ⟨Utf8.encode ".ini".toList, true⟩]

theorem scan_classified_reverse :
    (sampleEntries.map DirectoryEntry.name).Nodup ∧
      sampleEntries.reverse.Perm sampleEntries ∧
      (scan (listing sampleEntries.reverse) "d".toList =
          scan (listing sampleEntries) "d".toList ∧
        Classified "d".toList sampleEntries (scan (listing sampleEntries) "d".toList)) ∧
      scan (listing sampleEntries) "d".toList = .ok ⟨"d".toList,
        ["d/data-2000-1-2-rw.bin.ini".toList, "d/text-1000-2-0-rx.bin".toList],
        some "d/aux.ini".toList⟩ := by
  have hdistinct : (sampleEntries.map DirectoryEntry.name).Nodup := by decide
  have hperm : sampleEntries.reverse.Perm sampleEntries := List.reverse_perm _
  exact ⟨hdistinct, hperm, scan_classified hdistinct rfl rfl hperm, rfl⟩

end Dump
end SectionDump
