import SectionDump.Dump
import SectionDump.Proofs.Classifying
import SectionDump.Proofs.Storing

/-!
# Files that are kept

A scan lists paths of files that are in the tree by then, so no listed path breaks a limit.
In any later tree such a path leads to a file or a directory, or else the file, or a
directory on the way to it, is missing. Files that are created where there was nothing
leave all that was there as it was.
-/
namespace SectionDump

namespace FileTree

/-- There is nothing at the end of the path, or no directory somewhere on the way. -/
def Missing (t : FileTree) (path : Bytes) : Prop :=
  (∃ p ∈ (way (start path) (path.splitOn slash)).dropLast, t.node? p ≠ some .directory) ∨
    t.node? (target path) = none

/-- A path that no tree refuses for what it is. -/
structure Allowed (path : Bytes) : Prop where
  ne_nil : path ≠ []
  nul_not_mem : 0 ∉ path
  length_le : path.length ≤ pathLimit
  name_le : ∀ n ∈ path.splitOn slash, n.length ≤ nameLimit

section Locating

variable {t : FileTree} {path : Bytes}

theorem allowed_of_locate {found : Place × FileNode} (h : t.locate path = .ok found) :
    Allowed path := by
  obtain ⟨⟨hnul, hlength, hne⟩, hfollow, -⟩ := locate_eq_ok_iff.1 h
  exact ⟨hne, hnul, hlength, (follow_eq_ok_iff.1 hfollow).2.2⟩

theorem exists_locate_iff (h : Allowed path) :
    (∃ found, t.locate path = .ok found) ↔ ¬t.Missing path := by
  constructor
  · rintro ⟨⟨p, node⟩, hfound⟩
    obtain ⟨-, hfollow, hnode⟩ := locate_eq_ok_iff.1 hfound
    obtain ⟨hplace, hway, -⟩ := follow_eq_ok_iff.1 hfollow
    rintro (⟨d, hd, hne⟩ | hnone)
    · exact hne (hway d hd)
    · rw [target, ← hplace, hnode] at hnone
      cases hnone
  · intro hthere
    have hway : ∀ d ∈ (way (start path) (path.splitOn slash)).dropLast,
        t.node? d = some .directory := by
      intro d hd
      by_contra hne
      exact hthere (.inl ⟨d, hd, hne⟩)
    obtain ⟨node, hnode⟩ := Option.ne_none_iff_exists'.1 fun hnone => hthere (.inr hnone)
    exact ⟨(target path, node), locate_eq_ok_iff.2 ⟨⟨h.nul_not_mem, h.length_le, h.ne_nil⟩,
      follow_eq_ok_iff.2 ⟨rfl, hway, h.name_le⟩, hnode⟩⟩

theorem fault_of_follow {p : Place} {names : List Bytes} {fault : IoFault}
    (hnames : ∀ n ∈ names, n.length ≤ nameLimit) (h : t.follow p names = .error fault) :
    fault = .notFound ∨ fault = .notADirectory := by
  induction names generalizing p with
  | nil => cases h
  | cons n rest ih =>
    rw [List.forall_mem_cons] at hnames
    rw [follow] at h
    split at h
    · cases h
      exact .inl rfl
    · cases h
      exact .inr rfl
    · rw [if_neg (Nat.not_lt.2 hnames.1)] at h
      exact ih hnames.2 h

theorem fault_of_locate (hpath : Allowed path) {fault : IoFault}
    (h : t.locate path = .error fault) : fault = .notFound ∨ fault = .notADirectory := by
  rw [locate, if_neg hpath.nul_not_mem, if_neg (Nat.not_lt.2 hpath.length_le),
    if_neg hpath.ne_nil] at h
  cases hfollow : t.follow (start path) (path.splitOn slash) with
  | error fault' =>
    rw [hfollow] at h
    cases h
    exact fault_of_follow hpath.name_le hfollow
  | ok p =>
    rw [hfollow] at h
    cases hnode : t.node? p with
    | none =>
      simp only [Except.bind, hnode] at h
      cases h
      exact .inl rfl
    | some node =>
      simp only [Except.bind, hnode] at h
      cases h

/-- A file that is no directory by now is read, unless it is missing. -/
theorem exists_contents_error_iff {path : Path} (hpath : Allowed (Utf8.encode path))
    (hfile : t.contents path ≠ .error .isADirectory) :
    (∃ fault, t.contents path = .error fault) ↔ t.Missing (Utf8.encode path) := by
  rw [← not_iff_not, ← exists_locate_iff hpath]
  cases hlocate : t.locate (Utf8.encode path) with
  | error fault => simp [contents, hlocate, Except.bind]
  | ok found =>
    obtain ⟨p, node⟩ := found
    cases node with
    | file data => simp [contents, hlocate, Except.bind]
    | directory => simp [contents, hlocate, Except.bind] at hfile

theorem fault_of_contents {path : Path} (hpath : Allowed (Utf8.encode path))
    (hfile : t.contents path ≠ .error .isADirectory) {fault : IoFault}
    (h : t.contents path = .error fault) : fault = .notFound ∨ fault = .notADirectory := by
  cases hlocate : t.locate (Utf8.encode path) with
  | error fault' =>
    rw [contents, hlocate] at h
    cases h
    exact fault_of_locate hpath hlocate
  | ok found =>
    obtain ⟨p, node⟩ := found
    cases node with
    | file data =>
      rw [contents, hlocate] at h
      cases h
    | directory =>
      rw [contents, hlocate] at hfile
      exact absurd rfl hfile

end Locating

/-! ## Creating files -/

/-- Files were created one after another, each where there was nothing. -/
inductive Grown : FileTree → FileTree → Prop where
  | refl (t : FileTree) : Grown t t
  | create {t u : FileTree} {path : Bytes} (data : Bytes) : Grown t u →
      u.node? (target path) = none → Grown t (u.write path data)

section Growing

variable {t u : FileTree}

theorem node?_put_of_ne {p place : Place} (node : FileNode) (hne : p ≠ place)
    (htop : place ≠ .inside []) : (t.put node place).node? p = t.node? p := by
  cases place with
  | around => rfl
  | nowhere => rfl
  | inside l =>
    have hl : l ≠ [] := by
      rintro rfl
      exact htop rfl
    rw [node?_put t node hl, if_neg hne]

theorem ne_of_node? {p place : Place} (hp : (t.node? p).isSome = true)
    (hnew : t.node? place = none) : p ≠ place := by
  rintro rfl
  rw [hnew] at hp
  cases hp

theorem node?_makeDirectories {p : Place} (hp : (t.node? p).isSome = true) (ps : List Place) :
    (t.makeDirectories ps).node? p = t.node? p := by
  induction ps generalizing t with
  | nil => rfl
  | cons place rest ih =>
    rw [makeDirectories, List.foldl_cons]
    split
    · exact ih hp
    · rename_i hnone
      have hnew : t.node? place = none := by simpa using hnone
      have hput : (t.put .directory place).node? p = t.node? p :=
        node?_put_of_ne .directory (ne_of_node? hp hnew) (ne_of_node? rfl hnew).symm
      exact (ih (by rw [hput]; exact hp)).trans hput

/-- A new file takes nothing else away. -/
theorem node?_write {p : Place} {path : Bytes} (data : Bytes) (hp : (t.node? p).isSome = true)
    (hnew : t.node? (target path) = none) : (t.write path data).node? p = t.node? p := by
  rw [write, node?_put_of_ne _ (ne_of_node? hp hnew) (ne_of_node? rfl hnew).symm]
  exact node?_makeDirectories hp _

theorem Grown.node? (h : Grown t u) {p : Place} (hp : (t.node? p).isSome = true) :
    u.node? p = t.node? p := by
  induction h with
  | refl => rfl
  | create data _ hnew ih =>
    rw [← ih] at hp ⊢
    exact node?_write data hp hnew

theorem Grown.locate (h : Grown t u) {path : Bytes} {p : Place} {node : FileNode}
    (hp : t.locate path = .ok (p, node)) : u.locate path = .ok (p, node) := by
  obtain ⟨hpath, hfollow, hnode⟩ := locate_eq_ok_iff.1 hp
  obtain ⟨hplace, hway, hshort⟩ := follow_eq_ok_iff.1 hfollow
  have hkept : ∀ {d : Place} {n : FileNode}, t.node? d = some n → u.node? d = some n := by
    intro d n hd
    rw [h.node? (by rw [hd]; rfl), hd]
  exact locate_eq_ok_iff.2 ⟨hpath,
    follow_eq_ok_iff.2 ⟨hplace, fun d hd => hkept (hway d hd), hshort⟩, hkept hnode⟩

/-- What could be read before can be read after. -/
theorem Grown.contents (h : Grown t u) {path : Path} {data : Bytes}
    (hp : t.contents path = .ok data) : u.contents path = .ok data := by
  rw [FileTree.contents, bind_eq_ok_iff] at hp ⊢
  obtain ⟨⟨p, node⟩, hlocate, hread⟩ := hp
  exact ⟨(p, node), h.locate hlocate, hread⟩

end Growing

end FileTree

namespace Dump

/-- Each path that a scan lists leads to a file of the tree. -/
theorem isFile_of_scan {t : FileTree} {root : Path} {found : Dump}
    (h : scan t.fileSystem root = .ok found) {p : Path} (hp : p ∈ found.sectionFiles) :
    t.isFile (Utf8.encode p) = true := by
  rw [scan] at h
  cases hentries : t.fileSystem.entries root with
  | error fault =>
    rw [hentries] at h
    cases h
  | ok entries =>
    rw [hentries] at h
    obtain ⟨metadataFile, -, rfl⟩ := map_eq_ok_iff.1 h
    obtain ⟨n, hn, rfl⟩ := List.mem_map.1 hp
    obtain ⟨hlisted, -⟩ := mem_namesOf_iff.1 hn
    obtain ⟨⟨place, node⟩, hlocate, hlist⟩ := bind_eq_ok_iff.1 hentries
    have hroot : root ≠ [] := by
      rintro rfl
      cases hlocate
    cases node with
    | file data => cases hlist
    | directory =>
      rw [Except.ok.injEq] at hlist
      subst hlist
      obtain ⟨name, -, he⟩ := List.mem_map.1 hlisted
      rw [DirectoryEntry.mk.injEq] at he
      rw [FileTree.encode_child hroot, ← he.1]
      exact he.2

theorem allowed_of_scan {t : FileTree} {root : Path} {found : Dump}
    (h : scan t.fileSystem root = .ok found) {p : Path} (hp : p ∈ found.sectionFiles) :
    FileTree.Allowed (Utf8.encode p) := by
  have hfile := isFile_of_scan h hp
  rw [FileTree.isFile] at hfile
  split at hfile
  · rename_i hlocate
    exact FileTree.allowed_of_locate hlocate
  · cases hfile

end Dump
end SectionDump
