import SectionDump.FileTree
import SectionDump.Proofs.BaseNames
import SectionDump.Proofs.Encoding
import SectionDump.Proofs.FileNames

/-!
# Stored files

What is asked of a file system: a written file is listed once and gives its bytes
back, and the files beside it stay as they are. How a directory orders its
entries is left open, at every listing anew. After any run of such writes into an
empty directory it holds exactly the files written. A file tree is such a file
system for all names within its limits.
-/
namespace SectionDump

namespace FileSystem

def entryOf (file : Text × Bytes) : DirectoryEntry := ⟨Utf8.encode file.1, true⟩

/-- One file system is what writing a file into a directory makes of the other. -/
structure Writes (root : Path) (file : Text × Bytes) (before after : FileSystem) : Prop where
  /-- A new name joins those listed before, at any place. -/
  listed : ∀ old, before.entries root = .ok old →
    Utf8.encode file.1 ∉ old.map DirectoryEntry.name →
      ∃ new, after.entries root = .ok new ∧ new.Perm (entryOf file :: old)
  returned : after.contents (Path.child root file.1) = .ok file.2
  kept : ∀ other, Path.Proper other → other ≠ file.1 →
    after.contents (Path.child root other) = before.contents (Path.child root other)

/-- Files are written into a directory one after another. -/
inductive Written (root : Path) : FileSystem → List (Text × Bytes) → FileSystem → Prop where
  | nil (fs : FileSystem) : Written root fs [] fs
  | cons {before between after : FileSystem} {file : Text × Bytes} {rest : List (Text × Bytes)} :
      Writes root file before between → Written root between rest after →
        Written root before (file :: rest) after

/-- The directory lists exactly these files, in some order, and gives their bytes. -/
structure Holds (fs : FileSystem) (root : Path) (files : List (Text × Bytes)) : Prop where
  listed : ∃ entries, fs.entries root = .ok entries ∧ entries.Perm (files.map entryOf)
  returned : ∀ f ∈ files, fs.contents (Path.child root f.1) = .ok f.2

theorem Holds.perm {fs : FileSystem} {root : Path} {files files' : List (Text × Bytes)}
    (h : Holds fs root files) (hperm : files.Perm files') : Holds fs root files' := by
  obtain ⟨entries, hentries, hlisted⟩ := h.listed
  exact ⟨⟨entries, hentries, hlisted.trans (hperm.map _)⟩,
    fun f hf => h.returned f (hperm.mem_iff.2 hf)⟩

theorem encode_mem_names_iff {files : List (Text × Bytes)} {entries : List DirectoryEntry}
    (h : entries.Perm (files.map entryOf)) {name : Text} :
    Utf8.encode name ∈ entries.map DirectoryEntry.name ↔ name ∈ files.map Prod.fst := by
  rw [(h.map _).mem_iff, List.map_map, List.mem_map, List.mem_map]
  constructor
  · rintro ⟨f, hf, e⟩
    exact ⟨f, hf, Utf8.encode_injective e⟩
  · rintro ⟨f, hf, rfl⟩
    exact ⟨f, hf, rfl⟩

/-- A new file joins the files that a directory holds. -/
theorem Holds.write {before after : FileSystem} {root : Path} {files : List (Text × Bytes)}
    {file : Text × Bytes} (h : Holds before root files) (hw : Writes root file before after)
    (hproper : ∀ f ∈ files, Path.Proper f.1) (hnew : file.1 ∉ files.map Prod.fst) :
    Holds after root (file :: files) := by
  obtain ⟨old, hold, hlisted⟩ := h.listed
  have hfresh : Utf8.encode file.1 ∉ old.map DirectoryEntry.name :=
    fun hmem => hnew ((encode_mem_names_iff hlisted).1 hmem)
  obtain ⟨new, hnew', hperm⟩ := hw.listed old hold hfresh
  refine ⟨⟨new, hnew', hperm.trans (hlisted.cons _)⟩, ?_⟩
  intro f hf
  rcases List.mem_cons.1 hf with rfl | hf
  · exact hw.returned
  · have hne : f.1 ≠ file.1 := fun e => hnew (e ▸ List.mem_map_of_mem hf)
    rw [hw.kept f.1 (hproper f hf) hne]
    exact h.returned f hf

/-- A run of writes adds its files to those that the directory holds, as long as no
name is written twice. -/
theorem Holds.written {before after : FileSystem} {root : Path} {files more : List (Text × Bytes)}
    (h : Holds before root files) (hw : Written root before more after)
    (hproper : ∀ f ∈ more ++ files, Path.Proper f.1)
    (hdistinct : ((more ++ files).map Prod.fst).Nodup) : Holds after root (more ++ files) := by
  induction hw generalizing files with
  | nil => exact h
  | @cons before between after file rest hfile _ ih =>
    have hmiddle : (file :: (rest ++ files)).Perm (rest ++ file :: files) :=
      List.perm_middle.symm
    have hnew : file.1 ∉ files.map Prod.fst := by
      intro hmem
      have hnot := (List.nodup_cons.1 hdistinct).1
      exact hnot (by simpa using Or.inr (List.mem_map.1 hmem))
    have hstep := h.write hfile
      (fun f hf => hproper f (List.mem_append_right _ hf)) hnew
    have hrest := ih hstep (fun f hf => hproper f (hmiddle.mem_iff.2 hf))
      ((hmiddle.map Prod.fst).nodup_iff.1 hdistinct)
    exact hrest.perm hmiddle.symm

/-- An empty directory holds exactly what is written into it. -/
theorem holds_of_written {before after : FileSystem} {root : Path} {files : List (Text × Bytes)}
    (hempty : before.entries root = .ok []) (hw : Written root before files after)
    (hproper : ∀ f ∈ files, Path.Proper f.1) (hdistinct : (files.map Prod.fst).Nodup) :
    Holds after root files := by
  have hnone : Holds before root [] := ⟨⟨[], hempty, .refl _⟩, by simp⟩
  have hall := hnone.written hw (by simpa using hproper) (by simpa using hdistinct)
  simpa using hall

end FileSystem

namespace FileTree

/-- A name that an entry of a directory can have. -/
structure EntryName (n : Bytes) : Prop where
  slash_not_mem : slash ∉ n
  ne_nil : n ≠ []
  ne_here : n ≠ hereName
  ne_parent : n ≠ parentName

theorem entryName_encode {name : Text} (h : Path.Proper name) : EntryName (Utf8.encode name) where
  slash_not_mem hm :=
    h.slash_not_mem ((Utf8.mem_encode_iff (show '/'.toNat < 0x80 by decide)).1 hm)
  ne_nil e := h.ne_nil (Utf8.encode_eq_nil_iff.1 e)
  ne_here e := h.ne_here (Utf8.encode_injective (t := Path.hereName) e)
  ne_parent e := h.ne_parent (Utf8.encode_injective (t := Path.parentName) e)

theorem encode_child {root : Path} (h : root ≠ []) (name : Text) :
    Utf8.encode (Path.child root name) = entryPath (Utf8.encode root) (Utf8.encode name) := by
  have hslash : (Utf8.encode root).getLast? = some slash ↔ root.getLast? = some '/' :=
    Utf8.getLast?_encode_eq_iff (show '/'.toNat < 0x80 by decide)
  have hone : Utf8.encodeChar '/' = [slash] := rfl
  rw [Path.child, entryPath]
  split
  · rename_i e
    exact absurd (List.getLast?_eq_none_iff.1 e) h
  · rename_i e
    rw [if_pos (hslash.2 e), Utf8.encode_append]
  · rename_i c hne e
    have hc : ¬root.getLast? = some '/' := by
      rw [e]
      intro heq
      exact hne (Option.some.inj heq)
    rw [if_neg (mt hslash.1 hc), Utf8.encode_append, Utf8.encode_cons, hone]
    rfl

/-! ## Following -/

theorem step_entry {l : Location} {n : Bytes} (h : EntryName n) :
    step (.inside l) n = .inside (l ++ [n]) := by
  simp [step, h.ne_nil, h.ne_here, h.ne_parent]

theorem follow_append (t : FileTree) (p : Place) (xs ys : List Bytes) :
    t.follow p (xs ++ ys) = (t.follow p xs).bind fun q => t.follow q ys := by
  induction xs generalizing p with
  | nil => rfl
  | cons n rest ih =>
    simp only [List.cons_append, follow]
    split
    · rfl
    · rfl
    · split
      · rfl
      · exact ih _

/-- Following succeeds through directories only, and goes where the names say. -/
theorem follow_eq_ok_iff {t : FileTree} {p q : Place} {names : List Bytes} :
    t.follow p names = .ok q ↔ q = names.foldl step p ∧
      (∀ d ∈ (way p names).dropLast, t.node? d = some .directory) ∧
      ∀ n ∈ names, n.length ≤ nameLimit := by
  induction names generalizing p with
  | nil => simp [follow, way, eq_comm]
  | cons n rest ih =>
    have hne : way (step p n) rest ≠ [] := by cases rest <;> simp [way]
    rw [way, List.dropLast_cons_of_ne_nil hne, List.forall_mem_cons, List.forall_mem_cons,
      List.foldl_cons, follow]
    cases hp : t.node? p with
    | none => simp
    | some node =>
      cases node with
      | file data => simp
      | directory =>
        simp only [true_and]
        split
        · rename_i hlong
          simp [Nat.not_le.2 hlong]
        · rename_i hshort
          rw [ih]
          simp [Nat.le_of_not_lt hshort]

theorem way_concat (p : Place) (names : List Bytes) (n : Bytes) :
    way p (names ++ [n]) = way p names ++ [step (names.foldl step p) n] := by
  induction names generalizing p with
  | nil => rfl
  | cons m rest ih => simp [way, ih]

theorem mem_way {p d : Place} {names : List Bytes} (h : d ∈ way p names) :
    d ∈ (way p names).dropLast ∨ d = names.foldl step p := by
  induction names generalizing p with
  | nil => simpa [way] using h
  | cons n rest ih =>
    have hne : way (step p n) rest ≠ [] := by cases rest <;> simp [way]
    rw [way, List.mem_cons] at h
    rw [way, List.dropLast_cons_of_ne_nil hne, List.mem_cons, List.foldl_cons]
    rcases h with rfl | h
    · exact .inl (.inl rfl)
    · exact (ih h).imp .inr id

theorem locate_eq_ok_iff {t : FileTree} {path : Bytes} {p : Place} {node : FileNode} :
    t.locate path = .ok (p, node) ↔ (0 ∉ path ∧ path.length ≤ pathLimit ∧ path ≠ []) ∧
      t.follow (start path) (path.splitOn slash) = .ok p ∧ t.node? p = some node := by
  rw [locate]
  by_cases hnul : 0 ∈ path
  · simp [hnul]
  by_cases hlong : pathLimit < path.length
  · simp [hnul, hlong, Nat.not_le.2 hlong]
  by_cases hnil : path = []
  · simp [hnil]
  rw [if_neg hnul, if_neg hlong, if_neg hnil, bind_eq_ok_iff]
  simp only [hnul, not_false_eq_true, Nat.le_of_not_lt hlong, hnil, ne_eq, and_self, true_and]
  constructor
  · rintro ⟨q, hq, h⟩
    cases hnode : t.node? q with
    | none => simp [hnode] at h
    | some m =>
      rw [hnode] at h
      cases h
      exact ⟨hq, hnode⟩
  · rintro ⟨hp, hnode⟩
    exact ⟨p, hp, by rw [hnode]⟩

/-- The path of an entry goes to its directory first and then takes the name. -/
theorem splitOn_entryPath (root : Bytes) {n : Bytes} (hn : slash ∉ n) :
    ∃ names, (entryPath root n).splitOn slash = names ++ [n] ∧
      (root.splitOn slash = names ∨ root.splitOn slash = names ++ [[]]) := by
  rw [entryPath]
  split
  · rename_i hlast
    obtain ⟨r, rfl⟩ := List.getLast?_eq_some_iff.1 hlast
    refine ⟨r.splitOn slash, ?_, .inr ?_⟩
    · rw [List.append_assoc, List.singleton_append, List.splitOn_append_cons_self,
        List.splitOn_eq_singleton hn]
    · rw [List.splitOn_append_cons_self, List.splitOn_nil]
  · refine ⟨root.splitOn slash, ?_, .inl rfl⟩
    rw [List.splitOn_append_cons_self, List.splitOn_eq_singleton hn]

theorem start_entryPath {root : Bytes} (h : root ≠ []) (n : Bytes) :
    start (entryPath root n) = start root := by
  obtain ⟨b, r, rfl⟩ := List.exists_cons_of_ne_nil h
  rw [entryPath]
  split <;> rfl

/-- Where the names of an entry's path lead before the last one. -/
theorem exists_names {t : FileTree} {root : Bytes} {l : Location}
    (h : t.locate root = .ok (.inside l, .directory)) {n : Bytes} (hn : slash ∉ n) :
    ∃ names, (entryPath root n).splitOn slash = names ++ [n] ∧
      t.follow (start (entryPath root n)) names = .ok (.inside l) := by
  obtain ⟨⟨-, -, hne⟩, hfollow, hnode⟩ := locate_eq_ok_iff.1 h
  obtain ⟨names, hsplit, hroot⟩ := splitOn_entryPath root hn
  refine ⟨names, hsplit, ?_⟩
  rw [start_entryPath hne]
  rcases hroot with hroot | hroot
  · rwa [hroot] at hfollow
  · rw [hroot, follow_append, bind_eq_ok_iff] at hfollow
    obtain ⟨q, hq, hlast⟩ := hfollow
    obtain ⟨hstep, -⟩ := follow_eq_ok_iff.1 hlast
    have hsame : Place.inside l = q := by simpa [step] using hstep
    rw [hsame]
    exact hq

/-- An entry is found under its name in its directory, when no limit is passed. -/
theorem locate_entryPath {t : FileTree} {root : Bytes} {l : Location}
    (h : t.locate root = .ok (.inside l, .directory)) {n : Bytes} (hn : EntryName n) :
    t.locate (entryPath root n) =
      if 0 ∈ entryPath root n then .error .nulInPath
      else if pathLimit < (entryPath root n).length then .error .nameTooLong
      else if nameLimit < n.length then .error .nameTooLong
      else match t.node? (.inside (l ++ [n])) with
        | some node => .ok (.inside (l ++ [n]), node)
        | none => .error .notFound := by
  obtain ⟨names, hsplit, hfollow⟩ := exists_names h hn.slash_not_mem
  obtain ⟨-, -, hnode⟩ := locate_eq_ok_iff.1 h
  have hne : entryPath root n ≠ [] := by
    intro e
    rw [e, List.splitOn_nil] at hsplit
    have hlast := congrArg List.getLast? hsplit
    rw [List.getLast?_concat, List.getLast?_singleton] at hlast
    exact hn.ne_nil (Option.some.inj hlast).symm
  have hlast : t.follow (.inside l) [n] =
      if nameLimit < n.length then .error .nameTooLong else .ok (.inside (l ++ [n])) := by
    simp only [follow, hnode, step_entry hn]
  have hpath : t.follow (start (entryPath root n)) (names ++ [n]) =
      if nameLimit < n.length then .error .nameTooLong else .ok (.inside (l ++ [n])) := by
    rw [follow_append, hfollow, ← hlast]
    rfl
  rw [locate, if_neg hne, hsplit, hpath]
  by_cases hlong : nameLimit < n.length
  · simp only [if_pos hlong, Except.bind]
  · cases hentry : t.node? (.inside (l ++ [n])) <;>
      simp only [if_neg hlong, Except.bind, hentry]

/-! ## Putting -/

theorem lookup_replace {l k : Location} (node : FileNode) (nodes : List (Location × FileNode)) :
    (nodes.map fun m => if m.1 = l then (l, node) else m).lookup k =
      if k = l ∧ (nodes.any fun m => m.1 = l) = true then some node else nodes.lookup k := by
  induction nodes with
  | nil => simp
  | cons m rest ih =>
    obtain ⟨j, x⟩ := m
    rw [List.map_cons, List.any_cons]
    by_cases hj : j = l
    · subst hj
      by_cases hk : k = j
      · simp [hk]
      · have hkj : (k == j) = false := by simpa using hk
        simp [List.lookup_cons, hk, hkj, ih]
    · rw [if_neg hj, List.lookup_cons, List.lookup_cons, ih]
      by_cases hk : k = j
      · subst hk
        simp [hj]
      · have hkj : (k == j) = false := by simpa using hk
        have hjl : decide (j = l) = false := by simpa using hj
        rw [hkj, hjl, Bool.false_or]

theorem lookup_concat {l k : Location} (node : FileNode) {nodes : List (Location × FileNode)}
    (h : (nodes.any fun m => m.1 = l) = false) :
    (nodes ++ [(l, node)]).lookup k = if k = l then some node else nodes.lookup k := by
  induction nodes with
  | nil =>
    by_cases hk : k = l
    · simp [hk]
    · have hkl : (k == l) = false := by simpa using hk
      simp [List.lookup_cons, hk, hkl]
  | cons m rest ih =>
    obtain ⟨j, x⟩ := m
    rw [List.any_cons, Bool.or_eq_false_iff] at h
    have hj : j ≠ l := by simpa using h.1
    rw [List.cons_append, List.lookup_cons, List.lookup_cons, ih h.2]
    by_cases hk : k = j
    · subst hk
      simp [hj]
    · have hkj : (k == j) = false := by simpa using hk
      simp [hkj]

/-- Putting a node changes what is at its place and nothing else. -/
theorem node?_put (t : FileTree) (node : FileNode) {l : Location} (h : l ≠ []) (p : Place) :
    (t.put node (.inside l)).node? p = if p = .inside l then some node else t.node? p := by
  cases p with
  | around => simp [node?]
  | nowhere => simp [node?]
  | inside k =>
    have hnodes : (t.put node (.inside l)).nodes.lookup k =
        if k = l then some node else t.nodes.lookup k := by
      rw [put]
      split
      · rename_i hany
        rw [lookup_replace]
        simp [hany]
      · rename_i hany
        exact lookup_concat node (by simpa only [Bool.not_eq_true] using hany)
    rw [node?, node?, hnodes]
    by_cases hk : k = []
    · simp [hk, h.symm]
    · simp [hk]

theorem mem_namesBelow_iff {t : FileTree} {l : Location} {n : Bytes} :
    n ∈ t.namesBelow (.inside l) ↔ (t.nodes.any fun m => m.1 = l ++ [n]) = true := by
  rw [namesBelow, List.mem_filterMap, List.any_eq_true]
  simp only [Option.filter_eq_some_iff, decide_eq_true_eq]
  constructor
  · rintro ⟨m, hm, hlast, hinit⟩
    refine ⟨m, hm, ?_⟩
    obtain ⟨r, hr⟩ := List.getLast?_eq_some_iff.1 hlast
    rw [hr, List.dropLast_concat] at hinit
    rw [hr, hinit]
  · rintro ⟨m, hm, e⟩
    exact ⟨m, hm, by rw [e, List.getLast?_concat], by rw [e, List.dropLast_concat]⟩

/-- A new name comes last among those below its directory. -/
theorem namesBelow_put (t : FileTree) (node : FileNode) {l : Location} {n : Bytes}
    (h : n ∉ t.namesBelow (.inside l)) :
    (t.put node (.inside (l ++ [n]))).namesBelow (.inside l) =
      t.namesBelow (.inside l) ++ [n] := by
  rw [put, if_neg (mt mem_namesBelow_iff.2 h), namesBelow, List.filterMap_append]
  simp [namesBelow]

/-- A file that is put below a directory is not on the way to it. -/
theorem locate_put {t : FileTree} {root : Bytes} {l : Location} {n : Bytes}
    (h : t.locate root = .ok (.inside l, .directory))
    (hfile : t.node? (.inside (l ++ [n])) ≠ some .directory) (data : Bytes) :
    (t.put (.file data) (.inside (l ++ [n]))).locate root = .ok (.inside l, .directory) := by
  have hnode : ∀ p, t.node? p = some .directory →
      (t.put (.file data) (.inside (l ++ [n]))).node? p = some .directory := by
    intro p hp
    have hne : p ≠ .inside (l ++ [n]) := fun e => hfile (e ▸ hp)
    rw [node?_put t _ (by simp), if_neg hne, hp]
  obtain ⟨hpath, hfollow, hdirectory⟩ := locate_eq_ok_iff.1 h
  obtain ⟨hplace, hway, hshort⟩ := follow_eq_ok_iff.1 hfollow
  refine locate_eq_ok_iff.2 ⟨hpath, ?_, hnode _ hdirectory⟩
  exact follow_eq_ok_iff.2 ⟨hplace, fun d hd => hnode d (hway d hd), hshort⟩

/-- All directories on the way are there, so writing only puts the file. -/
theorem write_entryPath {t : FileTree} {root : Bytes} {l : Location}
    (h : t.locate root = .ok (.inside l, .directory)) {n : Bytes} (hn : EntryName n)
    (data : Bytes) :
    t.write (entryPath root n) data = t.put (.file data) (.inside (l ++ [n])) := by
  obtain ⟨names, hsplit, hfollow⟩ := exists_names h hn.slash_not_mem
  obtain ⟨-, -, hnode⟩ := locate_eq_ok_iff.1 h
  obtain ⟨hplace, hway, -⟩ := follow_eq_ok_iff.1 hfollow
  have hthere : ∀ p ∈ way (start (entryPath root n)) names, (t.node? p).isSome = true := by
    intro p hp
    rcases mem_way hp with hp | rfl
    · rw [hway p hp]
      rfl
    · rw [← hplace, hnode]
      rfl
  have hmade : ∀ ps : List Place, (∀ p ∈ ps, (t.node? p).isSome = true) →
      t.makeDirectories ps = t := by
    intro ps hps
    induction ps with
    | nil => rfl
    | cons p rest ih =>
      rw [List.forall_mem_cons] at hps
      rw [makeDirectories, List.foldl_cons, if_pos hps.1]
      exact ih hps.2
  have htarget : target (entryPath root n) = .inside (l ++ [n]) := by
    rw [target, hsplit, List.foldl_append, ← hplace]
    exact step_entry hn
  rw [write, htarget, hsplit, way_concat, List.dropLast_concat, hmade _ hthere]

/-- A name within the limits of the tree. -/
structure Storable (root : Path) (name : Text) : Prop where
  proper : Path.Proper name
  nul_not_mem : 0 ∉ Utf8.encode (Path.child root name)
  name_le : (Utf8.encode name).length ≤ nameLimit
  path_le : (Utf8.encode (Path.child root name)).length ≤ pathLimit

/-- A directory of the tree below which there are files only. -/
structure FlatDirectory (t : FileTree) (root : Path) (l : Location) : Prop where
  located : t.locate (Utf8.encode root) = .ok (.inside l, .directory)
  entryName : ∀ n ∈ t.namesBelow (.inside l), EntryName n
  no_directory : ∀ n, t.node? (.inside (l ++ [n])) ≠ some .directory

theorem FlatDirectory.root_ne_nil {t : FileTree} {root : Path} {l : Location} (h : FlatDirectory t root l) :
    root ≠ [] := by
  obtain ⟨⟨-, -, hne⟩, -⟩ := locate_eq_ok_iff.1 h.located
  exact fun e => hne (Utf8.encode_eq_nil_iff.2 e)

theorem FlatDirectory.entries_eq {t : FileTree} {root : Path} {l : Location} (h : FlatDirectory t root l) :
    t.fileSystem.entries root = .ok ((t.namesBelow (.inside l)).map fun n =>
      ⟨n, t.isFile (entryPath (Utf8.encode root) n)⟩) := by
  show t.entries root = _
  rw [entries, h.located]
  rfl

section Writing

variable {t : FileTree} {root : Path} {l : Location} {file : Text × Bytes}

theorem FlatDirectory.write_eq (h : FlatDirectory t root l) (hs : Storable root file.1) :
    t.write (Utf8.encode (Path.child root file.1)) file.2 =
      t.put (.file file.2) (.inside (l ++ [Utf8.encode file.1])) := by
  rw [encode_child h.root_ne_nil]
  exact write_entryPath h.located (entryName_encode hs.proper) _

theorem FlatDirectory.locate_written (h : FlatDirectory t root l) (hs : Storable root file.1) :
    (t.write (Utf8.encode (Path.child root file.1)) file.2).locate
      (Utf8.encode (Path.child root file.1)) =
        .ok (.inside (l ++ [Utf8.encode file.1]), .file file.2) := by
  have hroot := locate_put h.located (h.no_directory (Utf8.encode file.1)) file.2
  have hnul := hs.nul_not_mem
  have hlong := hs.path_le
  rw [encode_child h.root_ne_nil] at hnul hlong ⊢
  rw [write_entryPath h.located (entryName_encode hs.proper),
    locate_entryPath hroot (entryName_encode hs.proper), if_neg hnul,
    if_neg (Nat.not_lt.2 hlong), if_neg (Nat.not_lt.2 hs.name_le), node?_put t _ (by simp),
    if_pos rfl]

/-- The directory is a flat directory as before. -/
theorem FlatDirectory.write (h : FlatDirectory t root l) (hs : Storable root file.1) :
    FlatDirectory (t.write (Utf8.encode (Path.child root file.1)) file.2) root l := by
  rw [h.write_eq hs]
  refine ⟨locate_put h.located (h.no_directory _) _, ?_, ?_⟩
  · intro n hn
    by_cases hmem : Utf8.encode file.1 ∈ t.namesBelow (.inside l)
    · rw [mem_namesBelow_iff] at hmem hn
      rw [put, if_pos hmem, List.any_map, List.any_eq_true] at hn
      obtain ⟨m, hm, e⟩ := hn
      refine h.entryName n (mem_namesBelow_iff.2 (List.any_eq_true.2 ⟨m, hm, ?_⟩))
      by_cases hk : m.1 = l ++ [Utf8.encode file.1] <;> simp_all
    · rw [namesBelow_put t _ hmem, List.mem_append, List.mem_singleton] at hn
      rcases hn with hn | rfl
      · exact h.entryName n hn
      · exact entryName_encode hs.proper
  · intro n
    rw [node?_put t _ (by simp)]
    split
    · simp
    · exact h.no_directory n

theorem FlatDirectory.locate_other (h : FlatDirectory t root l) (hs : Storable root file.1) {n : Bytes}
    (hn : EntryName n) (hne : n ≠ Utf8.encode file.1) :
    (t.write (Utf8.encode (Path.child root file.1)) file.2).locate
      (entryPath (Utf8.encode root) n) = t.locate (entryPath (Utf8.encode root) n) := by
  have hnode : (t.write (Utf8.encode (Path.child root file.1)) file.2).node?
      (.inside (l ++ [n])) = t.node? (.inside (l ++ [n])) := by
    rw [h.write_eq hs, node?_put t _ (by simp), if_neg (by simpa using hne)]
  rw [locate_entryPath (h.write hs).located hn, locate_entryPath h.located hn, hnode]

/-- The new name is listed as that of a file, and of the others nothing changes. -/
theorem FlatDirectory.entries_write (h : FlatDirectory t root l) (hs : Storable root file.1)
    {old : List DirectoryEntry} (hold : t.fileSystem.entries root = .ok old)
    (hfresh : Utf8.encode file.1 ∉ old.map DirectoryEntry.name) :
    ∃ new, (t.write (Utf8.encode (Path.child root file.1)) file.2).fileSystem.entries root =
      .ok new ∧ new.Perm (FileSystem.entryOf file :: old) := by
  rw [h.entries_eq, Except.ok.injEq] at hold
  subst hold
  have hnames : Utf8.encode file.1 ∉ t.namesBelow (.inside l) := by
    simpa [List.map_map, Function.comp_def] using hfresh
  have hlist : (t.write (Utf8.encode (Path.child root file.1)) file.2).namesBelow (.inside l) =
      t.namesBelow (.inside l) ++ [Utf8.encode file.1] := by
    rw [h.write_eq hs, namesBelow_put t _ hnames]
  have hfile : (t.write (Utf8.encode (Path.child root file.1)) file.2).isFile
      (entryPath (Utf8.encode root) (Utf8.encode file.1)) = true := by
    rw [isFile, ← encode_child h.root_ne_nil, h.locate_written hs]
  refine ⟨_, (h.write hs).entries_eq, ?_⟩
  rw [hlist, List.map_append, List.map_singleton, hfile]
  refine (List.perm_append_singleton _ _).trans (.cons _ (.of_eq (List.map_congr_left ?_)))
  intro n hn
  have hne : n ≠ Utf8.encode file.1 := fun e => hnames (e ▸ hn)
  rw [isFile, isFile, h.locate_other hs (h.entryName n hn) hne]

/-- A tree does with a storable file what is asked of a file system. -/
theorem FlatDirectory.writes (h : FlatDirectory t root l) (hs : Storable root file.1) :
    FileSystem.Writes root file t.fileSystem
      (t.write (Utf8.encode (Path.child root file.1)) file.2).fileSystem where
  listed _ hold hfresh := h.entries_write hs hold hfresh
  returned := by
    show FileTree.contents _ _ = _
    rw [contents, h.locate_written hs]
    rfl
  kept other hproper hne := by
    have hbytes : Utf8.encode other ≠ Utf8.encode file.1 :=
      fun e => hne (Utf8.encode_injective e)
    have hsame := h.locate_other hs (entryName_encode hproper) hbytes
    rw [← encode_child h.root_ne_nil other] at hsame
    show FileTree.contents _ _ = FileTree.contents _ _
    rw [contents, contents, hsame]

end Writing

/-- Writes files into a directory, one after another. -/
def writeAll (t : FileTree) (root : Path) (files : List (Text × Bytes)) : FileTree :=
  files.foldl (fun t f => t.write (Utf8.encode (Path.child root f.1)) f.2) t

/-- So does every run of writes, whatever their order. -/
theorem FlatDirectory.written {t : FileTree} {root : Path} {l : Location} {files : List (Text × Bytes)}
    (h : FlatDirectory t root l) (hs : ∀ f ∈ files, Storable root f.1) :
    FileSystem.Written root t.fileSystem files (t.writeAll root files).fileSystem := by
  induction files generalizing t with
  | nil => exact .nil _
  | cons f rest ih =>
    rw [List.forall_mem_cons] at hs
    exact .cons (h.writes hs.1) (ih (h.write hs.1) hs.2)

theorem flatDirectory_of_empty {t : FileTree} {root : Path} {l : Location}
    (h : t.locate (Utf8.encode root) = .ok (.inside l, .directory))
    (hempty : t.namesBelow (.inside l) = []) : FlatDirectory t root l := by
  refine ⟨h, by simp [hempty], ?_⟩
  intro n hnode
  have hnot : n ∉ t.namesBelow (.inside l) := by simp [hempty]
  have hnone : t.nodes.lookup (l ++ [n]) = none := by
    rw [List.lookup_eq_none_iff]
    intro m hm
    have hne : ¬m.1 = l ++ [n] := fun e =>
      hnot (mem_namesBelow_iff.2 (List.any_eq_true.2 ⟨m, hm, by simp [e]⟩))
    simpa using fun e => hne e.symm
  simp [node?, hnone] at hnode

end FileTree
end SectionDump
