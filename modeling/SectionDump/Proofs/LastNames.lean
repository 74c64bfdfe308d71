import SectionDump.Proofs.Building

/-!
# Last names

A path leads to its last name, or else to where it starts from or up. The last name is
all of a path that tells what section a file holds: neither the directories before it
matter, whatever they are called, nor slashes behind it that lead to the same place.
-/
namespace SectionDump

namespace Path

/-- Any mix of `/` and `/.`, by which a path leads nowhere else. -/
inductive Trailing : Text → Prop where
  | nil : Trailing []
  | slash {t : Text} : Trailing t → Trailing (t ++ ['/'])
  | here {t : Text} : Trailing t → Trailing (t ++ ['/', '.'])

/-- The name of a file ends the path, alone or behind a slash. -/
inductive LastName : Path → Text → Prop where
  | alone {name t : Text} : Proper name → Trailing t → LastName (name ++ t) name
  | within {name t : Text} (d : Path) : Proper name → Trailing t →
      LastName (d ++ '/' :: (name ++ t)) name

/-- The path leads to where it starts from, or up. -/
inductive Nameless : Path → Prop where
  | empty {t : Text} : Trailing t → Nameless t
  | here {t : Text} : Trailing t → Nameless (hereName ++ t)
  | parent {t : Text} : Trailing t → Nameless (parentName ++ t)
  | within {t : Text} (d : Path) : Trailing t → Nameless (d ++ '/' :: (parentName ++ t))

theorem Trailing.append {s t : Text} (hs : Trailing s) (ht : Trailing t) : Trailing (s ++ t) := by
  induction ht with
  | nil => rwa [List.append_nil]
  | slash _ ih =>
    rw [← List.append_assoc]
    exact .slash ih
  | here _ ih =>
    rw [← List.append_assoc]
    exact .here ih

theorem names_append_trailing (p : Path) {t : Text} (ht : Trailing t) :
    names (p ++ t) = names p := by
  induction ht with
  | nil => rw [List.append_nil]
  | slash _ ih => rw [← List.append_assoc, names_append_slash, ih, names_nil, List.append_nil]
  | here _ ih =>
    rw [← List.append_assoc, names_append_slash, ih]
    exact List.append_nil _

theorem LastName.append_trailing {p : Path} {name t : Text} (h : LastName p name)
    (ht : Trailing t) : LastName (p ++ t) name := by
  cases h with
  | alone hname hs =>
    rw [List.append_assoc]
    exact .alone hname (hs.append ht)
  | within d hname hs =>
    rw [List.append_assoc, List.cons_append, List.append_assoc]
    exact .within d hname (hs.append ht)

theorem Nameless.append_trailing {p : Path} {t : Text} (h : Nameless p) (ht : Trailing t) :
    Nameless (p ++ t) := by
  cases h with
  | empty hs => exact .empty (hs.append ht)
  | here hs =>
    rw [List.append_assoc]
    exact .here (hs.append ht)
  | parent hs =>
    rw [List.append_assoc]
    exact .parent (hs.append ht)
  | within d hs =>
    rw [List.append_assoc, List.cons_append, List.append_assoc]
    exact .within d (hs.append ht)

/-- A directory before a path leaves it its last name. -/
theorem LastName.slash_append {f : Path} {name : Text} (h : LastName f name) (d : Path) :
    LastName (d ++ '/' :: f) name := by
  cases h with
  | alone hname ht => exact .within d hname ht
  | within e hname ht =>
    rw [← List.cons_append, ← List.append_assoc]
    exact .within (d ++ '/' :: e) hname ht

theorem LastName.proper {p : Path} {name : Text} (h : LastName p name) : Proper name := by
  cases h with
  | alone hname => exact hname
  | within d hname => exact hname

theorem fileName?_of_lastName {p : Path} {name : Text} (h : LastName p name) :
    fileName? p = some name := by
  cases h with
  | alone hname ht => rw [fileName?, names_append_trailing _ ht, ← fileName?, fileName?_of_proper hname]
  | within d hname ht =>
    rw [fileName?, names_append_slash, names_append_trailing _ ht, ← names_append_slash, ← fileName?,
      fileName?_append_slash d hname]

theorem fileName?_of_nameless {p : Path} (h : Nameless p) : fileName? p = none := by
  cases h with
  | empty ht =>
    have hnames := names_append_trailing [] ht
    rw [List.nil_append] at hnames
    rw [fileName?, hnames]
    rfl
  | here ht =>
    rw [fileName?, names_append_trailing _ ht]
    rfl
  | parent ht =>
    rw [fileName?, names_append_trailing _ ht]
    rfl
  | within d ht =>
    have hparent : names parentName = [parentName] := rfl
    rw [fileName?, names_append_slash, names_append_trailing _ ht, hparent, List.getLast?_concat]
    rfl

/-- Slashes are taken off the end until a name is left or nothing. -/
theorem lastName_or_nameless (p : Path) : (∃ name, LastName p name) ∨ Nameless p := by
  induction hn : p.length using Nat.strongRecOn generalizing p with
  | ind n ih =>
    rcases slash_not_mem_or_append p with h | ⟨d, name, rfl, h⟩
    · rcases proper_of_slash_not_mem h with rfl | rfl | rfl | hproper
      · exact .inr (.empty .nil)
      · exact .inr (.here .nil)
      · exact .inr (.parent .nil)
      · have hlast := LastName.alone hproper .nil
        rw [List.append_nil] at hlast
        exact .inl ⟨p, hlast⟩
    · have hshorter : d.length < n := by
        rw [← hn, List.length_append, List.length_cons]
        omega
      have hstep : ∀ t, Trailing t → (∃ name, LastName (d ++ t) name) ∨ Nameless (d ++ t) := by
        intro t ht
        rcases ih d.length hshorter d rfl with ⟨other, hother⟩ | hnone
        · exact .inl ⟨other, hother.append_trailing ht⟩
        · exact .inr (hnone.append_trailing ht)
      rcases proper_of_slash_not_mem h with rfl | rfl | rfl | hproper
      · exact hstep ['/'] (.slash .nil)
      · exact hstep ['/', '.'] (.here .nil)
      · exact .inr (.within d .nil)
      · have hlast := LastName.within d hproper .nil
        rw [List.append_nil] at hlast
        exact .inl ⟨name, hlast⟩

theorem fileName?_eq_some_iff {p : Path} {name : Text} :
    fileName? p = some name ↔ LastName p name := by
  constructor
  · intro h
    rcases lastName_or_nameless p with ⟨other, hother⟩ | hnone
    · rw [fileName?_of_lastName hother, Option.some.injEq] at h
      exact h ▸ hother
    · rw [fileName?_of_nameless hnone] at h
      cases h
  · exact fileName?_of_lastName

theorem exists_lastName_iff {p : Path} : (∃ name, LastName p name) ↔ ¬Nameless p := by
  constructor
  · rintro ⟨name, hname⟩ hnone
    have hlast := fileName?_of_lastName hname
    rw [fileName?_of_nameless hnone] at hlast
    cases hlast
  · exact (lastName_or_nameless p).resolve_right

theorem LastName.unique {p : Path} {name other : Text} (h : LastName p name)
    (h' : LastName p other) : other = name := by
  have hlast := fileName?_of_lastName h'
  rw [fileName?_of_lastName h, Option.some.injEq] at hlast
  exact hlast.symm

/-- A path tells what its last name tells. -/
theorem baseName_of_lastName {p : Path} {name : Text} (h : LastName p name) :
    baseName p = baseName name := by
  rw [baseName_of_fileName? (fileName?_of_lastName h),
    baseName_of_fileName? (fileName?_of_proper h.proper)]

theorem lastName_self {name : Text} (h : Proper name) : LastName name name :=
  fileName?_eq_some_iff.1 (fileName?_of_proper h)

theorem lastName_child (root : Path) {name : Text} (h : Proper name) :
    LastName (child root name) name := fileName?_eq_some_iff.1 (fileName?_child root h)

end Path

open SectionDump.Path (LastName Nameless Trailing)

/-- The path tells of a file what the name tells, and nothing else. -/
structure ReadsAs (path : Path) (name : Text) : Prop where
  parse_eq : Identity.parse path = Identity.parse name
  isDumpName_eq : Identity.isDumpName path = Identity.isDumpName name
  /-- The section of the file has the identity in the name, and the same faults. -/
  ofFile_eq : ∀ data, (Section.ofFile path data).map Section.id =
    (Section.ofFile name data).map Section.id
  ofFile_iff : ∀ data id, (∃ s, Section.ofFile path data = .ok s ∧ s.id = id) ↔
    Identity.parse name = .ok id ∧ data.length = id.size.toNat

/-- The path of a file is kept in its section but decides nothing. -/
theorem Section.map_id_ofIdentity {id : Identity} (fits : id.Fits) (path path' : Path)
    (data : Bytes) : (ofIdentity id fits path data).map Section.id =
      (ofIdentity id fits path' data).map Section.id := by
  unfold ofIdentity
  split <;> rfl

theorem readsAs_of_lastName {path : Path} {name : Text} (h : LastName path name) :
    ReadsAs path name := by
  have hbase := Path.baseName_of_lastName h
  have hparse : Identity.parse path = Identity.parse name := by
    rw [Identity.parse, hbase, ← Identity.parse]
  constructor
  case parse_eq => exact hparse
  case isDumpName_eq => rw [Identity.isDumpName, hbase, ← Identity.isDumpName]
  case ofFile_eq =>
    intro data
    cases hname : Identity.parse name with
    | ok id =>
      rw [Section.ofFile_of_parse (hparse.trans hname), Section.ofFile_of_parse hname]
      exact Section.map_id_ofIdentity (Identity.fits_of_parse hname) path name data
    | error fault =>
      rw [Section.ofFile_of_parse_error (hparse.trans hname),
        Section.ofFile_of_parse_error hname]
  case ofFile_iff =>
    intro data id
    rw [Section.exists_ofFile_id_iff, Declares, hparse]

/-- A path that does not lead up or nowhere has one last name. It reads as that name does,
and so do the path behind any directory, the path with slashes behind it that lead to the
same place, and the name as an entry of any directory. -/
theorem readsAs_lastName {f : Path} (h : ¬Nameless f) :
    ∃ name, LastName f name ∧ (∀ other, LastName f other → other = name) ∧
      ReadsAs f name ∧ (∀ d, ReadsAs (d ++ '/' :: f) name) ∧
      (∀ t, Trailing t → ReadsAs (f ++ t) name) ∧
      ∀ root, ReadsAs (root ++ '/' :: name) name ∧ ReadsAs (Path.child root name) name := by
  obtain ⟨name, hname⟩ := Path.exists_lastName_iff.2 h
  refine ⟨name, hname, fun other => hname.unique, readsAs_of_lastName hname, ?_, ?_, ?_⟩
  · intro d
    exact readsAs_of_lastName (hname.slash_append d)
  · intro t ht
    exact readsAs_of_lastName (hname.append_trailing ht)
  · intro root
    exact ⟨readsAs_of_lastName ((Path.lastName_self hname.proper).slash_append root),
      readsAs_of_lastName (Path.lastName_child root hname.proper)⟩

/-! A directory that is named like a section and left again, before and in the path. -/

def otherDump : Path := "data-10-1-0-r.bin/..".toList

def slashedPath : Path := "old.bin/../text-1000-2-0-r-x.bin.1//./".toList

theorem readsAs_lastName_slashedPath :
    ¬Nameless slashedPath ∧ LastName slashedPath "text-1000-2-0-r-x.bin.1".toList ∧
      ReadsAs (otherDump ++ '/' :: slashedPath) "text-1000-2-0-r-x.bin.1".toList ∧
      Identity.parse (otherDump ++ '/' :: slashedPath) =
        .ok ⟨"text".toList, 0x1000, 2, 0, "r-x".toList⟩ := by
  have hnamed : ¬Nameless slashedPath := by
    intro hnone
    exact absurd (Path.fileName?_of_nameless hnone) (by decide)
  obtain ⟨name, hname, -, -, hreads, -⟩ := readsAs_lastName hnamed
  have hlast : some name = some "text-1000-2-0-r-x.bin.1".toList := by
    rw [← Path.fileName?_of_lastName hname]
    rfl
  obtain rfl := Option.some.inj hlast
  refine ⟨hnamed, hname, hreads otherDump, ?_⟩
  rw [(hreads otherDump).parse_eq]
  rfl

end SectionDump
