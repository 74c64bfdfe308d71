import SectionDump.Proofs.Overlaps

/-!
# Overlap reports

When every file holds a section, files can be refused for an overlap only. The report
names two of the files and the least address that any two of them share, which is where
the second of the named ranges starts. Of all pairs that overlap only two neighbours of
the sorted sections are looked at, so that no other pair shares a lower address has to
come from what lies before and behind them.
-/
namespace SectionDump

/-- Files at two places declare the identities, and both ranges have the address. -/
def SharedBy (files : List (Path × Bytes)) (i j : Identity) (a : Nat) : Prop :=
  ∃ (m n : Nat) (f g : Path × Bytes), m ≠ n ∧ files[m]? = some f ∧ files[n]? = some g ∧
    Declares f i ∧ Declares g j ∧ i.Covers a ∧ j.Covers a

/-- The second range starts at the least address that two files share, and the first
range has that address too. -/
structure FirstOverlap (files : List (Path × Bytes)) (i j : Identity) : Prop where
  shared : SharedBy files i j j.start.toNat
  start_le : i.start ≤ j.start
  least : ∀ i' j' a, SharedBy files i' j' a → j.start.toNat ≤ a

/-- Shared addresses are addresses of the address space. -/
theorem SharedBy.lt_size {files : List (Path × Bytes)} {i j : Identity} {a : Nat}
    (h : SharedBy files i j a) : a < UInt64.size := by
  obtain ⟨m, n, f, g, -, -, -, hi, -, hia, -⟩ := h
  rcases Identity.fits_of_parse hi.1 with hsize | hfits
  · exact absurd hia (Identity.not_covers_of_size_eq_zero hsize a)
  · exact Nat.lt_of_lt_of_le hia.2 hfits

/-- Members that come first in another order are at two places of the list. -/
theorem exists_places_of_perm {α : Type} {l rest : List α} {x y : α}
    (h : l.Perm (x :: y :: rest)) : ∃ m n : Nat, m ≠ n ∧ l[m]? = some x ∧ l[n]? = some y := by
  have hx : x ∈ l := h.mem_iff.2 List.mem_cons_self
  obtain ⟨front, back, rfl⟩ := List.append_of_mem hx
  have hrest : (front ++ back).Perm (y :: rest) := (List.perm_middle.symm.trans h).cons_inv
  have hy : y ∈ front ++ back := hrest.mem_iff.2 List.mem_cons_self
  have hm : (front ++ x :: back)[front.length]? = some x := by simp
  rcases List.mem_append.1 hy with hy | hy
  · obtain ⟨n, hn, rfl⟩ := List.getElem_of_mem hy
    refine ⟨front.length, n, by omega, hm, ?_⟩
    rw [List.getElem?_append_left hn, List.getElem?_eq_getElem hn]
  · obtain ⟨n, hn, rfl⟩ := List.getElem_of_mem hy
    refine ⟨front.length, front.length + (n + 1), by omega, hm, ?_⟩
    rw [List.getElem?_append_right (Nat.le_add_right _ _), Nat.add_sub_cancel_left,
      List.getElem?_cons_succ, List.getElem?_eq_getElem hn]

namespace Section

/-- Two places with the address are counted both. -/
theorem two_le_holders {sections : List Section} {m n : Nat} {s t : Section} {a : UInt64}
    (hlt : m < n) (hs : sections[m]? = some s) (ht : sections[n]? = some t)
    (hsa : s.contains a = true) (hta : t.contains a = true) : 2 ≤ holders sections a := by
  have hfront : 0 < (sections.take n).countP fun u => u.contains a := by
    apply List.countP_pos_iff.2
    refine ⟨s, ?_, hsa⟩
    apply List.mem_of_getElem? (i := m)
    rw [List.getElem?_take, if_pos hlt, hs]
  have hback : 0 < (sections.drop n).countP fun u => u.contains a := by
    apply List.countP_pos_iff.2
    refine ⟨t, ?_, hta⟩
    apply List.mem_of_getElem? (i := 0)
    rw [List.getElem?_drop, Nat.add_zero, ht]
  rw [holders, ← List.take_append_drop n sections, List.countP_append]
  omega

/-- The file at a place is that of the section at the same place. -/
theorem exists_of_declares {files : List (Path × Bytes)} {sections : List Section}
    (h : ofFiles files = .ok sections) {n : Nat} {f : Path × Bytes} {id : Identity}
    (hf : files[n]? = some f) (hid : Declares f id) : ∃ s, sections[n]? = some s ∧ s.id = id := by
  obtain ⟨rfl, hparse⟩ := ofFiles_eq_ok_iff.1 h
  rw [List.getElem?_map] at hf
  obtain ⟨s, hs, rfl⟩ := Option.map_eq_some_iff.1 hf
  exact ⟨s, hs, ((declares_file_iff (hparse s (List.mem_of_getElem? hs))).1 hid).symm⟩

/-- A shared address is one of the address space, and two sections have it. -/
theorem exists_holders_of_sharedBy {files : List (Path × Bytes)} {sections : List Section}
    (h : ofFiles files = .ok sections) {i j : Identity} {a : Nat} (hshared : SharedBy files i j a) :
    ∃ w : UInt64, w.toNat = a ∧ 2 ≤ holders sections w := by
  obtain ⟨w, rfl⟩ : ∃ w : UInt64, w.toNat = a :=
    ⟨UInt64.ofNat a, UInt64.toNat_ofNat_of_lt' hshared.lt_size⟩
  obtain ⟨m, n, f, g, hmn, hf, hg, hi, hj, hia, hja⟩ := hshared
  obtain ⟨s, hs, rfl⟩ := exists_of_declares h hf hi
  obtain ⟨t, ht, rfl⟩ := exists_of_declares h hg hj
  rw [← contains_iff_covers] at hia hja
  refine ⟨w, rfl, ?_⟩
  rcases Nat.lt_or_gt_of_ne hmn with hlt | hlt
  · exact two_le_holders hlt hs ht hia hja
  · exact two_le_holders hlt ht hs hja hia

/-- Sections of the files, in any order, are declared by files at different places. -/
theorem sharedBy_of_perm {files : List (Path × Bytes)} {sections rest : List Section}
    (h : ofFiles files = .ok sections) {s t : Section} (hperm : sections.Perm (s :: t :: rest))
    {a : UInt64} (hsa : s.contains a = true) (hta : t.contains a = true) :
    SharedBy files s.id t.id a.toNat := by
  obtain ⟨rfl, hparse⟩ := ofFiles_eq_ok_iff.1 h
  obtain ⟨m, n, hmn, hs, ht⟩ := exists_places_of_perm hperm
  have hdeclares : ∀ u ∈ sections, Declares u.file u.id :=
    fun u hu => (declares_file_iff (hparse u hu)).2 rfl
  refine ⟨m, n, s.file, t.file, hmn, ?_, ?_, hdeclares s (List.mem_of_getElem? hs),
    hdeclares t (List.mem_of_getElem? ht), contains_iff_covers.1 hsa, contains_iff_covers.1 hta⟩
  · rw [List.getElem?_map, hs, Option.map_some]
  · rw [List.getElem?_map, ht, Option.map_some]

/-- The reported neighbours are two of the given sections. -/
theorem exists_perm_of_firstOverlap? {sections : List Section} {s t : Section}
    (h : firstOverlap? (arrange sections) = some (s, t)) :
    ∃ rest, sections.Perm (s :: t :: rest) := by
  obtain ⟨front, back, harranged, -, -⟩ := exists_of_firstOverlap? h
  have hpair : (front ++ s :: t :: back).Perm (s :: t :: (front ++ back)) :=
    List.perm_middle.trans (List.perm_middle.cons s)
  have hfilter : (sections.filter fun u => !u.isEmpty).Perm (s :: t :: (front ++ back)) := by
    apply (arrange_perm sections).symm.trans
    rw [harranged]
    exact hpair
  refine ⟨front ++ back ++ sections.filter fun u => !!u.isEmpty, ?_⟩
  apply (List.filter_append_perm (fun u => !u.isEmpty) sections).symm.trans
  exact hfilter.append_right _

end Section

namespace Image

variable {files : List (Path × Bytes)} {metadata : Option Metadata}

theorem exists_fault_of_sharedBy (hall : ∀ f ∈ files, HoldsSection f) {i j : Identity} {a : Nat}
    (h : SharedBy files i j a) : ∃ fault, build files metadata = .error fault := by
  obtain ⟨sections, hsections⟩ := Section.ofFiles_of_forall hall
  obtain ⟨w, -, htwo⟩ := Section.exists_holders_of_sharedBy hsections h
  cases hbuild : build files metadata with
  | error fault => exact ⟨fault, rfl⟩
  | ok image =>
    have hfiles := (exists_build_iff.1 ⟨image, hbuild⟩).2
    have hapart := (Section.pairwise_apart_iff hsections).2 hfiles
    have hone := Section.holders_le_one hapart w
    omega

theorem firstOverlap_of_build_error (hall : ∀ f ∈ files, HoldsSection f) {fault : LoadFault}
    (h : build files metadata = .error fault) :
    ∃ i j, fault = .overlap i.name j.name j.start ∧ FirstOverlap files i j := by
  obtain ⟨sections, hsections⟩ := Section.ofFiles_of_forall hall
  rw [build, hsections] at h
  obtain ⟨s, t, hfirst, hfault, hleast⟩ := exists_of_ofSections_error h
  obtain ⟨rest, hperm⟩ := Section.exists_perm_of_firstOverlap? hfirst
  obtain ⟨hle, hsc, htc⟩ := Section.contains_of_firstOverlap? (Section.arrange_sorted sections)
    (fun _ => Section.size_ne_zero_of_mem_arrange) hfirst
  refine ⟨s.id, t.id, hfault, Section.sharedBy_of_perm hsections hperm hsc htc, hle, ?_⟩
  intro i j a hshared
  obtain ⟨w, rfl, htwo⟩ := Section.exists_holders_of_sharedBy hsections hshared
  exact UInt64.le_iff_toNat_le.1 (hleast.least w htwo)

/-- Files that all hold sections are refused exactly when two of them share an address.
The fault is then an overlap. It names two files of different places, and its address is
the least one that any two files share, where the second of the named ranges starts. -/
theorem build_error_firstOverlap (hall : ∀ f ∈ files, HoldsSection f) :
    ((∃ fault, build files metadata = .error fault) ↔ ∃ i j a, SharedBy files i j a) ∧
    ∀ fault, build files metadata = .error fault →
      ∃ i j, fault = .overlap i.name j.name j.start ∧ FirstOverlap files i j := by
  refine ⟨?_, fun fault h => firstOverlap_of_build_error hall h⟩
  constructor
  · rintro ⟨fault, h⟩
    obtain ⟨i, j, -, hoverlap⟩ := firstOverlap_of_build_error hall h
    exact ⟨i, j, _, hoverlap.shared⟩
  · rintro ⟨i, j, a, hshared⟩
    exact exists_fault_of_sharedBy hall hshared

/-- A long section over two short ones that touch it, and an empty one before them. -/
def coveredFiles : List (Path × Bytes) := [
  ("c-1006-1-0-r.bin".toList, [7]),
  ("none-1001-0-0-r.bin".toList, []),
  ("long-1000-8-0-r.bin".toList, [0, 1, 2, 3, 4, 5, 6, 7]),
  ("b-1004-2-0-r.bin".toList, [4, 5])]

theorem build_error_firstOverlap_covered :
    (∀ f ∈ coveredFiles, HoldsSection f) ∧
      build coveredFiles none = .error (.overlap "long".toList "b".toList 0x1004) ∧
      ∃ i j, LoadFault.overlap "long".toList "b".toList 0x1004 = .overlap i.name j.name j.start ∧
        FirstOverlap coveredFiles i j := by
  have hall : ∀ f ∈ coveredFiles, HoldsSection f := by
    have hread : (Section.ofFiles coveredFiles).toOption.isSome = true := by decide +kernel
    cases h : Section.ofFiles coveredFiles with
    | ok sections => exact Section.holdsSection_of_ofFiles h
    | error fault =>
      rw [h] at hread
      cases hread
  have hbuild : build coveredFiles none = .error (.overlap "long".toList "b".toList 0x1004) := rfl
  exact ⟨hall, hbuild, (build_error_firstOverlap hall).2 _ hbuild⟩

end Image
end SectionDump
