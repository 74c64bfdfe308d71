import SectionDump.Proofs.Building

/-!
# Overlaps

Sorted sections are compared neighbour by neighbour, and the first two that do not
lie one below the other are reported with the start of the second. All sections
before that start are apart and all behind it start later, so it is the least
address that two sections share, whatever the order of sections with equal starts.
-/
namespace SectionDump

namespace Section

/-- How many of the sections have a byte at the address. -/
def holders (sections : List Section) (a : UInt64) : Nat :=
  sections.countP fun s => s.contains a

/-- The least address that more than one of the sections has. -/
structure FirstShared (sections : List Section) (a : UInt64) : Prop where
  shared : 2 ≤ holders sections a
  least : ∀ b, 2 ≤ holders sections b → a ≤ b

theorem FirstShared.unique {sections : List Section} {a b : UInt64}
    (ha : FirstShared sections a) (hb : FirstShared sections b) : a = b :=
  UInt64.le_antisymm (ha.least b hb.shared) (hb.least a ha.shared)

theorem holders_perm {sections sections' : List Section} (h : sections.Perm sections')
    (a : UInt64) : holders sections a = holders sections' a := h.countP_eq _

theorem FirstShared.perm {sections sections' : List Section} {a : UInt64}
    (h : sections.Perm sections') (ha : FirstShared sections a) : FirstShared sections' a := by
  refine ⟨?_, ?_⟩
  · rw [← holders_perm h]
    exact ha.shared
  · intro b hb
    rw [← holders_perm h] at hb
    exact ha.least b hb

/-- Sections without bytes count nowhere. -/
theorem holders_arrange (sections : List Section) (a : UInt64) :
    holders (arrange sections) a = holders sections a := by
  rw [holders_perm (arrange_perm sections), holders, holders, List.countP_filter]
  apply List.countP_congr
  intro s _
  rw [Bool.and_eq_true, Bool.not_eq_true', isEmpty_eq_false_iff]
  constructor
  · exact And.left
  · intro hc
    refine ⟨hc, ?_⟩
    intro hsize
    exact Identity.not_covers_of_size_eq_zero hsize _ (contains_iff_covers.1 hc)

theorem firstShared_arrange {sections : List Section} {a : UInt64} :
    FirstShared (arrange sections) a ↔ FirstShared sections a := by
  constructor
  · rintro ⟨hshared, hleast⟩
    simp only [holders_arrange] at hshared hleast
    exact ⟨hshared, hleast⟩
  · rintro ⟨hshared, hleast⟩
    simp only [← holders_arrange sections] at hshared hleast
    exact ⟨hshared, hleast⟩

/-- Of sections that lie apart no two have the same address. -/
theorem holders_le_one {sections : List Section} (h : sections.Pairwise Apart) (a : UInt64) :
    holders sections a ≤ 1 := by
  induction sections with
  | nil => exact Nat.zero_le _
  | cons s rest ih =>
    rw [List.pairwise_cons] at h
    rw [holders, List.countP_cons]
    split
    · rename_i hs
      have hnone : rest.countP (fun t => t.contains a) = 0 := by
        rw [List.countP_eq_zero]
        intro t ht hc
        exact h.1 t ht a.toNat ⟨contains_iff_covers.1 hs, contains_iff_covers.1 hc⟩
      exact Nat.add_le_add_right (Nat.le_of_eq hnone) 1
    · exact ih h.2

/-- The reported neighbours are the first ones: up to the first of the two, each
section lies below the next. -/
theorem exists_of_firstOverlap? {l : List Section} {s t : Section}
    (h : firstOverlap? l = some (s, t)) :
    ∃ front back, l = front ++ s :: t :: back ∧ (front ++ [s]).Pairwise Below ∧
      ¬s.Below t := by
  induction l with
  | nil => cases h
  | cons u rest ih =>
    cases rest with
    | nil => cases h
    | cons v rest =>
      rw [firstOverlap?] at h
      split at h
      · rename_i huv
        obtain ⟨front, back, hl, hbelow, hst⟩ := ih h
        refine ⟨u :: front, back, by rw [hl, List.cons_append], ?_, hst⟩
        rw [List.cons_append, List.pairwise_cons]
        refine ⟨?_, hbelow⟩
        intro w hw
        obtain ⟨tail, htail⟩ : ∃ tail, front ++ [s] = v :: tail := by
          cases front with
          | nil =>
            rw [List.nil_append, List.cons.injEq] at hl
            exact ⟨[], by rw [hl.1, List.nil_append]⟩
          | cons x front =>
            rw [List.cons_append, List.cons.injEq] at hl
            exact ⟨front ++ [s], by rw [hl.1, List.cons_append]⟩
        rw [htail] at hw hbelow
        rcases List.mem_cons.1 hw with rfl | hw
        · exact huv
        · exact huv.trans (List.rel_of_pairwise_cons hbelow hw)
      · rename_i huv
        cases h
        exact ⟨[], rest, rfl, List.pairwise_singleton _ _, huv⟩

/-- The second of the reported neighbours starts at an address of both. -/
theorem contains_of_firstOverlap? {l : List Section} {s t : Section}
    (hsorted : l.Pairwise fun u v => u.start ≤ v.start) (hne : ∀ u ∈ l, u.size ≠ 0)
    (h : firstOverlap? l = some (s, t)) :
    s.start ≤ t.start ∧ s.contains t.start = true ∧ t.contains t.start = true := by
  obtain ⟨front, back, rfl, -, hst⟩ := exists_of_firstOverlap? h
  have hs : s.size ≠ 0 := hne s (by simp)
  have ht : t.size ≠ 0 := hne t (by simp)
  have htail := (List.pairwise_append.1 hsorted).2.1
  have hle : s.start ≤ t.start := List.rel_of_pairwise_cons htail List.mem_cons_self
  refine ⟨hle, ?_, ?_⟩
  · rw [below_iff hs] at hst
    rw [UInt64.le_iff_toNat_le] at hle
    rw [contains_iff]
    omega
  · have hpos := size_pos ht
    rw [contains_iff]
    omega

/-- Among sorted sections the first overlap is at the least shared address. -/
theorem firstShared_of_firstOverlap? {l : List Section} {s t : Section}
    (hsorted : l.Pairwise fun u v => u.start ≤ v.start) (hne : ∀ u ∈ l, u.size ≠ 0)
    (h : firstOverlap? l = some (s, t)) : FirstShared l t.start := by
  obtain ⟨-, hsc, htc⟩ := contains_of_firstOverlap? hsorted hne h
  obtain ⟨front, back, rfl, hbelow, -⟩ := exists_of_firstOverlap? h
  have htail := (List.pairwise_append.1 hsorted).2.1
  have hbehind : ∀ u ∈ t :: back, t.start ≤ u.start := by
    intro u hu
    rcases List.mem_cons.1 hu with rfl | hu
    · exact UInt64.le_refl _
    · exact List.rel_of_pairwise_cons htail.of_cons hu
  refine ⟨?_, ?_⟩
  · rw [holders, List.countP_append, List.countP_cons, List.countP_cons, if_pos hsc, if_pos htc]
    omega
  · intro b hb
    apply UInt64.not_lt.1
    intro hlt
    have hnone : holders (t :: back) b = 0 := by
      rw [holders, List.countP_eq_zero]
      intro u hu hc
      have hstart := hbehind u hu
      rw [contains_iff] at hc
      rw [UInt64.le_iff_toNat_le] at hstart
      rw [UInt64.lt_iff_toNat_lt] at hlt
      omega
    have hone : holders (front ++ [s]) b ≤ 1 := by
      apply holders_le_one
      apply hbelow.imp_of_mem
      intro u v hu _ huv
      have hmem : u ∈ front ++ s :: t :: back := by
        rcases List.mem_append.1 hu with hu | hu
        · exact List.mem_append_left _ hu
        · exact List.mem_append_right _ (List.mem_cons.2 (.inl (List.mem_singleton.1 hu)))
      exact apart_of_below (hne u hmem) huv
    have hsplit : holders (front ++ s :: t :: back) b =
        holders (front ++ [s]) b + holders (t :: back) b := by
      rw [holders, holders, holders, ← List.countP_append, List.append_assoc,
        List.singleton_append]
    omega

end Section

namespace Image

/-- Sections that do not lie apart are reported at the least address that two share. -/
theorem exists_of_ofSections_error {sections : List Section} {metadata : Metadata}
    {fault : LoadFault} (h : ofSections sections metadata = .error fault) :
    ∃ s t, Section.firstOverlap? (Section.arrange sections) = some (s, t) ∧
      fault = .overlap s.name t.name t.start ∧ Section.FirstShared sections t.start := by
  unfold ofSections at h
  split at h
  · rename_i hsome
    obtain ⟨⟨s, t⟩, hfirst⟩ := Option.isSome_iff_exists.1 hsome
    simp only [hfirst, Option.get_some, Except.error.injEq] at h
    have hshared := Section.firstShared_of_firstOverlap? (Section.arrange_sorted sections)
      (fun _ => Section.size_ne_zero_of_mem_arrange) hfirst
    exact ⟨s, t, hfirst, h.symm, Section.firstShared_arrange.1 hshared⟩
  · cases h

end Image
end SectionDump
