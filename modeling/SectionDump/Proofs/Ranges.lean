import SectionDump.Image.Build

/-!
# Ranges

The addresses of a section are whole numbers here, so a range ends where its last
byte is and none goes on at zero. Two sections lie apart when no address is in
both. Once sections are sorted by their starts, lying apart, all against all, is
the same as each one lying below the next.
-/
namespace SectionDump

namespace Identity

/-- The address is that of a byte which the identity declares. -/
def Covers (id : Identity) (a : Nat) : Prop :=
  id.start.toNat ≤ a ∧ a < id.start.toNat + id.size.toNat

instance (id : Identity) (a : Nat) : Decidable (id.Covers a) :=
  inferInstanceAs (Decidable (_ ∧ _))

/-- No address is in both ranges. -/
def Apart (i j : Identity) : Prop := ∀ a, ¬(i.Covers a ∧ j.Covers a)

theorem Apart.symm {i j : Identity} (h : i.Apart j) : j.Apart i := fun a hc => h a hc.symm

theorem not_covers_of_size_eq_zero {id : Identity} (h : id.size = 0) (a : Nat) :
    ¬id.Covers a := by
  intro hc
  simp only [Covers, h, UInt64.toNat_zero] at hc
  omega

end Identity

namespace Section

/-- The two sections share no address. -/
def Apart (s t : Section) : Prop := s.id.Apart t.id

theorem apart_of_size_eq_zero {s t : Section} (h : s.size = 0 ∨ t.size = 0) : s.Apart t := by
  intro a hc
  cases h with
  | inl hs => exact Identity.not_covers_of_size_eq_zero hs a hc.1
  | inr ht => exact Identity.not_covers_of_size_eq_zero ht a hc.2

theorem contains_iff_covers {s : Section} {a : UInt64} :
    s.contains a = true ↔ s.id.Covers a.toNat := contains_iff

theorem isEmpty_iff {s : Section} : s.isEmpty = true ↔ s.size = 0 := by
  have hlen := s.length_data
  rw [isEmpty, List.isEmpty_iff, ← List.length_eq_zero_iff, hlen, size, ← UInt64.toNat_inj,
    UInt64.toNat_zero]

theorem isEmpty_eq_false_iff {s : Section} : s.isEmpty = false ↔ s.size ≠ 0 := by
  rw [← Bool.not_eq_true, isEmpty_iff]

theorem last_sub_start {s : Section} (h : s.size ≠ 0) : s.last - s.start + 1 = s.size := by
  rw [last, if_neg h, UInt64.add_comm s.start, UInt64.add_sub_cancel, UInt64.sub_add_cancel]

/-- A section lies below another where its range ends no later than the other starts. -/
theorem below_iff {s t : Section} (h : s.size ≠ 0) :
    s.Below t ↔ s.start.toNat + s.size.toNat ≤ t.start.toNat := by
  have hpos := size_pos h
  rw [Below, UInt64.lt_iff_toNat_lt, toNat_last h]
  omega

theorem apart_of_below {s t : Section} (hs : s.size ≠ 0) (h : s.Below t) : s.Apart t := by
  have hend : s.id.start.toNat + s.id.size.toNat ≤ t.id.start.toNat := (below_iff hs).1 h
  rintro a ⟨hsa, hta⟩
  have h₁ := hsa.2
  have h₂ := hta.1
  omega

/-- Otherwise the start of the second section would be an address of both. -/
theorem below_of_apart {s t : Section} (hs : s.size ≠ 0) (ht : t.size ≠ 0)
    (hle : s.start ≤ t.start) (h : s.Apart t) : s.Below t := by
  rw [below_iff hs]
  rw [UInt64.le_iff_toNat_le] at hle
  have hpos := size_pos ht
  apply Nat.le_of_not_lt
  intro hlt
  apply h t.start.toNat
  constructor
  · exact ⟨hle, hlt⟩
  · exact ⟨Nat.le_refl _, Nat.lt_add_of_pos_right hpos⟩

theorem firstOverlap?_eq_none_iff {l : List Section} :
    firstOverlap? l = none ↔ l.Pairwise Below := by
  constructor
  · exact pairwise_of_firstOverlap?
  · intro h
    induction l with
    | nil => rfl
    | cons s rest ih =>
      cases rest with
      | nil => rfl
      | cons t rest =>
        have hst : s.Below t := List.rel_of_pairwise_cons h List.mem_cons_self
        rw [firstOverlap?, if_pos hst]
        exact ih h.of_cons

theorem arrange_sorted (sections : List Section) :
    (arrange sections).Pairwise fun s t => s.start ≤ t.start := by
  have htotal : ∀ s t : Section,
      decide (s.start ≤ t.start) = true ∨ decide (t.start ≤ s.start) = true :=
    fun s t => by simpa using UInt64.le_total s.start t.start
  have htrans : ∀ s t u : Section, decide (s.start ≤ t.start) = true →
      decide (t.start ≤ u.start) = true → decide (s.start ≤ u.start) = true := by
    intro s t u hst htu
    simp only [decide_eq_true_eq] at hst htu ⊢
    exact UInt64.le_trans hst htu
  exact (Sorting.sort_pairwise htotal htrans _).imp fun hle => of_decide_eq_true hle

theorem arrange_perm (sections : List Section) :
    (arrange sections).Perm (sections.filter fun s => !s.isEmpty) := Sorting.sort_perm _ _

theorem size_ne_zero_of_mem_arrange {sections : List Section} {s : Section}
    (h : s ∈ arrange sections) : s.size ≠ 0 := isEmpty_eq_false_iff.1 (mem_arrange.1 h).2

/-- Comparing neighbours is enough: sorted sections lie each below the next exactly
when no two of all the given ones share an address. -/
theorem arrange_pairwise_below_iff (sections : List Section) :
    (arrange sections).Pairwise Below ↔ sections.Pairwise Apart := by
  have hne : ∀ s ∈ arrange sections, s.size ≠ 0 := fun _ => size_ne_zero_of_mem_arrange
  have hsorted : (arrange sections).Pairwise Below ↔ (arrange sections).Pairwise Apart := by
    constructor
    · intro h
      exact h.imp_of_mem fun hs _ hst => apart_of_below (hne _ hs) hst
    · intro h
      exact (h.and (arrange_sorted sections)).imp_of_mem fun hs ht hst =>
        below_of_apart (hne _ hs) (hne _ ht) hst.2 hst.1
  have hperm : (arrange sections).Pairwise Apart ↔
      (sections.filter fun s => !s.isEmpty).Pairwise Apart :=
    (arrange_perm sections).pairwise_iff fun h => Identity.Apart.symm h
  rw [hsorted, hperm, List.pairwise_filter]
  constructor
  · intro h
    apply h.imp
    intro s t hst
    by_cases hs : s.size = 0
    · exact apart_of_size_eq_zero (.inl hs)
    · by_cases ht : t.size = 0
      · exact apart_of_size_eq_zero (.inr ht)
      · exact hst (by simp [isEmpty_eq_false_iff.2 hs]) (by simp [isEmpty_eq_false_iff.2 ht])
  · intro h
    exact h.imp fun hst _ _ => hst

end Section
end SectionDump
