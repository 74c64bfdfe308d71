import SectionDump.Image.Query
import SectionDump.Proofs.Ranges

/-!
# Reading

Bisection keeps the place where a test changes inside its stretch, so it ends at
that place. The section before it is the only one that can hold an address, and
it is asked for all the bytes of a read. Every read is thus answered from one
section, whole or not at all.
-/
namespace SectionDump

/-- Where the test holds of a member, it holds of all members before it. -/
def Descends {α : Type} (test : α → Bool) (xs : Array α) : Prop :=
  ∀ (i j : Nat) (x y : α), i ≤ j → xs[i]? = some x → xs[j]? = some y →
    test y = true → test x = true

/-- The test holds before the stretch and fails behind it. -/
structure Brackets {α : Type} (test : α → Bool) (xs : Array α) (lo hi : Nat) : Prop where
  le : lo ≤ hi
  le_size : hi ≤ xs.size
  holds : ∀ (i : Nat) (x : α), i < lo → xs[i]? = some x → test x = true
  fails : ∀ (i : Nat) (x : α), hi ≤ i → xs[i]? = some x → test x = false

section Bisection

variable {α : Type} {test : α → Bool} {xs : Array α} {lo hi mid : Nat} {x : α}

theorem Brackets.right (hd : Descends test xs) (h : Brackets test xs lo hi) (hhi : mid < hi)
    (hx : xs[mid]? = some x) (ht : test x = true) : Brackets test xs (mid + 1) hi := by
  refine ⟨by omega, h.le_size, ?_, h.fails⟩
  intro i y hi hy
  exact hd i mid y x (by omega) hy hx ht

theorem Brackets.left (hd : Descends test xs) (h : Brackets test xs lo hi) (hlo : lo ≤ mid)
    (hhi : mid < hi) (hx : xs[mid]? = some x) (ht : test x = false) :
    Brackets test xs lo mid := by
  have hsize := h.le_size
  refine ⟨hlo, by omega, h.holds, ?_⟩
  intro i y hi hy
  cases hty : test y with
  | false => rfl
  | true =>
    have hmid := hd mid i x y hi hx hy hty
    rw [ht] at hmid
    cases hmid

/-- Each step keeps the brackets, and as many steps as the stretch is long close it. -/
theorem bisect_brackets (hd : Descends test xs) (steps lo hi : Nat) (hsteps : hi - lo ≤ steps)
    (h : Brackets test xs lo hi) :
    Brackets test xs (bisect test xs steps lo hi) (bisect test xs steps lo hi) := by
  induction steps generalizing lo hi with
  | zero =>
    have hle := h.le
    have he : lo = hi := by omega
    subst he
    exact h
  | succ steps ih =>
    rw [bisect]
    by_cases hlt : lo < hi
    · have hsize := h.le_size
      have hmid : lo + (hi - lo) / 2 < xs.size := by omega
      have hx := Array.getElem?_eq_getElem hmid
      simp only [if_pos hlt, hx, Option.any_some]
      cases ht : test xs[lo + (hi - lo) / 2] with
      | true =>
        rw [if_pos rfl]
        exact ih _ _ (by omega) (h.right hd (by omega) hx ht)
      | false =>
        rw [if_neg Bool.false_ne_true]
        exact ih _ _ (by omega) (h.left hd (by omega) (by omega) hx ht)
    · have hle := h.le
      have he : lo = hi := by omega
      subst he
      rw [if_neg hlt]
      exact h

theorem partitionPoint_brackets (hd : Descends test xs) :
    Brackets test xs (partitionPoint test xs) (partitionPoint test xs) := by
  apply bisect_brackets hd
  · omega
  · refine ⟨Nat.zero_le _, Nat.le_refl _, fun i x hi _ => by omega, ?_⟩
    intro i x hi hx
    rw [Array.getElem?_eq_none hi] at hx
    cases hx

end Bisection

namespace Image

theorem below_of_lt (image : Image) {i j : Nat} {s t : Section} (hij : i < j)
    (hs : image.sections[i]? = some s) (ht : image.sections[j]? = some t) : s.Below t := by
  obtain ⟨hi, rfl⟩ := Array.getElem?_eq_some_iff.1 hs
  obtain ⟨hj, rfl⟩ := Array.getElem?_eq_some_iff.1 ht
  exact List.pairwise_iff_getElem.1 image.ordered i j hi hj hij

theorem size_ne_zero (image : Image) {s : Section} (hs : s ∈ image.sections.toList) :
    s.size ≠ 0 := Section.isEmpty_eq_false_iff.1 (image.inhabited s hs)

/-- Sections that start at or below an address come before all others. -/
theorem starts_descend (image : Image) (a : UInt64) :
    Descends (fun s : Section => decide (s.start ≤ a)) image.sections := by
  intro i j s t hij hs ht hle
  simp only [decide_eq_true_eq] at hle ⊢
  rcases Nat.lt_or_eq_of_le hij with hlt | rfl
  · have hbelow : s.last < t.start := image.below_of_lt hlt hs ht
    have hstart : s.start < t.start := UInt64.lt_of_le_of_lt s.start_le_last hbelow
    exact UInt64.le_trans (UInt64.le_of_lt hstart) hle
  · rw [hs] at ht
    cases ht
    exact hle

/-- The section with an address starts at or below it, and any later one that does
would have to start behind its end. -/
theorem candidate?_of_covers (image : Image) {a : UInt64} {s : Section}
    (hs : s ∈ image.sections.toList) (ha : s.id.Covers a.toNat) :
    image.candidate? a = some s := by
  obtain ⟨i, hi⟩ := List.mem_iff_getElem?.1 hs
  rw [Array.getElem?_toList] at hi
  have hb := partitionPoint_brackets (image.starts_descend a)
  have hstart : s.start ≤ a := UInt64.le_iff_toNat_le.2 ha.1
  unfold candidate?
  generalize partitionPoint (fun s : Section => decide (s.start ≤ a)) image.sections = p at hb
  have hip : i < p := by
    apply Nat.lt_of_not_le
    intro hle
    have hfails := hb.fails i s hle hi
    simp [hstart] at hfails
  cases p with
  | zero => omega
  | succ n =>
    have hn : n < image.sections.size := hb.le_size
    have ht := Array.getElem?_eq_getElem hn
    have hle := hb.holds n _ (Nat.lt_succ_self n) ht
    rcases Nat.lt_or_eq_of_le (Nat.le_of_lt_succ hip) with hlt | rfl
    · have hbelow := (Section.below_iff (image.size_ne_zero hs)).1 (image.below_of_lt hlt hi ht)
      have hlast := ha.2
      simp only [decide_eq_true_eq, UInt64.le_iff_toNat_le] at hle
      change a.toNat < s.start.toNat + s.size.toNat at hlast
      omega
    · exact hi

theorem mem_of_candidate? (image : Image) {a : UInt64} {s : Section}
    (h : image.candidate? a = some s) : s ∈ image.sections.toList := by
  unfold candidate? at h
  split at h
  · cases h
  · exact Array.mem_toList_iff.2 (Array.mem_of_getElem? h)

/-- Lookup finds the section that has the address. -/
theorem find_eq_ok_iff (image : Image) {a : UInt64} {s : Section} :
    image.find a = .ok s ↔ s ∈ image.sections.toList ∧ s.id.Covers a.toNat := by
  rw [find]
  constructor
  · intro h
    split at h
    · rename_i t ht
      split at h
      · rename_i hc
        cases h
        exact ⟨image.mem_of_candidate? ht, Section.contains_iff_covers.1 hc⟩
      · cases h
    · cases h
  · rintro ⟨hs, ha⟩
    simp only [image.candidate?_of_covers hs ha, Section.contains_iff_covers.2 ha, if_true]

theorem fault_of_find (image : Image) {a : UInt64} {fault : QueryFault}
    (h : image.find a = .error fault) : fault = .notFound a := by
  rw [find] at h
  split at h
  · split at h
    · cases h
    · cases h
      rfl
  · cases h
    rfl

theorem find_eq_error_iff (image : Image) {a : UInt64} {fault : QueryFault} :
    image.find a = .error fault ↔
      fault = .notFound a ∧ ∀ s ∈ image.sections.toList, ¬s.id.Covers a.toNat := by
  constructor
  · intro h
    refine ⟨image.fault_of_find h, ?_⟩
    intro s hs ha
    rw [image.find_eq_ok_iff.2 ⟨hs, ha⟩] at h
    cases h
  · rintro ⟨rfl, hnone⟩
    cases hf : image.find a with
    | ok s =>
      obtain ⟨hs, ha⟩ := image.find_eq_ok_iff.1 hf
      exact absurd ha (hnone s hs)
    | error fault => rw [image.fault_of_find hf]

theorem contains_eq_true_iff (image : Image) {a : UInt64} :
    image.contains a = true ↔ ∃ s, image.find a = .ok s := by
  rw [contains]
  cases image.find a <;> simp

end Image

namespace Section

/-- The section has as many bytes as given, from the address on. -/
def HoldsAll (s : Section) (a n : UInt64) : Prop := ∀ i < n.toNat, s.id.Covers (a.toNat + i)

/-- The bytes are those of the section from the address on, as many as given. -/
structure BytesAt (s : Section) (a n : UInt64) (bytes : Bytes) : Prop where
  length_eq : bytes.length = n.toNat
  getElem?_eq : ∀ i, i < n.toNat → bytes[i]? = s.data[a.toNat - s.start.toNat + i]?

theorem holdsAll_iff {s : Section} {a n : UInt64} (hn : n ≠ 0) :
    s.HoldsAll a n ↔
      s.start.toNat ≤ a.toNat ∧ a.toNat + n.toNat ≤ s.start.toNat + s.size.toNat := by
  have hpos : 0 < n.toNat := UInt64.pos_iff_ne_zero.2 hn
  constructor
  · intro h
    have hfirst : s.start.toNat ≤ a.toNat := (h 0 hpos).1
    have hlast : a.toNat + (n.toNat - 1) < s.start.toNat + s.size.toNat :=
      (h (n.toNat - 1) (by omega)).2
    omega
  · rintro ⟨hstart, hend⟩ i hi
    have hlow : s.start.toNat ≤ a.toNat + i := by omega
    have hhigh : a.toNat + i < s.start.toNat + s.size.toNat := by omega
    exact ⟨hlow, hhigh⟩

theorem bytesAt_iff {s : Section} {a n : UInt64} {bytes : Bytes}
    (hend : a.toNat - s.start.toNat + n.toNat ≤ s.size.toNat) :
    s.BytesAt a n bytes ↔ (s.data.drop (a.toNat - s.start.toNat)).take n.toNat = bytes := by
  constructor
  · intro h
    apply List.ext_getElem?
    intro i
    rw [List.getElem?_take, List.getElem?_drop]
    by_cases hi : i < n.toNat
    · rw [if_pos hi, h.getElem?_eq i hi]
    · rw [if_neg hi, List.getElem?_eq_none (by rw [h.length_eq]; omega)]
  · rintro rfl
    refine ⟨?_, ?_⟩
    · have hlen : s.data.length = s.size.toNat := s.length_data
      simp only [List.length_take, List.length_drop, hlen]
      omega
    · intro i hi
      rw [List.getElem?_take, List.getElem?_drop, if_pos hi]

/-- The range is part of the section's, sums not being reduced. -/
def Within (s : Section) (a n : UInt64) : Prop :=
  s.start.toNat ≤ a.toNat ∧ a.toNat + n.toNat ≤ s.start.toNat + s.size.toNat

theorem slice_eq_some_iff_within {s : Section} {a n : UInt64} {bytes : Bytes} :
    s.slice a n = some bytes ↔ s.Within a n ∧ s.BytesAt a n bytes := by
  rw [slice_eq_some_iff]
  apply and_congr_right
  rintro ⟨hstart, hend⟩
  exact (bytesAt_iff (by omega)).symm

/-- A slice gives all bytes that are asked for, and only the section's own. -/
theorem slice_eq_some_iff_holdsAll {s : Section} {a n : UInt64} (hn : n ≠ 0) {bytes : Bytes} :
    s.slice a n = some bytes ↔ s.HoldsAll a n ∧ s.BytesAt a n bytes := by
  rw [holdsAll_iff hn]
  exact slice_eq_some_iff_within

theorem covers_of_holdsAll {s : Section} {a n : UInt64} (hn : n ≠ 0) (h : s.HoldsAll a n) :
    s.id.Covers a.toNat := h 0 (UInt64.pos_iff_ne_zero.2 hn)

/-- Bytes that a section holds lie within the address space. -/
theorem add_le_of_holdsAll {s : Section} {a n : UInt64} (hn : n ≠ 0) (h : s.HoldsAll a n) :
    a.toNat + n.toNat ≤ UInt64.size := by
  have hpos : 0 < n.toNat := UInt64.pos_iff_ne_zero.2 hn
  obtain ⟨hstart, hend⟩ := (holdsAll_iff hn).1 h
  have hsize : s.size ≠ 0 := by
    intro e
    rw [e, UInt64.toNat_zero] at hend
    omega
  exact Nat.le_trans hend (s.start_add_size_le hsize)

/-- The last address is covered and the one behind it is not. -/
theorem covers_last {s : Section} (h : s.size ≠ 0) :
    s.id.Covers s.last.toNat ∧ ¬s.id.Covers (s.last.toNat + 1) := by
  have hpos := size_pos h
  rw [← contains_iff_covers, contains_iff, toNat_last h]
  refine ⟨by omega, ?_⟩
  intro hc
  have hhigh : s.start.toNat + s.size.toNat - 1 + 1 < s.start.toNat + s.size.toNat := hc.2
  omega

end Section

namespace Image

theorem read_of_slice (image : Image) {a n : UInt64} (hn : n ≠ 0) {s : Section}
    (hs : s ∈ image.sections.toList) (ha : s.id.Covers a.toNat) {bytes : Bytes}
    (h : s.slice a n = some bytes) : image.read a n = .ok bytes := by
  simp only [read, if_neg hn, image.find_eq_ok_iff.2 ⟨hs, ha⟩, h]

theorem read_of_slice_eq_none (image : Image) {a n : UInt64} (hn : n ≠ 0) {s : Section}
    (hs : s ∈ image.sections.toList) (ha : s.id.Covers a.toNat) (h : s.slice a n = none) :
    image.read a n = .error (.outOfBounds a n s.last) := by
  simp only [read, if_neg hn, image.find_eq_ok_iff.2 ⟨hs, ha⟩, h]

theorem read_of_not_covers (image : Image) {a n : UInt64} (hn : n ≠ 0)
    (h : ∀ s ∈ image.sections.toList, ¬s.id.Covers a.toNat) :
    image.read a n = .error (.notFound a) := by
  rw [read, if_neg hn, image.find_eq_error_iff.2 ⟨rfl, h⟩]

theorem read_eq_ok_iff (image : Image) {a n : UInt64} (hn : n ≠ 0) {bytes : Bytes} :
    image.read a n = .ok bytes ↔
      ∃ s ∈ image.sections.toList, s.HoldsAll a n ∧ s.BytesAt a n bytes := by
  constructor
  · intro h
    cases hf : image.find a with
    | error fault =>
      rw [image.read_of_not_covers hn (image.find_eq_error_iff.1 hf).2] at h
      cases h
    | ok s =>
      obtain ⟨hs, ha⟩ := image.find_eq_ok_iff.1 hf
      cases hslice : s.slice a n with
      | none =>
        rw [image.read_of_slice_eq_none hn hs ha hslice] at h
        cases h
      | some own =>
        rw [image.read_of_slice hn hs ha hslice] at h
        cases h
        exact ⟨s, hs, (Section.slice_eq_some_iff_holdsAll hn).1 hslice⟩
  · rintro ⟨s, hs, h⟩
    have hslice := (Section.slice_eq_some_iff_holdsAll hn).2 h
    exact image.read_of_slice hn hs (Section.covers_of_holdsAll hn h.1) hslice

theorem length_of_read (image : Image) {a n : UInt64} {bytes : Bytes}
    (h : image.read a n = .ok bytes) : bytes.length = n.toNat := by
  by_cases hn : n = 0
  · subst hn
    cases h
    rfl
  · obtain ⟨s, -, -, hbytes⟩ := (image.read_eq_ok_iff hn).1 h
    exact hbytes.length_eq

/-- Bytes that are read end within the address space. -/
theorem add_le_of_read (image : Image) {a n : UInt64} {bytes : Bytes}
    (h : image.read a n = .ok bytes) : a.toNat + n.toNat ≤ UInt64.size := by
  by_cases hn : n = 0
  · subst hn
    exact Nat.le_of_lt a.toNat_lt_size
  · obtain ⟨s, -, hall, -⟩ := (image.read_eq_ok_iff hn).1 h
    exact Section.add_le_of_holdsAll hn hall

theorem read_of_not_holdsAll (image : Image) {a n : UInt64} (hn : n ≠ 0) {s : Section}
    (hs : s ∈ image.sections.toList) (ha : s.id.Covers a.toNat) (h : ¬s.HoldsAll a n) :
    image.read a n = .error (.outOfBounds a n s.last) := by
  apply image.read_of_slice_eq_none hn hs ha
  cases hslice : s.slice a n with
  | none => rfl
  | some bytes => exact absurd ((Section.slice_eq_some_iff_holdsAll hn).1 hslice).1 h

theorem read_eq_notFound_iff (image : Image) {a n : UInt64} (hn : n ≠ 0) :
    image.read a n = .error (.notFound a) ↔
      ∀ s ∈ image.sections.toList, ¬s.id.Covers a.toNat := by
  constructor
  · intro h s hs ha
    cases hslice : s.slice a n with
    | none =>
      rw [image.read_of_slice_eq_none hn hs ha hslice] at h
      cases h
    | some bytes =>
      rw [image.read_of_slice hn hs ha hslice] at h
      cases h
  · exact image.read_of_not_covers hn

theorem exists_read_iff (image : Image) {a n : UInt64} (hn : n ≠ 0) :
    (∃ bytes, image.read a n = .ok bytes) ↔ ∃ s ∈ image.sections.toList, s.HoldsAll a n := by
  constructor
  · rintro ⟨bytes, h⟩
    obtain ⟨s, hs, hall, -⟩ := (image.read_eq_ok_iff hn).1 h
    exact ⟨s, hs, hall⟩
  · rintro ⟨s, hs, hall⟩
    have hrange := (Section.holdsAll_iff hn).1 hall
    refine ⟨(s.data.drop (a.toNat - s.start.toNat)).take n.toNat, ?_⟩
    exact (image.read_eq_ok_iff hn).2 ⟨s, hs, hall, (Section.bytesAt_iff (by omega)).2 rfl⟩

/-- Reading none succeeds everywhere. A longer read succeeds exactly where one section
holds all of it, with that section's bytes and within the address space. Where no
section has the first byte nothing is found, and where one has it but not the rest
that section's last address is reported. -/
theorem read_iff_holdsAll (image : Image) (a n : UInt64) :
    image.read a 0 = .ok [] ∧
    (n ≠ 0 →
      ((∃ bytes, image.read a n = .ok bytes) ↔
        ∃ s ∈ image.sections.toList, s.HoldsAll a n) ∧
      (∀ bytes, image.read a n = .ok bytes ↔
        ∃ s ∈ image.sections.toList, s.HoldsAll a n ∧ s.BytesAt a n bytes) ∧
      (∀ s ∈ image.sections.toList, s.HoldsAll a n → a.toNat + n.toNat ≤ UInt64.size) ∧
      (image.read a n = .error (.notFound a) ↔
        ∀ s ∈ image.sections.toList, ¬s.id.Covers a.toNat) ∧
      ∀ s ∈ image.sections.toList, s.id.Covers a.toNat → ¬s.HoldsAll a n →
        image.read a n = .error (.outOfBounds a n s.last) ∧
          s.id.Covers s.last.toNat ∧ ¬s.id.Covers (s.last.toNat + 1)) := by
  refine ⟨rfl, fun hn => ⟨image.exists_read_iff hn, fun bytes => image.read_eq_ok_iff hn,
    fun s _ hall => Section.add_le_of_holdsAll hn hall, image.read_eq_notFound_iff hn, ?_⟩⟩
  intro s hs ha hall
  exact ⟨image.read_of_not_holdsAll hn hs ha hall, Section.covers_last (image.size_ne_zero hs)⟩

end Image
end SectionDump
