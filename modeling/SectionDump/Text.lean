/-!
# Text

Every rule of the dump formats is a rule on code points, so a text is a list of
characters. This module holds the cuts and the character class that the file
name grammar and the metadata grammar share.
-/
namespace SectionDump

abbrev Text := List Char

namespace Text

/-- The `White_Space` property of Unicode. -/
def isWhite (c : Char) : Bool :=
  let n := c.toNat
  (0x9 ≤ n && n ≤ 0xD) || n == 0x20 || n == 0x85 || n == 0xA0 || n == 0x1680 ||
    (0x2000 ≤ n && n ≤ 0x200A) || n == 0x2028 || n == 0x2029 || n == 0x202F ||
    n == 0x205F || n == 0x3000

def trimStart (s : Text) : Text := s.dropWhile isWhite

def trimEnd (s : Text) : Text := (s.reverse.dropWhile isWhite).reverse

def trim (s : Text) : Text := trimEnd (trimStart s)

@[simp] theorem trim_nil : trim [] = [] := rfl

/-- Only the letters A to Z change. -/
def lower (s : Text) : Text := s.map Char.toLower

@[simp] theorem lower_nil : lower [] = [] := rfl
@[simp] theorem length_lower (s : Text) : (lower s).length = s.length := by simp [lower]

/-- Cuts at the first character in the class and drops that character. -/
def cut? (p : Char → Bool) : Text → Option (Text × Text)
  | [] => none
  | c :: r => if p c then some ([], r) else (cut? p r).map fun (a, b) => (c :: a, b)

@[simp] theorem cut?_nil (p : Char → Bool) : cut? p [] = none := rfl

theorem cut?_cons_of_true {p : Char → Bool} {c : Char} (h : p c = true) (r : Text) :
    cut? p (c :: r) = some ([], r) := by simp [cut?, h]

theorem cut?_cons_of_false {p : Char → Bool} {c : Char} (h : p c = false) (r : Text) :
    cut? p (c :: r) = (cut? p r).map fun (a, b) => (c :: a, b) := by simp [cut?, h]

/-- A text without the class is not cut. -/
theorem cut?_eq_none_iff {p : Char → Bool} {s : Text} :
    cut? p s = none ↔ ∀ c ∈ s, p c = false := by
  induction s with
  | nil => simp
  | cons c r ih => by_cases h : p c = true <;> simp [cut?, h, ih]

/-- The cut is at the first character of the class, and nothing else is lost. -/
theorem cut?_eq_some_iff {p : Char → Bool} {s a b : Text} :
    cut? p s = some (a, b) ↔ ∃ c, s = a ++ c :: b ∧ p c = true ∧ ∀ x ∈ a, p x = false := by
  induction s generalizing a with
  | nil => simp
  | cons c r ih =>
    by_cases h : p c = true
    · rw [cut?_cons_of_true h]
      constructor
      · rintro ⟨⟩; exact ⟨c, rfl, h, by simp⟩
      · rintro ⟨d, hs, hd, ha⟩
        cases a with
        | nil => simp at hs; simp [hs]
        | cons x a =>
          simp only [List.cons_append, List.cons.injEq] at hs
          simp [← hs.1, h] at ha
    · simp only [Bool.not_eq_true] at h
      rw [cut?_cons_of_false h]
      constructor
      · intro e
        obtain ⟨⟨u, v⟩, hu, he⟩ := Option.map_eq_some_iff.1 e
        simp only [Prod.mk.injEq] at he
        obtain ⟨rfl, rfl⟩ := he
        obtain ⟨d, hs, hd, ha⟩ := ih.1 hu
        exact ⟨d, by simp [hs], hd, by simpa [h] using ha⟩
      · rintro ⟨d, hs, hd, ha⟩
        cases a with
        | nil => simp at hs; simp [← hs.1, h] at hd
        | cons x a =>
          simp only [List.cons_append, List.cons.injEq] at hs
          obtain ⟨rfl, hs⟩ := hs
          rw [ih.2 ⟨d, hs, hd, fun y hy => ha y (by simp [hy])⟩]
          rfl

theorem cut?_at_eq_none_iff {sep : Char} {s : Text} : cut? (· == sep) s = none ↔ sep ∉ s := by
  rw [cut?_eq_none_iff]
  constructor
  · intro h hm
    simpa using h sep hm
  · intro h c hc
    rw [beq_eq_false_iff_ne]
    rintro rfl
    exact h hc

/-- The first part of a cut at one separator is what comes before the first such one. -/
theorem cut?_at_eq_some_iff {sep : Char} {s a b : Text} :
    cut? (· == sep) s = some (a, b) ↔ s = a ++ sep :: b ∧ sep ∉ a := by
  rw [cut?_eq_some_iff, ← cut?_at_eq_none_iff, cut?_eq_none_iff]
  constructor
  · rintro ⟨c, hs, hc, ha⟩
    rw [beq_iff_eq] at hc
    subst hc
    exact ⟨hs, ha⟩
  · rintro ⟨hs, ha⟩
    exact ⟨sep, hs, beq_self_eq_true sep, ha⟩

/-- The pieces between separators hold none. -/
theorem not_mem_of_mem_splitOn {sep : Char} {s piece : Text} (h : piece ∈ s.splitOn sep) :
    sep ∉ piece := by
  induction s generalizing piece with
  | nil =>
    simp only [List.splitOn_nil, List.mem_singleton] at h
    simp [h]
  | cons c r ih =>
    rw [List.splitOn_cons_eq_if_modifyHead] at h
    split at h
    · rcases List.mem_cons.1 h with rfl | h
      · simp
      · exact ih h
    · rename_i hc
      obtain ⟨first, rest, e⟩ := List.exists_cons_of_ne_nil (List.splitOn_ne_nil sep r)
      rw [e, List.modifyHead_cons] at h
      have hne : sep ≠ c := fun e => hc (by simp [← e])
      rcases List.mem_cons.1 h with rfl | h
      · have hfirst : sep ∉ first := ih (by simp [e])
        simp [hne, hfirst]
      · exact ih (by simp [e, h])

/-- Splits before the last place from which the rest of the text passes the
test. The second part is never empty. -/
def splitLast? (q : Text → Bool) : Text → Option (Text × Text)
  | [] => none
  | c :: r => match splitLast? q r with
    | some (p, t) => some (c :: p, t)
    | none => if q (c :: r) then some ([], c :: r) else none

@[simp] theorem splitLast?_nil (q : Text → Bool) : splitLast? q [] = none := rfl

/-- The two parts of a split make up the text. -/
theorem append_of_splitLast? {q : Text → Bool} {s p t : Text} (h : splitLast? q s = some (p, t)) :
    p ++ t = s := by
  induction s generalizing p t with
  | nil => simp at h
  | cons c r ih =>
    rw [splitLast?] at h
    split at h
    · rename_i u v e
      simp only [Option.some.injEq, Prod.mk.injEq] at h
      obtain ⟨rfl, rfl⟩ := h
      simp [ih e]
    · split at h <;> simp_all

/-- The second part of a split passes the test. -/
theorem test_of_splitLast? {q : Text → Bool} {s p t : Text} (h : splitLast? q s = some (p, t)) :
    q t = true := by
  induction s generalizing p t with
  | nil => simp at h
  | cons c r ih =>
    rw [splitLast?] at h
    split at h
    · rename_i u v e
      simp only [Option.some.injEq, Prod.mk.injEq] at h
      obtain ⟨rfl, rfl⟩ := h
      exact ih e
    · split at h <;> simp_all

/-- A text splits nowhere when no place in it passes the test. -/
theorem splitLast?_eq_none_iff {q : Text → Bool} {s : Text} :
    splitLast? q s = none ↔ ∀ p t, s = p ++ t → t ≠ [] → q t = false := by
  induction s with
  | nil => simp
  | cons c r ih =>
    rw [splitLast?]
    constructor
    · intro h p t hs hne
      split at h
      · simp at h
      · rename_i e
        cases p with
        | nil =>
          simp only [List.nil_append] at hs
          subst hs
          by_cases hq : q (c :: r) = true
          · simp [hq] at h
          · simpa using hq
        | cons x p =>
          simp only [List.cons_append, List.cons.injEq] at hs
          exact ih.1 e p t hs.2 hne
    · intro h
      have e : splitLast? q r = none :=
        ih.2 fun p t hs hne => h (c :: p) t (by simp [hs]) hne
      simp [e, h [] (c :: r) rfl (by simp)]

end Text
end SectionDump
