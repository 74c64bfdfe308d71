import SectionDump.Text

/-!
# Trimmed texts

Trimming takes a part out of a text that has no blank at either end, and leaves
alone what is such a part already.
-/
namespace SectionDump.Text

/-- Neither the first nor the last character is a blank. -/
structure Trimmed (s : Text) : Prop where
  head : ∀ c ∈ s.head?, isWhite c = false
  last : ∀ c ∈ s.getLast?, isWhite c = false

theorem head_dropWhile {p : Char → Bool} {s : Text} : ∀ c ∈ (s.dropWhile p).head?, p c = false := by
  induction s with
  | nil => simp
  | cons b r ih =>
    by_cases hb : p b = true
    · rw [List.dropWhile_cons_of_pos hb]
      exact ih
    · rw [List.dropWhile_cons_of_neg hb]
      simpa using hb

theorem dropWhile_of_head {p : Char → Bool} {s : Text} (h : ∀ c ∈ s.head?, p c = false) :
    s.dropWhile p = s := by
  cases s with
  | nil => rfl
  | cons b r =>
    have hb : p b = false := h b rfl
    rw [List.dropWhile_cons_of_neg (by simp [hb])]

/-- What is dropped ends before a character that stays. -/
theorem dropWhile_append_cons {p : Char → Bool} {d : Char} (hd : p d = false) (s t : Text) :
    (s ++ d :: t).dropWhile p = s.dropWhile p ++ d :: t := by
  induction s with
  | nil => exact List.dropWhile_cons_of_neg (by simp [hd])
  | cons b r ih =>
    by_cases hb : p b = true
    · rw [List.cons_append, List.dropWhile_cons_of_pos hb, List.dropWhile_cons_of_pos hb, ih]
    · rw [List.cons_append, List.dropWhile_cons_of_neg hb, List.dropWhile_cons_of_neg hb,
        List.cons_append]

theorem isPrefix_trimEnd (s : Text) : trimEnd s <+: s := by
  rw [trimEnd, ← List.reverse_suffix, List.reverse_reverse]
  exact List.dropWhile_suffix _

theorem trim_infix (s : Text) : trim s <:+: s :=
  (isPrefix_trimEnd _).isInfix.trans (List.dropWhile_suffix _).isInfix

theorem trimmed_trim (s : Text) : Trimmed (trim s) := by
  constructor
  · intro c hc
    obtain ⟨r, hr⟩ := isPrefix_trimEnd (trimStart s)
    have hhead : c ∈ (trimStart s).head? := by
      rw [← hr, List.head?_append]
      rw [trim] at hc
      simp [Option.mem_def.1 hc]
    exact head_dropWhile c hhead
  · intro c hc
    rw [trim, trimEnd, List.getLast?_reverse] at hc
    exact head_dropWhile c hc

theorem Trimmed.trim_eq {s : Text} (h : Trimmed s) : trim s = s := by
  have hstart : trimStart s = s := dropWhile_of_head h.head
  have hend : s.reverse.dropWhile isWhite = s.reverse := by
    apply dropWhile_of_head
    rw [List.head?_reverse]
    exact h.last
  rw [trim, hstart, trimEnd, hend, List.reverse_reverse]

theorem trimmed_of_forall {s : Text} (h : ∀ c ∈ s, isWhite c = false) : Trimmed s :=
  ⟨fun c hc => h c (List.mem_of_mem_head? hc), fun c hc => h c (List.mem_of_getLast? hc)⟩

@[simp] theorem trim_trim (s : Text) : trim (trim s) = trim s := (trimmed_trim s).trim_eq

/-- Of two parts, the first one tells the first character and the second one the last. -/
theorem trimmed_append {s t : Text} (hs : s ≠ []) (ht : t ≠ []) :
    Trimmed (s ++ t) ↔
      (∀ c ∈ s.head?, isWhite c = false) ∧ ∀ c ∈ t.getLast?, isWhite c = false := by
  have hhead : (s ++ t).head? = s.head? := by
    rw [List.head?_append, List.head?_eq_some_head hs, Option.some_or]
  have hlast : (s ++ t).getLast? = t.getLast? := by
    rw [List.getLast?_append, List.getLast?_eq_some_getLast ht, Option.some_or]
  constructor
  · intro h
    rw [← hhead, ← hlast]
    exact ⟨h.head, h.last⟩
  · rintro ⟨h, h'⟩
    rw [← hhead] at h
    rw [← hlast] at h'
    exact ⟨h, h'⟩

/-! ## Blanks at the ends -/

theorem trimEnd_append_white {w : Text} (hw : ∀ c ∈ w, isWhite c = true) (s : Text) :
    trimEnd (s ++ w) = trimEnd s := by
  have hreverse : ∀ c ∈ w.reverse, isWhite c = true := fun c hc => hw c (List.mem_reverse.1 hc)
  rw [trimEnd, List.reverse_append, List.dropWhile_append_of_pos hreverse, ← trimEnd]

theorem trim_white_append {w : Text} (hw : ∀ c ∈ w, isWhite c = true) (s : Text) :
    trim (w ++ s) = trim s := by
  rw [trim, trimStart, List.dropWhile_append_of_pos hw, ← trimStart, ← trim]

theorem trim_append_white {w : Text} (hw : ∀ c ∈ w, isWhite c = true) (s : Text) :
    trim (s ++ w) = trim s := by
  rw [trim, trim, trimStart, trimStart, List.dropWhile_append]
  split
  · rename_i hempty
    have hnil : (w ++ []).dropWhile isWhite = [] := List.dropWhile_append_of_pos hw
    rw [List.append_nil] at hnil
    rw [List.isEmpty_iff.1 hempty, hnil]
  · exact trimEnd_append_white hw _

/-- What is trimmed off the end is blank. -/
theorem exists_append_of_trimEnd (s : Text) :
    ∃ w, s = trimEnd s ++ w ∧ ∀ c ∈ w, isWhite c = true := by
  refine ⟨(s.reverse.takeWhile isWhite).reverse, ?_, ?_⟩
  · rw [trimEnd, ← List.reverse_append, List.takeWhile_append_dropWhile, List.reverse_reverse]
  · intro c hc
    exact List.all_eq_true.1 List.all_takeWhile c (List.mem_reverse.1 hc)

/-- What is trimmed off is blank. -/
theorem exists_append_of_trim (s : Text) :
    ∃ front back, s = front ++ trim s ++ back ∧ (∀ c ∈ front, isWhite c = true) ∧
      ∀ c ∈ back, isWhite c = true := by
  obtain ⟨back, hsplit, hback⟩ := exists_append_of_trimEnd (trimStart s)
  refine ⟨s.takeWhile isWhite, back, ?_, List.all_eq_true.1 List.all_takeWhile, hback⟩
  calc s = s.takeWhile isWhite ++ trimStart s := List.takeWhile_append_dropWhile.symm
    _ = s.takeWhile isWhite ++ (trim s ++ back) := congrArg _ hsplit
    _ = s.takeWhile isWhite ++ trim s ++ back := (List.append_assoc _ _ _).symm

theorem trimEnd_append_cons {d : Char} (hd : isWhite d = false) (s t : Text) :
    trimEnd (s ++ d :: t) = s ++ d :: trimEnd t := by
  have hreverse : (s ++ d :: t).reverse = t.reverse ++ d :: s.reverse := by simp
  rw [trimEnd, hreverse, dropWhile_append_cons hd]
  simp [trimEnd]

/-- Around a character that is no blank each side is trimmed at its own end. -/
theorem trim_append_cons {d : Char} (hd : isWhite d = false) (s t : Text) :
    trim (s ++ d :: t) = trimStart s ++ d :: trimEnd t := by
  rw [trim, trimStart, dropWhile_append_cons hd, trimEnd_append_cons hd, ← trimStart]

theorem trim_trimStart (s : Text) : trim (trimStart s) = trim s := by
  rw [trim, trim]
  exact congrArg trimEnd (dropWhile_of_head head_dropWhile)

theorem head?_trim (s : Text) : (trim s).head? = (trimStart s).head? := by
  rw [trim]
  cases h : trimStart s with
  | nil => rfl
  | cons c r =>
    have hc : isWhite c = false := by
      apply head_dropWhile (s := s)
      rw [← trimStart, h]
      exact rfl
    have hend := trimEnd_append_cons hc [] r
    rw [List.nil_append, List.nil_append] at hend
    rw [hend]
    rfl

/-! ## Letters -/

/-- What a small letter has in common with its capital, every character has in common
with its lower case. -/
theorem apply_toLower {α : Type} {f : Char → α}
    (h : ∀ i < 26, f (Char.ofNat (65 + i)).toLower = f (Char.ofNat (65 + i))) (c : Char) :
    f c.toLower = f c := by
  by_cases hc : c.isUpper
  · have hrange : 65 ≤ c.toNat ∧ c.toNat ≤ 90 := of_decide_eq_true hc
    have hletter := h (c.toNat - 65) (by omega)
    rwa [show 65 + (c.toNat - 65) = c.toNat by omega, Char.ofNat_toNat] at hletter
  · have hsame : c.toLower = c := dif_neg fun h => hc (decide_eq_true h)
    rw [hsame]

/-- And so it has with its upper case. -/
theorem apply_toUpper {α : Type} {f : Char → α}
    (h : ∀ i < 26, f (Char.ofNat (97 + i)).toUpper = f (Char.ofNat (97 + i))) (c : Char) :
    f c.toUpper = f c := by
  by_cases hc : 'a'.val ≤ c.val ∧ c.val ≤ 'z'.val
  · have hrange : 97 ≤ c.toNat ∧ c.toNat ≤ 122 := hc
    have hletter := h (c.toNat - 97) (by omega)
    rwa [show 97 + (c.toNat - 97) = c.toNat by omega, Char.ofNat_toNat] at hletter
  · have hsame : c.toUpper = c := dif_neg hc
    rw [hsame]

theorem apply_toLower_iff {p : Char → Prop}
    (h : ∀ i < 26, p (Char.ofNat (65 + i)).toLower ↔ p (Char.ofNat (65 + i))) (c : Char) :
    p c.toLower ↔ p c :=
  iff_of_eq (apply_toLower (fun i hi => propext (h i hi)) c)

theorem isWhite_toLower (c : Char) : isWhite c.toLower = isWhite c :=
  apply_toLower (by decide) c

theorem trim_lower (s : Text) : trim (lower s) = lower (trim s) := by
  have hwhite : isWhite ∘ Char.toLower = isWhite := funext isWhite_toLower
  have hdrop : ∀ t : Text, (t.map Char.toLower).dropWhile isWhite =
      (t.dropWhile isWhite).map Char.toLower := by
    intro t
    rw [List.dropWhile_map, hwhite]
  simp only [trim, trimEnd, trimStart, lower, hdrop, ← List.map_reverse]

end SectionDump.Text
