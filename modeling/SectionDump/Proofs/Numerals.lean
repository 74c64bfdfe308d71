import Mathlib.Data.List.Forall2
import SectionDump.Numeral

/-!
# Written numerals

A numeral that is written reads back as the number it was written for, whatever
the base. Every character of a numeral that reads is a digit or the letter of the
hexadecimal mark, so numerals can stand between separators that are neither. What
reads as a number is exactly what spells it, digit by digit.
-/
namespace SectionDump.Numeral

theorem digit?_digitChar : ∀ d : Fin 16, digit? (Nat.digitChar d) = some d.val := by decide

theorem digit?_hyphen : digit? '-' = none := by decide

theorem digit?_slash : digit? '/' = none := by decide

theorem digitOf?_digitChar {base d : Nat} (hb : base ≤ 16) (h : d < base) :
    digitOf? base (Nat.digitChar d) = some d := by
  have hd : digit? (Nat.digitChar d) = some d := digit?_digitChar ⟨d, by omega⟩
  simp [digitOf?, hd, h]

theorem natural?_of_ne_nil {base : Nat} {s : Text} (h : s ≠ []) :
    natural? base s = (s.mapM (digitOf? base)).map (positional base) := by
  cases s with
  | nil => exact absurd rfl h
  | cons c r => rfl

/-- What is written for a number are the digits that stand for it. -/
theorem exists_toDigits_eq_map {base : Nat} (hb : 1 < base) (n : Nat) :
    ∃ values, Nat.toDigits base n = values.map Nat.digitChar ∧ (∀ d ∈ values, d < base) ∧
      positional base values = n := by
  induction n using Nat.strongRecOn with
  | ind n ih =>
    by_cases h : n < base
    · exact ⟨[n], by simp [Nat.toDigits_of_lt_base h], by simpa using h, by simp [positional]⟩
    · have hmod : n % base < base := Nat.mod_lt _ (by omega)
      obtain ⟨values, hvalues, hlt, hn⟩ := ih (n / base) (Nat.div_lt_self (by omega) hb)
      refine ⟨values ++ [n % base], ?_, ?_, ?_⟩
      · rw [Nat.toDigits_of_base_le hb (by omega), hvalues, List.map_append, List.map_singleton]
      · intro d hd
        rcases List.mem_append.1 hd with hd | hd
        · exact hlt d hd
        · rw [List.mem_singleton.1 hd]
          exact hmod
      · rw [positional_concat, hn, Nat.mul_comm]
        exact Nat.div_add_mod n base

theorem digitChar_ne_zero {d : Nat} (hd : d < 16) (hne : d ≠ 0) : Nat.digitChar d ≠ '0' := by
  intro e
  have hread := digit?_digitChar ⟨d, hd⟩
  rw [e] at hread
  exact hne (Option.some.inj hread).symm

/-- A number is written without zeros in front. -/
theorem head?_toDigits {base : Nat} (hb : 1 < base) (hb' : base ≤ 16) {n : Nat} (hn : n ≠ 0) :
    (Nat.toDigits base n).head? ≠ some '0' := by
  induction n using Nat.strongRecOn with
  | ind n ih =>
    by_cases h : n < base
    · rw [Nat.toDigits_of_lt_base h, List.head?_cons]
      intro e
      exact digitChar_ne_zero (by omega) hn (Option.some.inj e)
    · have hdiv : n / base ≠ 0 := Nat.ne_of_gt (Nat.div_pos (by omega) (by omega))
      have hhead := ih (n / base) (Nat.div_lt_self (by omega) hb) hdiv
      rw [Nat.toDigits_of_base_le hb (by omega)]
      rwa [List.head?_append_of_ne_nil _ Nat.toDigits_ne_nil]

/-- The digits of the number in the base, in lower case and with no zero in front of
another digit. -/
structure Writes (base : Nat) (digits : Text) (n : Nat) : Prop where
  exists_values : ∃ values : List Nat, digits = values.map Nat.digitChar ∧
    (∀ d ∈ values, d < base) ∧ positional base values = n
  ne_nil : digits ≠ []
  head?_ne : 1 < digits.length → digits.head? ≠ some '0'

theorem writes_toDigits {base : Nat} (hb : 1 < base) (hb' : base ≤ 16) (n : Nat) :
    Writes base (Nat.toDigits base n) n := by
  refine ⟨exists_toDigits_eq_map hb n, Nat.toDigits_ne_nil, ?_⟩
  intro hlong
  apply head?_toDigits hb hb'
  rintro rfl
  rw [Nat.toDigits_zero] at hlong
  exact absurd hlong (by decide)

theorem writes_hex (w : UInt64) : Writes 16 (hex w) w.toNat :=
  writes_toDigits (by decide) (by decide) w.toNat

theorem writes_decimal (w : UInt64) : Writes 10 (decimal w) w.toNat :=
  writes_toDigits (by decide) (by decide) w.toNat

theorem mapM_digitChar {base : Nat} (hb : base ≤ 16) {values : List Nat}
    (h : ∀ d ∈ values, d < base) :
    (values.map Nat.digitChar).mapM (digitOf? base) = some values := by
  induction values with
  | nil => rfl
  | cons d rest ih =>
    rw [List.forall_mem_cons] at h
    rw [List.map_cons, List.mapM_cons, digitOf?_digitChar hb h.1, ih h.2]
    rfl

/-- The digits of a number read back one by one, and stand for that number. -/
theorem mapM_toDigits {base : Nat} (hb : 1 < base) (hb' : base ≤ 16) (n : Nat) :
    ∃ ds, (Nat.toDigits base n).mapM (digitOf? base) = some ds ∧ positional base ds = n := by
  obtain ⟨values, hvalues, hlt, hn⟩ := exists_toDigits_eq_map hb n
  exact ⟨values, by rw [hvalues, mapM_digitChar hb' hlt], hn⟩

theorem natural?_toDigits {base : Nat} (hb : 1 < base) (hb' : base ≤ 16) (n : Nat) :
    natural? base (Nat.toDigits base n) = some n := by
  obtain ⟨ds, hds, hn⟩ := mapM_toDigits hb hb' n
  rw [natural?_of_ne_nil Nat.toDigits_ne_nil, hds, Option.map_some, hn]

/-- A numeral that reads holds nothing but digits. -/
theorem digitOf?_of_mem {base : Nat} {s : Text} {ds : List Nat}
    (h : s.mapM (digitOf? base) = some ds) {c : Char} (hc : c ∈ s) : digitOf? base c ≠ none := by
  induction s generalizing ds with
  | nil => simp at hc
  | cons b r ih =>
    rw [List.mapM_cons] at h
    obtain ⟨d, hd, h⟩ := Option.bind_eq_some_iff.1 h
    obtain ⟨es, hes, -⟩ := Option.bind_eq_some_iff.1 h
    rcases List.mem_cons.1 hc with rfl | hc
    · simp [hd]
    · exact ih hes hc

theorem digit?_of_natural? {base : Nat} {s : Text} {n : Nat} (h : natural? base s = some n)
    {c : Char} (hc : c ∈ s) : digit? c ≠ none := by
  rw [natural?_of_ne_nil (List.ne_nil_of_mem hc)] at h
  obtain ⟨ds, hds, -⟩ := Option.map_eq_some_iff.1 h
  intro hnone
  exact digitOf?_of_mem hds hc (by simp [digitOf?, hnone])

theorem digit?_of_decimal? {s : Text} {w : UInt64} (h : decimal? s = some w) {c : Char}
    (hc : c ∈ s) : digit? c ≠ none := by
  obtain ⟨n, hn, -⟩ := Option.bind_eq_some_iff.1 h
  exact digit?_of_natural? hn hc

theorem mem_dropHexMark {s : Text} {c : Char} (hc : c ∈ s) :
    c ∈ dropHexMark s ∨ c = '0' ∨ c = 'x' ∨ c = 'X' := by
  unfold dropHexMark
  split
  · simp only [List.mem_cons] at hc
    rcases hc with h | h | h <;> simp [h]
  · simp only [List.mem_cons] at hc
    rcases hc with h | h | h <;> simp [h]
  · exact .inl hc

/-- The letter of the mark is a digit of a larger base, so no case is made of it. -/
theorem digit?_of_hex? {s : Text} {w : UInt64} (h : hex? s = some w) {c : Char}
    (hc : c ∈ s) : digit? c ≠ none := by
  obtain ⟨n, hn, -⟩ := Option.bind_eq_some_iff.1 h
  rcases mem_dropHexMark hc with hc | rfl | rfl | rfl
  · exact digit?_of_natural? hn hc
  · decide
  · decide
  · decide

@[simp] theorem decimal?_decimal (w : UInt64) : decimal? (decimal w) = some w := by
  rw [decimal?, decimal, ofNat, natural?_toDigits (by decide) (by decide)]
  exact word?_eq_some_iff.2 rfl

/-- What is written in hexadecimal does not start like a mark. -/
theorem dropHexMark_hex (w : UInt64) : dropHexMark (hex w) = hex w := by
  have hdigit : ∀ c ∈ hex w, digitOf? 16 c ≠ none := by
    intro c hc
    obtain ⟨ds, hds, -⟩ := mapM_toDigits (show 1 < 16 by decide) (by decide) w.toNat
    exact digitOf?_of_mem hds hc
  unfold dropHexMark
  split
  · rename_i e
    exact absurd (by decide) (hdigit 'x' (by simp [e]))
  · rename_i e
    exact absurd (by decide) (hdigit 'X' (by simp [e]))
  · rfl

@[simp] theorem hex?_hex (w : UInt64) : hex? (hex w) = some w := by
  rw [hex?, dropHexMark_hex, hex, natural?_toDigits (by decide) (by decide)]
  exact word?_eq_some_iff.2 rfl

@[simp] theorem hex?_markedHex (w : UInt64) : hex? (markedHex w) = some w := by
  rw [hex?, dropHexMark_markedHex, ← dropHexMark_hex]
  exact hex?_hex w

/-! ## Spelled numerals -/

/-- The character is the digit of that value in the base, letters in either case. -/
def IsDigit (base : Nat) (c : Char) (d : Nat) : Prop :=
  d < base ∧ (c = Nat.digitChar d ∨ c = (Nat.digitChar d).toUpper)

/-- One or more digits of the base, most significant first, that stand for the number. -/
def Spells (base : Nat) (s : Text) (n : Nat) : Prop :=
  s ≠ [] ∧ ∃ values, List.Forall₂ (IsDigit base) s values ∧ positional base values = n

/-- Hexadecimal digits after at most one mark. -/
def SpellsHex (s : Text) (w : UInt64) : Prop :=
  ∃ digits, (s = digits ∨ s = '0' :: 'x' :: digits ∨ s = '0' :: 'X' :: digits) ∧
    Spells 16 digits w.toNat

/-- Decimal digits and nothing else. -/
def SpellsDecimal (s : Text) (w : UInt64) : Prop := Spells 10 s w.toNat

theorem char_le_iff {a b : Char} : a ≤ b ↔ a.toNat ≤ b.toNat := by
  rw [Char.le_def, UInt32.le_iff_toNat_le]
  rfl

theorem toNat_of_digit? {c : Char} (h : digit? c ≠ none) :
    (48 ≤ c.toNat ∧ c.toNat ≤ 57) ∨ (97 ≤ c.toNat ∧ c.toNat ≤ 122) ∨
      (65 ≤ c.toNat ∧ c.toNat ≤ 90) := by
  simp only [digit?, char_le_iff] at h
  split at h
  · rename_i hc
    exact .inl hc
  · split at h
    · rename_i hc
      exact .inr (.inl hc)
    · split at h
      · rename_i hc
        exact .inr (.inr hc)
      · exact absurd rfl h

/-- Blanks are no digits of any base. -/
theorem isWhite_of_digit? {c : Char} (h : digit? c ≠ none) : Text.isWhite c = false := by
  have hbounds := toNat_of_digit? h
  simp only [Text.isWhite, Bool.or_eq_false_iff, Bool.and_eq_false_iff, decide_eq_false_iff_not,
    beq_eq_false_iff_ne]
  omega

theorem eq_ofNat_of_toNat {c : Char} {n : Nat} (h : c.toNat = n) : c = Char.ofNat n := by
  rw [← h, Char.ofNat_toNat]

theorem isDigit_of_digit? {c : Char} {d : Nat} (h : digit? c = some d) (hd : d < 16) :
    c = Nat.digitChar d ∨ c = (Nat.digitChar d).toUpper := by
  have hlow : ∀ d : Fin 16, d.val < 10 → Char.ofNat (48 + d.val) = Nat.digitChar d.val := by decide
  have hsmall : ∀ d : Fin 16, 10 ≤ d.val → Char.ofNat (87 + d.val) = Nat.digitChar d.val := by
    decide
  have hlarge : ∀ d : Fin 16, 10 ≤ d.val →
      Char.ofNat (55 + d.val) = (Nat.digitChar d.val).toUpper := by decide
  simp only [digit?, char_le_iff] at h
  split at h
  · rename_i hc
    obtain rfl := Option.some.inj h
    have h0 : '0'.toNat = 48 := rfl
    have h9 : '9'.toNat = 57 := rfl
    rw [← hlow ⟨_, hd⟩ (by simp only; omega)]
    exact .inl (eq_ofNat_of_toNat (by simp only; omega))
  · split at h
    · rename_i hc
      obtain rfl := Option.some.inj h
      have ha : 'a'.toNat = 97 := rfl
      rw [← hsmall ⟨_, hd⟩ (by simp only; omega)]
      exact .inl (eq_ofNat_of_toNat (by simp only; omega))
    · split at h
      · rename_i hc
        obtain rfl := Option.some.inj h
        have hA : 'A'.toNat = 65 := rfl
        rw [← hlarge ⟨_, hd⟩ (by simp only; omega)]
        exact .inr (eq_ofNat_of_toNat (by simp only; omega))
      · cases h

theorem digit?_toUpper_digitChar : ∀ d : Fin 16, digit? (Nat.digitChar d).toUpper = some d.val := by
  decide

theorem digitOf?_eq_some_iff {base : Nat} (hb : base ≤ 16) {c : Char} {d : Nat} :
    digitOf? base c = some d ↔ IsDigit base c d := by
  rw [digitOf?, Option.filter_eq_some_iff, decide_eq_true_eq]
  constructor
  · rintro ⟨h, hd⟩
    exact ⟨hd, isDigit_of_digit? h (by omega)⟩
  · rintro ⟨hd, rfl | rfl⟩
    · exact ⟨digit?_digitChar ⟨d, by omega⟩, hd⟩
    · exact ⟨digit?_toUpper_digitChar ⟨d, by omega⟩, hd⟩

theorem mapM_digitOf?_eq_some_iff {base : Nat} (hb : base ≤ 16) {s : Text} {values : List Nat} :
    s.mapM (digitOf? base) = some values ↔ List.Forall₂ (IsDigit base) s values := by
  induction s generalizing values with
  | nil =>
    cases values with
    | nil => simp
    | cons d ds => simp
  | cons c r ih =>
    rw [List.mapM_cons]
    constructor
    · intro h
      obtain ⟨d, hd, h⟩ := Option.bind_eq_some_iff.1 h
      obtain ⟨ds, hds, h⟩ := Option.bind_eq_some_iff.1 h
      cases h
      exact .cons ((digitOf?_eq_some_iff hb).1 hd) (ih.1 hds)
    · rintro (_ | ⟨hd, hds⟩)
      rw [(digitOf?_eq_some_iff hb).2 hd, ih.2 hds]
      rfl

theorem natural?_eq_some_iff {base : Nat} (hb : base ≤ 16) {s : Text} {n : Nat} :
    natural? base s = some n ↔ Spells base s n := by
  by_cases hs : s = []
  · simp [hs, Spells]
  · rw [natural?_of_ne_nil hs, Option.map_eq_some_iff]
    simp only [mapM_digitOf?_eq_some_iff hb, Spells, ne_eq, hs, not_false_eq_true, true_and]

/-- The letter of a mark is no digit, so digits never start with a mark. -/
theorem dropHexMark_of_spells {digits : Text} {n : Nat} (h : Spells 16 digits n) :
    dropHexMark digits = digits := by
  obtain ⟨-, values, hvalues, -⟩ := h
  have hdigits := (mapM_digitOf?_eq_some_iff (by decide)).2 hvalues
  unfold dropHexMark
  split
  · exact absurd (by decide) (digitOf?_of_mem hdigits (c := 'x') (by simp))
  · exact absurd (by decide) (digitOf?_of_mem hdigits (c := 'X') (by simp))
  · rfl

theorem dropHexMark_cases (s : Text) :
    s = dropHexMark s ∨ s = '0' :: 'x' :: dropHexMark s ∨ s = '0' :: 'X' :: dropHexMark s := by
  unfold dropHexMark
  split
  · exact .inr (.inl rfl)
  · exact .inr (.inr rfl)
  · exact .inl rfl

/-- Words are read from hexadecimal digits after at most one mark, and from nothing
else. -/
theorem hex?_eq_some_iff {s : Text} {w : UInt64} : hex? s = some w ↔ SpellsHex s w := by
  rw [hex?, Option.bind_eq_some_iff]
  simp only [natural?_eq_some_iff (show 16 ≤ 16 by decide), word?_eq_some_iff]
  constructor
  · rintro ⟨_, h, rfl⟩
    exact ⟨dropHexMark s, dropHexMark_cases s, h⟩
  · rintro ⟨digits, rfl | rfl | rfl, h⟩
    · exact ⟨_, by rwa [dropHexMark_of_spells h], rfl⟩
    · exact ⟨_, h, rfl⟩
    · exact ⟨_, h, rfl⟩

theorem hex?_eq_none_iff {s : Text} : hex? s = none ↔ ¬∃ w, SpellsHex s w := by
  rw [Option.eq_none_iff_forall_ne_some, not_exists]
  apply forall_congr'
  intro w
  rw [← hex?_eq_some_iff]

/-- Words are read from decimal digits, and from nothing else. -/
theorem decimal?_eq_some_iff {s : Text} {w : UInt64} :
    decimal? s = some w ↔ SpellsDecimal s w := by
  rw [decimal?, Option.bind_eq_some_iff]
  simp only [natural?_eq_some_iff (show 10 ≤ 16 by decide), word?_eq_some_iff]
  constructor
  · rintro ⟨_, h, rfl⟩
    exact h
  · intro h
    exact ⟨_, h, rfl⟩

end SectionDump.Numeral
