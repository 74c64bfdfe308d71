import Mathlib.Data.List.Induction
import Mathlib.Data.Nat.Digits.Defs
import SectionDump.Proofs.Numerals
import SectionDump.Proofs.Trimming

/-!
# Reading numerals

A numeral is read into a word one digit after another, and reading stops where a product
or a sum does not fit. A number that has outgrown the word stays outgrown whatever digits
follow, so the steps give the number whenever it is below `2 ^ 64`, with any number of zeros
in front, and no other. Digits may come after a plus sign where lengths are read, and nowhere
else. Letters count the same in either case.
-/
namespace SectionDump.Numeral

/-! ## Values by places -/

theorem positional_eq_ofDigits (base : Nat) (ds : List Nat) :
    positional base ds = Nat.ofDigits base ds.reverse := by
  induction ds using List.reverseRecOn with
  | nil => rfl
  | append_singleton ds d ih =>
    rw [positional_concat, ih, List.reverse_concat, Nat.ofDigits_cons, Nat.mul_comm, Nat.add_comm]

/-- One or more digits, letters in either case, that have the number as their value by
places. -/
def StandsFor (base : Nat) (s : Text) (n : Nat) : Prop :=
  s ≠ [] ∧ ∃ values, List.Forall₂ (IsDigit base) s values ∧ Nat.ofDigits base values.reverse = n

theorem spells_iff_standsFor {base : Nat} {s : Text} {n : Nat} :
    Spells base s n ↔ StandsFor base s n := by
  simp only [Spells, StandsFor, positional_eq_ofDigits]

theorem natural?_eq_some_iff_standsFor {base : Nat} (hb : base ≤ 16) {s : Text} {n : Nat} :
    natural? base s = some n ↔ StandsFor base s n := by
  rw [natural?_eq_some_iff hb, spells_iff_standsFor]

def hexMarks : List Text := ["0x".toList, "0X".toList]

theorem mem_hexMarks_iff {mark : Text} :
    mark ∈ hexMarks ↔ mark = "0x".toList ∨ mark = "0X".toList := by
  simp [hexMarks]

/-- Hexadecimal digits after at most one mark. -/
def HexNumeral (s : Text) (n : Nat) : Prop :=
  ∃ mark digits, (mark = [] ∨ mark ∈ hexMarks) ∧ s = mark ++ digits ∧ StandsFor 16 digits n

/-- Decimal digits and nothing else. -/
def DecimalNumeral (s : Text) (n : Nat) : Prop := StandsFor 10 s n

/-- Decimal digits after at most one plus sign. -/
def CountNumeral (s : Text) (n : Nat) : Prop :=
  ∃ digits, (s = digits ∨ s = '+' :: digits) ∧ DecimalNumeral digits n

theorem dropHexMark_append {mark : Text} (h : mark ∈ hexMarks) (s : Text) :
    dropHexMark (mark ++ s) = s := by
  rcases mem_hexMarks_iff.1 h with rfl | rfl
  · rfl
  · rfl

theorem natural?_dropHexMark_iff {s : Text} {n : Nat} :
    natural? 16 (dropHexMark s) = some n ↔ HexNumeral s n := by
  rw [natural?_eq_some_iff_standsFor (by decide)]
  constructor
  · intro h
    rcases dropHexMark_cases s with hs | hs | hs
    · exact ⟨[], dropHexMark s, .inl rfl, hs, h⟩
    · exact ⟨"0x".toList, dropHexMark s, .inr (mem_hexMarks_iff.2 (.inl rfl)), hs, h⟩
    · exact ⟨"0X".toList, dropHexMark s, .inr (mem_hexMarks_iff.2 (.inr rfl)), hs, h⟩
  · rintro ⟨mark, digits, rfl | hmark, rfl, h⟩
    · rwa [dropHexMark_of_spells (spells_iff_standsFor.2 h)]
    · rwa [dropHexMark_append hmark]

theorem natural?_eq_none_of_mem {base : Nat} {s : Text} {c : Char} (hc : c ∈ s)
    (h : digitOf? base c = none) : natural? base s = none := by
  cases hs : s.mapM (digitOf? base) with
  | none => rw [natural?_of_ne_nil (List.ne_nil_of_mem hc), hs, Option.map_none]
  | some ds => exact absurd h (digitOf?_of_mem hs hc)

theorem digitOf?_eq_none (base : Nat) {c : Char} (h : digit? c = none) :
    digitOf? base c = none := by
  rw [digitOf?, h, Option.filter_none]

/-! ## One digit after another -/

/-- One more digit behind a word. The product has to fit into a word, and then the sum. -/
def push? (base : Nat) (w : UInt64) (c : Char) : Option UInt64 :=
  (digitOf? base c).bind fun d => (word? (w.toNat * base)).bind fun product =>
    word? (product.toNat + d)

def accumulate? (base : Nat) (s : Text) : Option UInt64 := s.foldlM (push? base) 0

theorem word?_eq_none_iff {n : Nat} : word? n = none ↔ 2 ^ 64 ≤ n := by
  rw [word?, ite_eq_right_iff]
  simp

/-- What does not fit in between does not fit in the end. -/
theorem word?_bind_word? {f : Nat → Nat} {n : Nat} (h : n ≤ f n) :
    ((word? n).bind fun w => word? (f w.toNat)) = word? (f n) := by
  cases hw : word? n with
  | none =>
    have hlarge : 2 ^ 64 ≤ n := word?_eq_none_iff.1 hw
    exact (word?_eq_none_iff.2 (hlarge.trans h)).symm
  | some w => rw [Option.bind_some, ← word?_eq_some_iff.1 hw]

theorem word?_bind_push? {base : Nat} (hb : 0 < base) (n : Nat) (c : Char) :
    ((word? n).bind fun w => push? base w c) =
      (digitOf? base c).bind fun d => word? (n * base + d) := by
  cases hd : digitOf? base c with
  | none => simp [push?, hd]
  | some d =>
    have hsum : ∀ m, ((word? m).bind fun product => word? (product.toNat + d)) = word? (m + d) :=
      fun m => word?_bind_word? (f := (· + d)) (Nat.le_add_right m d)
    have hproduct : n ≤ n * base + d := (Nat.le_mul_of_pos_right n hb).trans (Nat.le_add_right _ d)
    simp only [push?, hd, Option.bind_some, hsum]
    exact word?_bind_word? (f := (· * base + d)) hproduct

theorem accumulate?_concat (base : Nat) (s : Text) (c : Char) :
    accumulate? base (s ++ [c]) = (accumulate? base s).bind fun w => push? base w c := by
  simp [accumulate?, List.foldlM_append]

/-- Checking every step comes to the same as checking the number at the end. -/
theorem accumulate?_eq {base : Nat} (hb : 0 < base) (s : Text) :
    accumulate? base s = (s.mapM (digitOf? base)).bind fun ds => word? (positional base ds) := by
  -- From the end, where both the steps and the value by places go on.
  induction s using List.reverseRecOn with
  | nil => rfl
  | append_singleton s c ih =>
    rw [accumulate?_concat, ih, Option.bind_assoc, List.mapM_append]
    simp only [word?_bind_push? hb]
    cases s.mapM (digitOf? base) with
    | none => rfl
    | some ds =>
      cases hd : digitOf? base c with
      | none => simp [hd]
      | some d => simp [hd, positional_concat]

theorem natural?_bind_word? {base : Nat} (hb : 0 < base) {s : Text} (hs : s ≠ []) :
    (natural? base s).bind word? = accumulate? base s := by
  rw [natural?_of_ne_nil hs, accumulate?_eq hb, Option.bind_map]
  rfl

/-! ## Signs -/

/-- Drops one leading plus sign. -/
def dropSign : Text → Text
  | '+' :: r => r
  | s => s

theorem dropSign_cases (s : Text) : s = dropSign s ∨ s = '+' :: dropSign s := by
  unfold dropSign
  split
  · exact .inr rfl
  · exact .inl rfl

theorem dropSign_of_head? {s : Text} (h : s.head? ≠ some '+') : dropSign s = s := by
  unfold dropSign
  split
  · exact absurd rfl h
  · rfl

/-- Digits after at most one plus sign. -/
def signed? (base : Nat) (s : Text) : Option UInt64 :=
  if dropSign s = [] then none else accumulate? base (dropSign s)

/-- The same reader kept from texts with a sign. -/
def unsigned? (base : Nat) (s : Text) : Option UInt64 :=
  if s = [] ∨ s.head? = some '+' then none else signed? base s

theorem signed?_eq {base : Nat} (hb : 0 < base) (s : Text) :
    signed? base s = (natural? base (dropSign s)).bind word? := by
  rw [signed?]
  split
  · rename_i h
    rw [h]
    rfl
  · rename_i h
    exact (natural?_bind_word? hb h).symm

theorem unsigned?_eq {base : Nat} (hb : 0 < base) (s : Text) :
    unsigned? base s = (natural? base s).bind word? := by
  rw [unsigned?]
  split
  · rename_i h
    rcases h with rfl | h
    · rfl
    · have hplus : digitOf? base '+' = none := digitOf?_eq_none base (by decide)
      rw [natural?_eq_none_of_mem (List.mem_of_head? h) hplus, Option.bind_none]
  · rename_i h
    rw [not_or] at h
    rw [signed?_eq hb, dropSign_of_head? h.2]

theorem dropSign_of_decimalNumeral {digits : Text} {n : Nat} (h : DecimalNumeral digits n) :
    dropSign digits = digits := by
  apply dropSign_of_head?
  intro hhead
  have hnone : natural? 10 digits = none :=
    natural?_eq_none_of_mem (List.mem_of_head? hhead) (digitOf?_eq_none 10 (by decide))
  rw [(natural?_eq_some_iff_standsFor (by decide)).2 h] at hnone
  cases hnone

theorem natural?_dropSign_iff {s : Text} {n : Nat} :
    natural? 10 (dropSign s) = some n ↔ CountNumeral s n := by
  rw [natural?_eq_some_iff_standsFor (by decide)]
  constructor
  · intro h
    exact ⟨dropSign s, dropSign_cases s, h⟩
  · rintro ⟨digits, rfl | rfl, h⟩
    · rwa [dropSign_of_decimalNumeral h]
    · exact h

/-! ## Words -/

/-- The reader takes what spells a number below `2 ^ 64`, gives that number, and refuses all
else. -/
structure ReadsWords (spelled : Text → Nat → Prop) (steps read : Text → Option UInt64) : Prop where
  eq_some_iff : ∀ s w, read s = some w ↔ spelled s w.toNat
  eq_none_iff : ∀ s, read s = none ↔ ∀ n, spelled s n → 2 ^ 64 ≤ n
  unique : ∀ s n n', spelled s n → spelled s n' → n' = n
  /-- The steps are checked one by one, the number is checked once. -/
  eq_steps : ∀ s, read s = steps s

theorem readsWords_of_number {spelled : Text → Nat → Prop} {steps read : Text → Option UInt64}
    {number? : Text → Option Nat} (hspelled : ∀ s n, number? s = some n ↔ spelled s n)
    (hread : ∀ s, read s = (number? s).bind word?)
    (hsteps : ∀ s, steps s = (number? s).bind word?) : ReadsWords spelled steps read := by
  constructor
  case eq_some_iff =>
    intro s w
    rw [hread, Option.bind_eq_some_iff, ← hspelled]
    simp only [word?_eq_some_iff]
    constructor
    · rintro ⟨n, hn, rfl⟩
      exact hn
    · intro h
      exact ⟨_, h, rfl⟩
  case eq_none_iff =>
    intro s
    rw [hread, Option.bind_eq_none_iff]
    simp only [hspelled, word?_eq_none_iff]
  case unique =>
    intro s n n' h h'
    rw [← hspelled] at h h'
    rw [h] at h'
    exact (Option.some.inj h').symm
  case eq_steps =>
    intro s
    rw [hread, hsteps]

theorem ReadsWords.eq_none {spelled : Text → Nat → Prop} {steps read : Text → Option UInt64}
    (h : ReadsWords spelled steps read) {s : Text} (hs : ∀ w : UInt64, ¬spelled s w.toNat) :
    read s = none := by
  cases hread : read s with
  | none => rfl
  | some w => exact absurd ((h.eq_some_iff s w).1 hread) (hs w)

theorem readsWords_hex :
    ReadsWords HexNumeral (fun s => unsigned? 16 (dropHexMark s)) hex? :=
  readsWords_of_number (fun _ _ => natural?_dropHexMark_iff) (fun _ => rfl)
    fun _ => unsigned?_eq (by decide) _

theorem readsWords_decimal : ReadsWords DecimalNumeral (unsigned? 10) decimal? :=
  readsWords_of_number (fun _ _ => natural?_eq_some_iff_standsFor (by decide)) (fun _ => rfl)
    fun _ => unsigned?_eq (by decide) _

theorem count?_eq (s : Text) : count? s = decimal? (dropSign s) := by
  unfold count?
  split
  · rfl
  · rename_i hsign
    have hhead : s.head? ≠ some '+' := by
      intro h
      obtain ⟨r, hr⟩ := List.head?_eq_some_iff.1 h
      exact hsign r hr
    rw [dropSign_of_head? hhead]

theorem readsWords_count : ReadsWords CountNumeral (signed? 10) count? :=
  readsWords_of_number (fun _ _ => natural?_dropSign_iff) count?_eq
    fun _ => signed?_eq (by decide) _

/-- A word is written without a sign. -/
theorem count?_decimal (w : UInt64) : count? (decimal w) = some w := by
  rw [readsWords_count.eq_some_iff]
  exact ⟨_, .inl rfl, (readsWords_decimal.eq_some_iff _ _).1 (decimal?_decimal w)⟩

/-! ## Letters of either case -/

theorem digitOf?_toLower (base : Nat) (c : Char) : digitOf? base c.toLower = digitOf? base c := by
  rw [digitOf?, digitOf?, Text.apply_toLower (f := digit?) (by decide) c]

theorem natural?_lower (base : Nat) (s : Text) :
    natural? base (Text.lower s) = natural? base s := by
  cases s with
  | nil => rfl
  | cons c r =>
    have hdigits : digitOf? base ∘ Char.toLower = digitOf? base := funext (digitOf?_toLower base)
    rw [natural?_of_ne_nil (List.cons_ne_nil c r), natural?_of_ne_nil (by simp [Text.lower]),
      Text.lower, List.mapM_map, hdigits]

/-- A text is marked in letters of either case or not at all. -/
theorem dropHexMark_lower (s : Text) :
    dropHexMark (Text.lower s) = Text.lower (dropHexMark s) := by
  have hzero : ∀ c : Char, c.toLower = '0' ↔ c = '0' :=
    Text.apply_toLower_iff (p := (· = '0')) (by decide)
  have hmark : ∀ c : Char, c.toLower = 'x' ∨ c.toLower = 'X' ↔ c = 'x' ∨ c = 'X' :=
    Text.apply_toLower_iff (p := fun c => c = 'x' ∨ c = 'X') (by decide)
  rw [dropHexMark.eq_def s]
  split
  · rfl
  · rfl
  · rename_i hx hX
    -- Nothing else has a mark as its lower case, so the text is still unmarked.
    have hunmarked : ∀ letter r, letter = 'x' ∨ letter = 'X' →
        Text.lower s ≠ '0' :: letter :: r := by
      intro letter r hletter hs
      obtain ⟨c, t, rfl, hc, ht⟩ := List.map_eq_cons_iff.1 hs
      obtain ⟨d, u, rfl, rfl, -⟩ := List.map_eq_cons_iff.1 ht
      rw [hzero] at hc
      rw [hmark] at hletter
      subst hc
      rcases hletter with rfl | rfl
      · exact hx u rfl
      · exact hX u rfl
    rw [dropHexMark.eq_def]
    split
    · rename_i h
      exact absurd h (hunmarked _ _ (.inl rfl))
    · rename_i h
      exact absurd h (hunmarked _ _ (.inr rfl))
    · rfl

theorem hex?_lower (s : Text) : hex? (Text.lower s) = hex? s := by
  rw [hex?, hex?, dropHexMark_lower, natural?_lower]

/-! ## Texts that are refused -/

/-- Signs, separators, blanks and all that is not ASCII. -/
def Foreign (c : Char) : Prop :=
  c = '+' ∨ c = '-' ∨ c = '_' ∨ Text.isWhite c = true ∨ 128 ≤ c.toNat

theorem digit?_of_foreign {c : Char} (h : Foreign c) : digit? c = none := by
  by_contra hdigit
  rcases h with rfl | rfl | rfl | hwhite | hlarge
  · exact hdigit (by decide)
  · exact hdigit (by decide)
  · exact hdigit (by decide)
  · rw [isWhite_of_digit? hdigit] at hwhite
    cases hwhite
  · have hbounds := toNat_of_digit? hdigit
    omega

/-- A reader of digits and marks alone refuses a text that holds anything else. -/
theorem eq_none_of_foreign {read : Text → Option UInt64}
    (hread : ∀ {s w}, read s = some w → ∀ {c}, c ∈ s → digit? c ≠ none) {s : Text} {c : Char}
    (hc : c ∈ s) (h : Foreign c) : read s = none := by
  cases hs : read s with
  | none => rfl
  | some w => exact absurd (digit?_of_foreign h) (hread hs hc)

/-- The letter of a mark is no digit. -/
theorem exists_letter_of_mem_hexMarks {mark : Text} (h : mark ∈ hexMarks) {base : Nat}
    (hb : base ≤ 16) : ∃ c ∈ mark, digitOf? base c = none := by
  have hletter : ∀ c, digit? c = some 33 → digitOf? base c = none := by
    intro c hc
    rw [digitOf?, hc, Option.filter_eq_none_iff]
    rintro _ ⟨⟩
    rw [decide_eq_true_eq]
    omega
  rcases mem_hexMarks_iff.1 h with rfl | rfl
  · exact ⟨'x', by simp, hletter 'x' (by decide)⟩
  · exact ⟨'X', by simp, hletter 'X' (by decide)⟩

theorem natural?_of_marked {mark : Text} (h : mark ∈ hexMarks) {base : Nat} (hb : base ≤ 16)
    (s : Text) : natural? base (mark ++ s) = none := by
  obtain ⟨c, hc, hnone⟩ := exists_letter_of_mem_hexMarks h hb
  exact natural?_eq_none_of_mem (List.mem_append_left s hc) hnone

theorem hex?_of_marked_again {mark again : Text} (hmark : mark ∈ hexMarks)
    (hagain : again ∈ hexMarks) (s : Text) : hex? (mark ++ (again ++ s)) = none := by
  rw [hex?, dropHexMark_append hmark, natural?_of_marked hagain (by decide), Option.bind_none]

theorem decimal?_of_marked {mark : Text} (h : mark ∈ hexMarks) (s : Text) :
    decimal? (mark ++ s) = none := by
  rw [decimal?, natural?_of_marked h (by decide), Option.bind_none]

/-- Words are read from their numerals, with any number of zeros in front, and from nothing
else: no text with a sign, a separator, a blank or a character beyond ASCII, none with a
mark too many, none of a larger number. What is written for a word reads as that word. -/
theorem readsWords_strictly :
    ReadsWords HexNumeral (fun s => unsigned? 16 (dropHexMark s)) hex? ∧
      ReadsWords DecimalNumeral (unsigned? 10) decimal? ∧
      (∀ s c, c ∈ s → Foreign c → hex? s = none ∧ decimal? s = none) ∧
      (∀ mark again s, mark ∈ hexMarks → again ∈ hexMarks →
        hex? (mark ++ (again ++ s)) = none ∧ decimal? (mark ++ s) = none) ∧
      ∀ w, hex? (hex w) = some w ∧ hex? (markedHex w) = some w ∧
        decimal? (decimal w) = some w := by
  refine ⟨readsWords_hex, readsWords_decimal, ?_, ?_, ?_⟩
  · intro s c hc hforeign
    exact ⟨eq_none_of_foreign digit?_of_hex? hc hforeign,
      eq_none_of_foreign digit?_of_decimal? hc hforeign⟩
  · intro mark again s hmark hagain
    exact ⟨hex?_of_marked_again hmark hagain s, decimal?_of_marked hmark s⟩
  · intro w
    exact ⟨hex?_hex w, hex?_markedHex w, decimal?_decimal w⟩

/-! Zeros in front do not make a numeral too long, and the next number after the largest word
is refused. -/

def longMax : Text := "0X".toList ++ (List.replicate 48 '0' ++ "FfffFfffFfffFfff".toList)

theorem readsWords_strictly_edges :
    HexNumeral longMax (2 ^ 64 - 1) ∧
      (∀ n, DecimalNumeral "18446744073709551616".toList n → 2 ^ 64 ≤ n) ∧
      ('\u0663' ∈ "1\u0663".toList ∧ Foreign '\u0663' ∧ hex? "1\u0663".toList = none ∧
        decimal? "1\u0663".toList = none) ∧
      "0x".toList ∈ hexMarks ∧ "0X".toList ∈ hexMarks ∧ hex? "0x0X1".toList = none ∧
        decimal? "0x1".toList = none := by
  obtain ⟨hhex, hdecimal, hforeign, hmarked, -⟩ := readsWords_strictly
  have hmax : hex? longMax = some 18446744073709551615 := by decide +kernel
  have hnone : decimal? "18446744073709551616".toList = none := by decide +kernel
  have hmem : '\u0663' ∈ "1\u0663".toList := by decide
  have hthree : Foreign '\u0663' := .inr (.inr (.inr (.inr (by decide))))
  have hsmall : "0x".toList ∈ hexMarks := mem_hexMarks_iff.2 (.inl rfl)
  have hlarge : "0X".toList ∈ hexMarks := mem_hexMarks_iff.2 (.inr rfl)
  obtain ⟨hagain, hmark⟩ := hmarked _ _ "1".toList hsmall hlarge
  exact ⟨(hhex.eq_some_iff _ _).1 hmax, (hdecimal.eq_none_iff _).1 hnone,
    ⟨hmem, hthree, hforeign _ _ hmem hthree⟩, hsmall, hlarge, hagain, hmark⟩

end SectionDump.Numeral
