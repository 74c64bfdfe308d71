import SectionDump.Proofs.Encoding

/-!
# Decoded texts

Strict reading takes exactly the bytes that writing produces: overlong forms,
surrogates and cut-off characters are refused by the bounds on the second byte, and
what is left is the one spelling of each character. So no two byte sequences read as
the same text.
-/
namespace SectionDump.Utf8

theorem toNat_charOfNat {n : Nat} (h : n < 0xD800 ∨ 0xDFFF < n ∧ n < 0x110000) :
    (Char.ofNat n).toNat = n := by
  rw [Char.ofNat, dif_pos (show n.isValidChar from h)]
  rfl

theorem ofNat_eq {b : UInt8} {n : Nat} (h : n = b.toNat) : UInt8.ofNat n = b := by
  rw [h, UInt8.ofNat_toNat]

theorem encodeChar_two {b b₂ : UInt8} (hb : 0xC2 ≤ b.toNat ∧ b.toNat < 0xE0)
    (hb₂ : 0x80 ≤ b₂.toNat ∧ b₂.toNat ≤ 0xBF) :
    encodeChar (Char.ofNat ((b.toNat - 0xC0) * 0x40 + (b₂.toNat - 0x80))) = [b, b₂] := by
  simp only [encodeChar, tail]
  rw [toNat_charOfNat (by omega), if_neg (by omega), if_pos (by omega),
    ofNat_eq (b := b) (by omega), ofNat_eq (b := b₂) (by omega)]

/-- The bounds on the second byte are such that the number takes three bytes and is no
surrogate. -/
theorem encodeChar_three {b b₂ b₃ : UInt8} (hb : 0xE0 ≤ b.toNat ∧ b.toNat < 0xF0)
    (hlow : (if b.toNat = 0xE0 then 0xA0 else 0x80) ≤ b₂.toNat)
    (hhigh : b₂.toNat ≤ if b.toNat = 0xED then 0x9F else 0xBF)
    (hb₃ : 0x80 ≤ b₃.toNat ∧ b₃.toNat ≤ 0xBF) :
    encodeChar (Char.ofNat (((b.toNat - 0xE0) * 0x40 + (b₂.toNat - 0x80)) * 0x40 +
      (b₃.toNat - 0x80))) = [b, b₂, b₃] := by
  simp only [encodeChar, tail]
  rw [toNat_charOfNat (by split at hlow <;> split at hhigh <;> omega),
    if_neg (by split at hlow <;> omega), if_neg (by split at hlow <;> omega),
    if_pos (by split at hhigh <;> omega),
    ofNat_eq (b := b) (by split at hlow <;> split at hhigh <;> omega),
    ofNat_eq (b := b₂) (by split at hlow <;> split at hhigh <;> omega),
    ofNat_eq (b := b₃) (by omega)]

theorem encodeChar_four {b b₂ b₃ b₄ : UInt8} (hb : 0xF0 ≤ b.toNat ∧ b.toNat < 0xF5)
    (hlow : (if b.toNat = 0xF0 then 0x90 else 0x80) ≤ b₂.toNat)
    (hhigh : b₂.toNat ≤ if b.toNat = 0xF4 then 0x8F else 0xBF)
    (hb₃ : 0x80 ≤ b₃.toNat ∧ b₃.toNat ≤ 0xBF)
    (hb₄ : 0x80 ≤ b₄.toNat ∧ b₄.toNat ≤ 0xBF) :
    encodeChar (Char.ofNat ((((b.toNat - 0xF0) * 0x40 + (b₂.toNat - 0x80)) * 0x40 +
      (b₃.toNat - 0x80)) * 0x40 + (b₄.toNat - 0x80))) = [b, b₂, b₃, b₄] := by
  have hb₂ : 0x80 ≤ b₂.toNat ∧ b₂.toNat ≤ 0xBF := by
    split at hlow <;> split at hhigh <;> omega
  have hleast : 0xF0 < b.toNat ∨ 0x90 ≤ b₂.toNat := by
    split at hlow <;> omega
  have hmost : b.toNat < 0xF4 ∨ b₂.toNat ≤ 0x8F := by
    split at hhigh <;> omega
  simp only [encodeChar, tail]
  rw [toNat_charOfNat (by omega), if_neg (by omega), if_neg (by omega), if_neg (by omega),
    ofNat_eq (b := b) (by omega), ofNat_eq (b := b₂) (by omega), ofNat_eq (b := b₃) (by omega),
    ofNat_eq (b := b₄) (by omega)]

/-- A character that is not finished takes a byte within its bounds next. -/
theorem exists_of_unitsFrom_some {p : Unfinished} {bytes : Bytes} {c : Char}
    {us : List (Option Char)} (h : unitsFrom (some p) bytes = some c :: us) :
    ∃ b rest, bytes = b :: rest ∧ (p.low ≤ b.toNat ∧ b.toNat ≤ p.high) ∧
      match p.owed with
      | 0 => Char.ofNat (p.value * 0x40 + (b.toNat - 0x80)) = c ∧ unitsFrom none rest = us
      | owed + 1 => unitsFrom
          (some ⟨p.value * 0x40 + (b.toNat - 0x80), owed, 0x80, 0xBF⟩) rest = some c :: us := by
  cases bytes with
  | nil => cases h
  | cons b rest =>
    rw [unitsFrom] at h
    split at h
    · rename_i hb
      refine ⟨b, rest, rfl, hb, ?_⟩
      cases howed : p.owed with
      | zero =>
        simp only [howed] at h
        exact ⟨Option.some.inj (List.cons.inj h).1, (List.cons.inj h).2⟩
      | succ owed =>
        simp only [howed] at h
        exact h
    · split at h <;> cases h

/-- A unit that is a character has the bytes of this character and no others. -/
theorem exists_of_unitsFrom_none {bytes : Bytes} {c : Char} {us : List (Option Char)}
    (h : unitsFrom none bytes = some c :: us) :
    ∃ rest, bytes = encodeChar c ++ rest ∧ unitsFrom none rest = us := by
  cases bytes with
  | nil => cases h
  | cons b rest =>
    rw [unitsFrom] at h
    by_cases h₁ : b.toNat < 0x80
    · have hlead : Lead.ofByte b = .char (Char.ofNat b.toNat) := by
        simp only [Lead.ofByte, if_pos h₁]
      have hn := toNat_charOfNat (n := b.toNat) (by omega)
      rw [hlead] at h
      cases h
      refine ⟨rest, ?_, rfl⟩
      rw [encodeChar_of_lt (by rwa [hn]), hn, UInt8.ofNat_toNat]
      rfl
    by_cases h₂ : b.toNat < 0xC2
    · simp only [Lead.ofByte, if_neg h₁, if_pos h₂] at h
      cases h
    by_cases h₃ : b.toNat < 0xE0
    · simp only [Lead.ofByte, if_neg h₁, if_neg h₂, if_pos h₃] at h
      obtain ⟨b₂, rest, rfl, hb₂, rfl, hus⟩ := exists_of_unitsFrom_some h
      refine ⟨rest, ?_, hus⟩
      rw [encodeChar_two (by omega) hb₂]
      rfl
    by_cases h₄ : b.toNat < 0xF0
    · simp only [Lead.ofByte, if_neg h₁, if_neg h₂, if_neg h₃, if_pos h₄] at h
      obtain ⟨b₂, rest, rfl, hb₂, hmore⟩ := exists_of_unitsFrom_some h
      obtain ⟨b₃, rest, rfl, hb₃, rfl, hus⟩ := exists_of_unitsFrom_some hmore
      refine ⟨rest, ?_, hus⟩
      rw [encodeChar_three (by omega) hb₂.1 hb₂.2 hb₃]
      rfl
    by_cases h₅ : b.toNat < 0xF5
    · simp only [Lead.ofByte, if_neg h₁, if_neg h₂, if_neg h₃, if_neg h₄, if_pos h₅] at h
      obtain ⟨b₂, rest, rfl, hb₂, hmore⟩ := exists_of_unitsFrom_some h
      obtain ⟨b₃, rest, rfl, hb₃, hmost⟩ := exists_of_unitsFrom_some hmore
      obtain ⟨b₄, rest, rfl, hb₄, rfl, hus⟩ := exists_of_unitsFrom_some hmost
      refine ⟨rest, ?_, hus⟩
      rw [encodeChar_four (by omega) hb₂.1 hb₂.2 hb₃ hb₄]
      rfl
    · simp only [Lead.ofByte, if_neg h₁, if_neg h₂, if_neg h₃, if_neg h₄, if_neg h₅] at h
      cases h

theorem unitsFrom_ne_nil (p : Unfinished) (bytes : Bytes) : unitsFrom (some p) bytes ≠ [] := by
  induction bytes generalizing p with
  | nil => simp [unitsFrom]
  | cons b rest ih =>
    rw [unitsFrom]
    split
    · split
      · simp
      · exact ih _
    · split <;> simp

theorem eq_nil_of_units_eq_nil {bytes : Bytes} (h : units bytes = []) : bytes = [] := by
  cases bytes with
  | nil => rfl
  | cons b rest =>
    rw [units, unitsFrom] at h
    split at h
    · cases h
    · exact absurd h (unitsFrom_ne_nil _ _)
    · cases h

theorem units_eq_map_some_iff {bytes : Bytes} {s : Text} :
    units bytes = s.map some ↔ bytes = encode s := by
  constructor
  · intro h
    induction s generalizing bytes with
    | nil => exact eq_nil_of_units_eq_nil h
    | cons c r ih =>
      obtain ⟨rest, rfl, hrest⟩ := exists_of_unitsFrom_none h
      rw [encode_cons, ih hrest]
  · rintro rfl
    exact units_encode s

theorem mapM_id_eq_some_iff {us : List (Option Char)} {s : Text} :
    us.mapM id = some s ↔ us = s.map some := by
  induction us generalizing s with
  | nil => cases s <;> simp
  | cons u rest ih =>
    cases u with
    | none => cases s <;> simp [List.mapM_cons]
    | some c =>
      cases s with
      | nil => cases h : rest.mapM id <;> simp [List.mapM_cons, h]
      | cons d r => cases h : rest.mapM id <;> simp [List.mapM_cons, ← ih, h]

/-- Bytes are those of at most one text, and read as that one. -/
theorem decode?_eq_some_iff {bytes : Bytes} {s : Text} :
    decode? bytes = some s ↔ bytes = encode s := by
  rw [decode?, mapM_id_eq_some_iff, units_eq_map_some_iff]

end SectionDump.Utf8
