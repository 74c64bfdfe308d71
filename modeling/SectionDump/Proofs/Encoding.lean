import SectionDump.Text.Utf8

/-!
# Encoded texts

A text survives being encoded, so no two texts have the same bytes. The bytes of
a character outside ASCII are all above those of ASCII, so slashes and NULs are in
the bytes exactly where they are in the text.
-/
namespace SectionDump.Utf8

theorem toNat_ofNat {n : Nat} (h : n < 0x100) : (UInt8.ofNat n).toNat = n := by
  rw [UInt8.toNat_ofNat']
  exact Nat.mod_eq_of_lt h

theorem toNat_tail (n : Nat) : (tail n).toNat = 0x80 + n % 0x40 := by
  have hlt : n % 0x40 < 0x40 := Nat.mod_lt _ (by decide)
  exact toNat_ofNat (by omega)

theorem ofByte_ofNat {n : Nat} (h : n < 0x80) :
    Lead.ofByte (UInt8.ofNat n) = .char (Char.ofNat n) := by
  simp only [Lead.ofByte, toNat_ofNat (show n < 0x100 by omega)]
  rw [if_pos h]

theorem ofByte_two {n : Nat} (h : 0x80 ≤ n) (h' : n < 0x800) :
    Lead.ofByte (UInt8.ofNat (0xC0 + n / 0x40)) = .more ⟨n / 0x40, 0, 0x80, 0xBF⟩ := by
  simp only [Lead.ofByte, toNat_ofNat (show 0xC0 + n / 0x40 < 0x100 by omega)]
  rw [if_neg (by omega), if_neg (by omega), if_pos (by omega), Nat.add_sub_cancel_left]

theorem ofByte_three {n : Nat} (h : n < 0x10000) :
    Lead.ofByte (UInt8.ofNat (0xE0 + n / 0x1000)) =
      .more ⟨n / 0x1000, 1, if n / 0x1000 = 0 then 0xA0 else 0x80,
        if n / 0x1000 = 0xD then 0x9F else 0xBF⟩ := by
  simp only [Lead.ofByte, toNat_ofNat (show 0xE0 + n / 0x1000 < 0x100 by omega)]
  rw [if_neg (by omega), if_neg (by omega), if_neg (by omega), if_pos (by omega),
    Nat.add_sub_cancel_left]
  have hlow : 0xE0 + n / 0x1000 = 0xE0 ↔ n / 0x1000 = 0 := by omega
  have hhigh : 0xE0 + n / 0x1000 = 0xED ↔ n / 0x1000 = 0xD := by omega
  simp only [hlow, hhigh]

theorem ofByte_four {n : Nat} (h : n < 0x110000) :
    Lead.ofByte (UInt8.ofNat (0xF0 + n / 0x40000)) =
      .more ⟨n / 0x40000, 2, if n / 0x40000 = 0 then 0x90 else 0x80,
        if n / 0x40000 = 4 then 0x8F else 0xBF⟩ := by
  simp only [Lead.ofByte, toNat_ofNat (show 0xF0 + n / 0x40000 < 0x100 by omega)]
  rw [if_neg (by omega), if_neg (by omega), if_neg (by omega), if_neg (by omega),
    if_pos (by omega), Nat.add_sub_cancel_left]
  have hlow : 0xF0 + n / 0x40000 = 0xF0 ↔ n / 0x40000 = 0 := by omega
  have hhigh : 0xF0 + n / 0x40000 = 0xF4 ↔ n / 0x40000 = 4 := by omega
  simp only [hlow, hhigh]

theorem unitsFrom_lead {b : UInt8} {p : Unfinished} (rest : Bytes) (h : Lead.ofByte b = .more p) :
    unitsFrom none (b :: rest) = unitsFrom (some p) rest := by
  rw [unitsFrom, h]

/-- The last byte of a character completes it. -/
theorem unitsFrom_tail_last {value low high n : Nat} (rest : Bytes)
    (h : low ≤ 0x80 + n % 0x40 ∧ 0x80 + n % 0x40 ≤ high) :
    unitsFrom (some ⟨value, 0, low, high⟩) (tail n :: rest) =
      some (Char.ofNat (value * 0x40 + n % 0x40)) :: unitsFrom none rest := by
  simp only [unitsFrom, toNat_tail]
  rw [if_pos h, Nat.add_sub_cancel_left]

/-- A byte within its bounds adds six bits, and the next may be any tail. -/
theorem unitsFrom_tail_more {value owed low high n : Nat} (rest : Bytes)
    (h : low ≤ 0x80 + n % 0x40 ∧ 0x80 + n % 0x40 ≤ high) :
    unitsFrom (some ⟨value, owed + 1, low, high⟩) (tail n :: rest) =
      unitsFrom (some ⟨value * 0x40 + n % 0x40, owed, 0x80, 0xBF⟩) rest := by
  simp only [unitsFrom, toNat_tail]
  rw [if_pos h, Nat.add_sub_cancel_left]

theorem tail_within (n : Nat) : 0x80 ≤ 0x80 + n % 0x40 ∧ 0x80 + n % 0x40 ≤ 0xBF := by omega

/-- The bounds on the second byte leave out no character: the first ones need it to
be high enough, and the surrogates are none. -/
theorem unitsFrom_encodeChar (c : Char) (rest : Bytes) :
    unitsFrom none (encodeChar c ++ rest) = some c :: unitsFrom none rest := by
  have hvalid : c.toNat < 0xD800 ∨ 0xDFFF < c.toNat ∧ c.toNat < 0x110000 := c.valid
  have hc : Char.ofNat c.toNat = c := Char.ofNat_toNat c
  simp only [encodeChar]
  generalize c.toNat = n at hvalid hc
  by_cases h₁ : n < 0x80
  · rw [if_pos h₁]
    simp only [List.cons_append, List.nil_append, unitsFrom, ofByte_ofNat h₁, hc]
  rw [if_neg h₁]
  by_cases h₂ : n < 0x800
  · have hn : n / 0x40 * 0x40 + n % 0x40 = n := by omega
    rw [if_pos h₂]
    simp only [List.cons_append, List.nil_append]
    rw [unitsFrom_lead _ (ofByte_two (Nat.le_of_not_lt h₁) h₂), unitsFrom_tail_last rest (tail_within n), hn, hc]
  rw [if_neg h₂]
  by_cases h₃ : n < 0x10000
  · have hn : (n / 0x1000 * 0x40 + n / 0x40 % 0x40) * 0x40 + n % 0x40 = n := by omega
    have hsecond : (if n / 0x1000 = 0 then 0xA0 else 0x80) ≤ 0x80 + n / 0x40 % 0x40 ∧
        0x80 + n / 0x40 % 0x40 ≤ if n / 0x1000 = 0xD then 0x9F else 0xBF := by
      constructor <;> split <;> omega
    rw [if_pos h₃]
    simp only [List.cons_append, List.nil_append]
    rw [unitsFrom_lead _ (ofByte_three h₃), unitsFrom_tail_more _ hsecond,
      unitsFrom_tail_last rest (tail_within n), hn, hc]
  · have hn : ((n / 0x40000 * 0x40 + n / 0x1000 % 0x40) * 0x40 + n / 0x40 % 0x40) * 0x40 +
        n % 0x40 = n := by omega
    have hsecond : (if n / 0x40000 = 0 then 0x90 else 0x80) ≤ 0x80 + n / 0x1000 % 0x40 ∧
        0x80 + n / 0x1000 % 0x40 ≤ if n / 0x40000 = 4 then 0x8F else 0xBF := by
      constructor <;> split <;> omega
    rw [if_neg h₃]
    simp only [List.cons_append, List.nil_append]
    rw [unitsFrom_lead _ (ofByte_four (show n < 0x110000 by omega)),
      unitsFrom_tail_more _ hsecond, unitsFrom_tail_more _ (tail_within _),
      unitsFrom_tail_last rest (tail_within n), hn, hc]

theorem units_encode (s : Text) : units (encode s) = s.map some := by
  rw [units]
  induction s with
  | nil => rfl
  | cons c r ih => rw [encode_cons, unitsFrom_encodeChar, ih, List.map_cons]

/-- A text comes back from its bytes. -/
@[simp] theorem decode?_encode (s : Text) : decode? (encode s) = some s := by
  rw [decode?, units_encode]
  induction s with
  | nil => rfl
  | cons c r ih => simp [List.mapM_cons, ih]

theorem encode_injective {s t : Text} (h : encode s = encode t) : s = t := by
  have hread := decode?_encode s
  rw [h, decode?_encode] at hread
  exact (Option.some.inj hread).symm

theorem encodeChar_ne_nil (c : Char) : encodeChar c ≠ [] := by
  simp only [encodeChar]
  split
  · simp
  · split
    · simp
    · split <;> simp

@[simp] theorem encode_eq_nil_iff {s : Text} : encode s = [] ↔ s = [] := by
  cases s <;> simp [encodeChar_ne_nil]

theorem encodeChar_of_lt {c : Char} (h : c.toNat < 0x80) :
    encodeChar c = [UInt8.ofNat c.toNat] := by
  simp only [encodeChar]
  rw [if_pos h]

/-- No byte of a character outside ASCII is one of ASCII. -/
theorem le_of_mem_encodeChar {c : Char} (h : 0x80 ≤ c.toNat) {b : UInt8}
    (hb : b ∈ encodeChar c) : 0x80 ≤ b.toNat := by
  have hvalid : c.toNat < 0xD800 ∨ 0xDFFF < c.toNat ∧ c.toNat < 0x110000 := c.valid
  have hlead : ∀ m, 0x80 ≤ m → m < 0x100 → 0x80 ≤ (UInt8.ofNat m).toNat := by
    intro m hm hm'
    rw [toNat_ofNat hm']
    exact hm
  have htail : ∀ m, 0x80 ≤ (tail m).toNat := by
    intro m
    rw [toNat_tail]
    omega
  simp only [encodeChar] at hb
  generalize c.toNat = n at h hvalid hb
  rw [if_neg (Nat.not_lt.2 h)] at hb
  split at hb
  · simp only [List.mem_cons, List.not_mem_nil, or_false] at hb
    rcases hb with rfl | rfl
    · exact hlead _ (by omega) (by omega)
    · exact htail _
  · split at hb
    · simp only [List.mem_cons, List.not_mem_nil, or_false] at hb
      rcases hb with rfl | rfl | rfl
      · exact hlead _ (by omega) (by omega)
      · exact htail _
      · exact htail _
    · simp only [List.mem_cons, List.not_mem_nil, or_false] at hb
      rcases hb with rfl | rfl | rfl | rfl
      · exact hlead _ (by omega) (by omega)
      · exact htail _
      · exact htail _
      · exact htail _

/-- A byte of ASCII is the character of that number. -/
theorem eq_of_mem_encodeChar {a c : Char} (ha : a.toNat < 0x80)
    (h : UInt8.ofNat a.toNat ∈ encodeChar c) : c = a := by
  have hb : (UInt8.ofNat a.toNat).toNat = a.toNat := toNat_ofNat (by omega)
  by_cases hc : c.toNat < 0x80
  · rw [encodeChar_of_lt hc, List.mem_singleton] at h
    have hnat := congrArg UInt8.toNat h
    rw [hb, toNat_ofNat (by omega)] at hnat
    rw [← Char.ofNat_toNat c, ← hnat, Char.ofNat_toNat]
  · have hle := le_of_mem_encodeChar (Nat.le_of_not_lt hc) h
    omega

theorem mem_encode_iff {a : Char} (ha : a.toNat < 0x80) {s : Text} :
    UInt8.ofNat a.toNat ∈ encode s ↔ a ∈ s := by
  rw [encode, List.mem_flatMap]
  constructor
  · rintro ⟨c, hc, h⟩
    rwa [eq_of_mem_encodeChar ha h] at hc
  · intro h
    exact ⟨a, h, by simp [encodeChar_of_lt ha]⟩

theorem getLast?_encode_eq_iff {a : Char} (ha : a.toNat < 0x80) {s : Text} :
    (encode s).getLast? = some (UInt8.ofNat a.toNat) ↔ s.getLast? = some a := by
  rcases s.eq_nil_or_concat with rfl | ⟨r, c, rfl⟩
  · simp
  · rw [List.concat_eq_append]
    have hne : encodeChar c ≠ [] := encodeChar_ne_nil c
    have hlast : (encode (r ++ [c])).getLast? = (encodeChar c).getLast? := by
      rw [encode_append, encode_cons, encode_nil, List.append_nil, List.getLast?_append,
        List.getLast?_eq_some_getLast hne, Option.some_or]
    rw [hlast]
    constructor
    · intro h
      rw [eq_of_mem_encodeChar ha (List.mem_of_getLast? h)]
      simp
    · intro h
      obtain rfl : c = a := by simpa using h
      simp [encodeChar_of_lt ha]

end SectionDump.Utf8
