import SectionDump.Metadata.Line
import SectionDump.Proofs.Numerals
import SectionDump.Proofs.Outcomes

/-!
# Values of entries

What an entry has to be under a header, said without the reader: which values fit a
group and what they add, and which fault the others have. Every entry either fits or
has one fault, and it adds to its own group only.
-/
namespace SectionDump.Metadata

open Numeral (SpellsHex)

/-! ## Addresses and symbols -/

theorem address_eq_ok_iff {text : Text} {w : UInt64} :
    address text = .ok w ↔ SpellsHex text w := by
  rw [address, ← Numeral.hex?_eq_some_iff]
  cases Numeral.hex? text <;> simp

theorem address_of_not_spells {text : Text} (h : ∀ w, ¬SpellsHex text w) :
    address text = .error (.invalidAddress text) := by
  rw [address, Numeral.hex?_eq_none_iff.2 (not_exists.2 h)]

/-- An address and a name behind the first comma, with blanks around either. -/
def SpellsSymbol (value : Text) (s : Symbol) : Prop :=
  ∃ a n, value = a ++ ',' :: n ∧ ',' ∉ a ∧ SpellsHex (Text.trim a) s.address ∧
    s.name = Text.trim n ∧ s.name ≠ []

/-- What is wrong with a value that spells no symbol. A missing name counts before a
wrong address. -/
inductive UnfitSymbol (value : Text) : LineFault → Prop where
  | comma (h : ',' ∉ value) : UnfitSymbol value (.missingComma value)
  | name {a n : Text} (h : value = a ++ ',' :: n) (ha : ',' ∉ a) (hn : Text.trim n = []) :
      UnfitSymbol value (.missingName value)
  | address {a n : Text} (h : value = a ++ ',' :: n) (ha : ',' ∉ a) (hn : Text.trim n ≠ [])
      (hw : ∀ w, ¬SpellsHex (Text.trim a) w) :
      UnfitSymbol value (.invalidAddress (Text.trim a))

theorem symbol_of_spells {value : Text} {s : Symbol} (h : SpellsSymbol value s) :
    symbol value = .ok s := by
  obtain ⟨a, n, hvalue, ha, haddress, hname, hne⟩ := h
  rw [symbol, Text.cut?_at_eq_some_iff.2 ⟨hvalue, ha⟩]
  simp only [← hname, if_neg hne, address_eq_ok_iff.2 haddress, Except.map]

theorem symbol_of_unfit {value : Text} {fault : LineFault} (h : UnfitSymbol value fault) :
    symbol value = .error fault := by
  cases h with
  | comma h => rw [symbol, Text.cut?_at_eq_none_iff.2 h]
  | name h ha hn =>
    rw [symbol, Text.cut?_at_eq_some_iff.2 ⟨h, ha⟩]
    exact if_pos hn
  | address h ha hn hw =>
    rw [symbol, Text.cut?_at_eq_some_iff.2 ⟨h, ha⟩]
    simp only [if_neg hn, address_of_not_spells hw, Except.map]

theorem symbol_spells_or_unfit (value : Text) :
    (∃ s, SpellsSymbol value s) ∨ ∃ fault, UnfitSymbol value fault := by
  by_cases hcomma : ',' ∈ value
  · obtain ⟨a, n, h, ha⟩ := List.eq_append_cons_of_mem hcomma
    by_cases hn : Text.trim n = []
    · exact .inr ⟨_, .name h ha hn⟩
    · by_cases hw : ∃ w, SpellsHex (Text.trim a) w
      · obtain ⟨w, hw⟩ := hw
        exact .inl ⟨⟨w, Text.trim n⟩, a, n, h, ha, hw, rfl, hn⟩
      · exact .inr ⟨_, .address h ha hn (not_exists.1 hw)⟩
  · exact .inr ⟨_, .comma hcomma⟩

/-! ## Entries -/

/-- The entry fits the group, and what it adds. Keys count in the group `aux` only. -/
inductive Fits : Option Group → Text → Text → Metadata → Prop where
  | unknown {key value : Text} : Fits none key value empty
  | arch {value : Text} (h : value ≠ []) :
      Fits (some .aux) archKey value { empty with arch := some value }
  | otherKey {key value : Text} (h : key ≠ archKey) : Fits (some .aux) key value empty
  | entryPoint {key value : Text} {s : Symbol} (h : SpellsSymbol value s) :
      Fits (some .entryPoints) key value { empty with entryPoints := [s] }
  | exitPoint {key value : Text} {s : Symbol} (h : SpellsSymbol value s) :
      Fits (some .exitPoints) key value { empty with exitPoints := [s] }
  | relocation {key value : Text} {w : UInt64} (h : SpellsHex value w) :
      Fits (some .relocations) key value { empty with relocations := [w] }
  | function {key value : Text} {w : UInt64} (h : SpellsHex value w) :
      Fits (some .functions) key value { empty with functions := [w] }

/-- The entry does not fit the group, and why. -/
inductive Unfit : Option Group → Text → Text → LineFault → Prop where
  | arch : Unfit (some .aux) archKey [] .emptyArch
  | entryPoint {key value : Text} {fault : LineFault} (h : UnfitSymbol value fault) :
      Unfit (some .entryPoints) key value fault
  | exitPoint {key value : Text} {fault : LineFault} (h : UnfitSymbol value fault) :
      Unfit (some .exitPoints) key value fault
  | relocation {key value : Text} (h : ∀ w, ¬SpellsHex value w) :
      Unfit (some .relocations) key value (.invalidAddress value)
  | function {key value : Text} (h : ∀ w, ¬SpellsHex value w) :
      Unfit (some .functions) key value (.invalidAddress value)

theorem entry_of_fits {group : Option Group} {key value : Text} {m : Metadata}
    (h : Fits group key value m) : entry group key value = .ok m := by
  cases h with
  | unknown => rfl
  | arch h => simp only [entry, if_pos, if_neg h]
  | otherKey h => simp only [entry, if_neg h]
  | entryPoint h => simp only [entry, symbol_of_spells h, Except.map]
  | exitPoint h => simp only [entry, symbol_of_spells h, Except.map]
  | relocation h => simp only [entry, address_eq_ok_iff.2 h, Except.map]
  | function h => simp only [entry, address_eq_ok_iff.2 h, Except.map]

theorem entry_of_unfit {group : Option Group} {key value : Text} {fault : LineFault}
    (h : Unfit group key value fault) : entry group key value = .error fault := by
  cases h with
  | arch => rfl
  | entryPoint h => simp only [entry, symbol_of_unfit h, Except.map]
  | exitPoint h => simp only [entry, symbol_of_unfit h, Except.map]
  | relocation h => simp only [entry, address_of_not_spells h, Except.map]
  | function h => simp only [entry, address_of_not_spells h, Except.map]

theorem fits_or_unfit (group : Option Group) (key value : Text) :
    (∃ m, Fits group key value m) ∨ ∃ fault, Unfit group key value fault := by
  cases group with
  | none => exact .inl ⟨_, .unknown⟩
  | some g =>
    cases g with
    | aux =>
      by_cases hkey : key = archKey
      · subst hkey
        by_cases hvalue : value = []
        · subst hvalue
          exact .inr ⟨_, .arch⟩
        · exact .inl ⟨_, .arch hvalue⟩
      · exact .inl ⟨_, .otherKey hkey⟩
    | entryPoints =>
      rcases symbol_spells_or_unfit value with ⟨s, h⟩ | ⟨fault, h⟩
      · exact .inl ⟨_, .entryPoint h⟩
      · exact .inr ⟨_, .entryPoint h⟩
    | exitPoints =>
      rcases symbol_spells_or_unfit value with ⟨s, h⟩ | ⟨fault, h⟩
      · exact .inl ⟨_, .exitPoint h⟩
      · exact .inr ⟨_, .exitPoint h⟩
    | relocations =>
      by_cases h : ∃ w, SpellsHex value w
      · exact .inl ⟨_, .relocation h.choose_spec⟩
      · exact .inr ⟨_, .relocation (not_exists.1 h)⟩
    | functions =>
      by_cases h : ∃ w, SpellsHex value w
      · exact .inl ⟨_, .function h.choose_spec⟩
      · exact .inr ⟨_, .function (not_exists.1 h)⟩

/-- The reader accepts the entries that fit, and no others. -/
theorem entry_eq_ok_iff {group : Option Group} {key value : Text} {m : Metadata} :
    entry group key value = .ok m ↔ Fits group key value m :=
  ok_iff_of_cases (fun _ => entry_of_fits) (fun _ => entry_of_unfit) (fits_or_unfit ..)

theorem entry_eq_error_iff {group : Option Group} {key value : Text} {fault : LineFault} :
    entry group key value = .error fault ↔ Unfit group key value fault :=
  error_iff_of_cases (fun _ => entry_of_fits) (fun _ => entry_of_unfit) (fits_or_unfit ..)

/-! ## Parts of metadata -/

/-- What a group holds. -/
def part : Group → Metadata → Metadata
  | .aux, m => { empty with arch := m.arch }
  | .entryPoints, m => { empty with entryPoints := m.entryPoints }
  | .exitPoints, m => { empty with exitPoints := m.exitPoints }
  | .relocations, m => { empty with relocations := m.relocations }
  | .functions, m => { empty with functions := m.functions }

@[simp] theorem part_empty (g : Group) : part g empty = empty := by cases g <;> rfl

theorem part_append (g : Group) (a b : Metadata) : part g (a ++ b) = part g a ++ part g b := by
  cases g <;> show _ = append _ _ <;> simp [part, append, empty]

/-- Metadata is put together from its parts. -/
theorem append_parts (m : Metadata) :
    part .aux m ++ (part .entryPoints m ++ (part .exitPoints m ++
      (part .relocations m ++ part .functions m))) = m := by
  show append _ (append _ (append _ (append _ _))) = m
  simp [part, append, empty]

theorem eq_of_part {a b : Metadata} (h : ∀ g, part g a = part g b) : a = b := by
  rw [← append_parts a, ← append_parts b]
  simp only [h]

/-- An entry adds to its own group only. -/
theorem part_of_fits {group : Option Group} {key value : Text} {m : Metadata}
    (h : Fits group key value m) {g : Group} (hg : group ≠ some g) : part g m = empty := by
  cases h with
  | unknown | otherKey _ => exact part_empty g
  | arch _ | entryPoint _ | exitPoint _ | relocation _ | function _ =>
    cases g <;> first | exact absurd rfl hg | rfl

end SectionDump.Metadata
