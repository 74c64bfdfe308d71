import SectionDump.Identity
import SectionDump.Proofs.BaseNames
import SectionDump.Proofs.Numerals
import SectionDump.Proofs.Outcomes

/-!
# File names of sections

Reading a stem succeeds exactly on the stems that spell an identity, and a file
name that is written has the written stem. So an identity survives being written
and read exactly when nothing in its name or flags looks like a separator. A path
without a last name is read as a whole, slashes and all; an identity that takes a
slash from there is the only kind that reads but cannot be written.
-/
namespace SectionDump

/-- The last place where a text passes a test is where a part starts that passes
it and of which no proper end does. -/
theorem Text.splitLast?_append {q : Text → Bool} (p : Text) {t : Text} (hq : q t = true)
    (hne : t ≠ []) (hend : Text.splitLast? q t.tail = none) :
    Text.splitLast? q (p ++ t) = some (p, t) := by
  induction p with
  | nil =>
    cases t with
    | nil => exact absurd rfl hne
    | cons c r =>
      rw [List.tail_cons] at hend
      simp [Text.splitLast?, hend, hq]
  | cons c r ih => simp [Text.splitLast?, ih]

/-- A split is told by its second part: it passes the test, and no proper end of it does. -/
theorem Text.splitLast?_eq_some_iff {q : Text → Bool} {s p t : Text} :
    Text.splitLast? q s = some (p, t) ↔
      s = p ++ t ∧ t ≠ [] ∧ q t = true ∧ Text.splitLast? q t.tail = none := by
  constructor
  · intro h
    have hend : t ≠ [] ∧ Text.splitLast? q t.tail = none := by
      induction s generalizing p with
      | nil => cases h
      | cons c r ih =>
        rw [Text.splitLast?] at h
        split at h
        · rename_i u v e
          cases h
          exact ih e
        · rename_i e
          split at h
          · cases h
            exact ⟨List.cons_ne_nil c r, e⟩
          · cases h
    exact ⟨(Text.append_of_splitLast? h).symm, hend.1, Text.test_of_splitLast? h, hend.2⟩
  · rintro ⟨rfl, hne, hq, hend⟩
    exact Text.splitLast?_append p hq hne hend

theorem Text.splitLast?_dot_eq_none_iff {s : Text} :
    Text.splitLast? (fun t => t.head? = some '.') s = none ↔ '.' ∉ s := by
  rw [Text.splitLast?_eq_none_iff]
  constructor
  · intro h hmem
    obtain ⟨p, t, rfl⟩ := List.append_of_mem hmem
    have hno := h p ('.' :: t) rfl (List.cons_ne_nil _ _)
    simp at hno
  · intro h p t hs hne
    obtain ⟨c, r, rfl⟩ := List.exists_cons_of_ne_nil hne
    have hc : c ≠ '.' := by
      rintro rfl
      exact h (by simp [hs])
    simpa using hc

/-- The last dot is the one that none follows. -/
theorem Text.splitLast?_dot_append (p : Text) {e : Text} (he : '.' ∉ e) :
    Text.splitLast? (fun t => t.head? = some '.') (p ++ '.' :: e) = some (p, '.' :: e) :=
  Text.splitLast?_append p rfl (List.cons_ne_nil _ _) (Text.splitLast?_dot_eq_none_iff.2 he)

namespace Identity

/-- Five components, with a hyphen between each two. -/
def joined (name start size offset flags : Text) : Text :=
  name ++ '-' :: start ++ '-' :: size ++ '-' :: offset ++ '-' :: flags

theorem joined_eq (name start size offset flags : Text) :
    joined name start size offset flags =
      name ++ '-' :: (start ++ '-' :: (size ++ '-' :: (offset ++ '-' :: flags))) := by
  simp [joined]

/-- The stem spells the identity, with the given texts for its three numbers. -/
structure Spelled (id : Identity) (stem start size offset : Text) : Prop where
  stem_eq : stem = joined id.name start size offset id.flags
  name_ne_nil : id.name ≠ []
  hyphen_not_mem : '-' ∉ id.name
  start_reads : Numeral.hex? start = some id.start
  size_reads : Numeral.decimal? size = some id.size
  offset_reads : Numeral.decimal? offset = some id.offset
  fits : id.Fits

theorem components_succ_eq_iff {n : Nat} {s a b : Text} {l : List Text} :
    components (n + 1) s = a :: b :: l ↔
      ∃ r, s = a ++ '-' :: r ∧ '-' ∉ a ∧ components n r = b :: l := by
  rw [components]
  constructor
  · intro h
    split at h
    · simp at h
    · rename_i first rest e
      obtain ⟨rfl, hrest⟩ := List.cons.inj h
      obtain ⟨hs, ha⟩ := Text.cut?_at_eq_some_iff.1 e
      exact ⟨rest, hs, ha, hrest⟩
  · rintro ⟨r, hs, ha, hr⟩
    rw [Text.cut?_at_eq_some_iff.2 ⟨hs, ha⟩, ← hr]

/-- Only the last of five components may hold a hyphen. -/
theorem components_eq_five_iff {s name start size offset flags : Text} :
    components 4 s = [name, start, size, offset, flags] ↔
      s = joined name start size offset flags ∧
        '-' ∉ name ∧ '-' ∉ start ∧ '-' ∉ size ∧ '-' ∉ offset := by
  constructor
  · intro h
    obtain ⟨s₁, rfl, hname, h⟩ := components_succ_eq_iff.1 h
    obtain ⟨s₂, rfl, hstart, h⟩ := components_succ_eq_iff.1 h
    obtain ⟨s₃, rfl, hsize, h⟩ := components_succ_eq_iff.1 h
    obtain ⟨s₄, rfl, hoffset, h⟩ := components_succ_eq_iff.1 h
    obtain rfl : s₄ = flags := by simpa using h
    exact ⟨(joined_eq ..).symm, hname, hstart, hsize, hoffset⟩
  · rintro ⟨rfl, hname, hstart, hsize, hoffset⟩
    refine components_succ_eq_iff.2 ⟨_, joined_eq .., hname, ?_⟩
    refine components_succ_eq_iff.2 ⟨_, rfl, hstart, ?_⟩
    refine components_succ_eq_iff.2 ⟨_, rfl, hsize, ?_⟩
    exact components_succ_eq_iff.2 ⟨_, rfl, hoffset, rfl⟩

theorem require_eq_ok_iff {c : Component} {text : Text} {read : Option UInt64} {w : UInt64} :
    require c text read = .ok w ↔ read = some w := by
  cases read <;> simp [require]

theorem ofComponents_five_eq_ok_iff {name start size offset flags : Text} {id : Identity} :
    ofComponents [name, start, size, offset, flags] = .ok id ↔
      name ≠ [] ∧ Numeral.hex? start = some id.start ∧ Numeral.decimal? size = some id.size ∧
        Numeral.decimal? offset = some id.offset ∧ id.Fits ∧ name = id.name ∧
        flags = id.flags := by
  rw [ofComponents]
  by_cases hname : name = []
  · simp [hname]
  · simp only [if_neg hname, bind_eq_ok_iff, require_eq_ok_iff, fitted_eq_ok_iff]
    constructor
    · rintro ⟨_, hstart, _, hsize, _, hoffset, rfl, hfit⟩
      exact ⟨hname, hstart, hsize, hoffset, hfit, rfl, rfl⟩
    · rintro ⟨-, hstart, hsize, hoffset, hfit, rfl, rfl⟩
      exact ⟨_, hstart, _, hsize, _, hoffset, rfl, hfit⟩

theorem exists_five_of_ofComponents {l : List Text} {id : Identity}
    (h : ofComponents l = .ok id) : ∃ name start size offset flags,
      l = [name, start, size, offset, flags] := by
  unfold ofComponents at h
  split at h
  · exact ⟨_, _, _, _, _, rfl⟩
  · cases h

/-- A stem reads as the identity that it spells, and no other stem reads. -/
theorem ofStem_eq_ok_iff {stem : Text} {id : Identity} :
    ofStem stem = .ok id ↔ ∃ start size offset, Spelled id stem start size offset := by
  constructor
  · intro h
    obtain ⟨name, start, size, offset, flags, hc⟩ := exists_five_of_ofComponents h
    rw [ofStem, hc] at h
    obtain ⟨hstem, hhyphen, -⟩ := components_eq_five_iff.1 hc
    obtain ⟨hne, hstart, hsize, hoffset, hfit, rfl, rfl⟩ := ofComponents_five_eq_ok_iff.1 h
    exact ⟨start, size, offset, hstem, hne, hhyphen, hstart, hsize, hoffset, hfit⟩
  · rintro ⟨start, size, offset, h⟩
    have hc := components_eq_five_iff.2 ⟨h.stem_eq, h.hyphen_not_mem,
      fun hm => Numeral.digit?_of_hex? h.start_reads hm Numeral.digit?_hyphen,
      fun hm => Numeral.digit?_of_decimal? h.size_reads hm Numeral.digit?_hyphen,
      fun hm => Numeral.digit?_of_decimal? h.offset_reads hm Numeral.digit?_hyphen⟩
    rw [ofStem, hc]
    exact ofComponents_five_eq_ok_iff.2
      ⟨h.name_ne_nil, h.start_reads, h.size_reads, h.offset_reads, h.fits, rfl, rfl⟩

/-- Numerals hold no slash, so one in the stem is one in the name or in the flags. -/
theorem Spelled.slash_mem_iff {id : Identity} {stem start size offset : Text}
    (h : Spelled id stem start size offset) :
    '/' ∈ stem ↔ '/' ∈ id.name ∨ '/' ∈ id.flags := by
  have hstart : '/' ∉ start :=
    fun hm => Numeral.digit?_of_hex? h.start_reads hm Numeral.digit?_slash
  have hsize : '/' ∉ size :=
    fun hm => Numeral.digit?_of_decimal? h.size_reads hm Numeral.digit?_slash
  have hoffset : '/' ∉ offset :=
    fun hm => Numeral.digit?_of_decimal? h.offset_reads hm Numeral.digit?_slash
  simp [h.stem_eq, joined, hstart, hsize, hoffset]

/-- Nothing of the identity is taken for a separator, and its bytes have addresses. -/
structure Canonical (id : Identity) : Prop where
  name_ne_nil : id.name ≠ []
  hyphen_not_mem_name : '-' ∉ id.name
  slash_not_mem_name : '/' ∉ id.name
  slash_not_mem_flags : '/' ∉ id.flags
  fits : id.Fits

/-- The stem of the file name that is written. -/
def writtenStem (id : Identity) : Text :=
  joined id.name (Numeral.hex id.start) (Numeral.decimal id.size) (Numeral.decimal id.offset)
    id.flags

theorem fileName_eq (id : Identity) : id.fileName = id.writtenStem ++ marker := rfl

theorem writtenStem_ne_nil (id : Identity) : id.writtenStem ≠ [] := by
  intro e
  have hmem : '-' ∈ id.writtenStem := by simp [writtenStem, joined]
  simp [e] at hmem

/-- The numerals that are written hold no slash. -/
theorem slash_not_mem_writtenStem {id : Identity} (hname : '/' ∉ id.name)
    (hflags : '/' ∉ id.flags) : '/' ∉ id.writtenStem := by
  have hstart : '/' ∉ Numeral.hex id.start :=
    fun hm => Numeral.digit?_of_hex? (Numeral.hex?_hex _) hm Numeral.digit?_slash
  have hdecimal : ∀ w, '/' ∉ Numeral.decimal w :=
    fun w hm => Numeral.digit?_of_decimal? (Numeral.decimal?_decimal w) hm Numeral.digit?_slash
  simp [writtenStem, joined, hname, hflags, hstart, hdecimal]

theorem spelled_writtenStem {id : Identity} (h : id.Canonical) :
    Spelled id id.writtenStem (Numeral.hex id.start) (Numeral.decimal id.size)
      (Numeral.decimal id.offset) :=
  ⟨rfl, h.name_ne_nil, h.hyphen_not_mem_name, Numeral.hex?_hex _, Numeral.decimal?_decimal _,
    Numeral.decimal?_decimal _, h.fits⟩

/-- The last marker counts, so one that the stem ends in or holds does not. -/
theorem stem_append_marker (s : Text) : stem (s ++ marker) = s := by
  rw [stem, Text.splitLast?_append s (by decide) (by decide) (by decide)]

theorem mem_of_mem_stem {base : Text} {c : Char} (h : c ∈ stem base) : c ∈ base := by
  unfold stem at h
  split at h
  · rename_i e
    rw [← Text.append_of_splitLast? e]
    exact List.mem_append_left _ h
  · split at h
    · rename_i e
      rw [← Text.append_of_splitLast? e]
      exact List.mem_append_left _ h
    · exact h

theorem proper_append_marker {name : Text} (h : '/' ∉ name) : Path.Proper (name ++ marker) := by
  have hlen : (name ++ marker).length = name.length + 4 := by simp [marker]
  refine ⟨?_, ?_, ?_, ?_⟩
  · simp [h, marker]
  · intro e
    simp [e] at hlen
  · intro e
    simp [e, Path.hereName] at hlen
  · intro e
    simp only [e, Path.parentName, List.length_cons, List.length_nil] at hlen
    omega

/-- A text with a marker at its end is a path with a last name. -/
theorem fileName?_append_marker (s : Text) : ∃ name, Path.fileName? (s ++ marker) = some name := by
  rcases Path.slash_not_mem_or_append s with h | ⟨d, name, rfl, h⟩
  · exact ⟨_, Path.fileName?_of_proper (proper_append_marker h)⟩
  · refine ⟨name ++ marker, ?_⟩
    have hlast := Path.fileName?_append_slash d (proper_append_marker h)
    simpa using hlast

theorem parse_append_marker {s : Text} (h : '/' ∉ s) : parse (s ++ marker) = ofStem s := by
  have hname := Path.fileName?_of_proper (proper_append_marker h)
  rw [parse, Path.baseName_of_fileName? hname, stem_append_marker]

theorem spelled_of_parse {p : Path} {id : Identity} (h : parse p = .ok id) :
    ∃ start size offset, Spelled id (stem (Path.baseName p)) start size offset :=
  ofStem_eq_ok_iff.1 h

theorem slash_not_mem_stem {p : Path} {name : Text} (h : Path.fileName? p = some name) :
    '/' ∉ stem (Path.baseName p) := by
  rw [Path.baseName_of_fileName? h]
  exact fun hm => (Path.proper_of_fileName? h).slash_not_mem (mem_of_mem_stem hm)

/-- Of an identity that reads, only a slash can be in the way of writing it. -/
theorem canonical_iff_of_parse {p : Path} {id : Identity} (h : parse p = .ok id) :
    id.Canonical ↔ '/' ∉ stem (Path.baseName p) := by
  obtain ⟨_, _, _, hs⟩ := spelled_of_parse h
  rw [hs.slash_mem_iff, not_or]
  constructor
  · intro hc
    exact ⟨hc.slash_not_mem_name, hc.slash_not_mem_flags⟩
  · rintro ⟨hname, hflags⟩
    exact ⟨hs.name_ne_nil, hs.hyphen_not_mem, hname, hflags, hs.fits⟩

/-- A canonical identity comes back, whatever its flags hold besides slashes. -/
theorem parse_fileName_of_canonical {id : Identity} (h : id.Canonical) :
    parse id.fileName = .ok id := by
  have hslash := slash_not_mem_writtenStem h.slash_not_mem_name h.slash_not_mem_flags
  rw [fileName_eq, parse_append_marker hslash]
  exact ofStem_eq_ok_iff.2 ⟨_, _, _, spelled_writtenStem h⟩

theorem canonical_of_parse_fileName {id : Identity} (h : parse id.fileName = .ok id) :
    id.Canonical := by
  obtain ⟨name, hname⟩ := fileName?_append_marker id.writtenStem
  exact (canonical_iff_of_parse h).2 (slash_not_mem_stem hname)

theorem parse_fileName_eq_ok_iff (id : Identity) :
    parse id.fileName = .ok id ↔ id.Canonical :=
  ⟨canonical_of_parse_fileName, parse_fileName_of_canonical⟩

/-- Writing and reading gives an identity back exactly when it is canonical, and
two canonical identities never share a file name. -/
theorem parse_fileName_iff_canonical (id : Identity) :
    (parse id.fileName = .ok id ↔ id.Canonical) ∧
      ∀ other : Identity, id.Canonical → other.Canonical → id.fileName = other.fileName →
        id = other := by
  refine ⟨id.parse_fileName_eq_ok_iff, ?_⟩
  intro other h h' e
  have hread := parse_fileName_of_canonical h
  rw [e, parse_fileName_of_canonical h'] at hread
  exact (Except.ok.inj hread).symm

/-- Markers, dots and hyphens in the flags are not taken for the end of the stem. -/
example : parse (⟨['a'], 16, 1, 0, "-.bin.-".toList⟩ : Identity).fileName =
    .ok ⟨['a'], 16, 1, 0, "-.bin.-".toList⟩ := rfl

/-- What reads from a path survives being written and read again exactly when the
path has a last name, or holds no slash before the marker or the last extension. -/
theorem parse_fileName_iff_of_parse {p : Path} {id : Identity} (h : parse p = .ok id) :
    parse id.fileName = .ok id ↔ Path.fileName? p ≠ none ∨ '/' ∉ stem p := by
  rw [parse_fileName_eq_ok_iff, canonical_iff_of_parse h]
  cases hname : Path.fileName? p with
  | some name =>
    have hslash := slash_not_mem_stem hname
    simp [hslash]
  | none => simp [Path.baseName_of_fileName?_eq_none hname]

/-- A path that goes up last may still read well: here the marker ends the stem. -/
theorem parse_fileName_of_marked_parent :
    parse "text-1000-10-0-rx.bin.d/..".toList = .ok ⟨"text".toList, 0x1000, 10, 0, "rx".toList⟩ ∧
      parse (⟨"text".toList, 0x1000, 10, 0, "rx".toList⟩ : Identity).fileName =
        .ok ⟨"text".toList, 0x1000, 10, 0, "rx".toList⟩ := by
  have hread : parse "text-1000-10-0-rx.bin.d/..".toList =
      .ok ⟨"text".toList, 0x1000, 10, 0, "rx".toList⟩ := rfl
  exact ⟨hread, (parse_fileName_iff_of_parse hread).2 (.inr (by decide))⟩

/-- In general it does not: the slash goes into the flags, and the file name that is
written for them is a path again, whose last name has no components. -/
theorem not_forall_parse_fileName :
    ¬∀ (p : Path) (id : Identity), parse p = .ok id → parse id.fileName = .ok id := by
  intro h
  have hread : parse "text-1000-10-0-rx.bin/..".toList =
      .ok ⟨"text".toList, 0x1000, 10, 0, "rx.bin/.".toList⟩ := rfl
  have hwritten : parse (⟨"text".toList, 0x1000, 10, 0, "rx.bin/.".toList⟩ : Identity).fileName =
      .error (.missingComponents 1) := rfl
  rw [h _ _ hread] at hwritten
  cases hwritten

end Identity
end SectionDump
