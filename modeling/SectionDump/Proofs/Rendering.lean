import SectionDump.Metadata.Writer
import SectionDump.Proofs.ReadingLines

/-!
# Written metadata

A metadata value that is written reads back as itself when each of its names could
be a value on a line. The names that are read always could, so whatever was read
once is kept by writing and reading it again.
-/
namespace SectionDump.Metadata

/-! ## Names on a line -/

/-- The text can be a value on a line, and all of it is the value. -/
structure Settled (s : Text) : Prop where
  ne_nil : s ≠ []
  trimmed : Text.Trimmed s
  newline : '\n' ∉ s
  noComment : NoComment s

/-- All names in the metadata can be written. -/
structure Writable (m : Metadata) : Prop where
  arch : ∀ s ∈ m.arch, Settled s
  entryPoints : ∀ s ∈ m.entryPoints, Settled s.name
  exitPoints : ∀ s ∈ m.exitPoints, Settled s.name

theorem writable_empty : Writable empty := ⟨by simp [empty], by simp [empty], by simp [empty]⟩

theorem Writable.append {a b : Metadata} (ha : Writable a) (hb : Writable b) :
    Writable (a ++ b) := by
  refine ⟨fun s hs => ?_, fun s hs => ?_, fun s hs => ?_⟩
  · rw [arch_append, Option.mem_def, Option.or_eq_some_iff] at hs
    rcases hs with hs | ⟨-, hs⟩
    · exact hb.arch s hs
    · exact ha.arch s hs
  · rw [entryPoints_append, List.mem_append] at hs
    exact hs.elim (ha.entryPoints s) (hb.entryPoints s)
  · rw [exitPoints_append, List.mem_append] at hs
    exact hs.elim (ha.exitPoints s) (hb.exitPoints s)

/-! ## What is read can be written -/

theorem settled_value {raw key value : Text} (h : Line.Spelled raw (.entry key value))
    (hraw : '\n' ∉ raw) (hne : value ≠ []) : Settled value := by
  cases h with
  | @entry k v kept d hstart h hd hkey hkept =>
    have hkeep : kept <:+: v := by
      rcases hkept.ends with rfl | ⟨b, c, r, rfl, -⟩
      · exact List.infix_refl v
      · exact List.infix_append' [] kept (c :: r)
    have hvalue : v <:+: Text.trim raw := by
      rw [h]
      exact ⟨k ++ [d], [], by simp⟩
    have hpart : Text.trim kept <:+: raw :=
      (Text.trim_infix kept).trans (hkeep.trans (hvalue.trans (Text.trim_infix raw)))
    exact ⟨hne, Text.trimmed_trim kept, fun hmem => hraw (hpart.subset hmem),
      hkept.noComment.infix (Text.trim_infix kept)⟩

theorem settled_name {value : Text} {s : Symbol} (h : SpellsSymbol value s)
    (hvalue : value ≠ [] → Settled value) : Settled s.name := by
  obtain ⟨a, n, rfl, -, -, hname, hne⟩ := h
  have hsettled := hvalue (by simp)
  have hpart : s.name <:+: a ++ ',' :: n := by
    rw [hname]
    exact (Text.trim_infix n).trans ⟨a ++ [','], [], by simp⟩
  refine ⟨hne, ?_, fun hmem => hsettled.newline (hpart.subset hmem),
    hsettled.noComment.infix hpart⟩
  rw [hname]
  exact Text.trimmed_trim n

theorem writable_of_fits {group : Option Group} {key value : Text} {m : Metadata}
    (h : Fits group key value m) (hvalue : value ≠ [] → Settled value) : Writable m := by
  cases h with
  | arch hne => exact ⟨by simpa using hvalue hne, by simp [empty], by simp [empty]⟩
  | entryPoint h => exact ⟨by simp [empty], by simpa using settled_name h hvalue, by simp [empty]⟩
  | exitPoint h => exact ⟨by simp [empty], by simp [empty], by simpa using settled_name h hvalue⟩
  | unknown | otherKey _ | relocation _ | function _ =>
    exact ⟨by simp [empty], by simp [empty], by simp [empty]⟩

/-- A line only adds names that can be written. -/
theorem writable_of_step {heading next : Option Text} {raw : Text} {m : Metadata}
    (h : Step heading raw next m) (hraw : '\n' ∉ raw) : Writable m := by
  cases h with
  | blank _ => exact writable_empty
  | header _ => exact writable_empty
  | entry hentry _ hfits => exact writable_of_fits hfits (settled_value hentry hraw)

theorem writable_of_readLines {heading : Option Text} {number : Nat} {rows : List Text}
    {m : Metadata} (hrows : ∀ raw ∈ rows, '\n' ∉ raw)
    (h : readLines heading number rows = .ok m) : Writable m := by
  induction rows generalizing heading number m with
  | nil =>
    cases h
    exact writable_empty
  | cons raw rest ih =>
    obtain ⟨hraw, hrest⟩ := List.forall_mem_cons.1 hrows
    obtain ⟨next, share, n, hstep, hn, rfl⟩ := readLines_cons_eq_ok_iff.1 h
    exact (writable_of_step hstep hraw).append (ih hrest hn)

/-! ## Written lines -/

/-- The character neither ends a key nor makes a line anything but an entry. -/
def isKeyChar (c : Char) : Bool :=
  !Text.isWhite c && !isDelimiter c && !isCommentMark c && c != '['

/-- A key that a line can start with. -/
structure StandsAsKey (key : Text) : Prop where
  ne_nil : key ≠ []
  chars : key.all isKeyChar = true

namespace StandsAsKey

variable {key : Text}

theorem isKeyChar_of_mem (h : StandsAsKey key) {c : Char} (hc : c ∈ key) :
    Text.isWhite c = false ∧ isDelimiter c = false ∧ isCommentMark c = false ∧ c ≠ '[' := by
  have hkey := List.all_eq_true.1 h.chars c hc
  simpa [isKeyChar, and_assoc] using hkey

theorem white (h : StandsAsKey key) : ∀ c ∈ key, Text.isWhite c = false :=
  fun _ hc => (h.isKeyChar_of_mem hc).1

theorem delimiter (h : StandsAsKey key) : ∀ c ∈ key, isDelimiter c = false :=
  fun _ hc => (h.isKeyChar_of_mem hc).2.1

end StandsAsKey

theorem standsAsKey_archKey : StandsAsKey archKey := ⟨by decide, by decide⟩

theorem isKeyChar_of_isDigit {c : Char} (h : c.isDigit = true) : isKeyChar c = true := by
  have hdigit : 48 ≤ c.toNat ∧ c.toNat ≤ 57 := by
    simp only [Char.isDigit, Bool.and_eq_true, decide_eq_true_eq, ge_iff_le,
      UInt32.le_iff_toNat_le] at h
    exact h
  have hother : ∀ d : Char, d.toNat < 48 ∨ 57 < d.toNat → c ≠ d := by
    rintro d hd rfl
    omega
  have hwhite : Text.isWhite c = false := by
    simp only [Text.isWhite, Bool.or_eq_false_iff, Bool.and_eq_false_iff,
      decide_eq_false_iff_not, beq_eq_false_iff_ne]
    omega
  simp [isKeyChar, isDelimiter, isCommentMark, hwhite, hother '=' (by decide),
    hother ':' (by decide), hother ';' (by decide), hother '#' (by decide), hother '[' (by decide)]

theorem Index.standsAsKey (i : Index) : StandsAsKey i.digits := by
  refine ⟨i.ne_nil, List.all_eq_true.2 fun c hc => ?_⟩
  exact isKeyChar_of_isDigit (List.all_eq_true.1 i.decimal c hc)

theorem spelled_entryRow {key value : Text} (hkey : StandsAsKey key) (hvalue : Settled value) :
    Line.Spelled (entryRow key value) (.entry (Text.lower key) value) := by
  obtain ⟨c, r, rfl⟩ := List.exists_cons_of_ne_nil hkey.ne_nil
  have hlast : ∀ x ∈ ('=' :: value).getLast?, Text.isWhite x = false := by
    obtain ⟨d, q, rfl⟩ := List.exists_cons_of_ne_nil hvalue.ne_nil
    rw [List.getLast?_cons_cons]
    exact hvalue.trimmed.last
  have hhead : ∀ x ∈ (c :: r).head?, Text.isWhite x = false :=
    fun x hx => hkey.white x (List.mem_of_mem_head? hx)
  have htrim : Text.trim (entryRow (c :: r) value) = (c :: r) ++ '=' :: value :=
    ((Text.trimmed_append (by simp) (by simp)).2 ⟨hhead, hlast⟩).trim_eq
  have hstart : StartsEntry (Text.trim (entryRow (c :: r) value)) := by
    obtain ⟨-, -, hmark, hbracket⟩ := hkey.isKeyChar_of_mem (List.mem_cons_self : c ∈ c :: r)
    exact ⟨c, r ++ '=' :: value, htrim, hmark, hbracket⟩
  have hkept : Uncommented value value := ⟨hvalue.noComment, .inl rfl⟩
  have hline := Line.Spelled.entry hstart htrim rfl hkey.delimiter hkept
  rwa [(Text.trimmed_of_forall hkey.white).trim_eq, hvalue.trimmed.trim_eq] at hline

theorem spelled_headerRow (g : Group) : Line.Spelled (headerRow g) (.header g.name) := by
  have hread : Line.read (headerRow g) = .ok (.header g.name) := by cases g <;> rfl
  exact Line.read_eq_ok_iff.1 hread

/-! ## Written values -/

theorem digit?_of_mem_markedHex {w : UInt64} {c : Char} (hc : c ∈ Numeral.markedHex w) :
    Numeral.digit? c ≠ none := Numeral.digit?_of_hex? (Numeral.hex?_markedHex w) hc

theorem isWhite_of_mem_markedHex {w : UInt64} {c : Char} (hc : c ∈ Numeral.markedHex w) :
    Text.isWhite c = false := Numeral.isWhite_of_digit? (digit?_of_mem_markedHex hc)

theorem settled_markedHex (w : UInt64) : Settled (Numeral.markedHex w) := by
  have hwhite : ∀ c ∈ Numeral.markedHex w, Text.isWhite c = false :=
    fun c hc => isWhite_of_mem_markedHex hc
  refine ⟨by simp [Numeral.markedHex], Text.trimmed_of_forall hwhite, fun hmem => ?_, ?_⟩
  · exact absurd (hwhite '\n' hmem) (by decide)
  · have h := noComment_append hwhite noComment_nil
    rwa [List.append_nil] at h

theorem settled_symbolValue {s : Symbol} (h : Settled s.name) : Settled (symbolValue s) := by
  have hwhite : ∀ c ∈ Numeral.markedHex s.address ++ [','], Text.isWhite c = false := by
    intro c hc
    rcases List.mem_append.1 hc with hc | hc
    · exact isWhite_of_mem_markedHex hc
    · obtain rfl := List.mem_singleton.1 hc
      rfl
  have hvalue : symbolValue s = (Numeral.markedHex s.address ++ [',']) ++ s.name := by
    simp [symbolValue]
  rw [hvalue]
  refine ⟨by simp, (Text.trimmed_append (by simp) h.ne_nil).2 ⟨fun c hc => ?_, h.trimmed.last⟩,
    fun hmem => ?_, noComment_append hwhite h.noComment⟩
  · exact hwhite c (List.mem_of_mem_head? hc)
  · rcases List.mem_append.1 hmem with hmem | hmem
    · exact absurd (hwhite '\n' hmem) (by decide)
    · exact h.newline hmem

theorem spellsSymbol_symbolValue {s : Symbol} (h : Settled s.name) :
    SpellsSymbol (symbolValue s) s := by
  refine ⟨Numeral.markedHex s.address, s.name, rfl, fun hmem => ?_, ?_, h.trimmed.trim_eq.symm,
    h.ne_nil⟩
  · exact digit?_of_mem_markedHex hmem (by decide)
  · rw [(settled_markedHex s.address).trimmed.trim_eq]
    exact Numeral.hex?_eq_some_iff.1 (Numeral.hex?_markedHex s.address)

/-! ## Written groups -/

/-- The rows are lines that say the metadata and ask for no heading above them. -/
structure States (rows : List Text) (m : Metadata) : Prop where
  newline : ∀ row ∈ rows, '\n' ∉ row
  headed : Headed rows
  reads : ∀ number, readLines none number rows = .ok m

theorem States.append {xs ys : List Text} {a b : Metadata} (hx : States xs a)
    (hy : States ys b) : States (xs ++ ys) (a ++ b) := by
  refine ⟨fun row hrow => ?_, hx.headed.append hy.headed, fun number => ?_⟩
  · exact (List.mem_append.1 hrow).elim (hx.newline row) (hy.newline row)
  · exact (readLines_append_eq_ok_iff hy.headed).2 ⟨a, b, hx.reads number, hy.reads 1, rfl⟩

theorem newline_not_mem_headerRow (g : Group) : '\n' ∉ headerRow g := by cases g <;> decide

theorem newline_not_mem_entryRow {key value : Text} (hkey : StandsAsKey key)
    (hvalue : Settled value) : '\n' ∉ entryRow key value := by
  intro hmem
  rcases List.mem_append.1 hmem with hmem | hmem
  · exact absurd (hkey.white '\n' hmem) (by decide)
  · exact (List.mem_cons.1 hmem).elim (by decide) hvalue.newline

section Entries

variable {α : Type} {g : Group} {write : α → Text} {put : List α → Metadata}

theorem newline_not_mem_entryRows {xs : List α} (hxs : ∀ x ∈ xs, Settled (write x))
    (key : Nat → Index) (i : Nat) : ∀ row ∈ entryRows key i (xs.map write), '\n' ∉ row := by
  induction xs generalizing i with
  | nil => simp [entryRows]
  | cons x rest ih =>
    rw [List.forall_mem_cons] at hxs
    rw [List.map_cons, entryRows, List.forall_mem_cons]
    exact ⟨newline_not_mem_entryRow (key i).standsAsKey hxs.1, ih hxs.2 (i + 1)⟩

/-- The entries of a group read back as what each of them adds. -/
theorem readLines_entryRows (hnil : put [] = empty)
    (hcons : ∀ x xs, put (x :: xs) = put [x] ++ put xs) {xs : List α}
    (hsettled : ∀ x ∈ xs, Settled (write x))
    (hfits : ∀ x ∈ xs, ∀ key, Fits (some g) key (write x) (put [x]))
    (key : Nat → Index) (i number : Nat) :
    readLines (some g.name) number (entryRows key i (xs.map write)) = .ok (put xs) := by
  induction xs generalizing i number with
  | nil => rw [hnil, List.map_nil, entryRows, readLines_nil]
  | cons x rest ih =>
    rw [List.forall_mem_cons] at hsettled hfits
    have hline := spelled_entryRow (key i).standsAsKey hsettled.1
    have hentry : Step (some g.name) (entryRow (key i).digits (write x)) (some g.name) (put [x]) :=
      .entry hline rfl (by rw [Group.ofName?_name]; exact hfits.1 _)
    rw [List.map_cons, entryRows, readLines_cons_eq_ok_iff]
    exact ⟨_, put [x], put rest, hentry, ih hsettled.2 hfits.2 _ _, hcons x rest⟩

theorem states_groupRows (hnil : put [] = empty)
    (hcons : ∀ x xs, put (x :: xs) = put [x] ++ put xs) {xs : List α}
    (hsettled : ∀ x ∈ xs, Settled (write x))
    (hfits : ∀ x ∈ xs, ∀ key, Fits (some g) key (write x) (put [x]))
    (key : Group → Nat → Index) : States (groupRows g key (xs.map write)) (put xs) := by
  refine ⟨?_, headed_of_header (spelled_headerRow g) _, fun number => ?_⟩
  · rw [groupRows, List.forall_mem_cons]
    exact ⟨newline_not_mem_headerRow g, newline_not_mem_entryRows hsettled (key g) 0⟩
  · rw [groupRows, readLines_cons_eq_ok_iff]
    exact ⟨_, empty, put xs, .header (spelled_headerRow g),
      readLines_entryRows hnil hcons hsettled hfits (key g) 0 _, (empty_append _).symm⟩

end Entries

theorem states_symbolRows {g : Group} (put : List Symbol → Metadata) (hnil : put [] = empty)
    (hcons : ∀ s symbols, put (s :: symbols) = put [s] ++ put symbols)
    (hfits : ∀ key value s, SpellsSymbol value s → Fits (some g) key value (put [s]))
    {symbols : List Symbol} (h : ∀ s ∈ symbols, Settled s.name) (key : Group → Nat → Index) :
    States (groupRows g key (symbols.map symbolValue)) (put symbols) := by
  refine states_groupRows hnil hcons (fun s hs => settled_symbolValue (h s hs)) ?_ key
  intro s hs k
  exact hfits k _ s (spellsSymbol_symbolValue (h s hs))

theorem states_addressRows {g : Group} (put : List UInt64 → Metadata) (hnil : put [] = empty)
    (hcons : ∀ w words, put (w :: words) = put [w] ++ put words)
    (hfits : ∀ key value w, Numeral.SpellsHex value w → Fits (some g) key value (put [w]))
    (words : List UInt64) (key : Group → Nat → Index) :
    States (groupRows g key (words.map Numeral.markedHex)) (put words) := by
  refine states_groupRows hnil hcons (fun w _ => settled_markedHex w) ?_ key
  intro w _ k
  exact hfits k _ w (Numeral.hex?_eq_some_iff.1 (Numeral.hex?_markedHex w))

theorem states_archRows {arch : Option Text} (h : ∀ s ∈ arch, Settled s) :
    States (archRows arch) { empty with arch := arch } := by
  cases arch with
  | none => exact ⟨by simp [archRows], headed_of_blank (by simp [archRows]), fun number => rfl⟩
  | some s =>
    have hsettled : Settled s := h s rfl
    have hkey : Text.lower archKey = archKey := by decide
    have hline := spelled_entryRow standsAsKey_archKey hsettled
    have hentry : Step (some Group.aux.name) (entryRow archKey s) (some Group.aux.name)
        { empty with arch := some s } :=
      .entry hline rfl (by rw [Group.ofName?_name, hkey]; exact .arch hsettled.ne_nil)
    refine ⟨?_, headed_of_header (spelled_headerRow .aux) _, fun number => ?_⟩
    · rw [archRows, List.forall_mem_cons, List.forall_mem_singleton]
      exact ⟨newline_not_mem_headerRow .aux, newline_not_mem_entryRow standsAsKey_archKey hsettled⟩
    · rw [archRows, readLines_cons_eq_ok_iff]
      refine ⟨_, empty, _, .header (spelled_headerRow .aux), ?_, (empty_append _).symm⟩
      exact readLines_cons_eq_ok_iff.2 ⟨_, _, empty, hentry, rfl, (append_empty _).symm⟩

/-! ## Written metadata -/

theorem states_rowsOf {m : Metadata} (h : Writable m) (key : Group → Nat → Index) :
    States (rowsOf key m) m := by
  have hentry : States _ (part .entryPoints m) :=
    states_symbolRows (fun xs => { empty with entryPoints := xs }) rfl (fun _ _ => rfl)
      (fun _ _ _ => .entryPoint) h.entryPoints key
  have hexit : States _ (part .exitPoints m) :=
    states_symbolRows (fun xs => { empty with exitPoints := xs }) rfl (fun _ _ => rfl)
      (fun _ _ _ => .exitPoint) h.exitPoints key
  have hrelocations : States _ (part .relocations m) :=
    states_addressRows (fun xs => { empty with relocations := xs }) rfl (fun _ _ => rfl)
      (fun _ _ _ => .relocation) m.relocations key
  have hfunctions : States _ (part .functions m) :=
    states_addressRows (fun xs => { empty with functions := xs }) rfl (fun _ _ => rfl)
      (fun _ _ _ => .function) m.functions key
  have haux : States _ (part .aux m) := states_archRows h.arch
  have hall := haux.append (hentry.append (hexit.append (hrelocations.append hfunctions)))
  rw [append_parts] at hall
  exact hall

theorem lines_ended {rows : List Text} (h : ∀ row ∈ rows, '\n' ∉ row) :
    lines (ended rows) = rows ++ [[]] := by
  have hlines := lines_ended_append h []
  rwa [List.append_nil] at hlines

theorem parse_ended {rows : List Text} {m : Metadata} (h : States rows m) :
    parse (ended rows) = .ok m := by
  have hblank : Headed [[]] := headed_of_blank (by simpa using Line.Spelled.empty rfl)
  rw [parse, lines_ended h.newline, readLines_append_eq_ok_iff hblank]
  exact ⟨m, empty, h.reads 1, readLines_blank none 1, (append_empty m).symm⟩

theorem writable_of_parse {text : Text} {m : Metadata} (h : parse text = .ok m) : Writable m :=
  writable_of_readLines (fun _ => newline_not_mem_of_mem_lines) h

theorem parse_render {m : Metadata} (h : Writable m) (key : Group → Nat → Index) :
    parse (render key m) = .ok m := parse_ended (states_rowsOf h key)

/-- Written metadata reads back as itself exactly when its names can be written, and
names that were read can. -/
theorem parse_render_iff_writable :
    (∀ key m, parse (render key m) = .ok m ↔ Writable m) ∧
      ∀ text m, parse text = .ok m → Writable m ∧ ∀ key, parse (render key m) = .ok m := by
  constructor
  · intro key m
    exact ⟨writable_of_parse, fun h => parse_render h key⟩
  · intro text m h
    have hm := writable_of_parse h
    exact ⟨hm, fun key => parse_render hm key⟩

def sampleIndex : Index := ⟨"07".toList, by decide, by decide⟩

/-- Commas, brackets and marks may stand in a name, and a comment behind it is lost once. -/
theorem parse_render_iff_writable_sample :
    parse "[exit_points]\n = 0X1F , a,b = [c];d #e".toList =
        .ok ⟨none, [], [⟨0x1F, "a,b = [c];d".toList⟩], [], []⟩ ∧
      parse (render (fun _ _ => sampleIndex) ⟨none, [], [⟨0x1F, "a,b = [c];d".toList⟩], [], []⟩) =
        .ok ⟨none, [], [⟨0x1F, "a,b = [c];d".toList⟩], [], []⟩ := by
  have hread : parse "[exit_points]\n = 0X1F , a,b = [c];d #e".toList =
      .ok ⟨none, [], [⟨0x1F, "a,b = [c];d".toList⟩], [], []⟩ := rfl
  exact ⟨hread, (parse_render_iff_writable.2 _ _ hread).2 _⟩

end SectionDump.Metadata
