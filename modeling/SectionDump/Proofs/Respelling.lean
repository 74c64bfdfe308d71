import Mathlib.Logic.Relation
import SectionDump.Proofs.ReadingLines

/-!
# Other spellings

The same line can be spelled in many ways: with blanks around it, with its key in
letters of another case, with the other delimiter, with any key where keys do not
count, with a comment behind its value. An entry is read from its parts, so each of
these ways is a fact about the part that it touches. A text reads the same however
many of its lines are spelled another way, down to the words of its fault.
-/
namespace SectionDump.Metadata

/-! ## Letters -/

theorem isDelimiter_toLower (c : Char) : isDelimiter c.toLower = isDelimiter c :=
  Text.apply_toLower (by decide) c

theorem isCommentMark_toLower (c : Char) : isCommentMark c.toLower = isCommentMark c :=
  Text.apply_toLower (by decide) c

theorem toLower_eq_bracket_iff (c : Char) : c.toLower = '[' ↔ c = '[' :=
  Text.apply_toLower_iff (p := (· = '[')) (by decide) c

/-- The same letters, but for the case of A to Z. -/
def Recased (s t : Text) : Prop :=
  List.Forall₂ (fun c d => d = c ∨ d = c.toLower ∨ d = c.toUpper) s t

theorem lower_of_recased {s t : Text} (h : Recased s t) : Text.lower t = Text.lower s := by
  induction h with
  | nil => rfl
  | @cons c d s t hcd _ ih =>
    have hhead : d.toLower = c.toLower := by
      rcases hcd with rfl | rfl | rfl
      · rfl
      · exact Text.apply_toLower (f := Char.toLower) (by decide) c
      · exact Text.apply_toUpper (f := Char.toLower) (by decide) c
    rw [Text.lower, Text.lower, List.map_cons, List.map_cons, hhead]
    exact congrArg (c.toLower :: ·) ih

/-! ## Comments and blanks behind values -/

theorem isCommentMark_of_isWhite {c : Char} (h : Text.isWhite c = true) :
    isCommentMark c = false := by
  rw [isCommentMark, Bool.or_eq_false_iff, beq_eq_false_iff_ne, beq_eq_false_iff_ne]
  constructor
  · rintro rfl
    cases h
  · rintro rfl
    cases h

theorem isWhite_of_isDelimiter {c : Char} (h : isDelimiter c = true) :
    Text.isWhite c = false := by
  rw [isDelimiter, Bool.or_eq_true, beq_iff_eq, beq_iff_eq] at h
  rcases h with rfl | rfl <;> rfl

theorem noComment_append_white {s w : Text} (hs : NoComment s)
    (hw : ∀ c ∈ w, Text.isWhite c = true) : NoComment (s ++ w) := by
  induction s with
  | nil => exact fun b c hbc _ => isCommentMark_of_isWhite (hw c (hbc.subset (by simp)))
  | cons b r ih =>
    have hr : NoComment r := hs.infix (List.suffix_cons b r).isInfix
    have hrest : NoComment (r ++ w) := ih hr
    cases r with
    | nil =>
      cases w with
      | nil => exact noComment_singleton b
      | cons c q =>
        have hc : Text.isWhite c = true := hw c List.mem_cons_self
        exact noComment_cons_cons.2 ⟨fun _ => isCommentMark_of_isWhite hc, hrest⟩
    | cons c q => exact noComment_cons_cons.2 ⟨(noComment_cons_cons.1 hs).1, hrest⟩

/-- A value that is cut at its comment is cut there whatever comes behind it. -/
theorem cutComment_append_or (value rest : Text) :
    (NoComment value ∧ cutComment value = value) ∨
      cutComment (value ++ rest) = cutComment value := by
  obtain ⟨hno, hends⟩ := uncommented_cutComment value
  rcases hends with hall | ⟨b, c, r, hcut, hlast, hb, hc⟩
  · rw [← hall] at hno
    exact .inl ⟨hno, hall.symm⟩
  · have hsplit : value ++ rest = cutComment value ++ c :: (r ++ rest) := by
      rw [← List.cons_append, ← List.append_assoc, ← hcut]
    exact .inr (cutComment_eq_iff.2 ⟨hno, .inr ⟨b, c, r ++ rest, hsplit, hlast, hb, hc⟩⟩)

/-- Blanks behind a value are no part of it. -/
theorem trim_cutComment_append_white {w : Text} (hw : ∀ c ∈ w, Text.isWhite c = true)
    (value : Text) :
    Text.trim (cutComment (value ++ w)) = Text.trim (cutComment value) := by
  rcases cutComment_append_or value w with ⟨hno, hall⟩ | hcut
  · have hkept : cutComment (value ++ w) = value ++ w :=
      cutComment_eq_iff.2 ⟨noComment_append_white hno hw, .inl rfl⟩
    rw [hkept, hall, Text.trim_append_white hw]
  · rw [hcut]

theorem trim_cutComment_trimEnd (value : Text) :
    Text.trim (cutComment (Text.trimEnd value)) = Text.trim (cutComment value) := by
  obtain ⟨w, hvalue, hw⟩ := Text.exists_append_of_trimEnd value
  have htrim := trim_cutComment_append_white hw (Text.trimEnd value)
  rwa [← hvalue, eq_comm] at htrim

/-- A comment behind a value is no part of it. -/
theorem trim_cutComment_append_comment {b c : Char} (hb : Text.isWhite b = true)
    (hc : isCommentMark c = true) (value rest : Text) :
    Text.trim (cutComment (value ++ b :: c :: rest)) = Text.trim (cutComment value) := by
  rcases cutComment_append_or value (b :: c :: rest) with ⟨hno, hall⟩ | hcut
  · have hwhite : ∀ x ∈ [b], Text.isWhite x = true := by simpa using hb
    have hkept : cutComment (value ++ b :: c :: rest) = value ++ [b] := by
      refine cutComment_eq_iff.2 ⟨noComment_append_white hno hwhite, .inr ?_⟩
      exact ⟨b, c, rest, by simp, List.getLast?_concat, hb, hc⟩
    rw [hkept, hall, Text.trim_append_white hwhite]
  · rw [hcut]

/-! ## Parts of entries -/

/-- The text can stand before the first delimiter of an entry. -/
structure ServesAsKey (key : Text) : Prop where
  delimiter : ∀ c ∈ key, isDelimiter c = false
  head : ∀ c ∈ (Text.trim key).head?, isCommentMark c = false ∧ c ≠ '['

section Parts

variable {key other value : Text} {d : Char}

theorem startsEntry_iff (hd : isDelimiter d = true) :
    StartsEntry (Text.trim (key ++ d :: value)) ↔
      ∀ c ∈ (Text.trim key).head?, isCommentMark c = false ∧ c ≠ '[' := by
  rw [Text.trim_append_cons (isWhite_of_isDelimiter hd), Text.head?_trim]
  cases Text.trimStart key with
  | nil =>
    have hmark : isCommentMark d = false ∧ d ≠ '[' := by
      rw [isDelimiter, Bool.or_eq_true, beq_iff_eq, beq_iff_eq] at hd
      rcases hd with rfl | rfl <;> decide
    simpa [StartsEntry] using hmark
  | cons c r => simp [StartsEntry]

/-- An entry is read from its parts, each trimmed, and the value without its comment. -/
theorem Line.read_of_servesAsKey (hkey : ServesAsKey key) (hd : isDelimiter d = true) :
    read (key ++ d :: value) =
      .ok (.entry (Text.lower (Text.trim key)) (Text.trim (cutComment value))) := by
  have htrim := Text.trim_append_cons (isWhite_of_isDelimiter hd) key value
  have hfree : ∀ c ∈ Text.trimStart key, isDelimiter c = false :=
    fun c hc => hkey.delimiter c ((List.dropWhile_sublist _).subset hc)
  have hcut : Text.cut? isDelimiter (Text.trim (key ++ d :: value)) =
      some (Text.trimStart key, Text.trimEnd value) :=
    Text.cut?_eq_some_iff.2 ⟨d, htrim, hd, hfree⟩
  rw [read_of_startsEntry ((startsEntry_iff hd).2 hkey.head), ofEntry, hcut]
  simp only [Text.trim_trimStart, trim_cutComment_trimEnd]

/-- Every line that reads as an entry has these parts. -/
theorem Line.Spelled.exists_parts {raw k v : Text} (h : Spelled raw (.entry k v)) :
    ∃ key d value, raw = key ++ d :: value ∧ ServesAsKey key ∧ isDelimiter d = true := by
  cases hcut : Text.cut? isDelimiter raw with
  | none =>
    rw [Text.cut?_eq_none_iff] at hcut
    cases h with
    | @entry _ _ _ d _ h hd _ _ =>
      have hmem : d ∈ raw := (Text.trim_infix raw).subset (by simp [h])
      rw [hcut d hmem] at hd
      cases hd
  | some parts =>
    obtain ⟨d, hraw, hd, hkey⟩ := Text.cut?_eq_some_iff.1 hcut
    refine ⟨parts.1, d, parts.2, hraw, ⟨hkey, ?_⟩, hd⟩
    cases h with
    | entry hstart _ _ _ _ =>
      rw [hraw] at hstart
      exact (startsEntry_iff hd).1 hstart

/-- Letters of another case make no other kind of line. -/
theorem ServesAsKey.of_recased (hkey : ServesAsKey key) (h : Recased key other) :
    ServesAsKey other := by
  have hlower := lower_of_recased h
  have hheads : Text.lower (Text.trim other) = Text.lower (Text.trim key) := by
    rw [← Text.trim_lower, ← Text.trim_lower, hlower]
  constructor
  · intro c hc
    have hmem : c.toLower ∈ Text.lower key := hlower ▸ List.mem_map_of_mem hc
    obtain ⟨b, hb, hbc⟩ := List.mem_map.1 hmem
    rw [← isDelimiter_toLower, ← hbc, isDelimiter_toLower]
    exact hkey.delimiter b hb
  · intro c hc
    have hhead : c.toLower ∈ (Text.lower (Text.trim key)).head? := by
      rw [← hheads, Text.lower, List.head?_map]
      exact Option.mem_map_of_mem Char.toLower hc
    rw [Text.lower, List.head?_map] at hhead
    obtain ⟨b, hb, hbc⟩ := Option.map_eq_some_iff.1 hhead
    obtain ⟨hmark, hbracket⟩ := hkey.head b hb
    constructor
    · rw [← isCommentMark_toLower, ← hbc, isCommentMark_toLower]
      exact hmark
    · rw [Ne, ← toLower_eq_bracket_iff, ← hbc, toLower_eq_bracket_iff]
      exact hbracket

end Parts

/-! ## Lines in other spellings -/

/-- Another spelling of a line below others. -/
inductive Respelled (above : List Text) : Text → Text → Prop where
  /-- Blanks around any line. -/
  | blanks {raw before after : Text} (hbefore : ∀ c ∈ before, Text.isWhite c = true)
      (hafter : ∀ c ∈ after, Text.isWhite c = true) :
      Respelled above raw (before ++ raw ++ after)
  | letters {key other value : Text} {d : Char} (hkey : ServesAsKey key)
      (hd : isDelimiter d = true) (h : Recased key other) :
      Respelled above (key ++ d :: value) (other ++ d :: value)
  | delimiter {key value : Text} {d e : Char} (hkey : ServesAsKey key)
      (hd : isDelimiter d = true) (he : isDelimiter e = true) :
      Respelled above (key ++ d :: value) (key ++ e :: value)
  /-- Any other key, in the groups where keys do not count. -/
  | key {g : Group} {key other value : Text} {d : Char} (hunder : Under above g.name)
      (hg : g ≠ .aux) (hkey : ServesAsKey key) (hother : ServesAsKey other)
      (hd : isDelimiter d = true) :
      Respelled above (key ++ d :: value) (other ++ d :: value)
  /-- A comment behind any entry, even one that has a comment. -/
  | comment {raw k v rest : Text} {b c : Char} (h : Line.Spelled raw (.entry k v))
      (hb : Text.isWhite b = true) (hc : isCommentMark c = true) :
      Respelled above raw (raw ++ b :: c :: rest)

theorem readLine_congr {raw other : Text} (h : Line.read other = Line.read raw)
    (heading : Option Text) : readLine heading other = readLine heading raw := by
  rw [readLine, readLine, h]

theorem readLine_of_entry {raw key value : Text} (h : Line.read raw = .ok (.entry key value))
    (name : Text) : readLine (some name) raw =
      (entry (Group.ofName? name) key value).map fun m => (some name, m) := by
  rw [readLine, h]

/-- Keys do not count in the groups that are lists. -/
theorem entry_congr_key {g : Group} (hg : g ≠ .aux) (key other value : Text) :
    entry (some g) other value = entry (some g) key value := by
  cases g with
  | aux => exact absurd rfl hg
  | entryPoints | exitPoints | relocations | functions => rfl

/-- A line does the same in every spelling. -/
theorem readLine_of_respelled {above : List Text} {heading : Option Text} {raw other : Text}
    (hheading : Heads above heading) (h : Respelled above raw other) :
    readLine heading other = readLine heading raw := by
  cases h with
  | blanks hbefore hafter =>
    apply readLine_congr
    rw [Line.read, Line.read, Text.trim_append_white hafter, Text.trim_white_append hbefore]
  | letters hkey hd hcase =>
    apply readLine_congr
    rw [Line.read_of_servesAsKey hkey hd, Line.read_of_servesAsKey (hkey.of_recased hcase) hd,
      ← Text.trim_lower, ← Text.trim_lower, lower_of_recased hcase]
  | delimiter hkey hd he =>
    apply readLine_congr
    rw [Line.read_of_servesAsKey hkey hd, Line.read_of_servesAsKey hkey he]
  | @key g key other value d hunder hg hkey hother hd =>
    have hname : heading = some g.name := hheading.unique hunder
    rw [hname, readLine_of_entry (Line.read_of_servesAsKey hkey hd),
      readLine_of_entry (Line.read_of_servesAsKey hother hd), Group.ofName?_name,
      entry_congr_key hg]
  | comment hentry hb hc =>
    obtain ⟨key, d, value, rfl, hkey, hd⟩ := hentry.exists_parts
    apply readLine_congr
    rw [List.append_assoc, List.cons_append, Line.read_of_servesAsKey hkey hd,
      Line.read_of_servesAsKey hkey hd, trim_cutComment_append_comment hb hc]

/-! ## Texts in other spellings -/

/-- The text with a carriage return before each line end. -/
def withReturns (text : Text) : Text :=
  text.flatMap fun c => if c = '\n' then ['\r', '\n'] else [c]

/-- One line of the text is spelled another way, or all its line ends are. -/
inductive Edited : Text → Text → Prop where
  /-- Neither spelling has a line end, being a line of its text. -/
  | line {text edited raw other : Text} {above below : List Text}
      (htext : lines text = above ++ raw :: below)
      (hedited : lines edited = above ++ other :: below) (h : Respelled above raw other) :
      Edited text edited
  | lineEnds (text : Text) : Edited text (withReturns text)

theorem readLines_cons_congr {heading : Option Text} {raw other : Text}
    (h : readLine heading other = readLine heading raw) (number : Nat) (below : List Text) :
    readLines heading number (other :: below) = readLines heading number (raw :: below) := by
  rw [readLines, readLines, h]

theorem readLines_congr {rows others : List Text}
    (h : List.Forall₂ (fun raw other => Line.read other = Line.read raw) rows others)
    (heading : Option Text) (number : Nat) :
    readLines heading number others = readLines heading number rows := by
  induction h generalizing heading number with
  | nil => rfl
  | @cons raw other rest others hline _ ih =>
    rw [readLines_cons_congr (readLine_congr hline heading), readLines, readLines]
    simp only [ih]

theorem lines_cons {c : Char} (hc : c ≠ '\n') (r : Text) :
    lines (c :: r) = (lines r).modifyHead (c :: ·) := by
  rw [lines, lines, List.splitOn_cons_eq_if_modifyHead, if_neg (by simpa using hc)]

/-- With returns before the line ends, each line but the last one ends in a blank. -/
theorem lines_withReturns (text : Text) :
    List.Forall₂ (fun raw other => other = raw ∨ other = raw ++ ['\r']) (lines text)
      (lines (withReturns text)) := by
  induction text with
  | nil => exact .cons (.inl rfl) .nil
  | cons c r ih =>
    by_cases hc : c = '\n'
    · subst hc
      have hreturns : withReturns ('\n' :: r) = ['\r'] ++ '\n' :: withReturns r := by
        simp [withReturns]
      have hlines : lines ([] ++ '\n' :: r) = [] :: lines r := lines_of_line (by simp) r
      rw [List.nil_append] at hlines
      rw [hreturns, hlines, lines_of_line (by decide)]
      exact .cons (.inr rfl) ih
    · have hreturns : withReturns (c :: r) = c :: withReturns r := by simp [withReturns, hc]
      rw [hreturns, lines_cons hc, lines_cons hc]
      -- The character goes before the first line of both, which the rest has told already.
      generalize lines r = rows, lines (withReturns r) = others at ih
      cases ih with
      | nil => exact .nil
      | cons hhead htail =>
        refine .cons ?_ htail
        rcases hhead with rfl | rfl
        · exact .inl rfl
        · exact .inr (List.cons_append ..)

theorem parse_withReturns (text : Text) : parse (withReturns text) = parse text := by
  have hblank : ∀ c ∈ ['\r'], Text.isWhite c = true := List.forall_mem_singleton.2 rfl
  refine readLines_congr ((lines_withReturns text).imp fun raw other h => ?_) none 1
  rcases h with rfl | rfl
  · rfl
  · rw [Line.read, Line.read, Text.trim_append_white hblank]

theorem readLines_of_respelled {above : List Text} {raw other : Text}
    (h : Respelled above raw other) (below : List Text) :
    readLines none 1 (above ++ other :: below) = readLines none 1 (above ++ raw :: below) := by
  obtain ⟨heading, hheading⟩ := exists_heads above
  have hline := readLine_of_respelled hheading h
  rw [readLines_append, readLines_append, headingBelow_of_heads hheading,
    readLines_cons_congr hline]

theorem parse_of_edited {text edited : Text} (h : Edited text edited) :
    parse edited = parse text := by
  cases h with
  | line htext hedited hline =>
    rw [parse, parse, htext, hedited, readLines_of_respelled hline]
  | lineEnds => exact parse_withReturns text

/-- Whatever lines are spelled another way, one after another, a text reads as the same
metadata or has the same fault. -/
theorem parse_of_edits {text edited : Text} (h : Relation.ReflTransGen Edited text edited) :
    parse edited = parse text := by
  induction h with
  | refl => rfl
  | tail _ hstep ih => rw [parse_of_edited hstep, ih]

/-- The fault of a text stays when the bad line gets the other delimiter, another key and a
comment, and the line ends get returns. -/
theorem parse_of_edits_sample :
    Relation.ReflTransGen Edited "[functions]\nf= 1G".toList
        "[functions]\r\n,;: 1G\t;#".toList ∧
      parse "[functions]\r\n,;: 1G\t;#".toList =
        .error ⟨"functions".toList, 2, .invalidAddress "1G".toList⟩ := by
  have hunder : Under ["[functions]".toList] Group.functions.name :=
    ⟨[], "[functions]".toList, [], rfl, Line.read_eq_ok_iff.1 rfl, by simp [NoHeader]⟩
  have hf : ServesAsKey ['f'] := by
    refine ⟨List.forall_mem_singleton.2 rfl, ?_⟩
    rintro c ⟨⟩
    exact ⟨rfl, by decide⟩
  have hother : ServesAsKey [',', ';'] := by
    refine ⟨List.forall_mem_cons.2 ⟨rfl, List.forall_mem_singleton.2 rfl⟩, ?_⟩
    rintro c ⟨⟩
    exact ⟨rfl, by decide⟩
  have hdelimiter : Respelled ["[functions]".toList] (['f'] ++ '=' :: " 1G".toList)
      (['f'] ++ ':' :: " 1G".toList) := .delimiter hf rfl rfl
  have hkey : Respelled ["[functions]".toList] (['f'] ++ ':' :: " 1G".toList)
      ([',', ';'] ++ ':' :: " 1G".toList) := .key hunder (by decide) hf hother rfl
  have hcomment : Respelled ["[functions]".toList] ",;: 1G".toList
      (",;: 1G".toList ++ '\t' :: ';' :: ['#']) :=
    .comment (Line.read_eq_ok_iff.1 rfl) rfl rfl
  have hfirst : Edited "[functions]\nf= 1G".toList "[functions]\nf: 1G".toList :=
    .line rfl rfl hdelimiter
  have hsecond : Edited "[functions]\nf: 1G".toList "[functions]\n,;: 1G".toList :=
    .line rfl rfl hkey
  have hthird : Edited "[functions]\n,;: 1G".toList "[functions]\n,;: 1G\t;#".toList :=
    .line rfl rfl hcomment
  have hedits := (((Relation.ReflTransGen.single hfirst).tail hsecond).tail hthird).tail
    (.lineEnds _)
  exact ⟨hedits, (parse_of_edits hedits).trans rfl⟩

end SectionDump.Metadata
