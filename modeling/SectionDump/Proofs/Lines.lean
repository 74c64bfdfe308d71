import SectionDump.Metadata.Line
import SectionDump.Proofs.Outcomes
import SectionDump.Proofs.Trimming

/-!
# Lines of the metadata file

The grammar of a single line, said without the reader, and that the reader accepts
exactly this grammar. A line that is neither a header nor an entry has one of two
faults; all other faults need the group that the line is in.
-/
namespace SectionDump.Metadata

/-! ## Comments behind values -/

/-- No comment mark follows a blank. -/
def NoComment (s : Text) : Prop :=
  ∀ b c, [b, c] <:+: s → Text.isWhite b = true → isCommentMark c = false

theorem NoComment.infix {s t : Text} (h : NoComment s) (hi : t <:+: s) : NoComment t :=
  fun b c hbc => h b c (hbc.trans hi)

theorem noComment_nil : NoComment [] := by
  intro b c h
  simp at h

theorem noComment_singleton (c : Char) : NoComment [c] := by
  intro x y h
  have hlen := h.length_le
  simp at hlen

theorem noComment_cons_cons {b c : Char} {r : Text} :
    NoComment (b :: c :: r) ↔
      (Text.isWhite b = true → isCommentMark c = false) ∧ NoComment (c :: r) := by
  constructor
  · intro h
    exact ⟨h b c ⟨[], r, rfl⟩, h.infix (List.suffix_cons b _).isInfix⟩
  · rintro ⟨hbc, h⟩ x y hxy
    rcases List.infix_cons_iff.1 hxy with hp | hi
    · obtain ⟨t, ht⟩ := hp
      simp only [List.cons_append, List.nil_append, List.cons.injEq] at ht
      obtain ⟨rfl, rfl, -⟩ := ht
      exact hbc
    · exact h x y hi

/-- A text without blanks takes no comment before the text behind it. -/
theorem noComment_append {s t : Text} (hs : ∀ c ∈ s, Text.isWhite c = false)
    (ht : NoComment t) : NoComment (s ++ t) := by
  induction s with
  | nil => exact ht
  | cons b r ih =>
    rw [List.forall_mem_cons] at hs
    have hrest := ih hs.2
    rw [List.cons_append]
    cases h : r ++ t with
    | nil => exact noComment_singleton b
    | cons c q =>
      rw [h] at hrest
      refine noComment_cons_cons.2 ⟨fun hb => ?_, hrest⟩
      rw [hs.1] at hb
      cases hb

/-- The value up to its comment: up to the first mark that follows a blank, and so
never up to the first character, or all of it. -/
structure Uncommented (value kept : Text) : Prop where
  noComment : NoComment kept
  ends : value = kept ∨ ∃ b c r, value = kept ++ c :: r ∧ kept.getLast? = some b ∧
    Text.isWhite b = true ∧ isCommentMark c = true

theorem noComment_cutCommentAfter (b : Char) (s : Text) :
    NoComment (b :: cutCommentAfter b s) := by
  induction s generalizing b with
  | nil => exact noComment_singleton b
  | cons c r ih =>
    rw [cutCommentAfter]
    split
    · exact noComment_singleton b
    · rename_i hcut
      refine noComment_cons_cons.2 ⟨fun hb => ?_, ih c⟩
      simpa [hb] using hcut

theorem cutCommentAfter_ends (b : Char) (s : Text) :
    s = cutCommentAfter b s ∨ ∃ x c r, s = cutCommentAfter b s ++ c :: r ∧
      (b :: cutCommentAfter b s).getLast? = some x ∧ Text.isWhite x = true ∧
        isCommentMark c = true := by
  induction s generalizing b with
  | nil => exact .inl rfl
  | cons c r ih =>
    rw [cutCommentAfter]
    split
    · rename_i hcut
      rw [Bool.and_eq_true] at hcut
      exact .inr ⟨b, c, r, rfl, rfl, hcut.2, hcut.1⟩
    · rcases ih c with h | ⟨x, d, q, h, hlast, hx, hd⟩
      · exact .inl (by rw [← h])
      · refine .inr ⟨x, d, q, ?_, ?_, hx, hd⟩
        · rw [List.cons_append, ← h]
        · rw [List.getLast?_cons_cons]
          exact hlast

theorem uncommented_cutComment (value : Text) : Uncommented value (cutComment value) := by
  cases value with
  | nil => exact ⟨noComment_nil, .inl rfl⟩
  | cons c r =>
    rw [cutComment]
    refine ⟨noComment_cutCommentAfter c r, ?_⟩
    rcases cutCommentAfter_ends c r with h | ⟨x, d, q, h, hlast, hx, hd⟩
    · exact .inl (by rw [← h])
    · refine .inr ⟨x, d, q, ?_, hlast, hx, hd⟩
      rw [List.cons_append, ← h]

/-- A text without comments is kept up to where a comment is put. -/
theorem cutCommentAfter_append {b : Char} {t rest : Text} (h : NoComment (b :: t))
    (hrest : ∀ c ∈ rest.head?, isCommentMark c = true ∧
      ∀ x ∈ (b :: t).getLast?, Text.isWhite x = true) :
    cutCommentAfter b (t ++ rest) = t := by
  induction t generalizing b with
  | nil =>
    cases rest with
    | nil => rfl
    | cons c r =>
      obtain ⟨hc, hb⟩ := hrest c rfl
      have hwhite : Text.isWhite b = true := hb b rfl
      simp [cutCommentAfter, hc, hwhite]
  | cons d t ih =>
    obtain ⟨hbd, hd⟩ := noComment_cons_cons.1 h
    have hkeep : ¬(isCommentMark d && Text.isWhite b) = true := by
      intro hcut
      rw [Bool.and_eq_true] at hcut
      simp [hbd hcut.2] at hcut
    rw [List.getLast?_cons_cons] at hrest
    rw [List.cons_append, cutCommentAfter, if_neg hkeep, ih hd hrest]

/-- What is kept of a value is told by the value. -/
theorem cutComment_eq_iff {value kept : Text} :
    cutComment value = kept ↔ Uncommented value kept := by
  constructor
  · rintro rfl
    exact uncommented_cutComment value
  · rintro ⟨hno, hends⟩
    cases kept with
    | nil =>
      rcases hends with rfl | ⟨b, c, r, -, hlast, -⟩
      · rfl
      · simp at hlast
    | cons c t =>
      rcases hends with rfl | ⟨x, d, r, rfl, hlast, hx, hd⟩
      · have hkept : cutCommentAfter c (t ++ []) = t := cutCommentAfter_append hno (by simp)
        rw [List.append_nil] at hkept
        rw [cutComment, hkept]
      · rw [List.cons_append, cutComment, cutCommentAfter_append hno]
        intro e he
        obtain rfl : d = e := by simpa using he
        refine ⟨hd, fun y hy => ?_⟩
        rw [hlast] at hy
        obtain rfl : x = y := by simpa using hy
        exact hx

/-! ## Forms of lines -/

/-- The line is not blank, and its first character starts neither a comment nor a
header. -/
def StartsEntry (line : Text) : Prop :=
  ∃ c r, line = c :: r ∧ isCommentMark c = false ∧ c ≠ '['

/-- The form that a line has, blanks around it apart. -/
inductive Line.Spelled (raw : Text) : Line → Prop where
  | empty (h : Text.trim raw = []) : Spelled raw .blank
  | comment {c : Char} {r : Text} (h : Text.trim raw = c :: r) (hc : isCommentMark c = true) :
      Spelled raw .blank
  | header {inner : Text} (h : Text.trim raw = '[' :: (inner ++ [']'])) :
      Spelled raw (.header (Text.trim inner))
  /-- The first delimiter counts. -/
  | entry {key value kept : Text} {d : Char} (hstart : StartsEntry (Text.trim raw))
      (h : Text.trim raw = key ++ d :: value) (hd : isDelimiter d = true)
      (hkey : ∀ c ∈ key, isDelimiter c = false) (hkept : Uncommented value kept) :
      Spelled raw (.entry (Text.lower (Text.trim key)) (Text.trim kept))

/-- What is wrong with a line that has no form. -/
inductive Line.Misspelled (raw : Text) : LineFault → Prop where
  | header {rest : Text} (h : Text.trim raw = '[' :: rest) (hend : rest.getLast? ≠ some ']') :
      Misspelled raw (.unterminatedHeader (Text.trim raw))
  | entry (hstart : StartsEntry (Text.trim raw))
      (h : ∀ c ∈ Text.trim raw, isDelimiter c = false) :
      Misspelled raw (.missingDelimiter (Text.trim raw))

namespace Line

theorem read_of_empty {raw : Text} (h : Text.trim raw = []) : read raw = .ok .blank := by
  rw [read, h]

theorem read_of_comment {raw r : Text} {c : Char} (h : Text.trim raw = c :: r)
    (hc : isCommentMark c = true) : read raw = .ok .blank := by
  rw [read, h]
  exact if_pos hc

theorem read_of_bracket {raw rest : Text} (h : Text.trim raw = '[' :: rest) :
    read raw = ofHeader rest := by
  rw [read, h]
  rfl

theorem read_of_startsEntry {raw : Text} (h : StartsEntry (Text.trim raw)) :
    read raw = ofEntry (Text.trim raw) := by
  obtain ⟨c, r, e, hc, hb⟩ := h
  rw [read, e]
  simp [hc, hb]

/-- A line is empty, a comment, starts with a bracket or starts like an entry. -/
theorem cases_of_trim (raw : Text) :
    Text.trim raw = [] ∨ (∃ c r, Text.trim raw = c :: r ∧ isCommentMark c = true) ∨
      (∃ rest, Text.trim raw = '[' :: rest) ∨ StartsEntry (Text.trim raw) := by
  cases h : Text.trim raw with
  | nil => exact .inl rfl
  | cons c r =>
    by_cases hc : isCommentMark c = true
    · exact .inr (.inl ⟨c, r, rfl, hc⟩)
    · by_cases hb : c = '['
      · exact .inr (.inr (.inl ⟨r, by rw [hb]⟩))
      · exact .inr (.inr (.inr ⟨c, r, rfl, by simpa using hc, hb⟩))

theorem read_of_spelled {raw : Text} {line : Line} (h : Spelled raw line) :
    read raw = .ok line := by
  cases h with
  | empty h => exact read_of_empty h
  | comment h hc => exact read_of_comment h hc
  | @header inner h =>
    have hlast : (inner ++ [']']).getLast? = some ']' := List.getLast?_concat
    rw [read_of_bracket h, ofHeader, if_pos hlast, List.dropLast_concat]
  | @entry key value kept d hstart h hd hkey hkept =>
    have hcut : Text.cut? isDelimiter (Text.trim raw) = some (key, value) :=
      Text.cut?_eq_some_iff.2 ⟨d, h, hd, hkey⟩
    rw [read_of_startsEntry hstart, ofEntry, hcut, ← cutComment_eq_iff.2 hkept]

theorem read_of_misspelled {raw : Text} {fault : LineFault} (h : Misspelled raw fault) :
    read raw = .error fault := by
  cases h with
  | header h hend => rw [read_of_bracket h, ofHeader, if_neg hend, h]
  | entry hstart h => rw [read_of_startsEntry hstart, ofEntry, Text.cut?_eq_none_iff.2 h]

/-- Every line has a form or a fault. -/
theorem spelled_or_misspelled (raw : Text) :
    (∃ line, Spelled raw line) ∨ ∃ fault, Misspelled raw fault := by
  rcases cases_of_trim raw with h | ⟨c, r, h, hc⟩ | ⟨rest, h⟩ | hstart
  · exact .inl ⟨_, .empty h⟩
  · exact .inl ⟨_, .comment h hc⟩
  · by_cases hend : rest.getLast? = some ']'
    · obtain ⟨inner, rfl⟩ := List.getLast?_eq_some_iff.1 hend
      exact .inl ⟨_, .header h⟩
    · exact .inr ⟨_, .header h hend⟩
  · cases hcut : Text.cut? isDelimiter (Text.trim raw) with
    | none => exact .inr ⟨_, .entry hstart (Text.cut?_eq_none_iff.1 hcut)⟩
    | some parts =>
      obtain ⟨d, h, hd, hkey⟩ := Text.cut?_eq_some_iff.1 hcut
      exact .inl ⟨_, .entry hstart h hd hkey (uncommented_cutComment parts.2)⟩

/-- The reader accepts the lines that have a form, and no others. -/
theorem read_eq_ok_iff {raw : Text} {line : Line} : read raw = .ok line ↔ Spelled raw line :=
  ok_iff_of_cases (fun _ => read_of_spelled) (fun _ => read_of_misspelled)
    (spelled_or_misspelled raw)

theorem read_eq_error_iff {raw : Text} {fault : LineFault} :
    read raw = .error fault ↔ Misspelled raw fault :=
  error_iff_of_cases (fun _ => read_of_spelled) (fun _ => read_of_misspelled)
    (spelled_or_misspelled raw)

/-- A line has one form. -/
theorem Spelled.unique {raw : Text} {line other : Line} (h : Spelled raw line)
    (h' : Spelled raw other) : line = other := by
  have hread := read_of_spelled h
  rw [read_of_spelled h'] at hread
  exact (Except.ok.inj hread).symm

end Line
end SectionDump.Metadata
