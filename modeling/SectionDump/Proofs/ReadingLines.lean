import SectionDump.Metadata.Reader
import SectionDump.Metadata.Writer
import SectionDump.Proofs.Lines
import SectionDump.Proofs.Values

/-!
# Reading line after line

All that a line passes on to the next ones is the heading. So lines that come after
others are read under the heading which those leave, with their numbers moved on,
and the shares of both are put together. A text whose first line of any substance
is a header does not ask for the heading above it.
-/
namespace SectionDump.Metadata

/-! ## Lines of joined texts -/

/-- The text is empty or its last line is ended. -/
def EndsLine (text : Text) : Prop := text = [] ∨ text.getLast? = some '\n'

/-- The lines of a text apart from the piece behind the last line end. -/
def fullLines (text : Text) : List Text := (lines text).dropLast

theorem EndsLine.cases {text : Text} (h : EndsLine text) :
    text = [] ∨ ∃ r, text = r ++ ['\n'] := by
  rcases h with h | h
  · exact .inl h
  · exact .inr (List.getLast?_eq_some_iff.1 h)

theorem lines_of_line {line : Text} (h : '\n' ∉ line) (rest : Text) :
    lines (line ++ '\n' :: rest) = line :: lines rest := by
  rw [lines, List.splitOn_append_cons_self, List.splitOn_eq_singleton h]
  rfl

/-- Ended rows before a text are the first lines of the whole. -/
theorem lines_ended_append {rows : List Text} (h : ∀ row ∈ rows, '\n' ∉ row) (rest : Text) :
    lines (ended rows ++ rest) = rows ++ lines rest := by
  induction rows with
  | nil => rfl
  | cons row below ih =>
    rw [List.forall_mem_cons] at h
    have hended : ended (row :: below) ++ rest = row ++ '\n' :: (ended below ++ rest) := by
      simp [ended]
    rw [hended, lines_of_line h.1, ih h.2, List.cons_append]

theorem newline_not_mem_of_mem_lines {text line : Text} (h : line ∈ lines text) :
    '\n' ∉ line := Text.not_mem_of_mem_splitOn h

theorem lines_append {a : Text} (ha : EndsLine a) (b : Text) :
    lines (a ++ b) = fullLines a ++ lines b := by
  rcases ha.cases with rfl | ⟨r, rfl⟩
  · rfl
  · rw [fullLines, lines, lines, lines, List.append_assoc, List.singleton_append,
      List.splitOn_append_cons_self, List.splitOn_append_cons_self, List.splitOn_nil,
      List.dropLast_concat]

theorem lines_eq_fullLines {a : Text} (ha : EndsLine a) : lines a = fullLines a ++ [[]] := by
  have h := lines_append ha []
  rwa [List.append_nil] at h

/-- There is a full line for each line end. -/
theorem length_fullLines (a : Text) : (fullLines a).length = a.count '\n' := by
  rw [fullLines, List.length_dropLast]
  induction a with
  | nil => rfl
  | cons c r ih =>
    have hne : (lines r).length ≠ 0 := by
      rw [Ne, List.length_eq_zero_iff]
      exact List.splitOn_ne_nil _ _
    rw [lines, List.splitOn_cons_eq_if_modifyHead, List.count_cons]
    rw [lines] at ih hne
    split
    · rw [List.length_cons]
      omega
    · rw [List.length_modifyHead]
      exact ih

/-! ## Single lines -/

/-- What a line does under a heading: the heading that it leaves, and what it adds. -/
inductive Step (heading : Option Text) (raw : Text) : Option Text → Metadata → Prop where
  | blank (h : Line.Spelled raw .blank) : Step heading raw heading empty
  | header {name : Text} (h : Line.Spelled raw (.header name)) :
      Step heading raw (some name) empty
  | entry {name key value : Text} {m : Metadata} (h : Line.Spelled raw (.entry key value))
      (hheading : heading = some name) (hfits : Fits (Group.ofName? name) key value m) :
      Step heading raw heading m

/-- Why a line does nothing under a heading. -/
inductive Stuck (heading : Option Text) (raw : Text) : LineFault → Prop where
  | misspelled {fault : LineFault} (h : Line.Misspelled raw fault) : Stuck heading raw fault
  | noHeader {key value : Text} (h : Line.Spelled raw (.entry key value))
      (hheading : heading = none) : Stuck heading raw (.keyBeforeHeader key)
  | unfit {name key value : Text} {fault : LineFault} (h : Line.Spelled raw (.entry key value))
      (hheading : heading = some name) (hunfit : Unfit (Group.ofName? name) key value fault) :
      Stuck heading raw fault

theorem readLine_of_step {heading next : Option Text} {raw : Text} {m : Metadata}
    (h : Step heading raw next m) : readLine heading raw = .ok (next, m) := by
  cases h with
  | blank h => rw [readLine, Line.read_eq_ok_iff.2 h]
  | header h => rw [readLine, Line.read_eq_ok_iff.2 h]
  | entry h hheading hfits =>
    subst hheading
    rw [readLine, Line.read_eq_ok_iff.2 h]
    simp only [entry_eq_ok_iff.2 hfits, Except.map]

theorem readLine_of_stuck {heading : Option Text} {raw : Text} {fault : LineFault}
    (h : Stuck heading raw fault) : readLine heading raw = .error fault := by
  cases h with
  | misspelled h => rw [readLine, Line.read_eq_error_iff.2 h]
  | noHeader h hheading =>
    subst hheading
    rw [readLine, Line.read_eq_ok_iff.2 h]
  | unfit h hheading hunfit =>
    subst hheading
    rw [readLine, Line.read_eq_ok_iff.2 h]
    simp only [entry_eq_error_iff.2 hunfit, Except.map]

theorem step_or_stuck (heading : Option Text) (raw : Text) :
    (∃ next m, Step heading raw next m) ∨ ∃ fault, Stuck heading raw fault := by
  rcases Line.spelled_or_misspelled raw with ⟨line, h⟩ | ⟨fault, h⟩
  · cases line with
    | blank => exact .inl ⟨_, _, .blank h⟩
    | header name => exact .inl ⟨_, _, .header h⟩
    | entry key value =>
      cases hheading : heading with
      | none => exact .inr ⟨_, .noHeader h rfl⟩
      | some name =>
        rcases fits_or_unfit (Group.ofName? name) key value with ⟨m, hm⟩ | ⟨fault, hfault⟩
        · exact .inl ⟨_, m, .entry h rfl hm⟩
        · exact .inr ⟨fault, .unfit h rfl hfault⟩
  · exact .inr ⟨fault, .misspelled h⟩

/-- A line reads when it does something, and reads as that. -/
theorem readLine_eq_ok_iff {heading next : Option Text} {raw : Text} {m : Metadata} :
    readLine heading raw = .ok (next, m) ↔ Step heading raw next m := by
  constructor
  · intro hread
    rcases step_or_stuck heading raw with ⟨other, n, h⟩ | ⟨fault, h⟩
    · rw [readLine_of_step h] at hread
      cases hread
      exact h
    · rw [readLine_of_stuck h] at hread
      cases hread
  · exact readLine_of_step

/-! ## Headings -/

/-- The heading for the lines after a line. -/
def nextHeading (heading : Option Text) (raw : Text) : Option Text :=
  match Line.read raw with
  | .ok (.header name) => some name
  | _ => heading

/-- The heading for the lines after several ones. -/
def headingBelow (heading : Option Text) (above : List Text) : Option Text :=
  above.foldl nextHeading heading

@[simp] theorem headingBelow_nil (heading : Option Text) : headingBelow heading [] = heading := rfl
@[simp] theorem headingBelow_cons (heading : Option Text) (raw : Text) (rest : List Text) :
    headingBelow heading (raw :: rest) = headingBelow (nextHeading heading raw) rest := rfl

theorem nextHeading_of_header {raw name : Text} (h : Line.Spelled raw (.header name))
    (heading : Option Text) : nextHeading heading raw = some name := by
  rw [nextHeading, Line.read_eq_ok_iff.2 h]

theorem nextHeading_of_not_header {raw : Text} (h : ∀ name, ¬Line.Spelled raw (.header name))
    (heading : Option Text) : nextHeading heading raw = heading := by
  rw [nextHeading]
  split
  · rename_i name hread
    exact absurd (Line.read_eq_ok_iff.1 hread) (h name)
  · rfl

/-- The heading that a line leaves does not depend on what it adds. -/
theorem next_of_step {heading next : Option Text} {raw : Text} {m : Metadata}
    (h : Step heading raw next m) : next = nextHeading heading raw := by
  cases h with
  | blank h => rw [nextHeading, Line.read_eq_ok_iff.2 h]
  | header h => rw [nextHeading_of_header h]
  | entry h => rw [nextHeading, Line.read_eq_ok_iff.2 h]

theorem readLine_cases (heading : Option Text) (raw : Text) :
    (∃ fault, readLine heading raw = .error fault) ∨
      ∃ m, readLine heading raw = .ok (nextHeading heading raw, m) := by
  rcases step_or_stuck heading raw with ⟨next, m, h⟩ | ⟨fault, h⟩
  · rw [← next_of_step h]
    exact .inr ⟨m, readLine_of_step h⟩
  · exact .inl ⟨fault, readLine_of_stuck h⟩

/-! ## Lines after other lines -/

theorem readLines_of_fault {heading : Option Text} {raw : Text} {fault : LineFault}
    (h : readLine heading raw = .error fault) (number : Nat) (rest : List Text) :
    readLines heading number (raw :: rest) = .error ⟨heading.getD [], number, fault⟩ := by
  rw [readLines, h]

theorem readLines_of_share {heading next : Option Text} {raw : Text} {m : Metadata}
    (h : readLine heading raw = .ok (next, m)) (number : Nat) (rest : List Text) :
    readLines heading number (raw :: rest) =
      (readLines next (number + 1) rest).map (m ++ ·) := by
  rw [readLines, h]

/-- When lines read, the first of them did something and the others read below it. -/
theorem readLines_cons_eq_ok_iff {heading : Option Text} {number : Nat} {raw : Text}
    {rest : List Text} {m : Metadata} : readLines heading number (raw :: rest) = .ok m ↔
      ∃ next share n, Step heading raw next share ∧
        readLines next (number + 1) rest = .ok n ∧ m = share ++ n := by
  constructor
  · intro h
    cases hline : readLine heading raw with
    | error fault =>
      rw [readLines_of_fault hline] at h
      cases h
    | ok result =>
      obtain ⟨next, share⟩ := result
      rw [readLines_of_share hline] at h
      obtain ⟨n, hn, hm⟩ := map_eq_ok_iff.1 h
      exact ⟨next, share, n, readLine_eq_ok_iff.1 hline, hn, hm.symm⟩
  · rintro ⟨next, share, n, hstep, hn, rfl⟩
    rw [readLines_of_share (readLine_of_step hstep), hn]
    rfl

/-- Lines after others are read under the heading that those leave. -/
theorem readLines_append (heading : Option Text) (number : Nat) (xs ys : List Text) :
    readLines heading number (xs ++ ys) = (readLines heading number xs).bind fun m =>
      (readLines (headingBelow heading xs) (number + xs.length) ys).map (m ++ ·) := by
  induction xs generalizing heading number with
  | nil =>
    simp only [List.nil_append, readLines_nil, Except.bind, empty_append, headingBelow_nil,
      List.length_nil, Nat.add_zero]
    cases readLines heading number ys <;> rfl
  | cons raw rest ih =>
    have hlength : number + (raw :: rest).length = number + 1 + rest.length := by
      rw [List.length_cons]
      omega
    rw [List.cons_append, hlength, headingBelow_cons]
    rcases readLine_cases heading raw with ⟨fault, h⟩ | ⟨m, h⟩
    · rw [readLines_of_fault h, readLines_of_fault h]
      rfl
    · rw [readLines_of_share h, readLines_of_share h, ih]
      cases readLines (nextHeading heading raw) (number + 1) rest with
      | error fault => rfl
      | ok n =>
        simp only [Except.bind, Except.map]
        cases readLines (headingBelow (nextHeading heading raw) rest)
            (number + 1 + rest.length) ys with
        | error fault => rfl
        | ok o => exact congrArg Except.ok (append_assoc m n o).symm

/-- A fault some lines further down. -/
def movedDown (n : Nat) (f : MetadataFault) : MetadataFault := { f with line := f.line + n }

/-- Numbers of lines are only kept for the fault. -/
theorem readLines_add (heading : Option Text) (number n : Nat) (ys : List Text) :
    readLines heading (number + n) ys =
      (readLines heading number ys).mapError (movedDown n) := by
  induction ys generalizing heading number with
  | nil => rfl
  | cons raw rest ih =>
    rcases readLine_cases heading raw with ⟨fault, h⟩ | ⟨m, h⟩
    · rw [readLines_of_fault h, readLines_of_fault h]
      rfl
    · rw [readLines_of_share h, readLines_of_share h, Nat.add_right_comm, ih]
      cases readLines (nextHeading heading raw) (number + 1) rest <;> rfl

/-! ## Last headers -/

/-- None of the lines is a header. -/
def NoHeader (rows : List Text) : Prop :=
  ∀ raw ∈ rows, ∀ name, ¬Line.Spelled raw (.header name)

/-- The last header among the lines is of that name. -/
def Under (above : List Text) (name : Text) : Prop :=
  ∃ before header after, above = before ++ header :: after ∧
    Line.Spelled header (.header name) ∧ NoHeader after

/-- The name in the last header, if there is one. -/
def Heads (above : List Text) : Option Text → Prop
  | none => NoHeader above
  | some name => Under above name

theorem headingBelow_append (heading : Option Text) (xs ys : List Text) :
    headingBelow heading (xs ++ ys) = headingBelow (headingBelow heading xs) ys :=
  List.foldl_append

theorem headingBelow_of_noHeader (heading : Option Text) {rows : List Text}
    (h : NoHeader rows) : headingBelow heading rows = heading := by
  induction rows with
  | nil => rfl
  | cons raw rest ih =>
    obtain ⟨hraw, hrest⟩ := List.forall_mem_cons.1 h
    rw [headingBelow_cons, nextHeading_of_not_header hraw, ih hrest]

theorem headingBelow_of_heads {above : List Text} {heading : Option Text}
    (h : Heads above heading) : headingBelow none above = heading := by
  cases heading with
  | none => exact headingBelow_of_noHeader none h
  | some name =>
    obtain ⟨before, header, after, rfl, hheader, hafter⟩ := h
    rw [headingBelow_append, headingBelow_cons, nextHeading_of_header hheader,
      headingBelow_of_noHeader _ hafter]

theorem Heads.unique {above : List Text} {heading other : Option Text}
    (h : Heads above heading) (hother : Heads above other) : heading = other := by
  rw [← headingBelow_of_heads h, headingBelow_of_heads hother]

theorem exists_heads (above : List Text) : ∃ heading, Heads above heading := by
  induction above with
  | nil => exact ⟨none, by simp [Heads, NoHeader]⟩
  | cons raw rest ih =>
    obtain ⟨heading, hrest⟩ := ih
    cases heading with
    | none =>
      by_cases hraw : ∃ name, Line.Spelled raw (.header name)
      · obtain ⟨name, hname⟩ := hraw
        exact ⟨some name, [], raw, rest, rfl, hname, hrest⟩
      · exact ⟨none, List.forall_mem_cons.2 ⟨not_exists.1 hraw, hrest⟩⟩
    | some name =>
      obtain ⟨before, header, after, rfl, hheader, hafter⟩ := hrest
      exact ⟨some name, raw :: before, header, after, rfl, hheader, hafter⟩

/-! ## Texts that start with a header -/

/-- The first line that is neither blank nor a comment is a header, if there is one. -/
def Headed (rows : List Text) : Prop :=
  ∀ above raw below, rows = above ++ raw :: below → (∀ r ∈ above, Line.Spelled r .blank) →
    ¬Line.Spelled raw .blank → ∃ name, Line.Spelled raw (.header name)

theorem Headed.tail {raw : Text} {rest : List Text} (h : Headed (raw :: rest))
    (hblank : Line.Spelled raw .blank) : Headed rest := by
  intro above r below e hall
  have hcons : ∀ x ∈ raw :: above, Line.Spelled x .blank := List.forall_mem_cons.2 ⟨hblank, hall⟩
  exact h (raw :: above) r below (by rw [e, List.cons_append]) hcons

theorem Headed.append {xs ys : List Text} (hx : Headed xs) (hy : Headed ys) :
    Headed (xs ++ ys) := by
  induction xs with
  | nil => exact hy
  | cons raw rest ih =>
    intro above r below e hall hr
    cases above with
    | nil =>
      obtain ⟨rfl, -⟩ := List.cons.inj e
      exact hx [] raw rest rfl (by simp) hr
    | cons a above =>
      obtain ⟨rfl, htail⟩ := List.cons.inj e
      rw [List.forall_mem_cons] at hall
      exact ih (hx.tail hall.1) above r below htail hall.2 hr

/-- No line looks at the heading before the first header. -/
theorem readLines_of_headed {rows : List Text} (h : Headed rows) (heading other : Option Text)
    (number : Nat) : readLines heading number rows = readLines other number rows := by
  induction rows generalizing number with
  | nil => rfl
  | cons raw rest ih =>
    by_cases hblank : Line.Spelled raw .blank
    · rw [readLines_of_share (readLine_of_step (.blank hblank)),
        readLines_of_share (readLine_of_step (.blank hblank)), ih (h.tail hblank)]
    · obtain ⟨name, hname⟩ := h [] raw rest rfl (by simp) hblank
      rw [readLines_of_share (readLine_of_step (.header hname)),
        readLines_of_share (readLine_of_step (.header hname))]

theorem headed_of_blank {rows : List Text} (h : ∀ r ∈ rows, Line.Spelled r .blank) :
    Headed rows := by
  intro above raw below e _ hr
  exact absurd (h raw (by simp [e])) hr

theorem headed_of_header {raw name : Text} (h : Line.Spelled raw (.header name))
    (rest : List Text) : Headed (raw :: rest) := by
  intro above r below e hall hr
  cases above with
  | nil =>
    obtain ⟨rfl, -⟩ := List.cons.inj e
    exact ⟨name, h⟩
  | cons a above =>
    obtain ⟨rfl, -⟩ := List.cons.inj e
    exact absurd (h.unique (hall raw (by simp))) (by simp)

/-- Lines read after others when both read, if the later ones start with a header. -/
theorem readLines_append_eq_ok_iff {heading : Option Text} {number : Nat} {xs ys : List Text}
    {m : Metadata} (hys : Headed ys) : readLines heading number (xs ++ ys) = .ok m ↔
      ∃ mx my, readLines heading number xs = .ok mx ∧ readLines none 1 ys = .ok my ∧
        m = mx ++ my := by
  have hnumber : number + xs.length = 0 + (number + xs.length) := by omega
  have hone : readLines none 1 ys = (readLines none 0 ys).mapError (movedDown 1) :=
    readLines_add none 0 1 ys
  rw [readLines_append, bind_eq_ok_iff, readLines_of_headed hys _ none, hnumber, readLines_add,
    hone]
  cases readLines none 0 ys with
  | error fault => simp [Except.mapError, Except.map]
  | ok my => simp [Except.mapError, Except.map, eq_comm]

/-! ## Joined texts -/

theorem readLines_blank (heading : Option Text) (number : Nat) :
    readLines heading number [[]] = .ok empty := by
  have hblank : Line.Spelled [] .blank := .empty rfl
  rw [readLines_of_share (readLine_of_step (.blank hblank)), readLines_nil]
  rfl

/-- The piece behind the last line end does not matter. -/
theorem parse_eq_readLines {a : Text} (ha : EndsLine a) :
    parse a = readLines none 1 (fullLines a) := by
  rw [parse, lines_eq_fullLines ha, readLines_append]
  cases readLines none 1 (fullLines a) with
  | error fault => rfl
  | ok m =>
    simp only [Except.bind, readLines_blank, Except.map, append_empty]

theorem parse_append_eq {a : Text} (ha : EndsLine a) (b : Text) :
    parse (a ++ b) = (parse a).bind fun m =>
      (readLines (headingBelow none (fullLines a)) (1 + a.count '\n') (lines b)).map (m ++ ·) := by
  rw [parse, lines_append ha, readLines_append, parse_eq_readLines ha, length_fullLines]

/-- A text that starts with a header reads after another one as it does alone, but
for the numbers of its lines. -/
theorem parse_append_of_headed {a b : Text} (ha : EndsLine a) (hb : Headed (lines b)) :
    parse (a ++ b) = (parse a).bind fun m =>
      ((parse b).mapError (movedDown (a.count '\n'))).map (m ++ ·) := by
  rw [parse_append_eq ha, parse, readLines_of_headed hb _ none, readLines_add]
  rfl

end SectionDump.Metadata
