import SectionDump.Proofs.ReadingLines

/-!
# Lines that say nothing

Blank lines, comments, keys of the group `aux` without a meaning and whole groups
without a meaning may be put into a metadata text. They read under any heading, add
nothing, and the lines below them read as they did, so all that changes is the number
of a fault that comes to stand further down.
-/
namespace SectionDump.Metadata

/-! ## Rows that add nothing -/

/-- Blank rows, and entries whose key passes. -/
def Passes (test : Text → Prop) (rows : List Text) : Prop :=
  ∀ row ∈ rows, Line.Spelled row .blank ∨
    ∃ key value, Line.Spelled row (.entry key value) ∧ test key

/-- The rows say nothing between the lines above and the lines below them. -/
inductive Inert (above below : List Text) : List Text → Prop where
  | blank {rows : List Text} (h : ∀ row ∈ rows, Line.Spelled row .blank) :
      Inert above below rows
  | otherKeys {rows : List Text} (hunder : Under above Group.aux.name)
      (h : Passes (· ≠ archKey) rows) : Inert above below rows
  /-- A header must be the next line of substance below, or else the entries there would
  become entries of the new group. -/
  | unknownGroup {header name : Text} {rows : List Text}
      (hheader : Line.Spelled header (.header name)) (hname : ∀ g : Group, name ≠ g.name)
      (h : Passes (fun _ => True) rows) (hbelow : Headed below) :
      Inert above below (header :: rows)

theorem ofName?_eq_none {name : Text} (h : ∀ g : Group, name ≠ g.name) :
    Group.ofName? name = none := by
  rw [Group.ofName?, List.find?_eq_none]
  intro g _
  simpa using (h g).symm

/-- Rows that each do nothing under a heading do nothing together. -/
theorem readLines_of_steps {heading : Option Text} {rows : List Text}
    (h : ∀ row ∈ rows, Step heading row heading empty) :
    (∀ number, readLines heading number rows = .ok empty) ∧
      headingBelow heading rows = heading := by
  induction rows with
  | nil => exact ⟨fun _ => rfl, rfl⟩
  | cons row rest ih =>
    rw [List.forall_mem_cons] at h
    obtain ⟨hreads, hbelow⟩ := ih h.2
    constructor
    · intro number
      exact readLines_cons_eq_ok_iff.2
        ⟨heading, empty, empty, h.1, hreads (number + 1), (empty_append empty).symm⟩
    · rw [headingBelow_cons, ← next_of_step h.1, hbelow]

theorem steps_of_passes {test : Text → Prop} {rows : List Text} (name : Text)
    (hfits : ∀ key value, test key → Fits (Group.ofName? name) key value empty)
    (h : Passes test rows) : ∀ row ∈ rows, Step (some name) row (some name) empty := by
  intro row hrow
  rcases h row hrow with hblank | ⟨key, value, hentry, hkey⟩
  · exact .blank hblank
  · exact .entry hentry rfl (hfits key value hkey)

/-- The rows read and add nothing, and leave a heading under which the lines below read
as before. -/
theorem Inert.reads {above below rows : List Text} {heading : Option Text}
    (h : Inert above below rows) (hheading : Heads above heading) :
    (∀ number, readLines heading number rows = .ok empty) ∧
      ∀ number, readLines (headingBelow heading rows) number below =
        readLines heading number below := by
  cases h with
  | blank h =>
    have hsteps : ∀ row ∈ rows, Step heading row heading empty :=
      fun row hrow => .blank (h row hrow)
    obtain ⟨hreads, hsame⟩ := readLines_of_steps hsteps
    exact ⟨hreads, fun number => by rw [hsame]⟩
  | otherKeys hunder h =>
    have hname : heading = some Group.aux.name := hheading.unique hunder
    have hfits : ∀ key value, key ≠ archKey →
        Fits (Group.ofName? Group.aux.name) key value empty := by
      intro key value hkey
      rw [Group.ofName?_name]
      exact .otherKey hkey
    obtain ⟨hreads, hsame⟩ := readLines_of_steps (steps_of_passes _ hfits h)
    rw [hname]
    exact ⟨hreads, fun number => by rw [hsame]⟩
  | @unknownGroup header name rows hheader hname h hbelow =>
    have hfits : ∀ key value, True → Fits (Group.ofName? name) key value empty := by
      intro key value _
      rw [ofName?_eq_none hname]
      exact .unknown
    obtain ⟨hreads, -⟩ := readLines_of_steps (steps_of_passes _ hfits h)
    refine ⟨fun number => ?_, fun number => readLines_of_headed hbelow _ _ number⟩
    rw [readLines_of_share (readLine_of_step (.header hheader)), hreads]
    rfl

theorem Inert.readLines_append {above below rows : List Text} {heading : Option Text}
    (h : Inert above below rows) (hheading : Heads above heading) (number : Nat) :
    readLines heading number (rows ++ below) =
      (readLines heading number below).mapError (movedDown rows.length) := by
  obtain ⟨hreads, hbelow⟩ := h.reads hheading
  rw [Metadata.readLines_append, hreads, hbelow, readLines_add]
  cases readLines heading number below with
  | error fault => rfl
  | ok m => exact congrArg Except.ok (empty_append m)

/-! ## Numbers of faults -/

/-- The fault of lines is at one of their numbers. -/
theorem line_of_readLines {heading : Option Text} {number : Nat} {rows : List Text}
    {fault : MetadataFault} (h : readLines heading number rows = .error fault) :
    number ≤ fault.line ∧ fault.line < number + rows.length := by
  induction rows generalizing heading number with
  | nil => cases h
  | cons raw rest ih =>
    rw [List.length_cons]
    rcases readLine_cases heading raw with ⟨f, hline⟩ | ⟨m, hline⟩
    · rw [readLines_of_fault hline] at h
      cases h
      constructor
      · exact Nat.le_refl number
      · show number < number + (rest.length + 1)
        omega
    · rw [readLines_of_share hline] at h
      cases hrest : readLines (nextHeading heading raw) (number + 1) rest with
      | ok n =>
        rw [hrest] at h
        cases h
      | error f =>
        rw [hrest] at h
        cases h
        have hrange := ih hrest
        omega

theorem line_of_parse {a : Text} (ha : EndsLine a) {fault : MetadataFault}
    (h : parse a = .error fault) : fault.line ≤ a.count '\n' := by
  rw [parse_eq_readLines ha] at h
  have hrange := line_of_readLines h
  rw [length_fullLines] at hrange
  omega

/-- The fault, moved down if it stands below the given number of lines. -/
def pushedDown (place n : Nat) (fault : MetadataFault) : MetadataFault :=
  if place < fault.line then movedDown n fault else fault

/-! ## Texts with rows put in -/

theorem parse_insert_eq {a b : Text} {rows : List Text} (ha : EndsLine a)
    (hrows : ∀ row ∈ rows, '\n' ∉ row) (h : Inert (fullLines a) (lines b) rows) :
    parse (a ++ (ended rows ++ b)) =
      (parse (a ++ b)).mapError (pushedDown (a.count '\n') rows.length) := by
  obtain ⟨heading, hheading⟩ := exists_heads (fullLines a)
  rw [parse_append_eq ha, parse_append_eq ha, lines_ended_append hrows,
    headingBelow_of_heads hheading, h.readLines_append hheading]
  cases hparse : parse a with
  | error fault =>
    -- The text above has the fault already, so nothing of what is put in is read.
    have hline := line_of_parse ha hparse
    have hsame : pushedDown (a.count '\n') rows.length fault = fault := if_neg (by omega)
    exact congrArg Except.error hsame.symm
  | ok m =>
    cases hbelow : readLines heading (1 + a.count '\n') (lines b) with
    | ok n => rfl
    | error fault =>
      have hline := line_of_readLines hbelow
      have hmoved : pushedDown (a.count '\n') rows.length fault = movedDown rows.length fault :=
        if_pos (by omega)
      exact congrArg Except.error hmoved.symm

/-- Rows that say nothing where they are put in change neither the metadata of a text nor
its fault, apart from the number of a line below them. -/
theorem parse_of_inserted {a b : Text} {rows : List Text} (ha : EndsLine a)
    (hrows : ∀ row ∈ rows, '\n' ∉ row) (h : Inert (fullLines a) (lines b) rows) :
    (∀ m, parse (a ++ b) = .ok m → parse (a ++ (ended rows ++ b)) = .ok m) ∧
      ∀ fault, parse (a ++ b) = .error fault →
        parse (a ++ (ended rows ++ b)) =
          .error (pushedDown (a.count '\n') rows.length fault) := by
  rw [parse_insert_eq ha hrows h]
  constructor
  · intro m hm
    rw [hm]
    rfl
  · intro fault hfault
    rw [hfault]
    rfl

/-- A key without a meaning does not hide the next one, and a block without a meaning moves
the fault below it but is not its group. -/
theorem parse_of_inserted_sample :
    parse ("[aux]\n".toList ++ (ended ["host: pi".toList] ++ "ARCH = arm".toList)) =
        .ok ⟨some "arm".toList, [], [], [], []⟩ ∧
      parse ("[aux]\n".toList ++ (ended ["[ notes ]".toList, "; x".toList, "arch:".toList] ++
          "[functions]\n0 = g".toList)) =
        .error ⟨"functions".toList, 6, .invalidAddress "g".toList⟩ := by
  have hends : EndsLine "[aux]\n".toList := .inr rfl
  have haux : Under (fullLines "[aux]\n".toList) Group.aux.name :=
    ⟨[], "[aux]".toList, [], rfl, Line.read_eq_ok_iff.1 rfl, by simp [NoHeader]⟩
  have hhost : Line.read "host: pi".toList = .ok (.entry "host".toList "pi".toList) := rfl
  have hkey : Passes (· ≠ archKey) ["host: pi".toList] :=
    List.forall_mem_singleton.2 (.inr ⟨_, _, Line.read_eq_ok_iff.1 hhost, by decide⟩)
  have hnotes : Line.read "[ notes ]".toList = .ok (.header "notes".toList) := rfl
  have hunknown : ∀ g : Group, "notes".toList ≠ g.name := by
    intro g
    cases g <;> decide
  have harch : Line.read "arch:".toList = .ok (.entry "arch".toList []) := rfl
  have hrows : Passes (fun _ => True) ["; x".toList, "arch:".toList] :=
    List.forall_mem_cons.2 ⟨.inl (Line.read_eq_ok_iff.1 rfl),
      List.forall_mem_singleton.2 (.inr ⟨_, _, Line.read_eq_ok_iff.1 harch, trivial⟩)⟩
  have hfunctions : Line.read "[functions]".toList = .ok (.header "functions".toList) := rfl
  have hheaded : Headed (lines "[functions]\n0 = g".toList) :=
    headed_of_header (Line.read_eq_ok_iff.1 hfunctions) _
  constructor
  · exact (parse_of_inserted hends (by decide) (.otherKeys haux hkey)).1 _ rfl
  · exact (parse_of_inserted hends (by decide)
      (.unknownGroup (Line.read_eq_ok_iff.1 hnotes) hunknown hrows hheaded)).2
      ⟨"functions".toList, 3, .invalidAddress "g".toList⟩ rfl

end SectionDump.Metadata
