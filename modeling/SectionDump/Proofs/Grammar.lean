import Mathlib.Data.List.Induction
import SectionDump.Proofs.ReadingLines

/-!
# The grammar of metadata

Which texts are metadata and what they say, line by line and without the reader. A
line is acceptable below other lines or has one fault there. A text reads when all
of its lines are acceptable, and else its fault is that of the first line that is
not.
-/
namespace SectionDump.Metadata

/-! ## Acceptable lines -/

/-- The line may stand below the others: it says nothing, it is a header, or it is an
entry that fits the group of the last header above it. -/
def Acceptable (above : List Text) (raw : Text) : Prop :=
  ∃ heading next m, Heads above heading ∧ Step heading raw next m

/-- Every line is acceptable below those before it. -/
def Accepted (rows : List Text) : Prop :=
  ∀ above raw below, rows = above ++ raw :: below → Acceptable above raw

/-- The fault is that of a line below acceptable ones, with its number and the name in
the last header above it, or the empty text. -/
structure FaultAt (above : List Text) (raw : Text) (fault : MetadataFault) : Prop where
  accepted : Accepted above
  not_acceptable : ¬Acceptable above raw
  stuck : ∃ heading, Heads above heading ∧ Stuck heading raw fault.fault ∧
    fault.group = heading.getD []
  line : fault.line = above.length + 1

/-- The fault is that of the first line that is not acceptable. -/
def FirstFault (rows : List Text) (fault : MetadataFault) : Prop :=
  ∃ above raw below, rows = above ++ raw :: below ∧ FaultAt above raw fault

theorem not_acceptable_of_stuck {above : List Text} {heading : Option Text} {raw : Text}
    {fault : LineFault} (habove : Heads above heading) (h : Stuck heading raw fault) :
    ¬Acceptable above raw := by
  rintro ⟨other, next, m, hother, hstep⟩
  have hsame : other = heading := hother.unique habove
  subst hsame
  have hread := readLine_of_step hstep
  rw [readLine_of_stuck h] at hread
  cases hread

/-! ## Acceptable texts -/

theorem accepted_nil : Accepted [] := by
  intro above raw below e
  simp at e

theorem accepted_concat_iff {above : List Text} {raw : Text} :
    Accepted (above ++ [raw]) ↔ Accepted above ∧ Acceptable above raw := by
  constructor
  · intro h
    refine ⟨fun a r b e => ?_, h above raw [] rfl⟩
    exact h a r (b ++ [raw]) (by rw [e, List.append_assoc, List.cons_append])
  · rintro ⟨habove, hraw⟩ a r b e
    rcases List.eq_nil_or_concat b with rfl | ⟨b, x, rfl⟩
    · obtain ⟨rfl, hlast⟩ := List.append_inj' e rfl
      obtain rfl := List.singleton_inj.1 hlast
      exact hraw
    · have hshift : above ++ [raw] = (a ++ r :: b) ++ [x] := by simpa using e
      exact habove a r b (List.append_inj' hshift rfl).1

theorem readLines_concat {above : List Text} {m : Metadata}
    (h : readLines none 1 above = .ok m) (raw : Text) :
    readLines none 1 (above ++ [raw]) =
      (readLines (headingBelow none above) (above.length + 1) [raw]).map (m ++ ·) := by
  rw [readLines_append, h, Nat.add_comm]
  rfl

theorem exists_readLines_of_accepted {rows : List Text} (h : Accepted rows) :
    ∃ m, readLines none 1 rows = .ok m := by
  induction rows using List.reverseRecOn with
  | nil => exact ⟨empty, rfl⟩
  | append_singleton above raw ih =>
    obtain ⟨habove, hraw⟩ := accepted_concat_iff.1 h
    obtain ⟨m, hm⟩ := ih habove
    obtain ⟨heading, next, share, hheading, hstep⟩ := hraw
    refine ⟨m ++ (share ++ empty), ?_⟩
    rw [readLines_concat hm, headingBelow_of_heads hheading,
      readLines_of_share (readLine_of_step hstep)]
    rfl

theorem readLines_of_firstFault {rows : List Text} {fault : MetadataFault}
    (h : FirstFault rows fault) : readLines none 1 rows = .error fault := by
  obtain ⟨above, raw, below, rfl, hfault⟩ := h
  obtain ⟨m, hm⟩ := exists_readLines_of_accepted hfault.accepted
  obtain ⟨heading, hheading, hstuck, hgroup⟩ := hfault.stuck
  rw [readLines_append, hm, headingBelow_of_heads hheading, Nat.add_comm, ← hfault.line]
  simp only [Except.bind, readLines_of_fault (readLine_of_stuck hstuck), ← hgroup, Except.map]

theorem FirstFault.concat {above : List Text} {fault : MetadataFault}
    (h : FirstFault above fault) (raw : Text) : FirstFault (above ++ [raw]) fault := by
  obtain ⟨a, r, b, rfl, hfault⟩ := h
  exact ⟨a, r, b ++ [raw], by rw [List.append_assoc, List.cons_append], hfault⟩

theorem accepted_or_firstFault (rows : List Text) :
    Accepted rows ∨ ∃ fault, FirstFault rows fault := by
  induction rows using List.reverseRecOn with
  | nil => exact .inl accepted_nil
  | append_singleton above raw ih =>
    rcases ih with habove | ⟨fault, hfault⟩
    · obtain ⟨heading, hheading⟩ := exists_heads above
      rcases step_or_stuck heading raw with ⟨next, m, hstep⟩ | ⟨fault, hstuck⟩
      · exact .inl (accepted_concat_iff.2 ⟨habove, heading, next, m, hheading, hstep⟩)
      · have hnot := not_acceptable_of_stuck hheading hstuck
        exact .inr ⟨⟨heading.getD [], above.length + 1, fault⟩, above, raw, [], rfl,
          habove, hnot, ⟨heading, hheading, hstuck, rfl⟩, rfl⟩
    · exact .inr ⟨fault, hfault.concat raw⟩

/-! ## What an acceptable text says -/

/-- The keys and values of the entries under headers of the group, in order. -/
def entriesOf (g : Group) : Option Text → List Line → List (Text × Text)
  | _, [] => []
  | heading, .blank :: rest => entriesOf g heading rest
  | _, .header name :: rest => entriesOf g (some name) rest
  | heading, .entry key value :: rest =>
    if heading.bind Group.ofName? = some g then (key, value) :: entriesOf g heading rest
    else entriesOf g heading rest

/-- What the entries of a group put together. The last architecture counts. -/
def Collects : Group → List (Text × Text) → Metadata → Prop
  | .aux, entries, m =>
    m.arch = ((entries.filter fun e => e.1 = archKey).map Prod.snd).getLast?
  | .entryPoints, entries, m => List.Forall₂ SpellsSymbol (entries.map Prod.snd) m.entryPoints
  | .exitPoints, entries, m => List.Forall₂ SpellsSymbol (entries.map Prod.snd) m.exitPoints
  | .relocations, entries, m =>
    List.Forall₂ Numeral.SpellsHex (entries.map Prod.snd) m.relocations
  | .functions, entries, m =>
    List.Forall₂ Numeral.SpellsHex (entries.map Prod.snd) m.functions

theorem collects_empty (g : Group) : Collects g [] empty := by
  cases g <;> simp [Collects, empty]

theorem collects_congr {g : Group} {entries : List (Text × Text)} {m n : Metadata}
    (h : part g m = part g n) : Collects g entries m ↔ Collects g entries n := by
  cases g <;> simp only [part, Metadata.mk.injEq, true_and, and_true] at h <;>
    simp only [Collects, h]

/-- An entry of the group comes before the others. -/
theorem collects_cons {g : Group} {key value : Text} {share m : Metadata}
    {entries : List (Text × Text)} (h : Fits (some g) key value share)
    (hrest : Collects g entries m) : Collects g ((key, value) :: entries) (share ++ m) := by
  cases h with
  | arch hvalue =>
    simp only [Collects] at hrest
    simp [Collects, hrest, List.getLast?_cons, Option.or_some]
  | otherKey hkey => simpa [Collects, hkey] using hrest
  | entryPoint h => exact .cons h hrest
  | exitPoint h => exact .cons h hrest
  | relocation h => exact .cons h hrest
  | function h => exact .cons h hrest

theorem collects_of_readLines {heading : Option Text} {number : Nat} {rows : List Text}
    {m : Metadata} (h : readLines heading number rows = .ok m) :
    ∃ forms, List.Forall₂ Line.Spelled rows forms ∧
      ∀ g, Collects g (entriesOf g heading forms) m := by
  induction rows generalizing heading number m with
  | nil =>
    cases h
    exact ⟨[], .nil, collects_empty⟩
  | cons raw rest ih =>
    obtain ⟨next, share, n, hstep, hn, rfl⟩ := readLines_cons_eq_ok_iff.1 h
    obtain ⟨forms, hforms, hall⟩ := ih hn
    cases hstep with
    | blank hraw =>
      rw [empty_append]
      exact ⟨.blank :: forms, .cons hraw hforms, hall⟩
    | @header name hraw =>
      rw [empty_append]
      exact ⟨.header name :: forms, .cons hraw hforms, hall⟩
    | @entry name key value _ hraw hheading hfits =>
      subst hheading
      refine ⟨.entry key value :: forms, .cons hraw hforms, fun g => ?_⟩
      rw [entriesOf, Option.bind_some]
      by_cases hg : Group.ofName? name = some g
      · rw [if_pos hg]
        rw [hg] at hfits
        exact collects_cons hfits (hall g)
      · rw [if_neg hg]
        refine (collects_congr ?_).2 (hall g)
        rw [part_append, part_of_fits hfits hg, empty_append]

/-! ## Texts -/

/-- A text is metadata when each of its lines is acceptable. Then the metadata is what
the entries of the groups put together, and else the fault is that of the first line
that is not acceptable. -/
theorem parse_iff_accepted (text : Text) :
    ((∃ m, parse text = .ok m) ↔ Accepted (lines text)) ∧
      (∀ m, parse text = .ok m → ∃ forms, List.Forall₂ Line.Spelled (lines text) forms ∧
        ∀ g, Collects g (entriesOf g none forms) m) ∧
      ∀ fault, parse text = .error fault ↔ FirstFault (lines text) fault := by
  have hcases : (∃ m, parse text = .ok m) ∨ ∃ fault, FirstFault (lines text) fault :=
    (accepted_or_firstFault (lines text)).imp exists_readLines_of_accepted id
  refine ⟨⟨?_, exists_readLines_of_accepted⟩, fun m => collects_of_readLines, fun fault => ?_⟩
  · rintro ⟨m, hm⟩
    rcases accepted_or_firstFault (lines text) with h | ⟨fault, h⟩
    · exact h
    · rw [parse, readLines_of_firstFault h] at hm
      cases hm
  · exact error_iff_of_cases (fun _ => id) (fun _ => readLines_of_firstFault) hcases

/-- Both the metadata and the fault of a text are told this way. -/
theorem parse_iff_accepted_sample :
    (∃ forms, List.Forall₂ Line.Spelled
        (lines "[aux]\narch = arm\n[functions]\nf: 0X1F ; x\n[aux]\nARCH: x86".toList) forms ∧
      ∀ g, Collects g (entriesOf g none forms) ⟨some "x86".toList, [], [], [], [0x1F]⟩) ∧
    FirstFault (lines "[exit_points]\n; puts\n0 = 1040, \n[aux".toList)
      ⟨"exit_points".toList, 3, .missingName "1040,".toList⟩ :=
  ⟨(parse_iff_accepted _).2.1 _ rfl, ((parse_iff_accepted _).2.2 _).1 rfl⟩

end SectionDump.Metadata
