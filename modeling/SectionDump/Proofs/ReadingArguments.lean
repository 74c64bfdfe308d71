import Mathlib.Tactic.MkIffOfInductiveProp
import SectionDump.Proofs.Arguments
import SectionDump.Proofs.Outcomes

/-!
# Reading arguments

One more argument ends the reading or leads on, and then its item is still to be taken
or its value still to come. A reading that ends with a request has thus taken all that
the arguments give, one item after another, and every draft holds the values of each
option in the order of appearance.
-/
namespace SectionDump.CommandLine

/-! ## One argument -/

/-- What one more argument leads to, where the reading goes on. -/
inductive Step : Draft → Pending → Bool → Text → Draft → Pending → Bool → Prop where
  | ended {d : Draft} {p : Pending} : Step d p true ['-', '-'] d p false
  | apart {d d' : Draft} {p : Pending} {o : ValueOption} :
      d.settle p = .ok d' → Step d p true (dashed o) d' (.option o none) true
  | joined {d d' d'' : Draft} {p : Pending} {o : ValueOption} {value : Text} :
      d.settle p = .ok d' → d'.set value o = .ok d'' →
        Step d p true (dashed o ++ '=' :: value) d'' .nothing true
  | value {d : Draft} {o : ValueOption} {arg : Text} : Form.of arg = .plain →
        Step d (.option o none) true arg d (.option o (some arg)) true
  | plain {d d' : Draft} {p : Pending} {options : Bool} {arg : Text} :
      (options = true → Form.of arg = .plain) → d.settle p = .ok d' →
      hasDirectory d p = false → Step d p options arg d' (.directory arg) options

section Steps

variable {d d' d'' : Draft} {p p' : Pending} {options options' : Bool} {arg : Text}
  {rest : List Text} {request : Request}

-- The equation for a list with an argument has conditions on what waits, so the function is
-- opened as a whole.
theorem readFrom_of_awaited {o : ValueOption} (hform : Form.of arg = .plain) :
    readFrom d (.option o none) true (arg :: rest) =
      readFrom d (.option o (some arg)) true rest := by
  rw [readFrom.eq_def]
  simp only [if_true, hform]

/-- A plain argument that no option waits for is the directory, and there is only one. -/
theorem readFrom_of_plain (hform : options = true → Form.of arg = .plain)
    (hp : options = true → ∀ o, p ≠ .option o none) :
    readFrom d p options (arg :: rest) =
      if hasDirectory d p then .error (.unknownArgument arg)
      else (d.settle p).bind fun d => readFrom d (.directory arg) options rest := by
  rw [readFrom.eq_def]
  cases options with
  | false => rfl
  | true =>
    simp only [if_true, hform rfl]
    split
    · rename_i o _
      exact absurd rfl (hp rfl o)
    · rfl

theorem settle_of_awaiting {o : ValueOption} : d.settle (.option o none) ≠ .ok d' := by
  rintro ⟨⟩

theorem readFrom_of_step (h : Step d p options arg d' p' options') :
    readFrom d p options (arg :: rest) = readFrom d' p' options' rest := by
  cases h with
  | ended => rfl
  | apart hsettle =>
    rw [readFrom.eq_def]
    simp only [if_true, form_dashed, lookup_name, hsettle]
    rfl
  | joined hsettle hset =>
    rw [readFrom.eq_def]
    simp only [if_true, form_joined, lookup_name, hsettle, hset, Except.bind]
  | value hform => exact readFrom_of_awaited hform
  | plain hform hsettle hnone =>
    rw [readFrom_of_plain hform, hnone, hsettle]
    · rfl
    · rintro - o rfl
      exact settle_of_awaiting hsettle

theorem exists_step_of_plain (hform : options = true → Form.of arg = .plain)
    (h : readFrom d p options (arg :: rest) = .ok (.inspect request)) :
    ∃ d' p' options', Step d p options arg d' p' options' := by
  by_cases hp : options = true ∧ ∃ o, p = .option o none
  · obtain ⟨rfl, o, rfl⟩ := hp
    exact ⟨_, _, _, .value (hform rfl)⟩
  · rw [readFrom_of_plain hform fun hoptions o ho => hp ⟨hoptions, o, ho⟩] at h
    split at h
    · cases h
    · rename_i hnone
      obtain ⟨d', hsettle, -⟩ := bind_eq_ok_iff.1 h
      exact ⟨_, _, _, .plain hform hsettle (Bool.eq_false_iff.2 hnone)⟩

/-- An argument that is no step ends the reading, and not with a request. -/
theorem exists_step_of_readFrom
    (h : readFrom d p options (arg :: rest) = .ok (.inspect request)) :
    ∃ d' p' options', Step d p options arg d' p' options' := by
  cases options with
  | false => exact exists_step_of_plain (fun hoptions => absurd hoptions Bool.false_ne_true) h
  | true =>
    have hspells := spells_form arg
    cases hform : Form.of arg with
    | endOfOptions =>
      rw [hform] at hspells
      cases hspells
      exact ⟨_, _, _, .ended⟩
    | plain => exact exists_step_of_plain (fun _ => hform) h
    | short c =>
      rw [readFrom.eq_def] at h
      simp only [if_true, hform] at h
      split at h
      · cases h
      · rename_i hlookup
        obtain ⟨_, -, hcommand⟩ := map_eq_ok_iff.1 h
        exact absurd hcommand (ne_inspect_of_lookup_short hlookup)
    | long name value =>
      rw [hform] at hspells
      rw [readFrom.eq_def] at h
      simp only [if_true, hform] at h
      split at h
      · cases h
      · rename_i hlookup
        obtain ⟨_, -, hcommand⟩ := map_eq_ok_iff.1 h
        exact absurd hcommand (ne_inspect_of_lookup hlookup)
      · cases h
      · rename_i hlookup
        obtain ⟨d', hsettle, -⟩ := bind_eq_ok_iff.1 h
        cases hspells
        obtain rfl := eq_name_of_lookup hlookup
        exact ⟨_, _, _, .apart hsettle⟩
      · rename_i hlookup
        obtain ⟨d', hsettle, h⟩ := bind_eq_ok_iff.1 h
        obtain ⟨d'', hset, -⟩ := bind_eq_ok_iff.1 h
        cases hspells
        obtain rfl := eq_name_of_lookup hlookup
        exact ⟨_, _, _, .joined hsettle hset⟩

theorem readFrom_cons_iff : readFrom d p options (arg :: rest) = .ok (.inspect request) ↔
    ∃ d' p' options', Step d p options arg d' p' options' ∧
      readFrom d' p' options' rest = .ok (.inspect request) := by
  constructor
  · intro h
    obtain ⟨d', p', options', hstep⟩ := exists_step_of_readFrom h
    exact ⟨d', p', options', hstep, readFrom_of_step hstep ▸ h⟩
  · rintro ⟨d', p', options', hstep, h⟩
    rw [readFrom_of_step hstep, h]

end Steps

/-! ## What is taken -/

/-- An item is taken once its value has been read. -/
inductive Takes (d : Draft) : Item → Draft → Prop where
  | directory {path : Path} : d.directory = none → path ≠ [] →
      Takes d (.plain path) { d with directory := some path }
  | metadata {path : Path} : d.metadata = none → path ≠ [] →
      Takes d (.option .metadata path) { d with metadata := some path }
  | find {value : Text} {a : UInt64} : address value = .ok a →
      Takes d (.option .find value) { d with finds := d.finds ++ [a] }
  | read {value : Text} {r : ReadRequest} : readRequest value = .ok r →
      Takes d (.option .read value) { d with reads := d.reads ++ [r] }
  | logLevel {value : Text} : d.logLevel = none →
      Takes d (.option .logLevel value) { d with logLevel := some value }

inductive TakesAll : Draft → List Item → Draft → Prop where
  | nil {d : Draft} : TakesAll d [] d
  | cons {d m d' : Draft} {item : Item} {items : List Item} :
      Takes d item m → TakesAll m items d' → TakesAll d (item :: items) d'

/-- What an argument that waits will give, if it does not wait for a value. -/
def Pending.items : Pending → List Item
  | .nothing => []
  | .directory path => [.plain path]
  | .option _ none => []
  | .option o (some value) => [.option o value]

/-- A directory that waits is the only one. -/
def Admits (d : Draft) (p : Pending) : Prop := ∀ path, p = .directory path → d.directory = none

section Taking

variable {d d' m : Draft} {p p' : Pending} {options options' : Bool} {arg : Text} {item : Item}
  {items items' : List Item}

theorem takesAll_cons_iff : TakesAll d (item :: items) d' ↔
    ∃ m, Takes d item m ∧ TakesAll m items d' := by
  constructor
  · rintro (_ | ⟨htakes, hrest⟩)
    exact ⟨_, htakes, hrest⟩
  · rintro ⟨m, htakes, hrest⟩
    exact .cons htakes hrest

theorem takesAll_nil_iff : TakesAll d [] d' ↔ d' = d := by
  constructor
  · rintro ⟨⟩
    rfl
  · rintro rfl
    exact .nil

theorem takesAll_singleton_iff : TakesAll d [item] d' ↔ Takes d item d' := by
  simp only [takesAll_cons_iff, takesAll_nil_iff, exists_eq_right']

theorem takesAll_append_iff : TakesAll d (items ++ items') d' ↔
    ∃ m, TakesAll d items m ∧ TakesAll m items' d' := by
  induction items generalizing d with
  | nil => simp [takesAll_nil_iff]
  | cons item items ih =>
    simp only [List.cons_append, takesAll_cons_iff, ih]
    constructor
    · rintro ⟨m, htakes, m', hfirst, hrest⟩
      exact ⟨m', ⟨m, htakes, hfirst⟩, hrest⟩
    · rintro ⟨m', ⟨m, htakes, hfirst⟩, hrest⟩
      exact ⟨m, htakes, m', hfirst, hrest⟩

theorem set_eq_ok_iff {o : ValueOption} {value : Text} :
    d.set value o = .ok d' ↔ Takes d (.option o value) d' := by
  constructor
  · intro h
    cases o with
    | metadata =>
      simp only [Draft.set] at h
      split at h
      · cases h
      · rename_i hnone
        split at h
        · cases h
        · rename_i hpath
          cases h
          exact .metadata (Option.not_isSome_iff_eq_none.1 hnone) hpath
    | find =>
      simp only [Draft.set] at h
      split at h
      · rename_i ha
        cases h
        exact .find ha
      · cases h
    | read =>
      simp only [Draft.set] at h
      split at h
      · rename_i hr
        cases h
        exact .read hr
      · cases h
    | logLevel =>
      simp only [Draft.set] at h
      split at h
      · cases h
      · rename_i hnone
        cases h
        exact .logLevel (Option.not_isSome_iff_eq_none.1 hnone)
  · intro h
    cases h with
    | metadata hnone hpath => simp [Draft.set, hnone, hpath]
    | find ha => simp only [Draft.set, ha]
    | read hr => simp only [Draft.set, hr]
    | logLevel hnone => simp [Draft.set, hnone]

theorem settle_directory_iff {path : Path} (hnone : d.directory = none) :
    d.settle (.directory path) = .ok d' ↔ Takes d (.plain path) d' := by
  rw [Draft.settle]
  constructor
  · intro h
    split at h
    · cases h
    · rename_i hpath
      cases h
      exact .directory hnone hpath
  · intro h
    cases h with
    | directory _ hpath => rw [if_neg hpath]

/-- An argument that waits is settled by taking what it gives. -/
theorem settle_eq_ok_iff (hp : Admits d p) : d.settle p = .ok d' ↔
    (∀ o, p ≠ .option o none) ∧ TakesAll d p.items d' := by
  cases p with
  | nothing => simp [Draft.settle, Pending.items, takesAll_nil_iff, eq_comm]
  | directory path =>
    simp [Pending.items, takesAll_singleton_iff, settle_directory_iff (hp path rfl)]
  | option o value =>
    cases value with
    | none =>
      simp only [settle_of_awaiting, false_iff, not_and]
      exact fun hnone => absurd rfl (hnone o)
    | some value =>
      simp [Pending.items, takesAll_singleton_iff, Draft.settle, set_eq_ok_iff]

theorem directory_of_takes {o : ValueOption} {value : Text}
    (h : Takes d (.option o value) d') : d'.directory = d.directory := by
  cases h <;> rfl

theorem hasDirectory_iff_of_settle (h : d.settle p = .ok d') :
    hasDirectory d p = false ↔ d'.directory = none := by
  cases p with
  | nothing =>
    cases h
    simp [hasDirectory]
  | directory path =>
    rw [Draft.settle] at h
    split at h
    · cases h
    · cases h
      simp [hasDirectory]
  | option o value =>
    cases value with
    | none => cases h
    | some value =>
      rw [directory_of_takes (set_eq_ok_iff.1 h)]
      simp [hasDirectory]

theorem Step.admits (h : Step d p options arg d' p' options') (hp : Admits d p) :
    Admits d' p' := by
  cases h with
  | ended => exact hp
  | apart | joined | value => rintro path ⟨⟩
  | plain _ hsettle hnone =>
    rintro path ⟨⟩
    exact (hasDirectory_iff_of_settle hsettle).1 hnone

end Taking

/-! ## A reading -/

/-- What is still to be taken where an argument waits and others follow. -/
inductive Follows (p : Pending) : Bool → List Text → List Item → Prop where
  | held {options : Bool} {args : List Text} {items : List Item} :
      (∀ o, p ≠ .option o none) → Gives options args items →
        Follows p options args (p.items ++ items)
  | awaited {o : ValueOption} {value : Text} {rest : List Text} {items : List Item} :
      p = .option o none → Form.of value = .plain → Gives true rest items →
        Follows p true (value :: rest) (.option o value :: items)

section Following

variable {d d' d'' : Draft} {p p' : Pending} {options options' : Bool} {arg : Text}
  {args rest : List Text} {items : List Item} {request : Request}

theorem takesAll_of_settle (hp : Admits d p) (hsettle : d.settle p = .ok d')
    (h : TakesAll d' items d'') : TakesAll d (p.items ++ items) d'' :=
  takesAll_append_iff.2 ⟨d', ((settle_eq_ok_iff hp).1 hsettle).2, h⟩

/-- Whatever follows a step follows the argument before it as well. -/
theorem follows_of_step (hp : Admits d p) (hstep : Step d p options arg d' p' options')
    (hfollows : Follows p' options' rest items) (htakes : TakesAll d' items d'') :
    ∃ items', Follows p options (arg :: rest) items' ∧ TakesAll d items' d'' := by
  cases hstep with
  | ended =>
    cases hfollows with
    | held hheld hgives => exact ⟨_, .held hheld (.ended hgives), htakes⟩
  | apart hsettle =>
    have hheld := ((settle_eq_ok_iff hp).1 hsettle).1
    cases hfollows with
    | held hnone => exact absurd rfl (hnone _)
    | awaited hoption hform hgives =>
      cases hoption
      exact ⟨_, .held hheld (.apart hform hgives), takesAll_of_settle hp hsettle htakes⟩
  | joined hsettle hset =>
    have hheld := ((settle_eq_ok_iff hp).1 hsettle).1
    cases hfollows with
    | held _ hgives =>
      refine ⟨_, .held hheld (.joined hgives), takesAll_of_settle hp hsettle ?_⟩
      exact .cons (set_eq_ok_iff.1 hset) htakes
    | awaited hoption => cases hoption
  | value hform =>
    cases hfollows with
    | held _ hgives => exact ⟨_, .awaited rfl hform hgives, htakes⟩
    | awaited hoption => cases hoption
  | plain hform hsettle =>
    have hheld := ((settle_eq_ok_iff hp).1 hsettle).1
    cases hfollows with
    | held _ hgives =>
      exact ⟨_, .held hheld (.plain hform hgives), takesAll_of_settle hp hsettle htakes⟩
    | awaited hoption => cases hoption

theorem exists_step_of_gives (hp : Admits d p) (hheld : ∀ o, p ≠ .option o none)
    (hgives : Gives options (arg :: rest) items) (htakes : TakesAll d (p.items ++ items) d'') :
    ∃ d' p' options' items', Step d p options arg d' p' options' ∧
      Follows p' options' rest items' ∧ TakesAll d' items' d'' := by
  obtain ⟨d', hwaiting, hrest⟩ := takesAll_append_iff.1 htakes
  have hsettle : d.settle p = .ok d' := (settle_eq_ok_iff hp).2 ⟨hheld, hwaiting⟩
  cases hgives with
  | plain hform hgives =>
    obtain ⟨m, htake, hmore⟩ := takesAll_cons_iff.1 hrest
    have hnone : d'.directory = none := by
      cases htake
      assumption
    exact ⟨_, _, _, _, .plain hform hsettle ((hasDirectory_iff_of_settle hsettle).2 hnone),
      .held (by simp) hgives, hrest⟩
  | apart hform hgives => exact ⟨_, _, _, _, .apart hsettle, .awaited rfl hform hgives, hrest⟩
  | joined hgives =>
    obtain ⟨m, htake, hmore⟩ := takesAll_cons_iff.1 hrest
    exact ⟨_, _, _, _, .joined hsettle (set_eq_ok_iff.2 htake), .held (by simp) hgives, hmore⟩
  | ended hgives => exact ⟨_, _, _, _, .ended, .held hheld hgives, htakes⟩

theorem exists_step_of_follows (hp : Admits d p) (hfollows : Follows p options (arg :: rest) items)
    (htakes : TakesAll d items d'') :
    ∃ d' p' options' items', Step d p options arg d' p' options' ∧
      Follows p' options' rest items' ∧ TakesAll d' items' d'' := by
  cases hfollows with
  | held hheld hgives => exact exists_step_of_gives hp hheld hgives htakes
  | awaited hoption hform hgives =>
    subst hoption
    exact ⟨_, _, _, _, .value hform, .held (by simp) hgives, htakes⟩

theorem follows_nil_iff : Follows p options [] items ↔
    (∀ o, p ≠ .option o none) ∧ items = p.items := by
  constructor
  · intro h
    cases h with
    | held hheld hgives =>
      cases hgives
      exact ⟨hheld, List.append_nil _⟩
  · rintro ⟨hheld, rfl⟩
    have h : Follows p options [] (p.items ++ []) := .held hheld .nil
    rwa [List.append_nil] at h

theorem follows_nothing_iff : Follows .nothing options args items ↔ Gives options args items := by
  constructor
  · intro h
    cases h with
    | held _ hgives => exact hgives
    | awaited hoption => cases hoption
  · exact fun h => .held (by simp) h

/-- A reading ends with a request when the arguments give items that can be taken one
after another, and the request is what has been taken. -/
theorem readFrom_eq_inspect_iff (hp : Admits d p) :
    readFrom d p options args = .ok (.inspect request) ↔ ∃ items d',
      Follows p options args items ∧ TakesAll d items d' ∧ finish d' = .ok (.inspect request) := by
  -- What waits belongs to what follows, so each argument moves it on by one step.
  induction args generalizing d p options with
  | nil =>
    rw [readFrom, bind_eq_ok_iff]
    simp only [settle_eq_ok_iff hp, follows_nil_iff]
    constructor
    · rintro ⟨d', ⟨hheld, htakes⟩, hfinish⟩
      exact ⟨p.items, d', ⟨hheld, rfl⟩, htakes, hfinish⟩
    · rintro ⟨items, d', ⟨hheld, rfl⟩, htakes, hfinish⟩
      exact ⟨d', ⟨hheld, htakes⟩, hfinish⟩
  | cons arg rest ih =>
    rw [readFrom_cons_iff]
    constructor
    · rintro ⟨d', p', options', hstep, h⟩
      obtain ⟨items, d'', hfollows, htakes, hfinish⟩ := (ih (hstep.admits hp)).1 h
      obtain ⟨items', hfollows', htakes'⟩ := follows_of_step hp hstep hfollows htakes
      exact ⟨items', d'', hfollows', htakes', hfinish⟩
    · rintro ⟨items, d'', hfollows, htakes, hfinish⟩
      obtain ⟨d', p', options', items', hstep, hfollows', htakes'⟩ :=
        exists_step_of_follows hp hfollows htakes
      exact ⟨d', p', options', hstep,
        (ih (hstep.admits hp)).2 ⟨items', d'', hfollows', htakes', hfinish⟩⟩

end Following

/-! ## The request -/

/-- A draft has, in their order, the values that another one has and then those of the
items. -/
@[mk_iff]
structure Collects (d : Draft) (items : List Item) (d' : Draft) : Prop where
  directory : d.directory.toList ++ plainsOf items = d'.directory.toList
  directory_ne : ∀ path ∈ plainsOf items, path ≠ []
  metadata : d.metadata.toList ++ valuesOf .metadata items = d'.metadata.toList
  metadata_ne : ∀ path ∈ valuesOf .metadata items, path ≠ []
  finds : d.finds.map .ok ++ (valuesOf .find items).map address = d'.finds.map .ok
  reads : d.reads.map .ok ++ (valuesOf .read items).map readRequest = d'.reads.map .ok
  logLevel : d.logLevel.toList ++ valuesOf .logLevel items = d'.logLevel.toList

section Collecting

variable {d d' m : Draft} {item : Item} {items : List Item}

theorem toList_inj {α : Type} {x y : Option α} : x.toList = y.toList ↔ x = y := by
  cases x <;> cases y <;> simp

theorem map_ok_inj {ε α : Type} {xs ys : List α} :
    xs.map (Except.ok : α → Except ε α) = ys.map .ok ↔ xs = ys :=
  List.map_inj_right fun _ _ => Except.ok.inj

theorem collects_nil_iff : Collects d [] d' ↔ d' = d := by
  constructor
  · rintro ⟨hdirectory, -, hmetadata, -, hfinds, hreads, hlevel⟩
    simp only [plainsOf_nil, valuesOf_nil, List.map_nil, List.append_nil, toList_inj, map_ok_inj]
      at hdirectory hmetadata hfinds hreads hlevel
    cases d
    cases d'
    simp_all
  · rintro rfl
    constructor <;> simp

/-- Taking an item moves it from those to come into the draft. -/
theorem collects_cons_iff (h : Takes d item m) :
    Collects d (item :: items) d' ↔ Collects m items d' := by
  rw [collects_iff, collects_iff]
  cases h <;> simp [valuesOf_other, *]

theorem eq_none_of_append_cons {α : Type} {x y : Option α} {a : α} {rest : List α}
    (h : x.toList ++ a :: rest = y.toList) : x = none := by
  cases x <;> cases y <;> simp_all

theorem exists_ok_of_append_cons {ε α : Type} {xs ys : List α} {x : Except ε α}
    {rest : List (Except ε α)} (h : xs.map .ok ++ x :: rest = ys.map .ok) : ∃ a, x = .ok a := by
  have hmem : x ∈ ys.map .ok := h ▸ by simp
  obtain ⟨a, -, rfl⟩ := List.mem_map.1 hmem
  exact ⟨a, rfl⟩

theorem exists_takes_of_collects (h : Collects d (item :: items) d') : ∃ m, Takes d item m := by
  cases item with
  | plain path =>
    exact ⟨_, .directory (eq_none_of_append_cons h.directory) (h.directory_ne _ (by simp))⟩
  | option o value =>
    cases o with
    | metadata =>
      have hnone : d.metadata = none := by
        have hvalues := h.metadata
        rw [valuesOf_same] at hvalues
        exact eq_none_of_append_cons hvalues
      exact ⟨_, .metadata hnone (h.metadata_ne _ (by simp))⟩
    | find =>
      obtain ⟨a, ha⟩ : ∃ a, address value = .ok a := by
        have hvalues := h.finds
        rw [valuesOf_same, List.map_cons] at hvalues
        exact exists_ok_of_append_cons hvalues
      exact ⟨_, .find ha⟩
    | read =>
      obtain ⟨r, hr⟩ : ∃ r, readRequest value = .ok r := by
        have hvalues := h.reads
        rw [valuesOf_same, List.map_cons] at hvalues
        exact exists_ok_of_append_cons hvalues
      exact ⟨_, .read hr⟩
    | logLevel =>
      have hnone : d.logLevel = none := by
        have hvalues := h.logLevel
        rw [valuesOf_same] at hvalues
        exact eq_none_of_append_cons hvalues
      exact ⟨_, .logLevel hnone⟩

theorem takesAll_iff_collects : TakesAll d items d' ↔ Collects d items d' := by
  induction items generalizing d with
  | nil => rw [takesAll_nil_iff, collects_nil_iff]
  | cons item items ih =>
    rw [takesAll_cons_iff]
    constructor
    · rintro ⟨m, htakes, hrest⟩
      exact (collects_cons_iff htakes).2 (ih.1 hrest)
    · intro h
      obtain ⟨m, htakes⟩ := exists_takes_of_collects h
      exact ⟨m, htakes, ih.2 ((collects_cons_iff htakes).1 h)⟩

theorem finish_eq_ok_iff {request : Request} : finish d' = .ok (.inspect request) ↔
    d' = ⟨some request.directory, request.metadata, request.finds, request.reads, d'.logLevel⟩ ∧
      request.logLevel = d'.logLevel.getD defaultLevel := by
  obtain ⟨directory, metadata, finds, reads, level⟩ := d'
  cases request
  cases directory with
  | none => simp [finish]
  | some directory => simp [finish, and_assoc, eq_comm]

theorem requested_iff {request : Request} : Requested items request ↔
    ∃ d', Collects .empty items d' ∧ finish d' = .ok (.inspect request) := by
  simp only [finish_eq_ok_iff]
  constructor
  · rintro ⟨hdirectory, hdirectory', hmetadata, hmetadata', hfinds, hreads, level, hvalues, hlevel⟩
    refine ⟨⟨some request.directory, request.metadata, request.finds, request.reads, level⟩,
      ?_, rfl, hlevel⟩
    constructor <;> simp_all [Draft.empty]
  · rintro ⟨d', hcollects, hd', hlevel⟩
    rw [hd'] at hcollects
    obtain ⟨hdirectory, hdirectory', hmetadata, hmetadata', hfinds, hreads, hvalues⟩ := hcollects
    simp only [Draft.empty, Option.toList_none, Option.toList_some, List.map_nil, List.nil_append]
      at hdirectory hmetadata hfinds hreads hvalues
    rw [hdirectory, List.forall_mem_singleton] at hdirectory'
    simp only [hmetadata, Option.mem_toList] at hmetadata'
    exact ⟨hdirectory, hdirectory', hmetadata, hmetadata', hfinds, hreads, _, hvalues, hlevel⟩

end Collecting

/-- A list of arguments is read as a request exactly when it gives items that make the
request, in whatever order these come. -/
theorem parse_eq_inspect_iff {args : List Text} {request : Request} :
    parse args = .ok (.inspect request) ↔
      ∃ items, Gives true args items ∧ Requested items request := by
  have hp : Admits .empty .nothing := by
    rintro path ⟨⟩
  rw [parse, readFrom_eq_inspect_iff hp]
  simp only [follows_nothing_iff, takesAll_iff_collects, requested_iff, exists_and_left]

end SectionDump.CommandLine
