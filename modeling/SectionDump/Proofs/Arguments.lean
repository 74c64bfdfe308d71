import SectionDump.CommandLine

/-!
# Arguments

A grammar tells what a list of arguments gives: plain ones, options with a value behind
them or joined to them, and a mark behind which all is plain. The form of each argument
tells which rule applies, so a list gives one list of items at most. A request is what
the items name, option by option; what stands between two values of an option does not
matter.
-/
namespace SectionDump.CommandLine

/-- What arguments give. -/
inductive Item where
  | plain (text : Text)
  | option (o : ValueOption) (value : Text)
  deriving DecidableEq, Repr

def dashed (o : ValueOption) : Text := '-' :: '-' :: o.name

/-- Arguments and what they give, where options may come or may not. -/
inductive Gives : Bool → List Text → List Item → Prop where
  | nil {options : Bool} : Gives options [] []
  | plain {options : Bool} {arg : Text} {rest : List Text} {items : List Item} :
      (options = true → Form.of arg = .plain) → Gives options rest items →
        Gives options (arg :: rest) (.plain arg :: items)
  | apart {o : ValueOption} {value : Text} {rest : List Text} {items : List Item} :
      Form.of value = .plain → Gives true rest items →
        Gives true (dashed o :: value :: rest) (.option o value :: items)
  | joined {o : ValueOption} {value : Text} {rest : List Text} {items : List Item} :
      Gives true rest items →
        Gives true ((dashed o ++ '=' :: value) :: rest) (.option o value :: items)
  | ended {rest : List Text} {items : List Item} :
      Gives false rest items → Gives true (['-', '-'] :: rest) items

def plainsOf (items : List Item) : List Text :=
  items.filterMap fun
    | .plain text => some text
    | .option _ _ => none

/-- The values of an option, in their order. -/
def valuesOf (o : ValueOption) (items : List Item) : List Text :=
  items.filterMap fun
    | .plain _ => none
    | .option o' value => if o' = o then some value else none

section Items

variable {o o' : ValueOption} {text : Text} {items : List Item}

@[simp] theorem plainsOf_nil : plainsOf [] = [] := rfl

@[simp] theorem plainsOf_plain : plainsOf (.plain text :: items) = text :: plainsOf items := rfl

@[simp] theorem plainsOf_option : plainsOf (.option o text :: items) = plainsOf items := rfl

@[simp] theorem valuesOf_nil : valuesOf o [] = [] := rfl

@[simp] theorem valuesOf_plain : valuesOf o (.plain text :: items) = valuesOf o items := rfl

@[simp] theorem valuesOf_same : valuesOf o (.option o text :: items) = text :: valuesOf o items := by
  simp [valuesOf]

theorem valuesOf_other (h : o' ≠ o) : valuesOf o (.option o' text :: items) = valuesOf o items := by
  simp [valuesOf, h]

end Items

/-- The request is for what the items name: one directory, at most one metadata file and
one level, and all lookups and reads in their order. -/
structure Requested (items : List Item) (request : Request) : Prop where
  directory : plainsOf items = [request.directory]
  directory_ne : request.directory ≠ []
  metadata : valuesOf .metadata items = request.metadata.toList
  metadata_ne : ∀ path ∈ request.metadata, path ≠ []
  finds : (valuesOf .find items).map address = request.finds.map .ok
  reads : (valuesOf .read items).map readRequest = request.reads.map .ok
  logLevel : ∃ level : Option Text, valuesOf .logLevel items = level.toList ∧
    request.logLevel = level.getD defaultLevel

/-! ## The form of an argument -/

/-- How an argument of a form is spelled, where it matters. -/
def Form.Spells : Form → Text → Prop
  | .endOfOptions, arg => arg = ['-', '-']
  | .long name none, arg => arg = '-' :: '-' :: name
  | .long name (some value), arg => arg = '-' :: '-' :: (name ++ '=' :: value)
  | .short _, _ => True
  | .plain, _ => True

section Forms

variable {o : ValueOption} {arg name value : Text}

theorem form_dashed : Form.of (dashed o) = .long o.name none := by
  cases o <;> rfl

theorem form_joined : Form.of (dashed o ++ '=' :: value) = .long o.name (some value) := by
  cases o <;> rfl

theorem spells_form (arg : Text) : (Form.of arg).Spells arg := by
  unfold Form.of
  split
  · rfl
  · rename_i rest _
    cases hcut : Text.cut? (· == '=') rest with
    | none => rfl
    | some parts =>
      obtain ⟨hrest, -⟩ := Text.cut?_at_eq_some_iff.1 hcut
      show '-' :: '-' :: rest = '-' :: '-' :: (parts.1 ++ '=' :: parts.2)
      rw [hrest]
  · trivial
  · trivial

theorem lookup_name : meanings.lookup o.name = some (.value o) := by
  cases o <;> rfl

theorem mem_of_lookup {α β : Type} [BEq α] [LawfulBEq α] {rows : List (α × β)} {a : α} {b : β}
    (h : rows.lookup a = some b) : (a, b) ∈ rows := by
  obtain ⟨before, after, rfl, -⟩ := List.lookup_eq_some_iff.1 h
  simp

/-- Every option that takes a value stands under its own name, and no flag asks for an
inspection. -/
theorem meaning_of_mem : ∀ row ∈ meanings, (∀ o, row.2 = .value o → row.1 = o.name) ∧
    ∀ request, row.2 ≠ .flag (.inspect request) := by
  simp [meanings]

theorem eq_name_of_lookup (h : meanings.lookup name = some (.value o)) : name = o.name :=
  (meaning_of_mem _ (mem_of_lookup h)).1 o rfl

theorem ne_inspect_of_lookup {command : Command} {request : Request}
    (h : meanings.lookup name = some (.flag command)) : command ≠ .inspect request := by
  rintro rfl
  exact (meaning_of_mem _ (mem_of_lookup h)).2 request rfl

theorem ne_inspect_of_lookup_short {c : Char} {command : Command} {request : Request}
    (h : shortMeanings.lookup c = some command) : command ≠ .inspect request := by
  have hnone : ∀ row ∈ shortMeanings, ∀ request, row.2 ≠ .inspect request := by
    simp [shortMeanings]
  exact hnone _ (mem_of_lookup h) request

theorem eq_of_name_eq {o' : ValueOption} (h : o.name = o'.name) : o' = o := by
  have hlookup : meanings.lookup o'.name = some (.value o') := lookup_name
  rw [← h, lookup_name] at hlookup
  cases hlookup
  rfl

end Forms

/-- The form of the first argument tells which rule gives the first item. -/
theorem Gives.head {arg : Text} {rest : List Text} {items : List Item}
    (h : Gives true (arg :: rest) items) : match Form.of arg with
      | .plain => ∃ more, items = .plain arg :: more ∧ Gives true rest more
      | .endOfOptions => Gives false rest items
      | .long name none => ∃ o value others more, name = o.name ∧ rest = value :: others ∧
          items = .option o value :: more ∧ Gives true others more
      | .long name (some value) => ∃ o more, name = o.name ∧ items = .option o value :: more ∧
          Gives true rest more
      | .short _ => False := by
  cases h with
  | plain hform hrest =>
    rw [hform rfl]
    exact ⟨_, rfl, hrest⟩
  | apart _ hrest =>
    rw [form_dashed]
    exact ⟨_, _, _, _, rfl, rfl, rfl, hrest⟩
  | joined hrest =>
    rw [form_joined]
    exact ⟨_, _, rfl, rfl, hrest⟩
  | ended hrest => exact hrest

/-- Arguments give nothing else. -/
theorem Gives.unique {options : Bool} {args : List Text} {items items' : List Item}
    (h : Gives options args items) (h' : Gives options args items') : items' = items := by
  induction h generalizing items' with
  | nil =>
    cases h'
    rfl
  | @plain options arg rest items hform _ ih =>
    cases options with
    | false =>
      cases h' with
      | plain _ hrest => rw [ih hrest]
    | true =>
      have hhead := h'.head
      rw [hform rfl] at hhead
      obtain ⟨more, rfl, hmore⟩ := hhead
      rw [ih hmore]
  | apart _ _ ih =>
    have hhead := h'.head
    rw [form_dashed] at hhead
    obtain ⟨o', value', others, more, hname, hrest, rfl, hmore⟩ := hhead
    obtain rfl := eq_of_name_eq hname
    cases hrest
    rw [ih hmore]
  | joined _ ih =>
    have hhead := h'.head
    rw [form_joined] at hhead
    obtain ⟨o', more, hname, rfl, hmore⟩ := hhead
    obtain rfl := eq_of_name_eq hname
    rw [ih hmore]
  | ended _ ih =>
    have hhead := h'.head
    exact ih hhead

end SectionDump.CommandLine
