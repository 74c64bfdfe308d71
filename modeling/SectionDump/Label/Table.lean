import SectionDump.Label

/-!
# Label tables

An address may carry several labels. A table keeps all of them, in the order in
which they came, and is asked for the newest one first of all.
-/
namespace SectionDump

abbrev LabelRow := UInt64 × List Label

structure LabelTable where
  rows : List LabelRow
  ascending : rows.Pairwise (fun r s => r.1 < s.1)
  labelled : ∀ r ∈ rows, r.2 ≠ []
  deriving DecidableEq, Repr

namespace LabelTable

/-- Adds a label at the end of its address's row, or as a new row at its place. -/
def addRow (a : UInt64) (l : Label) : List LabelRow → List LabelRow
  | [] => [(a, [l])]
  | (b, ls) :: rest =>
    if a < b then (a, [l]) :: (b, ls) :: rest
    else if a = b then (b, ls ++ [l]) :: rest
    else (b, ls) :: addRow a l rest

theorem fst_of_mem_addRow {a : UInt64} {l : Label} {rows : List LabelRow} {r : LabelRow}
    (h : r ∈ addRow a l rows) : r.1 = a ∨ ∃ s ∈ rows, r.1 = s.1 := by
  induction rows with
  | nil => simp [addRow] at h; simp [h]
  | cons s rest ih =>
    obtain ⟨b, ls⟩ := s
    rw [addRow] at h
    split at h
    · simp only [List.mem_cons] at h
      rcases h with rfl | rfl | h
      · exact .inl rfl
      · exact .inr ⟨_, by simp, rfl⟩
      · exact .inr ⟨r, by simp [h], rfl⟩
    · split at h
      · simp only [List.mem_cons] at h
        rcases h with rfl | h
        · exact .inr ⟨_, List.mem_cons_self, rfl⟩
        · exact .inr ⟨r, by simp [h], rfl⟩
      · simp only [List.mem_cons] at h
        rcases h with rfl | h
        · exact .inr ⟨_, List.mem_cons_self, rfl⟩
        · rcases ih h with e | ⟨s, hs, e⟩
          · exact .inl e
          · exact .inr ⟨s, List.mem_cons_of_mem _ hs, e⟩

theorem addRow_ascending (a : UInt64) (l : Label) {rows : List LabelRow}
    (h : rows.Pairwise (fun r s => r.1 < s.1)) :
    (addRow a l rows).Pairwise (fun r s => r.1 < s.1) := by
  induction rows with
  | nil => simp [addRow]
  | cons s rest ih =>
    obtain ⟨b, ls⟩ := s
    rw [List.pairwise_cons] at h
    rw [addRow]
    split
    · rename_i hab
      simp only [List.pairwise_cons, List.mem_cons]
      refine ⟨?_, h⟩
      rintro r (rfl | hr)
      · exact hab
      · exact UInt64.lt_trans hab (h.1 r hr)
    · split
      · exact List.pairwise_cons.2 h
      · rename_i h1 h2
        have hba : b < a := (UInt64.lt_or_lt_of_ne h2).resolve_left h1
        rw [List.pairwise_cons]
        refine ⟨fun r hr => ?_, ih h.2⟩
        rcases fst_of_mem_addRow hr with e | ⟨s, hs, e⟩
        · simpa [e] using hba
        · simpa [e] using h.1 s hs

theorem addRow_labelled (a : UInt64) (l : Label) {rows : List LabelRow}
    (h : ∀ r ∈ rows, r.2 ≠ []) : ∀ r ∈ addRow a l rows, r.2 ≠ [] := by
  induction rows with
  | nil => simp [addRow]
  | cons s rest ih =>
    obtain ⟨b, ls⟩ := s
    simp only [List.mem_cons, forall_eq_or_imp] at h
    rw [addRow]
    split
    · simpa using h
    · split
      · simpa using h.2
      · exact List.forall_mem_cons.2 ⟨h.1, ih h.2⟩

def empty : LabelTable := ⟨[], by simp, by simp⟩

def insert (t : LabelTable) (a : UInt64) (l : Label) : LabelTable :=
  ⟨addRow a l t.rows, addRow_ascending a l t.ascending, addRow_labelled a l t.labelled⟩

def ofList (labels : List (UInt64 × Label)) : LabelTable :=
  labels.foldl (fun t p => t.insert p.1 p.2) empty

/-- The labels of an address, oldest first. -/
def all (t : LabelTable) (a : UInt64) : List Label := (t.rows.lookup a).getD []

/-- The name that came last. -/
def get? (t : LabelTable) (a : UInt64) : Option Text := (t.all a).getLast?.map Label.name

/-- The addresses with more than one label. -/
def collisions (t : LabelTable) : List LabelRow := t.rows.filter fun r => 1 < r.2.length

/-- The number of addresses with labels. -/
def size (t : LabelTable) : Nat := t.rows.length

def isEmpty (t : LabelTable) : Bool := t.rows.isEmpty

@[simp] theorem rows_empty : empty.rows = [] := rfl
@[simp] theorem rows_insert (t : LabelTable) (a : UInt64) (l : Label) :
    (t.insert a l).rows = addRow a l t.rows := rfl
@[simp] theorem all_empty (a : UInt64) : empty.all a = [] := rfl

theorem lookup_eq_none_of_lt {a : UInt64} {rows : List LabelRow} (h : ∀ r ∈ rows, a < r.1) :
    rows.lookup a = none := by
  rw [List.lookup_eq_none_iff]
  intro r hr
  have hne : a ≠ r.1 := UInt64.ne_of_lt (h r hr)
  simpa using hne

theorem lookup_row (b c : UInt64) (ls : List Label) (rest : List LabelRow) :
    ((c, ls) :: rest).lookup b = if b = c then some ls else rest.lookup b := by
  by_cases h : b = c
  · simp [h]
  · have hf : (b == c) = false := by simpa using h
    simp [List.lookup_cons, h, hf]

theorem lookup_addRow (a b : UInt64) (l : Label) {rows : List LabelRow}
    (h : rows.Pairwise (fun r s => r.1 < s.1)) :
    (addRow a l rows).lookup b =
      if b = a then some ((rows.lookup a).getD [] ++ [l]) else rows.lookup b := by
  induction rows with
  | nil => simp [addRow, lookup_row]
  | cons s rest ih =>
    obtain ⟨c, ls⟩ := s
    have hc := List.pairwise_cons.1 h
    rw [addRow]
    split
    · rename_i hac
      have hne : a ≠ c := UInt64.ne_of_lt hac
      have hnone : rest.lookup a = none :=
        lookup_eq_none_of_lt fun r hr => UInt64.lt_trans hac (hc.1 r hr)
      simp [lookup_row, hne, hnone]
    · split
      · rename_i hac
        subst hac
        by_cases hb : b = a <;> simp [lookup_row, hb]
      · rename_i hac
        rw [lookup_row, lookup_row, lookup_row, ih hc.2, if_neg hac]
        by_cases hb : b = c
        · have hca : ¬c = a := fun e => hac e.symm
          simp [hb, hca]
        · simp [hb]

/-- A new label comes last at its own address and changes no other. -/
theorem all_insert (t : LabelTable) (a b : UInt64) (l : Label) :
    (t.insert a l).all b = if b = a then t.all a ++ [l] else t.all b := by
  by_cases hb : b = a <;> simp [all, lookup_addRow _ _ l t.ascending, hb]

end LabelTable
end SectionDump
