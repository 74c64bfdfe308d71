import SectionDump.Proofs.Labelling

/-!
# Colliding labels

A label either opens the row of its address or collides with the newest label there.
So the labels of a run of insertions are as many as the rows that they open and the
collisions that are reported, and what the table shows of an address is the labels
that were given to it.
-/
namespace SectionDump.LabelTable

/-! ## One label more -/

theorem size_insert_of_all_eq_nil {t : LabelTable} {a : UInt64} (h : t.all a = []) (l : Label) :
    (t.insert a l).size = t.size + 1 := by
  have hnew : a ∉ t.rows.map Prod.fst := fun hmem => t.mem_addresses_iff.1 hmem h
  have hmem : ∀ b, b ∈ (t.insert a l).rows.map Prod.fst ↔ b ∈ a :: t.rows.map Prod.fst := by
    intro b
    rw [mem_addresses_iff, all_insert, List.mem_cons, mem_addresses_iff]
    by_cases hb : b = a <;> simp [hb]
  have hperm := (List.perm_ext_iff_of_nodup (t.insert a l).addresses_nodup
    (List.nodup_cons.2 ⟨hnew, t.addresses_nodup⟩)).2 hmem
  simpa [size] using hperm.length_eq

theorem size_insert_of_all_ne_nil {t : LabelTable} {a : UInt64} (h : t.all a ≠ []) (l : Label) :
    (t.insert a l).size = t.size := by
  have hmem : ∀ b, b ∈ (t.insert a l).rows.map Prod.fst ↔ b ∈ t.rows.map Prod.fst := by
    intro b
    rw [mem_addresses_iff, all_insert, mem_addresses_iff]
    by_cases hb : b = a <;> simp [hb, h]
  have hperm := (List.perm_ext_iff_of_nodup (t.insert a l).addresses_nodup
    t.addresses_nodup).2 hmem
  simpa [size] using hperm.length_eq

/-- A label makes a row or a collision. -/
theorem insertEvents_cases (t : LabelTable) (a : UInt64) (l : Label) :
    (t.insertEvents a l = [] ∧ (t.insert a l).size = t.size + 1) ∨
      ∃ previous, t.insertEvents a l = [.labelCollision a l previous] ∧
        (t.all a).getLast? = some previous ∧ (t.insert a l).size = t.size := by
  cases hlast : (t.all a).getLast? with
  | none =>
    have hnil := List.getLast?_eq_none_iff.1 hlast
    exact .inl ⟨by rw [insertEvents, hlast], size_insert_of_all_eq_nil hnil l⟩
  | some previous =>
    have hne : t.all a ≠ [] := by
      intro hnil
      rw [hnil] at hlast
      cases hlast
    exact .inr ⟨previous, by rw [insertEvents, hlast], rfl, size_insert_of_all_ne_nil hne l⟩

/-! ## Runs of labels -/

/-- The labels that are put in are as many as the new rows and the collisions. -/
theorem length_addEvents (t : LabelTable) (labels : List (UInt64 × Label)) :
    (t.addEvents labels).length + (labels.foldl (fun t p => t.insert p.1 p.2) t).size =
      t.size + labels.length := by
  induction labels generalizing t with
  | nil => simp [addEvents]
  | cons p rest ih =>
    obtain ⟨a, l⟩ := p
    have hrest := ih (t.insert a l)
    simp only [addEvents, List.foldl_cons, List.length_append, List.length_cons]
    rcases t.insertEvents_cases a l with ⟨hevents, hsize⟩ | ⟨previous, hevents, -, hsize⟩
    · rw [hevents, List.length_nil]
      omega
    · rw [hevents, List.length_singleton]
      omega

theorem exists_of_mem_addEvents {t : LabelTable} {labels : List (UInt64 × Label)} {e : Event}
    (h : e ∈ t.addEvents labels) :
    ∃ a l previous, e = .labelCollision a l previous ∧ (a, l) ∈ labels := by
  induction labels generalizing t with
  | nil => cases h
  | cons p rest ih =>
    obtain ⟨b, k⟩ := p
    rw [addEvents, List.mem_append] at h
    rcases h with h | h
    · rcases t.insertEvents_cases b k with ⟨hevents, -⟩ | ⟨previous, hevents, -⟩
      · rw [hevents] at h
        cases h
      · rw [hevents, List.mem_singleton] at h
        exact ⟨b, k, previous, h, List.mem_cons_self⟩
    · obtain ⟨a, l, previous, he, hmem⟩ := ih h
      exact ⟨a, l, previous, he, List.mem_cons_of_mem _ hmem⟩

/-- The table shows the labels that were put in, one after another, and no others. -/
structure Keeps (t : LabelTable) (labels : List (UInt64 × Label)) : Prop where
  all_eq : ∀ a, t.all a = labelsIn labels a
  get?_eq : ∀ a, t.get? a = (labelsIn labels a).getLast?.map Label.name
  get?_eq_none_iff : ∀ a, t.get? a = none ↔ t.all a = []
  mem_collisions_iff : ∀ a ls, (a, ls) ∈ t.collisions ↔ ls = t.all a ∧ 2 ≤ (t.all a).length
  collisions_ascending : t.collisions.Pairwise fun r s => r.1 < s.1
  size_eq : t.size = (labels.map Prod.fst).dedup.length
  isEmpty_iff : t.isEmpty = true ↔ labels = []
  labelled : ∀ r ∈ t.rows, r.2 ≠ []

theorem isEmpty_iff_size (t : LabelTable) : t.isEmpty = true ↔ t.size = 0 := by
  rw [isEmpty, size, List.isEmpty_iff, List.length_eq_zero_iff]

theorem keeps_ofList (labels : List (UInt64 × Label)) : (ofList labels).Keeps labels := by
  constructor
  case all_eq => exact all_ofList labels
  case get?_eq =>
    intro a
    rw [get?, all_ofList]
  case get?_eq_none_iff =>
    intro a
    rw [get?, Option.map_eq_none_iff, List.getLast?_eq_none_iff]
  case mem_collisions_iff => exact fun a ls => mem_collisions_iff _
  case collisions_ascending => exact collisions_ascending _
  case size_eq => exact size_ofList labels
  case isEmpty_iff =>
    rw [isEmpty_iff_size, size_ofList, List.length_eq_zero_iff, List.dedup_eq_nil,
      List.map_eq_nil_iff]
  case labelled => exact (ofList labels).labelled

/-- Whatever labels are put into an empty table one after another, it keeps all of them,
and reports as many collisions as there are labels beyond the first of each address. -/
theorem keeps_and_reports (labels : List (UInt64 × Label)) :
    (ofList labels).Keeps labels ∧
      (∀ e ∈ empty.addEvents labels,
        ∃ a l previous, e = .labelCollision a l previous ∧ (a, l) ∈ labels) ∧
      (empty.addEvents labels).length + (ofList labels).size = labels.length := by
  refine ⟨keeps_ofList labels, fun e he => exists_of_mem_addEvents he, ?_⟩
  have hlength := length_addEvents empty labels
  rwa [← ofList, show empty.size = 0 from rfl, Nat.zero_add] at hlength

end SectionDump.LabelTable
