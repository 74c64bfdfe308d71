import Mathlib.Data.List.Dedup
import SectionDump.Image.Query
import SectionDump.Proofs.Building

/-!
# Labelling

Each label is put at the end of its address's row, so a table holds the labels that
were added, sorted by address and otherwise in their order: none is lost and none
is there twice. An image takes the exit points of its metadata first and the entry
points after them, and the newest name at an address is an entry name wherever the
address has one.
-/
namespace SectionDump

namespace LabelTable

/-- What a list of labels gives to an address, in the order of the list. -/
def labelsIn (labels : List (UInt64 × Label)) (a : UInt64) : List Label :=
  (labels.filter fun p => p.1 = a).map Prod.snd

/-- The labels of rows, each with its address. -/
def pairs (rows : List LabelRow) : List (UInt64 × Label) :=
  rows.flatMap fun r => r.2.map fun l => (r.1, l)

theorem labelsIn_cons (b a : UInt64) (l : Label) (rest : List (UInt64 × Label)) :
    labelsIn ((b, l) :: rest) a = if a = b then l :: labelsIn rest a else labelsIn rest a := by
  by_cases h : b = a
  · simp [labelsIn, h]
  · simp [labelsIn, h, Ne.symm h]

theorem labelsIn_append (xs ys : List (UInt64 × Label)) (a : UInt64) :
    labelsIn (xs ++ ys) a = labelsIn xs a ++ labelsIn ys a := by
  simp [labelsIn]

theorem labelsIn_eq_nil_iff {labels : List (UInt64 × Label)} {a : UInt64} :
    labelsIn labels a = [] ↔ a ∉ labels.map Prod.fst := by
  rw [labelsIn, List.map_eq_nil_iff, List.filter_eq_nil_iff]
  constructor
  · intro h hmem
    obtain ⟨p, hp, rfl⟩ := List.mem_map.1 hmem
    exact h p hp (by simp)
  · intro h p hp
    have hne : p.1 ≠ a := fun e => h (e ▸ List.mem_map_of_mem hp)
    simpa using hne

theorem pairs_cons (r : LabelRow) (rest : List LabelRow) :
    pairs (r :: rest) = (r.2.map fun l => (r.1, l)) ++ pairs rest := rfl

/-- One label more, and the others as before. -/
theorem pairs_addRow (a : UInt64) (l : Label) (rows : List LabelRow) :
    (pairs (addRow a l rows)).Perm ((a, l) :: pairs rows) := by
  induction rows with
  | nil => exact .refl _
  | cons r rest ih =>
    obtain ⟨b, ls⟩ := r
    rw [addRow]
    split
    · exact .refl _
    · split
      · rename_i hab
        subst hab
        simp only [pairs_cons, List.map_append, List.map_singleton, List.append_assoc,
          List.singleton_append]
        exact List.perm_middle
      · simp only [pairs_cons]
        exact (ih.append_left _).trans List.perm_middle

theorem all_foldl_insert (t : LabelTable) (labels : List (UInt64 × Label)) (a : UInt64) :
    (labels.foldl (fun t p => t.insert p.1 p.2) t).all a = t.all a ++ labelsIn labels a := by
  induction labels generalizing t with
  | nil => simp [labelsIn]
  | cons p rest ih =>
    obtain ⟨b, l⟩ := p
    rw [List.foldl_cons, ih, all_insert, labelsIn_cons]
    by_cases h : a = b
    · simp [h]
    · simp [h]

theorem pairs_foldl_insert (t : LabelTable) (labels : List (UInt64 × Label)) :
    (pairs (labels.foldl (fun t p => t.insert p.1 p.2) t).rows).Perm
      (pairs t.rows ++ labels) := by
  induction labels generalizing t with
  | nil => simp
  | cons p rest ih =>
    obtain ⟨b, l⟩ := p
    rw [List.foldl_cons]
    have hstep := (pairs_addRow b l t.rows).append_right rest
    exact (ih (t.insert b l)).trans (hstep.trans List.perm_middle.symm)

/-- Each address has its labels of the list, oldest first. -/
theorem all_ofList (labels : List (UInt64 × Label)) (a : UInt64) :
    (ofList labels).all a = labelsIn labels a := by
  rw [ofList, all_foldl_insert, all_empty, List.nil_append]

/-- Nothing of the list is lost, and nothing is there twice. -/
theorem pairs_ofList (labels : List (UInt64 × Label)) :
    (pairs (ofList labels).rows).Perm labels := pairs_foldl_insert empty labels

theorem lookup_of_mem {rows : List LabelRow} (h : rows.Pairwise fun r s => r.1 < s.1)
    {r : LabelRow} (hr : r ∈ rows) : rows.lookup r.1 = some r.2 := by
  induction rows with
  | nil => cases hr
  | cons s rest ih =>
    obtain ⟨c, ls⟩ := s
    rw [List.pairwise_cons] at h
    rw [lookup_row]
    rcases List.mem_cons.1 hr with rfl | hr
    · rw [if_pos rfl]
    · rw [if_neg (UInt64.ne_of_lt (h.1 r hr)).symm]
      exact ih h.2 hr

/-- The rows are the addresses that have labels, each with all of its own. -/
theorem mem_rows_iff (t : LabelTable) {r : LabelRow} :
    r ∈ t.rows ↔ r.2 = t.all r.1 ∧ r.2 ≠ [] := by
  constructor
  · intro hr
    refine ⟨?_, t.labelled r hr⟩
    rw [all, lookup_of_mem t.ascending hr]
    rfl
  · rintro ⟨hall, hne⟩
    cases hlookup : t.rows.lookup r.1 with
    | none =>
      rw [all, hlookup] at hall
      exact absurd hall hne
    | some ls =>
      obtain ⟨front, back, hrows, -⟩ := List.lookup_eq_some_iff.1 hlookup
      rw [all, hlookup] at hall
      rw [hrows, show ls = r.2 from hall.symm]
      simp

theorem mem_addresses_iff (t : LabelTable) {a : UInt64} :
    a ∈ t.rows.map Prod.fst ↔ t.all a ≠ [] := by
  rw [List.mem_map]
  constructor
  · rintro ⟨r, hr, rfl⟩
    obtain ⟨hall, hne⟩ := t.mem_rows_iff.1 hr
    rwa [← hall]
  · intro hne
    exact ⟨(a, t.all a), t.mem_rows_iff.2 ⟨rfl, hne⟩, rfl⟩

theorem addresses_nodup (t : LabelTable) : (t.rows.map Prod.fst).Nodup := by
  rw [List.Nodup, List.pairwise_map]
  exact t.ascending.imp fun h => UInt64.ne_of_lt h

/-- The collisions are the addresses with two labels or more, each with all of them. -/
theorem mem_collisions_iff (t : LabelTable) {r : LabelRow} :
    r ∈ t.collisions ↔ r.2 = t.all r.1 ∧ 2 ≤ (t.all r.1).length := by
  rw [collisions, List.mem_filter, mem_rows_iff, decide_eq_true_eq]
  constructor
  · rintro ⟨⟨hall, -⟩, hmany⟩
    refine ⟨hall, ?_⟩
    rwa [← hall]
  · rintro ⟨hall, hmany⟩
    rw [← hall] at hmany
    exact ⟨⟨hall, List.length_pos_iff.1 (by omega)⟩, hmany⟩

theorem collisions_ascending (t : LabelTable) : t.collisions.Pairwise fun r s => r.1 < s.1 :=
  t.ascending.filter _

/-- A table has as many rows as the list has different addresses. -/
theorem size_ofList (labels : List (UInt64 × Label)) :
    (ofList labels).size = (labels.map Prod.fst).dedup.length := by
  have hmem : ∀ a, a ∈ (ofList labels).rows.map Prod.fst ↔ a ∈ (labels.map Prod.fst).dedup := by
    intro a
    rw [mem_addresses_iff, all_ofList, ne_eq, labelsIn_eq_nil_iff, not_not, List.mem_dedup]
  have hperm := (List.perm_ext_iff_of_nodup (addresses_nodup _) (List.nodup_dedup _)).2 hmem
  rw [size, ← hperm.length_eq, List.length_map]

end LabelTable

/-- The set has the members of the list, in ascending order and each once. -/
structure AddressSet.Collects (s : AddressSet) (l : List UInt64) : Prop where
  mem_iff : ∀ a, a ∈ s.toList ↔ a ∈ l
  ascending : s.toList.Pairwise (· < ·)

theorem AddressSet.collects_ofList (l : List UInt64) : (ofList l).Collects l :=
  ⟨fun _ => mem_toList_ofList, (ofList l).ascending⟩

namespace Metadata

/-- The names that a list of symbols gives to an address, in the order of the list. -/
def namesAt (symbols : List Symbol) (a : UInt64) : List Text :=
  (symbols.filter fun s => s.address = a).map Symbol.name

/-- The labels of an address: its names as an exit point, then those as an entry point. -/
def labelsAt (m : Metadata) (a : UInt64) : List Label :=
  (namesAt m.exitPoints a).map (fun n => ⟨n, .exit⟩) ++
    (namesAt m.entryPoints a).map (fun n => ⟨n, .entry⟩)

theorem namesAt_eq_nil_iff {symbols : List Symbol} {a : UInt64} :
    namesAt symbols a = [] ↔ a ∉ symbols.map Symbol.address := by
  rw [namesAt, List.map_eq_nil_iff, List.filter_eq_nil_iff]
  simp

theorem labelsIn_kind (symbols : List Symbol) (kind : LabelKind) (a : UInt64) :
    LabelTable.labelsIn (symbols.map fun s => (s.address, ⟨s.name, kind⟩)) a =
      (namesAt symbols a).map fun n => ⟨n, kind⟩ := by
  rw [LabelTable.labelsIn, namesAt, List.filter_map, List.map_map, List.map_map]
  rfl

theorem labelsIn_labels (m : Metadata) (a : UInt64) :
    LabelTable.labelsIn m.labels a = m.labelsAt a := by
  rw [labels, LabelTable.labelsIn_append, labelsIn_kind, labelsIn_kind, labelsAt]

theorem addresses_labels (m : Metadata) :
    m.labels.map Prod.fst =
      m.exitPoints.map Symbol.address ++ m.entryPoints.map Symbol.address := by
  simp [labels, Function.comp_def]

theorem labelsAt_eq_nil_iff {m : Metadata} {a : UInt64} :
    m.labelsAt a = [] ↔
      a ∉ m.exitPoints.map Symbol.address ∧ a ∉ m.entryPoints.map Symbol.address := by
  rw [← labelsIn_labels, LabelTable.labelsIn_eq_nil_iff, addresses_labels, List.mem_append, not_or]

/-- The newest label of an address is its last entry name. -/
theorem getLast?_labelsAt_of_entry {m : Metadata} {a : UInt64} {name : Text}
    (h : (namesAt m.entryPoints a).getLast? = some name) :
    (m.labelsAt a).getLast? = some ⟨name, .entry⟩ := by
  rw [labelsAt, List.getLast?_append, List.getLast?_map, h]
  rfl

theorem getLast?_labelsAt_of_exit {m : Metadata} {a : UInt64} {name : Text}
    (hentry : a ∉ m.entryPoints.map Symbol.address)
    (h : (namesAt m.exitPoints a).getLast? = some name) :
    (m.labelsAt a).getLast? = some ⟨name, .exit⟩ := by
  rw [labelsAt, namesAt_eq_nil_iff.2 hentry, List.map_nil, List.append_nil, List.getLast?_map, h]
  rfl

end Metadata

namespace Image

theorem labelFor_eq_ok_iff (image : Image) {a : UInt64} {name : Text} :
    image.labelFor a = .ok name ↔
      ∃ l, (image.labels.all a).getLast? = some l ∧ l.name = name := by
  rw [labelFor, LabelTable.get?]
  cases (image.labels.all a).getLast? with
  | none => simp
  | some l => simp

theorem labelFor_eq_error_iff (image : Image) {a : UInt64} {fault : QueryFault} :
    image.labelFor a = .error fault ↔ fault = .notFound a ∧ image.labels.all a = [] := by
  rw [labelFor, LabelTable.get?, ← List.getLast?_eq_none_iff]
  cases (image.labels.all a).getLast? with
  | none => simp [eq_comm]
  | some l => simp

/-- The image has the labels and the addresses of the metadata, and no others. -/
structure Carries (image : Image) (m : Metadata) : Prop where
  labels_all : ∀ a, image.labels.all a = m.labelsAt a
  labelFor_ok : ∀ a name, image.labelFor a = .ok name ↔
    ∃ l, (m.labelsAt a).getLast? = some l ∧ l.name = name
  /-- The last entry name wins over every exit name. -/
  labelFor_entry : ∀ a name, (Metadata.namesAt m.entryPoints a).getLast? = some name →
    image.labelFor a = .ok name
  /-- An exit name counts only where there is no entry. -/
  labelFor_exit : ∀ a name, a ∉ m.entryPoints.map Symbol.address →
    (Metadata.namesAt m.exitPoints a).getLast? = some name → image.labelFor a = .ok name
  labelFor_error : ∀ a fault, image.labelFor a = .error fault ↔ fault = .notFound a ∧
    a ∉ m.exitPoints.map Symbol.address ∧ a ∉ m.entryPoints.map Symbol.address
  mem_collisions : ∀ a ls, (a, ls) ∈ image.labels.collisions ↔
    ls = m.labelsAt a ∧ 2 ≤ (m.labelsAt a).length
  collisions_ascending : image.labels.collisions.Pairwise fun r s => r.1 < s.1
  labels_size : image.labels.size =
    (m.exitPoints.map Symbol.address ++ m.entryPoints.map Symbol.address).dedup.length
  /-- No label is lost, and none is there twice. -/
  labels_perm : (LabelTable.pairs image.labels.rows).Perm m.labels
  entryPoints : image.entryPoints.Collects (m.entryPoints.map Symbol.address)
  exitPoints : image.exitPoints.Collects (m.exitPoints.map Symbol.address)
  relocations : image.relocations.Collects m.relocations
  functions : image.functions.Collects m.functions
  isRelocation_iff : ∀ a, image.relocations.contains a = true ↔ a ∈ m.relocations
  isFunction_iff : ∀ a, image.functions.contains a = true ↔ a ∈ m.functions

theorem carries_ofArranged (sections : List Section) (h : Section.firstOverlap? sections = none)
    (inhabited : ∀ s ∈ sections, s.isEmpty = false) (m : Metadata) :
    (ofArranged sections h inhabited m).Carries m := by
  have hall : ∀ a, (ofArranged sections h inhabited m).labels.all a = m.labelsAt a := by
    intro a
    exact (LabelTable.all_ofList m.labels a).trans (m.labelsIn_labels a)
  have hok : ∀ a name, (ofArranged sections h inhabited m).labelFor a = .ok name ↔
      ∃ l, (m.labelsAt a).getLast? = some l ∧ l.name = name := by
    intro a name
    rw [labelFor_eq_ok_iff, hall]
  constructor
  case labels_all => exact hall
  case labelFor_ok => exact hok
  case labelFor_entry =>
    intro a name hlast
    exact (hok a name).2 ⟨_, Metadata.getLast?_labelsAt_of_entry hlast, rfl⟩
  case labelFor_exit =>
    intro a name hentry hlast
    exact (hok a name).2 ⟨_, Metadata.getLast?_labelsAt_of_exit hentry hlast, rfl⟩
  case labelFor_error =>
    intro a fault
    rw [labelFor_eq_error_iff, hall, Metadata.labelsAt_eq_nil_iff]
  case mem_collisions =>
    intro a ls
    rw [LabelTable.mem_collisions_iff, hall]
  case collisions_ascending => exact LabelTable.collisions_ascending _
  case labels_size => exact (LabelTable.size_ofList m.labels).trans (by rw [m.addresses_labels])
  case labels_perm => exact LabelTable.pairs_ofList m.labels
  case entryPoints => exact AddressSet.collects_ofList _
  case exitPoints => exact AddressSet.collects_ofList _
  case relocations => exact AddressSet.collects_ofList _
  case functions => exact AddressSet.collects_ofList _
  case isRelocation_iff =>
    intro a
    exact AddressSet.contains_iff.trans AddressSet.mem_toList_ofList
  case isFunction_iff =>
    intro a
    exact AddressSet.contains_iff.trans AddressSet.mem_toList_ofList

/-- Whatever its sections, an image that was built carries its metadata. -/
theorem carries_of_build {files : List (Path × Bytes)} {metadata : Option Metadata}
    {image : Image} (h : build files metadata = .ok image) :
    image.Carries (metadata.getD .empty) := by
  obtain ⟨sections, -, hsections⟩ := build_eq_ok_iff.1 h
  obtain ⟨hnone, rfl⟩ := ofSections_eq_ok_iff.1 hsections
  exact carries_ofArranged _ _ _ _

/-- An address with two exit names and an entry name, and symbols that no section
holds. -/
def sampleMetadata : Metadata where
  arch := some "ppc".toList
  entryPoints := [⟨0x1000, "_start".toList⟩, ⟨0x9000, "far".toList⟩]
  exitPoints := [⟨0x1000, "puts".toList⟩, ⟨0x1004, "exit".toList⟩, ⟨0x1000, "exit".toList⟩]
  relocations := [0x1004, 0x1000, 0x1004]
  functions := []

def sampleFiles : List (Path × Bytes) := [("text-1000-2-0-rx.bin".toList, [0x90, 0xC3])]

theorem carries_of_build_sample :
    ∃ image, build sampleFiles (some sampleMetadata) = .ok image ∧
      image.Carries sampleMetadata ∧
      image.labelFor 0x1000 = .ok "_start".toList := by
  cases h : build sampleFiles (some sampleMetadata) with
  | error fault =>
    have hok : (build sampleFiles (some sampleMetadata)).isOk = true := by decide +kernel
    rw [h] at hok
    cases hok
  | ok image =>
    have hcarries := carries_of_build h
    exact ⟨image, rfl, hcarries, hcarries.labelFor_entry _ _ (by decide)⟩

end Image
end SectionDump
