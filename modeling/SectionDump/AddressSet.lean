/-!
# Sets of addresses

A set is kept as the ascending list of its members, so two sets with the same
members are the same value.
-/
namespace SectionDump

structure AddressSet where
  toList : List UInt64
  ascending : toList.Pairwise (· < ·)
  deriving DecidableEq, Repr

namespace AddressSet

/-- Puts an address at its place in an ascending list, unless it is there. -/
def place (a : UInt64) : List UInt64 → List UInt64
  | [] => [a]
  | b :: rest => if a < b then a :: b :: rest else if a = b then b :: rest else b :: place a rest

@[simp] theorem mem_place {a x : UInt64} {l : List UInt64} : x ∈ place a l ↔ x = a ∨ x ∈ l := by
  induction l with
  | nil => simp [place]
  | cons b rest ih =>
    rw [place]
    split
    · simp
    · split
      · rename_i h; simp [h]
      · simp [ih, or_left_comm]

theorem place_ascending (a : UInt64) {l : List UInt64} (h : l.Pairwise (· < ·)) :
    (place a l).Pairwise (· < ·) := by
  induction l with
  | nil => simp [place]
  | cons b rest ih =>
    rw [List.pairwise_cons] at h
    rw [place]
    split
    · rename_i hab
      simp only [List.pairwise_cons, List.mem_cons]
      exact ⟨fun x hx => hx.elim (fun e => e ▸ hab) fun hx => UInt64.lt_trans hab (h.1 x hx), h⟩
    · split
      · exact List.pairwise_cons.2 h
      · rename_i h1 h2
        have hba : b < a := (UInt64.lt_or_lt_of_ne h2).resolve_left h1
        rw [List.pairwise_cons]
        refine ⟨fun x hx => ?_, ih h.2⟩
        rcases mem_place.1 hx with rfl | hx
        · exact hba
        · exact h.1 x hx

def empty : AddressSet := ⟨[], by simp⟩

def insert (s : AddressSet) (a : UInt64) : AddressSet := ⟨place a s.toList, place_ascending a s.ascending⟩

def ofList (l : List UInt64) : AddressSet := l.foldl insert empty

def contains (s : AddressSet) (a : UInt64) : Bool := s.toList.contains a

def size (s : AddressSet) : Nat := s.toList.length

@[simp] theorem toList_empty : empty.toList = [] := rfl
@[simp] theorem toList_insert (s : AddressSet) (a : UInt64) :
    (s.insert a).toList = place a s.toList := rfl

theorem mem_foldl_insert {l : List UInt64} {s : AddressSet} {x : UInt64} :
    x ∈ (l.foldl insert s).toList ↔ x ∈ s.toList ∨ x ∈ l := by
  induction l generalizing s with
  | nil => simp
  | cons a rest ih =>
    rw [List.foldl_cons, ih, toList_insert, mem_place, List.mem_cons]
    constructor
    · rintro ((h | h) | h)
      · exact .inr (.inl h)
      · exact .inl h
      · exact .inr (.inr h)
    · rintro (h | h | h)
      · exact .inl (.inr h)
      · exact .inl (.inl h)
      · exact .inr h

/-- The members of a set made from a list are those of the list. -/
@[simp] theorem mem_toList_ofList {l : List UInt64} {x : UInt64} :
    x ∈ (ofList l).toList ↔ x ∈ l := by
  simp [ofList, mem_foldl_insert]

@[simp] theorem contains_iff {s : AddressSet} {x : UInt64} : s.contains x = true ↔ x ∈ s.toList := by
  simp [contains]

end AddressSet
end SectionDump
