/-!
# Sorting

Insertion into a sorted list, over and over. Members that the order does not
tell apart keep their places among each other.
-/
namespace SectionDump.Sorting

variable {α : Type}

/-- Puts a member in front of the first one that it may precede. -/
def insert (le : α → α → Bool) (a : α) : List α → List α
  | [] => [a]
  | b :: rest => if le a b then a :: b :: rest else b :: insert le a rest

def sort (le : α → α → Bool) : List α → List α
  | [] => []
  | a :: rest => insert le a (sort le rest)

@[simp] theorem sort_nil (le : α → α → Bool) : sort le [] = [] := rfl
@[simp] theorem sort_cons (le : α → α → Bool) (a : α) (l : List α) :
    sort le (a :: l) = insert le a (sort le l) := rfl

theorem insert_perm (le : α → α → Bool) (a : α) (l : List α) : (insert le a l).Perm (a :: l) := by
  induction l with
  | nil => exact .refl _
  | cons b rest ih =>
    rw [insert]
    split
    · exact .refl _
    · exact (ih.cons b).trans (.swap a b rest)

/-- Sorting neither loses nor repeats a member. -/
theorem sort_perm (le : α → α → Bool) (l : List α) : (sort le l).Perm l := by
  induction l with
  | nil => exact .refl _
  | cons a rest ih => exact (insert_perm le a _).trans (ih.cons a)

@[simp] theorem mem_sort {le : α → α → Bool} {l : List α} {a : α} : a ∈ sort le l ↔ a ∈ l :=
  (sort_perm le l).mem_iff

theorem insert_pairwise {le : α → α → Bool} (total : ∀ a b, le a b = true ∨ le b a = true)
    (trans : ∀ a b c, le a b = true → le b c = true → le a c = true) (a : α) {l : List α}
    (h : l.Pairwise fun x y => le x y = true) :
    (insert le a l).Pairwise fun x y => le x y = true := by
  induction l with
  | nil => simp [insert]
  | cons b rest ih =>
    rw [List.pairwise_cons] at h
    rw [insert]
    split
    · rename_i hab
      refine List.pairwise_cons.2 ⟨fun x hx => ?_, List.pairwise_cons.2 h⟩
      rcases List.mem_cons.1 hx with rfl | hx
      · exact hab
      · exact trans _ _ _ hab (h.1 x hx)
    · rename_i hab
      refine List.pairwise_cons.2 ⟨fun x hx => ?_, ih h.2⟩
      rcases List.mem_cons.1 ((insert_perm le a rest).mem_iff.1 hx) with rfl | hx
      · exact (total x b).resolve_left hab
      · exact h.1 x hx

/-- A sorted list is sorted, where the order is total and transitive. -/
theorem sort_pairwise {le : α → α → Bool} (total : ∀ a b, le a b = true ∨ le b a = true)
    (trans : ∀ a b c, le a b = true → le b c = true → le a c = true) (l : List α) :
    (sort le l).Pairwise fun x y => le x y = true := by
  induction l with
  | nil => simp
  | cons a rest ih => exact insert_pairwise total trans a ih

end SectionDump.Sorting
