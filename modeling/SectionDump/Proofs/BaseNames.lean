import SectionDump.Path

/-!
# Base names

Names are found slash by slash, so the last name of a path does not depend on
what stands before the last slash. Only a path that has no last name stands for
itself, and then its base name may hold slashes.
-/
namespace SectionDump.Path

/-- A name of a file: it says something and does not lead up. -/
structure Proper (name : Text) : Prop where
  slash_not_mem : '/' ∉ name
  ne_nil : name ≠ []
  ne_here : name ≠ hereName
  ne_parent : name ≠ parentName

/-- Names of one directory after those of the other. -/
theorem names_append_slash (d p : Path) : names (d ++ '/' :: p) = names d ++ names p := by
  simp [names, List.splitOn_append_cons_self]

theorem names_of_proper {name : Text} (h : Proper name) : names name = [name] := by
  rw [names, List.splitOn_eq_singleton h.slash_not_mem]
  simp [h.ne_nil, h.ne_here]

theorem fileName?_of_proper {name : Text} (h : Proper name) : fileName? name = some name := by
  simp [fileName?, names_of_proper h, h.ne_parent]

/-- What comes before the last slash does not matter. -/
theorem fileName?_append_slash (d : Path) {name : Text} (h : Proper name) :
    fileName? (d ++ '/' :: name) = some name := by
  simp [fileName?, names_append_slash, names_of_proper h, h.ne_parent]

/-- The last name of an entry's path is its name, whatever the directory's path. -/
theorem fileName?_child (root : Path) {name : Text} (h : Proper name) :
    fileName? (child root name) = some name := by
  rw [child]
  split
  · exact fileName?_of_proper h
  · rename_i hlast
    obtain ⟨r, rfl⟩ := List.getLast?_eq_some_iff.1 hlast
    rw [List.append_assoc, List.singleton_append]
    exact fileName?_append_slash r h
  · exact fileName?_append_slash root h

theorem proper_of_fileName? {p : Path} {name : Text} (h : fileName? p = some name) :
    Proper name := by
  obtain ⟨hlast, hparent⟩ := Option.filter_eq_some_iff.1 h
  have hmem : name ∈ names p := List.mem_of_getLast? hlast
  rw [names, List.mem_filter] at hmem
  have hsays := hmem.2
  simp only [ne_eq, decide_eq_true_eq] at hsays hparent
  exact ⟨Text.not_mem_of_mem_splitOn hmem.1, hsays.1, hsays.2, hparent⟩

theorem baseName_of_fileName? {p : Path} {name : Text} (h : fileName? p = some name) :
    baseName p = name := by
  simp [baseName, h]

theorem baseName_of_fileName?_eq_none {p : Path} (h : fileName? p = none) : baseName p = p := by
  simp [baseName, h]

/-- What holds no slash is the name of a file, or one of three other texts. -/
theorem proper_of_slash_not_mem {name : Text} (h : '/' ∉ name) :
    name = [] ∨ name = hereName ∨ name = parentName ∨ Proper name := by
  by_cases hnil : name = []
  · exact .inl hnil
  · by_cases hhere : name = hereName
    · exact .inr (.inl hhere)
    · by_cases hparent : name = parentName
      · exact .inr (.inr (.inl hparent))
      · exact .inr (.inr (.inr ⟨h, hnil, hhere, hparent⟩))

/-- A path has no slash, or a last one. -/
theorem slash_not_mem_or_append (p : Path) :
    '/' ∉ p ∨ ∃ d name, p = d ++ '/' :: name ∧ '/' ∉ name := by
  induction p with
  | nil => simp
  | cons c r ih =>
    rcases ih with h | ⟨d, name, rfl, h⟩
    · by_cases hc : c = '/'
      · exact .inr ⟨[], r, by simp [hc], h⟩
      · exact .inl (by simp [Ne.symm hc, h])
    · exact .inr ⟨c :: d, name, by simp, h⟩

end SectionDump.Path
