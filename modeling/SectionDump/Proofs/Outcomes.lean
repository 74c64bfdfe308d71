/-!
# Outcomes

Steps that can fail, put together: the whole succeeds when each step does, and the
first failure is that of the whole.
-/
namespace SectionDump

variable {ε ε' α β : Type}

theorem bind_eq_ok_iff {x : Except ε α} {f : α → Except ε β} {b : β} :
    x.bind f = .ok b ↔ ∃ a, x = .ok a ∧ f a = .ok b := by
  cases x <;> simp [Except.bind]

theorem map_eq_ok_iff {x : Except ε α} {f : α → β} {b : β} :
    x.map f = .ok b ↔ ∃ a, x = .ok a ∧ f a = b := by
  cases x <;> simp [Except.map]

/-- Something known of a result is known of a success. -/
theorem toOption_map_eq_some_iff {x : Except ε α} {f : α → β} {b : β} :
    x.toOption.map f = some b ↔ ∃ a, x = .ok a ∧ f a = b := by
  cases x <;> simp [Except.toOption]

/-! An outcome that is told for each of two kinds of input, of which one is at hand, is
told exactly by these. -/

section Cases
variable {x : Except ε α} {P : α → Prop} {Q : ε → Prop}

theorem ok_iff_of_cases (hok : ∀ a, P a → x = .ok a) (herror : ∀ e, Q e → x = .error e)
    (h : (∃ a, P a) ∨ ∃ e, Q e) {a : α} : x = .ok a ↔ P a := by
  constructor
  · intro hx
    rcases h with ⟨b, hb⟩ | ⟨e, he⟩
    · rw [hok b hb] at hx
      cases hx
      exact hb
    · rw [herror e he] at hx
      cases hx
  · exact hok a

theorem error_iff_of_cases (hok : ∀ a, P a → x = .ok a) (herror : ∀ e, Q e → x = .error e)
    (h : (∃ a, P a) ∨ ∃ e, Q e) {e : ε} : x = .error e ↔ Q e := by
  constructor
  · intro hx
    rcases h with ⟨b, hb⟩ | ⟨f, hf⟩
    · rw [hok b hb] at hx
      cases hx
    · rw [herror f hf] at hx
      cases hx
      exact hf
  · exact herror e

end Cases
end SectionDump
