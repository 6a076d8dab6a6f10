/-!
# Histories

A history is the list of what has happened, in order. `Causal P` says that
each event of it satisfied `P` when it happened, given what had happened
before. A history grows at its end (`causal_snoc`).
-/

namespace TC

variable {E : Type} {P : List E → E → Prop} {trace : List E}

/-- Each event satisfies `P` after the events before it. -/
def Causal (P : List E → E → Prop) (trace : List E) : Prop :=
  ∀ before e after, trace = before ++ e :: after → P before e

theorem causal_nil : Causal P [] := by
  intro before e after h
  exact absurd h.symm (List.append_ne_nil_of_right_ne_nil _ (List.cons_ne_nil _ _))

theorem causal_snoc {e : E} : Causal P (trace ++ [e]) ↔ Causal P trace ∧ P trace e := by
  constructor
  · intro h
    refine ⟨fun before e' after heq => h before e' (after ++ [e]) ?_, h trace e [] rfl⟩
    rw [heq, List.append_assoc, List.cons_append]
  · rintro ⟨h, he⟩ before e' after heq
    rcases List.eq_nil_or_concat after with rfl | ⟨after', last, rfl⟩
    · obtain ⟨rfl, he'⟩ := List.append_inj' heq rfl
      cases he'
      exact he
    · rw [List.concat_eq_append, ← List.cons_append, ← List.append_assoc] at heq
      exact h before e' after' (List.append_inj_left' heq rfl)

theorem causal_iff_take : Causal P trace ↔ ∀ i : Fin trace.length, P (trace.take i) (trace.get i) := by
  constructor
  · intro h i
    refine h _ _ (trace.drop (i + 1)) ?_
    rw [List.get_eq_getElem, ← List.drop_eq_getElem_cons, List.take_append_drop]
  · rintro h before e after rfl
    simpa using h ⟨before.length, by simp⟩

instance [∀ before e, Decidable (P before e)] (trace : List E) : Decidable (Causal P trace) :=
  decidable_of_iff _ causal_iff_take.symm

theorem mem_snoc_of_ne {e x : E} (h : x ≠ e) : x ∈ trace ++ [e] ↔ x ∈ trace := by
  simp [h]

/-- What an event needs, if it stays true, has still happened. -/
theorem Causal.of_mem (hP : ∀ before before' e, before ⊆ before' → P before e → P before' e)
    (h : Causal P trace) {e : E} (he : e ∈ trace) : P trace e := by
  obtain ⟨before, after, rfl⟩ := List.append_of_mem he
  exact hP before _ e (List.subset_append_left ..) (h before e after rfl)

end TC
