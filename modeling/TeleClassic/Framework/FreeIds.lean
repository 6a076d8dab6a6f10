import Mathlib.Data.Fintype.Card

/-!
# A stack of free ids

The ids of a finite type are kept in an array: from `head` on those that are
free, each once. `head` is then the number of ids in use. An id is taken from
the top (`FreeIds.take`) and put back there (`FreeIds.give`); putting back one
that is not in use would break both.
-/

namespace TC

variable {α : Type} [Fintype α]

/-- The ids from `head` on are different and free, and `head` is the number of
the ids in use. -/
structure FreeIds (buffer : Int → α) (head : Int) (used : α → Bool) : Prop where
  distinct : ∀ i j, head ≤ i → i < Fintype.card α → head ≤ j → j < Fintype.card α → buffer i = buffer j → i = j
  free : ∀ i, head ≤ i → i < Fintype.card α → used (buffer i) = false
  head_eq : head = (Finset.univ.filter fun a => used a = true).card

namespace FreeIds

variable {buffer : Int → α} {head : Int} {used : α → Bool}

theorem nonneg (h : FreeIds buffer head used) : 0 ≤ head := by
  rw [h.head_eq]
  exact Int.natCast_nonneg _

theorem le_card (h : FreeIds buffer head used) : head ≤ Fintype.card α := by
  rw [h.head_eq]
  exact Int.ofNat_le.mpr (Finset.card_le_univ _)

/-- Nothing is in use, and each id is in the array. -/
theorem init (hbuffer : ∀ i j : Int, 0 ≤ i → i < Fintype.card α → 0 ≤ j → j < Fintype.card α →
    buffer i = buffer j → i = j) : FreeIds buffer 0 fun _ => false where
  distinct := hbuffer
  free _ _ _ := rfl
  head_eq := by simp

variable [DecidableEq α]

/-- The id on top is taken. -/
theorem take (h : FreeIds buffer head used) (hhead : head ≠ Fintype.card α) :
    FreeIds buffer (head + 1) (Function.update used (buffer head) true) := by
  have hlt : head < Fintype.card α := lt_of_le_of_ne h.le_card hhead
  have hfree := h.free head le_rfl hlt
  refine ⟨fun i j hi hi' hj hj' => h.distinct i j (by omega) hi' (by omega) hj', fun i hi hi' => ?_, ?_⟩
  · have hne : buffer i ≠ buffer head := by
      intro heq
      have := h.distinct i head (by omega) hi' le_rfl hlt heq
      omega
    rw [Function.update_of_ne hne]
    exact h.free i (by omega) hi'
  · have hinsert : (Finset.univ.filter fun a => Function.update used (buffer head) true a = true) =
        insert (buffer head) (Finset.univ.filter fun a => used a = true) := by
      ext a
      by_cases ha : a = buffer head <;> simp [ha, Function.update_of_ne]
    have hcard := Finset.card_insert_of_notMem (a := buffer head) (s := Finset.univ.filter fun a => used a = true)
      (by simp [hfree])
    have hhead := h.head_eq
    rw [hinsert]
    omega

/-- An id in use is put back. -/
theorem give (h : FreeIds buffer head used) {a : α} (ha : used a = true) :
    FreeIds (Function.update buffer (head - 1) a) (head - 1) (Function.update used a false) := by
  have hfree : ∀ i, head ≤ i → i < Fintype.card α → buffer i ≠ a := by
    intro i hi hi' heq
    have := h.free i hi hi'
    rw [heq, ha] at this
    cases this
  have herase : (Finset.univ.filter fun b => Function.update used a false b = true) =
      (Finset.univ.filter fun b => used b = true).erase a := by
    ext b
    by_cases hb : b = a <;> simp [hb, Function.update_of_ne]
  refine ⟨fun i j hi hi' hj hj' heq => ?_, fun i hi hi' => ?_, ?_⟩
  · rw [Function.update_apply, Function.update_apply] at heq
    split at heq <;> split at heq
    · omega
    · exact absurd heq.symm (hfree j (by omega) hj')
    · exact absurd heq (hfree i (by omega) hi')
    · exact h.distinct i j (by omega) hi' (by omega) hj' heq
  · have hput := Function.update_apply buffer (head - 1) a i
    split at hput
    · rw [hput]
      exact Function.update_self ..
    · rw [hput, Function.update_of_ne (hfree i (by omega) hi')]
      exact h.free i (by omega) hi'
  · have hmem : a ∈ Finset.univ.filter fun b => used b = true := by simp [ha]
    have hcard := Finset.card_erase_add_one hmem
    have hhead := h.head_eq
    rw [herase]
    omega

end FreeIds

end TC
