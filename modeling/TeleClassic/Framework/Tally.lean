import Mathlib.Algebra.BigOperators.Group.List.Basic
import Mathlib.Tactic.Abel

/-!
# Tallies

`tally φ l` is the sum of `φ` over a list: a count, or the multiset of
everything the entries hold, according to the monoid. A system that keeps a
list of parts and changes one of them at a time changes a tally by what that
part changes (`tally_set`).
-/

namespace TC

variable {α M : Type} [AddCommMonoid M] {l : List α} {φ : α → M} {a : α}

def tally (φ : α → M) (l : List α) : M := (l.map φ).sum

@[simp] theorem tally_nil (φ : α → M) : tally φ [] = 0 := rfl

@[simp] theorem tally_cons (φ : α → M) (a : α) (l : List α) : tally φ (a :: l) = φ a + tally φ l := by
  simp [tally]

theorem tally_append (φ : α → M) (l l' : List α) : tally φ (l ++ l') = tally φ l + tally φ l' := by
  simp [tally]

/-- The entry at an index, and those around it. -/
theorem tally_split (φ : α → M) {i : Nat} (h : l[i]? = some a) :
    tally φ l = tally φ (l.take i) + (φ a + tally φ (l.drop (i + 1))) := by
  obtain ⟨hi, rfl⟩ := List.getElem?_eq_some_iff.mp h
  rw [← tally_cons, ← tally_append, ← List.drop_eq_getElem_cons hi, List.take_append_drop]

/-- Changing one entry from `a` to `b`. -/
theorem tally_set (φ : α → M) {i : Nat} (h : l[i]? = some a) (b : α) :
    tally φ (l.set i b) + φ a = tally φ l + φ b := by
  have hi := (List.getElem?_eq_some_iff.mp h).1
  rw [List.set_eq_take_append_cons_drop, if_pos hi, tally_append, tally_cons, tally_split φ h]
  abel

/-- Changing one entry to one that counts the same. -/
theorem tally_set_of_eq {i : Nat} {b : α} (h : l[i]? = some a) (hφ : φ a = φ b) :
    tally φ (l.set i b) = tally φ l := by
  have hi := (List.getElem?_eq_some_iff.mp h).1
  rw [List.set_eq_take_append_cons_drop, if_pos hi, tally_append, tally_cons, tally_split φ h, hφ]

theorem tally_congr {ψ : α → M} (h : ∀ a ∈ l, φ a = ψ a) : tally φ l = tally ψ l := by
  rw [tally, tally, List.map_congr_left h]

/-- Taking one entry out. -/
theorem tally_erase [DecidableEq α] (φ : α → M) (h : a ∈ l) : φ a + tally φ (l.erase a) = tally φ l :=
  List.sum_map_erase φ h

/-- Taking the entry at an index out. -/
theorem tally_eraseIdx (φ : α → M) {i : Nat} (h : l[i]? = some a) :
    φ a + tally φ (l.eraseIdx i) = tally φ l := by
  rw [List.eraseIdx_eq_take_drop_succ, tally_append, tally_split φ h]
  abel

/-- Entries that count the same. -/
theorem tally_eq_of_forall₂ {l' : List α} (h : List.Forall₂ (fun a b => φ a = φ b) l l') :
    tally φ l = tally φ l' := by
  induction h with
  | nil => rfl
  | cons hab _ ih => rw [tally_cons, tally_cons, hab, ih]

theorem tally_eq_zero (h : ∀ a ∈ l, φ a = 0) : tally φ l = 0 := by
  induction l with
  | nil => rfl
  | cons a l ih =>
    rw [tally_cons, h a List.mem_cons_self, ih fun b hb => h b (List.mem_cons_of_mem _ hb), zero_add]

theorem le_tally (φ : α → Nat) (h : a ∈ l) : φ a ≤ tally φ l := by
  induction l with
  | nil => simp at h
  | cons b l ih =>
    rw [tally_cons]
    rcases List.mem_cons.mp h with rfl | h
    · omega
    · have := ih h; omega

theorem tally_le_length (φ : α → Nat) (hφ : ∀ a, φ a ≤ 1) (l : List α) : tally φ l ≤ l.length := by
  induction l with
  | nil => simp
  | cons a l ih =>
    rw [tally_cons, List.length_cons]
    have := hφ a
    omega

theorem tally_mono {φ ψ : α → Nat} (h : ∀ a, φ a ≤ ψ a) (l : List α) : tally φ l ≤ tally ψ l := by
  induction l with
  | nil => simp
  | cons a l ih =>
    rw [tally_cons, tally_cons]
    have := h a
    omega

end TC
