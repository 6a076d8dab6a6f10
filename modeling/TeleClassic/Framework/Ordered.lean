import Mathlib.Order.Lattice
import TeleClassic.Framework.LinkedTree

/-!
# Trees in order

A tree is `Ordered` if its values are in order from left to right. A search goes down a path;
the value it looks for, if it is in the tree, is in the subtree at the end of the path, as all
other values are less or greater (`Around`). At the end of the search the value can be put in
(`Around.insert`).
-/

namespace TC.LinkedTree

/-- A comparison of keys is that of their places in an order. -/
structure Compares {K O : Type} [LinearOrder O] (cmp : K → K → Int) (ord : K → O) : Prop where
  lt : ∀ a b, cmp a b < 0 ↔ ord a < ord b
  gt : ∀ a b, 0 < cmp a b ↔ ord b < ord a

theorem Compares.eq {K O : Type} [LinearOrder O] {cmp : K → K → Int} {ord : K → O} (h : Compares cmp ord) {a b : K}
    (hlt : ¬ cmp a b < 0) (hgt : ¬ 0 < cmp a b) : ord a = ord b :=
  le_antisymm (not_lt.mp fun hab => hgt ((h.gt _ _).mpr hab)) (not_lt.mp fun hab => hlt ((h.lt _ _).mpr hab))

/-- The keys that the comparison takes for the same. -/
theorem Compares.same {K O : Type} [LinearOrder O] {cmp : K → K → Int} {ord : K → O} (h : Compares cmp ord) (a b : K) :
    (cmp a b == 0) = true ↔ ord a = ord b := by
  have hlt := h.lt a b
  have hgt := h.gt a b
  rw [beq_iff_eq]
  constructor
  · intro heq
    exact h.eq (by omega) (by omega)
  · intro heq
    rw [heq] at hlt hgt
    have hnot : ¬ ord b < ord b := lt_irrefl _
    have hle : ¬ cmp a b < 0 := fun hab => hnot (hlt.mp hab)
    have hge : ¬ 0 < cmp a b := fun hab => hnot (hgt.mp hab)
    omega

variable {C O : Type} [LinearOrder O] {ord : C → O} {k : O} {a : Nat × C} {path : Path C} {l r t : AddrTree C}

def Ordered (ord : C → O) (t : AddrTree C) : Prop := (inorder t).Pairwise fun a b => ord a.2 < ord b.2

/-- What is before the end of the path is less than `k`, and what is after it is greater. -/
structure Around (ord : C → O) (k : O) (path : Path C) : Prop where
  before : ∀ a ∈ before path, ord a.2 < k
  after : ∀ a ∈ after path, k < ord a.2

theorem Around.nil : Around ord k [] := ⟨nofun, nofun⟩

theorem ordered_node : Ordered ord (.node a l r) ↔ Ordered ord l ∧ Ordered ord r ∧
    (∀ b ∈ inorder l, ord b.2 < ord a.2) ∧ ∀ b ∈ inorder r, ord a.2 < ord b.2 := by
  rw [Ordered, inorder, List.pairwise_append, List.pairwise_cons]
  constructor
  · rintro ⟨hl, ⟨hr, hr'⟩, hlr⟩
    exact ⟨hl, hr', fun b hb => hlr b hb a List.mem_cons_self, hr⟩
  · rintro ⟨hl, hr', hla, hr⟩
    refine ⟨hl, ⟨hr, hr'⟩, fun b hb c hc => ?_⟩
    rcases List.mem_cons.mp hc with rfl | hc
    · exact hla b hb
    · exact (hla b hb).trans (hr c hc)

theorem Ordered.of_plug (h : Ordered ord (plug path t)) : Ordered ord t := by
  rw [Ordered, inorder_plug] at h
  exact (List.pairwise_append.mp (List.pairwise_append.mp h).1).2.1

theorem Around.left (h : Around ord k path) (ho : Ordered ord (.node a l r)) (hk : k < ord a.2) :
    Around ord k (⟨.left, a, r⟩ :: path) := by
  obtain ⟨-, -, -, hr⟩ := ordered_node.mp ho
  refine ⟨?_, fun b hb => ?_⟩
  · simpa [LinkedTree.before] using h.before
  · simp only [LinkedTree.after, if_true, List.cons_append, List.mem_cons, List.mem_append] at hb
    obtain rfl | hb | hb := hb
    · exact hk
    · exact hk.trans (hr b hb)
    · exact h.after b hb

theorem Around.right (h : Around ord k path) (ho : Ordered ord (.node a l r)) (hk : ord a.2 < k) :
    Around ord k (⟨.right, a, l⟩ :: path) := by
  obtain ⟨-, -, hl, -⟩ := ordered_node.mp ho
  refine ⟨fun b hb => ?_, ?_⟩
  · simp only [LinkedTree.before, reduceCtorEq, if_false, List.mem_append, List.mem_singleton] at hb
    obtain hb | hb | rfl := hb
    · exact h.before b hb
    · exact (hl b hb).trans hk
    · exact hk
  · simpa [LinkedTree.after] using h.after

/-- A value in its place. -/
theorem Around.insert {c : C} {n : Nat} (h : Around ord (ord c) path) (ho : Ordered ord (plug path .nil)) :
    Ordered ord (plug path (.node (n, c) .nil .nil)) := by
  rw [Ordered, inorder_plug, inorder, List.append_nil, List.pairwise_append] at ho
  obtain ⟨hbefore, hafter, hacross⟩ := ho
  rw [Ordered, inorder_plug]
  simp only [inorder, List.nil_append, List.append_assoc, List.singleton_append, List.pairwise_append,
    List.pairwise_cons]
  refine ⟨hbefore, ⟨h.after, hafter⟩, fun b hb e he => ?_⟩
  rcases List.mem_cons.mp he with rfl | he
  · exact h.before b hb
  · exact hacross b hb e he

/-- Another value of the same place. -/
theorem Ordered.replace {c c' : C} {n : Nat} (h : Ordered ord (plug path (.node (n, c) l r))) (hc : ord c' = ord c) :
    Ordered ord (plug path (.node (n, c') l r)) := by
  rw [Ordered, ← List.pairwise_map (f := fun a : Nat × C => ord a.2) (R := (· < ·))] at h ⊢
  simp only [inorder_plug, inorder, List.map_append, List.map_cons, hc] at h ⊢
  exact h

end TC.LinkedTree
