import Mathlib.Data.Nat.Fib.Basic
import TeleClassic.Framework.LinkedTree

/-!
# Trees that are balanced in height

A tree is `Balanced` if the heights on the two sides of each node differ by one at most, and
the node holds the difference, left less right. `BalancedPath` is the same for the rest of
a tree, by the height of the subtree at its end (`balanced_plug`). Where a subtree has become
too high for its sibling, a rotation gives a balanced tree of the height before
(`Balanced.rotate`, `Balanced.doubleRotate`). The height is at most logarithmic in the number
of nodes (`Balanced.fib_le`).
-/

namespace TC.LinkedTree

variable {C : Type} {bal : C → Int} {d : Side} {a n p t : Nat × C} {x y : AddrTree C} {path : Path C}

def Balanced (bal : C → Int) : AddrTree C → Prop
  | .nil => True
  | .node a l r =>
    bal a.2 = l.height - r.height ∧ (-1 ≤ bal a.2 ∧ bal a.2 ≤ 1) ∧ Balanced bal l ∧ Balanced bal r

def BalancedPath (bal : C → Int) : Nat → Path C → Prop
  | _, [] => True
  | h, f :: path =>
    bal f.value.2 = f.side.sign * (h - f.sibling.height) ∧ (-1 ≤ bal f.value.2 ∧ bal f.value.2 ≤ 1) ∧
      Balanced bal f.sibling ∧ BalancedPath bal (max h f.sibling.height + 1) path

theorem height_branch : (branch d a x y).height = max x.height y.height + 1 := by
  cases d with
  | left => rfl
  | right => exact congrArg (· + 1) (max_comm _ _)

theorem balanced_branch : Balanced bal (branch d a x y) ↔ bal a.2 = d.sign * (x.height - y.height) ∧
    (-1 ≤ bal a.2 ∧ bal a.2 ≤ 1) ∧ Balanced bal x ∧ Balanced bal y := by
  cases d with
  | left => rw [branch, Balanced, Side.sign, one_mul]
  | right => rw [branch, Balanced, Side.sign, neg_one_mul, neg_sub, and_comm (a := Balanced bal y)]

theorem balanced_plug {t : AddrTree C} :
    Balanced bal (plug path t) ↔ Balanced bal t ∧ BalancedPath bal t.height path := by
  induction path generalizing t with
  | nil => exact (and_iff_left trivial).symm
  | cons f path ih =>
    rw [plug, ih, balanced_branch, height_branch, BalancedPath]
    tauto

/-- Another value with the same difference. -/
theorem Balanced.replace {n : Nat} {c c' : C} {x y : AddrTree C} (h : Balanced bal (plug path (branch d (n, c) x y)))
    (hc : bal c' = bal c) : Balanced bal (plug path (branch d (n, c') x y)) := by
  rw [balanced_plug, balanced_branch, height_branch] at h ⊢
  rwa [hc]

/-- A rotation, where the subtree of `n` is too high on its outer side. -/
theorem Balanced.rotate {A B D : AddrTree C} (hN : Balanced bal (branch d n B D)) (n' p' : Nat × C)
    (hA : Balanced bal A) (hheight : (branch d n B D).height = A.height + 2) (houter : bal n.2 = -d.sign)
    (hn' : bal n'.2 = 0) (hp' : bal p'.2 = 0) : Balanced bal (branch d n' (branch d p' A B) D) ∧
      (branch d n' (branch d p' A B) D).height = A.height + 2 := by
  obtain ⟨hn, -, hB, hD⟩ := balanced_branch.mp hN
  rw [height_branch] at hheight
  simp only [balanced_branch, height_branch, hn', hp']
  have heights : B.height = A.height ∧ D.height = A.height + 1 := by
    rcases d.sign_eq with hd | hd <;> rw [hd] at hn houter <;> omega
  obtain ⟨hBA, hDA⟩ := heights
  simp [hBA, hDA, hA, hB, hD]

/-- A double rotation, where the subtree of `n` is too high on its inner side. -/
theorem Balanced.doubleRotate {A B E D : AddrTree C} (hN : Balanced bal (branch d n A (branch d t B E)))
    (n' p' t' : Nat × C) (hD : Balanced bal D)
    (hheight : (branch d n A (branch d t B E)).height = D.height + 2) (hinner : bal n.2 = -d.sign)
    (ht' : bal t'.2 = 0) (hn' : bal n'.2 = if bal t.2 = -d.sign then d.sign else 0)
    (hp' : bal p'.2 = if bal t.2 = d.sign then -d.sign else 0) :
    Balanced bal (branch d t' (branch d n' A B) (branch d p' E D)) ∧
      (branch d t' (branch d n' A B) (branch d p' E D)).height = D.height + 2 := by
  obtain ⟨hn, -, hA, hT⟩ := balanced_branch.mp hN
  obtain ⟨ht, hlimit, hB, hE⟩ := balanced_branch.mp hT
  rw [height_branch] at hheight hn
  simp only [height_branch] at hheight
  simp only [balanced_branch, height_branch, ht', hn', hp', hA, hB, hE, hD, and_true]
  rcases d.sign_eq with hd | hd <;> rw [hd] at hn hinner ht ⊢ <;> split_ifs <;> omega

/-- The number of nodes of a balanced tree grows as fast as the Fibonacci numbers do with its
height. -/
theorem Balanced.fib_le {t : AddrTree C} (h : Balanced bal t) : Nat.fib (t.height + 2) ≤ t.numNodes + 1 := by
  induction t with
  | nil => exact le_rfl
  | node a l r ihl ihr =>
    obtain ⟨hbal, hlimit, hl, hr⟩ := h
    have hsum : Nat.fib (max l.height r.height + 3) ≤ Nat.fib (l.height + 2) + Nat.fib (r.height + 2) := by
      have hmono {i j : Nat} (hij : i ≤ j) : Nat.fib i ≤ Nat.fib j := Nat.fib_mono hij
      rw [Nat.fib_add_two (n := max l.height r.height + 1)]
      rcases le_total l.height r.height with hle | hle
      · rw [max_eq_right hle]
        exact Nat.add_le_add (hmono (by omega)) le_rfl
      · rw [max_eq_left hle, Nat.add_comm]
        exact Nat.add_le_add le_rfl (hmono (by omega))
    have hnodes := Nat.add_le_add (ihl hl) (ihr hr)
    calc Nat.fib (max l.height r.height + 3)
      _ ≤ (l.numNodes + 1) + (r.numNodes + 1) := hsum.trans hnodes
      _ = l.numNodes + r.numNodes + 1 + 1 := by ring

theorem numNodes_eq (t : AddrTree C) : t.numNodes = (inorder t).length := by
  induction t with
  | nil => rfl
  | node a l r ihl ihr =>
    rw [BinaryTree.numNodes, inorder, List.length_append, List.length_cons, ihl, ihr]
    ring

end TC.LinkedTree
