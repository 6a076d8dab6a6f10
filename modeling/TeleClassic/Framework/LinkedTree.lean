import Mathlib.Data.List.Nodup
import Mathlib.Data.List.Perm.Basic
import Mathlib.Data.Tree.Basic
import Mathlib.Logic.Function.Basic
import Mathlib.Tactic.Common

/-!
# Binary trees of nodes that are linked

The nodes of a tree are in a memory, each with pointers to its children and to its
parent. `Rep m p t` says that the tree `t`, whose values have the address of their node,
is in the memory `m` below a parent `p`; `Links m t` leaves the parents out. A subtree is
seen in its place through the `Path` to it: `RepPath m hole path` says that the rest of the
tree is in the memory, around a pointer `hole` (`rep_plug`). What is in the memory depends
on the nodes of the tree only (`Rep.congr`, `RepPath.congr`); a subtree is moved below
another parent by `Rep.adopt`, and another one is put in its place by `RepPath.relink`.
-/

namespace TC.LinkedTree

/-- The address of a node, or `NULL`. -/
abbrev Ptr := Option Nat

inductive Side where
  | left
  | right
deriving DecidableEq, Repr

def Side.other : Side → Side
  | .left => .right
  | .right => .left

@[simp] theorem Side.other_other (d : Side) : d.other.other = d := by cases d <;> rfl

/-- What a side that is higher by one adds to the height on the left less that on the right. -/
def Side.sign : Side → Int
  | .left => 1
  | .right => -1

@[simp] theorem Side.sign_other (d : Side) : d.other.sign = -d.sign := by cases d <;> rfl

theorem Side.sign_eq (d : Side) : d.sign = 1 ∨ d.sign = -1 := by cases d <;> simp [Side.sign]

structure Node (C : Type) where
  cell : C
  left : Ptr
  right : Ptr
  parent : Ptr

variable {C : Type}

namespace Node

def child (d : Side) (n : Node C) : Ptr :=
  match d with
  | .left => n.left
  | .right => n.right

def setChild (d : Side) (v : Ptr) (n : Node C) : Node C :=
  match d with
  | .left => { n with left := v }
  | .right => { n with right := v }

def setParent (v : Ptr) (n : Node C) : Node C := { n with parent := v }

def setCell (c : C) (n : Node C) : Node C := { n with cell := c }

/-- The node with the child `x` on the side `d` and `y` on the other one. -/
def of (d : Side) (c : C) (x y p : Ptr) : Node C :=
  match d with
  | .left => ⟨c, x, y, p⟩
  | .right => ⟨c, y, x, p⟩

variable {d : Side} {c c' : C} {x y p v : Ptr}

@[simp] theorem child_of : (of d c x y p).child d = x := by cases d <;> rfl

@[simp] theorem child_other_of : (of d c x y p).child d.other = y := by cases d <;> rfl

@[simp] theorem parent_of : (of d c x y p).parent = p := by cases d <;> rfl

@[simp] theorem cell_of : (of d c x y p).cell = c := by cases d <;> rfl

@[simp] theorem setChild_of : (of d c x y p).setChild d v = of d c v y p := by cases d <;> rfl

@[simp] theorem setChild_other_of : (of d c x y p).setChild d.other v = of d c x v p := by cases d <;> rfl

@[simp] theorem setParent_of : (of d c x y p).setParent v = of d c x y v := by cases d <;> rfl

@[simp] theorem setCell_of : (of d c x y p).setCell c' = of d c' x y p := by cases d <;> rfl

end Node

/-! ## Trees -/

/-- A tree of values, each with the address of its node. -/
abbrev AddrTree (C : Type) := BinaryTree (Nat × C)

/-- The tree with `x` on the side `d` and `y` on the other one. -/
def branch (d : Side) (a : Nat × C) (x y : AddrTree C) : AddrTree C :=
  match d with
  | .left => .node a x y
  | .right => .node a y x

variable {x y : AddrTree C} {a : Nat × C} {d : Side}

theorem branch_other : branch d.other a x y = branch d a y x := by
  cases d <;> rfl

theorem exists_branch (d : Side) {t : AddrTree C} (h : t ≠ .nil) : ∃ a x y, t = branch d a x y := by
  cases t with
  | nil => exact absurd rfl h
  | node a l r =>
    cases d with
    | left => exact ⟨a, l, r, rfl⟩
    | right => exact ⟨a, r, l, rfl⟩

/-- The pointer to a tree. -/
def top : AddrTree C → Ptr
  | .nil => none
  | .node a _ _ => some a.1

@[simp] theorem top_nil : top (.nil : AddrTree C) = none := rfl

@[simp] theorem top_branch : top (branch d a x y) = some a.1 := by
  cases d <;> rfl

/-- The values from left to right. -/
def inorder : AddrTree C → List (Nat × C)
  | .nil => []
  | .node a l r => inorder l ++ a :: inorder r

def addrs (t : AddrTree C) : List Nat := (inorder t).map (·.1)

theorem mem_addrs_branch {b : Nat} : b ∈ addrs (branch d a x y) ↔ b = a.1 ∨ b ∈ addrs x ∨ b ∈ addrs y := by
  cases d <;> simp only [branch, addrs, inorder, List.map_append, List.map_cons, List.mem_append, List.mem_cons] <;>
    tauto

theorem addrs_branch : (addrs (branch d a x y)).Perm (a.1 :: (addrs x ++ addrs y)) := by
  cases d with
  | left => simp [branch, addrs, inorder]
  | right =>
    have hperm : (addrs y ++ a.1 :: addrs x).Perm (a.1 :: (addrs x ++ addrs y)) :=
      List.perm_middle.trans (List.perm_append_comm.cons a.1)
    simpa [branch, addrs, inorder] using hperm

/-- The addresses of a tree are different. -/
theorem nodup_branch : (addrs (branch d a x y)).Nodup ↔
    (a.1 ∉ addrs x ∧ a.1 ∉ addrs y) ∧ (addrs x).Nodup ∧ (addrs y).Nodup ∧ (addrs x).Disjoint (addrs y) := by
  rw [addrs_branch.nodup_iff, List.nodup_cons, List.mem_append, not_or, List.nodup_append']

theorem mem_addrs_of_top {t : AddrTree C} {a : Nat} (h : top t = some a) : a ∈ addrs t := by
  cases t with
  | nil => cases h
  | node b l r =>
    obtain rfl := Option.some.inj h
    simp [addrs, inorder]

/-- A step of a path: the node above, and its subtree on the other side. -/
structure Frame (C : Type) where
  side : Side
  value : Nat × C
  sibling : AddrTree C

/-- A path to a subtree, from the subtree up. -/
abbrev Path (C : Type) := List (Frame C)

def plug : Path C → AddrTree C → AddrTree C
  | [], t => t
  | f :: path, t => plug path (branch f.side f.value t f.sibling)

/-- The pointer to the node above. -/
def above (path : Path C) : Ptr := path.head?.map (·.value.1)

variable {f : Frame C}

@[simp] theorem above_cons {path : Path C} : above (f :: path) = some f.value.1 := rfl

/-- The values before the subtree, and after it. -/
def before : Path C → List (Nat × C)
  | [] => []
  | f :: path => before path ++ if f.side = .left then [] else inorder f.sibling ++ [f.value]

def after : Path C → List (Nat × C)
  | [] => []
  | f :: path => (if f.side = .left then f.value :: inorder f.sibling else []) ++ after path

theorem inorder_plug (path : Path C) (t : AddrTree C) : inorder (plug path t) = before path ++ inorder t ++ after path := by
  induction path generalizing t with
  | nil => simp [plug, before, after]
  | cons f path ih =>
    obtain ⟨side, value, sibling⟩ := f
    rw [plug, ih, before, after]
    cases side <;> simp [branch, inorder]

def pathAddrs (path : Path C) : List Nat := (before path).map (·.1) ++ (after path).map (·.1)

theorem pathAddrs_cons {path : Path C} :
    (pathAddrs (f :: path)).Perm (f.value.1 :: (addrs f.sibling ++ pathAddrs path)) := by
  obtain ⟨side, value, sibling⟩ := f
  cases side with
  | left =>
    simp only [pathAddrs, before, after, if_true, List.append_nil, List.map_append, List.map_cons, List.cons_append]
    exact List.perm_middle.trans (List.perm_append_comm_assoc _ _ _ |>.cons _)
  | right =>
    simp only [pathAddrs, before, after, reduceCtorEq, if_false, List.nil_append, List.map_append, List.map_cons,
      List.map_nil, List.append_assoc, List.singleton_append]
    rw [← List.append_assoc]
    refine List.perm_middle.trans (List.Perm.cons _ ?_)
    rw [List.append_assoc]
    exact List.perm_append_comm_assoc _ _ _

theorem mem_pathAddrs_cons {path : Path C} {b : Nat} :
    b ∈ pathAddrs (f :: path) ↔ b = f.value.1 ∨ b ∈ addrs f.sibling ∨ b ∈ pathAddrs path := by
  rw [pathAddrs_cons.mem_iff, List.mem_cons, List.mem_append]

theorem nodup_pathAddrs_cons {path : Path C} : (pathAddrs (f :: path)).Nodup ↔
    (f.value.1 ∉ addrs f.sibling ∧ f.value.1 ∉ pathAddrs path) ∧ (addrs f.sibling).Nodup ∧ (pathAddrs path).Nodup ∧
      (addrs f.sibling).Disjoint (pathAddrs path) := by
  rw [pathAddrs_cons.nodup_iff, List.nodup_cons, List.mem_append, not_or, List.nodup_append']

theorem addrs_plug (path : Path C) (t : AddrTree C) : (addrs (plug path t)).Perm (addrs t ++ pathAddrs path) := by
  rw [addrs, inorder_plug, List.map_append, List.map_append, pathAddrs, addrs, ← List.append_assoc]
  exact List.perm_append_comm.append_right _

theorem nodup_plug {path : Path C} {t : AddrTree C} : (addrs (plug path t)).Nodup ↔
    (addrs t).Nodup ∧ (pathAddrs path).Nodup ∧ (addrs t).Disjoint (pathAddrs path) := by
  rw [(addrs_plug path t).nodup_iff, List.nodup_append']

theorem length_le_pathAddrs (path : Path C) : path.length ≤ (pathAddrs path).length := by
  induction path with
  | nil => exact Nat.le_refl _
  | cons f path ih =>
    rw [pathAddrs_cons.length_eq, List.length_cons, List.length_cons, List.length_append]
    omega

/-! ## Trees in memory -/

/-- The nodes by their addresses. -/
abbrev Memory (C : Type) := Nat → Option (Node C)

/-- The tree is in the memory, and the nodes know their parents. -/
def Rep (m : Memory C) (p : Ptr) : AddrTree C → Prop
  | .nil => True
  | .node a l r => m a.1 = some ⟨a.2, top l, top r, p⟩ ∧ Rep m (some a.1) l ∧ Rep m (some a.1) r

/-- The tree is in the memory as far as it is reached from above. -/
def Links (m : Memory C) : AddrTree C → Prop
  | .nil => True
  | .node a l r => (∃ p, m a.1 = some ⟨a.2, top l, top r, p⟩) ∧ Links m l ∧ Links m r

/-- The nodes above a subtree to which `hole` is the pointer. -/
def RepPath (m : Memory C) (hole : Ptr) : Path C → Prop
  | [] => True
  | f :: path => m f.value.1 = some (.of f.side f.value.2 hole (top f.sibling) (above path)) ∧
      Rep m (some f.value.1) f.sibling ∧ RepPath m (some f.value.1) path

variable {m m' : Memory C} {p p' hole hole' : Ptr} {t : AddrTree C} {path : Path C}

theorem rep_branch : Rep m p (branch d a x y) ↔
    m a.1 = some (.of d a.2 (top x) (top y) p) ∧ Rep m (some a.1) x ∧ Rep m (some a.1) y := by
  cases d with
  | left => exact Iff.rfl
  | right => exact and_congr_right fun _ => and_comm

theorem Rep.links (h : Rep m p t) : Links m t := by
  induction t generalizing p with
  | nil => trivial
  | node a l r ihl ihr => exact ⟨⟨p, h.1⟩, ihl h.2.1, ihr h.2.2⟩

theorem Rep.congr (h : Rep m p t) (hm : ∀ a ∈ addrs t, m' a = m a) : Rep m' p t := by
  induction t generalizing p with
  | nil => trivial
  | node a l r ihl ihr =>
    have hmem {b : Nat} := mem_addrs_branch (d := .left) (a := a) (x := l) (y := r) (b := b)
    refine ⟨(hm a.1 (hmem.mpr (.inl rfl))).trans h.1, ihl h.2.1 fun b hb => ?_, ihr h.2.2 fun b hb => ?_⟩
    · exact hm b (hmem.mpr (.inr (.inl hb)))
    · exact hm b (hmem.mpr (.inr (.inr hb)))

theorem Links.congr (h : Links m t) (hm : ∀ a ∈ addrs t, m' a = m a) : Links m' t := by
  induction t with
  | nil => trivial
  | node a l r ihl ihr =>
    have hmem {b : Nat} := mem_addrs_branch (d := .left) (a := a) (x := l) (y := r) (b := b)
    obtain ⟨⟨p, ha⟩, hl, hr⟩ := h
    refine ⟨⟨p, (hm a.1 (hmem.mpr (.inl rfl))).trans ha⟩, ihl hl fun b hb => ?_, ihr hr fun b hb => ?_⟩
    · exact hm b (hmem.mpr (.inr (.inl hb)))
    · exact hm b (hmem.mpr (.inr (.inr hb)))

theorem RepPath.congr (h : RepPath m hole path) (hm : ∀ a ∈ pathAddrs path, m' a = m a) : RepPath m' hole path := by
  induction path generalizing hole with
  | nil => trivial
  | cons f path ih =>
    refine ⟨(hm _ (mem_pathAddrs_cons.mpr (.inl rfl))).trans h.1, h.2.1.congr fun b hb => ?_, ih h.2.2 fun b hb => ?_⟩
    · exact hm b (mem_pathAddrs_cons.mpr (.inr (.inl hb)))
    · exact hm b (mem_pathAddrs_cons.mpr (.inr (.inr hb)))

/-- A subtree below another parent. -/
theorem Rep.adopt (h : Rep m p t) (hnodup : (addrs t).Nodup)
    (hm : ∀ a ∈ addrs t, m' a = if top t = some a then (m a).map (Node.setParent p') else m a) : Rep m' p' t := by
  cases t with
  | nil => trivial
  | node a l r =>
    obtain ⟨ha, hl, hr⟩ := h
    obtain ⟨hnot, -⟩ := (nodup_branch (d := .left)).mp hnodup
    have hbelow : ∀ b, b ∈ addrs l ∨ b ∈ addrs r → m' b = m b := by
      intro b hb
      rw [hm b ((mem_addrs_branch (d := .left)).mpr (.inr hb)), if_neg]
      intro heq
      obtain rfl : a.1 = b := Option.some.inj heq
      exact hb.elim hnot.1 hnot.2
    refine ⟨?_, hl.congr fun b hb => hbelow b (.inl hb), hr.congr fun b hb => hbelow b (.inr hb)⟩
    rw [hm a.1 ((mem_addrs_branch (d := .left)).mpr (.inl rfl)), top, if_pos rfl, ha]
    rfl

/-- Another subtree in the place of one. -/
theorem RepPath.relink (h : RepPath m hole path) (hnodup : (pathAddrs path).Nodup)
    (htop : ∀ f rest, path = f :: rest → m' f.value.1 = (m f.value.1).map (Node.setChild f.side hole'))
    (hm : ∀ a ∈ pathAddrs path, above path ≠ some a → m' a = m a) : RepPath m' hole' path := by
  cases path with
  | nil => trivial
  | cons f path =>
    obtain ⟨hf, hsibling, hpath⟩ := h
    obtain ⟨hnot, -⟩ := nodup_pathAddrs_cons.mp hnodup
    have hbelow : ∀ b, b ∈ addrs f.sibling ∨ b ∈ pathAddrs path → m' b = m b := by
      intro b hb
      refine hm b (mem_pathAddrs_cons.mpr (.inr hb)) fun heq => ?_
      obtain rfl : f.value.1 = b := Option.some.inj heq
      exact hb.elim hnot.1 hnot.2
    refine ⟨?_, hsibling.congr fun b hb => hbelow b (.inl hb), hpath.congr fun b hb => hbelow b (.inr hb)⟩
    rw [htop f path rfl, hf]
    simp

/-- A tree is in the memory if a subtree of it and the path to it are. -/
theorem rep_plug : Rep m none (plug path t) ↔ Rep m (above path) t ∧ RepPath m (top t) path := by
  induction path generalizing t with
  | nil => exact (and_iff_left trivial).symm
  | cons f path ih =>
    rw [plug, ih, rep_branch, top_branch, RepPath, above_cons]
    tauto

end TC.LinkedTree
