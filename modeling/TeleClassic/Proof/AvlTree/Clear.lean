import TeleClassic.Proof.AvlTree.Search

/-!
# Clearing

`p_tree_clear` needs no stack: where a node has a left subtree, it hangs the node below the
last node of that subtree and goes on there, so that the tree becomes a list to the right.
The nodes are freed from left to right, each once, and their keys destroyed
(`pTreeClear_eq`).
-/

namespace TC.Proof.AvlTree

open TC.LinkedTree
open TC.Impl.AvlTree
open TC.Prog

variable {K V : Type} {cmp : K → K → Int} {s : PTree K V} {t : AddrTree (TreeCell K V)}
  {r : AddrTree (TreeCell K V)} {a : Nat × TreeCell K V}

/-- The tree with another one below its last node. -/
def appendRight : AddrTree (TreeCell K V) → AddrTree (TreeCell K V) → AddrTree (TreeCell K V)
  | .nil, u => u
  | .node a l r, u => .node a l (appendRight r u)

theorem inorder_appendRight (t u : AddrTree (TreeCell K V)) : inorder (appendRight t u) = inorder t ++ inorder u := by
  induction t with
  | nil => rfl
  | node a l r _ ihr => rw [appendRight, inorder, ihr, inorder, List.append_assoc, List.cons_append]

/-- The turns of the loop that are left: one for each node, and one for each left subtree. -/
def turns : AddrTree (TreeCell K V) → Nat
  | .nil => 0
  | .node _ .nil r => turns r + 1
  | .node _ (.node a l r) r' => turns (.node a l r) + turns r' + 2

theorem turns_appendRight (t u : AddrTree (TreeCell K V)) : turns (appendRight t u) = turns t + turns u := by
  induction t with
  | nil => rw [appendRight, turns, Nat.zero_add]
  | node a l r _ ihr =>
    rw [appendRight]
    cases l with
    | nil =>
      rw [turns, turns, ihr]
      omega
    | node b x y =>
      rw [turns, turns, ihr]
      omega

theorem turns_le (t : AddrTree (TreeCell K V)) : turns t ≤ 2 * (inorder t).length := by
  induction t with
  | nil => exact le_rfl
  | node a l r ihl ihr =>
    rw [inorder, List.length_append, List.length_cons]
    cases l with
    | nil =>
      rw [turns]
      omega
    | node b x y =>
      rw [turns]
      omega

/-- The inner loop finds a node without a right child; what is written to its right hangs below
the subtree. -/
theorem rightmost_eq {fuel : Nat} (h : Links s.nodes t) (hnodup : (addrs t).Nodup)
    (hne : t ≠ .nil) (hfuel : t.height ≤ fuel) :
    ∃ z node, rightmost fuel (top t) cmp s = (some (some z), s) ∧ z ∈ addrs t ∧ s.nodes z = some node ∧
      ∀ (m : Memory (TreeCell K V)) u, m z = some (node.setChild .right (top u)) →
        (∀ a ∈ addrs t, a ≠ z → m a = s.nodes a) → Links m u → Links m (appendRight t u) := by
  induction t generalizing fuel with
  | nil => exact absurd rfl hne
  | node a l r _ ihr =>
    obtain ⟨fuel, rfl⟩ := Nat.exists_eq_succ_of_ne_zero (n := fuel) (by rintro rfl; cases hfuel)
    have hmax := Nat.le_of_succ_le_succ (m := fuel) hfuel
    obtain ⟨⟨p, ha⟩, hl, hr⟩ := h
    obtain ⟨⟨hal, har⟩, -, hnodupR, hlr⟩ := (nodup_branch (d := .left)).mp hnodup
    have hmem {b : Nat} := mem_addrs_branch (d := .left) (a := a) (x := l) (y := r) (b := b)
    rw [rightmost, top, bind_of_some (nodeAt_eq ha)]
    dsimp only
    cases r with
    | nil =>
      refine ⟨a.1, _, rfl, hmem.mpr (.inl rfl), ha, fun m u hz hother hu => ⟨⟨p, hz⟩, ?_, hu⟩⟩
      exact hl.congr fun b hb => hother b (hmem.mpr (.inr (.inl hb))) fun heq => hal (heq ▸ hb)
    | node b x y =>
      obtain ⟨z, node, hrun, hz, hnode, hlinks⟩ := ihr hr hnodupR (by simp) (Nat.le_trans (Nat.le_max_right _ _) hmax)
      refine ⟨z, node, ?_, hmem.mpr (.inr (.inr hz)), hnode, fun m u hzm hother hu => ⟨⟨p, ?_⟩, ?_, ?_⟩⟩
      · rw [if_pos (show top (.node b x y) ≠ none from Option.some_ne_none _)]
        exact hrun
      · rw [hother a.1 (hmem.mpr (.inl rfl)) fun heq => har (heq ▸ hz), ha]
        rfl
      · exact hl.congr fun c hc => hother c (hmem.mpr (.inr (.inl hc))) fun heq => hlr hc (heq ▸ hz)
      · exact hlinks m u hzm (fun c hc hcz => hother c (hmem.mpr (.inr (.inr hc))) hcz) hu

/-- What is left of the tree when its nodes are freed. -/
def freed (s : PTree K V) (t : AddrTree (TreeCell K V)) : PTree K V :=
  { s with
    nodes := fun _ => none
    nnodes := s.nnodes - BitVec.ofNat 32 (inorder t).length
    destroyed := s.destroyed ++ (inorder t).map (·.2.key) }

/-- The tree is all that is in the memory; nothing is known of the parents. -/
structure Hanging (s : PTree K V) (t : AddrTree (TreeCell K V)) : Prop where
  links : Links s.nodes t
  nodup : (addrs t).Nodup
  only : ∀ a, a ∉ addrs t → s.nodes a = none
  made : (inorder t).length ≤ s.made

/-- The first node, freed. -/
def dropFirst (s : PTree K V) (a : Nat × TreeCell K V) : PTree K V :=
  { s with
    destroyed := s.destroyed ++ [a.2.key]
    nodes := fun b => if some a.1 = some b then none else s.nodes b
    nnodes := s.nnodes - 1 }

theorem Hanging.dropFirst (h : Hanging s (.node a .nil r)) : Hanging (dropFirst s a) r := by
  obtain ⟨⟨-, har⟩, -, hnodupR, -⟩ := (nodup_branch (d := .left)).mp h.nodup
  have hother {b : Nat} (hb : b ≠ a.1) : (AvlTree.dropFirst s a).nodes b = s.nodes b :=
    if_neg fun heq => hb (Option.some.inj heq).symm
  refine ⟨h.links.2.2.congr fun b hb => hother fun heq => har (heq ▸ hb), hnodupR, fun b hb => ?_, ?_⟩
  · by_cases hba : b = a.1
    · rw [hba]
      exact if_pos rfl
    · rw [hother hba]
      exact h.only b fun hmem => ((mem_addrs_branch (d := .left)).mp hmem).elim hba fun hmem => hmem.elim nofun hb
  · have hmade := h.made
    rw [inorder, inorder, List.nil_append, List.length_cons] at hmade
    exact Nat.le_of_succ_le hmade

theorem Hanging.freed_nil (h : Hanging s .nil) : freed s .nil = s := by
  have hnodes : s.nodes = fun _ => none := funext fun a => h.only a List.not_mem_nil
  rw [freed, ← hnodes, inorder, List.length_nil, List.map_nil, List.append_nil, BitVec.sub_zero]

theorem freed_dropFirst : freed (dropFirst s a) r = freed s (.node a .nil r) := by
  simp only [freed, dropFirst, inorder, List.nil_append, List.length_cons, List.map_cons, List.append_assoc,
    List.singleton_append]
  congr 1
  rw [BitVec.ofNat_add]
  bv_omega

/-- The first node, hung below the last node of its left subtree. -/
theorem Hanging.hung {l : AddrTree (TreeCell K V)} {p : Ptr} {z : Nat} {node : Node (TreeCell K V)}
    (h : Hanging s (.node a l r)) (hz : z ∈ addrs l)
    (hlinks : ∀ (m : Memory (TreeCell K V)) u, m z = some (node.setChild .right (top u)) →
      (∀ b ∈ addrs l, b ≠ z → m b = s.nodes b) → Links m u → Links m (appendRight l u)) :
    Hanging ((s.put z (node.setChild .right (some a.1))).put a.1 ⟨a.2, none, top r, p⟩)
      (appendRight l (.node a .nil r)) := by
  obtain ⟨⟨hal, har⟩, -, -, hlr⟩ := (nodup_branch (d := .left)).mp h.nodup
  have hza : z ≠ a.1 := fun heq => hal (heq ▸ hz)
  have hinorder : inorder (appendRight l (.node a .nil r)) = inorder (.node a l r) := inorder_appendRight _ _
  have haddrs : addrs (appendRight l (.node a .nil r)) = addrs (.node a l r) := by rw [addrs, addrs, hinorder]
  refine ⟨hlinks _ _ (by simp [hza, top]) (fun b hb hbz => ?_) ⟨⟨p, by simp⟩, trivial, h.links.2.2.congr fun b hb => ?_⟩,
    haddrs ▸ h.nodup, fun b hb => ?_, hinorder ▸ h.made⟩
  · have hba : b ≠ a.1 := fun heq => hal (heq ▸ hb)
    simp [hba, hbz]
  · have hba : b ≠ a.1 := fun heq => har (heq ▸ hb)
    have hbz : b ≠ z := fun heq => hlr hz (heq ▸ hb)
    simp [hba, hbz]
  · rw [haddrs] at hb
    have hmem := (mem_addrs_branch (d := .left) (a := a) (x := l) (y := r) (b := b)).not.mp hb
    push Not at hmem
    have hbz : b ≠ z := fun heq => hmem.2.1 (heq ▸ hz)
    simp [hmem.1, hbz, h.only b hb]

theorem clearFrom_eq {fuel : Nat} (h : Hanging s t) (hfuel : turns t < fuel) :
    clearFrom fuel (top t) cmp s = (some (), freed s t) := by
  induction fuel generalizing s t with
  | zero => cases hfuel
  | succ fuel ih =>
    rw [clearFrom]
    cases t with
    | nil =>
      rw [top, if_pos rfl, h.freed_nil]
      rfl
    | node a l r =>
      obtain ⟨⟨p, ha⟩, hl, -⟩ := h.links
      obtain ⟨⟨hal, -⟩, hnodupL, -⟩ := (nodup_branch (d := .left)).mp h.nodup
      rw [top, if_neg (Option.some_ne_none _), bind_of_some (nodeAt_eq ha)]
      dsimp only
      cases l with
      | nil =>
        have hfree : freeNode (some a.1) cmp s = (some (), dropFirst s a) := by
          rw [freeNode, bind_of_some (nodeAt_eq ha)]
          rfl
        rw [if_pos top_nil, bind_of_some hfree, ih h.dropFirst (Nat.lt_of_succ_lt_succ hfuel), freed_dropFirst]
      | node b x y =>
        have hheight : (BinaryTree.node b x y).height ≤ s.made + 1 := by
          have hlength := h.made
          rw [inorder, List.length_append, ← numNodes_eq] at hlength
          exact (BinaryTree.height_le_numNodes _).trans (by omega)
        obtain ⟨z, node, hrun, hz, hnode, hlinks⟩ := rightmost_eq hl hnodupL (by simp) hheight
        have hza : a.1 ≠ z := fun heq => hal (heq ▸ hz)
        have hput : (s.put z (node.setChild .right (some a.1))).nodes a.1 = some ⟨a.2, some b.1, top r, p⟩ := by
          rw [put_nodes, if_neg hza, ha]
          rfl
        rw [if_neg (show top (.node b x y) ≠ none from Option.some_ne_none _), bind_get, bind_of_some hrun,
          bind_of_some (modifyAt_eq hnode), bind_of_some (nodeAt_eq hput), bind_of_some (modifyAt_eq hput)]
        refine (ih (h.hung hz hlinks) ?_).trans ?_
        · rw [turns_appendRight, turns]
          rw [turns] at hfuel
          omega
        · rw [freed, freed, inorder_appendRight]
          rfl

variable {O : Type} [LinearOrder O] {ord : K → O}

theorem WellFormed.hanging (h : WellFormed ord s t) : Hanging s t where
  links := h.rep.links
  nodup := h.nodup
  only := h.only
  made := by
    rw [← List.length_map]
    exact h.length_le

/-- Nothing of the tree is left. -/
theorem pTreeClear_eq (h : WellFormed ord s t) : pTreeClear cmp s = (some (),
    { s with root := none, nodes := fun _ => none, nnodes := 0, destroyed := s.destroyed ++ (entries t).map (·.1) }) := by
  have hkeys : (inorder t).map (·.2.key) = (entries t).map (·.1) := by
    rw [entries, List.map_map]
    rfl
  have hfreed : ({ freed s t with root := none } : PTree K V) = { s with
      root := none, nodes := fun _ => none, nnodes := 0, destroyed := s.destroyed ++ (entries t).map (·.1) } := by
    rw [freed, hkeys, h.nnodes, BitVec.sub_self]
    rfl
  rw [← hfreed, pTreeClear, bind_get, h.root]
  cases t with
  | nil =>
    rw [top, if_pos rfl, h.hanging.freed_nil]
    exact congrArg (fun root => (some (), { s with root := root })) h.root
  | node a l r =>
    have hfuel : turns (.node a l r) < 2 * s.made + 1 :=
      Nat.lt_succ_of_le ((turns_le _).trans (Nat.mul_le_mul_left 2 h.hanging.made))
    rw [if_neg (show top (.node a l r) ≠ none from Option.some_ne_none _), bind_of_some (clearFrom_eq h.hanging hfuel)]
    rfl

end TC.Proof.AvlTree
