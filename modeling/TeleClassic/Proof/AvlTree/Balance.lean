import TeleClassic.Framework.Balanced
import TeleClassic.Proof.AvlTree.Rotate

/-!
# The tree stays balanced

An insertion puts a node at the end of a path, and `pp_tree_avl_balance_insert` goes the path
up. What it finds on its way is a balanced subtree that is higher by one than the rest of the
tree allows for, and that is higher on one of its sides, or is the new node
(`meets_balanceInsert`). It ends with a balanced tree of the same entries.
-/

namespace TC.Proof.AvlTree

open TC.LinkedTree
open TC.Impl.AvlTree
open TC.Prog

variable {K V : Type} {cmp : K → K → Int} {s : PTree K V} {Q : Unit → PTree K V → Prop}
  {R : PTree K V → Prop} {path : Path (TreeCell K V)} {t x y : AddrTree (TreeCell K V)} {d : Side}

/-- The addresses, keys and values from left to right. -/
def contents (t : AddrTree (TreeCell K V)) : List (Nat × K × V) := (inorder t).map fun a => (a.1, a.2.key, a.2.value)

theorem contents_plug {t' : AddrTree (TreeCell K V)} (h : contents t = contents t') :
    contents (plug path t) = contents (plug path t') := by
  rw [contents, contents] at h
  simp only [contents, inorder_plug, List.map_append, h]

/-- Another cell in the node of a subtree. -/
theorem InMemory.setCell {p : Nat} {c : TreeCell K V} (h : InMemory s (plug path (branch d (p, c) x y)))
    (c' : TreeCell K V) :
    InMemory (s.put p (.of d c' (top x) (top y) (above path))) (plug path (branch d (p, c') x y)) := by
  obtain ⟨hT, hpath⟩ := rep_plug.mp h.rep
  obtain ⟨-, hx, hy⟩ := rep_branch.mp hT
  obtain ⟨hnodup, -, hdisjoint⟩ := nodup_plug.mp h.nodup
  obtain ⟨⟨hpx, hpy⟩, -⟩ := nodup_branch.mp hnodup
  have hpPath : p ∉ pathAddrs path := hdisjoint (mem_addrs_branch.mpr (.inl rfl))
  have hother {a : Nat} (ha : a ≠ p) :
      (s.put p (.of d c' (top x) (top y) (above path))).nodes a = s.nodes a := by simp [ha]
  have haddrs : addrs (plug path (branch d (p, c') x y)) = addrs (plug path (branch d (p, c) x y)) := by
    simp only [addrs, inorder_plug, List.map_append]
    cases d <;> simp [branch, inorder]
  refine ⟨rep_plug.mpr ⟨rep_branch.mpr ⟨by simp, ?_, ?_⟩, ?_⟩, ?_, haddrs ▸ h.nodup, fun a ha => ?_⟩
  · exact hx.congr fun a ha => hother fun heq => hpx (heq ▸ ha)
  · exact hy.congr fun a ha => hother fun heq => hpy (heq ▸ ha)
  · rw [top_branch] at hpath ⊢
    exact hpath.congr fun a ha => hother fun heq => hpPath (heq ▸ ha)
  · rw [put_root, h.root]
    cases path with
    | nil => rw [plug, plug, top_branch, top_branch]
    | cons f path => exact top_plug_of_ne (List.cons_ne_nil _ _) _ _
  · rw [haddrs] at ha
    have hap : a ≠ p := by
      rintro rfl
      exact ha ((addrs_plug _ _).mem_iff.mpr (List.mem_append_left _ (mem_addrs_branch.mpr (.inl rfl))))
    rw [hother hap, h.only a ha]

theorem contents_setBalance {p : Nat} {c : TreeCell K V} {v : Int} :
    contents (branch d (p, { c with balanceFactor := v }) x y) = contents (branch d (p, c) x y) := by
  cases d <;> simp [contents, branch, inorder]

/-- A turn of the loop at a node on the side `d` of its parent. -/
theorem meets_turn {fuel : Nat} {n p : Nat} {node : Node (TreeCell K V)} {cp : TreeCell K V} {y q : Ptr}
    (hn : s.nodes n = some node) (hparent : node.parent = some p)
    (hp : s.nodes p = some (.of d cp (some n) y q)) (hy : y ≠ some n)
    (hf : Meets cmp s
      (if cp.balanceFactor = d.sign then
        if node.cell.balanceFactor = -d.sign then doubleRotate d (some n) else rotate d.other (some n)
      else if cp.balanceFactor = -d.sign then modifyAt (some p) (setBalance 0)
      else do
        modifyAt (some p) (setBalance d.sign)
        ppTreeAvlBalanceInsert fuel (some p)) Q R) :
    Meets cmp s (ppTreeAvlBalanceInsert (fuel + 1) (some n)) Q R := by
  rw [ppTreeAvlBalanceInsert]
  refine meets_nodeAt hn ?_
  simp only [hparent]
  rw [if_neg (Option.some_ne_none _)]
  refine meets_nodeAt hp ?_
  rw [Node.cell_of]
  cases d with
  | left =>
    rw [if_pos (show (Node.of Side.left cp (some n) y q).left = some n from rfl)]
    exact hf
  | right =>
    rw [if_neg (show (Node.of Side.right cp (some n) y q).left ≠ some n from hy)]
    exact hf

theorem restoredOn_eq (d : Side) (balance : Int) :
    restoredOn d balance = if balance = -d.sign then d.sign else 0 := by
  cases d <;> simp only [restoredOn, restored, Side.sign] <;> split_ifs <;> omega

theorem ne_nil_of_height {h : Nat} (ht : t.height = h + 1) : t ≠ .nil := by
  rintro rfl
  cases ht

/-- What an insertion leaves: nothing but the nodes is different, and they are a balanced tree
with these contents. -/
def Rebalanced (s : PTree K V) (entries : List (Nat × K × V)) (s' : PTree K V) : Prop :=
  Same s s' ∧ ∃ t, InMemory s' t ∧ Balanced TreeCell.balanceFactor t ∧ contents t = entries

/-- The node of a subtree. -/
theorem InMemory.node (path : Path (TreeCell K V)) {a : Nat × TreeCell K V}
    (h : InMemory s (plug path (branch d a x y))) :
    s.nodes a.1 = some (.of d a.2 (top x) (top y) (above path)) :=
  (rep_branch.mp (rep_plug.mp h.rep).1).1

/-- The rotations at a subtree `t` that is too high for its sibling. -/
theorem meets_rotation {n p : Nat} {cp : TreeCell K V} {sibling : AddrTree (TreeCell K V)}
    {node : Node (TreeCell K V)} (hs : InMemory s (plug path (branch d (p, cp) t sibling)))
    (htop : top t = some n) (ht : Balanced TreeCell.balanceFactor t)
    (hsibling : Balanced TreeCell.balanceFactor sibling) (hheight : t.height = sibling.height + 2)
    (hn : s.nodes n = some node) (hgrown : node.cell.balanceFactor ≠ 0)
    (hpath : BalancedPath TreeCell.balanceFactor (sibling.height + 2) path) :
    Meets cmp s
      (if node.cell.balanceFactor = -d.sign then doubleRotate d (some n) else rotate d.other (some n))
      (fun _ => Rebalanced s (contents (plug path (branch d (p, cp) t sibling)))) fun _ => False := by
  split
  · rename_i hinner
    obtain ⟨⟨n', cn⟩, A, T, rfl⟩ := exists_branch d (ne_nil_of_height hheight)
    obtain rfl : n' = n := by simpa using htop
    have hnode := InMemory.node (⟨d, (p, cp), sibling⟩ :: path) hs
    obtain rfl := Option.some.inj (hn.symm.trans hnode)
    replace hinner : cn.balanceFactor = -d.sign := by simpa using hinner
    have hT : T.height = A.height + 1 := by
      have hbal := (balanced_branch.mp ht).1
      dsimp only at hbal
      rcases d.sign_eq with hd | hd <;> rw [hd] at hbal hinner <;> omega
    obtain ⟨⟨tmp, ct⟩, B, E, rfl⟩ := exists_branch d (ne_nil_of_height hT)
    refine (meets_doubleRotate hs).mono fun _ s' hs' => ⟨hs'.1, _, hs'.2, ?_, contents_plug ?_⟩
    · obtain ⟨hbalanced, hnew⟩ := ht.doubleRotate
        (n', { cn with balanceFactor := restoredOn d ct.balanceFactor })
        (p, { cp with balanceFactor := restoredOn d.other ct.balanceFactor })
        (tmp, { ct with balanceFactor := 0 }) hsibling hheight hinner rfl (restoredOn_eq _ _)
        (by rw [restoredOn_eq, Side.sign_other, neg_neg])
      exact balanced_plug.mpr ⟨hbalanced, hnew ▸ hpath⟩
    · cases d <;> simp [contents, branch, inorder]
  · rename_i hinner
    obtain ⟨⟨n', cn⟩, B, E, rfl⟩ := exists_branch d.other (ne_nil_of_height hheight)
    obtain rfl : n' = n := by simpa using htop
    have hnode := InMemory.node (⟨d, (p, cp), sibling⟩ :: path) hs
    obtain rfl := Option.some.inj (hn.symm.trans hnode)
    have houter : cn.balanceFactor = -d.other.sign := by
      have hlimit := (balanced_branch.mp ht).2.1
      rw [Node.cell_of] at hinner hgrown
      rw [Side.sign_other, neg_neg]
      dsimp only at hlimit hinner hgrown
      rcases d.sign_eq with hd | hd <;> rw [hd] at hinner ⊢ <;> omega
    rw [← Side.other_other d, branch_other, Side.other_other] at hs ⊢
    refine (meets_rotate hs).mono fun _ s' hs' => ⟨hs'.1, _, hs'.2, ?_, contents_plug ?_⟩
    · obtain ⟨hbalanced, hnew⟩ := ht.rotate
        (n', { cn with balanceFactor := cn.balanceFactor + d.other.sign })
        (p, { cp with balanceFactor := -(cn.balanceFactor + d.other.sign) }) hsibling hheight houter
        (by simp [houter]) (by simp [houter])
      exact balanced_plug.mpr ⟨hbalanced, hnew ▸ hpath⟩
    · cases d <;> simp [contents, branch, inorder, Side.other]

/-- The loop, at the subtree `t` that is higher by one than its place was. -/
theorem meets_balanceInsert {fuel n h : Nat} (hs : InMemory s (plug path t)) (htop : top t = some n)
    (ht : Balanced TreeCell.balanceFactor t) (hheight : t.height = h + 1)
    (hpath : BalancedPath TreeCell.balanceFactor h path)
    (hgrown : h ≠ 0 → ∀ node, s.nodes n = some node → node.cell.balanceFactor ≠ 0)
    (hfuel : path.length < fuel) :
    Meets cmp s (ppTreeAvlBalanceInsert fuel (some n)) (fun _ => Rebalanced s (contents (plug path t)))
      fun _ => False := by
  induction path generalizing s fuel n h t with
  | nil =>
    obtain ⟨fuel, rfl⟩ := Nat.exists_eq_succ_of_ne_zero (Nat.ne_of_gt hfuel)
    obtain ⟨a, x, y, rfl⟩ := exists_branch .left (ne_nil_of_height hheight)
    obtain rfl : a.1 = n := by simpa using htop
    rw [ppTreeAvlBalanceInsert]
    refine meets_nodeAt hs.rep.1 ?_
    exact meets_pure ⟨⟨rfl, rfl, rfl⟩, _, hs, ht, rfl⟩
  | cons f path ih =>
    obtain ⟨fuel, rfl⟩ := Nat.exists_eq_succ_of_ne_zero (Nat.ne_of_gt (Nat.zero_lt_of_lt hfuel))
    obtain ⟨d, ⟨p, cp⟩, sibling⟩ := f
    obtain ⟨hbal, hlimit, hsibling, hrest⟩ := hpath
    obtain ⟨⟨n', cn⟩, x, y, rfl⟩ := exists_branch d (ne_nil_of_height hheight)
    obtain rfl : n' = n := by simpa using htop
    have hn := InMemory.node (⟨d, (p, cp), sibling⟩ :: path) hs
    rw [plug] at hs ⊢
    dsimp only at hs ⊢
    have hp := InMemory.node path hs
    have hnotSibling : top sibling ≠ some n' := by
      obtain ⟨-, -, -, hdisjoint⟩ := nodup_branch.mp (nodup_plug.mp hs.nodup).1
      exact fun h => hdisjoint (mem_addrs_branch.mpr (.inl rfl)) (mem_addrs_of_top h)
    refine meets_turn hn Node.parent_of (hp.trans (by rw [top_branch])) hnotSibling ?_
    dsimp only at hbal hlimit hsibling hrest
    by_cases hhigh : cp.balanceFactor = d.sign
    · rw [if_pos hhigh]
      have hh : h = sibling.height + 1 := by
        rcases d.sign_eq with hd | hd <;> rw [hd] at hbal hhigh <;> omega
      rw [max_eq_left (by omega), hh] at hrest
      exact meets_rotation hs htop ht hsibling (by omega) hn (hgrown (by omega) _ hn) hrest
    rw [if_neg hhigh]
    by_cases hlow : cp.balanceFactor = -d.sign
    · rw [if_pos hlow]
      have hh : h + 1 = sibling.height := by
        rcases d.sign_eq with hd | hd <;> rw [hd] at hbal hlow <;> omega
      have hcell := hs.setCell { cp with balanceFactor := 0 }
      rw [← setBalance_of] at hcell
      refine meets_modifyAt_last hp ⟨⟨rfl, rfl, rfl⟩, _, hcell, balanced_plug.mpr ⟨?_, ?_⟩,
        contents_plug contents_setBalance⟩
      · refine balanced_branch.mpr ⟨?_, by simp, ht, hsibling⟩
        rw [hheight, hh, sub_self, mul_zero]
      · rw [height_branch, hheight, hh, max_self]
        rwa [max_eq_right (by omega)] at hrest
    · rw [if_neg hlow]
      have hh : h = sibling.height := by
        rcases d.sign_eq with hd | hd <;> rw [hd] at hbal hlow hhigh <;> omega
      have hcell := hs.setCell { cp with balanceFactor := d.sign }
      rw [← setBalance_of] at hcell
      refine meets_modifyAt hp ?_
      have hnew : Balanced TreeCell.balanceFactor (branch d (p, { cp with balanceFactor := d.sign })
          (branch d (n', cn) x y) sibling) := by
        refine balanced_branch.mpr ⟨?_, ?_, ht, hsibling⟩
        · rw [hheight, hh]
          push_cast
          ring
        · rcases d.sign_eq with hd | hd <;> simp [hd]
      refine (ih hcell top_branch hnew (h := h + 1) ?_ ?_ (fun _ node hnode => ?_) ?_).mono fun _ s' hs' => ⟨?_, ?_⟩
      · rw [height_branch, hheight, hh, max_eq_left (Nat.le_succ _)]
      · rwa [hh, max_self, ← hh] at hrest
      · rw [put_nodes, if_pos rfl] at hnode
        obtain rfl := Option.some.inj hnode
        rcases d.sign_eq with hd | hd <;> simp [hd]
      · exact Nat.lt_of_succ_lt_succ hfuel
      · exact ⟨hs'.1.nnodes, hs'.1.made, hs'.1.destroyed⟩
      · obtain ⟨-, t', hmemory, hbalanced, hcontents⟩ := hs'
        exact ⟨t', hmemory, hbalanced, hcontents.trans (contents_plug contents_setBalance)⟩

end TC.Proof.AvlTree
