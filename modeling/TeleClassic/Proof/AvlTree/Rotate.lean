import TeleClassic.Impl.AvlTree

/-!
# Rotations in memory

What the reads and writes of a rotation do to a tree in memory. The steps that all
rotations share are moves of a subtree below another parent (`meets_adopt`) and another
subtree in the place of one (`meets_replaceChild`). A rotation of a tree that is in memory
stops nowhere and leaves the rotated tree in memory (`meets_rotate`, `meets_doubleRotate`).
-/

namespace TC.Proof.AvlTree

open TC.LinkedTree
open TC.Impl.AvlTree
open TC.Prog

variable {K V α : Type} {cmp : K → K → Int} {s : PTree K V} {Q : α → PTree K V → Prop}
  {R : PTree K V → Prop} {path : Path (TreeCell K V)} {n : Node (TreeCell K V)} {a : Nat}
  {g : Node (TreeCell K V) → Node (TreeCell K V)} {t : AddrTree (TreeCell K V)} {f : Unit → TreeM K V α}
  {cn cp : TreeCell K V} {d : Side} {child node parent : Ptr}

@[simp] theorem setBalance_of {c : TreeCell K V} {x y p : Ptr} {v : Int} :
    setBalance v (.of d c x y p) = .of d { c with balanceFactor := v } x y p := by
  rw [setBalance, Node.setCell_of, Node.cell_of]

/-! ## Reads and writes -/

@[simp] theorem put_nodes {b : Nat} :
    (s.put a n).nodes b = if b = a then some n else s.nodes b := Function.update_apply ..

@[simp] theorem put_root : (s.put a n).root = s.root := rfl

theorem nodeAt_eq (h : s.nodes a = some n) : nodeAt (some a) cmp s = (some n, s) := by
  simp only [nodeAt, Option.bind_some, h]

theorem meets_nodeAt {f : Node (TreeCell K V) → TreeM K V α} (h : s.nodes a = some n)
    (hf : Meets cmp s (f n) Q R) : Meets cmp s (nodeAt (some a) >>= f) Q R :=
  meets_bind_of_some (nodeAt_eq h) hf

theorem modifyAt_eq (h : s.nodes a = some n) : modifyAt (some a) g cmp s = (some (), s.put a (g n)) := by
  simp only [modifyAt, h]

theorem meets_modifyAt (h : s.nodes a = some n) (hf : Meets cmp (s.put a (g n)) (f ()) Q R) :
    Meets cmp s (modifyAt (some a) g >>= f) Q R :=
  meets_bind_of_some (modifyAt_eq h) hf

theorem meets_modifyAt_last {Q : Unit → PTree K V → Prop} (h : s.nodes a = some n)
    (hQ : Q () (s.put a (g n))) : Meets cmp s (modifyAt (some a) g) Q R :=
  meets_last (meets_modifyAt h (meets_pure hQ))

/-- The tree after `adopt`. -/
def adopted (s : PTree K V) (child parent : Ptr) : PTree K V :=
  { s with nodes := fun a => if child = some a then (s.nodes a).map (Node.setParent parent) else s.nodes a }

@[simp] theorem adopted_nodes : (adopted s child parent).nodes a =
    if child = some a then (s.nodes a).map (Node.setParent parent) else s.nodes a := rfl

@[simp] theorem adopted_root : (adopted s child parent).root = s.root := rfl

theorem meets_adopt (h : ∀ a, child = some a → (s.nodes a).isSome)
    (hf : Meets cmp (adopted s child parent) (f ()) Q R) : Meets cmp s (adopt child parent >>= f) Q R := by
  cases child with
  | none => exact hf
  | some a =>
    obtain ⟨n, hn⟩ := Option.isSome_iff_exists.mp (h a rfl)
    refine meets_modifyAt hn ?_
    have heq : s.put a (n.setParent parent) = adopted s (some a) parent := by
      rw [PTree.put, adopted]
      congr 1
      funext b
      by_cases hb : b = a
      · subst hb
        simp [hn]
      · rw [Function.update_of_ne hb, if_neg fun h => hb (Option.some.inj h).symm]
    rw [heq]
    exact hf

/-- The side of the subtree at the end of a path. -/
def holeSide (path : Path (TreeCell K V)) : Side := (path.head?.map (·.side)).getD .left

/-- The tree after `replaceChild` at the end of a path. -/
def relinked (s : PTree K V) (path : Path (TreeCell K V)) (node : Ptr) : PTree K V :=
  { s with
    root := if path.isEmpty then node else s.root
    nodes := fun a => if above path = some a then (s.nodes a).map (Node.setChild (holeSide path) node) else s.nodes a }

@[simp] theorem relinked_nodes : (relinked s path node).nodes a =
    if above path = some a then (s.nodes a).map (Node.setChild (holeSide path) node) else s.nodes a := rfl

@[simp] theorem relinked_root : (relinked s path node).root = if path.isEmpty then node else s.root := rfl

theorem put_eq_relinked {f : Frame (TreeCell K V)} (h : s.nodes f.value.1 = some n) :
    s.put f.value.1 (n.setChild f.side node) = relinked s (f :: path) node := by
  rw [PTree.put, relinked]
  congr 1
  funext b
  by_cases hb : b = f.value.1
  · subst hb
    rw [Function.update_self, above_cons, if_pos rfl, h]
    rfl
  · rw [Function.update_of_ne hb, above_cons, if_neg fun h => hb (Option.some.inj h).symm]

theorem meets_replaceChild {node old : Nat} (path : Path (TreeCell K V)) (hn : s.nodes node = some n)
    (hparent : n.parent = above path) (hpath : RepPath s.nodes (some old) path)
    (hold : old ∉ pathAddrs path) (hf : Meets cmp (relinked s path (some node)) (f ()) Q R) :
    Meets cmp s (replaceChild (some node) (some old) >>= f) Q R := by
  refine meets_assoc (meets_nodeAt hn ?_)
  rw [hparent]
  cases path with
  | nil => exact hf
  | cons frame path =>
    obtain ⟨side, value, sibling⟩ := frame
    have hframe := hpath.1
    rw [above_cons, if_pos (Option.some_ne_none _)]
    refine meets_assoc (meets_nodeAt hframe ?_)
    rw [← put_eq_relinked hframe] at hf
    cases side with
    | left =>
      have hleft : (Node.of Side.left value.2 (some old) (top sibling) (above path)).left = some old := rfl
      rw [if_pos hleft]
      exact meets_modifyAt hframe hf
    | right =>
      have hright : (Node.of Side.right value.2 (some old) (top sibling) (above path)).left ≠ some old := fun h =>
        hold (mem_pathAddrs_cons.mpr (.inr (.inl (mem_addrs_of_top h))))
      rw [if_neg hright]
      exact meets_modifyAt hframe hf

/-! ## Trees in memory -/

/-- The tree is what is in the memory. -/
structure InMemory (s : PTree K V) (t : AddrTree (TreeCell K V)) : Prop where
  rep : Rep s.nodes none t
  root : s.root = top t
  nodup : (addrs t).Nodup
  only : ∀ a, a ∉ addrs t → s.nodes a = none

/-- Nothing but the nodes and the root is different. -/
structure Same (s s' : PTree K V) : Prop where
  nnodes : s'.nnodes = s.nnodes
  made : s'.made = s.made
  destroyed : s'.destroyed = s.destroyed

theorem top_plug_of_ne (hpath : path ≠ []) (t t' : AddrTree (TreeCell K V)) :
    top (plug path t) = top (plug path t') := by
  induction path generalizing t t' with
  | nil => exact absurd rfl hpath
  | cons f path ih =>
    rw [plug, plug]
    cases path with
    | nil => rw [plug, plug, top_branch, top_branch]
    | cons f' path => exact ih (List.cons_ne_nil _ _) _ _

/-- Another subtree in the place of one, which may have more addresses. -/
theorem InMemory.graft {s s' : PTree K V} {t' : AddrTree (TreeCell K V)} (h : InMemory s (plug path t))
    (hsub : addrs t ⊆ addrs t') (hnodup : (addrs t').Nodup)
    (hdisjoint : (addrs t').Disjoint (pathAddrs path)) (ht' : Rep s'.nodes (above path) t')
    (hroot : s'.root = if path.isEmpty then top t' else s.root)
    (hhole : ∀ a, above path = some a → s'.nodes a = (s.nodes a).map (Node.setChild (holeSide path) (top t')))
    (hother : ∀ a, a ∉ addrs t' → above path ≠ some a → s'.nodes a = s.nodes a) :
    InMemory s' (plug path t') := by
  obtain ⟨-, hpath⟩ := rep_plug.mp h.rep
  obtain ⟨-, hnodupPath, -⟩ := nodup_plug.mp h.nodup
  refine ⟨rep_plug.mpr ⟨ht', hpath.relink hnodupPath ?_ ?_⟩, ?_, nodup_plug.mpr ⟨hnodup, hnodupPath, hdisjoint⟩,
    fun a ha => ?_⟩
  · rintro f rest rfl
    exact hhole _ rfl
  · exact fun a ha hne => hother a (fun hat => hdisjoint hat ha) hne
  · cases path with
    | nil => exact hroot
    | cons f path =>
      rw [hroot, h.root]
      exact top_plug_of_ne (List.cons_ne_nil _ _) _ _
  · rw [(addrs_plug path t').mem_iff, List.mem_append, not_or] at ha
    have hnone : s.nodes a = none := by
      refine h.only a fun hmem => ?_
      rw [(addrs_plug path t).mem_iff, List.mem_append] at hmem
      exact hmem.elim (fun hat => ha.1 (hsub hat)) ha.2
    by_cases habove : above path = some a
    · rw [hhole a habove, hnone]
      rfl
    · rw [hother a ha.1 habove, hnone]

/-- Another subtree with the same addresses in the place of one. -/
theorem InMemory.replace {s s' : PTree K V} {t' : AddrTree (TreeCell K V)} (h : InMemory s (plug path t))
    (haddrs : (addrs t').Perm (addrs t)) (ht' : Rep s'.nodes (above path) t')
    (hroot : s'.root = if path.isEmpty then top t' else s.root)
    (hhole : ∀ a, above path = some a → s'.nodes a = (s.nodes a).map (Node.setChild (holeSide path) (top t')))
    (hother : ∀ a, a ∉ addrs t → above path ≠ some a → s'.nodes a = s.nodes a) :
    InMemory s' (plug path t') := by
  obtain ⟨hnodup, -, hdisjoint⟩ := nodup_plug.mp h.nodup
  refine h.graft haddrs.symm.subset (haddrs.nodup_iff.mpr hnodup) (fun a ha hpath => hdisjoint (haddrs.mem_iff.mp ha) hpath)
    ht' hroot hhole fun a ha hne => hother a (fun hat => ha (haddrs.mem_iff.mpr hat)) hne

theorem isSome_of_top {m : Memory (TreeCell K V)} {p : Ptr} (h : Rep m p t) (ha : top t = some a) :
    (m a).isSome := by
  cases t with
  | nil => cases ha
  | node b l r =>
    obtain rfl := Option.some.inj ha
    rw [h.1]
    rfl

theorem top_ne (h : a ∉ addrs t) : top t ≠ some a := fun htop =>
  h (mem_addrs_of_top htop)

theorem above_ne (h : a ∉ pathAddrs path) : above path ≠ some a := by
  cases path with
  | nil => exact nofun
  | cons f path => exact fun habove => h (mem_pathAddrs_cons.mpr (.inl (Option.some.inj habove).symm))

theorem meets_rotate {n p : Nat} {A B C : AddrTree (TreeCell K V)}
    (h : InMemory s (plug path (branch d (p, cp) A (branch d (n, cn) B C)))) :
    Meets cmp s (rotate d (some n))
      (fun _ s' => Same s s' ∧ InMemory s' (plug path
        (branch d (n, { cn with balanceFactor := cn.balanceFactor + d.sign })
          (branch d (p, { cp with balanceFactor := -(cn.balanceFactor + d.sign) }) A B) C)))
      fun _ => False := by
  obtain ⟨hT, hpath⟩ := rep_plug.mp h.rep
  obtain ⟨hp, hA, hN⟩ := rep_branch.mp hT
  obtain ⟨hn, hB, hC⟩ := rep_branch.mp hN
  obtain ⟨hnodupT, hnodupPath, hdisjoint⟩ := nodup_plug.mp h.nodup
  obtain ⟨⟨hpA, hpN⟩, hnodupA, hnodupN, hAN⟩ := nodup_branch.mp hnodupT
  obtain ⟨⟨hnB, hnC⟩, hnodupB, hnodupC, hBC⟩ := nodup_branch.mp hnodupN
  rw [mem_addrs_branch, not_or, not_or] at hpN
  obtain ⟨hpn, hpB, hpC⟩ := hpN
  dsimp only at hp hn hpA hpn hnB hnC
  have hnp : n ≠ p := fun heq => hpn heq.symm
  have hpPath : p ∉ pathAddrs path := hdisjoint (mem_addrs_branch.mpr (.inl rfl))
  have hnPath : n ∉ pathAddrs path := hdisjoint (mem_addrs_branch.mpr (.inr (.inr (mem_addrs_branch.mpr (.inl rfl)))))
  have hBdisjoint : (addrs B).Disjoint (pathAddrs path) := fun a ha hb =>
    hdisjoint (mem_addrs_branch.mpr (.inr (.inr (mem_addrs_branch.mpr (.inr (.inl ha)))))) hb
  simp only [top_branch] at hp hpath
  rw [rotate]
  refine meets_nodeAt hn ?_
  simp only [Node.parent_of, Node.child_of]
  refine meets_modifyAt hp (meets_nodeAt (n := .of d cn (top B) (top C) (some p)) (by simp [hnp, hn]) ?_)
  simp only [Node.parent_of, Node.child_of, Node.setChild_other_of]
  refine meets_adopt (fun b hb => ?_) ?_
  · have hbp : b ≠ p := fun heq => hpB (mem_addrs_of_top (heq ▸ hb))
    rw [put_nodes, if_neg hbp]
    exact isSome_of_top hB hb
  refine meets_nodeAt (n := .of d cn (top B) (top C) (some p)) (by simp [top_ne hnB, hnp, hn]) ?_
  refine meets_modifyAt (n := .of d cn (top B) (top C) (some p)) (by simp [top_ne hnB, hnp, hn]) ?_
  simp only [Node.parent_of, Node.setChild_of]
  refine meets_nodeAt (n := .of d cn (some p) (top C) (some p)) (by simp) ?_
  simp only [Node.child_of]
  refine meets_nodeAt (n := .of d cp (top A) (top B) (above path)) (by simp [hpn, top_ne hpB]) ?_
  refine meets_modifyAt (n := .of d cn (some p) (top C) (some p)) (by simp) ?_
  simp only [Node.parent_of, Node.setParent_of]
  refine meets_nodeAt (n := .of d cn (some p) (top C) (above path)) (by simp) ?_
  simp only [Node.child_of]
  refine meets_modifyAt (n := .of d cp (top A) (top B) (above path)) (by simp [hpn, top_ne hpB]) ?_
  simp only [Node.setParent_of]
  refine meets_nodeAt (n := .of d cn (some p) (top C) (above path)) (by simp [hnp]) ?_
  simp only [Node.child_of]
  refine meets_replaceChild path (n := .of d cn (some p) (top C) (above path)) (by simp [hnp])
    Node.parent_of (hpath.congr fun a ha => ?_) hpPath ?_
  · have han : a ≠ n := fun heq => hnPath (heq ▸ ha)
    have hap : a ≠ p := fun heq => hpPath (heq ▸ ha)
    simp [han, hap, top_ne fun haB => hBdisjoint haB ha]
  refine meets_nodeAt (n := .of d cn (some p) (top C) (above path)) (by simp [hnp, above_ne hnPath]) ?_
  refine meets_modifyAt (n := .of d cn (some p) (top C) (above path)) (by simp [hnp, above_ne hnPath]) ?_
  simp only [Node.cell_of, setBalance_of]
  refine meets_nodeAt (n := .of d { cn with balanceFactor := cn.balanceFactor + d.sign } (some p) (top C) (above path))
    (by simp) ?_
  simp only [Node.child_of, Node.cell_of]
  refine meets_modifyAt_last (n := .of d cp (top A) (top B) (some n)) (by simp [hpn, above_ne hpPath]) ?_
  rw [setBalance_of]
  refine ⟨⟨rfl, rfl, rfl⟩, h.replace ?_ (rep_branch.mpr ⟨?_, rep_branch.mpr ⟨?_, hA.congr fun a ha => ?_, ?_⟩,
    hC.congr fun a ha => ?_⟩) ?_ (fun a ha => ?_) fun a ha hne => ?_⟩
  · cases d <;> simp [addrs, branch, inorder]
  · simp [hnp]
  · simp
  · have han : a ≠ n := fun heq => hAN ha (mem_addrs_branch.mpr (.inl heq))
    have hap : a ≠ p := fun heq => hpA (heq ▸ ha)
    have haB : a ∉ addrs B := fun haB => hAN ha (mem_addrs_branch.mpr (.inr (.inl haB)))
    simp [han, hap, top_ne haB, above_ne fun hb => hdisjoint (mem_addrs_branch.mpr (.inr (.inl ha))) hb]
  · refine hB.adopt hnodupB fun a ha => ?_
    have han : a ≠ n := fun heq => hnB (heq ▸ ha)
    have hap : a ≠ p := fun heq => hpB (heq ▸ ha)
    simp [han, hap, above_ne fun hb => hBdisjoint ha hb]
  · have han : a ≠ n := fun heq => hnC (heq ▸ ha)
    have hap : a ≠ p := fun heq => hpC (heq ▸ ha)
    have haPath : a ∉ pathAddrs path := fun hb =>
      hdisjoint (mem_addrs_branch.mpr (.inr (.inr (mem_addrs_branch.mpr (.inr (.inr ha)))))) hb
    simp [han, hap, top_ne fun haB => hBC haB ha, above_ne haPath]
  · simp
  · have han : a ≠ n := fun heq => above_ne hnPath (heq ▸ ha)
    have hap : a ≠ p := fun heq => above_ne hpPath (heq ▸ ha)
    simp [han, hap, ha, show top B ≠ some a from fun hb => above_ne (hBdisjoint (mem_addrs_of_top hb)) ha]
  · rw [mem_addrs_branch, mem_addrs_branch] at ha
    push Not at ha
    simp [ha.2.2.1, ha.1, hne, top_ne ha.2.2.2.1]

/-- The balance factor that a double rotation leaves on a side. -/
def restoredOn (d : Side) (balance : Int) : Int :=
  match d with
  | .left => (restored balance).1
  | .right => (restored balance).2

theorem put_comm {b : Nat} {n n' : Node (TreeCell K V)} (h : a ≠ b) :
    (s.put a n).put b n' = (s.put b n').put a n := by
  simp only [PTree.put, Function.update_comm h]

theorem meets_restoreBalance {t n p : Nat} {ct : TreeCell K V} {q xn yn xp yp pn pp : Ptr}
    {Q : Unit → PTree K V → Prop} (htn : t ≠ n) (htp : t ≠ p) (hnp : n ≠ p)
    (ht : s.nodes t = some (.of d ct (some n) (some p) q)) (hn : s.nodes n = some (.of d cn xn yn pn))
    (hp : s.nodes p = some (.of d cp xp yp pp))
    (hQ : Q () (((s.put n (.of d { cn with balanceFactor := restoredOn d ct.balanceFactor } xn yn pn)).put p
      (.of d { cp with balanceFactor := restoredOn d.other ct.balanceFactor } xp yp pp)).put t
      (.of d { ct with balanceFactor := 0 } (some n) (some p) q))) :
    Meets cmp s (restoreBalance (some t)) Q R := by
  have hpn : p ≠ n := hnp.symm
  refine meets_nodeAt ht ?_
  rw [Node.cell_of]
  cases d with
  | left =>
    refine meets_modifyAt hn (meets_modifyAt (n := .of .left cp xp yp pp) (by simp [hpn, hp]) ?_)
    refine meets_modifyAt_last (n := .of .left ct (some n) (some p) q) (by simp [htn, htp, ht]) ?_
    simp only [setBalance_of]
    exact hQ
  | right =>
    refine meets_modifyAt hp (meets_modifyAt (n := .of .right cn xn yn pn) (by simp [hnp, hn]) ?_)
    refine meets_modifyAt_last (n := .of .right ct (some n) (some p) q) (by simp [htn, htp, ht]) ?_
    simp only [setBalance_of]
    rw [put_comm hpn]
    exact hQ

theorem meets_doubleRotate {n p t : Nat} {ct : TreeCell K V} {A B C D : AddrTree (TreeCell K V)}
    (h : InMemory s (plug path (branch d (p, cp) (branch d (n, cn) A (branch d (t, ct) B C)) D))) :
    Meets cmp s (doubleRotate d (some n))
      (fun _ s' => Same s s' ∧ InMemory s' (plug path (branch d (t, { ct with balanceFactor := 0 })
        (branch d (n, { cn with balanceFactor := restoredOn d ct.balanceFactor }) A B)
        (branch d (p, { cp with balanceFactor := restoredOn d.other ct.balanceFactor }) C D))))
      fun _ => False := by
  obtain ⟨hT, hpath⟩ := rep_plug.mp h.rep
  obtain ⟨hp, hN, hD⟩ := rep_branch.mp hT
  obtain ⟨hn, hA, hTmp⟩ := rep_branch.mp hN
  obtain ⟨ht, hB, hC⟩ := rep_branch.mp hTmp
  obtain ⟨hnodupT, hnodupPath, hdisjoint⟩ := nodup_plug.mp h.nodup
  obtain ⟨⟨hpN, hpD⟩, hnodupN, hnodupD, hND⟩ := nodup_branch.mp hnodupT
  obtain ⟨⟨hnA, hnTmp⟩, hnodupA, hnodupTmp, hATmp⟩ := nodup_branch.mp hnodupN
  obtain ⟨⟨htB, htC⟩, hnodupB, hnodupC, hBC⟩ := nodup_branch.mp hnodupTmp
  simp only [mem_addrs_branch, not_or] at hpN hnTmp
  obtain ⟨hpn, hpA, hpt, hpB, hpC⟩ := hpN
  obtain ⟨hnt, hnB, hnC⟩ := hnTmp
  dsimp only at hp hn ht hpA hpn hpt hnA hnt htB htC hpD
  have hnp : n ≠ p := fun heq => hpn heq.symm
  have htp : t ≠ p := fun heq => hpt heq.symm
  have htn : t ≠ n := fun heq => hnt heq.symm
  have hpathT {a : Nat} (ha : a ∈ pathAddrs path) (hb : a = p ∨ (a = n ∨ a ∈ addrs A ∨ a = t ∨ a ∈ addrs B ∨ a ∈ addrs C) ∨
      a ∈ addrs D) : False := by
    refine hdisjoint ?_ ha
    simp only [mem_addrs_branch]
    exact hb
  have hpPath : p ∉ pathAddrs path := fun ha => hpathT ha (.inl rfl)
  have hnPath : n ∉ pathAddrs path := fun ha => hpathT ha (.inr (.inl (.inl rfl)))
  have htPath : t ∉ pathAddrs path := fun ha => hpathT ha (.inr (.inl (.inr (.inr (.inl rfl)))))
  have hBPath {a : Nat} (ha : a ∈ addrs B) : a ∉ pathAddrs path := fun hb =>
    hpathT hb (.inr (.inl (.inr (.inr (.inr (.inl ha))))))
  have hCPath {a : Nat} (ha : a ∈ addrs C) : a ∉ pathAddrs path := fun hb =>
    hpathT hb (.inr (.inl (.inr (.inr (.inr (.inr ha))))))
  simp only [top_branch] at hp hn hpath
  rw [doubleRotate]
  refine meets_nodeAt hn ?_
  simp only [Node.child_other_of]
  refine meets_nodeAt ht (meets_modifyAt hn ?_)
  simp only [Node.child_of, Node.setChild_other_of]
  refine meets_nodeAt (n := .of d cn (top A) (top B) (some p)) (by simp) ?_
  simp only [Node.child_other_of]
  refine meets_adopt (fun b hb => ?_) ?_
  · have hbn : b ≠ n := fun heq => hnB (mem_addrs_of_top (heq ▸ hb))
    rw [put_nodes, if_neg hbn]
    exact isSome_of_top hB hb
  refine meets_nodeAt (n := .of d cn (top A) (top B) (some p)) (by simp [top_ne hnB]) ?_
  simp only [Node.parent_of]
  refine meets_nodeAt (n := .of d cp (some n) (top D) (above path)) (by simp [top_ne hpB, hpn, hp]) ?_
  refine meets_modifyAt (n := .of d ct (top B) (top C) (some n)) (by simp [top_ne htB, htn, ht]) ?_
  simp only [Node.parent_of, Node.setParent_of]
  refine meets_nodeAt (n := .of d cn (top A) (top B) (some p)) (by simp [top_ne hnB, hnt]) ?_
  simp only [Node.parent_of]
  refine meets_replaceChild path (n := .of d ct (top B) (top C) (above path)) (by simp)
    Node.parent_of (hpath.congr fun a ha => ?_) hpPath ?_
  · have han : a ≠ n := fun heq => hnPath (heq ▸ ha)
    have hat : a ≠ t := fun heq => htPath (heq ▸ ha)
    simp [han, hat, top_ne fun haB => hBPath haB ha]
  refine meets_nodeAt (n := .of d cn (top A) (top B) (some p)) (by simp [top_ne hnB, hnt, above_ne hnPath]) ?_
  refine meets_nodeAt (n := .of d ct (top B) (top C) (above path)) (by simp [above_ne htPath]) ?_
  simp only [Node.parent_of, Node.child_other_of]
  refine meets_modifyAt (n := .of d cp (some n) (top D) (above path))
    (by simp [top_ne hpB, hpt, hpn, hp, above_ne hpPath]) ?_
  simp only [Node.setChild_of]
  refine meets_nodeAt (n := .of d cn (top A) (top B) (some p)) (by simp [top_ne hnB, hnt, hnp, above_ne hnPath]) ?_
  simp only [Node.parent_of]
  refine meets_nodeAt (n := .of d cp (top C) (top D) (above path)) (by simp) ?_
  simp only [Node.child_of]
  refine meets_adopt (fun b hb => ?_) ?_
  · have hbC := mem_addrs_of_top hb
    have hbn : b ≠ n := fun heq => hnC (heq ▸ hbC)
    have hbp : b ≠ p := fun heq => hpC (heq ▸ hbC)
    have hbt : b ≠ t := fun heq => htC (heq ▸ hbC)
    simp [hbn, hbp, hbt, above_ne (hCPath hbC), top_ne fun hbB => hBC hbB hbC, isSome_of_top hC hb]
  refine meets_nodeAt (n := .of d cn (top A) (top B) (some p))
    (by simp [top_ne hnB, top_ne hnC, hnt, hnp, above_ne hnPath]) ?_
  refine meets_modifyAt (n := .of d ct (top B) (top C) (above path)) (by simp [top_ne htC, htp, above_ne htPath]) ?_
  simp only [Node.parent_of, Node.setChild_other_of]
  refine meets_nodeAt (n := .of d ct (top B) (some p) (above path)) (by simp) ?_
  simp only [Node.child_other_of]
  refine meets_modifyAt (n := .of d cp (top C) (top D) (above path)) (by simp [hpt, top_ne hpC]) ?_
  refine meets_modifyAt (n := .of d ct (top B) (some p) (above path)) (by simp [htp]) ?_
  refine meets_modifyAt (n := .of d cn (top A) (top B) (some p))
    (by simp [top_ne hnB, top_ne hnC, hnt, hnp, above_ne hnPath]) ?_
  simp only [Node.setParent_of, Node.setChild_of]
  refine meets_restoreBalance htn htp hnp
    (show _ = some (Node.of d ct (some n) (some p) (above path)) by simp [htn])
    (show _ = some (Node.of d cn (top A) (top B) (some t)) by simp)
    (show _ = some (Node.of d cp (top C) (top D) (some t)) by simp [hpn, hpt]) ?_
  refine ⟨⟨rfl, rfl, rfl⟩, h.replace ?_ (rep_branch.mpr ⟨?_, rep_branch.mpr ⟨?_, hA.congr fun a ha => ?_, ?_⟩,
    rep_branch.mpr ⟨?_, ?_, hD.congr fun a ha => ?_⟩⟩) ?_ (fun a ha => ?_) fun a ha hne => ?_⟩
  · cases d <;> simp [addrs, branch, inorder]
  · simp
  · simp [hnt, hnp]
  · have han : a ≠ n := fun heq => hnA (heq ▸ ha)
    have hap : a ≠ p := fun heq => hpA (heq ▸ ha)
    have hat : a ≠ t := fun heq => hATmp ha (mem_addrs_branch.mpr (.inl heq))
    have haB : a ∉ addrs B := fun haB => hATmp ha (mem_addrs_branch.mpr (.inr (.inl haB)))
    have haC : a ∉ addrs C := fun haC => hATmp ha (mem_addrs_branch.mpr (.inr (.inr haC)))
    have haPath : a ∉ pathAddrs path := fun hb => hpathT hb (.inr (.inl (.inr (.inl ha))))
    simp [han, hap, hat, top_ne haB, top_ne haC, above_ne haPath]
  · refine hB.adopt hnodupB fun a ha => ?_
    have han : a ≠ n := fun heq => hnB (heq ▸ ha)
    have hap : a ≠ p := fun heq => hpB (heq ▸ ha)
    have hat : a ≠ t := fun heq => htB (heq ▸ ha)
    simp [han, hap, hat, top_ne fun haC => hBC ha haC, above_ne (hBPath ha)]
  · simp [hpt]
  · refine hC.adopt hnodupC fun a ha => ?_
    have han : a ≠ n := fun heq => hnC (heq ▸ ha)
    have hap : a ≠ p := fun heq => hpC (heq ▸ ha)
    have hat : a ≠ t := fun heq => htC (heq ▸ ha)
    simp [han, hap, hat, top_ne fun haB => hBC haB ha, above_ne (hCPath ha)]
  · have hnot {b : Nat} (hb : b = n ∨ b ∈ addrs A ∨ b = t ∨ b ∈ addrs B ∨ b ∈ addrs C) : b ∉ addrs D := by
      refine fun hbD => hND ?_ hbD
      simp only [mem_addrs_branch]
      exact hb
    have han : a ≠ n := fun heq => hnot (.inl heq) ha
    have hap : a ≠ p := fun heq => hpD (heq ▸ ha)
    have hat : a ≠ t := fun heq => hnot (.inr (.inr (.inl heq))) ha
    have haB : a ∉ addrs B := fun haB => hnot (.inr (.inr (.inr (.inl haB)))) ha
    have haC : a ∉ addrs C := fun haC => hnot (.inr (.inr (.inr (.inr haC)))) ha
    have haPath : a ∉ pathAddrs path := fun hb => hpathT hb (.inr (.inr ha))
    simp [han, hap, hat, top_ne haB, top_ne haC, above_ne haPath]
  · simp
  · have han : a ≠ n := fun heq => above_ne hnPath (heq ▸ ha)
    have hap : a ≠ p := fun heq => above_ne hpPath (heq ▸ ha)
    have hat : a ≠ t := fun heq => above_ne htPath (heq ▸ ha)
    have hB : top B ≠ some a := fun hb => above_ne (hBPath (mem_addrs_of_top hb)) ha
    have hC : top C ≠ some a := fun hb => above_ne (hCPath (mem_addrs_of_top hb)) ha
    simp [han, hap, hat, ha, hB, hC]
  · simp only [mem_addrs_branch] at ha
    push Not at ha
    obtain ⟨hap, ⟨han, -, hat, haB, haC⟩, -⟩ := ha
    simp [han, hap, hat, hne, top_ne haB, top_ne haC]

end TC.Proof.AvlTree
