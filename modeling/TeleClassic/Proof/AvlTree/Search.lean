import TeleClassic.Framework.KeyTree
import TeleClassic.Framework.Ordered
import TeleClassic.Proof.AvlTree.Balance

/-!
# Lookups and insertions

A tree in memory is used as the list of its entries: `p_tree_lookup` returns what a lookup in
the list does (`pTreeLookup_eq`), and `p_tree_insert` puts an entry in its place, takes the
place of the one with the same key, or leaves the tree as it is (`meets_pTreeInsert`).
-/

namespace TC.Proof.AvlTree

open TC.LinkedTree
open TC.Impl.AvlTree
open TC.Prog

variable {K V O : Type} [LinearOrder O] {ord : K → O} {same : K → K → Bool} {cmp : K → K → Int}
  {s : PTree K V} {t : AddrTree (TreeCell K V)} {path : Path (TreeCell K V)} {key : K}

/-- The keys and values from left to right. -/
def entries (t : AddrTree (TreeCell K V)) : KeyTree K V := (inorder t).map fun a => (a.2.key, a.2.value)

abbrev keyOrd (ord : K → O) (c : TreeCell K V) : O := ord c.key

/-! ## Lookups -/

/-- The loop of the lookup, in a subtree. -/
theorem lookupFrom_eq {fuel : Nat} (hc : Compares cmp ord) (hsame : ∀ a b, same a b = true ↔ ord a = ord b)
    (h : Links s.nodes t) (ho : Ordered (keyOrd ord) t) (hfuel : t.height < fuel) :
    lookupFrom key fuel (top t) cmp s = (some (KeyTree.lookup same (entries t) key), s) := by
  induction t generalizing fuel with
  | nil =>
    obtain ⟨fuel, rfl⟩ := Nat.exists_eq_succ_of_ne_zero (Nat.ne_of_gt hfuel)
    rfl
  | node a l r ihl ihr =>
    obtain ⟨fuel, rfl⟩ := Nat.exists_eq_succ_of_ne_zero (Nat.ne_of_gt (Nat.zero_lt_of_lt hfuel))
    obtain ⟨⟨p, ha⟩, hl, hr⟩ := h
    obtain ⟨hol, hor, hless, hgreater⟩ := ordered_node.mp ho
    have hentries : entries (.node a l r) = entries l ++ (a.2.key, a.2.value) :: entries r := by
      simp [entries, inorder]
    have hmax := Nat.lt_of_succ_lt_succ (m := fuel) hfuel
    have hnot {b : Nat × TreeCell K V} (hb : ord b.2.key ≠ ord key) : same key b.2.key = false := by
      rw [← Bool.not_eq_true, hsame]
      exact fun heq => hb heq.symm
    have hnone {t : AddrTree (TreeCell K V)} (ht : ∀ b ∈ inorder t, ord b.2.key ≠ ord key) :
        KeyTree.lookup same (entries t) key = none := by
      refine KeyTree.lookup_eq_none_of_not fun e he => ?_
      obtain ⟨b, hb, rfl⟩ := List.mem_map.mp he
      exact hnot (ht b hb)
    rw [lookupFrom, top, if_neg (Option.some_ne_none _), bind_of_some (nodeAt_eq ha), bind_ask]
    dsimp only
    rw [hentries, KeyTree.lookup_append, KeyTree.lookup_cons]
    by_cases hlt : cmp key a.2.key < 0
    · have hkey := (hc.lt _ _).mp hlt
      rw [if_pos hlt, ihl hl hol (by omega), hnot hkey.ne', if_neg Bool.false_ne_true, 
        hnone fun b hb => (hkey.trans (hgreater b hb)).ne', Option.or_none]
    rw [if_neg hlt]
    by_cases hgt : cmp key a.2.key > 0
    · have hkey := (hc.gt _ _).mp hgt
      rw [if_pos hgt, ihr hr hor (by omega), hnot hkey.ne, if_neg Bool.false_ne_true,
        hnone fun b hb => ((hless b hb).trans hkey).ne, Option.none_or]
    · have hkey := hc.eq hlt hgt
      rw [if_neg hgt, if_pos ((hsame _ _).mpr hkey), hnone fun b hb => ((hless b hb).trans_eq hkey.symm).ne,
        Option.none_or]
      rfl

/-- What holds of the tree between two calls. -/
structure WellFormed (ord : K → O) (s : PTree K V) (t : AddrTree (TreeCell K V)) : Prop extends InMemory s t where
  balanced : Balanced TreeCell.balanceFactor t
  ordered : Ordered (keyOrd ord) t
  made : ∀ a ∈ addrs t, a < s.made
  nnodes : s.nnodes = BitVec.ofNat 32 (inorder t).length

theorem wellFormed_nil (hroot : s.root = none) (hnodes : s.nodes = fun _ => none) (hnnodes : s.nnodes = 0) :
    WellFormed ord s .nil where
  rep := trivial
  root := hroot
  nodup := List.nodup_nil
  only := fun a _ => congrFun hnodes a
  balanced := trivial
  ordered := List.Pairwise.nil
  made := nofun
  nnodes := hnnodes

/-- The number of nodes limits the turns of every loop. -/
theorem WellFormed.length_le (h : WellFormed ord s t) : (addrs t).length ≤ s.made := by
  have hsub : addrs t ⊆ List.range s.made := fun a ha => List.mem_range.mpr (h.made a ha)
  have hle := (h.nodup.subperm hsub).length_le
  rwa [List.length_range] at hle

theorem WellFormed.height_le (h : WellFormed ord s t) : t.height ≤ s.made := by
  refine (t.height_le_numNodes).trans ?_
  rw [numNodes_eq, ← List.length_map]
  exact h.length_le

theorem pTreeLookup_eq (hc : Compares cmp ord) (hsame : ∀ a b, same a b = true ↔ ord a = ord b)
    (h : WellFormed ord s t) : pTreeLookup key cmp s = (some (KeyTree.lookup same (entries t) key), s) := by
  rw [pTreeLookup, bind_get, h.root]
  exact lookupFrom_eq hc hsame h.rep.links h.ordered (Nat.lt_succ_of_le h.height_le)

/-! ## Insertions -/

/-- Where the pointer to the subtree at the end of a path is. -/
def linkOf : Path (TreeCell K V) → Link
  | [] => .root
  | f :: _ => .child f.value.1 f.side

theorem readLink_eq (h : InMemory s (plug path t)) :
    readLink (linkOf path) cmp s = (some (top t), s) := by
  cases path with
  | nil =>
    rw [linkOf, readLink, bind_get, h.root]
    rfl
  | cons f path =>
    have hnode := (rep_plug.mp h.rep).2.1
    rw [linkOf, readLink, bind_of_some (nodeAt_eq hnode), Node.child_of]
    rfl

/-- The loop that finds the place of a key. -/
theorem findLink_eq {fuel : Nat} {parentNode : Ptr} (hc : Compares cmp ord)
    (haround : Around (keyOrd ord) (ord key) path) (h : InMemory s (plug path t))
    (ho : Ordered (keyOrd ord) t) (hparent : parentNode = if path.isEmpty then s.root else above path)
    (hfuel : t.height < fuel) :
    ∃ path' t', plug path' t' = plug path t ∧ Around (keyOrd ord) (ord key) path' ∧
      (t' = .nil ∨ ∃ a l r, t' = .node a l r ∧ ord key = ord a.2.key) ∧
      findLink key fuel (linkOf path) parentNode cmp s =
        (some (linkOf path', top t', if path'.isEmpty then s.root else above path'), s) := by
  induction t generalizing fuel path parentNode with
  | nil =>
    obtain ⟨fuel, rfl⟩ := Nat.exists_eq_succ_of_ne_zero (Nat.ne_of_gt hfuel)
    refine ⟨path, .nil, rfl, haround, .inl rfl, ?_⟩
    rw [findLink, bind_of_some (readLink_eq h), hparent]
    rfl
  | node a l r ihl ihr =>
    obtain ⟨fuel, rfl⟩ := Nat.exists_eq_succ_of_ne_zero (Nat.ne_of_gt (Nat.zero_lt_of_lt hfuel))
    have hmax := Nat.lt_of_succ_lt_succ (m := fuel) hfuel
    have ha := (rep_plug.mp h.rep).1.1
    obtain ⟨hol, hor, -⟩ := ordered_node.mp ho
    rw [findLink, bind_of_some (readLink_eq h)]
    dsimp only [top]
    rw [bind_of_some (nodeAt_eq ha), bind_ask]
    dsimp only
    by_cases hlt : cmp key a.2.key < 0
    · rw [if_pos hlt]
      exact ihl (haround.left ho ((hc.lt _ _).mp hlt)) h hol rfl (by omega)
    rw [if_neg hlt]
    by_cases hgt : cmp key a.2.key > 0
    · rw [if_pos hgt]
      exact ihr (haround.right ho ((hc.gt _ _).mp hgt)) h hor rfl (by omega)
    · rw [if_neg hgt, hparent]
      exact ⟨path, .node a l r, rfl, haround, .inr ⟨a, l, r, rfl, hc.eq hlt hgt⟩, rfl⟩

theorem writeLink_eq {hole v : Ptr} (h : RepPath s.nodes hole path) :
    writeLink (linkOf path) v cmp s = (some (), relinked s path v) := by
  cases path with
  | nil => rfl
  | cons f path =>
    rw [linkOf, writeLink, modifyAt_eq h.1, ← put_eq_relinked h.1]

/-- Nothing is different if what is written is what was there. -/
theorem relinked_eq_self (h : InMemory s (plug path t)) :
    relinked s path (top t) = s := by
  obtain ⟨-, hpath⟩ := rep_plug.mp h.rep
  cases path with
  | nil =>
    rw [relinked]
    exact congrArg (fun root => { s with root := root }) h.root.symm
  | cons f path =>
    have hnode := hpath.1
    rw [← put_eq_relinked hnode, Node.setChild_of, PTree.put, ← hnode, Function.update_eq_self]

theorem InMemory.congr (h : InMemory s t) {s' : PTree K V} (hnodes : s'.nodes = s.nodes)
    (hroot : s'.root = s.root) : InMemory s' t :=
  ⟨hnodes ▸ h.rep, hroot ▸ h.root, h.nodup, hnodes ▸ h.only⟩

/-- A new node at the end of a path. -/
theorem InMemory.attach {n : Nat} {c : TreeCell K V} (h : InMemory s (plug path .nil))
    (hn : n ∉ addrs (plug path .nil)) :
    InMemory (relinked (s.put n ⟨c, none, none, above path⟩) path (some n)) (plug path (.node (n, c) .nil .nil)) := by
  have hnPath : n ∉ pathAddrs path := fun hmem =>
    hn ((addrs_plug path .nil).mem_iff.mpr (List.mem_append_right _ hmem))
  have haddrs : addrs (.node (n, c) .nil .nil : AddrTree (TreeCell K V)) = [n] := rfl
  refine h.graft (List.nil_subset _) ?_ ?_ ⟨?_, trivial, trivial⟩ ?_ (fun a ha => ?_) fun a ha hne => ?_
  · rw [haddrs]
    exact List.nodup_singleton n
  · rw [haddrs]
    exact List.singleton_disjoint.mpr hnPath
  · simp [above_ne hnPath]
  · rfl
  · have han : a ≠ n := fun heq => above_ne hnPath (heq ▸ ha)
    simp [ha, han, top]
  · rw [haddrs, List.mem_singleton] at ha
    simp [hne, ha]

theorem entries_eq_contents (t : AddrTree (TreeCell K V)) : entries t = (contents t).map (·.2) := by
  rw [entries, contents, List.map_map]
  rfl

theorem addrs_eq_contents (t : AddrTree (TreeCell K V)) : addrs t = (contents t).map (·.1) := by
  rw [addrs, contents, List.map_map]
  rfl

theorem ordered_iff_contents (t : AddrTree (TreeCell K V)) :
    Ordered (keyOrd ord) t ↔ (contents t).Pairwise fun a b => ord a.2.1 < ord b.2.1 := by
  rw [Ordered, contents, List.pairwise_map]

/-- The entries before the end of a path, and after it. -/
def entriesBefore (path : Path (TreeCell K V)) : KeyTree K V := (before path).map fun a => (a.2.key, a.2.value)

def entriesAfter (path : Path (TreeCell K V)) : KeyTree K V := (after path).map fun a => (a.2.key, a.2.value)

theorem entries_plug (path : Path (TreeCell K V)) (t : AddrTree (TreeCell K V)) :
    entries (plug path t) = entriesBefore path ++ entries t ++ entriesAfter path := by
  rw [entries, inorder_plug, List.map_append, List.map_append]
  rfl

/-- What an insertion does to the entries, and to the keys that are destroyed. -/
inductive Inserts (ord : K → O) (malloc : Bool) (key : K) (value : V) :
    KeyTree K V × List K → KeyTree K V × List K → Prop
  | replaced {before after : KeyTree K V} {old : K × V} {destroyed : List K} (hold : ord key = ord old.1)
      (hbefore : ∀ e ∈ before, ord e.1 < ord key) :
      Inserts ord malloc key value (before ++ old :: after, destroyed)
        (before ++ (key, value) :: after, destroyed ++ [old.1])
  | added {before after : KeyTree K V} {destroyed : List K} (hmalloc : malloc = true)
      (hbefore : ∀ e ∈ before, ord e.1 < ord key) (hafter : ∀ e ∈ after, ord key < ord e.1) :
      Inserts ord malloc key value (before ++ after, destroyed) (before ++ (key, value) :: after, destroyed)
  | refused {entries : KeyTree K V} {destroyed : List K} (hmalloc : malloc = false)
      (hentries : ∀ e ∈ entries, ord e.1 ≠ ord key) :
      Inserts ord malloc key value (entries, destroyed) (entries, destroyed)

theorem lt_of_mem_entriesBefore {k : O} (h : Around (keyOrd ord) k path) :
    ∀ e ∈ entriesBefore path, ord e.1 < k := by
  intro e he
  obtain ⟨a, ha, rfl⟩ := List.mem_map.mp he
  exact h.before a ha

theorem lt_of_mem_entriesAfter {k : O} (h : Around (keyOrd ord) k path) :
    ∀ e ∈ entriesAfter path, k < ord e.1 := by
  intro e he
  obtain ⟨a, ha, rfl⟩ := List.mem_map.mp he
  exact h.after a ha

/-- What an insertion leaves, before the number of nodes is counted up. -/
def Inserted (ord : K → O) (malloc : Bool) (key : K) (value : V) (s : PTree K V) (t : AddrTree (TreeCell K V))
    (s' : PTree K V) : Prop :=
  ∃ t', WellFormed ord s' t' ∧ Inserts ord malloc key value (entries t, s.destroyed) (entries t', s'.destroyed)

/-- The entry with the same key is replaced. -/
theorem WellFormed.replaced {malloc : Bool} {value : V} {a : Nat × TreeCell K V}
    {l r : AddrTree (TreeCell K V)} (h : WellFormed ord s (plug path (.node a l r)))
    (haround : Around (keyOrd ord) (ord key) path) (hkey : ord key = ord a.2.key) :
    Inserted ord malloc key value s (plug path (.node a l r))
      (({ s with destroyed := s.destroyed ++ [a.2.key] } : PTree K V).put a.1
        ⟨{ a.2 with key := key, value := value }, top l, top r, above path⟩) := by
  have hcell := InMemory.setCell (d := .left) h.toInMemory { a.2 with key := key, value := value }
  have hinorder {b : Nat × TreeCell K V} : inorder (plug path (.node b l r)) =
      before path ++ (inorder l ++ b :: inorder r) ++ after path := inorder_plug _ _
  refine ⟨plug path (.node (a.1, { a.2 with key := key, value := value }) l r), ⟨hcell.congr rfl rfl, ?_, ?_, ?_, ?_⟩, ?_⟩
  · exact Balanced.replace (d := .left) h.balanced rfl
  · exact h.ordered.replace hkey
  · have haddrs : addrs (plug path (.node (a.1, { a.2 with key := key, value := value }) l r)) =
        addrs (plug path (.node a l r)) := by
      rw [addrs, addrs, hinorder, hinorder]
      simp
    rw [haddrs]
    exact h.made
  · refine h.nnodes.trans ?_
    rw [hinorder, hinorder]
    simp
  · have hbefore : ∀ e ∈ entriesBefore path ++ entries l, ord e.1 < ord key := by
      intro e he
      rcases List.mem_append.mp he with he | he
      · exact lt_of_mem_entriesBefore haround e he
      · obtain ⟨b, hb, rfl⟩ := List.mem_map.mp he
        obtain ⟨-, -, hless, -⟩ := ordered_node.mp h.ordered.of_plug
        exact (hless b hb).trans_eq hkey.symm
    have hentries {b : Nat × TreeCell K V} : entries (plug path (.node b l r)) =
        (entriesBefore path ++ entries l) ++ (b.2.key, b.2.value) :: (entries r ++ entriesAfter path) := by
      rw [entries_plug]
      simp [entries, inorder]
    rw [hentries, hentries]
    exact .replaced hkey hbefore

/-- A node is added. -/
theorem WellFormed.added {value : V} (h : WellFormed ord s (plug path .nil))
    (haround : Around (keyOrd ord) (ord key) path) :
    Meets cmp (relinked ({ (s.put s.made ⟨⟨key, value, 0⟩, none, none, above path⟩) with made := s.made + 1 }) path
        (some s.made)) (ppTreeAvlBalanceInsert (s.made + 1) (some s.made))
      (fun _ s' => Inserted ord true key value s (plug path .nil) { s' with nnodes := s'.nnodes + 1 })
      fun _ => False := by
  have hfresh : s.made ∉ addrs (plug path .nil) := fun hmem => lt_irrefl _ (h.made _ hmem)
  have hattach : InMemory (relinked { (s.put s.made ⟨⟨key, value, 0⟩, none, none, above path⟩) with
      made := s.made + 1 } path (some s.made)) (plug path (.node (s.made, ⟨key, value, 0⟩) .nil .nil)) :=
    (h.toInMemory.attach hfresh).congr rfl rfl
  have hpath := (balanced_plug.mp h.balanced).2
  have hlength : path.length ≤ s.made := by
    have hle := h.length_le
    rw [(addrs_plug path .nil).length_eq, List.length_append] at hle
    exact (length_le_pathAddrs path).trans (by omega)
  refine (meets_balanceInsert (h := 0) hattach rfl ⟨rfl, by simp, trivial, trivial⟩ rfl hpath (fun h => absurd rfl h)
    (Nat.lt_succ_of_le hlength)).mono fun _ s' hs' => ?_
  obtain ⟨hsame, t', hmemory, hbalanced, hcontents⟩ := hs'
  have hinorder : inorder (plug path (.node (s.made, (⟨key, value, 0⟩ : TreeCell K V)) .nil .nil)) =
      before path ++ (s.made, ⟨key, value, 0⟩) :: after path := by
    rw [inorder_plug]
    simp [inorder]
  have hold : inorder (plug path .nil) = before path ++ after path := by
    rw [inorder_plug, inorder, List.append_nil]
  refine ⟨t', ⟨hmemory.congr rfl rfl, hbalanced, ?_, fun a ha => ?_, ?_⟩, ?_⟩
  · rw [ordered_iff_contents, hcontents, ← ordered_iff_contents]
    exact haround.insert h.ordered
  · rw [addrs_eq_contents, hcontents, ← addrs_eq_contents, addrs, hinorder] at ha
    have hmade := h.made a
    rw [addrs, hold] at hmade
    show a < s'.made
    rw [hsame.made]
    show a < s.made + 1
    simp only [List.map_append, List.map_cons, List.mem_append, List.mem_cons] at ha hmade
    obtain ha | rfl | ha := ha
    · exact Nat.lt_succ_of_lt (hmade (.inl ha))
    · exact Nat.lt_succ_self _
    · exact Nat.lt_succ_of_lt (hmade (.inr ha))
  · have hlength := congrArg List.length hcontents
    rw [contents, List.length_map, contents, List.length_map, hinorder] at hlength
    have hcount := h.nnodes
    rw [hold] at hcount
    show s'.nnodes + 1 = _
    rw [hsame.nnodes, hlength]
    show s.nnodes + 1 = _
    rw [hcount]
    rw [List.length_append, List.length_append, List.length_cons, ← Nat.add_assoc, BitVec.ofNat_add _ 1]
    rfl
  · have hdestroyed : s'.destroyed = s.destroyed := hsame.destroyed
    rw [entries_eq_contents t', hcontents, ← entries_eq_contents, entries_plug, entries_plug]
    simp only [entries, inorder, List.nil_append, List.map_nil, List.map_cons, List.append_nil, List.append_assoc,
      List.singleton_append]
    rw [hdestroyed]
    exact .added rfl (lt_of_mem_entriesBefore haround) (lt_of_mem_entriesAfter haround)

/-- Without memory for a node, nothing is different. -/
theorem WellFormed.refused {value : V} (h : WellFormed ord s (plug path .nil))
    (haround : Around (keyOrd ord) (ord key) path) : Inserted ord false key value s (plug path .nil) s := by
  refine ⟨_, h, .refused rfl fun e he => ?_⟩
  rw [entries_plug, List.append_assoc, List.mem_append, List.mem_append] at he
  obtain he | he | he := he
  · exact (lt_of_mem_entriesBefore haround e he).ne
  · cases he
  · exact (lt_of_mem_entriesAfter haround e he).ne'

theorem meets_pTreeAvlInsert (hc : Compares cmp ord) (h : WellFormed ord s t) (malloc : Bool)
    (key : K) (value : V) : Meets cmp s (pTreeAvlInsert malloc key value)
      (fun added s' => Inserted ord malloc key value s t (if added then { s' with nnodes := s'.nnodes + 1 } else s'))
      fun _ => False := by
  obtain ⟨path, t', ht, haround, hplace, hfind⟩ := findLink_eq hc (Around.nil (k := ord key)) h.toInMemory h.ordered
    (if_pos rfl).symm (Nat.lt_succ_of_le h.height_le)
  rw [plug] at ht
  subst ht
  refine meets_get (meets_get (meets_bind_of_some hfind ?_))
  dsimp only
  obtain rfl | ⟨a, l, r, rfl, hkey⟩ := hplace
  · have hparent : (if path.isEmpty then s.root else above path) = above path := by
      cases path with
      | nil => exact h.root
      | cons f path => rfl
    rw [hparent, top]
    dsimp only
    cases malloc with
    | false =>
      have hself : relinked s path none = s := relinked_eq_self h.toInMemory
      refine meets_bind_of_some (writeLink_eq (rep_plug.mp h.rep).2) (meets_pure ?_)
      rw [if_neg Bool.false_ne_true, hself]
      exact h.refused haround
    | true =>
      have hfresh : ∀ a ∈ pathAddrs path, a ≠ s.made := by
        rintro a ha rfl
        exact lt_irrefl _ (h.made _ ((addrs_plug _ _).mem_iff.mpr (List.mem_append_right _ ha)))
      have hpath := (rep_plug.mp h.rep).2.congr fun a ha => Function.update_of_ne (hfresh a ha)
        (some ⟨⟨key, value, 0⟩, none, none, above path⟩) s.nodes
      refine meets_bind_of_some rfl (meets_bind_of_some (writeLink_eq hpath) ?_)
      exact meets_bind (h.added haround) fun _ s' hs' => meets_pure hs'
  · have hnode := (rep_plug.mp h.rep).1.1
    refine meets_nodeAt hnode (meets_bind_of_some rfl (meets_modifyAt hnode (meets_pure ?_)))
    exact h.replaced haround hkey

theorem meets_pTreeInsert (hc : Compares cmp ord) (h : WellFormed ord s t) (malloc : Bool)
    (key : K) (value : V) : Meets cmp s (pTreeInsert malloc key value)
      (fun _ => Inserted ord malloc key value s t) fun _ => False := by
  refine meets_bind (meets_pTreeAvlInsert hc h malloc key value) fun added s' hs' => ?_
  cases added with
  | false => exact meets_pure hs'
  | true => exact meets_of_some rfl hs'

end TC.Proof.AvlTree
