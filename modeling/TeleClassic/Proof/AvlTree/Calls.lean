import TeleClassic.Framework.Run
import TeleClassic.Proof.AvlTree.Clear

/-!
# The tree in use

Any calls on a tree, whatever memory they get, never follow `NULL` or a pointer to a freed
node, and their lookups return what they do in a `KeyTree` (`calls_refine`). The height of the
tree is logarithmic. A key that was given to `p_tree_insert` is in the tree or was destroyed,
not both and not twice, unless there was no memory for its node.
-/

namespace TC.Proof.AvlTree

open TC.LinkedTree
open TC.Impl.AvlTree

variable {K V O : Type} [LinearOrder O] {ord : K → O} {same : K → K → Bool} {cmp : K → K → Int} {s : PTree K V}

/-! ## The entries as a tree of keys -/

/-- An insertion that gets memory or not. -/
def insertEntry (same : K → K → Bool) (malloc : Bool) (tree : KeyTree K V) (key : K) (value : V) : KeyTree K V :=
  if (KeyTree.lookup same tree key).isSome ∨ malloc then KeyTree.insert same tree key value else tree

/-- All lookups agree. -/
def Agree (same : K → K → Bool) (entries tree : KeyTree K V) : Prop :=
  ∀ key, KeyTree.lookup same entries key = KeyTree.lookup same tree key

theorem Inserts.agree {malloc : Bool} {key : K} {value : V} {before after tree : KeyTree K V} {destroyed destroyed' : List K}
    (hsame : ∀ a b, same a b = true ↔ ord a = ord b)
    (h : Inserts ord malloc key value (before, destroyed) (after, destroyed')) (hagree : Agree same before tree) :
    Agree same after (insertEntry same malloc tree key value) := by
  intro k
  have hinsert (hfound : (KeyTree.lookup same tree key).isSome ∨ malloc) :
      KeyTree.lookup same (insertEntry same malloc tree key value) k =
        if same k key then some value else KeyTree.lookup same before k := by
    rw [insertEntry, if_pos hfound, KeyTree.lookup_insert hsame, hagree]
  cases h with
  | @replaced l r old _ hold hbefore =>
    have hmiddle {k' : K} : KeyTree.lookup same (l ++ old :: r) k' =
        if same k' old.1 then some old.2 else KeyTree.lookup same (l ++ r) k' :=
      KeyTree.lookup_middle hsame fun e he => ((hbefore e he).trans_eq hold).ne
    have hkey : same k old.1 = same k key := by rw [Bool.eq_iff_iff, hsame, hsame, hold]
    rw [hinsert (.inl ?_), KeyTree.lookup_middle hsame fun e he => (hbefore e he).ne, hmiddle, hkey]
    · split <;> rfl
    · rw [← hagree, hmiddle, if_pos ((hsame _ _).mpr hold)]
      rfl
  | added hmalloc hbefore hafter =>
    rw [hinsert (.inr hmalloc), KeyTree.lookup_middle hsame fun e he => (hbefore e he).ne]
  | refused hmalloc hentries =>
    have hnone : KeyTree.lookup same before key = none := by
      refine KeyTree.lookup_eq_none_of_not fun e he => ?_
      rw [← Bool.not_eq_true, hsame]
      exact fun heq => hentries e he heq.symm
    rw [insertEntry, ← hagree, hnone, if_neg (by simp [hmalloc])]
    exact hagree k

/-! ## Calls -/

/-- The tree of keys, and what the lookups in it returned. -/
structure KeyUse (K V : Type) where
  tree : KeyTree K V
  found : List (Option V)

def keyStep (same : K → K → Bool) (a : KeyUse K V) : Call K V → KeyUse K V
  | .insert malloc key value => { a with tree := insertEntry same malloc a.tree key value }
  | .lookup key => { a with found := a.found ++ [KeyTree.lookup same a.tree key] }
  | .clear => { a with tree := [] }

/-- The keys that a call gives to the tree. -/
def givenKeys : Call K V → List K
  | .insert _ key _ => [key]
  | _ => []

/-- The keys for which a call has no memory. -/
def failedKeys : Call K V → List K
  | .insert false key _ => [key]
  | _ => []

/-- The keys that the tree has, or has destroyed. -/
def heldKeys (s : PTree K V) (t : AddrTree (TreeCell K V)) : List K := s.destroyed ++ (entries t).map (·.1)

/-- The tree `t` is in memory, and is used as the tree of keys. -/
structure Refines (ord : K → O) (same : K → K → Bool) (u : Use K V) (a : KeyUse K V) (t : AddrTree (TreeCell K V)) : Prop where
  wellFormed : WellFormed ord u.tree t
  agree : Agree same (entries t) a.tree
  found : u.found = a.found

theorem Inserts.held {malloc : Bool} {key : K} {value : V} {before after : KeyTree K V} {destroyed destroyed' : List K}
    (h : Inserts ord malloc key value (before, destroyed) (after, destroyed')) :
    ∃ lost, List.Sublist lost (failedKeys (.insert malloc key value)) ∧
      (destroyed ++ before.map (·.1) ++ [key]).Perm (destroyed' ++ after.map (·.1) ++ lost) := by
  cases h with
  | replaced hold hbefore =>
    refine ⟨[], List.nil_sublist _, ?_⟩
    simp only [List.map_append, List.map_cons, List.append_assoc, List.append_nil, List.cons_append, List.nil_append]
    refine List.Perm.append_left _ (List.perm_middle.trans (List.Perm.cons _ ?_))
    rw [← List.append_assoc]
    exact (List.perm_append_singleton key _).trans List.perm_middle.symm
  | added hmalloc hbefore hafter =>
    refine ⟨[], List.nil_sublist _, ?_⟩
    simp only [List.map_append, List.map_cons, List.append_assoc, List.append_nil]
    refine List.Perm.append_left _ ?_
    rw [← List.append_assoc]
    exact (List.perm_append_singleton key _).trans List.perm_middle.symm
  | refused hmalloc hentries =>
    subst hmalloc
    exact ⟨[key], List.Sublist.refl _, List.Perm.refl _⟩

/-- What a call that does not stop leaves. -/
theorem after_eq {α : Type} {u : Use K V} {p : TreeM K V α} {found : α → List (Option V)} {a : α} {tree : PTree K V}
    (h : p cmp u.tree = (some a, tree)) : u.after cmp p found = some ⟨tree, u.found ++ found a⟩ := by
  rw [Use.after, h]

theorem Refines.step {u : Use K V} {a : KeyUse K V} {t : AddrTree (TreeCell K V)} (hc : Compares cmp ord)
    (hsame : ∀ a b, same a b = true ↔ ord a = ord b) (h : Refines ord same u a t) (call : Call K V) :
    ∃ u' t' lost, callStep cmp u call = some u' ∧ Refines ord same u' (keyStep same a call) t' ∧
      List.Sublist lost (failedKeys call) ∧ (heldKeys u.tree t ++ givenKeys call).Perm (heldKeys u'.tree t' ++ lost) := by
  cases call with
  | insert malloc key value =>
    obtain ⟨_, tree, hrun, t', hwf, hinserts⟩ := (meets_pTreeInsert hc h.wellFormed malloc key value).returns
    obtain ⟨lost, hlost, hperm⟩ := hinserts.held
    refine ⟨_, t', lost, after_eq hrun, ⟨hwf, hinserts.agree hsame h.agree, ?_⟩, hlost, hperm⟩
    exact (List.append_nil _).trans h.found
  | lookup key =>
    refine ⟨_, t, [], after_eq (pTreeLookup_eq hc hsame h.wellFormed), ⟨h.wellFormed, h.agree, ?_⟩, List.nil_sublist _, .refl _⟩
    rw [h.found, h.agree]
    rfl
  | clear =>
    refine ⟨_, .nil, [], after_eq (pTreeClear_eq h.wellFormed), ⟨wellFormed_nil rfl rfl rfl, fun _ => rfl, ?_⟩,
      List.nil_sublist _, ?_⟩
    · exact (List.append_nil _).trans h.found
    · simp only [heldKeys, givenKeys, List.append_nil, entries, inorder, List.map_nil]
      exact .refl _

/-- Any calls. -/
theorem Refines.run {u : Use K V} {a : KeyUse K V} {t : AddrTree (TreeCell K V)} (hc : Compares cmp ord)
    (hsame : ∀ a b, same a b = true ↔ ord a = ord b) (h : Refines ord same u a t) (calls : List (Call K V)) :
    ∃ u' t' lost, TC.run (callStep cmp) u calls = some u' ∧ Refines ord same u' (calls.foldl (keyStep same) a) t' ∧
      List.Sublist lost (calls.flatMap failedKeys) ∧
      (heldKeys u.tree t ++ calls.flatMap givenKeys).Perm (heldKeys u'.tree t' ++ lost) := by
  induction calls generalizing u a t with
  | nil => exact ⟨u, t, [], rfl, h, List.nil_sublist _, .refl _⟩
  | cons call calls ih =>
    obtain ⟨u₁, t₁, lost₁, hstep, h₁, hsub₁, hperm₁⟩ := h.step hc hsame call
    obtain ⟨u₂, t₂, lost₂, hrun, h₂, hsub₂, hperm₂⟩ := ih h₁
    refine ⟨u₂, t₂, lost₁ ++ lost₂, run_cons.mpr ⟨u₁, hstep, hrun⟩, h₂, hsub₁.append hsub₂, ?_⟩
    rw [List.flatMap_cons, ← List.append_assoc]
    refine (hperm₁.append_right _).trans ?_
    rw [List.append_assoc]
    refine (List.perm_append_comm.append_left _).trans ?_
    rw [← List.append_assoc]
    refine (hperm₂.append_right _).trans ?_
    rw [List.append_assoc]
    exact List.perm_append_comm.append_left _

theorem refines_new : Refines ord same (⟨.new, []⟩ : Use K V) ⟨[], []⟩ .nil :=
  ⟨wellFormed_nil rfl rfl rfl, fun _ => rfl, rfl⟩

/-- The lookups in the tree return what those in the `KeyTree` do, and the tree that is in
memory is balanced. -/
theorem calls_refine (hc : Compares cmp ord) (calls : List (Call K V)) :
    ∃ u t, TC.run (callStep cmp) ⟨.new, []⟩ calls = some u ∧
      u.found = (calls.foldl (keyStep fun a b => cmp a b == 0) ⟨[], []⟩).found ∧ InMemory u.tree t ∧
      u.tree.nnodes = BitVec.ofNat 32 (inorder t).length ∧ Nat.fib (t.height + 2) ≤ (inorder t).length + 1 := by
  obtain ⟨u, t, -, hrun, h, -, -⟩ := refines_new.run hc hc.same calls
  refine ⟨u, t, hrun, h.found, h.wellFormed.toInMemory, h.wellFormed.nnodes, ?_⟩
  rw [← numNodes_eq]
  exact h.wellFormed.balanced.fib_le

/-- Numbers, compared by their difference. -/
def compareNat (a b : Nat) : Int := a - b

theorem compares_nat : Compares compareNat (id : Nat → Nat) := by
  constructor <;> intro a b <;> simp only [compareNat, id] <;> omega

/-- Three numbers in order, the second of which has to become the root. -/
def threeInOrder : List (Call Nat Nat) :=
  [.insert true 1 10, .insert true 2 20, .insert true 3 30, .lookup 2, .clear, .lookup 2]

theorem calls_refine_three : ∃ u t, TC.run (callStep compareNat) ⟨.new, []⟩ threeInOrder = some u ∧
    u.found = (threeInOrder.foldl (keyStep fun a b => compareNat a b == 0) ⟨[], []⟩).found ∧ InMemory u.tree t ∧
    u.tree.nnodes = BitVec.ofNat 32 (inorder t).length ∧ Nat.fib (t.height + 2) ≤ (inorder t).length + 1 :=
  calls_refine compares_nat threeInOrder

/-- A `p_tree_clear` after any calls leaves no node, and destroys what is left of the keys that
were given to the tree. Each was destroyed once, unless there was no memory for its node. -/
theorem keys_destroyed_once (hc : Compares cmp ord) (calls : List (Call K V)) :
    ∃ u lost, TC.run (callStep cmp) ⟨.new, []⟩ (calls ++ [.clear]) = some u ∧ (u.tree.nodes = fun _ => none) ∧
      u.tree.root = none ∧ u.tree.nnodes = 0 ∧ (calls.flatMap givenKeys).Perm (u.tree.destroyed ++ lost) ∧
      List.Sublist lost (calls.flatMap failedKeys) := by
  obtain ⟨u, t, lost, hrun, h, hsub, hperm⟩ := refines_new.run hc hc.same calls
  have hclear : callStep cmp u .clear = some ⟨_, _⟩ := after_eq (pTreeClear_eq h.wellFormed)
  exact ⟨_, lost, run_append.mpr ⟨u, hrun, run_cons.mpr ⟨_, hclear, rfl⟩⟩, rfl, rfl, rfl, hperm, hsub⟩

theorem keys_destroyed_once_three : ∃ u lost,
    TC.run (callStep compareNat) ⟨.new, []⟩ (threeInOrder ++ [.clear]) = some u ∧ (u.tree.nodes = fun _ => none) ∧
      u.tree.root = none ∧ u.tree.nnodes = 0 ∧ (threeInOrder.flatMap givenKeys).Perm (u.tree.destroyed ++ lost) ∧
      List.Sublist lost (threeInOrder.flatMap failedKeys) :=
  keys_destroyed_once compares_nat threeInOrder

end TC.Proof.AvlTree
