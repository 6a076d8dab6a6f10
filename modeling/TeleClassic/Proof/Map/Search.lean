import Mathlib.Data.List.Perm.Basic
import Mathlib.Data.Option.Basic
import Mathlib.Logic.Relation
import TeleClassic.Impl.Nbt

/-!
# Searches in reordered trees

Two trees that differ in the order of children inside compounds (`Reordered`) are
connected by swaps of two neighbours (`Swap`). Searches by path find the same in both,
if the children of every compound have different names (`found_path`). Searches by name
do so if in both trees the first child with a node of the name has it itself
(`FromChild`, `found_name`).
-/

namespace TC.Proof.Map

open TC.Impl.Nbt
open Relation (ReflTransGen)

variable {a b : Node} {k : String} {front : List Node} {back : List Node} {o o' : Option Node}

/-! ## Swaps -/

/-- Two neighbours change places in a compound somewhere in the tree. -/
inductive Swap : Node → Node → Prop where
  | here (n : Option String) (front : List Node) (a b : Node) (back : List Node) :
      Swap (.compound n (front ++ a :: b :: back)) (.compound n (front ++ b :: a :: back))
  | inCompound (n : Option String) (front : List Node) {a b : Node} (back : List Node) (h : Swap a b) :
      Swap (.compound n (front ++ a :: back)) (.compound n (front ++ b :: back))
  | inList (n : Option String) (front : List Node) {a b : Node} (back : List Node) (h : Swap a b) :
      Swap (.list n (front ++ a :: back)) (.list n (front ++ b :: back))

/-- Trees that differ only in the order of children inside compounds. -/
abbrev Reordered : Node → Node → Prop := ReflTransGen Swap

/-- Any order of the children of a compound can be reached. -/
theorem reordered_of_perm (n : Option String) {items items' : List Node} (h : items.Perm items') :
    Reordered (.compound n items) (.compound n items') := by
  have hfront : ∀ front, Reordered (.compound n (front ++ items)) (.compound n (front ++ items')) := by
    induction h with
    | nil => exact fun front => .refl
    | cons a _ ih =>
      intro front
      simpa using ih (front ++ [a])
    | swap a b items => exact fun front => .single (.here n front b a items)
    | trans _ _ ih ih' => exact fun front => (ih front).trans (ih' front)
  exact hfront []

theorem Reordered.inCompound (n : Option String) (front : List Node) (back : List Node) (h : Reordered a b) :
    Reordered (.compound n (front ++ a :: back)) (.compound n (front ++ b :: back)) := by
  induction h with
  | refl => exact .refl
  | tail _ hswap ih => exact ih.tail (.inCompound n front back hswap)

theorem Swap.name (h : Swap a b) : b.name = a.name := by
  cases h with
  | _ => rfl

theorem Reordered.name (h : Reordered a b) : b.name = a.name := by
  induction h with
  | refl => rfl
  | tail _ hswap ih => exact hswap.name.trans ih

theorem forall₂_inside (h : Reordered a b) :
    List.Forall₂ Reordered (front ++ a :: back) (front ++ b :: back) := by
  have hrefl (items : List Node) : List.Forall₂ Reordered items items := List.forall₂_same.mpr fun _ _ => .refl
  exact List.rel_append (hrefl front) (.cons h (hrefl back))

theorem forall₂_trans {as bs cs : List Node} (h : List.Forall₂ Reordered as bs) (h' : List.Forall₂ Reordered bs cs) :
    List.Forall₂ Reordered as cs := by
  induction h generalizing cs with
  | nil => exact h'
  | cons hab _ ih =>
    cases h' with
    | cons hbc h' => exact .cons (hab.trans hbc) (ih h')

/-- The children of a reordered node are those of the node, reordered. -/
theorem Reordered.items (h : Reordered a b) :
    ∃ items, a.items.Perm items ∧ List.Forall₂ Reordered items b.items := by
  induction h with
  | refl => exact ⟨a.items, .refl _, List.forall₂_same.mpr fun _ _ => .refl⟩
  | @tail b c _ hswap ih =>
    obtain ⟨items, hperm, hitems⟩ := ih
    have hstep {next : List Node} (h : List.Forall₂ Reordered b.items next) :
        ∃ items, a.items.Perm items ∧ List.Forall₂ Reordered items next :=
      ⟨items, hperm, forall₂_trans hitems h⟩
    cases hswap with
    | here n front x y back =>
      have hswapped : (front ++ x :: y :: back).Perm (front ++ y :: x :: back) :=
        List.Perm.append_left front (List.Perm.swap y x back)
      have hcomm : Relation.Comp (List.Forall₂ Reordered) List.Perm items (front ++ y :: x :: back) :=
        ⟨_, hitems, hswapped⟩
      rw [List.forall₂_comp_perm_eq_perm_comp_forall₂] at hcomm
      obtain ⟨items', hperm', hitems'⟩ := hcomm
      exact ⟨items', hperm.trans hperm', hitems'⟩
    | inCompound n front back hxy => exact hstep (forall₂_inside (.single hxy))
    | inList n front back hxy => exact hstep (forall₂_inside (.single hxy))

/-! ## Different names -/

mutual

/-- The children of every compound have different names. -/
def Distinct : Node → Prop
  | .leaf _ _ => True
  | .list _ items => DistinctAll items
  | .compound _ items => (items.map Node.name).Nodup ∧ DistinctAll items

def DistinctAll : List Node → Prop
  | [] => True
  | item :: items => Distinct item ∧ DistinctAll items

end

theorem distinctAll_iff {items : List Node} : DistinctAll items ↔ ∀ item ∈ items, Distinct item := by
  induction items with
  | nil => simp [DistinctAll]
  | cons item items ih => simp [DistinctAll, ih]

theorem Distinct.child {c : Node} (h : Distinct a) (hc : c ∈ a.items) : Distinct c := by
  cases a with
  | leaf => cases hc
  | list n items => exact distinctAll_iff.mp h c hc
  | compound n items => exact distinctAll_iff.mp h.2 c hc

theorem Distinct.swap (hswap : Swap a b) (h : Distinct a) : Distinct b := by
  induction hswap with
  | here n front x y back =>
    obtain ⟨hnodup, hall⟩ := h
    have hperm : (front ++ y :: x :: back).Perm (front ++ x :: y :: back) :=
      List.Perm.append_left front (List.Perm.swap x y back)
    refine ⟨(hperm.map Node.name).nodup_iff.mpr hnodup, distinctAll_iff.mpr fun c hc => ?_⟩
    exact distinctAll_iff.mp hall c (hperm.mem_iff.mp hc)
  | @inCompound n front x y back hxy ih =>
    obtain ⟨hnodup, hall⟩ := h
    refine ⟨?_, ?_⟩
    · simpa [hxy.name] using hnodup
    · rw [distinctAll_iff] at hall ⊢
      intro c hc
      simp only [List.mem_append, List.mem_cons] at hc
      rcases hc with hc | rfl | hc
      · exact hall c (by simp [hc])
      · exact ih (hall x (by simp))
      · exact hall c (by simp [hc])
  | @inList n front x y back hxy ih =>
    have hall : ∀ item ∈ front ++ x :: back, Distinct item := distinctAll_iff.mp h
    refine distinctAll_iff.mpr fun c hc => ?_
    simp only [List.mem_append, List.mem_cons] at hc
    rcases hc with hc | rfl | hc
    · exact hall c (by simp [hc])
    · exact ih (hall x (by simp))
    · exact hall c (by simp [hc])

theorem Distinct.reordered (hr : Reordered a b) (h : Distinct a) : Distinct b := by
  induction hr with
  | refl => exact h
  | tail _ hswap ih => exact ih.swap hswap

/-! ## Searches by path -/

/-- Two searches find nothing, or a node and one that is reordered. -/
abbrev Found : Option Node → Option Node → Prop := Option.Rel Reordered

theorem found_refl (o : Option Node) : Found o o := by
  cases o with
  | none => exact .none
  | some a => exact .some .refl

theorem Found.cases (h : Found o o') :
    (o = none ∧ o' = none) ∨ ∃ c c', o = some c ∧ o' = some c' ∧ Reordered c c' := by
  cases h with
  | none => exact .inl ⟨rfl, rfl⟩
  | some h => exact .inr ⟨_, _, rfl, rfl, h⟩

theorem Found.trans {o'' : Option Node} (h : Found o o') (h' : Found o' o'') : Found o o'' := by
  cases h with
  | none => exact h'
  | some h =>
    cases h' with
    | some h' => exact .some (h.trans h')

theorem found_inside {f : Node → Option Node} (front back : List Node) (h : Found (f a) (f b)) :
    Found ((front ++ a :: back).findSome? f) ((front ++ b :: back).findSome? f) := by
  simp only [List.findSome?_append, List.findSome?_cons]
  cases front.findSome? f with
  | some c => exact .some .refl
  | none =>
    revert h
    generalize f a = found
    generalize f b = found'
    intro h
    cases h with
    | none => exact found_refl _
    | some h => exact .some h

/-- At most one of two neighbours is found. -/
theorem findSome?_neighbours {f : Node → Option Node} (front back : List Node) (h : f a = none ∨ f b = none) :
    (front ++ a :: b :: back).findSome? f = (front ++ b :: a :: back).findSome? f := by
  simp only [List.findSome?_append, List.findSome?_cons]
  rcases h with h | h
  · rw [h]
  · rw [h]

theorem nbtFindByPath_eq_none {p : String} {ps : List String} (h : a.name ≠ some p) :
    nbtFindByPath (p :: ps) a = none := by
  cases ps with
  | nil => exact if_neg h
  | cons q qs => exact if_neg h

theorem names_ne {n : Option String} (h : Distinct (.compound n (front ++ a :: b :: back))) :
    a.name ≠ b.name := by
  have hnodup := h.1
  simp only [List.map_append, List.map_cons, List.nodup_append, List.nodup_cons, List.mem_cons] at hnodup
  exact fun heq => hnodup.2.1.1 (.inl heq)

theorem findSome?_distinct {n : Option String} (h : Distinct (.compound n (front ++ a :: b :: back)))
    (p : String) (ps : List String) :
    (front ++ a :: b :: back).findSome? (nbtFindByPath (p :: ps)) =
      (front ++ b :: a :: back).findSome? (nbtFindByPath (p :: ps)) := by
  apply findSome?_neighbours
  by_cases ha : a.name = some p
  · exact .inr (nbtFindByPath_eq_none fun hb => names_ne h (ha.trans hb.symm))
  · exact .inl (nbtFindByPath_eq_none ha)

theorem found_if {c : Prop} [Decidable c] (h : Found o o') :
    Found (if c then o else none) (if c then o' else none) := by
  by_cases hc : c
  · rw [if_pos hc, if_pos hc]
    exact h
  · rw [if_neg hc, if_neg hc]
    exact .none

/-- A search by path, from what it finds among the children. -/
theorem found_of_items (hswap : Swap a b)
    (hitems : ∀ p ps, Found (a.items.findSome? (nbtFindByPath (p :: ps))) (b.items.findSome? (nbtFindByPath (p :: ps))))
    (path : List String) : Found (nbtFindByPath path a) (nbtFindByPath path b) := by
  rcases path with _ | ⟨p, _ | ⟨q, ps⟩⟩
  · exact .none
  · simp only [nbtFindByPath, hswap.name]
    exact found_if (.some (.single hswap))
  · simp only [nbtFindByPath, hswap.name]
    exact found_if (hitems q ps)

theorem swap_findByPath (hswap : Swap a b) (h : Distinct a) (path : List String) :
    Found (nbtFindByPath path a) (nbtFindByPath path b) := by
  induction hswap generalizing path with
  | here n front x y back =>
    refine found_of_items (.here n front x y back) (fun p ps => ?_) path
    simp only [Node.items, findSome?_distinct h]
    exact found_refl _
  | @inCompound n front x y back hxy ih =>
    refine found_of_items (.inCompound n front back hxy) (fun p ps => ?_) path
    exact found_inside front back (ih (h.child (by simp [Node.items])) (p :: ps))
  | @inList n front x y back hxy ih =>
    refine found_of_items (.inList n front back hxy) (fun p ps => ?_) path
    exact found_inside front back (ih (h.child (by simp [Node.items])) (p :: ps))

theorem found_path (hr : Reordered a b) (h : Distinct a) (path : List String) :
    Found (nbtFindByPath path a) (nbtFindByPath path b) := by
  induction hr with
  | refl => exact found_refl _
  | tail hr hswap ih => exact ih.trans (swap_findByPath hswap (h.reordered hr) path)

theorem Distinct.foundByPath {path : List String} {c : Node} (h : Distinct a)
    (hfound : nbtFindByPath path a = some c) : Distinct c := by
  induction path generalizing a with
  | nil => cases hfound
  | cons p ps ih =>
    cases ps with
    | nil =>
      rw [nbtFindByPath] at hfound
      split at hfound
      · exact Option.some.inj hfound ▸ h
      · cases hfound
    | cons q qs =>
      rw [nbtFindByPath] at hfound
      split at hfound
      · obtain ⟨x, hx, hxc⟩ := List.exists_of_findSome?_eq_some hfound
        exact ih (h.child hx) hxc
      · cases hfound

theorem name_foundByPath (path : List String) {c : Node} (hfound : nbtFindByPath (path ++ [k]) a = some c) :
    c.name = some k := by
  induction path generalizing a with
  | nil =>
    rw [List.nil_append, nbtFindByPath] at hfound
    split at hfound
    · rename_i hname
      exact Option.some.inj hfound ▸ hname
    · cases hfound
  | cons p ps ih =>
    obtain ⟨q, qs, hqs⟩ : ∃ q qs, ps ++ [k] = q :: qs := List.exists_cons_of_ne_nil (by simp)
    rw [List.cons_append, hqs, nbtFindByPath] at hfound
    split at hfound
    · obtain ⟨x, -, hxc⟩ := List.exists_of_findSome?_eq_some hfound
      exact ih (hqs ▸ hxc)
    · cases hfound

/-! ## Searches by name -/

/-- A node of that name is in the tree. -/
def occurs (k : String) (a : Node) : Bool := (nbtFindByName k a).isSome

theorem isSome_findInItems (k : String) (items : List Node) :
    (nbtFindInItems k items).isSome = items.any (occurs k) := by
  induction items with
  | nil => rfl
  | cons item items ih =>
    rw [nbtFindInItems, List.any_cons, ← ih, occurs]
    cases nbtFindByName k item with
    | none => rfl
    | some found => rfl

theorem occurs_eq (k : String) (a : Node) : occurs k a = (decide (a.name = some k) || a.items.any (occurs k)) := by
  cases a with
  | leaf n payload =>
    by_cases hn : n = some k
    · simp [occurs, nbtFindByName, Node.name, hn]
    · simp [occurs, nbtFindByName, Node.name, Node.items, hn]
  | list n items | compound n items =>
    by_cases hn : n = some k
    · simp [occurs, nbtFindByName, Node.name, hn]
    · simp [occurs, nbtFindByName, Node.name, Node.items, hn, isSome_findInItems]

theorem occurs_congr (hname : b.name = a.name) (hitems : b.items.any (occurs k) = a.items.any (occurs k)) :
    occurs k b = occurs k a := by
  rw [occurs_eq, occurs_eq, hname, hitems]

theorem occurs_swap (hswap : Swap a b) (k : String) : occurs k b = occurs k a := by
  induction hswap with
  | here n front x y back =>
    refine occurs_congr rfl ?_
    simp only [Node.items, List.any_append, List.any_cons]
    rw [Bool.or_left_comm (occurs k y)]
  | inCompound n front back _ ih | inList n front back _ ih =>
    refine occurs_congr rfl ?_
    simp only [Node.items, List.any_append, List.any_cons, ih]

theorem occurs_reordered (h : Reordered a b) (k : String) : occurs k b = occurs k a := by
  induction h with
  | refl => rfl
  | tail _ hswap ih => exact (occurs_swap hswap k).trans ih

theorem findByName_self (h : a.name = some k) : nbtFindByName k a = some a := by
  cases a with
  | leaf | list | compound => exact if_pos h

theorem findByName_items (h : a.name ≠ some k) : nbtFindByName k a = nbtFindInItems k a.items := by
  cases a with
  | leaf | list | compound => exact if_neg h

/-- The loop over the children ends in the first that has a node of the name. -/
theorem findInItems_eq (k : String) (items : List Node) :
    nbtFindInItems k items = (items.find? (occurs k)).bind (nbtFindByName k) := by
  induction items with
  | nil => rfl
  | cons item items ih =>
    rw [nbtFindInItems, List.find?_cons, occurs]
    cases hitem : nbtFindByName k item with
    | none => exact ih
    | some found => exact hitem.symm

/-- The first child with a node of that name has the name itself. -/
def FromChild (k : String) (a : Node) : Prop := ∀ c ∈ a.items.find? (occurs k), c.name = some k

instance (k : String) (a : Node) : Decidable (FromChild k a) := inferInstanceAs (Decidable (∀ _ ∈ _, _))

/-- Then a search by name looks at the children only. -/
theorem findByName_fromChild (h : FromChild k a) (hname : a.name ≠ some k) :
    nbtFindByName k a = a.items.findSome? (nbtFindByPath [k]) := by
  have hother {c : Node} (hc : ¬ occurs k c = true) : nbtFindByPath [k] c = none := by
    refine nbtFindByPath_eq_none fun hname => hc ?_
    rw [occurs, findByName_self hname]
    rfl
  rw [findByName_items hname, findInItems_eq]
  cases hfirst : a.items.find? (occurs k) with
  | none =>
    rw [List.find?_eq_none] at hfirst
    exact (List.findSome?_eq_none_iff.mpr fun c hc => hother (hfirst c hc)).symm
  | some c =>
    have hc : c.name = some k := h c hfirst
    obtain ⟨-, front, back, hitems, hfront⟩ := List.find?_eq_some_iff_append.mp hfirst
    have hnone : front.findSome? (nbtFindByPath [k]) = none :=
      List.findSome?_eq_none_iff.mpr fun c hc => hother (by simpa using hfront c hc)
    rw [hitems, List.findSome?_append, hnone, List.findSome?_cons, Option.bind_some, findByName_self hc, nbtFindByPath,
      if_pos hc]
    rfl

/-- Then it is a search by path. -/
theorem findByName_path {n : String} (h : FromChild k a) (hname : a.name = some n) (hk : n ≠ k) :
    nbtFindByName k a = nbtFindByPath [n, k] a := by
  rw [findByName_fromChild h (by simpa [hname] using hk), nbtFindByPath, if_pos hname]

theorem found_name {n : String} (hr : Reordered a b) (h : Distinct a) (hname : a.name = some n) (hk : n ≠ k)
    (ha : FromChild k a) (hb : FromChild k b) : Found (nbtFindByName k a) (nbtFindByName k b) := by
  rw [findByName_path ha hname hk, findByName_path hb (hr.name.trans hname) hk]
  exact found_path hr h [n, k]

end TC.Proof.Map
