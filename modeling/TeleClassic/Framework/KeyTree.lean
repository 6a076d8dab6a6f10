import Mathlib.Tactic.Common

/-!
# Search trees by a comparison function

A search tree is used through a comparison of keys, which may take different
keys for the same: `same a b` says that the comparison does. The tree is the
list of its entries; `insert` replaces an entry of the same key. If `same` is
equality of a normal form `norm` of the keys, a lookup sees what was inserted
under any key of the same normal form (`isSome_lookup_insert`, `lookup_insert`). Two trees
are used for one another if all lookups agree; an entry between others, none of which has its
key, is found as one that was inserted (`lookup_middle`).
-/

namespace TC

abbrev KeyTree (K V : Type) := List (K × V)

namespace KeyTree

variable {K N V : Type} {same : K → K → Bool} {norm : K → N}

def lookup (same : K → K → Bool) (t : KeyTree K V) (k : K) : Option V :=
  (List.find? (fun e => same k e.1) t).map (·.2)

def insert (same : K → K → Bool) : KeyTree K V → K → V → KeyTree K V
  | [], k, v => [(k, v)]
  | e :: t, k, v => if same k e.1 then (k, v) :: t else e :: insert same t k v

theorem isSome_lookup_cons (e : K × V) (t : KeyTree K V) (k : K) :
    (lookup same (e :: t) k).isSome = (same k e.1 || (lookup same t k).isSome) := by
  rw [lookup, lookup, List.find?_cons]
  cases same k e.1 <;> simp

/-- A lookup depends on the normal form of its key only. -/
theorem lookup_congr (hs : ∀ a b, same a b = true ↔ norm a = norm b) (t : KeyTree K V) {k k' : K}
    (h : norm k = norm k') : lookup same t k = lookup same t k' := by
  have hsame : same k = same k' := by
    funext a
    rw [Bool.eq_iff_iff, hs, hs, h]
  rw [lookup, lookup, hsame]

theorem isSome_lookup_insert (hs : ∀ a b, same a b = true ↔ norm a = norm b) (t : KeyTree K V)
    (k k' : K) (v : V) : (lookup same (insert same t k v) k').isSome = true ↔
      norm k' = norm k ∨ (lookup same t k').isSome = true := by
  induction t with
  | nil =>
    rw [insert, isSome_lookup_cons, Bool.or_eq_true, hs]
  | cons e t ih =>
    rw [insert]
    split
    · rename_i h
      rw [isSome_lookup_cons, isSome_lookup_cons, Bool.or_eq_true, Bool.or_eq_true, hs, hs,
        (hs _ _).mp h]
      tauto
    · rw [isSome_lookup_cons, isSome_lookup_cons, Bool.or_eq_true, Bool.or_eq_true, ih]
      tauto

theorem lookup_cons (e : K × V) (t : KeyTree K V) (k : K) :
    lookup same (e :: t) k = if same k e.1 then some e.2 else lookup same t k := by
  rw [lookup, lookup, List.find?_cons]
  cases same k e.1 <;> rfl

theorem lookup_insert (hs : ∀ a b, same a b = true ↔ norm a = norm b) (t : KeyTree K V) (k k' : K) (v : V) :
    lookup same (insert same t k v) k' = if same k' k then some v else lookup same t k' := by
  induction t with
  | nil => exact lookup_cons _ _ _
  | cons e t ih =>
    rw [insert]
    split
    · rename_i h
      have hkey : same k' e.1 = same k' k := by
        rw [Bool.eq_iff_iff, hs, hs, (hs _ _).mp h]
      rw [lookup_cons, lookup_cons, hkey]
      split <;> rfl
    · rename_i h
      rw [lookup_cons, lookup_cons, ih]
      split
      · rename_i he
        have hne : same k' k ≠ true := fun hk => h ((hs _ _).mpr (((hs _ _).mp hk).symm.trans ((hs _ _).mp he)))
        rw [if_neg hne]
      · rfl

theorem lookup_append (l t : KeyTree K V) (k : K) : lookup same (l ++ t) k = (lookup same l k).or (lookup same t k) := by
  rw [lookup, lookup, lookup, List.find?_append, Option.map_or]

theorem lookup_eq_none_of_not {t : KeyTree K V} {k : K} (h : ∀ e ∈ t, same k e.1 = false) :
    lookup same t k = none := by
  rw [lookup, List.find?_eq_none.mpr fun e he => by simp [h e he]]
  rfl

/-- An entry before which there is none of the same key. -/
theorem lookup_middle (hs : ∀ a b, same a b = true ↔ norm a = norm b) {l r : KeyTree K V} {k k' : K} {v : V}
    (h : ∀ e ∈ l, norm e.1 ≠ norm k) :
    lookup same (l ++ (k, v) :: r) k' = if same k' k then some v else lookup same (l ++ r) k' := by
  induction l with
  | nil => exact lookup_cons _ _ _
  | cons e l ih =>
    rw [List.cons_append, List.cons_append, lookup_cons, lookup_cons, ih fun e' he' => h e' (List.mem_cons_of_mem _ he')]
    split
    · rename_i he
      have hne : same k' k ≠ true := fun hk =>
        h e List.mem_cons_self (((hs _ _).mp he).symm.trans ((hs _ _).mp hk))
      rw [if_neg hne]
    · rfl

end KeyTree

end TC
