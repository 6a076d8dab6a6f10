import Mathlib.Data.List.Induction
import Mathlib.Data.List.Nodup

/-!
# Doubly linked lists

A list in memory: cells, each with a link to the one before and to the one
after it, and the two ends. `pushFront` and `remove` follow the links as code
does, and are `none` where a link leads to a cell that is not allocated.
`Threads c l` says that the list in memory is `l`: in every split
`l₁ ++ a :: l₂` of it, the cell of `a` has a link to the last of `l₁` and one to
the first of `l₂`. In this view the two operations are local
(`Threads.pushFront`, `Threads.remove`), and both ways through the list give `l`
(`Threads.walk_next`, `Threads.walk_prev`).
-/

namespace TC

variable {n : Nat}

/-- The links of a cell. -/
structure Cell (A : Type) where
  prev : Option A
  next : Option A
deriving DecidableEq, Repr

structure LinkedList (A : Type) where
  /-- `none` where no cell is allocated. -/
  cells : A → Option (Cell A)
  head : Option A
  tail : Option A

namespace LinkedList

variable {A : Type} {a : A} {l₁ l₂ : List A}

def empty : LinkedList A := { cells := fun _ => none, head := none, tail := none }

/-- The cell after that of `a`. -/
def next (c : LinkedList A) (a : A) : Option A := (c.cells a).bind Cell.next

/-- The cell before that of `a`. -/
def prev (c : LinkedList A) (a : A) : Option A := (c.cells a).bind Cell.prev

/-- The first `n` cells on the way from `start`. -/
def walk (follow : A → Option A) : Nat → Option A → List A
  | n + 1, some a => a :: walk follow n (follow a)
  | _, _ => []

section Operations

variable [DecidableEq A]

/-- A new cell, with no links. -/
def alloc (c : LinkedList A) (a : A) : LinkedList A :=
  { c with cells := Function.update c.cells a (some { prev := none, next := none }) }

def free (c : LinkedList A) (a : A) : LinkedList A :=
  { c with cells := Function.update c.cells a none }

/-- The link that leads on from a cell, or to the head if there is no cell. -/
def setNext (c : LinkedList A) : Option A → Option A → Option (LinkedList A)
  | none, x => some { c with head := x }
  | some a, x => (c.cells a).map fun cell =>
    { c with cells := Function.update c.cells a (some { cell with next := x }) }

/-- The link that leads back from a cell, or to the tail if there is no cell. -/
def setPrev (c : LinkedList A) : Option A → Option A → Option (LinkedList A)
  | none, x => some { c with tail := x }
  | some a, x => (c.cells a).map fun cell =>
    { c with cells := Function.update c.cells a (some { cell with prev := x }) }

/-- A list has both ends or none, which is asserted. -/
def pushFront (c : LinkedList A) (a : A) : Option (LinkedList A) :=
  match c.head with
  | none => if c.tail.isSome then none else some { c with head := some a, tail := some a }
  | some head => do
    let c ← c.setNext (some a) (some head)
    let c ← c.setPrev (some head) (some a)
    return { c with head := some a }

def remove (c : LinkedList A) (a : A) : Option (LinkedList A) := do
  let cell ← c.cells a
  let c ← c.setNext cell.prev cell.next
  let cell ← c.cells a
  let c ← c.setPrev cell.next cell.prev
  return c.free a

end Operations

/-- The list in memory is `l`. -/
structure Threads (c : LinkedList A) (l : List A) : Prop where
  head : c.head = l.head?
  tail : c.tail = l.getLast?
  nodup : l.Nodup
  cell : ∀ l₁ a l₂, l = l₁ ++ a :: l₂ → c.cells a = some { prev := l₁.getLast?, next := l₂.head? }

variable {c : LinkedList A} {l : List A}

theorem threads_empty : Threads (empty : LinkedList A) [] where
  head := rfl
  tail := rfl
  nodup := List.nodup_nil
  cell l₁ a l₂ h := by simp at h

/-! ## The way through a list -/

theorem Threads.next_eq (h : Threads c l) (hl : l = l₁ ++ a :: l₂) : c.next a = l₂.head? := by
  rw [next, h.cell l₁ a l₂ hl, Option.bind_some]

theorem Threads.prev_eq (h : Threads c l) (hl : l = l₁ ++ a :: l₂) : c.prev a = l₁.getLast? := by
  rw [prev, h.cell l₁ a l₂ hl, Option.bind_some]

theorem Threads.walk_next_from (h : Threads c l) (l₁ : List A) (hl : l = l₁ ++ l₂) (hn : l₂.length ≤ n) :
    walk c.next n l₂.head? = l₂ := by
  induction l₂ generalizing l₁ n with
  | nil => cases n <;> rfl
  | cons a l₂ ih =>
    obtain ⟨n, rfl⟩ : ∃ m, n = m + 1 := ⟨n - 1, by simp only [List.length_cons] at hn; omega⟩
    have hrest := ih (l₁ ++ [a]) (n := n) (by simp [hl]) (by simpa using hn)
    rw [List.head?_cons, walk, h.next_eq hl, hrest]

theorem Threads.walk_prev_from (h : Threads c l) (l₂ : List A) (hl : l = l₁ ++ l₂) (hn : l₁.length ≤ n) :
    walk c.prev n l₁.getLast? = l₁.reverse := by
  induction l₁ using List.reverseRecOn generalizing l₂ n with
  | nil => cases n <;> rfl
  | append_singleton l₁ a ih =>
    obtain ⟨n, rfl⟩ : ∃ m, n = m + 1 := ⟨n - 1, by simp only [List.length_append, List.length_singleton] at hn; omega⟩
    have hl' : l = l₁ ++ a :: l₂ := by simp [hl]
    have hrest := ih (a :: l₂) hl' (n := n) (by simpa using hn)
    rw [List.getLast?_concat, walk, h.prev_eq hl', hrest, List.reverse_concat]

/-- From the head, the links lead through the list. -/
theorem Threads.walk_next (h : Threads c l) (hn : l.length ≤ n) : walk c.next n c.head = l := by
  rw [h.head]
  exact h.walk_next_from [] rfl hn

/-- From the tail, they lead back. -/
theorem Threads.walk_prev (h : Threads c l) (hn : l.length ≤ n) : walk c.prev n c.tail = l.reverse := by
  rw [h.tail]
  exact h.walk_prev_from [] (List.append_nil l).symm hn

/-- A way that has come to its end. -/
theorem walk_ends {follow : A → Option A} {start : Option A} {l : List A} (h : walk follow n start = l)
    (hn : l.length < n) : start = l.head? ∧ ∀ l₁ a l₂, l = l₁ ++ a :: l₂ → follow a = l₂.head? := by
  induction l generalizing start n with
  | nil =>
    obtain ⟨n, rfl⟩ : ∃ m, n = m + 1 := ⟨n - 1, by simp only [List.length_nil] at hn; omega⟩
    cases start with
    | none => exact ⟨rfl, fun l₁ a l₂ hl => by simp at hl⟩
    | some b => cases h
  | cons b l ih =>
    obtain ⟨n, rfl⟩ : ∃ m, n = m + 1 := ⟨n - 1, by simp only [List.length_cons] at hn; omega⟩
    cases start with
    | none => cases h
    | some b' =>
      obtain ⟨rfl, hrest⟩ := List.cons_eq_cons.mp h
      obtain ⟨hstart, hfollow⟩ := ih hrest (by simpa using hn)
      refine ⟨rfl, fun l₁ a l₂ hl => ?_⟩
      cases l₁ with
      | nil =>
        obtain ⟨rfl, rfl⟩ := List.cons_eq_cons.mp hl
        exact hstart
      | cons x l₁ => exact hfollow l₁ a l₂ (List.cons_eq_cons.mp hl).2

/-- The list in memory is the one that both ways through it give. -/
theorem threads_iff : Threads c l ↔ l.Nodup ∧ (∀ a ∈ l, c.cells a ≠ none) ∧
    (∀ n, l.length ≤ n → walk c.next n c.head = l) ∧ (∀ n, l.length ≤ n → walk c.prev n c.tail = l.reverse) := by
  constructor
  · intro h
    refine ⟨h.nodup, fun a ha => ?_, fun n hn => h.walk_next hn, fun n hn => h.walk_prev hn⟩
    obtain ⟨l₁, l₂, hl⟩ := List.append_of_mem ha
    rw [h.cell l₁ a l₂ hl]
    exact Option.some_ne_none _
  · rintro ⟨hnodup, hlive, hforward, hbackward⟩
    obtain ⟨hhead, hnext⟩ := walk_ends (hforward (l.length + 1) (by omega)) (by omega)
    obtain ⟨htail, hprev⟩ := walk_ends (hbackward (l.length + 1) (by omega)) (by simp)
    refine ⟨hhead, htail.trans List.head?_reverse, hnodup, fun l₁ a l₂ hl => ?_⟩
    obtain ⟨cell, hcell⟩ := Option.ne_none_iff_exists'.mp (hlive a (by simp [hl]))
    have hn := hnext l₁ a l₂ hl
    have hp := hprev l₂.reverse a l₁.reverse (by simp [hl])
    rw [next, hcell, Option.bind_some] at hn
    rw [prev, hcell, Option.bind_some, List.head?_reverse] at hp
    rw [hcell, ← hn, ← hp]

theorem Threads.head_eq_none (h : Threads c l) : c.head = none ↔ c.tail = none := by
  rw [h.head, h.tail, List.head?_eq_none_iff, List.getLast?_eq_none_iff]

/-- There is nothing before the head. -/
theorem Threads.prev_head (h : Threads c l) (ha : c.head = some a) : c.prev a = none := by
  rw [h.head] at ha
  obtain ⟨l₂, hl⟩ := List.head?_eq_some_iff.mp ha
  exact h.prev_eq (show l = [] ++ a :: l₂ from hl)

/-- There is nothing after the tail. -/
theorem Threads.next_tail (h : Threads c l) (ha : c.tail = some a) : c.next a = none := by
  rw [h.tail] at ha
  obtain ⟨l₁, hl⟩ := List.getLast?_eq_some_iff.mp ha
  exact h.next_eq hl

/-! ## Operations -/

section

variable [DecidableEq A]

theorem exists_setNext (c : LinkedList A) {o : Option A} (ho : ∀ a, o = some a → c.cells a ≠ none)
    (x : Option A) :
    ∃ c', c.setNext o x = some c' ∧
      (∀ y, c'.cells y = if some y = o then (c.cells y).map fun cell => { cell with next := x } else c.cells y) ∧
      c'.head = (if o = none then x else c.head) ∧ c'.tail = c.tail := by
  cases o with
  | none => exact ⟨_, rfl, fun y => (if_neg (Option.some_ne_none y)).symm, (if_pos rfl).symm, rfl⟩
  | some a =>
    obtain ⟨cell, hcell⟩ := Option.ne_none_iff_exists'.mp (ho a rfl)
    refine ⟨{ c with cells := Function.update c.cells a (some { cell with next := x }) },
      by rw [setNext, hcell, Option.map_some], fun y => ?_, (if_neg (Option.some_ne_none a)).symm, rfl⟩
    by_cases hy : y = a
    · subst hy
      simp [hcell]
    · simp [hy]

theorem exists_setPrev (c : LinkedList A) {o : Option A} (ho : ∀ a, o = some a → c.cells a ≠ none)
    (x : Option A) :
    ∃ c', c.setPrev o x = some c' ∧
      (∀ y, c'.cells y = if some y = o then (c.cells y).map fun cell => { cell with prev := x } else c.cells y) ∧
      c'.head = c.head ∧ c'.tail = (if o = none then x else c.tail) := by
  cases o with
  | none => exact ⟨_, rfl, fun y => (if_neg (Option.some_ne_none y)).symm, rfl, (if_pos rfl).symm⟩
  | some a =>
    obtain ⟨cell, hcell⟩ := Option.ne_none_iff_exists'.mp (ho a rfl)
    refine ⟨{ c with cells := Function.update c.cells a (some { cell with prev := x }) },
      by rw [setPrev, hcell, Option.map_some], fun y => ?_, rfl, (if_neg (Option.some_ne_none a)).symm⟩
    by_cases hy : y = a
    · subst hy
      simp [hcell]
    · simp [hy]

omit [DecidableEq A] in
/-- Only the cells of the list matter. -/
theorem Threads.congr (h : Threads c l) {c' : LinkedList A} (hhead : c'.head = c.head) (htail : c'.tail = c.tail)
    (hcells : ∀ a ∈ l, c'.cells a = c.cells a) : Threads c' l where
  head := hhead.trans h.head
  tail := htail.trans h.tail
  nodup := h.nodup
  cell l₁ a l₂ hl := (hcells a (by simp [hl])).trans (h.cell l₁ a l₂ hl)

theorem Threads.alloc (h : Threads c l) (ha : a ∉ l) : Threads (c.alloc a) l :=
  h.congr rfl rfl fun x hx => Function.update_of_ne (fun he : x = a => ha (he ▸ hx)) ..

theorem cells_alloc (c : LinkedList A) (a : A) : (c.alloc a).cells a = some { prev := none, next := none } :=
  Function.update_self ..

/-- A cell without links becomes the first. -/
theorem Threads.pushFront (h : Threads c l) (ha : a ∉ l)
    (hnew : c.cells a = some { prev := none, next := none }) :
    ∃ c', c.pushFront a = some c' ∧ Threads c' (a :: l) := by
  cases l with
  | nil =>
    have hhead : c.head = none := h.head
    have htail : c.tail = none := h.tail
    refine ⟨_, by simp only [LinkedList.pushFront, hhead, htail]; rfl, rfl, rfl, List.nodup_singleton a, ?_⟩
    intro l₁ x l₂ hl
    cases l₁ with
    | nil =>
      cases hl
      exact hnew
    | cons y l₁ => simp at hl
  | cons b l =>
    have hab : a ≠ b := fun he => ha (he ▸ List.mem_cons_self)
    have hhead : c.head = some b := h.head
    have hb : c.cells b = some { prev := none, next := l.head? } := h.cell [] b l rfl
    obtain ⟨c₁, h₁, hcells₁, hhead₁, htail₁⟩ := exists_setNext c (o := some a)
      (fun x hx => by cases hx; simp [hnew]) (some b)
    have hb₁ : c₁.cells b = c.cells b := by rw [hcells₁, if_neg (by simpa using hab.symm)]
    obtain ⟨c₂, h₂, hcells₂, hhead₂, htail₂⟩ := exists_setPrev c₁ (o := some b)
      (fun x hx => by cases hx; simp [hb₁, hb]) (some a)
    refine ⟨{ c₂ with head := some a }, by simp [LinkedList.pushFront, hhead, h₁, h₂], rfl, ?_,
      List.nodup_cons.mpr ⟨ha, h.nodup⟩, ?_⟩
    · rw [htail₂, if_neg (Option.some_ne_none b), htail₁, h.tail, List.getLast?_cons_cons]
    · intro l₁ x l₂ hl
      show c₂.cells x = _
      cases l₁ with
      | nil =>
        obtain ⟨rfl, rfl⟩ := List.cons_eq_cons.mp hl
        rw [hcells₂, if_neg (by simpa using hab), hcells₁, if_pos rfl, hnew]
        rfl
      | cons y l₁ =>
        obtain ⟨rfl, hrest⟩ := List.cons_eq_cons.mp (hl.trans (List.cons_append ..))
        have hx : x ≠ a := fun he => ha (by rw [hrest, he]; simp)
        have hcell := h.cell l₁ x l₂ hrest
        rw [hcells₂, hcells₁, if_neg (show some x ≠ some a by simpa using hx), hcell]
        cases l₁ with
        | nil =>
          obtain ⟨rfl, rfl⟩ := List.cons_eq_cons.mp hrest
          rw [if_pos rfl]
          rfl
        | cons z l₁ =>
          obtain ⟨rfl, rfl⟩ := List.cons_eq_cons.mp (hrest.trans (List.cons_append ..))
          have hxb : x ≠ b := fun he => by
            have hnodup := h.nodup
            rw [he] at hnodup
            simp at hnodup
          rw [if_neg (by simpa using hxb), List.getLast?_cons_cons]

/-- What a removal does to the cells, which it needs to find. -/
theorem exists_remove {cell : Cell A} (ha : c.cells a = some cell) (hself : cell.prev ≠ some a)
    (hprev : ∀ x, cell.prev = some x → c.cells x ≠ none)
    (hnext : ∀ x, cell.next = some x → c.cells x ≠ none) :
    ∃ c', c.remove a = some c' ∧
      (∀ x, x ≠ a → c'.cells x = (c.cells x).map fun old =>
        { prev := if some x = cell.next then cell.prev else old.prev
          next := if some x = cell.prev then cell.next else old.next }) ∧
      c'.head = (if cell.prev = none then cell.next else c.head) ∧
      c'.tail = (if cell.next = none then cell.prev else c.tail) := by
  obtain ⟨c₁, h₁, hcells₁, hhead₁, htail₁⟩ := exists_setNext c hprev cell.next
  have ha₁ : c₁.cells a = some cell := by rw [hcells₁, if_neg (Ne.symm hself), ha]
  have hnext₁ : ∀ x, cell.next = some x → c₁.cells x ≠ none := by
    intro x hx
    rw [hcells₁]
    split <;> simp [hnext x hx]
  obtain ⟨c₂, h₂, hcells₂, hhead₂, htail₂⟩ := exists_setPrev c₁ hnext₁ cell.prev
  refine ⟨c₂.free a, by simp [LinkedList.remove, ha, h₁, ha₁, h₂], fun x hx => ?_, hhead₂.trans hhead₁, ?_⟩
  · show Function.update c₂.cells a none x = _
    rw [Function.update_of_ne hx, hcells₂, hcells₁]
    cases c.cells x <;> split <;> split <;> rfl
  · exact htail₂.trans (by rw [htail₁])

/-- The cells around the removed one are linked with each other. -/
theorem Threads.remove (h : Threads c (l₁ ++ a :: l₂)) :
    ∃ c', c.remove a = some c' ∧ Threads c' (l₁ ++ l₂) := by
  obtain ⟨hn₁, hn, hapart⟩ := List.nodup_append.mp h.nodup
  obtain ⟨ha₂, hn₂⟩ := List.nodup_cons.mp hn
  have ha₁ : a ∉ l₁ := fun hx => hapart a hx a List.mem_cons_self rfl
  have hdisjoint : ∀ x ∈ l₁, x ∉ l₂ := fun x hx hx' => hapart x hx x (List.mem_cons_of_mem a hx') rfl
  have hlive : ∀ x ∈ l₁ ++ a :: l₂, c.cells x ≠ none := by
    intro x hx
    obtain ⟨m₁, m₂, hm⟩ := List.append_of_mem hx
    rw [h.cell m₁ x m₂ hm]
    exact Option.some_ne_none _
  obtain ⟨c', hc', hcells, hhead, htail⟩ := exists_remove (h.cell l₁ a l₂ rfl)
    (fun hx => ha₁ (List.mem_of_getLast? hx)) (fun x hx => hlive x (by simp [List.mem_of_getLast? hx]))
    (fun x hx => hlive x (by simp [List.mem_of_head? hx]))
  -- a cell after the removed one: its link back changes if it is the first there
  have hafter : ∀ k x m, l₂ = k ++ x :: m → c'.cells x = some { prev := (l₁ ++ k).getLast?, next := m.head? } := by
    intro k x m hk
    have hx : x ∈ l₂ := by simp [hk]
    have hlast : some x ≠ l₁.getLast? := fun he => hdisjoint x (List.mem_of_getLast? he.symm) hx
    rw [hcells x (fun he => ha₂ (he ▸ hx)), h.cell (l₁ ++ a :: k) x m (by simp [hk]), Option.map_some, if_neg hlast]
    cases k with
    | nil => simp [hk]
    | cons y k =>
      have hxy : x ≠ y := by
        rintro rfl
        simp [hk] at hn₂
      simp [hk, hxy]
  -- a cell before it: its link on changes if it is the last there
  have hbefore : ∀ m x k, l₁ = m ++ x :: k → c'.cells x = some { prev := m.getLast?, next := (k ++ l₂).head? } := by
    intro m x k hk
    have hx : x ∈ l₁ := by simp [hk]
    have hfirst : some x ≠ l₂.head? := fun he => hdisjoint x hx (List.mem_of_head? he.symm)
    rw [hcells x (fun he => ha₁ (he ▸ hx)), h.cell m x (k ++ a :: l₂) (by simp [hk]), Option.map_some, if_neg hfirst]
    cases k with
    | nil => simp [hk]
    | cons y k =>
      have hlast : some x ≠ l₁.getLast? := by
        intro he
        rw [hk, List.getLast?_append_cons, List.getLast?_cons_cons] at he
        rw [hk] at hn₁
        exact (List.nodup_cons.mp (List.nodup_append.mp hn₁).2.1).1 (List.mem_of_getLast? he.symm)
      rw [if_neg hlast]
      rfl
  refine ⟨c', hc', ?_, ?_, ?_, fun m₁ x m₂ hm => ?_⟩
  · rw [hhead, h.head]
    cases l₁ <;> simp
  · rw [htail, h.tail]
    cases l₂ <;> simp
  · exact h.nodup.sublist ((List.append_sublist_append_left l₁).mpr (List.sublist_cons_self a l₂))
  · rcases List.append_eq_append_iff.mp hm with ⟨k, rfl, hk⟩ | ⟨k, hk, hk'⟩
    · exact hafter k x m₂ hk
    · cases k with
      | nil =>
        have hcell := hafter [] x m₂ hk'.symm
        rwa [hk, List.append_nil, List.append_nil] at hcell
      | cons y k =>
        obtain ⟨rfl, rfl⟩ := List.cons_eq_cons.mp (hk'.trans (List.cons_append ..))
        exact hbefore m₁ x k hk

end

end LinkedList

end TC
