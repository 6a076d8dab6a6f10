import Mathlib.Data.List.Nodup
import Mathlib.Data.List.Perm.Subperm
import Mathlib.Logic.Function.Basic

/-!
# Singly linked chains

Links in memory, each with a value and the address of the next link, and a
chain that knows its first and its last one. `Path m start l stop` says that the
links from `start` on, up to the address `stop`, are those of `l`; writing to an
address that is not in `l` does not change it (`Path.frame`). `Chain.Holds c l`
says that the chain is `l`. Three operations keep it: a first link
(`Holds.first`), a new link after the last (`Holds.append`), and a new value in
the last one (`Holds.setLast`). `walk` follows the links as code does, and finds
`l` (`Path.walk`).
-/

namespace TC.SinglyLinked

structure Link (A β : Type) where
  value : β
  next : Option A

/-- `none` where there is no link. -/
abbrev Links (A β : Type) := A → Option (Link A β)

variable {A β : Type}

/-! ## Paths -/

def Path (m : Links A β) : Option A → List (A × β) → Option A → Prop
  | start, [], stop => start = stop
  | start, x :: l, stop => start = some x.1 ∧ ∃ next, m x.1 = some ⟨x.2, next⟩ ∧ Path m next l stop

/-- The first `n` links from `start` on. -/
def walk (m : Links A β) : Nat → Option A → List (A × β)
  | n + 1, some a => (m a).elim [] fun link => (a, link.value) :: walk m n link.next
  | _, _ => []

variable {l : List (A × β)} {start : Option A} {m : Links A β}

theorem path_append {stop : Option A} {l' : List (A × β)} :
    Path m start (l ++ l') stop ↔ ∃ mid, Path m start l mid ∧ Path m mid l' stop := by
  induction l generalizing start with
  | nil => simp [Path]
  | cons x l ih =>
    simp only [List.cons_append, Path, ih]
    constructor
    · rintro ⟨hstart, next, hx, mid, hl, hl'⟩
      exact ⟨mid, ⟨hstart, next, hx, hl⟩, hl'⟩
    · rintro ⟨mid, ⟨hstart, next, hx, hl⟩, hl'⟩
      exact ⟨hstart, next, hx, mid, hl, hl'⟩

/-- What is written elsewhere does not change a path. -/
theorem Path.frame {m' : Links A β} {stop : Option A} (h : Path m start l stop)
    (hm : ∀ a ∈ l.map Prod.fst, m' a = m a) : Path m' start l stop := by
  induction l generalizing start with
  | nil => exact h
  | cons x l ih =>
    obtain ⟨hstart, next, hx, hl⟩ := h
    rw [List.map_cons, List.forall_mem_cons] at hm
    exact ⟨hstart, next, hm.1.trans hx, ih hl hm.2⟩

theorem Path.update [DecidableEq A] {stop : Option A} {a : A} (h : Path m start l stop)
    (ha : a ∉ l.map Prod.fst) (link : Option (Link A β)) :
    Path (Function.update m a link) start l stop := by
  refine h.frame fun b hb => Function.update_of_ne ?_ _ _
  rintro rfl
  exact ha hb

theorem Path.walk (h : Path m start l none) {n : Nat} (hn : l.length ≤ n) : walk m n start = l := by
  induction l generalizing start n with
  | nil =>
    obtain rfl : start = none := h
    cases n <;> rfl
  | cons x l ih =>
    obtain ⟨rfl, next, hx, hl⟩ := h
    cases n with
    | zero => simp at hn
    | succ n =>
      simp only [SinglyLinked.walk, hx, Option.elim]
      rw [ih hl (Nat.le_of_succ_le_succ hn)]

/-! ## Chains -/

structure Chain (A β : Type) where
  links : Links A β
  head : Option A
  tail : Option A

namespace Chain

/-- The chain is `l`: its links have the addresses and values in `l`, the last of
them is `tail`, and none comes twice. -/
structure Holds (c : Chain A β) (l : List (A × β)) : Prop where
  path : Path c.links c.head l none
  tail : c.tail = l.getLast?.map Prod.fst
  nodup : (l.map Prod.fst).Nodup

theorem holds_nil (m : Links A β) : Holds ⟨m, none, none⟩ [] := ⟨rfl, rfl, List.nodup_nil⟩

section Operations

variable {c : Chain A β} {a b : A} {x y : β}

theorem Holds.head_eq_none (h : c.Holds l) : c.head = none ↔ l = [] := by
  cases l with
  | nil => exact iff_of_true h.path rfl
  | cons x l => exact iff_of_false (by rw [h.path.1]; simp) (List.cons_ne_nil _ _)

theorem Holds.tail_eq_none (h : c.Holds l) : c.tail = none ↔ l = [] := by
  rw [h.tail, Option.map_eq_none_iff, List.getLast?_eq_none_iff]

theorem Holds.tail_append (h : c.Holds (l ++ [(a, x)])) : c.tail = some a := by
  rw [h.tail, List.getLast?_append]
  rfl

theorem Holds.not_mem (h : c.Holds (l ++ [(a, x)])) : a ∉ l.map Prod.fst := by
  have hnodup := h.nodup
  rw [List.map_append, List.nodup_append] at hnodup
  intro ha
  exact hnodup.2.2 a ha a (by simp) rfl

/-- The path up to the last link, and that link. -/
theorem Holds.last (h : c.Holds (l ++ [(a, x)])) :
    Path c.links c.head l (some a) ∧ c.links a = some ⟨x, none⟩ := by
  obtain ⟨mid, hl, rfl, next, ha, rfl⟩ := path_append.mp h.path
  exact ⟨hl, ha⟩

variable [DecidableEq A]

/-- A chain of one new link. -/
theorem Holds.first (m : Links A β) (a : A) (x : β) :
    Holds ⟨Function.update m a (some ⟨x, none⟩), some a, some a⟩ [(a, x)] :=
  ⟨⟨rfl, none, Function.update_self _ _ _, rfl⟩, rfl, List.nodup_singleton a⟩

theorem Holds.setLast (h : c.Holds (l ++ [(a, x)])) (y : β) :
    Holds { c with links := Function.update c.links a (some ⟨y, none⟩) } (l ++ [(a, y)]) where
  path := path_append.mpr
    ⟨some a, h.last.1.update h.not_mem _, rfl, none, Function.update_self _ _ _, rfl⟩
  tail := by
    rw [List.getLast?_append]
    exact h.tail_append
  nodup := by
    have hnodup := h.nodup
    rw [List.map_append] at hnodup ⊢
    exact hnodup

/-- A new link after the last one. -/
theorem Holds.append (h : c.Holds (l ++ [(a, x)])) (hb : b ∉ (l ++ [(a, x)]).map Prod.fst) (y : β) :
    Holds
      { links := Function.update (Function.update c.links b (some ⟨y, none⟩)) a (some ⟨x, some b⟩)
        head := c.head
        tail := some b }
      (l ++ [(a, x)] ++ [(b, y)]) where
  path := by
    rw [List.map_append, List.mem_append, not_or] at hb
    have hba : b ≠ a := fun hba => hb.2 (by simp [hba])
    have hl := (h.last.1.update hb.1 (some ⟨y, none⟩)).update h.not_mem (some ⟨x, some b⟩)
    refine path_append.mpr ⟨some b, path_append.mpr ⟨some a, hl, rfl, some b, ?_, rfl⟩, rfl, none, ?_, rfl⟩
    · exact Function.update_self _ _ _
    · show Function.update (Function.update c.links b _) a _ b = _
      rw [Function.update_of_ne hba, Function.update_self]
  tail := by
    rw [List.getLast?_append]
    rfl
  nodup := by
    rw [List.map_append]
    exact List.Nodup.append h.nodup (List.nodup_singleton b) (List.disjoint_singleton.mpr hb)

end Operations

end Chain

end TC.SinglyLinked
