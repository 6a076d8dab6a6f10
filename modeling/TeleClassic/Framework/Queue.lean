import TeleClassic.Framework.Ring

/-!
# Bounded queues

A first-in first-out queue of at most `bound` values, with its history: every
value it has accepted and every value that was taken from it. That the values
come out in the order in which they were accepted, each once, is a field of the
type (`Queue.order`). A value is offered with a reserve, and accepted if more
places than that are free.

A ring buffer of `bound + 1` slots stands for such a queue (`Ring.Represents`):
`push` is an accepted offer and `pop` takes the oldest value.
-/

namespace TC

variable {reserve : Nat}

structure Queue (α : Type) (bound : Nat) where
  /-- What is in the queue, oldest value first. -/
  values : List α
  accepted : List α
  taken : List α
  length_le : values.length ≤ bound
  order : accepted = taken ++ values

namespace Queue

variable {α : Type} {bound : Nat} {q : Queue α bound}

def empty : Queue α bound where
  values := []
  accepted := []
  taken := []
  length_le := Nat.zero_le bound
  order := rfl

def free (q : Queue α bound) : Nat := bound - q.values.length

theorem length_offer (h : reserve < q.free) (x : α) : (q.values ++ [x]).length ≤ bound := by
  rw [List.length_append, List.length_singleton]
  unfold free at h
  omega

theorem order_offer (q : Queue α bound) (x : α) : q.accepted ++ [x] = q.taken ++ (q.values ++ [x]) := by
  rw [q.order, List.append_assoc]

/-- `x` is accepted if more than `reserve` places are free. -/
def offer (q : Queue α bound) (x : α) (reserve : Nat) : Queue α bound :=
  if h : reserve < q.free then
    { values := q.values ++ [x]
      accepted := q.accepted ++ [x]
      taken := q.taken
      length_le := length_offer h x
      order := order_offer q x }
  else q

theorem length_poll (q : Queue α bound) : q.values.tail.length ≤ bound := by
  have := q.length_le
  rw [List.length_tail]
  omega

theorem order_poll (q : Queue α bound) : q.accepted = q.taken ++ q.values.head?.toList ++ q.values.tail := by
  rw [q.order, List.append_assoc]
  cases q.values <;> rfl

/-- The oldest value is taken, if there is one. -/
def poll (q : Queue α bound) : Queue α bound where
  values := q.values.tail
  accepted := q.accepted
  taken := q.taken ++ q.values.head?.toList
  length_le := length_poll q
  order := order_poll q

theorem offer_of_lt (h : reserve < q.free) (x : α) :
    (q.offer x reserve).values = q.values ++ [x] ∧ (q.offer x reserve).accepted = q.accepted ++ [x] ∧
      (q.offer x reserve).taken = q.taken := by
  rw [offer, dif_pos h]
  exact ⟨rfl, rfl, rfl⟩

theorem offer_of_le (h : q.free ≤ reserve) (x : α) : q.offer x reserve = q :=
  dif_neg (Nat.not_lt.mpr h)

end Queue

namespace Ring

variable {α : Type} {bound : Nat} {r : Ring α} {q : Queue α bound}

/-- The ring `r` stands for the queue `q`. -/
structure Represents (r : Ring α) (q : Queue α bound) : Prop where
  cap : r.cap = bound + 1
  contents : r.contents = q.values

theorem Represents.used (h : Represents r q) : r.used = q.values.length := by
  rw [← h.contents, r.length_contents]

theorem Represents.free (h : Represents r q) : r.cap - 1 - r.used = q.free := by
  rw [h.cap, h.used, Nat.add_sub_cancel]
  rfl

theorem Represents.push (h : Represents r q) (hfree : reserve < q.free) (x : α) :
    Represents (r.push x) (q.offer x reserve) where
  cap := h.cap
  contents := by
    have hroom : r.used + 1 < r.cap := by
      have := h.free
      omega
    rw [r.contents_push hroom, h.contents, (Queue.offer_of_lt hfree x).1]

theorem Represents.pop (h : Represents r q) (hused : r.used ≠ 0) :
    Represents r.pop q.poll ∧ q.values.head? = some (r.slots r.tail) := by
  have hvalues : q.values = r.slots r.tail :: r.pop.contents := by rw [← h.contents, ← r.contents_pop hused]
  refine ⟨⟨h.cap, ?_⟩, by rw [hvalues]; rfl⟩
  show r.pop.contents = q.values.tail
  rw [hvalues]
  rfl

/-- Nothing can be taken from an empty queue. -/
theorem Represents.poll_eq (h : Represents r q) (hused : r.used = 0) : q.poll = q := by
  have hvalues : q.values = [] := by rw [← h.contents, r.contents_eq_nil, hused]
  rw [Queue.poll]
  cases q with
  | mk values accepted taken length_le order =>
    subst hvalues
    simp

end Ring

end TC
