import Mathlib.Logic.Function.Basic
import Mathlib.Tactic.Common

/-!
# Ring buffers

A ring buffer of `cap` slots, of which one always stays free: `head` is the
slot the next value goes to, `tail` the slot the next value comes from, and
both wrap around at `cap`. `Ring.contents` is the queue a ring stands for,
oldest value first: `push` appends to it (`contents_push`) as long as a slot
is free, `pop` removes its first value (`contents_pop`).
-/

namespace TC

theorem succ_mod_of_lt {i c : Nat} (h : i < c) : (i + 1) % c = if i + 1 = c then 0 else i + 1 := by
  split
  · rename_i e; rw [e, Nat.mod_self]
  · exact Nat.mod_eq_of_lt (by omega)

theorem add_mod_of_lt {i k c : Nat} (hi : i < c) (hk : k < c) :
    (i + k) % c = if i + k < c then i + k else i + k - c := by
  split
  · rename_i h; exact Nat.mod_eq_of_lt h
  · rename_i h
    rw [Nat.mod_eq_sub_mod (by omega), Nat.mod_eq_of_lt (by omega)]

/-- A ring buffer: its indices are below its capacity. -/
structure Ring (α : Type) where
  slots : Nat → α
  head : Nat
  tail : Nat
  cap : Nat
  head_lt : head < cap
  tail_lt : tail < cap

namespace Ring

variable {α : Type} (r : Ring α)

/-- The number of slots in use. -/
def used : Nat := (r.head + r.cap - r.tail) % r.cap

/-- The values in the ring, oldest first. -/
def contents : List α := (List.range r.used).map fun k => r.slots ((r.tail + k) % r.cap)

/-- `x` in the slot at `head`, and `head` moved on. -/
def push (x : α) : Ring α :=
  { r with
    slots := Function.update r.slots r.head x
    head := (r.head + 1) % r.cap
    head_lt := Nat.mod_lt _ (Nat.zero_lt_of_lt r.head_lt) }

/-- `tail` moved on. -/
def pop : Ring α :=
  { r with
    tail := (r.tail + 1) % r.cap
    tail_lt := Nat.mod_lt _ (Nat.zero_lt_of_lt r.tail_lt) }

@[simp] theorem cap_push (x : α) : (r.push x).cap = r.cap := rfl
@[simp] theorem tail_push (x : α) : (r.push x).tail = r.tail := rfl
@[simp] theorem cap_pop : r.pop.cap = r.cap := rfl

theorem used_eq : r.used = if r.tail ≤ r.head then r.head - r.tail else r.head + r.cap - r.tail := by
  have hh := r.head_lt
  have ht := r.tail_lt
  unfold used
  split
  · rw [show r.head + r.cap - r.tail = r.head - r.tail + r.cap by omega, Nat.add_mod_right,
      Nat.mod_eq_of_lt (by omega)]
  · exact Nat.mod_eq_of_lt (by omega)

theorem used_lt : r.used < r.cap := Nat.mod_lt _ (Nat.zero_lt_of_lt r.head_lt)

@[simp] theorem length_contents : r.contents.length = r.used := by simp [contents]

theorem head_eq_tail_iff : r.head = r.tail ↔ r.used = 0 := by
  have := r.head_lt
  have := r.tail_lt
  rw [used_eq]
  split <;> omega

/-- One slot stays free: the ring is full when `head` would meet `tail`. -/
theorem next_eq_tail_iff : (r.head + 1) % r.cap = r.tail ↔ r.used = r.cap - 1 := by
  have := r.head_lt
  have := r.tail_lt
  rw [used_eq, succ_mod_of_lt r.head_lt]
  split <;> split <;> omega

theorem used_push {x : α} (h : r.used + 1 < r.cap) : (r.push x).used = r.used + 1 := by
  have := r.head_lt
  have := r.tail_lt
  have hp : (r.push x).head = (r.head + 1) % r.cap := rfl
  rw [used_eq] at h
  rw [used_eq, used_eq, hp, tail_push, cap_push, succ_mod_of_lt r.head_lt]
  split at h <;> split <;> split <;> omega

theorem used_pop (h : r.used ≠ 0) : r.pop.used = r.used - 1 := by
  have := r.head_lt
  have := r.tail_lt
  have hp : r.pop.tail = (r.tail + 1) % r.cap := rfl
  have hh : r.pop.head = r.head := rfl
  rw [used_eq] at h
  rw [used_eq, used_eq, hp, hh, cap_pop, succ_mod_of_lt r.tail_lt]
  split at h <;> split <;> split <;> omega

/-- The slot at `head` is the one after the last value. -/
theorem tail_add_used : (r.tail + r.used) % r.cap = r.head := by
  have := r.head_lt
  have := r.tail_lt
  rw [add_mod_of_lt r.tail_lt r.used_lt, used_eq]
  split <;> split <;> omega

theorem slot_ne_head {k : Nat} (h : k < r.used) : (r.tail + k) % r.cap ≠ r.head := by
  have := r.head_lt
  have := r.tail_lt
  have hu := r.used_lt
  rw [add_mod_of_lt r.tail_lt (by omega)]
  rw [used_eq] at h
  split at h <;> split <;> omega

theorem contents_push {x : α} (h : r.used + 1 < r.cap) : (r.push x).contents = r.contents ++ [x] := by
  rw [contents, used_push r h, List.range_succ, List.map_append, contents]
  congr 1
  · refine List.map_congr_left fun k hk => ?_
    exact Function.update_of_ne (r.slot_ne_head (List.mem_range.mp hk)) _ _
  · rw [List.map_singleton, tail_push, cap_push, tail_add_used]
    exact congrArg (fun y => [y]) (Function.update_self _ _ _)

theorem contents_pop (h : r.used ≠ 0) : r.contents = r.slots r.tail :: r.pop.contents := by
  have hu := r.used_pop h
  obtain ⟨n, hn⟩ := Nat.exists_eq_succ_of_ne_zero h
  rw [contents, contents, hu, hn, Nat.succ_sub_one, List.range_succ_eq_map, List.map_cons,
    List.map_map, Nat.add_zero, Nat.mod_eq_of_lt r.tail_lt]
  congr 1
  refine List.map_congr_left fun k _ => ?_
  show r.slots ((r.tail + (k + 1)) % r.cap) = r.slots (((r.tail + 1) % r.cap + k) % r.cap)
  rw [Nat.mod_add_mod, Nat.add_assoc, Nat.add_comm 1 k]

theorem contents_eq_nil : r.contents = [] ↔ r.used = 0 := by
  rw [← List.length_eq_zero_iff, length_contents]

end Ring

end TC
