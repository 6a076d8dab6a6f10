import TeleClassic.Framework.Queue
import TeleClassic.Proof.ThreadPool.Ops

/-!
# A task buffer is a bounded queue

Whatever calls of `task_buffer_enqueue` and `task_buffer_dequeue` a task buffer
of `c` slots has seen, it stands for a first-in first-out queue of at most
`c - 1` tasks that has seen the same calls (`taskBuffer_refines_queue`). A call
keeps that relation (`Follows.call`), so it holds after every sequence of them.

The number of free places is computed on `psize` values. No intermediate result
wraps around for a buffer whose contexts fit the address space
(`psizeRemainingCapacity_eq`).
-/

namespace TC.Proof.ThreadPool

open TC.Impl.ThreadPool

variable {F A : Type}

/-- A call on a task buffer. -/
inductive BufferCall (F A : Type) where
  | enqueue (pool : Pool F A) (task : Context F A) (isYield isBlocking : Bool)
  | dequeue

/-- A task buffer, with the tasks whose enqueue returned `TRUE` and those that
were dequeued. -/
structure BufferHistory (F A : Type) where
  taskBuf : Ring (Context F A)
  enqueued : List (Context F A)
  dequeued : List (Context F A)

def BufferHistory.call (s : BufferHistory F A) : BufferCall F A → BufferHistory F A
  | .enqueue pool task isYield isBlocking =>
    (taskBufferEnqueue pool s.taskBuf task isYield isBlocking).elim s fun taskBuf =>
      { s with taskBuf := taskBuf, enqueued := s.enqueued ++ [task] }
  | .dequeue =>
    let (task, taskBuf) := taskBufferDequeue s.taskBuf
    { s with
      taskBuf := taskBuf
      dequeued := if taskBufferIsEmpty s.taskBuf then s.dequeued else s.dequeued ++ [task] }

/-- A new buffer of `c` slots, in memory with any contents. -/
def freshBuffer (memory : Nat → Context F A) (c : Nat) (h : 0 < c) : BufferHistory F A :=
  { taskBuf := initTaskBuffer memory c h, enqueued := [], dequeued := [] }

/-- The places that an enqueue has to leave free. -/
def reservedCapacity (pool : Pool F A) (isBlocking : Bool) : Nat :=
  if isBlocking then pool.maxBlockingThreads else pool.numThreads

/-- What a call asks of a queue. -/
def BufferCall.serve {bound : Nat} (q : Queue (Context F A) bound) :
    BufferCall F A → Queue (Context F A) bound
  | .enqueue pool task isYield isBlocking =>
    q.offer task (if isYield then 0 else reservedCapacity pool isBlocking)
  | .dequeue => q.poll

/-! ## One call -/

section Calls

variable {bound : Nat} {s : BufferHistory F A} {q : Queue (Context F A) bound}

/-- The buffer stands for the queue, and both have the same history. -/
structure Follows (s : BufferHistory F A) (q : Queue (Context F A) bound) : Prop where
  represents : s.taskBuf.Represents q
  enqueued : s.enqueued = q.accepted
  dequeued : s.dequeued = q.taken

/-- An enqueue is refused when no more places are free than it has to leave. -/
theorem taskBufferEnqueue_eq_none {b : Ring (Context F A)} (h : b.Represents q) (pool : Pool F A)
    (task : Context F A) (isYield isBlocking : Bool) :
    taskBufferEnqueue pool b task isYield isBlocking = none ↔
      q.free ≤ if isYield then 0 else reservedCapacity pool isBlocking := by
  have hfree := h.free
  have hused := b.used_lt
  rw [Option.eq_none_iff_forall_ne_some]
  simp only [ne_eq, taskBufferEnqueue_eq_some, not_and, reservedCapacity]
  generalize (if isBlocking then pool.maxBlockingThreads else pool.numThreads) = reserved
  cases isYield with
  | true =>
    simp only [Bool.true_eq_false, false_implies, forall_const, if_true]
    constructor
    · intro hnone
      by_contra hpos
      exact hnone (b.push task) (by omega) rfl
    · intro hle b' hroom
      omega
  | false =>
    simp only [Bool.false_eq_true, if_false, forall_const]
    constructor
    · intro hnone
      by_contra hpos
      exact hnone (b.push task) (by omega) (by omega) rfl
    · intro hle b' hreserved
      omega

theorem Follows.enqueue (h : Follows s q) (pool : Pool F A) (task : Context F A) (isYield isBlocking : Bool) :
    Follows (s.call (.enqueue pool task isYield isBlocking))
      (BufferCall.serve q (.enqueue pool task isYield isBlocking)) := by
  have hnone := taskBufferEnqueue_eq_none h.represents pool task isYield isBlocking
  rw [BufferHistory.call, BufferCall.serve]
  cases henq : taskBufferEnqueue pool s.taskBuf task isYield isBlocking with
  | none =>
    rw [Queue.offer_of_le (hnone.mp henq)]
    exact h
  | some b =>
    have hfree := Nat.not_le.mp (mt hnone.mpr (henq ▸ Option.some_ne_none b))
    obtain ⟨-, haccepted, htaken⟩ := Queue.offer_of_lt hfree task
    obtain ⟨-, -, rfl⟩ := taskBufferEnqueue_eq_some.mp henq
    refine ⟨h.represents.push hfree task, ?_, h.dequeued.trans htaken.symm⟩
    show s.enqueued ++ [task] = _
    rw [haccepted, h.enqueued]

theorem Follows.dequeue (h : Follows s q) : Follows (s.call .dequeue) (BufferCall.serve q .dequeue) := by
  have hempty := taskBufferIsEmpty_iff s.taskBuf
  rw [BufferHistory.call, BufferCall.serve]
  by_cases hused : s.taskBuf.used = 0
  · rw [h.represents.poll_eq hused, taskBufferDequeue, if_pos (s.taskBuf.head_eq_tail_iff.mpr hused)]
    dsimp only
    rw [if_pos (hempty.mpr hused)]
    exact h
  · obtain ⟨hpop, hhead⟩ := h.represents.pop hused
    rw [taskBufferDequeue_eq hused]
    refine ⟨hpop, h.enqueued, ?_⟩
    show (if _ then _ else _) = q.taken ++ q.values.head?.toList
    rw [if_neg (mt hempty.mp hused), hhead, h.dequeued]
    rfl

theorem Follows.call (h : Follows s q) (call : BufferCall F A) : Follows (s.call call) (call.serve q) := by
  cases call with
  | enqueue pool task isYield isBlocking => exact h.enqueue pool task isYield isBlocking
  | dequeue => exact h.dequeue

end Calls

/-! ## Machine words -/

theorem psizeRemainingCapacity_eq (b : Ring (Context F A)) (h : b.cap * contextSize ≤ 2 ^ 64) :
    (psizeRemainingCapacity (.ofNat b.head) (.ofNat b.tail) (.ofNat b.cap)).toNat =
      taskBufferRemainingCapacity b := by
  have hh := b.head_lt
  have ht := b.tail_lt
  have hu := b.used_lt
  have hcap : b.cap ≤ 2 ^ 59 := by
    rw [contextSize] at h
    omega
  have hsum : ((UInt64.ofNat b.head + UInt64.ofNat b.cap - UInt64.ofNat b.tail) % UInt64.ofNat b.cap).toNat =
      b.used := by
    simp only [UInt64.toNat_mod, UInt64.toNat_sub, UInt64.toNat_add, UInt64.toNat_ofNat']
    rw [Ring.used]
    congr 1 <;> omega
  simp only [psizeRemainingCapacity, UInt64.toNat_sub, hsum, UInt64.toNat_ofNat', UInt64.toNat_one,
    taskBufferRemainingCapacity]
  omega

/-! ## Every sequence of calls -/

theorem follows_fresh (memory : Nat → Context F A) {c : Nat} (h : 0 < c) :
    Follows (freshBuffer memory c h) (Queue.empty : Queue (Context F A) (c - 1)) := by
  refine ⟨⟨?_, ?_⟩, rfl, rfl⟩
  · show c = c - 1 + 1
    omega
  · exact (Ring.contents_eq_nil _).mpr ((Ring.head_eq_tail_iff _).mp rfl)

theorem follows_calls (memory : Nat → Context F A) {c : Nat} (h : 0 < c) (calls : List (BufferCall F A)) :
    Follows (calls.foldl BufferHistory.call (freshBuffer memory c h))
      (calls.foldl BufferCall.serve (Queue.empty : Queue (Context F A) (c - 1))) :=
  List.foldl_rel (follows_fresh memory h) fun call _ _ _ hs => hs.call call

/-- What is seen of the buffer `s` of `c` slots is what is seen of the queue `q`. -/
structure BehavesAs (c : Nat) (s : BufferHistory F A) (q : Queue (Context F A) (c - 1)) : Prop where
  head_lt : s.taskBuf.head < c
  tail_lt : s.taskBuf.tail < c
  remaining : taskBufferRemainingCapacity s.taskBuf = c - 1 - q.values.length
  psize : c * contextSize ≤ 2 ^ 64 →
    (psizeRemainingCapacity (.ofNat s.taskBuf.head) (.ofNat s.taskBuf.tail) (.ofNat c)).toNat =
      c - 1 - q.values.length
  contents : s.taskBuf.contents = q.values
  enqueued : s.enqueued = q.accepted
  dequeued : s.dequeued = q.taken
  /-- The tasks accepted are those dequeued and those still queued, in this order. -/
  order : s.enqueued = s.dequeued ++ q.values
  yield_refused : ∀ pool task isBlocking,
    taskBufferEnqueue pool s.taskBuf task true isBlocking = none ↔ q.values.length = c - 1
  new_refused : ∀ pool task isBlocking,
    taskBufferEnqueue pool s.taskBuf task false isBlocking = none ↔
      c - 1 - q.values.length ≤ reservedCapacity pool isBlocking
  unchanged : ∀ pool task isYield isBlocking,
    taskBufferEnqueue pool s.taskBuf task isYield isBlocking = none →
      s.call (.enqueue pool task isYield isBlocking) = s

theorem Follows.behavesAs {c : Nat} (hc : 2 ≤ c) {s : BufferHistory F A} {q : Queue (Context F A) (c - 1)}
    (h : Follows s q) : BehavesAs c s q := by
  have hcap : s.taskBuf.cap = c := by
    have := h.represents.cap
    omega
  have hfree : taskBufferRemainingCapacity s.taskBuf = c - 1 - q.values.length := h.represents.free
  refine
    { head_lt := hcap ▸ s.taskBuf.head_lt
      tail_lt := hcap ▸ s.taskBuf.tail_lt
      remaining := hfree
      psize := ?_
      contents := h.represents.contents
      enqueued := h.enqueued
      dequeued := h.dequeued
      order := by rw [h.enqueued, h.dequeued, q.order]
      yield_refused := ?_
      new_refused := ?_
      unchanged := ?_ }
  · intro hfits
    rw [← hfree, ← psizeRemainingCapacity_eq s.taskBuf (hcap ▸ hfits), hcap]
  · intro pool task isBlocking
    have hle := q.length_le
    rw [taskBufferEnqueue_eq_none h.represents, if_pos rfl, Queue.free]
    omega
  · intro pool task isBlocking
    rw [taskBufferEnqueue_eq_none h.represents, if_neg Bool.false_ne_true, Queue.free]
  · intro pool task isYield isBlocking hnone
    rw [BufferHistory.call, hnone]
    rfl

/-- Whatever is called on it, a task buffer is a bounded first-in first-out queue. -/
theorem taskBuffer_refines_queue {c : Nat} (hc : 2 ≤ c) (memory : Nat → Context F A)
    (calls : List (BufferCall F A)) :
    BehavesAs c (calls.foldl BufferHistory.call (freshBuffer memory c (Nat.zero_lt_of_lt hc)))
      (calls.foldl BufferCall.serve Queue.empty) :=
  (follows_calls memory _ calls).behavesAs hc

/-- A task with a function and nothing else. -/
def plainTask (func : Nat) : Context Nat Nat :=
  { priority := .medium, func := some func, arg := none, sessionGeneration := 0 }

def onePool : Pool Nat Nat := (newPool serverPattern 1 1 fun _ _ => .invalid).pool

/-- Three continuations are offered to a buffer of three slots, one of them is
dequeued and another one follows, which wraps around. -/
def wrappingCalls : List (BufferCall Nat Nat) :=
  [.enqueue onePool (plainTask 1) true false, .enqueue onePool (plainTask 2) true false,
    .enqueue onePool (plainTask 3) true false, .dequeue, .enqueue onePool (plainTask 4) true false,
    .dequeue]

def wrapped : BufferHistory Nat Nat :=
  wrappingCalls.foldl BufferHistory.call (freshBuffer (fun _ => .invalid) 3 (Nat.succ_pos 2))

theorem taskBuffer_refines_queue_wrapping :
    2 ≤ 3 ∧ wrapped.enqueued = [plainTask 1, plainTask 2, plainTask 4] ∧
      wrapped.dequeued = [plainTask 1, plainTask 2] ∧
      BehavesAs 3 wrapped (wrappingCalls.foldl BufferCall.serve Queue.empty) :=
  ⟨by decide, by decide, by decide, taskBuffer_refines_queue (by decide) _ wrappingCalls⟩

end TC.Proof.ThreadPool
