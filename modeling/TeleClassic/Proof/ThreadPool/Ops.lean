import TeleClassic.Impl.ThreadPool

/-!
# The operations of the thread pool

What each operation of `thread_pool.c` does, stated once: when an enqueue is
refused (`taskBufferEnqueue_eq_some`), which buffers a worker may take a task
from (`bufferEligible_iff`), and that `task_pool_dequeue` takes the oldest
task of an eligible buffer whenever there is one (`taskPoolDequeue_eq`).
-/

namespace TC.Proof.ThreadPool

open TC.Impl.ThreadPool

variable {F A : Type}

theorem taskBufferIsEmpty_iff (b : Ring (Context F A)) : taskBufferIsEmpty b = true ↔ b.used = 0 := by
  rw [taskBufferIsEmpty, beq_iff_eq, b.head_eq_tail_iff]

theorem bufferEligible_iff (pool : Pool F A) (p : Priority) :
    bufferEligible pool p = true ↔ (pool.taskPrioBuffer p).used ≠ 0 ∧
      (p = .blocking → pool.blockingActive < pool.maxBlockingThreads) := by
  rw [bufferEligible]
  by_cases he : (pool.taskPrioBuffer p).used = 0
  · simp [(taskBufferIsEmpty_iff _).mpr he, he]
  · have hn : taskBufferIsEmpty (pool.taskPrioBuffer p) = false := by
      rw [← Bool.not_eq_true, taskBufferIsEmpty_iff]; exact he
    simp [hn, he, imp_iff_not_or]

theorem mem_all (p : Priority) : p ∈ Priority.all := by cases p <;> decide

theorem threadPoolHasTasks_iff (pool : Pool F A) :
    threadPoolHasTasks pool = true ↔ ∃ p, bufferEligible pool p = true := by
  rw [threadPoolHasTasks, List.any_eq_true]
  exact ⟨fun ⟨p, _, h⟩ => ⟨p, h⟩, fun ⟨p, h⟩ => ⟨p, mem_all p, h⟩⟩

/-- An enqueue succeeds when there is a free slot and, unless it continues a
task chain, more of them than are reserved. -/
theorem taskBufferEnqueue_eq_some {pool : Pool F A} {b b' : Ring (Context F A)} {task : Context F A}
    {isYield isBlocking : Bool} :
    taskBufferEnqueue pool b task isYield isBlocking = some b' ↔
      (isYield = false →
        (if isBlocking then pool.maxBlockingThreads else pool.numThreads) + b.used + 1 < b.cap) ∧
      b.used + 1 < b.cap ∧ b' = b.push task := by
  have hlt := b.used_lt
  simp only [taskBufferEnqueue, taskBufferRemainingCapacity, b.next_eq_tail_iff]
  generalize (if isBlocking then pool.maxBlockingThreads else pool.numThreads) = reserved
  cases isYield with
  | true =>
    by_cases hf : b.used = b.cap - 1
    · simp only [Bool.not_true, Bool.false_eq_true, false_and, if_false, hf, if_true, reduceCtorEq,
        false_iff]
      omega
    · simp only [Bool.not_true, Bool.false_eq_true, false_and, if_false, hf, Option.some.injEq,
        reduceCtorEq, false_implies, true_and]
      exact ⟨fun h => ⟨by omega, h.symm⟩, fun h => h.2.symm⟩
  | false =>
    by_cases hr : b.cap - 1 - b.used ≤ reserved
    · simp only [Bool.not_false, true_and, hr, if_true, reduceCtorEq, false_iff]
      rintro ⟨h, -⟩
      have := h trivial
      omega
    · have hf : ¬ b.used = b.cap - 1 := by omega
      simp only [Bool.not_false, true_and, hr, if_false, hf, Option.some.injEq, forall_const]
      exact ⟨fun h => ⟨by omega, by omega, h.symm⟩, fun h => h.2.2.symm⟩

theorem taskBufferDequeue_eq {b : Ring (Context F A)} (h : b.used ≠ 0) :
    taskBufferDequeue b = (b.slots b.tail, b.pop) := by
  rw [taskBufferDequeue, if_neg (mt b.head_eq_tail_iff.mp h)]

/-- A pool after a worker took the oldest task of the buffer `p`. -/
def tookFrom (pool : Pool F A) (p : Priority) : Pool F A :=
  pool.setBuffer p (pool.taskPrioBuffer p).pop

/-- The oldest task of the buffer `p`. -/
def oldest (pool : Pool F A) (p : Priority) : Context F A :=
  (pool.taskPrioBuffer p).slots (pool.taskPrioBuffer p).tail

/-- The loop finds an eligible buffer among the next `n`, by induction on `n`. -/
theorem dequeueFrom_eq {pool : Pool F A} {n index k : Nat} (hi : index < 4) (hk : k < n)
    (he : bufferEligible pool (.ofIndex ((index + k) % 4)) = true) :
    ∃ p, bufferEligible pool p = true ∧ dequeueFrom pool n index = (oldest pool p, tookFrom pool p) := by
  induction n generalizing index k with
  | zero => omega
  | succ n ih =>
    by_cases h : bufferEligible pool (.ofIndex index) = true
    · refine ⟨_, h, ?_⟩
      rw [dequeueFrom, if_pos h, taskBufferDequeue_eq ((bufferEligible_iff _ _).mp h).1]
      rfl
    · have hk0 : k ≠ 0 := by
        rintro rfl
        rw [Nat.add_zero, Nat.mod_eq_of_lt hi] at he
        exact h he
      rw [dequeueFrom, if_neg h]
      refine ih (k := k - 1) (Nat.mod_lt _ (by decide)) (by omega) ?_
      rw [Nat.mod_add_mod, show index + 1 + (k - 1) = index + k by omega]
      exact he

theorem ofIndex_surjective (p : Priority) : ∃ j < 4, Priority.ofIndex j = p := by
  cases p with
  | high => exact ⟨0, by decide, rfl⟩
  | medium => exact ⟨1, by decide, rfl⟩
  | blocking => exact ⟨2, by decide, rfl⟩
  | low => exact ⟨3, by decide, rfl⟩

theorem letterAt_mem (pattern : Pattern) (index : Nat) :
    (pattern.letterAt index).2 ∈ pattern.letters := by
  rw [Pattern.letterAt]
  split
  · rename_i c h; exact List.mem_of_getElem? h
  · exact List.head_mem _

/-- The letters of a pattern name the four buffers. -/
theorem letter_index_lt {pattern : Pattern} {c : Char} (h : c ∈ pattern.letters) :
    c.toNat - 'A'.toNat < 4 := by
  have hv := pattern.valid c h
  simp only [List.mem_cons, List.not_mem_nil, or_false] at hv
  rcases hv with rfl | rfl | rfl | rfl <;> decide

/-- Whenever some buffer is eligible, `task_pool_dequeue` takes the oldest
task of an eligible buffer. -/
theorem taskPoolDequeue_eq {pool : Pool F A} (h : threadPoolHasTasks pool = true) :
    ∃ p i, bufferEligible pool p = true ∧
      taskPoolDequeue pool = (oldest pool p, { tookFrom pool p with roundRobinIndex := i }) := by
  obtain ⟨q, hq⟩ := (threadPoolHasTasks_iff _).mp h
  obtain ⟨j, hj, rfl⟩ := ofIndex_surjective q
  have hm := letterAt_mem pool.roundRobinPattern pool.roundRobinIndex
  generalize hl : pool.roundRobinPattern.letterAt pool.roundRobinIndex = l at hm
  have hi := letter_index_lt hm
  -- how many buffers after the one the pattern names the eligible one comes
  generalize hk : (j + 4 - (l.2.toNat - 'A'.toNat)) % 4 = k
  have hk4 : k < 4 := hk ▸ Nat.mod_lt _ (by decide)
  have hjk : (l.2.toNat - 'A'.toNat + k) % 4 = j := by omega
  obtain ⟨p, hp, he⟩ := dequeueFrom_eq (n := 4) hi hk4
    (show bufferEligible { pool with roundRobinIndex := l.1 + 1 } _ = true from hjk ▸ hq)
  refine ⟨p, l.1 + 1, hp, ?_⟩
  simp only [taskPoolDequeue, hl, he]
  rfl

end TC.Proof.ThreadPool
