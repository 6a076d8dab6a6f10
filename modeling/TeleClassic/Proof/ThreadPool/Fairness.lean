import TeleClassic.Proof.ThreadPool.Counters

/-!
# The round-robin pattern

Each call of `task_pool_dequeue` moves one letter on in the pattern, whichever
buffer it then serves, so the `k`-th call since the initialisation is at the
letter `k` modulo the length of the pattern (`CallsFrom.position`). If the buffer
that the letter names is eligible, the call serves it (`serves_letter`). As many
consecutive calls as the pattern has letters meet every letter, from wherever
they start (`meets_letter`), so no buffer that the pattern names starves
(`no_letter_starves`).

Between two calls anything but the pattern and the index may change. The calls of
a run of the pool are such calls (`callsFrom_run`).
-/

namespace TC.Proof.ThreadPool

open TC.Impl.ThreadPool

variable {F A : Type}

/-- The buffer that a letter of the pattern names. -/
def bufferOf (letter : Char) : Priority := .ofIndex (letter.toNat - 'A'.toNat)

/-- `task_pool_dequeue` returns the oldest task of the buffer `p`, and takes it
from there. -/
def Serves (pool : Pool F A) (p : Priority) : Prop :=
  (pool.taskPrioBuffer p).contents =
      (taskPoolDequeue pool).1 :: ((taskPoolDequeue pool).2.taskPrioBuffer p).contents ∧
    ∀ q ≠ p, (taskPoolDequeue pool).2.taskPrioBuffer q = pool.taskPrioBuffer q

/-- The pools on which `task_pool_dequeue` is called, one call after the other;
`index` is that of the first. -/
def CallsFrom (pattern : Pattern) : Nat → List (Pool F A) → Prop
  | _, [] => True
  | index, pool :: pools =>
    pool.roundRobinPattern = pattern ∧ pool.roundRobinIndex = index ∧
      CallsFrom pattern (taskPoolDequeue pool).2.roundRobinIndex pools

/-! ## One call -/

theorem roundRobinPattern_dequeue (pool : Pool F A) :
    (taskPoolDequeue pool).2.roundRobinPattern = pool.roundRobinPattern :=
  (dequeueFrom_sameTurn _ _ _).1

theorem roundRobinIndex_dequeue (pool : Pool F A) : (taskPoolDequeue pool).2.roundRobinIndex =
    (pool.roundRobinPattern.letterAt pool.roundRobinIndex).1 + 1 :=
  (dequeueFrom_sameTurn _ _ _).2

/-- The index of a letter or of the terminator, which is read as the first letter. -/
theorem letterAt_eq {pattern : Pattern} {index : Nat} (h : index ≤ pattern.letters.length) :
    (pattern.letterAt index).1 = index % pattern.letters.length ∧
      pattern.letters[index % pattern.letters.length]? = some (pattern.letterAt index).2 := by
  rw [Pattern.letterAt]
  rcases Nat.lt_or_eq_of_le h with hlt | rfl
  · rw [Nat.mod_eq_of_lt hlt, List.getElem?_eq_getElem hlt]
    exact ⟨rfl, rfl⟩
  · rw [Nat.mod_self, List.getElem?_eq_none (Nat.le_refl _)]
    exact ⟨rfl, (List.head?_eq_getElem? ▸ List.head?_eq_some_head pattern.nonempty)⟩

/-- A call serves the buffer of the letter that it is at, if it can. -/
theorem serves_letter {pool : Pool F A} {letter : Char}
    (hletter : (pool.roundRobinPattern.letterAt pool.roundRobinIndex).2 = letter)
    (he : bufferEligible pool (bufferOf letter) = true) : Serves pool (bufferOf letter) := by
  have hused := ((bufferEligible_iff _ _).mp he).1
  subst hletter
  generalize hl : pool.roundRobinPattern.letterAt pool.roundRobinIndex = l at he hused ⊢
  have hdequeue : taskPoolDequeue pool =
      (oldest pool (bufferOf l.2), { tookFrom pool (bufferOf l.2) with roundRobinIndex := l.1 + 1 }) := by
    have he' : bufferEligible { pool with roundRobinIndex := l.1 + 1 } (bufferOf l.2) = true := he
    simp only [taskPoolDequeue, hl]
    rw [bufferOf] at he' hused ⊢
    rw [dequeueFrom, if_pos he', taskBufferDequeue_eq hused]
    rfl
  rw [Serves, hdequeue]
  constructor
  · show _ = oldest pool _ :: ((tookFrom pool _).taskPrioBuffer _).contents
    simp only [tookFrom, Pool.setBuffer, Function.update_self]
    exact Ring.contents_pop _ hused
  · intro q hq
    exact Function.update_of_ne hq _ _

/-! ## Consecutive calls -/

/-- The call after `k` others is `k` letters further on, by induction on `k`. -/
theorem CallsFrom.position {pattern : Pattern} {index : Nat} (hindex : index ≤ pattern.letters.length)
    {pools : List (Pool F A)} (h : CallsFrom pattern index pools) {k : Nat} {pool : Pool F A}
    (hk : pools[k]? = some pool) :
    pool.roundRobinPattern = pattern ∧
      pattern.letters[(index + k) % pattern.letters.length]? =
        some (pattern.letterAt pool.roundRobinIndex).2 := by
  induction k generalizing index pools with
  | zero =>
    cases pools with
    | nil => simp at hk
    | cons first pools =>
      obtain rfl := Option.some.inj hk
      refine ⟨h.1, ?_⟩
      rw [Nat.add_zero, h.2.1]
      exact (letterAt_eq hindex).2
  | succ k ih =>
    cases pools with
    | nil => simp at hk
    | cons first pools =>
      obtain ⟨rfl, rfl, hnext⟩ := h
      rw [roundRobinIndex_dequeue] at hnext
      have hle : (first.roundRobinPattern.letterAt first.roundRobinIndex).1 + 1 ≤
          first.roundRobinPattern.letters.length := letterAt_lt _ _
      obtain ⟨hpattern, hletter⟩ := ih hle hnext hk
      refine ⟨hpattern, hletter ▸ ?_⟩
      rw [(letterAt_eq hindex).1, Nat.add_assoc, Nat.mod_add_mod, Nat.add_comm 1 k]

/-- As many calls as the pattern has letters meet each of its letters. -/
theorem meets_letter {n position : Nat} (hposition : position < n) (start : Nat) :
    ∃ j < n, (start + j) % n = position := by
  refine ⟨(position + (n - start % n)) % n, Nat.mod_lt _ (by omega), ?_⟩
  have hlt := Nat.mod_lt start (Nat.zero_lt_of_lt hposition)
  rw [Nat.add_mod_mod, ← Nat.mod_add_mod, show start % n + (position + (n - start % n)) = position + n by omega,
    Nat.add_mod_right, Nat.mod_eq_of_lt hposition]

/-- Every letter of the pattern is served in any sequence of calls that is as long
as the pattern, if its buffer is eligible at each of them; and the `k`-th call serves
the buffer that the pattern names at `k` modulo its length, if it is eligible. -/
theorem no_letter_starves {pattern : Pattern} {pools : List (Pool F A)} (h : CallsFrom pattern 0 pools) :
    (∀ before window after, pools = before ++ window ++ after →
      window.length = pattern.letters.length → ∀ letter ∈ pattern.letters,
      (∀ pool ∈ window, bufferEligible pool (bufferOf letter) = true) →
        ∃ pool ∈ window, Serves pool (bufferOf letter)) ∧
    ∀ k pool letter, pools[k]? = some pool →
      pattern.letters[k % pattern.letters.length]? = some letter →
      bufferEligible pool (bufferOf letter) = true → Serves pool (bufferOf letter) := by
  have hserves {k : Nat} {pool : Pool F A} {letter : Char} (hk : pools[k]? = some pool)
      (hletter : pattern.letters[k % pattern.letters.length]? = some letter)
      (he : bufferEligible pool (bufferOf letter) = true) : Serves pool (bufferOf letter) := by
    obtain ⟨hpattern, hat⟩ := h.position (Nat.zero_le _) hk
    rw [Nat.zero_add, hletter] at hat
    refine serves_letter ?_ he
    rw [hpattern]
    exact (Option.some.inj hat).symm
  refine ⟨?_, fun k pool letter => hserves⟩
  rintro before window after rfl hlength letter hletter he
  obtain ⟨position, hposition, hat⟩ := List.mem_iff_getElem.mp hletter
  obtain ⟨j, hj, hmeets⟩ := meets_letter hposition before.length
  have hwindow : window[j]? = some (window.get ⟨j, hlength ▸ hj⟩) := by simp [hlength, hj]
  have hmem : window.get ⟨j, hlength ▸ hj⟩ ∈ window := List.get_mem _ _
  refine ⟨_, hmem, hserves (k := before.length + j) ?_ ?_ (he _ hmem)⟩
  · rw [List.append_assoc, List.getElem?_append_right (Nat.le_add_right _ _), Nat.add_sub_cancel_left,
      List.getElem?_append_left (hlength ▸ hj), hwindow]
  · rw [hmeets, List.getElem?_eq_getElem hposition, hat]

/-- A pattern that names two of the buffers. -/
def highLow : Pattern where
  letters := ['A', 'D']
  nonempty := by simp
  valid := by simp

/-- A pool with two tasks in each buffer. -/
def filledPool : Pool Nat Nat :=
  let system : System Nat Nat := newPool highLow 1 1 fun _ _ => .invalid
  { system.pool with taskPrioBuffer := fun p => ((system.pool.taskPrioBuffer p).push .invalid).push .invalid }

/-- It is called twice. -/
def twoCalls : List (Pool Nat Nat) := [filledPool, (taskPoolDequeue filledPool).2]

theorem no_letter_starves_highLow :
    CallsFrom highLow 0 twoCalls ∧ (∃ pool ∈ twoCalls, Serves pool .low) ∧ Serves filledPool .high := by
  have hcalls : CallsFrom highLow 0 twoCalls := ⟨rfl, rfl, rfl, rfl, trivial⟩
  have heligible : ∀ pool ∈ twoCalls, ∀ p, bufferEligible pool p = true := by
    intro pool hpool p
    simp only [twoCalls, List.mem_cons, List.not_mem_nil, or_false] at hpool
    rcases hpool with rfl | rfl <;> cases p <;> decide
  obtain ⟨hwindow, hkth⟩ := no_letter_starves hcalls
  exact ⟨hcalls, hwindow [] twoCalls [] rfl rfl 'D' (by decide) fun pool hpool => heligible pool hpool .low,
    hkth 0 filledPool 'A' rfl rfl (heligible _ List.mem_cons_self .high)⟩

/-! ## The calls of a run -/

theorem callsFrom_collect {s t : System F A} {es : List (Event F A)} (h : run step s es = some t) :
    CallsFrom s.pool.roundRobinPattern s.pool.roundRobinIndex (collect step dequeues s es) := by
  induction es generalizing s with
  | nil => trivial
  | cons e es ih =>
    obtain ⟨s', he, h'⟩ := run_cons.mp h
    have hrest := ih h'
    rw [collect_cons he]
    rcases step_turns he with ⟨hnone, hpattern, hindex⟩ | ⟨q, hone, ⟨hpattern, hindex⟩, hpattern', hindex'⟩
    · rw [hpattern, hindex] at hrest
      rw [hnone]
      exact hrest
    · rw [hpattern', roundRobinPattern_dequeue, hpattern, hindex'] at hrest
      rw [hone]
      exact ⟨hpattern, hindex, hrest⟩

/-- In every run of a new pool, the calls of `task_pool_dequeue` are consecutive
calls from the first letter on. -/
theorem callsFrom_run {pattern : Pattern} {numThreads maxBlockingThreads : Nat}
    {memory : Priority → Nat → Context F A} {es : List (Event F A)} {t : System F A}
    (h : run step (newPool pattern numThreads maxBlockingThreads memory) es = some t) :
    CallsFrom pattern 0 (collect step dequeues (newPool pattern numThreads maxBlockingThreads memory) es) :=
  callsFrom_collect h

end TC.Proof.ThreadPool
