import TeleClassic.Proof.ThreadPool.Conservation

/-!
# The counters of the pool and the tasks it hands out

`Counts`, which every move keeps, says what `active_threads` and
`blocking_active` count and which tasks a buffer holds. Here it is put together
with two more invariants of every run: the index into the round-robin pattern
stays at most one past the pattern's last letter (`InPattern`), where the code
finds the terminator and starts over, and tasks are only accepted with a
function (`Callable`). The index moves in a call of `task_pool_dequeue` only
(`step_turns`). A task in a buffer was accepted, so what `task_pool_dequeue`
returns when `thread_pool_has_tasks` holds can be called.
-/

namespace TC.Proof.ThreadPool

open TC.Impl.ThreadPool

variable {F A : Type} {s : System F A} {pool : Pool F A} {s' : System F A} {e : Event F A}

/-! ## The turns of the round robin -/

theorem letterAt_lt (pattern : Pattern) (index : Nat) :
    (pattern.letterAt index).1 < pattern.letters.length := by
  rw [Pattern.letterAt]
  split
  · rename_i c h
    exact (List.getElem?_eq_some_iff.mp h).1
  · exact List.length_pos_iff.mpr pattern.nonempty

/-- The pattern and the index are the same. -/
def SameTurn (pool pool' : Pool F A) : Prop :=
  pool'.roundRobinPattern = pool.roundRobinPattern ∧ pool'.roundRobinIndex = pool.roundRobinIndex

theorem SameTurn.refl (pool : Pool F A) : SameTurn pool pool := ⟨rfl, rfl⟩

theorem dequeueFrom_sameTurn (pool : Pool F A) (n index : Nat) : SameTurn pool (dequeueFrom pool n index).2 := by
  induction n generalizing index with
  | zero => exact .refl pool
  | succ n ih =>
    simp only [dequeueFrom]
    split
    · exact ⟨rfl, rfl⟩
    · exact ih _

/-- The pool that a worker at the top of its loop dequeues from, if it does. -/
def dequeuesFrom (pool : Pool F A) : List (Pool F A) := if threadPoolHasTasks pool then [pool] else []

/-- The calls of `task_pool_dequeue` in a critical section. -/
def dequeues (s : System F A) (e : Event F A) (_ : System F A) : List (Pool F A) :=
  match e with
  | .loop _ => dequeuesFrom s.pool
  | .taskReturns worker pick =>
    (s.running? worker).elim [] fun running => dequeuesFrom (taskReturned s worker running.1 pick).pool
  | _ => []

/-- The calls `pools` lead from the turn of `pool` to that of `pool'`. -/
def Turns (pool pool' : Pool F A) (pools : List (Pool F A)) : Prop :=
  pools = [] ∧ SameTurn pool pool' ∨
    ∃ q, pools = [q] ∧ SameTurn pool q ∧ SameTurn (taskPoolDequeue q).2 pool'

theorem Turns.none {pool' : Pool F A} (h : SameTurn pool pool') : Turns pool pool' [] := .inl ⟨rfl, h⟩

theorem workerLoop_turns (h : SameTurn pool s.pool) (i : Nat) :
    Turns pool (workerLoop s i).pool (dequeuesFrom s.pool) := by
  rw [workerLoop, dequeuesFrom]
  split
  · exact .inr ⟨s.pool, rfl, h, rfl, rfl⟩
  · refine .none ?_
    split <;> exact h

theorem scheduleYield_sameTurn (s : System F A) (task : Context F A) (pick : Nat) :
    SameTurn s.pool (scheduleYield s task pick).pool := by
  rw [scheduleYield]
  split
  · exact .refl _
  · rename_i s' he
    obtain ⟨-, -, rfl⟩ := enqueue_eq_some.mp he
    exact ⟨rfl, rfl⟩

theorem scheduleNew_sameTurn (s : System F A) (task : Context F A) (pick : Nat) :
    SameTurn s.pool (tcThreadScheduleNew s task pick).2.pool := by
  rw [tcThreadScheduleNew]
  split
  · exact .refl _
  · split
    · exact .refl _
    · rename_i s' he
      obtain ⟨-, -, rfl⟩ := enqueue_eq_some.mp he
      exact ⟨rfl, rfl⟩

theorem scheduleNext_sameTurn (s : System F A) (nextTask shutdownTask : Option F) (arg : Option A)
    (priority : Priority) (gen : Int) (pick : Nat) :
    SameTurn s.pool (tcThreadScheduleNext s nextTask shutdownTask arg priority gen pick).pool := by
  simp only [tcThreadScheduleNext]
  split
  all_goals
    split
    · exact .refl _
    · exact scheduleYield_sameTurn ..

theorem scheduleNext2_sameTurn (s : System F A) (nextTask : Option F) (arg : Option A) (priority : Priority)
    (gen : Int) (pick : Nat) :
    SameTurn s.pool (tcThreadScheduleNext2 s nextTask arg priority gen pick).2.pool := by
  simp only [tcThreadScheduleNext2]
  split
  · exact .refl _
  split
  · exact .refl _
  · exact scheduleYield_sameTurn ..

/-- A turn is taken in the loop of a worker only. -/
theorem step_turns (h : step s e = some s') : Turns s.pool s'.pool (dequeues s e s') := by
  cases step_cases h with
  | new task pick => exact .none (scheduleNew_sameTurn s task pick)
  | @next i c t => exact .none (scheduleNext_sameTurn (s.called i t c) ..)
  | @next2 i c t => exact .none (scheduleNext2_sameTurn (s.called i t c) ..)
  | stop => exact .none ⟨rfl, rfl⟩
  | @loop i _ => exact workerLoop_turns (.refl s.pool) i
  | @taskReturns i c t hr pick =>
    rw [dequeues, hr]
    exact workerLoop_turns (s := taskReturned s i t pick) ⟨rfl, rfl⟩ i
  | wakeUp => exact .none (.refl _)

/-! ## The round-robin index -/

/-- The index is that of a letter of the pattern, or of its terminator. -/
def InPattern (pool : Pool F A) : Prop := pool.roundRobinIndex ≤ pool.roundRobinPattern.letters.length

theorem SameTurn.inPattern {pool' : Pool F A} (h : SameTurn pool pool') (hin : InPattern pool) :
    InPattern pool' := by
  rw [InPattern, h.1, h.2]
  exact hin

/-- Whatever the index was, a dequeue leaves it in the pattern. -/
theorem taskPoolDequeue_inPattern (pool : Pool F A) : InPattern (taskPoolDequeue pool).2 :=
  have hin : InPattern { pool with
      roundRobinIndex := (pool.roundRobinPattern.letterAt pool.roundRobinIndex).1 + 1 } :=
    letterAt_lt pool.roundRobinPattern pool.roundRobinIndex
  (dequeueFrom_sameTurn _ 4 _).inPattern hin

theorem InPattern.step (h : InPattern s.pool) (he : step s e = some s') : InPattern s'.pool := by
  rcases step_turns he with ⟨-, hsame⟩ | ⟨q, -, -, hsame⟩
  · exact hsame.inPattern h
  · exact hsame.inPattern (taskPoolDequeue_inPattern q)

/-! ## The functions of tasks -/

/-- A new task has a function. -/
def HasFunc : Event F A → Prop
  | .scheduleNew task _ => task.func.isSome = true
  | _ => True

/-- Every accepted task has a function. -/
def Callable (s : System F A) : Prop := ∀ t ∈ s.accepted, t.func.isSome = true

theorem scheduleYield_callable (h : Callable s) {task : Context F A} (hf : task.func.isSome = true)
    (pick : Nat) : Callable (scheduleYield s task pick) := by
  rw [scheduleYield]
  split
  · exact h
  · rename_i s' he
    obtain ⟨-, -, rfl⟩ := enqueue_eq_some.mp he
    intro t ht
    rcases List.mem_append.mp ht with ht | ht
    · exact h t ht
    · rw [List.mem_singleton.mp ht]
      exact hf

theorem Callable.step (hf : HasFunc e) (h : Callable s) (he : step s e = some s') : Callable s' := by
  cases step_section he with
  | new task pick =>
    intro t ht
    rcases mem_accepted_scheduleNew ht with ht | rfl
    · exact h t ht
    · exact hf
  | call _ => exact h
  | @yield _ i c t _ task func pick => exact scheduleYield_callable (s := s.called i t c) h func pick
  | stop => exact h
  | @loop i _ =>
    rw [Callable, accepted_workerLoop]
    exact h
  | @taskReturns i _ t _ pick =>
    rw [Callable, accepted_workerLoop]
    exact h
  | wakeUp _ => exact h

theorem mem_queuedTasks {p : Priority} {t : Context F A} (h : t ∈ (pool.taskPrioBuffer p).contents) :
    t ∈ queuedTasks pool := by
  cases p <;> simp [queuedTasks, Priority.all, tally_cons, h]

/-- What is dequeued when some buffer is eligible can be called. -/
theorem taskPoolDequeue_func (h : Conserved s) (hf : Callable s) (ht : threadPoolHasTasks s.pool = true) :
    (taskPoolDequeue s.pool).1.func ≠ none := by
  obtain ⟨p, i, he, hd⟩ := taskPoolDequeue_eq ht
  have hmem : oldest s.pool p ∈ (s.accepted : Tasks F A) := by
    rw [h, Multiset.mem_add, Multiset.mem_add]
    exact .inl (.inl (mem_queuedTasks (oldest_mem he)))
  rw [hd]
  exact Option.isSome_iff_ne_none.mp (hf _ (Multiset.mem_coe.mp hmem))

/-! ## Runs -/

/-- In every state of every run in which new tasks have functions: buffers hold
tasks of their own priority, `active_threads` and `blocking_active` count the
running tasks and the running blocking tasks, of which there are never more than
`max_blocking_threads`, the round-robin index stays in the pattern, and when
some buffer is eligible a task with a function is dequeued. -/
theorem pool_counters {pattern : Pattern} {numThreads maxBlockingThreads : Nat}
    {memory : Priority → Nat → Context F A} {es : List (Event F A)} {s : System F A}
    (hf : ∀ e ∈ es, HasFunc e)
    (h : run step (newPool pattern numThreads maxBlockingThreads memory) es = some s) :
    (∀ p, ∀ t ∈ (s.pool.taskPrioBuffer p).contents, t.priority = p) ∧
      s.pool.activeThreads = numRunning s.workers ∧
      s.pool.blockingActive = numRunningAt .blocking s.workers ∧
      s.pool.blockingActive ≤ s.pool.maxBlockingThreads ∧
      s.pool.roundRobinIndex ≤ s.pool.roundRobinPattern.letters.length ∧
      (threadPoolHasTasks s.pool = true → (taskPoolDequeue s.pool).1.func ≠ none) := by
  have ht : Along step (fun s e => False → Disciplined s e)
      (newPool pattern numThreads maxBlockingThreads memory) es :=
    along_true.imp fun _ _ _ hf => hf.elim
  have hcounts := run_inv_of_move (fun _ _ => Counts.move) ht (counts_newPool ..) h
  have hconserved := run_inv_of_move (fun _ _ => Conserved.move) ht (conserved_newPool ..) h
  have hpattern := run_inv (fun _ _ _ => InPattern.step) (Nat.zero_le _) h
  have hcallable := run_inv_along (fun _ _ _ => Callable.step) (along_of_forall fun e he _ => hf e he)
    (fun t ht => by cases ht) h
  exact ⟨hcounts.priority, hcounts.active, hcounts.blocking, hcounts.cap, hpattern,
    taskPoolDequeue_func hconserved hcallable⟩

/-- With a pattern of one letter, of another buffer than the scheduled task's. -/
theorem pool_counters_low : ∃ s : System Nat Nat,
    run step (newPool ⟨['A'], by simp, by simp⟩ 2 1 fun _ _ => .invalid)
      [.scheduleNew ⟨.blocking, some 0, none, 1⟩ 0, .scheduleNew ⟨.low, some 1, none, 1⟩ 0, .loop 0] =
        some s ∧
    threadPoolHasTasks s.pool = true ∧ (taskPoolDequeue s.pool).1.func ≠ none ∧
    s.pool.blockingActive = numRunningAt .blocking s.workers ∧ s.pool.blockingActive = 1 := by
  obtain ⟨s, hs⟩ : ∃ s : System Nat Nat,
      run step (newPool ⟨['A'], by simp, by simp⟩ 2 1 fun _ _ => .invalid)
        [.scheduleNew ⟨.blocking, some 0, none, 1⟩ 0, .scheduleNew ⟨.low, some 1, none, 1⟩ 0, .loop 0] =
          some s := ⟨_, rfl⟩
  have h := pool_counters (by simp [HasFunc]) hs
  obtain rfl := Option.some.inj hs
  exact ⟨_, rfl, rfl, h.2.2.2.2.2 rfl, h.2.2.1, rfl⟩

end TC.Proof.ThreadPool
