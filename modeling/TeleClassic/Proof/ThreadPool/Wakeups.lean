import TeleClassic.Proof.ThreadPool.Conservation

/-!
# No wake-up is lost

`Attended` holds whenever the lock of the pool is free: if a buffer is
eligible, some worker runs a task or is ready to look at the buffers, and in a
pool that is shut down and has nothing to do no worker waits. It is not kept by
the single moves (a task is in its buffer before the signal is sent), but by
the critical sections: an enqueue signals (`exists_awake_signal`), a worker
waits only after it has seen that nothing is eligible, and under shutdown only
while some task runs (`attended_workerLoop`). This takes in the blocking slot
that a task frees: the worker that ran it is at the top of its loop before the
lock is free. What the moves keep is `Staffed`: there are workers, and one that
has returned was shut down.
-/

namespace TC.Proof.ThreadPool

open TC.Impl.ThreadPool

variable {F A : Type} {s : System F A} {ws : List (Worker F A)}

/-- The worker runs a task, or looks at the buffers before it waits. -/
def Awake : Worker F A → Prop
  | .ready => True
  | .running _ _ => True
  | .waiting => False
  | .returned => False

theorem awake_iff (w : Worker F A) : Awake w ↔ w = .ready ∨ ∃ t c, w = .running t c := by
  cases w <;> simp [Awake]

/-! ## Signals and broadcasts -/

theorem Wakes.exists_awake {ws' : List (Worker F A)} (h : Wakes ws ws') (ha : ∃ w ∈ ws, Awake w) :
    ∃ w ∈ ws', Awake w := by
  obtain ⟨w, hw, ha⟩ := ha
  obtain ⟨i, hi⟩ := List.getElem?_of_mem hw
  have hne : w ≠ .waiting := fun hw => by rw [hw] at ha; exact ha
  exact ⟨w, List.mem_of_getElem? (h.getElem? hi hne), ha⟩

theorem ready_mem_wakeFirst (h : .waiting ∈ ws) : .ready ∈ wakeFirst ws := by
  induction ws with
  | nil => cases h
  | cons w ws ih =>
    cases w with
    | waiting => exact List.mem_cons_self
    | _ =>
      simp only [List.mem_cons, reduceCtorEq, false_or] at h
      exact List.mem_cons_of_mem _ (ih h)

theorem ready_mem_signal (pick : Nat) (h : .waiting ∈ ws) : .ready ∈ signal pick ws := by
  rw [signal]
  split
  · rename_i hp
    exact List.mem_set (List.getElem?_eq_some_iff.mp hp).1 _
  · exact ready_mem_wakeFirst h

/-- After a signal to workers none of which has returned, one is awake. -/
theorem exists_awake_signal (pick : Nat) (hl : 0 < ws.length) (hr : .returned ∉ ws) :
    ∃ w ∈ signal pick ws, Awake w := by
  by_cases hw : .waiting ∈ ws
  · exact ⟨.ready, ready_mem_signal pick hw, trivial⟩
  · -- nobody waits, so everybody is awake
    refine (signal_wakes pick ws).exists_awake ?_
    obtain ⟨w, hmem⟩ := List.exists_mem_of_length_pos hl
    refine ⟨w, hmem, ?_⟩
    cases w with
    | waiting => exact absurd hmem hw
    | returned => exact absurd hmem hr
    | _ => trivial

theorem waiting_not_mem_broadcast (ws : List (Worker F A)) : .waiting ∉ broadcast ws := by
  intro h
  obtain ⟨w, -, hw⟩ := List.mem_map.mp h
  cases w <;> cases hw

/-! ## What the moves keep -/

/-- The counters are right, there are workers, and they return only when the
pool is shut down. -/
structure Staffed (s : System F A) : Prop where
  counts : Counts s
  threads : 0 < s.workers.length
  returned : .returned ∈ s.workers → s.pool.shutdown = true

theorem Staffed.move {strict : Prop} {s' : System F A} (m : Move strict s s') (h : Staffed s) :
    Staffed s' := by
  refine ⟨h.counts.move m, length_workers_move m ▸ h.threads, ?_⟩
  cases m with
  | accept => exact h.returned
  | stop => exact fun _ => rfl
  | wake wakes => exact fun hr => h.returned (wakes.returned_mem hr)
  | exit _ shutdown => exact fun _ => shutdown
  | _ => exact fun hr => h.returned (returned_mem_set (by simp) hr)

theorem staffed_newPool (pattern : Pattern) {numThreads : Nat} (hn : 0 < numThreads)
    (maxBlockingThreads : Nat) (memory : Priority → Nat → Context F A) :
    Staffed (newPool pattern numThreads maxBlockingThreads memory) where
  counts := counts_newPool ..
  threads := by rw [newPool, List.length_replicate]; exact hn
  returned hr := by cases List.eq_of_mem_replicate hr

/-! ## What the critical sections keep -/

/-- No eligible buffer is left to sleeping workers, and no worker sleeps on
when there is nothing left to wait for. -/
structure Attended (s : System F A) : Prop where
  eligible : threadPoolHasTasks s.pool = true → ∃ w ∈ s.workers, Awake w
  stopped : s.pool.shutdown = true → (∀ p, (s.pool.taskPrioBuffer p).used = 0) →
    (∀ w ∈ s.workers, ∀ t c, w ≠ .running t c) → .waiting ∉ s.workers

theorem attended_of_running {i c : Nat} {t : Context F A} (at_ : s.workers[i]? = some (.running t c)) :
    Attended s where
  eligible _ := ⟨_, List.mem_of_getElem? at_, trivial⟩
  stopped _ _ hidle := absurd rfl (hidle _ (List.mem_of_getElem? at_) t c)

theorem exists_running (h : Counts s) (ha : s.pool.activeThreads ≠ 0) :
    ∃ w ∈ s.workers, ∃ t c, w = .running t c := by
  by_contra hno
  refine ha (h.active.trans ?_)
  have hzero : numRunning s.workers = 0 := by
    refine tally_eq_zero fun w hw => ?_
    cases w with
    | running t c => exact absurd ⟨_, hw, t, c, rfl⟩ hno
    | _ => rfl
  rw [hzero]
  rfl

/-- Whatever the state was, a worker leaves it attended. -/
theorem attended_workerLoop {i : Nat} (at_ : s.workers[i]? = some .ready) (hc : Counts (workerLoop s i)) :
    Attended (workerLoop s i) := by
  have hi := (List.getElem?_eq_some_iff.mp at_).1
  revert hc
  rw [workerLoop]
  split
  · exact fun _ => attended_of_running (List.getElem?_set_self hi)
  · rename_i ht
    split
    · refine fun _ => ⟨fun h => absurd h ht, fun _ _ _ hw => ?_⟩
      rcases List.mem_or_eq_of_mem_set hw with hw | hw
      · exact waiting_not_mem_broadcast _ hw
      · cases hw
    · rename_i hs
      refine fun hc => ⟨fun h => absurd h ht, fun hshutdown _ hidle => ?_⟩
      -- it waits under shutdown: then some task runs
      obtain ⟨w, hw, t, c, rfl⟩ := exists_running hc fun h0 => hs ⟨hshutdown, h0⟩
      exact absurd rfl (hidle _ hw t c)

theorem getElem?_scheduleYield {i c : Nat} {t : Context F A} (at_ : s.workers[i]? = some (.running t c))
    (task : Context F A) (pick : Nat) : (scheduleYield s task pick).workers[i]? = some (.running t c) := by
  rw [scheduleYield]
  split
  · exact at_
  · rename_i s' h
    obtain ⟨-, -, rfl⟩ := enqueue_eq_some.mp h
    exact (signal_wakes pick s.workers).getElem? at_ (by simp)

theorem Attended.scheduleNew (hs : Staffed s) (h : Attended s) (task : Context F A) (pick : Nat) :
    Attended (tcThreadScheduleNew s task pick).2 := by
  rw [tcThreadScheduleNew]
  split
  · exact h
  · rename_i hopen
    split
    · exact h
    · rename_i s' he
      obtain ⟨-, -, rfl⟩ := enqueue_eq_some.mp he
      refine ⟨fun _ => ?_, fun hshutdown => absurd hshutdown hopen⟩
      exact exists_awake_signal pick hs.threads fun hr => hopen (hs.returned hr)

theorem Attended.step {s' : System F A} {e : Event F A} (hs : Staffed s) (h : Attended s)
    (he : step s e = some s') : Attended s' := by
  have hs' := Prog.inv_of_moves (I := Staffed) (fun _ _ => Staffed.move) (step_moves False.elim he) hs
  cases step_section he with
  | new task pick => exact h.scheduleNew hs task pick
  | call running => exact attended_of_running (getElem?_called (running?_eq_some running))
  | yield running _ pick =>
    exact attended_of_running (getElem?_scheduleYield (getElem?_called (running?_eq_some running)) _ pick)
  | stop =>
    exact ⟨fun ht => (broadcast_wakes s.workers).exists_awake (h.eligible ht),
      fun _ _ _ => waiting_not_mem_broadcast s.workers⟩
  | loop at_ => exact attended_workerLoop at_ hs'.counts
  | taskReturns running pick =>
    have hready : Moves False s _ ∧ _ := taskReturned_moves (running?_eq_some running) pick
    exact attended_workerLoop hready.2 hs'.counts
  | wakeUp at_ =>
    have hwakes := set_wakes at_
    refine ⟨fun ht => hwakes.exists_awake (h.eligible ht), fun hshutdown hempty hidle => ?_⟩
    -- the worker waited in a pool with nothing to do, which it did not
    refine absurd (List.mem_of_getElem? at_) (h.stopped hshutdown hempty fun w hw t c hrun => ?_)
    obtain ⟨j, hj⟩ := List.getElem?_of_mem hw
    rw [hrun] at hj
    exact hidle _ (List.mem_of_getElem? (hwakes.getElem? hj (by simp))) t c rfl

/-! ## Runs -/

/-- In every state of every run: if a buffer is eligible, a worker runs a task
or is ready to look at the buffers; and if the pool is shut down and no task is
queued or runs, no worker waits. -/
theorem no_lost_wakeup {pattern : Pattern} {idealCount reservedThreads maxBlockingThreads : Nat}
    {memory : Priority → Nat → Context F A} {s₀ s : System F A} {es : List (Event F A)}
    (hinit : tcThreadPoolInit pattern idealCount reservedThreads maxBlockingThreads memory = some s₀)
    (h : run step s₀ es = some s) :
    ((∃ p, bufferEligible s.pool p = true) →
        ∃ w ∈ s.workers, w = .ready ∨ ∃ t c, w = .running t c) ∧
      (s.pool.shutdown = true → (∀ p, (s.pool.taskPrioBuffer p).contents = []) →
        (∀ w ∈ s.workers, ∀ t c, w ≠ .running t c) → .waiting ∉ s.workers) := by
  rw [tcThreadPoolInit] at hinit
  split at hinit
  · cases hinit
  rename_i hr
  obtain rfl := Option.some.inj hinit
  have hn : 0 < min (idealCount - reservedThreads) maxThreads := by
    simp only [maxThreads]
    omega
  have hstaffed := staffed_newPool pattern hn maxBlockingThreads memory
  have hstep (s : System F A) (e : Event F A) (s' : System F A) (hs : Staffed s ∧ Attended s)
      (he : step s e = some s') : Staffed s' ∧ Attended s' :=
    ⟨Prog.inv_of_moves (I := Staffed) (fun _ _ => Staffed.move) (step_moves False.elim he) hs.1,
      hs.2.step hs.1 he⟩
  have hready : Attended (newPool pattern (min (idealCount - reservedThreads) maxThreads)
      maxBlockingThreads memory) := by
    obtain ⟨w, hw⟩ := List.exists_mem_of_length_pos hstaffed.threads
    refine ⟨fun _ => ⟨w, hw, ?_⟩, fun hshutdown => by cases hshutdown⟩
    rw [List.eq_of_mem_replicate hw]
    trivial
  obtain ⟨-, hattended⟩ := run_inv hstep ⟨hstaffed, hready⟩ h
  constructor
  · intro hp
    obtain ⟨w, hw, ha⟩ := hattended.eligible ((threadPoolHasTasks_iff _).mpr hp)
    exact ⟨w, hw, (awake_iff w).mp ha⟩
  · exact fun hshutdown hempty => hattended.stopped hshutdown fun p => (Ring.contents_eq_nil _).mp (hempty p)

/-- Two workers wait, and a task is scheduled. -/
theorem no_lost_wakeup_two : ∃ s₀ s : System Nat Nat,
    tcThreadPoolInit serverPattern 3 1 1 (fun _ _ => .invalid) = some s₀ ∧
    run step s₀ [.loop 0, .loop 1, .scheduleNew ⟨.blocking, some 0, none, 1⟩ 1] = some s ∧
    bufferEligible s.pool .blocking = true ∧ s.workers[0]? = some .waiting ∧
    ∃ w ∈ s.workers, w = .ready ∨ ∃ t c, w = .running t c := by
  obtain ⟨s₀, hinit⟩ : ∃ s₀ : System Nat Nat,
    tcThreadPoolInit serverPattern 3 1 1 (fun _ _ => .invalid) = some s₀ := ⟨_, rfl⟩
  obtain ⟨s, hs⟩ : ∃ s : System Nat Nat,
      run step s₀ [.loop 0, .loop 1, .scheduleNew ⟨.blocking, some 0, none, 1⟩ 1] = some s := by
    obtain rfl := Option.some.inj hinit
    exact ⟨_, rfl⟩
  have h := no_lost_wakeup hinit hs
  obtain rfl := Option.some.inj hinit
  obtain rfl := Option.some.inj hs
  exact ⟨_, _, rfl, rfl, rfl, rfl, h.1 ⟨.blocking, rfl⟩⟩

end TC.Proof.ThreadPool
