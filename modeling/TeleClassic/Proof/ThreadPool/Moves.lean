import TeleClassic.Framework.Prog
import TeleClassic.Framework.Tally
import TeleClassic.Proof.ThreadPool.Ops
import Mathlib.Logic.Relation

/-!
# What a step of the thread pool can do

Every step of the pool is a sequence of a few moves (`step_moves`): a task is
accepted, a ready worker takes the oldest task of an eligible buffer, a
running task yields or returns, workers are woken, park or return. A property
that each move keeps is kept by every step, so the invariants of the pool are
proved of moves, and the code's branches are split here only: `step_cases` says
what each event does.

`Move strict` is the system in which, if `strict`, a task yields at most once
and with its own priority.
-/

namespace TC.Proof.ThreadPool

open TC.Impl.ThreadPool

variable {F A : Type} {s s' : System F A} {t task : Context F A} {c i : Nat} {strict : Prop} {e : Event F A}
  {ws : List (Worker F A)}

/-- A task added to the buffer of its priority. -/
def accept (s : System F A) (task : Context F A) : System F A :=
  { s with
    pool := s.pool.setBuffer task.priority ((s.pool.taskPrioBuffer task.priority).push task)
    accepted := s.accepted ++ [task] }

/-- The worker `i` running the oldest task of the buffer `p`. -/
def take (s : System F A) (i : Nat) (p : Priority) (index : Nat) : System F A :=
  { s with
    pool := { tookFrom s.pool p with
      roundRobinIndex := index
      activeThreads := s.pool.activeThreads + 1
      blockingActive :=
        if (oldest s.pool p).priority = .blocking then s.pool.blockingActive + 1
        else s.pool.blockingActive }
    workers := s.workers.set i (.running (oldest s.pool p) 0) }

/-- The worker `i` done with the task `t`. -/
def finish (s : System F A) (i : Nat) (t : Context F A) : System F A :=
  { s with
    pool := { s.pool with
      activeThreads := s.pool.activeThreads - 1
      blockingActive :=
        if t.priority = .blocking then psizePred s.pool.blockingActive else s.pool.blockingActive }
    workers := s.workers.set i .ready
    executed := s.executed ++ [t] }

/-- The slots reserved in the buffer `p` for continuations. -/
def reserved (pool : Pool F A) (p : Priority) : Nat :=
  if p = .blocking then pool.maxBlockingThreads else pool.numThreads

/-- Some waiting workers of `ws` are ready in `ws'`; the others are as they were. -/
def Wakes (ws ws' : List (Worker F A)) : Prop :=
  List.Forall₂ (fun w w' => w' = w ∨ w = .waiting ∧ w' = .ready) ws ws'

/-- The buffer of the priority `p` has a slot to give. -/
def HasRoom (pool : Pool F A) (p : Priority) : Prop :=
  (pool.taskPrioBuffer p).used + 1 < (pool.taskPrioBuffer p).cap

inductive Move (strict : Prop) : System F A → System F A → Prop where
  | accept {s : System F A} (task : Context F A) (open_ : s.pool.shutdown = false)
      (room : reserved s.pool task.priority + (s.pool.taskPrioBuffer task.priority).used + 1 <
        (s.pool.taskPrioBuffer task.priority).cap) : Move strict s (accept s task)
  | yield {s : System F A} {i c : Nat} {t : Context F A} (task : Context F A)
      (at_ : s.workers[i]? = some (.running t c)) (own : strict → c = 0 ∧ task.priority = t.priority)
      (room : HasRoom s.pool task.priority) : Move strict s (accept (s.called i t c) task)
  | call {s : System F A} {i c : Nat} {t : Context F A} (at_ : s.workers[i]? = some (.running t c)) :
      Move strict s (s.called i t c)
  | fail {s : System F A} {i c : Nat} {t : Context F A} (task : Context F A)
      (at_ : s.workers[i]? = some (.running t c)) (own : strict → c = 0 ∧ task.priority = t.priority)
      (full : ¬ HasRoom s.pool task.priority) :
      Move strict s { s.called i t c with assertFailed := true }
  | stop {s : System F A} : Move strict s { s with pool := { s.pool with shutdown := true } }
  | wake {s : System F A} {ws : List (Worker F A)} (wakes : Wakes s.workers ws) :
      Move strict s { s with workers := ws }
  | take {s : System F A} {i : Nat} {p : Priority} (index : Nat) (at_ : s.workers[i]? = some .ready)
      (eligible : bufferEligible s.pool p = true) : Move strict s (take s i p index)
  | finish {s : System F A} {i c : Nat} {t : Context F A}
      (at_ : s.workers[i]? = some (.running t c)) : Move strict s (finish s i t)
  | park {s : System F A} {i : Nat} (at_ : s.workers[i]? = some .ready) :
      Move strict s { s with workers := s.workers.set i .waiting }
  | exit {s : System F A} {i : Nat} (at_ : s.workers[i]? = some .ready)
      (shutdown : s.pool.shutdown = true) (idle : s.pool.activeThreads = 0)
      (none_ : threadPoolHasTasks s.pool = false) :
      Move strict s { s with workers := s.workers.set i .returned }

abbrev Moves (strict : Prop) : System F A → System F A → Prop := Relation.ReflTransGen (Move strict)

/-! ## Waking -/

theorem Wakes.refl (ws : List (Worker F A)) : Wakes ws ws := by
  induction ws with
  | nil => exact .nil
  | cons w ws ih => exact .cons (.inl rfl) ih

theorem wakeFirst_wakes (ws : List (Worker F A)) : Wakes ws (wakeFirst ws) := by
  induction ws with
  | nil => exact .nil
  | cons w ws ih =>
    cases w with
    | waiting => exact .cons (.inr ⟨rfl, rfl⟩) (Wakes.refl ws)
    | ready | running | returned => exact .cons (.inl rfl) ih

theorem set_wakes (h : ws[i]? = some .waiting) : Wakes ws (ws.set i .ready) := by
  induction ws generalizing i with
  | nil => simp at h
  | cons w ws ih =>
    cases i with
    | zero =>
      simp only [List.getElem?_cons_zero, Option.some.injEq] at h
      exact .cons (.inr ⟨h, rfl⟩) (Wakes.refl ws)
    | succ i =>
      simp only [List.getElem?_cons_succ] at h
      exact .cons (.inl rfl) (ih h)

theorem signal_wakes (pick : Nat) (ws : List (Worker F A)) : Wakes ws (signal pick ws) := by
  rw [signal]
  split
  · rename_i h; exact set_wakes h
  · exact wakeFirst_wakes ws

theorem broadcast_wakes (ws : List (Worker F A)) : Wakes ws (broadcast ws) := by
  rw [broadcast]
  induction ws with
  | nil => exact .nil
  | cons w ws ih =>
    refine .cons ?_ ih
    cases w with
    | waiting => exact .inr ⟨rfl, rfl⟩
    | ready | running | returned => exact .inl rfl

theorem Wakes.ite {ws' : List (Worker F A)} (h : Wakes ws ws') (c : Prop) [Decidable c] :
    Wakes ws (if c then ws' else ws) := by
  split
  · exact h
  · exact Wakes.refl ws

/-- A worker that does not wait is not woken. -/
theorem Wakes.getElem? {ws' : List (Worker F A)} (h : Wakes ws ws') {w : Worker F A} (hi : ws[i]? = some w)
    (hw : w ≠ .waiting) : ws'[i]? = some w := by
  induction h generalizing i with
  | nil => simp at hi
  | cons hab _ ih =>
    cases i with
    | zero =>
      simp only [List.getElem?_cons_zero, Option.some.injEq] at hi ⊢
      subst hi
      rcases hab with rfl | ⟨hab, -⟩
      · rfl
      · exact absurd hab hw
    | succ i =>
      simp only [List.getElem?_cons_succ] at hi ⊢
      exact ih hi

/-! ## Steps are sequences of moves -/

theorem enqueue_eq_none : s.enqueue task true = none ↔ ¬ HasRoom s.pool task.priority := by
  rw [System.enqueue, Option.map_eq_none_iff, Option.eq_none_iff_forall_ne_some]
  simp only [ne_eq, taskBufferEnqueue_eq_some, reduceCtorEq, false_implies, true_and, not_and]
  exact ⟨fun h hr => h _ hr rfl, fun h _ hr => absurd hr h⟩

theorem enqueue_eq_some {isYield : Bool} :
    s.enqueue task isYield = some s' ↔
      (isYield = false → reserved s.pool task.priority + (s.pool.taskPrioBuffer task.priority).used + 1 <
        (s.pool.taskPrioBuffer task.priority).cap) ∧
      HasRoom s.pool task.priority ∧ s' = accept s task := by
  simp only [System.enqueue, Option.map_eq_some_iff, taskBufferEnqueue_eq_some, decide_eq_true_eq]
  constructor
  · rintro ⟨b, ⟨hr, hc, rfl⟩, rfl⟩
    exact ⟨hr, hc, rfl⟩
  · rintro ⟨hr, hc, rfl⟩
    exact ⟨_, ⟨hr, hc, rfl⟩, rfl⟩

theorem running?_eq_some (h : s.running? i = some (t, c)) : s.workers[i]? = some (.running t c) := by
  rw [System.running?] at h
  split at h
  · rename_i task calls hw
    split at h
    · cases h; exact hw
    · cases h
  · cases h

theorem getElem?_called (at_ : s.workers[i]? = some (.running t c)) :
    (s.called i t c).workers[i]? = some (.running t (c + 1)) :=
  List.getElem?_set_self (List.getElem?_eq_some_iff.mp at_).1

theorem tcThreadScheduleNew_moves (s : System F A) (task : Context F A) (pick : Nat) :
    Moves strict s (tcThreadScheduleNew s task pick).2 := by
  rw [tcThreadScheduleNew]
  split
  · exact .refl
  · rename_i hs
    split
    · exact .refl
    · rename_i s' h
      obtain ⟨hr, -, rfl⟩ := enqueue_eq_some.mp h
      exact (Relation.ReflTransGen.single (.accept task (Bool.not_eq_true _ |>.mp hs) (hr rfl))).tail
        (.wake (signal_wakes pick _))

/-- A call of a running task with a continuation: it is enqueued, or the
assertion fails. -/
theorem scheduleYield_moves (at_ : s.workers[i]? = some (.running t c)) (pick : Nat)
    (own : strict → c = 0 ∧ task.priority = t.priority) :
    Moves strict s (scheduleYield (s.called i t c) task pick) := by
  rw [scheduleYield]
  split
  · rename_i h
    exact .single (.fail task at_ own ((enqueue_eq_none (s := s.called i t c)).mp h))
  · rename_i s' h
    obtain ⟨-, hr, rfl⟩ := enqueue_eq_some.mp h
    exact (Relation.ReflTransGen.single (.yield task at_ own hr)).tail (.wake (signal_wakes pick _))

theorem workerLoop_moves (at_ : s.workers[i]? = some .ready) : Moves strict s (workerLoop s i) := by
  rw [workerLoop]
  split
  · rename_i ht
    obtain ⟨p, index, he, hd⟩ := taskPoolDequeue_eq ht
    simp only [hd]
    exact .single (.take index at_ he)
  · rename_i ht
    have hn := Bool.not_eq_true _ |>.mp ht
    split
    · rename_i hs
      have hw := broadcast_wakes s.workers
      exact (Relation.ReflTransGen.single (Move.wake hw)).tail
        (.exit (hw.getElem? at_ (by simp)) hs.1 hs.2 hn)
    · exact .single (.park at_)

/-- A worker whose task has returned is done with it, and wakes others twice
at most. -/
theorem taskReturned_eq (s : System F A) (i : Nat) (t : Context F A) (pick : Nat) :
    ∃ ws ws', Wakes (finish s i t).workers ws ∧ Wakes ws ws' ∧
      taskReturned s i t pick = { finish s i t with workers := ws' } := by
  refine ⟨_, _, (signal_wakes pick _).ite (t.priority = .blocking), (broadcast_wakes _).ite
    ((finish s i t).pool.shutdown = true ∧ (finish s i t).pool.activeThreads = 0 ∧
      threadPoolHasTasks (finish s i t).pool = false), ?_⟩
  simp only [taskReturned, finish, decide_eq_true_eq]
  rfl

/-- It is then ready. -/
theorem taskReturned_moves (at_ : s.workers[i]? = some (.running t c)) (pick : Nat) :
    Moves strict s (taskReturned s i t pick) ∧ (taskReturned s i t pick).workers[i]? = some .ready := by
  have hready : (finish s i t).workers[i]? = some .ready :=
    List.getElem?_set_self (List.getElem?_eq_some_iff.mp at_).1
  obtain ⟨ws, ws', h, h', he⟩ := taskReturned_eq s i t pick
  rw [he]
  refine ⟨?_, h'.getElem? (h.getElem? hready (by simp)) (by simp)⟩
  calc Moves strict s (finish s i t) := .single (.finish at_)
    Moves strict _ { finish s i t with workers := ws } := .single (.wake h)
    Moves strict _ { finish s i t with workers := ws' } :=
      .single (.wake (s := { finish s i t with workers := ws }) h')

/-- What each event does, where it can happen. -/
inductive Stepped (s : System F A) : Event F A → System F A → Prop where
  | new (task : Context F A) (pick : Nat) :
      Stepped s (.scheduleNew task pick) (tcThreadScheduleNew s task pick).2
  | next {i c : Nat} {t : Context F A} (running : s.running? i = some (t, c)) (nextTask shutdownTask : Option F)
      (arg : Option A) (priority : Priority) (gen : Int) (pick : Nat) :
      Stepped s (.scheduleNext i nextTask shutdownTask arg priority gen pick)
        (tcThreadScheduleNext (s.called i t c) nextTask shutdownTask arg priority gen pick)
  | next2 {i c : Nat} {t : Context F A} (running : s.running? i = some (t, c)) (nextTask : Option F)
      (arg : Option A) (priority : Priority) (gen : Int) (pick : Nat) :
      Stepped s (.scheduleNext2 i nextTask arg priority gen pick)
        (tcThreadScheduleNext2 (s.called i t c) nextTask arg priority gen pick).2
  | stop : Stepped s .stop (tcThreadPoolStop s)
  | loop {i : Nat} (at_ : s.workers[i]? = some .ready) : Stepped s (.loop i) (workerLoop s i)
  | taskReturns {i c : Nat} {t : Context F A} (running : s.running? i = some (t, c)) (pick : Nat) :
      Stepped s (.taskReturns i pick) (workerLoop (taskReturned s i t pick) i)
  | wakeUp {i : Nat} (at_ : s.workers[i]? = some .waiting) :
      Stepped s (.wakeUp i) { s with workers := s.workers.set i .ready }

theorem step_cases (h : step s e = some s') : Stepped s e s' := by
  rw [step.eq_def] at h
  split at h
  · cases h
  cases e with
  | scheduleNew task pick =>
    cases h
    exact .new task pick
  | scheduleNext i nextTask shutdownTask arg priority gen pick =>
    obtain ⟨⟨t, c⟩, hr, rfl⟩ := Option.map_eq_some_iff.mp h
    exact .next hr nextTask shutdownTask arg priority gen pick
  | scheduleNext2 i nextTask arg priority gen pick =>
    obtain ⟨⟨t, c⟩, hr, rfl⟩ := Option.map_eq_some_iff.mp h
    exact .next2 hr nextTask arg priority gen pick
  | stop =>
    cases h
    exact .stop
  | loop i =>
    simp only at h
    split at h
    · rename_i at_
      cases h
      exact .loop at_
    · cases h
  | taskReturns i pick =>
    obtain ⟨⟨t, c⟩, hr, rfl⟩ := Option.map_eq_some_iff.mp h
    exact .taskReturns hr pick
  | wakeUp i =>
    simp only at h
    split at h
    · rename_i at_
      cases h
      exact .wakeUp at_
    · cases h

/-- A running task can schedule the next one, and it can return. -/
theorem exists_step (hok : s.assertFailed = false) (hr : s.running? i = some (t, c)) :
    (∀ nextTask shutdownTask arg priority gen pick, ∃ s',
      step s (.scheduleNext i nextTask shutdownTask arg priority gen pick) = some s') ∧
    ∀ pick, ∃ s', step s (.taskReturns i pick) = some s' := by
  simp only [step, hok, Bool.false_eq_true, if_false, hr, Option.map_some]
  exact ⟨fun _ _ _ _ _ _ => ⟨_, rfl⟩, fun _ => ⟨_, rfl⟩⟩

/-- In a call of `tc_thread_schedule_next` or `tc_thread_schedule_next2` the
task passes its own priority, and it has not called either before. -/
def Disciplined (s : System F A) : Event F A → Prop
  | .scheduleNext worker _ _ _ priority _ _ =>
    ∀ t c, s.workers[worker]? = some (.running t c) → c = 0 ∧ priority = t.priority
  | .scheduleNext2 worker _ _ priority _ _ =>
    ∀ t c, s.workers[worker]? = some (.running t c) → c = 0 ∧ priority = t.priority
  | _ => True

theorem step_moves (hd : strict → Disciplined s e) (h : step s e = some s') : Moves strict s s' := by
  cases step_cases h with
  | new task pick => exact tcThreadScheduleNew_moves s task pick
  | @next i c t hr nextTask shutdownTask arg priority gen pick =>
    have at_ := running?_eq_some hr
    simp only [tcThreadScheduleNext]
    generalize (if (s.called i t c).pool.shutdown = true then shutdownTask else nextTask) = func
    split
    · exact .single (.call at_)
    · exact scheduleYield_moves at_ pick fun hs => hd hs t c at_
  | @next2 i c t hr nextTask arg priority gen pick =>
    have at_ := running?_eq_some hr
    simp only [tcThreadScheduleNext2]
    split
    · exact .single (.call at_)
    split
    · exact .single (.call at_)
    · exact scheduleYield_moves at_ pick fun hs => hd hs t c at_
  | stop =>
    exact (Relation.ReflTransGen.single .stop).tail
      (.wake (s := { s with pool := { s.pool with shutdown := true } }) (broadcast_wakes s.workers))
  | loop at_ => exact workerLoop_moves at_
  | taskReturns hr pick =>
    obtain ⟨hm, at_⟩ := taskReturned_moves (running?_eq_some hr) pick
    exact hm.trans (workerLoop_moves at_)
  | wakeUp at_ => exact .single (.wake (set_wakes at_))

/-- The critical sections, each with the functions of the source that it is
made of: a continuation is only enqueued with a function. -/
inductive Section (s : System F A) : Event F A → System F A → Prop where
  | new (task : Context F A) (pick : Nat) :
      Section s (.scheduleNew task pick) (tcThreadScheduleNew s task pick).2
  | call {e : Event F A} {i c : Nat} {t : Context F A} (running : s.running? i = some (t, c)) :
      Section s e (s.called i t c)
  | yield {e : Event F A} {i c : Nat} {t : Context F A} (running : s.running? i = some (t, c))
      {task : Context F A} (func : task.func.isSome = true) (pick : Nat) :
      Section s e (scheduleYield (s.called i t c) task pick)
  | stop : Section s .stop (tcThreadPoolStop s)
  | loop {i : Nat} (at_ : s.workers[i]? = some .ready) : Section s (.loop i) (workerLoop s i)
  | taskReturns {i c : Nat} {t : Context F A} (running : s.running? i = some (t, c)) (pick : Nat) :
      Section s (.taskReturns i pick) (workerLoop (taskReturned s i t pick) i)
  | wakeUp {i : Nat} (at_ : s.workers[i]? = some .waiting) :
      Section s (.wakeUp i) { s with workers := s.workers.set i .ready }

theorem step_section (h : step s e = some s') : Section s e s' := by
  cases step_cases h with
  | new task pick => exact .new task pick
  | @next i c t hr nextTask shutdownTask arg priority gen pick =>
    simp only [tcThreadScheduleNext]
    generalize (if (s.called i t c).pool.shutdown = true then shutdownTask else nextTask) = func
    split
    · exact .call hr
    · rename_i hf
      exact .yield hr (Option.ne_none_iff_isSome.mp fun h => hf (Option.isNone_iff_eq_none.mpr h)) pick
  | @next2 i c t hr nextTask arg priority gen pick =>
    simp only [tcThreadScheduleNext2]
    split
    · exact .call hr
    split
    · exact .call hr
    · rename_i hf
      exact .yield hr (Option.ne_none_iff_isSome.mp fun h => hf (Option.isNone_iff_eq_none.mpr h)) pick
  | stop => exact .stop
  | loop at_ => exact .loop at_
  | taskReturns hr pick => exact .taskReturns hr pick
  | wakeUp at_ => exact .wakeUp at_

/-- What every move keeps, every run keeps. -/
theorem run_inv_of_move {I : System F A → Prop} (hmove : ∀ s s', Move strict s s' → I s → I s')
    {es : List (Event F A)} (hd : Along step (fun s e => strict → Disciplined s e) s es) (hs : I s)
    (h : run step s es = some s') : I s' :=
  run_inv_along (fun _ _ _ hd hi he => Prog.inv_of_moves hmove (step_moves hd he) hi) hd hs h

/-! ## What a step accepts -/

theorem accepted_workerLoop (s : System F A) (i : Nat) : (workerLoop s i).accepted = s.accepted := by
  rw [workerLoop]
  split
  · rfl
  · split <;> rfl

/-- Workers that take tasks, return and wake accept nothing. -/
theorem accepted_step (h : step s e = some s') :
    match e with
    | .loop _ | .taskReturns _ _ | .wakeUp _ | .stop => s'.accepted = s.accepted
    | _ => True := by
  cases step_cases h with
  | new | next | next2 => trivial
  | stop => rfl
  | @loop i _ => exact accepted_workerLoop s i
  | taskReturns => exact accepted_workerLoop ..
  | wakeUp => rfl

theorem executed_workerLoop (s : System F A) (i : Nat) : (workerLoop s i).executed = s.executed := by
  rw [workerLoop]
  split
  · rfl
  · split <;> rfl

/-- Only a task that returns is executed. -/
theorem executed_step (h : step s e = some s') :
    match e with
    | .loop _ | .wakeUp _ | .stop => s'.executed = s.executed
    | .taskReturns i _ => ∃ t c, s.running? i = some (t, c) ∧ s'.executed = s.executed ++ [t]
    | _ => True := by
  cases step_cases h with
  | new | next | next2 => trivial
  | stop => rfl
  | @loop i _ => exact executed_workerLoop s i
  | taskReturns hr => exact ⟨_, _, hr, executed_workerLoop ..⟩
  | wakeUp => rfl

/-- The task of the worker `i`, which goes on, has added some tasks. -/
structure Adds (i : Nat) (s s' : System F A) (tasks : List (Context F A)) : Prop where
  accepted : s'.accepted = s.accepted ++ tasks
  executed : s'.executed = s.executed
  shutdown : s'.pool.shutdown = s.pool.shutdown
  assertFailed : s'.assertFailed = s.assertFailed
  running : ∀ t c, s.running? i = some (t, c) → ∃ c', s'.running? i = some (t, c')

theorem running?_of_getElem? {c' : Nat} (h : s.running? i = some (t, c))
    (hi : s'.workers[i]? = some (.running t c')) : s'.running? i = some (t, c') := by
  have hat := running?_eq_some h
  simp only [System.running?, hat] at h
  simp only [System.running?, hi]
  split at h
  · rename_i hf
    exact if_pos hf
  · cases h

theorem Adds.none (i : Nat) (s : System F A) : Adds i s s [] :=
  ⟨(List.append_nil _).symm, rfl, rfl, rfl, fun _ c h => ⟨c, h⟩⟩

theorem Adds.accept (i : Nat) (s : System F A) (task : Context F A) (pick : Nat) :
    Adds i s ((accept s task).signalled pick) [task] := by
  refine ⟨rfl, rfl, rfl, rfl, fun t c h => ⟨c, running?_of_getElem? h ?_⟩⟩
  exact (signal_wakes pick s.workers).getElem? (running?_eq_some h) (by simp)

theorem Adds.called {tasks : List (Context F A)} (hr : s.running? i = some (t, c))
    (h : Adds i (s.called i t c) s' tasks) : Adds i s s' tasks := by
  have hat := getElem?_called (running?_eq_some hr)
  refine ⟨h.accepted, h.executed, h.shutdown, h.assertFailed, fun t' c' hr' => ?_⟩
  obtain ⟨rfl, rfl⟩ := Prod.mk.inj (Option.some.inj (hr.symm.trans hr'))
  exact h.running t (c + 1) (running?_of_getElem? hr hat)

theorem scheduleNew_adds (i : Nat) (s : System F A) (task : Context F A) (pick : Nat) :
    Adds i s (tcThreadScheduleNew s task pick).2
      (if (tcThreadScheduleNew s task pick).1 = true then [task] else []) := by
  rw [tcThreadScheduleNew]
  split
  · exact Adds.none i s
  · split
    · exact Adds.none i s
    · rename_i s' he
      obtain ⟨-, -, rfl⟩ := enqueue_eq_some.mp he
      exact Adds.accept i s task pick

/-- The pool accepts a new task of that priority. -/
def Accepts (pool : Pool F A) (p : Priority) : Prop :=
  pool.shutdown = false ∧ reserved pool p + (pool.taskPrioBuffer p).used + 1 < (pool.taskPrioBuffer p).cap

instance (pool : Pool F A) (p : Priority) : Decidable (Accepts pool p) :=
  inferInstanceAs (Decidable (_ ∧ _))

theorem scheduleNew_of_accepts (task : Context F A) (h : Accepts s.pool task.priority) (pick : Nat) :
    (tcThreadScheduleNew s task pick).1 = true := by
  have hroom : HasRoom s.pool task.priority := by
    have := h.2
    simp only [HasRoom]
    omega
  have henqueue : s.enqueue task false = some (accept s task) :=
    enqueue_eq_some.mpr ⟨fun _ => h.2, hroom, rfl⟩
  rw [tcThreadScheduleNew, h.1, if_neg Bool.false_ne_true, henqueue]

/-- What a call of `tc_thread_schedule_next` enqueues. -/
def continuation (s : System F A) (nextTask shutdownTask : Option F) (arg : Option A) (priority : Priority)
    (gen : Int) : List (Context F A) :=
  ((if s.pool.shutdown then shutdownTask else nextTask).map fun f => ⟨priority, some f, arg, gen⟩).toList

theorem scheduleNext_adds {nextTask shutdownTask : Option F} {arg : Option A} {priority : Priority}
    {gen : Int} {pick : Nat}
    (h : step s (.scheduleNext i nextTask shutdownTask arg priority gen pick) = some s') :
    (s'.assertFailed = true ∧ s'.accepted = s.accepted) ∨
      Adds i s s' (continuation s nextTask shutdownTask arg priority gen) := by
  cases step_cases h with
  | @next _ c t hr =>
    have hshutdown : (s.called i t c).pool.shutdown = s.pool.shutdown := rfl
    simp only [tcThreadScheduleNext, continuation, hshutdown]
    generalize (if s.pool.shutdown = true then shutdownTask else nextTask) = func
    cases func with
    | none => exact .inr ((Adds.none i _).called hr)
    | some f =>
      simp only [Option.isNone_some, Bool.false_eq_true, if_false, scheduleYield]
      split
      · exact .inl ⟨rfl, rfl⟩
      · rename_i s'' he
        obtain ⟨-, -, rfl⟩ := enqueue_eq_some.mp he
        exact .inr ((Adds.accept i _ _ pick).called hr)

theorem mem_accepted_scheduleNew {pick : Nat} (h : t ∈ (tcThreadScheduleNew s task pick).2.accepted) :
    t ∈ s.accepted ∨ t = task := by
  rw [(scheduleNew_adds 0 s task pick).accepted] at h
  rcases List.mem_append.mp h with h | h
  · exact .inl h
  · split at h
    · exact .inr (List.mem_singleton.mp h)
    · cases h

theorem mem_accepted_scheduleNext {nextTask shutdownTask : Option F} {arg : Option A} {priority : Priority}
    {gen : Int} {pick : Nat}
    (h : step s (.scheduleNext i nextTask shutdownTask arg priority gen pick) = some s')
    (ht : t ∈ s'.accepted) :
    t ∈ s.accepted ∨ ∃ f, (nextTask = some f ∨ shutdownTask = some f) ∧ t = ⟨priority, some f, arg, gen⟩ := by
  rcases scheduleNext_adds h with ⟨-, ha⟩ | ha
  · exact .inl (ha ▸ ht)
  · rw [ha.accepted] at ht
    refine (List.mem_append.mp ht).imp_right fun ht => ?_
    obtain ⟨f, hf, rfl⟩ := Option.map_eq_some_iff.mp (Option.mem_toList.mp ht)
    refine ⟨f, ?_, rfl⟩
    split at hf
    · exact .inr hf
    · exact .inl hf

end TC.Proof.ThreadPool
