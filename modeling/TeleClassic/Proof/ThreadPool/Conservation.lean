import TeleClassic.Proof.ThreadPool.Reserve
import Mathlib.Algebra.Order.Group.Multiset

/-!
# No task is lost or run twice

`Conserved` holds in every state of the pool: an accepted task is in a buffer,
running or executed. `Exited` says that once a worker has returned the pool is
drained: it is shut down, all four buffers are empty and no task runs. The
exit test only looks at the buffers `thread_pool_has_tasks` shows; it also
asks for `active_threads == 0`, and when no task runs the blocking buffer is
not hidden (`empty_of_idle`). So when all workers have returned, every accepted
task was executed once (`no_task_lost`).
-/

namespace TC.Proof.ThreadPool

open TC.Impl.ThreadPool

variable {F A : Type} {s s' : System F A} {ws : List (Worker F A)} {t : Context F A} {c i : Nat}

/-- Tasks, each as often as it occurs. -/
abbrev Tasks (F A : Type) := Multiset (Context F A)

/-- The tasks a worker runs. -/
def taskOf : Worker F A → Tasks F A
  | .running t _ => {t}
  | _ => 0

def runningTasks : List (Worker F A) → Tasks F A := tally taskOf

/-- The tasks in the four buffers. -/
def queuedTasks (pool : Pool F A) : Tasks F A :=
  tally (fun p => ((pool.taskPrioBuffer p).contents : Tasks F A)) Priority.all

/-! ## Conservation -/

/-- The accepted tasks are the queued, the running and the executed ones. -/
def Conserved (s : System F A) : Prop :=
  (s.accepted : Tasks F A) =
    queuedTasks s.pool + runningTasks s.workers + (s.executed : Tasks F A)

theorem mem_runningTasks (h : .running t c ∈ ws) : t ∈ runningTasks ws := by
  induction ws with
  | nil => cases h
  | cons w ws ih =>
    rw [runningTasks, tally_cons, Multiset.mem_add]
    rcases List.mem_cons.mp h with h | h
    · exact .inl (h ▸ Multiset.mem_singleton_self t)
    · exact .inr (ih h)

/-- A task that runs was accepted. -/
theorem Conserved.mem_accepted (h : Conserved s) (hi : s.workers[i]? = some (.running t c)) :
    t ∈ s.accepted := by
  have hmem : t ∈ (s.accepted : Tasks F A) := by
    rw [h, Multiset.mem_add, Multiset.mem_add]
    exact .inl (.inr (mem_runningTasks (List.mem_of_getElem? hi)))
  exact Multiset.mem_coe.mp hmem

theorem queuedTasks_setBuffer (pool : Pool F A) (p : Priority) (b : Ring (Context F A)) :
    queuedTasks (pool.setBuffer p b) + ((pool.taskPrioBuffer p).contents : Tasks F A) =
      queuedTasks pool + (b.contents : Tasks F A) := by
  cases p <;>
  · simp only [queuedTasks, Priority.all, tally_cons, tally_nil, Pool.setBuffer, Function.update_apply,
      reduceCtorEq, if_true, if_false]
    abel

theorem queuedTasks_accept {task : Context F A} (room : HasRoom s.pool task.priority) :
    queuedTasks (accept s task).pool = queuedTasks s.pool + {task} := by
  have h := queuedTasks_setBuffer s.pool task.priority ((s.pool.taskPrioBuffer task.priority).push task)
  rw [Ring.contents_push _ room, ← Multiset.coe_add, ← add_assoc, add_right_comm] at h
  exact add_right_cancel h

theorem queuedTasks_take {p : Priority} (eligible : bufferEligible s.pool p = true) (i index : Nat) :
    queuedTasks s.pool = queuedTasks (take s i p index).pool + {oldest s.pool p} := by
  have h := queuedTasks_setBuffer s.pool p (s.pool.taskPrioBuffer p).pop
  rw [Ring.contents_pop _ ((bufferEligible_iff _ _).mp eligible).1, ← Multiset.cons_coe,
    ← Multiset.singleton_add, ← add_assoc] at h
  exact (add_right_cancel h).symm

theorem Conserved.accept (h : Conserved s) {task : Context F A} (room : HasRoom s.pool task.priority) :
    Conserved (accept s task) := by
  show ((s.accepted ++ [task] : List _) : Tasks F A) =
    queuedTasks (ThreadPool.accept s task).pool + runningTasks s.workers + (s.executed : Tasks F A)
  rw [queuedTasks_accept room, ← Multiset.coe_add, h, Multiset.coe_singleton]
  abel

/-- Another list of workers that run the same tasks. -/
theorem Conserved.workers (h : Conserved s) (hw : runningTasks ws = runningTasks s.workers) :
    Conserved { s with workers := ws } := by
  show (s.accepted : Tasks F A) = queuedTasks s.pool + runningTasks ws + (s.executed : Tasks F A)
  rw [hw]
  exact h

theorem Conserved.called (h : Conserved s) (at_ : s.workers[i]? = some (.running t c)) :
    Conserved (s.called i t c) :=
  h.workers (tally_set_of_eq at_ rfl)

theorem Conserved.move {strict : Prop} (m : Move strict s s') (h : Conserved s) : Conserved s' := by
  cases m with
  | accept task open_ room => exact h.accept (by simp only [HasRoom]; omega)
  | yield task at_ own room =>
    exact (h.called at_).accept room
  | call at_ => exact h.called at_
  | fail task at_ own full => exact h.called at_
  | stop => exact h
  | wake wakes => exact h.workers (wakes.tally_eq rfl)
  | @take i p index at_ eligible =>
    have hw := tally_set taskOf at_ (.running (oldest s.pool p) 0)
    rw [Conserved, queuedTasks_take eligible i index] at h
    show (s.accepted : Tasks F A) = queuedTasks _ + tally taskOf (s.workers.set i _) + (s.executed : Tasks F A)
    simp only [taskOf, add_zero] at hw
    rw [h, hw, runningTasks]
    abel
  | @finish i c t at_ =>
    have hw := tally_set taskOf at_ .ready
    show (s.accepted : Tasks F A) =
      queuedTasks s.pool + tally taskOf (s.workers.set i .ready) + ((s.executed ++ [t] : List _) : Tasks F A)
    simp only [taskOf, add_zero] at hw
    rw [h, runningTasks, ← hw, ← Multiset.coe_add, Multiset.coe_singleton]
    abel
  | park at_ => exact h.workers (tally_set_of_eq at_ rfl)
  | exit at_ => exact h.workers (tally_set_of_eq at_ rfl)

/-! ## Pending tasks -/

/-- The tasks that are queued or run. -/
def pending (s : System F A) : Tasks F A := queuedTasks s.pool + runningTasks s.workers

/-- What is accepted becomes pending, and what is executed no longer is. -/
theorem pending_add (h : Conserved s) (h' : Conserved s') {tasks done : List (Context F A)}
    (ha : s'.accepted = s.accepted ++ tasks) (he : s'.executed = s.executed ++ done) :
    pending s' + (done : Tasks F A) = pending s + (tasks : Tasks F A) := by
  have hsum : (s.accepted : Tasks F A) = pending s + (s.executed : Tasks F A) := h
  have hsum' : (s'.accepted : Tasks F A) = pending s' + (s'.executed : Tasks F A) := h'
  rw [ha, he, ← Multiset.coe_add, ← Multiset.coe_add, hsum] at hsum'
  refine add_right_cancel (b := (s.executed : Tasks F A)) ?_
  calc pending s' + (done : Tasks F A) + (s.executed : Tasks F A)
    _ = pending s' + ((s.executed : Tasks F A) + (done : Tasks F A)) := by rw [add_assoc, add_comm (s.executed : Tasks F A)]
    _ = pending s + (s.executed : Tasks F A) + (tasks : Tasks F A) := hsum'.symm
    _ = pending s + (tasks : Tasks F A) + (s.executed : Tasks F A) := add_right_comm ..

theorem mem_pending_of_running (h : s.running? i = some (t, c)) : t ∈ pending s :=
  Multiset.mem_add.mpr (.inr (mem_runningTasks (List.mem_of_getElem? (running?_eq_some h))))

/-! ## Workers that have returned -/

/-- Nothing is queued, nothing runs, and nothing will be accepted. -/
structure Drained (s : System F A) : Prop where
  shutdown : s.pool.shutdown = true
  empty : ∀ p, (s.pool.taskPrioBuffer p).used = 0
  idle : ∀ w ∈ s.workers, ∀ t c, w ≠ .running t c

/-- If a worker has returned, the pool is drained. -/
structure Exited (s : System F A) : Prop where
  counts : Counts s
  maxBlocking : 0 < s.pool.maxBlockingThreads
  drained : .returned ∈ s.workers → Drained s

theorem idle_of_active (h : Counts s) (h0 : s.pool.activeThreads = 0) :
    ∀ w ∈ s.workers, ∀ t c, w ≠ .running t c := by
  rintro w hw t c rfl
  have hle := le_tally (runs fun _ _ => True) hw
  have hactive := h.active
  simp only [runs, if_true] at hle
  rw [numRunning] at hactive
  omega

/-- When no task runs, no blocking task is hidden: what `thread_pool_has_tasks`
does not see is not there. -/
theorem empty_of_idle (h : Counts s) (hm : 0 < s.pool.maxBlockingThreads) (h0 : s.pool.activeThreads = 0)
    (hn : threadPoolHasTasks s.pool = false) (p : Priority) : (s.pool.taskPrioBuffer p).used = 0 := by
  have hb : s.pool.blockingActive = 0 := by
    rw [h.blocking]
    refine tally_eq_zero fun w hw => ?_
    cases w with
    | running t c => exact absurd rfl (idle_of_active h h0 _ hw t c)
    | _ => rfl
  by_contra hu
  have he : bufferEligible s.pool p = true := (bufferEligible_iff _ _).mpr ⟨hu, fun _ => by omega⟩
  rw [(threadPoolHasTasks_iff _).mpr ⟨p, he⟩] at hn
  cases hn

theorem Exited.not_running (h : Exited s) (at_ : s.workers[i]? = some (.running t c)) :
    .returned ∉ s.workers := fun hw =>
  (h.drained hw).idle _ (List.mem_of_getElem? at_) t c rfl

/-- Only a worker that is made to return has returned. -/
theorem returned_mem_set {w : Worker F A} (hw : w ≠ .returned) (h : .returned ∈ ws.set i w) :
    .returned ∈ ws :=
  (List.mem_or_eq_of_mem_set h).resolve_right (Ne.symm hw)

theorem Wakes.returned_mem {ws' : List (Worker F A)} (h : Wakes ws ws') (hr : .returned ∈ ws') :
    .returned ∈ ws := by
  induction h with
  | nil => exact hr
  | cons hab _ ih =>
    rcases List.mem_cons.mp hr with rfl | hr
    · rcases hab with rfl | ⟨-, hab⟩
      · exact List.mem_cons_self
      · cases hab
    · exact List.mem_cons_of_mem _ (ih hr)

/-- A drained pool stays drained when its workers wake, park or return. -/
theorem Drained.workers (h : Drained s) (hc : Counts { s with workers := ws }) (hr : numRunning ws = 0) :
    Drained { s with workers := ws } :=
  ⟨h.shutdown, h.empty, idle_of_active hc (hc.active.trans (congrArg Int.ofNat hr))⟩

theorem Drained.numRunning (h : Drained s) : numRunning s.workers = 0 := by
  refine tally_eq_zero fun w hw => ?_
  cases w with
  | running t c => exact absurd rfl (h.idle _ hw t c)
  | _ => rfl

theorem Exited.move {strict : Prop} (m : Move strict s s') (h : Exited s) : Exited s' := by
  have hc := h.counts.move m
  cases m with
  | accept task open_ room =>
    refine ⟨hc, h.maxBlocking, fun hr => ?_⟩
    have hs := (h.drained hr).shutdown
    rw [open_] at hs
    cases hs
  | yield task at_ own room =>
    exact ⟨hc, h.maxBlocking, fun hr => absurd (returned_mem_set (by simp) hr) (h.not_running at_)⟩
  | call at_ =>
    exact ⟨hc, h.maxBlocking, fun hr => absurd (returned_mem_set (by simp) hr) (h.not_running at_)⟩
  | fail task at_ own full =>
    exact ⟨hc, h.maxBlocking, fun hr => absurd (returned_mem_set (by simp) hr) (h.not_running at_)⟩
  | stop => exact ⟨hc, h.maxBlocking, fun hr => ⟨rfl, (h.drained hr).empty, (h.drained hr).idle⟩⟩
  | wake wakes =>
    refine ⟨hc, h.maxBlocking, fun hr => ?_⟩
    have hd := h.drained (wakes.returned_mem hr)
    exact hd.workers hc ((wakes.tally_eq rfl).trans hd.numRunning)
  | take index at_ eligible =>
    refine ⟨hc, h.maxBlocking, fun hr => ?_⟩
    have hd := h.drained (returned_mem_set (by simp) hr)
    exact absurd (hd.empty _) ((bufferEligible_iff _ _).mp eligible).1
  | finish at_ =>
    exact ⟨hc, h.maxBlocking, fun hr => absurd (returned_mem_set (by simp) hr) (h.not_running at_)⟩
  | @park i at_ =>
    refine ⟨hc, h.maxBlocking, fun hr => ?_⟩
    have hd := h.drained (returned_mem_set (by simp) hr)
    have hi : ThreadPool.numRunning (s.workers.set i .waiting) = _ := tally_set_of_eq at_ rfl
    exact hd.workers hc (hi.trans hd.numRunning)
  | @exit i at_ shutdown idle none_ =>
    refine ⟨hc, h.maxBlocking, fun _ => ?_⟩
    have hd : Drained s := ⟨shutdown, empty_of_idle h.counts h.maxBlocking idle none_,
      idle_of_active h.counts idle⟩
    have hi : ThreadPool.numRunning (s.workers.set i .returned) = _ := tally_set_of_eq at_ rfl
    exact hd.workers hc (hi.trans hd.numRunning)

/-! ## Runs -/

/-- Workers are neither added nor removed. -/
theorem length_workers_move {strict : Prop} (m : Move strict s s') :
    s'.workers.length = s.workers.length := by
  cases m with
  | accept => rfl
  | stop => rfl
  | wake wakes => exact wakes.length_eq.symm
  | _ => exact List.length_set

theorem Drained.queuedTasks (h : Drained s) : queuedTasks s.pool = 0 :=
  tally_eq_zero fun p _ => congrArg _ ((Ring.contents_eq_nil _).mpr (h.empty p))

theorem Drained.runningTasks (h : Drained s) : runningTasks s.workers = 0 := by
  refine tally_eq_zero fun w hw => ?_
  cases w with
  | running t c => exact absurd rfl (h.idle _ hw t c)
  | _ => rfl

theorem conserved_newPool (pattern : Pattern) (numThreads maxBlockingThreads : Nat)
    (memory : Priority → Nat → Context F A) :
    Conserved (newPool pattern numThreads maxBlockingThreads memory) := by
  have hq : queuedTasks (newPool pattern numThreads maxBlockingThreads memory).pool = 0 :=
    tally_eq_zero fun p _ => congrArg _ (contents_newPool ..)
  have hr : runningTasks (newPool pattern numThreads maxBlockingThreads memory).workers = 0 :=
    tally_newPool rfl numThreads
  rw [Conserved, hq, hr]
  rfl

theorem exited_newPool (pattern : Pattern) (numThreads : Nat) {maxBlockingThreads : Nat}
    (hm : 0 < maxBlockingThreads) (memory : Priority → Nat → Context F A) :
    Exited (newPool pattern numThreads maxBlockingThreads memory) :=
  ⟨counts_newPool .., hm, fun hr => nomatch List.eq_of_mem_replicate hr⟩

/-- In every state of every run, the accepted tasks are the queued, the
running and the executed ones, a worker has returned only if the pool is
drained, and when all of them have every accepted task was executed once. -/
theorem no_task_lost {pattern : Pattern} {numThreads maxBlockingThreads : Nat}
    {memory : Priority → Nat → Context F A} (hn : 0 < numThreads) (hm : 0 < maxBlockingThreads)
    {es : List (Event F A)} {s : System F A}
    (h : run step (newPool pattern numThreads maxBlockingThreads memory) es = some s) :
    (s.accepted : Tasks F A) =
        queuedTasks s.pool + runningTasks s.workers + (s.executed : Tasks F A) ∧
      (.returned ∈ s.workers →
        s.pool.shutdown = true ∧ (∀ p, (s.pool.taskPrioBuffer p).contents = []) ∧
          ∀ w ∈ s.workers, ∀ t c, w ≠ .running t c) ∧
      ((∀ w ∈ s.workers, w = .returned) → (s.executed : Tasks F A) = (s.accepted : Tasks F A)) := by
  have ht : Along step (fun s e => False → Disciplined s e)
      (newPool pattern numThreads maxBlockingThreads memory) es :=
    along_true.imp fun _ _ _ hf => hf.elim
  have hc := run_inv_of_move (fun _ _ => Conserved.move) ht (conserved_newPool ..) h
  have he := run_inv_of_move (fun _ _ => Exited.move) ht (exited_newPool pattern numThreads hm memory) h
  have hl := run_inv_of_move (I := fun s => s.workers.length = numThreads)
    (fun _ _ m hl => (length_workers_move m).trans hl) ht List.length_replicate h
  refine ⟨hc, fun hr => ?_, fun hall => ?_⟩
  · have hd := he.drained hr
    exact ⟨hd.shutdown, fun p => (Ring.contents_eq_nil _).mpr (hd.empty p), hd.idle⟩
  · obtain ⟨w, hw⟩ := List.exists_mem_of_length_pos (hl.symm ▸ hn)
    have hd := he.drained (hall w hw ▸ hw)
    rw [hc, hd.queuedTasks, hd.runningTasks, zero_add, zero_add]

/-- The pool is stopped while two workers run; one of their tasks goes on with its shutdown
task, which is run before the workers return. -/
def stopping : List (Event Nat Nat) :=
  [.scheduleNew ⟨.blocking, some 0, none, 1⟩ 0, .scheduleNew ⟨.low, some 1, none, 1⟩ 0, .loop 0, .loop 1, .stop,
    .scheduleNext 0 (some 2) (some 3) none .low 1 0, .scheduleNext2 1 (some 4) none .low 1 0, .taskReturns 0 0,
    .taskReturns 0 0, .taskReturns 1 0, .loop 0]

theorem no_task_lost_stopping : ∃ s : System Nat Nat,
    run step (newPool serverPattern 2 1 fun _ _ => .invalid) stopping = some s ∧
    s.workers = [.returned, .returned] ∧ s.pool.shutdown = true ∧
    s.accepted = [⟨.blocking, some 0, none, 1⟩, ⟨.low, some 1, none, 1⟩, ⟨.low, some 3, none, 1⟩] ∧
    (s.executed : Tasks Nat Nat) = (s.accepted : Tasks Nat Nat) := by
  obtain ⟨s, hs⟩ : ∃ s : System Nat Nat, run step (newPool serverPattern 2 1 fun _ _ => .invalid) stopping = some s :=
    ⟨_, rfl⟩
  have h := no_task_lost Nat.two_pos Nat.one_pos hs
  obtain rfl := Option.some.inj hs
  refine ⟨_, rfl, rfl, (h.2.1 List.mem_cons_self).1, rfl, h.2.2 fun w hw => ?_⟩
  rcases List.mem_cons.mp hw with rfl | hw
  · rfl
  · exact List.mem_singleton.mp hw

end TC.Proof.ThreadPool
