import TeleClassic.Proof.ThreadPool.Moves

/-!
# The reserve of the thread pool

`Counts` ties the counters of the pool to what its workers run. With it,
`Reserve` is an invariant of every run in which a task yields at most once and
with its own priority: each buffer keeps a slot for every running task that
may still yield to it, so a yield never fails (`yield_never_fails`). What
carries it is that `task_buffer_enqueue` reserves as many slots as workers can
run tasks of the buffer's priority: all of them, or, in the blocking buffer, as
many as the cap on blocking tasks allows.
-/

namespace TC.Proof.ThreadPool

open TC.Impl.ThreadPool

variable {F A : Type} {s : System F A} {t task : Context F A} {p : Priority} {i : Nat}
  {ws : List (Worker F A)}

/-- 1 for a worker that runs a task of which `P` holds, 0 for any other. -/
def runs (P : Context F A → Nat → Prop) [∀ t c, Decidable (P t c)] : Worker F A → Nat
  | .running t c => if P t c then 1 else 0
  | _ => 0

/-- The number of running tasks. -/
def numRunning : List (Worker F A) → Nat := tally (runs fun _ _ => True)

/-- The number of running tasks of a priority. -/
def numRunningAt (p : Priority) : List (Worker F A) → Nat := tally (runs fun t _ => t.priority = p)

/-- The number of running tasks that may still yield to the buffer `p`. -/
def numOwed (p : Priority) : List (Worker F A) → Nat :=
  tally (runs fun t c => t.priority = p ∧ c = 0)

theorem runs_le_one (P : Context F A → Nat → Prop) [∀ t c, Decidable (P t c)] (w : Worker F A) :
    runs P w ≤ 1 := by
  cases w with
  | running t c => simp only [runs]; split <;> omega
  | _ => exact Nat.zero_le 1

theorem Wakes.tally_eq {M : Type} [AddCommMonoid M] {φ : Worker F A → M} {ws' : List (Worker F A)}
    (h : Wakes ws ws') (hφ : φ .waiting = φ .ready) : tally φ ws' = tally φ ws := by
  refine (tally_eq_of_forall₂ (h.imp fun w w' hw => ?_)).symm
  rcases hw with rfl | ⟨rfl, rfl⟩
  · rfl
  · exact hφ

theorem numOwed_le_numRunningAt (p : Priority) (ws : List (Worker F A)) :
    numOwed p ws ≤ numRunningAt p ws := by
  refine tally_mono (fun w => ?_) ws
  cases w with
  | running t c =>
    simp only [runs]
    split
    · rename_i h; rw [if_pos h.1]
    · exact Nat.zero_le _
  | _ => exact Nat.le_refl 0

theorem numRunningAt_le_length (p : Priority) (ws : List (Worker F A)) :
    numRunningAt p ws ≤ ws.length :=
  tally_le_length _ (runs_le_one _) ws

/-! ## Buffers -/

theorem taskPrioBuffer_accept (s : System F A) (task : Context F A) (p : Priority) :
    (accept s task).pool.taskPrioBuffer p =
      if p = task.priority then (s.pool.taskPrioBuffer p).push task else s.pool.taskPrioBuffer p := by
  simp only [accept, Pool.setBuffer, Function.update_apply]
  split
  · rename_i h; rw [h]
  · rfl

theorem taskPrioBuffer_take (s : System F A) (i : Nat) (p : Priority) (index : Nat) (q : Priority) :
    (take s i p index).pool.taskPrioBuffer q =
      if q = p then (s.pool.taskPrioBuffer q).pop else s.pool.taskPrioBuffer q := by
  simp only [take, tookFrom, Pool.setBuffer, Function.update_apply]
  split
  · rename_i h; rw [h]
  · rfl

theorem contents_accept (room : HasRoom s.pool task.priority) (p : Priority) :
    ((accept s task).pool.taskPrioBuffer p).contents =
      (s.pool.taskPrioBuffer p).contents ++ if p = task.priority then [task] else [] := by
  rw [taskPrioBuffer_accept]
  split
  · rename_i h; subst h; exact Ring.contents_push _ room
  · rw [List.append_nil]

theorem contents_take (eligible : bufferEligible s.pool p = true) (i index : Nat) (q : Priority) :
    (s.pool.taskPrioBuffer q).contents =
      (if q = p then [oldest s.pool p] else []) ++ ((take s i p index).pool.taskPrioBuffer q).contents := by
  rw [taskPrioBuffer_take]
  split
  · rename_i h; subst h; exact Ring.contents_pop _ ((bufferEligible_iff _ _).mp eligible).1
  · rfl

/-! ## The counters -/

/-- The buffer of a priority holds tasks of that priority, and the counters of
the pool are what they count. -/
structure Counts (s : System F A) : Prop where
  priority : ∀ p, ∀ t ∈ (s.pool.taskPrioBuffer p).contents, t.priority = p
  active : s.pool.activeThreads = numRunning s.workers
  blocking : s.pool.blockingActive = numRunningAt .blocking s.workers
  cap : s.pool.blockingActive ≤ s.pool.maxBlockingThreads
  length : s.workers.length = s.pool.numThreads

/-- Another list of workers that run the same tasks. -/
theorem Counts.workers (h : Counts s) (hr : numRunning ws = numRunning s.workers)
    (hb : numRunningAt .blocking ws = numRunningAt .blocking s.workers) (hl : ws.length = s.workers.length) :
    Counts { s with workers := ws } :=
  ⟨h.priority, h.active.trans (congrArg _ hr.symm), h.blocking.trans hb.symm, h.cap, hl.trans h.length⟩

theorem Counts.accept (h : Counts s) (room : HasRoom s.pool task.priority) : Counts (accept s task) := by
  refine ⟨fun p t ht => ?_, h.active, h.blocking, h.cap, h.length⟩
  rw [contents_accept room, List.mem_append] at ht
  rcases ht with ht | ht
  · exact h.priority p t ht
  · split at ht
    · rename_i hp; rw [List.mem_singleton.mp ht, hp]
    · cases ht

theorem Counts.called (h : Counts s) {c : Nat} (at_ : s.workers[i]? = some (.running t c)) :
    Counts (s.called i t c) :=
  h.workers (tally_set_of_eq at_ rfl) (tally_set_of_eq at_ rfl) (List.length_set ..)

theorem oldest_mem {pool : Pool F A} (eligible : bufferEligible pool p = true) :
    oldest pool p ∈ (pool.taskPrioBuffer p).contents := by
  rw [Ring.contents_pop _ ((bufferEligible_iff _ _).mp eligible).1]
  exact List.mem_cons_self

theorem Counts.oldest_priority (h : Counts s) (eligible : bufferEligible s.pool p = true) :
    (oldest s.pool p).priority = p :=
  h.priority p _ (oldest_mem eligible)

theorem Counts.take (h : Counts s) (index : Nat) (at_ : s.workers[i]? = some .ready)
    (eligible : bufferEligible s.pool p = true) : Counts (take s i p index) := by
  have hp := h.oldest_priority eligible
  have hr := tally_set (runs fun _ _ => True) at_ (.running (oldest s.pool p) 0)
  have hb := tally_set (runs fun t _ => t.priority = .blocking) at_ (.running (oldest s.pool p) 0)
  simp only [runs, if_true, hp, Nat.add_zero] at hr hb
  have hactive := h.active
  have hblocking := h.blocking
  have hcap := h.cap
  have hlt := ((bufferEligible_iff _ _).mp eligible).2
  refine ⟨fun q t ht => h.priority q t ?_, ?_, ?_, ?_, ?_⟩
  · rw [contents_take eligible i index]
    exact List.mem_append_right _ ht
  · simp only [ThreadPool.take, numRunning] at hactive ⊢
    omega
  · simp only [ThreadPool.take, numRunningAt, hp, hblocking]
    split at hb
    · rename_i hq; rw [if_pos hq, hb]
    · rename_i hq; rw [if_neg hq, hb]; rfl
  · simp only [ThreadPool.take, tookFrom, Pool.setBuffer, hp]
    split
    · rename_i hq; have := hlt hq; omega
    · exact hcap
  · exact (List.length_set ..).trans h.length

theorem numRunningAt_pos {c : Nat} (at_ : s.workers[i]? = some (.running t c)) :
    0 < numRunningAt t.priority s.workers := by
  have := le_tally (runs fun t' _ => t'.priority = t.priority) (List.mem_of_getElem? at_)
  simp only [runs, if_true] at this
  exact this

theorem Counts.finish (h : Counts s) {c : Nat} (at_ : s.workers[i]? = some (.running t c)) :
    Counts (finish s i t) := by
  have hr := tally_set (runs fun _ _ => True) at_ .ready
  have hb := tally_set (runs fun t _ => t.priority = .blocking) at_ .ready
  simp only [runs, if_true, Nat.add_zero] at hr hb
  have hactive := h.active
  have hblocking := h.blocking
  have hcap := h.cap
  refine ⟨h.priority, ?_, ?_, ?_, ?_⟩
  · simp only [ThreadPool.finish, numRunning] at hactive ⊢
    omega
  · simp only [ThreadPool.finish, numRunningAt] at hblocking ⊢
    split
    · rename_i hq
      rw [if_pos hq] at hb
      rw [psizePred, if_neg (by omega)]
      omega
    · rename_i hq
      rw [if_neg hq] at hb
      omega
  · simp only [ThreadPool.finish]
    split
    · rename_i hq
      have hpos := numRunningAt_pos at_
      rw [hq, ← hblocking] at hpos
      rw [psizePred, if_neg (by omega)]
      omega
    · exact hcap
  · exact (List.length_set ..).trans h.length

theorem Counts.move {strict : Prop} {s' : System F A} (m : Move strict s s') (h : Counts s) :
    Counts s' := by
  cases m with
  | accept task open_ room => exact h.accept (by simp only [HasRoom]; omega)
  | yield task at_ own room => exact (h.called at_).accept room
  | call at_ => exact h.called at_
  | fail task at_ own full => exact ⟨h.priority, (h.called at_).active, (h.called at_).blocking, h.cap,
      (h.called at_).length⟩
  | stop => exact ⟨h.priority, h.active, h.blocking, h.cap, h.length⟩
  | wake wakes => exact h.workers (wakes.tally_eq rfl) (wakes.tally_eq rfl) wakes.length_eq.symm
  | take index at_ eligible => exact h.take index at_ eligible
  | finish at_ => exact h.finish at_
  | park at_ => exact h.workers (tally_set_of_eq at_ rfl) (tally_set_of_eq at_ rfl) (List.length_set ..)
  | exit at_ => exact h.workers (tally_set_of_eq at_ rfl) (tally_set_of_eq at_ rfl) (List.length_set ..)

/-! ## The reserve -/

/-- Each buffer has a free slot for every running task that may still yield to
it, besides the one that is never used. -/
structure Reserve (s : System F A) : Prop where
  counts : Counts s
  room : ∀ p, numOwed p s.workers + (s.pool.taskPrioBuffer p).used + 1 ≤ (s.pool.taskPrioBuffer p).cap
  ok : s.assertFailed = false

/-- What is owed to a buffer is what `task_buffer_enqueue` reserves in it. -/
theorem numOwed_le_reserved (h : Counts s) (p : Priority) : numOwed p s.workers ≤ reserved s.pool p := by
  have hle := numOwed_le_numRunningAt p s.workers
  rw [reserved]
  split
  · rename_i hp
    rw [hp] at hle ⊢
    have := h.blocking
    have := h.cap
    omega
  · have := numRunningAt_le_length p s.workers
    have := h.length
    omega

theorem numOwed_pos (at_ : s.workers[i]? = some (.running t 0)) : 0 < numOwed t.priority s.workers := by
  have := le_tally (runs fun t' c => t'.priority = t.priority ∧ c = 0) (List.mem_of_getElem? at_)
  simp only [runs, and_self, if_true] at this
  exact this

/-- A task that has called owes nothing more. -/
theorem numOwed_called {c : Nat} (p : Priority) (at_ : s.workers[i]? = some (.running t c)) :
    numOwed p (s.called i t c).workers + (if t.priority = p ∧ c = 0 then 1 else 0) =
      numOwed p s.workers := by
  have h := tally_set (runs fun t' c => t'.priority = p ∧ c = 0) at_ (.running t (c + 1))
  simp only [runs, Nat.succ_ne_zero, and_false, if_false, Nat.add_zero] at h
  exact h

theorem Reserve.hasRoom (h : Reserve s) (at_ : s.workers[i]? = some (.running t 0)) :
    HasRoom s.pool t.priority := by
  have := h.room t.priority
  have := numOwed_pos at_
  rw [HasRoom]
  omega

/-- A move that changes workers, and not what they owe to the buffers. -/
theorem Reserve.workers (h : Reserve s) (hc : Counts { s with workers := ws })
    (hw : ∀ p, numOwed p ws ≤ numOwed p s.workers) : Reserve { s with workers := ws } := by
  refine ⟨hc, fun p => ?_, h.ok⟩
  have hroom := h.room p
  have := hw p
  show numOwed p ws + (s.pool.taskPrioBuffer p).used + 1 ≤ (s.pool.taskPrioBuffer p).cap
  omega

theorem used_accept (room : HasRoom s.pool task.priority) (p : Priority) :
    ((accept s task).pool.taskPrioBuffer p).used =
      (s.pool.taskPrioBuffer p).used + if p = task.priority then 1 else 0 := by
  rw [← Ring.length_contents, contents_accept room, List.length_append, Ring.length_contents]
  split <;> rfl

theorem used_take (eligible : bufferEligible s.pool p = true) (i index : Nat) (q : Priority) :
    (s.pool.taskPrioBuffer q).used =
      (if q = p then 1 else 0) + ((take s i p index).pool.taskPrioBuffer q).used := by
  rw [← Ring.length_contents, contents_take eligible i index, List.length_append, Ring.length_contents]
  split <;> rfl

theorem cap_accept (s : System F A) (task : Context F A) (p : Priority) :
    ((accept s task).pool.taskPrioBuffer p).cap = (s.pool.taskPrioBuffer p).cap := by
  rw [taskPrioBuffer_accept]
  split <;> rfl

theorem cap_take (s : System F A) (i : Nat) (p : Priority) (index : Nat) (q : Priority) :
    ((take s i p index).pool.taskPrioBuffer q).cap = (s.pool.taskPrioBuffer q).cap := by
  rw [taskPrioBuffer_take]
  split <;> rfl

theorem Reserve.move {s' : System F A} (m : Move True s s') (h : Reserve s) : Reserve s' := by
  have hc := h.counts.move m
  cases m with
  | accept task open_ room =>
    refine ⟨hc, fun p => ?_, h.ok⟩
    have hle := numOwed_le_reserved h.counts p
    have hroom := h.room p
    rw [used_accept (by simp only [HasRoom]; omega), cap_accept]
    show numOwed p s.workers + _ + 1 ≤ _
    split
    · rename_i hp; subst hp; omega
    · omega
  | @yield i c t task at_ own room =>
    obtain ⟨rfl, hp⟩ := own trivial
    refine ⟨hc, fun p => ?_, h.ok⟩
    have howed := numOwed_called p at_
    have hroom := h.room p
    rw [used_accept (s := s.called i t 0) room, cap_accept, hp]
    show numOwed p (s.called i t 0).workers + ((s.pool.taskPrioBuffer p).used + _) + 1 ≤
      (s.pool.taskPrioBuffer p).cap
    by_cases hq : p = t.priority
    · rw [if_pos hq]
      rw [if_pos ⟨hq.symm, rfl⟩] at howed
      omega
    · rw [if_neg hq]
      omega
  | call at_ =>
    refine h.workers hc fun p => ?_
    have := numOwed_called p at_
    simp only [System.called] at this
    omega
  | fail task at_ own full =>
    obtain ⟨rfl, hp⟩ := own trivial
    exact absurd (hp ▸ h.hasRoom at_) full
  | stop => exact ⟨hc, h.room, h.ok⟩
  | wake wakes => exact h.workers hc fun p => (wakes.tally_eq rfl).le
  | @take i p index at_ eligible =>
    refine ⟨hc, fun q => ?_, h.ok⟩
    have howed := tally_set (runs fun t c => t.priority = q ∧ c = 0) at_ (.running (oldest s.pool p) 0)
    simp only [runs, h.counts.oldest_priority eligible, and_true, Nat.add_zero] at howed
    have hroom := h.room q
    have hused := used_take eligible i index q
    rw [cap_take]
    show tally _ (s.workers.set i _) + _ + 1 ≤ _
    rw [howed]
    rw [hused] at hroom
    simp only [numOwed, eq_comm (a := q)] at hroom ⊢
    omega
  | finish at_ =>
    refine ⟨hc, fun p => ?_, h.ok⟩
    have howed := tally_set (runs fun t c => t.priority = p ∧ c = 0) at_ .ready
    have hroom := h.room p
    simp only [runs, Nat.add_zero] at howed
    simp only [finish, numOwed] at hroom ⊢
    omega
  | park at_ => exact h.workers hc fun p => (tally_set_of_eq (b := .waiting) at_ rfl).le
  | exit at_ => exact h.workers hc fun p => (tally_set_of_eq (b := .returned) at_ rfl).le

theorem used_newPool (pattern : Pattern) (numThreads maxBlockingThreads : Nat)
    (memory : Priority → Nat → Context F A) (p : Priority) :
    ((newPool pattern numThreads maxBlockingThreads memory).pool.taskPrioBuffer p).used = 0 :=
  (Ring.head_eq_tail_iff _).mp rfl

theorem contents_newPool (pattern : Pattern) (numThreads maxBlockingThreads : Nat)
    (memory : Priority → Nat → Context F A) (p : Priority) :
    ((newPool pattern numThreads maxBlockingThreads memory).pool.taskPrioBuffer p).contents = [] :=
  (Ring.contents_eq_nil _).mpr (used_newPool ..)

/-- The workers of a new pool run nothing. -/
theorem tally_newPool {M : Type} [AddCommMonoid M] {φ : Worker F A → M} (hφ : φ .ready = 0) (n : Nat) :
    tally φ (List.replicate n .ready) = 0 :=
  tally_eq_zero fun _ hw => (List.eq_of_mem_replicate hw) ▸ hφ

theorem counts_newPool (pattern : Pattern) (numThreads maxBlockingThreads : Nat)
    (memory : Priority → Nat → Context F A) :
    Counts (newPool pattern numThreads maxBlockingThreads memory) where
  priority p t ht := by rw [contents_newPool] at ht; cases ht
  active := congrArg Int.ofNat (tally_newPool rfl numThreads).symm
  blocking := (tally_newPool rfl numThreads).symm
  cap := Nat.zero_le _
  length := List.length_replicate

theorem reserve_newPool (pattern : Pattern) (numThreads maxBlockingThreads : Nat)
    (memory : Priority → Nat → Context F A) :
    Reserve (newPool pattern numThreads maxBlockingThreads memory) where
  counts := counts_newPool ..
  room p := by
    have howed : numOwed p (newPool pattern numThreads maxBlockingThreads memory).workers = 0 :=
      tally_newPool rfl numThreads
    have hcap := ((newPool pattern numThreads maxBlockingThreads memory).pool.taskPrioBuffer
      p).used_lt
    rw [howed]
    rw [used_newPool] at hcap ⊢
    omega
  ok := rfl

/-- In every run in which a running task calls `tc_thread_schedule_next` and
`tc_thread_schedule_next2` at most once, and with its own priority, their
assertion holds: whenever a task may make the call, `task_buffer_enqueue`
has a slot for what it passes. -/
theorem yield_never_fails {pattern : Pattern} {numThreads maxBlockingThreads : Nat}
    {memory : Priority → Nat → Context F A} {es : List (Event F A)} {s : System F A}
    (hd : Along step Disciplined (newPool pattern numThreads maxBlockingThreads memory) es)
    (h : run step (newPool pattern numThreads maxBlockingThreads memory) es = some s) :
    s.assertFailed = false ∧
      ∀ (i : Nat) (t : Context F A), s.workers[i]? = some (.running t 0) →
        ∀ task : Context F A, task.priority = t.priority →
          (taskBufferEnqueue s.pool (s.pool.taskPrioBuffer task.priority) task true
            (task.priority = .blocking)).isSome = true := by
  have hd' := hd.imp fun s e hse (_ : True) => hse
  have hs := run_inv_of_move (fun _ _ => Reserve.move) hd' (reserve_newPool ..) h
  refine ⟨hs.ok, fun i t at_ task hp => ?_⟩
  rw [Option.isSome_iff_exists]
  refine ⟨_, taskBufferEnqueue_eq_some.mpr ⟨by simp, ?_, rfl⟩⟩
  rw [hp]
  exact hs.hasRoom at_

/-- A blocking task yields, and its continuation is taken. -/
def yieldOnce : List (Event Nat Nat) :=
  [.scheduleNew ⟨.blocking, some 0, none, 1⟩ 0, .loop 0,
    .scheduleNext 0 (some 1) none none .blocking 1 0, .taskReturns 0 0]

theorem yieldOnce_disciplined :
    Along step Disciplined (newPool serverPattern 1 1 fun _ _ => .invalid) yieldOnce := by
  refine along_cons trivial rfl (along_cons trivial rfl (along_cons ?_ rfl
    (along_cons trivial rfl trivial)))
  rintro t c h
  cases h
  exact ⟨rfl, rfl⟩

/-- The continuation runs, and may yield in its turn. -/
theorem yield_never_fails_once : ∃ s : System Nat Nat,
    run step (newPool serverPattern 1 1 fun _ _ => .invalid) yieldOnce = some s ∧
    s.workers[0]? = some (.running ⟨.blocking, some 1, none, 1⟩ 0) ∧ s.assertFailed = false ∧
    (taskBufferEnqueue s.pool (s.pool.taskPrioBuffer .blocking) ⟨.blocking, some 2, none, 1⟩ true
      true).isSome = true := by
  have h := yield_never_fails yieldOnce_disciplined rfl
  exact ⟨_, rfl, rfl, h.1, h.2 0 _ rfl ⟨.blocking, some 2, none, 1⟩ rfl⟩

end TC.Proof.ThreadPool
