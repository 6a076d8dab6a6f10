import TeleClassic.Proof.Tasks.Slots

/-!
# Tasks of an earlier session

A task that is still queued when its session is disconnected finds another
generation in the slot: it takes the lock, compares the generations, and
releases the lock (`Spent`). So a run from which the steps of such tasks are
taken out is a run, which does the same to all sessions (`stale_tasks_silent`),
as long as no thread releases a lock that another one holds.

If the handler of a handshake releases the lock of a stale task, the stale task
releases the lock of the new session in turn, and two threads are in it
(`stale_task_lets_in`).
-/

namespace TC.Proof.Tasks

open TC.Impl.Tasks
open TC.Impl.Server (Slot JoinRouter)

variable {slot : Slot} {tasks : List Task}

/-! ## Tasks that check the generation -/

/-- The session and the generation that a task compares before anything else:
the listening task, packet handlers, the shutdown task, the task that sends a
map, and a kick. -/
def expects : Task → Option (Slot × Int)
  | .handleNewSession | .session .listenerWorkerTask _ _ | .session .joinableTask _ _ => none
  | .session _ slot g | .tcSendMapTask2 slot g _ | .tcServerKickSession slot g => some (slot, g)

/-- A program that compares the generation of a session with `g`, and releases
the lock and returns if it is another one. -/
def Compares (slot : Slot) (g : Int) (p : TaskM Unit) : Prop :=
  ∃ next, p = .perform (.currentGeneration slot) next ∧
    ∀ current, current ≠ g → next current = .perform (.pMutexUnlock slot) fun _ => .ret ()

/-- What is left of a task whose generation is over. -/
inductive Spent (generation : Slot → Int) : TaskM Unit → Prop where
  | waiting {slot : Slot} {g : Int} {p : TaskM Unit} (compares : Compares slot g p) (past : g < generation slot) :
    Spent generation (.perform (.pMutexLock slot) fun _ => p)
  | locked {slot : Slot} {g : Int} {p : TaskM Unit} (compares : Compares slot g p) (past : g < generation slot) :
    Spent generation p
  | differs {slot : Slot} : Spent generation (.perform (.pMutexUnlock slot) fun _ => .ret ())
  | ended : Spent generation (.ret ())

theorem Spent.mono {generation generation' : Slot → Int} (hle : ∀ slot, generation slot ≤ generation' slot)
    {p : TaskM Unit} (h : Spent generation p) : Spent generation' p := by
  cases h with
  | waiting compares past => exact .waiting compares (past.trans_le (hle _))
  | locked compares past => exact .locked compares (past.trans_le (hle _))
  | differs => exact .differs
  | ended => exact .ended

/-- A task that does nothing if the generation is another one. -/
theorem compares_withLock {g : Int} {body : TaskM Unit} :
    ∃ p, Compares slot g p ∧ (tcSessionAquireActionLock slot g >>= fun aquired =>
      if aquired = true then body else pure ()) = .perform (.pMutexLock slot) fun _ => p := by
  refine ⟨_, ⟨_, rfl, fun current hne => ?_⟩, rfl⟩
  show Proc.bind (Proc.bind (.ret current) fun current => if current ≠ g then _ else _) _ = _
  simp only [Proc.bind, if_pos hne]
  rfl

theorem compares_program (router : JoinRouter) {task : Task} {g : Int} (h : expects task = some (slot, g)) :
    ∃ p, Compares slot g p ∧ program router task = .perform (.pMutexLock slot) fun _ => p := by
  cases task with
  | handleNewSession => cases h
  | session func slot' g' => cases func <;> cases h <;> exact compares_withLock
  | tcSendMapTask2 slot' g' numPackets =>
    cases h
    exact compares_withLock
  | tcServerKickSession slot' g' =>
    cases h
    exact compares_withLock

/-! ## What an operation does without them -/

/-- The state without the locks that the threads of `stale` hold. -/
def freed (stale : Nat → Bool) (s : Shared) : Shared :=
  { s with actionLock := fun slot => (s.actionLock slot).filter fun thread => !stale thread }

section

variable {stale : Nat → Bool} {s s' : Shared} {thread : Nat} {c : Choice}

theorem freed_lock (hthread : stale thread = false) (slot : Slot) :
    freed stale { s with actionLock := Function.update s.actionLock slot (some thread) } =
      { freed stale s with actionLock := Function.update (freed stale s).actionLock slot (some thread) } := by
  refine congrArg (fun locks => { s with actionLock := locks }) (funext fun slot' => ?_)
  by_cases h : slot' = slot
  · subst h
    simp [hthread]
  · simp only [Function.update_of_ne h]
    rfl

theorem freed_unlock (slot : Slot) :
    freed stale { s with actionLock := Function.update s.actionLock slot none } =
      { freed stale s with actionLock := Function.update (freed stale s).actionLock slot none } := by
  refine congrArg (fun locks => { s with actionLock := locks }) (funext fun slot' => ?_)
  by_cases h : slot' = slot
  · subst h
    simp
  · simp only [Function.update_of_ne h]
    rfl

/-- A lock that no thread holds but stale ones is free without them. -/
theorem freed_eq_none (h : ∀ i, s.actionLock slot = some i → stale i = true) :
    (freed stale s).actionLock slot = none := by
  show (s.actionLock slot).filter _ = none
  rcases hlock : s.actionLock slot with _ | holder
  · rfl
  · simp [h holder hlock]

/-- Setting a lock that only a stale thread may hold. -/
theorem freed_update {lock : Option Nat} (h : ∀ i, s.actionLock slot = some i → stale i = true)
    (hlock : ∀ i, lock = some i → stale i = true) :
    freed stale { s with actionLock := Function.update s.actionLock slot lock } = freed stale s := by
  refine congrArg (fun locks => { s with actionLock := locks }) (funext fun slot' => ?_)
  by_cases heq : slot' = slot
  · subst heq
    have hold : (s.actionLock slot').filter (fun thread => !stale thread) = none := freed_eq_none h
    rw [hold]
    show (Function.update s.actionLock slot' lock slot').filter _ = none
    rw [Function.update_self]
    cases lock with
    | none => rfl
    | some i => simp [hlock i rfl]
  · simp only [Function.update_of_ne heq]

/-- An operation of another thread does the same without the locks of stale
threads. -/
theorem perform_freed {op : Op} {ans : Ans op} (hthread : stale thread = false)
    (hperform : perform thread op c s = some (ans, s', tasks)) :
    perform thread op c (freed stale s) = some (ans, freed stale s', tasks) := by
  cases op with
  | pMutexLock slot =>
    obtain ⟨hfree, rfl, rfl⟩ := perform_lock hperform
    have hfreed : (freed stale s).actionLock slot = none := by
      refine freed_eq_none fun i hi => ?_
      cases hfree.symm.trans hi
    simp only [perform, hfreed]
    rw [freed_lock hthread]
  | pMutexUnlock slot =>
    cases hperform
    exact congrArg (fun s => some ((), s, [])) (freed_unlock slot).symm
  | takeId =>
    obtain ⟨hfull, rfl, rfl, rfl⟩ | ⟨hfree, rfl, rfl, rfl⟩ := perform_takeId hperform
    · exact if_pos hfull
    · exact if_neg hfree
  | opcode =>
    obtain ⟨hans, rfl, rfl⟩ := perform_opcode hperform
    have hsome : (TC.Impl.Server.tcPacketHandlers c.opcode).isSome := hans ▸ ans.property
    exact (dif_pos hsome).trans (congrArg (fun ans => some (ans, freed stale s', [])) (Subtype.ext hans.symm))
  | crash => exact ans.elim
  | _ =>
    cases hperform
    rfl

/-- An operation advances a generation by one at most. -/
theorem generation_le_perform {op : Op} {ans : Ans op}
    (hperform : perform thread op c s = some (ans, s', tasks)) (slot : Slot) :
    s.currentGeneration slot ≤ s'.currentGeneration slot ∧ s'.currentGeneration slot ≤ s.currentGeneration slot + 1 := by
  have hkeeps : s.currentGeneration slot ≤ s.currentGeneration slot + 1 := by omega
  cases op with
  | pMutexLock slot =>
    obtain ⟨-, rfl, -⟩ := perform_lock hperform
    exact ⟨le_rfl, hkeeps⟩
  | advanceGeneration slot' =>
    cases hperform
    exact generation_le_advancedAt s slot' slot
  | takeId =>
    obtain ⟨-, -, rfl, -⟩ | ⟨-, -, rfl, -⟩ := perform_takeId hperform <;> exact ⟨le_rfl, hkeeps⟩
  | opcode =>
    obtain ⟨-, rfl, -⟩ := perform_opcode hperform
    exact ⟨le_rfl, hkeeps⟩
  | crash => exact ans.elim
  | _ =>
    cases hperform
    exact ⟨le_rfl, hkeeps⟩

end

/-! ## Runs without them -/

/-- The step of a thread of `stale`. -/
def isOf (stale : Nat → Bool) : Label → Bool
  | .act thread _ => stale thread
  | _ => false

/-- `r` is `s` without what the threads of `stale` have done, whose generations
are over in `s`. -/
structure Without (stale : Nat → Bool) (s r : System) : Prop where
  shared : r.shared = freed stale s.shared
  length : r.procs.length = s.procs.length
  procs : ∀ i : Nat, stale i = false → r.procs[i]? = s.procs[i]?
  spent : ∀ i : Nat, stale i = true → ∃ p, s.procs[i]? = some p ∧ Spent s.shared.currentGeneration p

section

variable {router : JoinRouter} {stale : Nat → Bool} {s s' r : System} {thread : Nat} {c : Choice}

/-- A stale thread goes on. -/
theorem Without.goOn (h : Without stale s r) (hthread : stale thread = true) {shared : Shared}
    (hfreed : freed stale shared = freed stale s.shared)
    (hgeneration : shared.currentGeneration = s.shared.currentGeneration) {p q : TaskM Unit}
    (hat : s.procs[thread]? = some p) (hq : Spent shared.currentGeneration q) :
    Without stale { shared, procs := s.procs.set thread q } r := by
  refine ⟨h.shared.trans hfreed.symm, h.length.trans List.length_set.symm, fun i hi => ?_, fun i hi => ?_⟩
  · have hne : thread ≠ i := by
      rintro rfl
      cases hthread.symm.trans hi
    rw [List.getElem?_set_ne hne]
    exact h.procs i hi
  · by_cases heq : thread = i
    · subst heq
      obtain ⟨hlt, -⟩ := List.getElem?_eq_some_iff.mp hat
      exact ⟨q, List.getElem?_set_self hlt, hq⟩
    · obtain ⟨p', hp', hspent⟩ := h.spent i hi
      refine ⟨p', ?_, hgeneration ▸ hspent⟩
      rw [List.getElem?_set_ne heq]
      exact hp'

/-- A step of a stale thread does not show. -/
theorem Without.silent (h : Without stale s r) (hthread : stale thread = true) (howned : Owned s (.act thread c))
    (hact : s.act (semantics router) thread c = some s') : Without stale s' r := by
  obtain ⟨op, next, ans, shared, tasks, hat, hperform, rfl⟩ := Threads.act_eq_some.mp hact
  obtain ⟨p, hp, hspent⟩ := h.spent thread hthread
  obtain rfl := Option.some.inj (hat.symm.trans hp)
  generalize hproc : Proc.perform op next = p at hspent
  cases hspent with
  | waiting compares past =>
    cases hproc
    obtain ⟨hfree, rfl, rfl⟩ := perform_lock (c := c) hperform
    rw [List.map_nil, List.append_nil]
    refine h.goOn hthread (freed_update (fun i hi => ?_) fun i hi => ?_) rfl hat (.locked compares past)
    · cases hfree.symm.trans hi
    · cases hi
      exact hthread
  | locked compares past =>
    obtain ⟨next', rfl, hdiffers⟩ := compares
    cases hproc
    cases hperform
    rw [List.map_nil, List.append_nil, hdiffers _ past.ne']
    exact h.goOn hthread rfl rfl hat .differs
  | @differs slot =>
    cases hproc
    cases hperform
    rw [List.map_nil, List.append_nil]
    refine h.goOn hthread (freed_update (fun i hi => ?_) fun i hi => by cases hi) rfl hat .ended
    rcases howned slot (Threads.op?_eq_some hat) with hnone | hself
    · cases hnone.symm.trans hi
    · cases hself.symm.trans hi
      exact hthread
  | ended => cases hproc

/-- Both go on in the same way. -/
theorem Without.both (h : Without stale s r) (hthread : stale thread = false) {shared : Shared}
    (hle : ∀ slot, s.shared.currentGeneration slot ≤ shared.currentGeneration slot) (q : TaskM Unit)
    (news : List (TaskM Unit)) : Without stale { shared, procs := s.procs.set thread q ++ news }
      { shared := freed stale shared, procs := r.procs.set thread q ++ news } := by
  refine ⟨rfl, ?_, fun i hi => ?_, fun i hi => ?_⟩
  · simp only [List.length_append, List.length_set, h.length]
  · have hset : (r.procs.set thread q)[i]? = (s.procs.set thread q)[i]? := by
      rw [List.getElem?_set, List.getElem?_set, h.length, h.procs i hi]
    rw [List.getElem?_append, List.getElem?_append, List.length_set, List.length_set, h.length, hset]
  · obtain ⟨p, hp, hspent⟩ := h.spent i hi
    refine ⟨p, ?_, hspent.mono hle⟩
    have hne : thread ≠ i := by
      rintro rfl
      cases hthread.symm.trans hi
    obtain ⟨hlt, -⟩ := List.getElem?_eq_some_iff.mp hp
    rw [List.getElem?_append_left (by rw [List.length_set]; exact hlt), List.getElem?_set_ne hne]
    exact hp

/-- A task is started on both sides. -/
theorem Without.start (h : Without stale s r) (task : Task) :
    Without stale (s.start (semantics router) task) (r.start (semantics router) task) := by
  refine ⟨h.shared, ?_, fun i hi => ?_, fun i hi => ?_⟩
  · simp only [Threads.start, List.length_append, h.length]
  · simp only [Threads.start]
    rw [List.getElem?_append, List.getElem?_append, h.length, h.procs i hi]
  · obtain ⟨p, hp, hspent⟩ := h.spent i hi
    obtain ⟨hlt, -⟩ := List.getElem?_eq_some_iff.mp hp
    exact ⟨p, (List.getElem?_append_left hlt).trans hp, hspent⟩

/-- Any other step is possible without the stale threads. -/
theorem Without.step (h : Without stale s r) {l : Label} (hl : isOf stale l = false)
    (hstep : step router s l = some s') : ∃ r', step router r l = some r' ∧ Without stale s' r' := by
  cases l with
  | accept =>
    cases hstep
    exact ⟨_, rfl, h.start _⟩
  | kick slot g =>
    simp only [Impl.Tasks.step] at hstep ⊢
    split at hstep
    · rename_i hopened
      cases hstep
      rw [h.shared]
      exact ⟨_, if_pos hopened, h.start _⟩
    · cases hstep
  | act thread c =>
    obtain ⟨op, next, ans, shared, tasks, hat, hperform, rfl⟩ := Threads.act_eq_some.mp hstep
    refine ⟨_, Threads.act_eq_some.mpr ⟨op, next, ans, freed stale shared, tasks, ?_, ?_, rfl⟩,
      h.both hl (fun slot => (generation_le_perform hperform slot).1) _ _⟩
    · exact (h.procs thread hl).trans hat
    · rw [h.shared]
      exact perform_freed hl hperform

/-! ## Threads that have not begun -/

theorem holder_of_perform {op : Op} {ans : Ans op} {s s' : Shared}
    (hperform : perform thread op c s = some (ans, s', tasks)) {i : Nat}
    (hlock : s'.actionLock slot = some i) : s.actionLock slot = some i ∨ i = thread := by
  cases op with
  | pMutexLock slot' =>
    obtain ⟨-, rfl, -⟩ := perform_lock hperform
    have hupdate : Function.update s.actionLock slot' (some thread) slot = some i := hlock
    rw [Function.update_apply] at hupdate
    split at hupdate
    · exact .inr (Option.some.inj hupdate).symm
    · exact .inl hupdate
  | pMutexUnlock slot' =>
    cases hperform
    have hupdate : Function.update s.actionLock slot' none slot = some i := hlock
    rw [Function.update_apply] at hupdate
    split at hupdate
    · cases hupdate
    · exact .inl hupdate
  | takeId =>
    obtain ⟨-, -, rfl, -⟩ | ⟨-, -, rfl, -⟩ := perform_takeId hperform <;> exact .inl hlock
  | opcode =>
    obtain ⟨-, rfl, -⟩ := perform_opcode hperform
    exact .inl hlock
  | crash => exact ans.elim
  | _ =>
    cases hperform
    exact .inl hlock

theorem generation_le_step {l : Label} (hstep : step router s l = some s') (slot : Slot) :
    s.shared.currentGeneration slot ≤ s'.shared.currentGeneration slot ∧
      s'.shared.currentGeneration slot ≤ s.shared.currentGeneration slot + 1 := by
  cases l with
  | accept =>
    cases hstep
    exact ⟨le_rfl, Int.le_add_one le_rfl⟩
  | kick slot' g =>
    simp only [Impl.Tasks.step] at hstep
    split at hstep <;> cases hstep
    exact ⟨le_rfl, Int.le_add_one le_rfl⟩
  | act thread c =>
    obtain ⟨op, next, ans, shared, tasks, -, hperform, rfl⟩ := Threads.act_eq_some.mp hstep
    exact generation_le_perform hperform slot

/-- A `pint` holds the generations of a run of fewer than `2 ^ 31` steps. -/
theorem generation_held {joinables : Slot → Option Nat} {ls : List Label}
    (hrun : run (step router) (init joinables) ls = some s) (hfew : ls.length < 2 ^ 31) (slot : Slot) :
    (BitVec.ofInt 32 (s.shared.currentGeneration slot)).toInt = s.shared.currentGeneration slot := by
  have hbounds : ∀ s' s ls, run (step router) s' ls = some s →
      s'.shared.currentGeneration slot ≤ s.shared.currentGeneration slot ∧
        s.shared.currentGeneration slot ≤ s'.shared.currentGeneration slot + ls.length := by
    intro s' s ls hrun
    induction ls generalizing s' with
    | nil =>
      obtain rfl := Option.some.inj hrun
      exact ⟨le_rfl, by simp⟩
    | cons l ls ih =>
      obtain ⟨s₁, hstep, hrest⟩ := run_cons.mp hrun
      have hfirst := generation_le_step hstep slot
      have hlast := ih s₁ hrest
      rw [List.length_cons]
      omega
  obtain ⟨hlow, hhigh⟩ := hbounds _ s ls hrun
  rw [show (init joinables).shared.currentGeneration slot = 0 from rfl] at hlow hhigh
  exact BitVec.toInt_ofInt_eq_self (by decide) (by omega) (by omega)

/-- Only a thread that has done something holds a lock. -/
theorem holder_of_run {ls : List Label} (hrun : run (step router) s ls = some s') {i : Nat}
    (hlock : s'.shared.actionLock slot = some i) :
    s.shared.actionLock slot = some i ∨ ∃ c, Label.act i c ∈ ls := by
  induction ls generalizing s with
  | nil =>
    obtain rfl := Option.some.inj hrun
    exact .inl hlock
  | cons l ls ih =>
    obtain ⟨s₁, hstep, hrun₁⟩ := run_cons.mp hrun
    rcases ih hrun₁ with hlock₁ | ⟨c, hc⟩
    · cases l with
      | accept =>
        cases hstep
        exact .inl hlock₁
      | kick slot' g =>
        simp only [Impl.Tasks.step] at hstep
        split at hstep <;> cases hstep
        exact .inl hlock₁
      | act thread c =>
        obtain ⟨op, next, ans, shared, tasks, -, hperform, rfl⟩ := Threads.act_eq_some.mp hstep
        rcases holder_of_perform hperform hlock₁ with hlock₀ | rfl
        · exact .inl hlock₀
        · exact .inr ⟨c, List.mem_cons_self⟩
    · exact .inr ⟨c, List.mem_cons_of_mem _ hc⟩

/-- Threads that have not begun, and whose generations are over. -/
def Queued (router : JoinRouter) (stale : Nat → Bool) (before : List Label) (s : System) : Prop :=
  ∀ i, stale i = true → (∀ c, Label.act i c ∉ before) ∧
    ∃ task slot g, s.procs[i]? = some (program router task) ∧ expects task = some (slot, g) ∧
      g < s.shared.currentGeneration slot

theorem without_self {joinables : Slot → Option Nat} {before : List Label}
    (hbefore : run (step router) (init joinables) before = some s) (hstale : Queued router stale before s) :
    Without stale s s := by
  refine ⟨?_, rfl, fun _ _ => rfl, fun i hi => ?_⟩
  · refine congrArg (fun locks => { s.shared with actionLock := locks }) (funext fun slot => ?_)
    rcases hlock : s.shared.actionLock slot with _ | i
    · rfl
    · have hi : (!stale i) = true := by
        rw [Bool.not_eq_true', Bool.eq_false_iff]
        intro hi
        rcases holder_of_run hbefore hlock with hinit | ⟨c, hc⟩
        · cases hinit
        · exact (hstale i hi).1 c hc
      exact (if_pos hi).symm
  · obtain ⟨-, task, slot, g, hat, hexpects, hpast⟩ := hstale i hi
    obtain ⟨p, hcompares, hprogram⟩ := compares_program router hexpects
    exact ⟨_, hat, hprogram ▸ .waiting hcompares hpast⟩

end

/-- What tasks of earlier sessions do does not show: without their steps there
is a run that does the same to all sessions, and after which all other threads
are at the same place. -/
theorem stale_tasks_silent (router : JoinRouter) (joinables : Slot → Option Nat) (stale : Nat → Bool)
    {before ls : List Label} {s s' : System} (hbefore : run (step router) (init joinables) before = some s)
    (hstale : Queued router stale before s) (hrun : run (step router) s ls = some s')
    (howned : Along (step router) (fun s l => isOf stale l = true → Owned s l) s ls) :
    ∃ r, run (step router) s (ls.filter fun l => !isOf stale l) = some r ∧ r.shared = freed stale s'.shared ∧
      ∀ i : Nat, stale i = false → r.procs[i]? = s'.procs[i]? := by
  have hsilent : ∀ s s' r l, (isOf stale l = true → Owned s l) → Without stale s r → isOf stale l = true →
      step router s l = some s' → Without stale s' r := by
    intro s s' r l hown h hl hstep
    cases l with
    | act thread c => exact h.silent hl (hown hl) hstep
    | accept => cases hl
    | kick _ _ => cases hl
  obtain ⟨r, hr, hwithout⟩ := run_filter hsilent (fun _ _ _ _ _ h hl hstep => h.step hl hstep) howned
    (without_self hbefore hstale) hrun
  exact ⟨r, hr, hwithout.shared, hwithout.procs⟩

/-- A kick of the first session is queued when its client leaves, and another
client has joined in its slot. -/
def occupied : List Label :=
  accepting 0 ++ acts 0 [yes, yes] ++ [.kick firstSlot 0] ++
    acts 1 [yes, yes, no, yes, yes, yes, yes, yes, yes, yes, yes] ++ handshake 3

/-- The thread of the kick. -/
def lateKick (thread : Nat) : Bool := thread == 2

def threadOf : Label → Option Nat
  | .act thread _ => some thread
  | _ => none

theorem queued_lateKick {s : System} (hrun : run (step hub) (init fun _ => none) occupied = some s) :
    Queued hub lateKick occupied s := by
  have hprogram : (run (step hub) (init fun _ => none) occupied).map (fun s => s.procs[2]?) =
      some (some (program hub (.tcServerKickSession firstSlot 0))) := by rfl
  have hpast : (run (step hub) (init fun _ => none) occupied).map (fun s =>
      decide (0 < s.shared.currentGeneration firstSlot)) = some true := by decide +kernel
  have hidle : some 2 ∉ occupied.map threadOf := by decide +kernel
  rw [hrun] at hprogram hpast
  intro i hi
  obtain rfl : i = 2 := by simpa [lateKick] using hi
  refine ⟨fun c hc => hidle (List.mem_map.mpr ⟨_, hc, rfl⟩), .tcServerKickSession firstSlot 0, firstSlot, 0, ?_, rfl, ?_⟩
  · exact Option.some.inj hprogram
  · exact of_decide_eq_true (Option.some.inj hpast)

/-- The kick finds the new session, and leaves it alone. -/
theorem stale_tasks_silent_lateKick : ∃ s s' r, run (step hub) (init fun _ => none) occupied = some s ∧
    run (step hub) s (acts 2 [yes, yes, yes] ++ acts 6 [yes]) = some s' ∧
    run (step hub) s ((acts 2 [yes, yes, yes] ++ acts 6 [yes]).filter fun l => !isOf lateKick l) = some r ∧
    r.shared = freed lateKick s'.shared := by
  have hsome : (run (step hub) (init fun _ => none) occupied).isSome := by decide +kernel
  obtain ⟨s, hs⟩ := Option.isSome_iff_exists.mp hsome
  have hlate : ((run (step hub) (init fun _ => none) occupied).bind fun s =>
      run (step hub) s (acts 2 [yes, yes, yes] ++ acts 6 [yes])).isSome := by decide +kernel
  have howned : ∀ s ∈ run (step hub) (init fun _ => none) occupied,
      Along (step hub) (fun s l => isOf lateKick l = true → Owned s l) s
        (acts 2 [yes, yes, yes] ++ acts 6 [yes]) := by decide +kernel
  rw [hs] at hlate
  obtain ⟨s', hs'⟩ := Option.isSome_iff_exists.mp hlate
  obtain ⟨r, hr, hshared, -⟩ := stale_tasks_silent hub _ lateKick hs (queued_lateKick hs) hs' (howned s hs)
  exact ⟨s, s', r, hs, hs', hr, hshared⟩

/-- The kick has taken the lock when the handshake of the new session releases
it again; so the kick releases the lock of a thread that is in the session, and
another one gets in. -/
def intruding : List Label :=
  acts 2 [yes] ++ acts 6 [yes] ++ [.kick firstSlot 1] ++ acts 8 [yes, yes] ++ acts 2 [yes, yes] ++
    [.kick firstSlot 1] ++ acts 9 [yes, yes] ++ acts 8 [yes, yes, yes, yes, yes, yes, yes] ++
    acts 9 [yes, yes, yes, yes, yes]

/-- With the late kick the id of the new session is returned twice. Without it
this is no run. -/
theorem stale_task_lets_in : ∃ s, run (step hub) (init fun _ => none) occupied = some s ∧
    Queued hub lateKick occupied s ∧
    (run (step hub) s intruding).map (fun s' =>
      (s'.shared.trace.count (.returned firstSlot), s'.shared.idBufferHead)) = some (3, -1) ∧
    (run (step hub) s (intruding.filter fun l => !isOf lateKick l)).isNone := by
  have hend : (run (step hub) (init fun _ => none) occupied).map (fun s =>
      ((run (step hub) s intruding).map (fun s' =>
        (s'.shared.trace.count (.returned firstSlot), s'.shared.idBufferHead)),
      (run (step hub) s (intruding.filter fun l => !isOf lateKick l)).isNone)) = some (some (3, -1), true) := by
    decide +kernel
  obtain ⟨s, hs, hpair⟩ := Option.map_eq_some_iff.mp hend
  obtain ⟨hwith, hwithout⟩ := Prod.mk.inj hpair
  exact ⟨s, hs, queued_lateKick hs, hwith, hwithout⟩

end TC.Proof.Tasks
