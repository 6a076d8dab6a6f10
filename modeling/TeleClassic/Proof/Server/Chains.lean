import TeleClassic.Proof.Server.Served
import TeleClassic.Proof.Server.Identity

/-!
# Chains of tasks

The tasks that are pending for a session in its generation are its chain. A
step of the server is a turn of one session, the work of a task that comes too
late, a new client, or nothing but a move of the thread pool. So a property
that holds of a new session with its first task, and that every turn keeps,
holds of each live session with the task that is pending for it
(`serving_run`); the property may speak of all turns of the session so far.
-/

namespace TC.Proof.Server

open TC.Impl.Server TC.Impl.ThreadPool TC.Proof.ThreadPool Prog

variable {done tasks : List (Context Func Arg)} {t : Context Func Arg} {G : World → Label → Prop}
  {slot slot' : Slot} {w w' : World} {clientSocket : Stream} {call : Call} {g : Int}

/-! ## Tasks that come too late -/

/-- A task of an earlier generation of a session: it may schedule others like
it, and changes no session. -/
def Idles (call : Call) (slot : Slot) (g : Int) (w w' : World) : Prop :=
  w'.sessionBuffer = w.sessionBuffer ∧ ∃ tasks, Reaches call.worker slot w w' [] tasks ∧
    ∀ t ∈ tasks, t.arg = some (.session slot) ∧ t.sessionGeneration = g

/-- It idles, or the process halts. -/
def IdlesOrHalts (call : Call) (slot : Slot) (g : Int) (w w' : World) : Prop :=
  w'.halted.isSome = true ∨ Idles call slot g w w'

section

variable {w₁ : World} {priority : Priority}

theorem idles_of_alike (h : Alike w w₁) : Idles call slot g w w₁ :=
  ⟨h.sessionBuffer, [], h.reaches .., List.forall_mem_nil _⟩

theorem idles_or_halts_of_halted (w' : World) (h : w'.halted.isSome = true) : IdlesOrHalts call slot g w w' := .inl h

/-- The lock is not free, or is released at once. -/
theorem meets_aquire_stale {β : Type} (hg : generation w slot ≠ g) {k : Bool → TaskM β} {Q : β → World → Prop}
    {R : World → Prop} (hstuck : R { w with stuck := call.worker :: w.stuck })
    (h : Meets call w (k false) Q R) : Meets call w (tcSessionAquireActionLock slot g >>= k) Q R := by
  cases hlock : (w.sessionBuffer slot).actionLock with
  | true => exact meets_of_none (bind_of_none (bind_of_none (lock_locked hlock))) hstuck
  | false =>
    have hsession : { locked (w.sessionBuffer slot) with actionLock := false } = w.sessionBuffer slot := by
      rw [locked, ← hlock]
    have hworld : w.setSession slot { locked (w.sessionBuffer slot) with actionLock := false } = w := by
      rw [hsession, World.setSession, Function.update_eq_self]
    refine meets_assoc (meets_bind_of_some (lock_unlocked hlock) (meets_assoc (meets_read ?_)))
    have hstale : (locked (w.sessionBuffer slot)).currentGeneration ≠ g := hg
    rw [if_pos hstale]
    refine meets_assoc (meets_unlockThen ?_)
    rw [hworld]
    exact h

theorem meets_withLock_stale {p : TaskM Unit} (hg : generation w slot ≠ g) (hw : Alike w w₁)
    (hg₁ : generation w₁ slot = generation w slot) :
    Meets call w₁ (tcSessionAquireActionLock slot g >>= fun aquired => if aquired = true then p else pure ())
      (fun _ => Idles call slot g w) (IdlesOrHalts call slot g w) := by
  refine meets_aquire_stale (hg₁ ▸ hg) (.inr (idles_of_alike (hw.trans ⟨rfl, rfl, rfl, rfl, rfl⟩))) ?_
  exact meets_pure (idles_of_alike hw)

theorem idles_of_adds {pool : System Func Arg} {s : Session} (hs : w.sessionBuffer slot = s)
    (hadds : Adds call.worker w.threadPool pool tasks)
    (htasks : ∀ t ∈ tasks, t.arg = some (.session slot) ∧ t.sessionGeneration = g) :
    Idles call slot g w ({ w with threadPool := pool }.setSession slot s) := by
  subst hs
  have hworld : { w with threadPool := pool }.setSession slot (w.sessionBuffer slot) =
      { w with threadPool := pool } := by
    rw [World.setSession, Function.update_eq_self]
  rw [hworld]
  exact ⟨rfl, tasks, reaches_schedule hadds, htasks⟩

theorem mem_continuation {s : System Func Arg} {nextTask shutdownTask : Option Func} {arg : Option Arg}
    (h : t ∈ continuation s nextTask shutdownTask arg priority g) :
    t.arg = arg ∧ t.sessionGeneration = g := by
  obtain ⟨f, -, rfl⟩ := Option.map_eq_some_iff.mp (Option.mem_toList.mp h)
  exact ⟨rfl, rfl⟩

theorem idles_joinableTask (hb : Busy w call.worker) (hg : generation w slot ≠ g) :
    Meets call w (joinableTask slot priority g) (fun _ => Idles call slot g w) (IdlesOrHalts call slot g w) := by
  unfold joinableTask
  refine meets_ask ?_
  have hnext : ∀ nextTask shutdownTask, Meets call w
      (tcThreadScheduleNext nextTask shutdownTask (.session slot) priority g) (fun _ => Idles call slot g w)
      (IdlesOrHalts call slot g w) := by
    intro nextTask shutdownTask
    refine meets_self slot (meets_last (meets_scheduleNext idles_or_halts_of_halted hb fun pool hadds => ?_))
    exact meets_pure (idles_of_adds rfl hadds fun t ht => mem_continuation ht)
  split
  · exact hnext ..
  · exact hnext ..
  · rename_i newPriority _
    refine meets_self slot (meets_scheduleNew fun scheduled pool hpool => meets_pure ?_)
    have hadds := scheduleNew_adds call.worker w.threadPool
      ⟨newPriority, some .joinableTask, some (.session slot), g⟩ call.env.pick
    rw [hpool] at hadds
    refine idles_of_adds rfl hadds fun t ht => ?_
    split at ht
    · rw [List.mem_singleton.mp ht]
      exact ⟨rfl, rfl⟩
    · cases ht
  · exact meets_withLock_stale hg (Alike.refl w) rfl
  · rename_i address _
    have hemit : Alike w (w.emit (.joining slot g)) := Alike.emit rfl
    have hjoining : emit (.joining slot g) call w = (some (), w.emit (.joining slot g)) := rfl
    unfold tcSessionJoin
    refine meets_assoc (meets_bind_of_some hjoining ?_)
    refine meets_assoc (meets_get ?_)
    split
    · exact meets_pure (idles_of_alike hemit)
    · rw [if_pos rfl]
      refine meets_assoc (meets_aquire_stale (w := w.emit (.joining slot g)) hg ?_
        (meets_pure (idles_of_alike hemit)))
      exact .inr (idles_of_alike (hemit.trans ⟨rfl, rfl, rfl, rfl, rfl⟩))
  · exact meets_pure (idles_of_alike (Alike.refl w))

theorem idles_task (hb : Busy w call.worker) (harg : t.arg = some (.session slot))
    (hg : generation w slot ≠ t.sessionGeneration) :
    Meets call w (runTask t) (fun _ => Idles call slot t.sessionGeneration w)
      (IdlesOrHalts call slot t.sessionGeneration w) := by
  have hlate : ∀ p : TaskM Unit, Meets call w (tcSessionAquireActionLock slot t.sessionGeneration >>=
      fun aquired => if aquired = true then p else pure ()) (fun _ => Idles call slot t.sessionGeneration w)
      (IdlesOrHalts call slot t.sessionGeneration w) :=
    fun p => meets_withLock_stale hg (Alike.refl w) rfl
  rw [runTask, harg]
  rcases t.func with _ | f
  · exact meets_halt idles_or_halts_of_halted
  · cases f with
    | listenerWorkerTask => exact meets_halt idles_or_halts_of_halted
    | joinableTask => exact idles_joinableTask hb hg
    | _ => exact hlate _

end

/-! ## New clients -/

/-- The first task of a client in the next slot. -/
def firstTask (w : World) : Context Func Arg :=
  ⟨.low, some .tcServerClientListenTask, some (.session (nextSlot w)), generation w (nextSlot w)⟩

/-- No task for a session. -/
def Elsewhere (tasks : List (Context Func Arg)) : Prop := ∀ t ∈ tasks, t.arg = some .server

/-- What the task that accepts clients has done. -/
inductive Opens (call : Call) (w w' : World) : Prop where
  | nothing {slot : Slot} {tasks : List (Context Func Arg)} (reach : Reaches call.worker slot w w' [] tasks)
      (same : w'.sessionBuffer = w.sessionBuffer) (elsewhere : Elsewhere tasks)
  | opened {s : Session} {clientSocket : Stream} {tasks : List (Context Func Arg)}
      (free : w.idBufferHead ≠ maxSessions)
      (reach : Reaches call.worker (nextSlot w) w w' [.accepted (nextSlot w) (generation w (nextSlot w))]
        (firstTask w :: tasks))
      (elsewhere : Elsewhere tasks) (same : Same (newSession s clientSocket) (w'.sessionBuffer (nextSlot w)))
      (generation : generation w' (nextSlot w) = generation w (nextSlot w))
      (lock : (w'.sessionBuffer (nextSlot w)).actionLock = false)
  | refused {tasks : List (Context Func Arg)} (free : w.idBufferHead ≠ maxSessions)
      (reach : Reaches call.worker (nextSlot w) w w' [.accepted (nextSlot w) (generation w (nextSlot w))] tasks)
      (elsewhere : Elsewhere tasks) (later : generation w' (nextSlot w) = generation w (nextSlot w) + 1)
  | deaf {s : Session} {clientSocket : Stream} {tasks : List (Context Func Arg)}
      (free : w.idBufferHead ≠ maxSessions)
      (reach : Reaches call.worker (nextSlot w) w w' [.accepted (nextSlot w) (generation w (nextSlot w))] tasks)
      (elsewhere : Elsewhere tasks) (came : call.env.accept.isSome = true)
      (failed : (Impl.ThreadPool.tcThreadScheduleNew w.threadPool (firstTask w) call.env.pick).1 = false)
      (same : Same (newSession s clientSocket) (w'.sessionBuffer (nextSlot w)))
      (generation : generation w' (nextSlot w) = generation w (nextSlot w))

section

variable {w₁ : World} {priority : Priority}

theorem Opens.reaches (h : Opens call w w₁) : ∃ slot fin tasks, Reaches call.worker slot w w₁ fin tasks := by
  cases h with
  | nothing reach | opened _ reach | refused _ reach | deaf _ reach => exact ⟨_, _, _, reach⟩

theorem Opens.busy (h : Opens call w w₁) (hb : Busy w call.worker) : Busy w₁ call.worker := by
  obtain ⟨_, _, _, reach⟩ := h.reaches
  exact reach.busy hb

theorem Elsewhere.append {tasks' : List (Context Func Arg)} (h : Elsewhere tasks) (h' : Elsewhere tasks') :
    Elsewhere (tasks ++ tasks') :=
  fun t ht => (List.mem_append.mp ht).elim (h t) (h' t)

theorem Opens.schedule {pool : System Func Arg} (h : Opens call w w₁)
    (ha : Adds call.worker w₁.threadPool pool tasks) (he : Elsewhere tasks) :
    Opens call w { w₁ with threadPool := pool } := by
  cases h with
  | nothing reach same elsewhere =>
    exact .nothing (reach.trans (reaches_schedule ha)) same (elsewhere.append he)
  | opened free reach elsewhere same generation lock =>
    exact .opened free (reach.trans (reaches_schedule ha)) (elsewhere.append he) same generation lock
  | refused free reach elsewhere later =>
    exact .refused free (reach.trans (reaches_schedule ha)) (elsewhere.append he) later
  | deaf free reach elsewhere came failed same generation =>
    exact .deaf free (reach.trans (reaches_schedule ha)) (elsewhere.append he) came failed same generation

/-- The world in which the next slot has just been taken. -/
def taken (w : World) : World :=
  { w with idBufferHead := w.idBufferHead + 1 }.emit (.accepted (nextSlot w) (generation w (nextSlot w)))

theorem reaches_taken (call : Call) (w : World) : Reaches call.worker (nextSlot w) w (taken w)
    [.accepted (nextSlot w) (generation w (nextSlot w))] [] := by
  refine ⟨fun _ _ => rfl, Adds.none .., rfl, ?_, rfl⟩
  rw [marks, taken, World.emit, List.filter_append]
  rfl

/-- The process halts, or the task is stuck. -/
def OpensOrHalts (call : Call) (w w' : World) : Prop := w'.halted.isSome = true ∨ Opens call w w'

theorem reaches_new {W : World} {s' : Session} (h : Reaches call.worker (nextSlot w) (taken w) W [] tasks) :
    Reaches call.worker (nextSlot w) w (W.setSession (nextSlot w) s')
      [.accepted (nextSlot w) (generation w (nextSlot w))] tasks := by
  simpa using (reaches_taken call w).trans (h.trans (reaches_setSession call.worker (nextSlot w) W s'))

/-- The new session in its slot. -/
theorem same_new {W : World} {s' : Session}
    (h : Same (newSession (w.sessionBuffer (nextSlot w)) clientSocket) s') :
    Same (newSession (w.sessionBuffer (nextSlot w)) clientSocket)
      ((W.setSession (nextSlot w) s').sessionBuffer (nextSlot w)) := by
  rwa [sessionBuffer_setSession]

theorem generation_new {W : World} {s' : Session} :
    generation (W.setSession (nextSlot w) s') (nextSlot w) = s'.currentGeneration := by
  rw [generation, sessionBuffer_setSession]

theorem opens_startListening (came : call.env.accept = some clientSocket)
    (free : w.idBufferHead ≠ maxSessions) :
    Meets call (accepted w clientSocket) (startListening (nextSlot w) (generation w (nextSlot w)))
      (fun _ => Opens call w) (OpensOrHalts call w) := by
  have hworld : accepted w clientSocket = (taken w).setSession (nextSlot w)
      (newSession (locked (w.sessionBuffer (nextSlot w))) clientSocket) := rfl
  have hsame : ∀ lock, Same (newSession (w.sessionBuffer (nextSlot w)) clientSocket)
      { newSession (locked (w.sessionBuffer (nextSlot w))) clientSocket with actionLock := lock } :=
    fun _ => ⟨rfl, rfl, rfl, rfl, rfl, rfl, rfl, rfl⟩
  rw [hworld]
  unfold startListening
  refine meets_ask ?_
  split
  · refine meets_scheduleNew fun scheduled pool hpool => ?_
    have hfirst : Impl.ThreadPool.tcThreadScheduleNew (taken w).threadPool (firstTask w) call.env.pick =
        (scheduled, pool) := hpool
    have hadds := scheduleNew_adds call.worker (taken w).threadPool (firstTask w) call.env.pick
    rw [hfirst] at hadds
    have hreach : Reaches call.worker (nextSlot w) (taken w) { taken w with threadPool := pool } [] _ :=
      reaches_schedule hadds
    rcases scheduled with _ | _
    · -- the session is kicked by the task that holds its lock: the task is stuck
      have halike : Alike { taken w with threadPool := pool }
          { taken w with threadPool := pool, stuck := call.worker :: w.stuck } := ⟨rfl, rfl, rfl, rfl, rfl⟩
      exact meets_kickAgain rfl (.inr (.deaf free (reaches_new (hreach.alike halike)) (List.forall_mem_nil _)
        (by rw [came]; rfl) (congrArg Prod.fst hfirst) (same_new (hsame true)) generation_new))
    · refine meets_unlock (.opened free (reaches_new hreach) (List.forall_mem_nil _) (same_new (hsame false))
        generation_new ?_)
      rw [sessionBuffer_setSession]
  · refine meets_kick fun w₂ socket hw₂ => meets_unlock (.refused free
      (reaches_new (hw₂.reaches call.worker (nextSlot w))) (List.forall_mem_nil _) ?_)
    rw [generation_new]
    rfl

theorem opens_handleNewSession (came : call.env.accept = some clientSocket) :
    Meets call w (handleNewSession clientSocket) (fun _ => Opens call w) (OpensOrHalts call w) := by
  by_cases hfree : w.idBufferHead = maxSessions
  · unfold handleNewSession
    refine meets_get ?_
    rw [if_pos hfree]
    exact meets_pure (.nothing (Reaches.refl call.worker (nextSlot w) w) rfl (List.forall_mem_nil _))
  cases hlock : (w.sessionBuffer (w.idBuffer w.idBufferHead)).actionLock with
  | true =>
    have halike : Alike w { w with idBufferHead := w.idBufferHead + 1, stuck := call.worker :: w.stuck } :=
      ⟨rfl, rfl, rfl, rfl, rfl⟩
    exact meets_of_none (handleNewSession_locked hfree hlock)
      (.inr (.nothing (halike.reaches call.worker (nextSlot w)) rfl (List.forall_mem_nil _)))
  | false =>
    rw [Meets, handleNewSession_unlocked hfree hlock]
    exact opens_startListening came hfree

theorem opens_listener (hb : Busy w call.worker) :
    Meets call w (listenerWorkerTask priority) (fun _ => Opens call w) (OpensOrHalts call w) := by
  have hagain : ∀ w', Opens call w w' → Meets call w'
      (tcThreadScheduleNext (some .listenerWorkerTask) none .server priority (-1)) (fun _ => Opens call w)
      (OpensOrHalts call w) := by
    intro w' hw'
    refine meets_self (nextSlot w) (meets_last (meets_scheduleNext (fun _ h => .inl h) (hw'.busy hb)
      fun pool hadds => meets_pure ?_))
    have hworld : { w' with threadPool := pool }.setSession (nextSlot w) (w'.sessionBuffer (nextSlot w)) =
        { w' with threadPool := pool } := by
      rw [World.setSession, Function.update_eq_self]
    rw [hworld]
    exact hw'.schedule hadds fun t ht => (mem_continuation ht).1
  unfold listenerWorkerTask
  refine meets_ask ?_
  split
  · rename_i came
    exact meets_bind (opens_handleNewSession came) fun _ w' hw' => hagain w' hw'
  · exact hagain w (.nothing (Reaches.refl call.worker (nextSlot w) w) rfl (List.forall_mem_nil _))

end

/-! ## Chains -/

/-- A task of the session in a slot, of one generation. -/
def mine (slot : Slot) (g : Int) (t : Context Func Arg) : Prop :=
  t.arg = some (.session slot) ∧ t.sessionGeneration = g

instance (slot : Slot) (g : Int) : DecidablePred (mine slot g) :=
  fun t => inferInstanceAs (Decidable (t.arg = some (.session slot) ∧ t.sessionGeneration = g))

/-- The tasks that are pending for a session. -/
def chain (w : World) (slot : Slot) (g : Int) : Tasks Func Arg := (pending w.threadPool).filter (mine slot g)

/-- A turn that was taken. -/
structure Taken where
  call : Call
  func : Func
  before : Session
  after : Session
  finalizes : Bool

/-- The turn that a step is for a session in a generation. -/
def turnOf (key : Slot × Int) (w : World) (l : Label) (w' : World) : List Taken :=
  match l with
  | .task call =>
    (w.threadPool.running? call.worker).elim [] fun (t, _) =>
      if mine key.1 key.2 t ∧ generation w key.1 = key.2 then
        t.func.elim [] fun f => [⟨call, f, w.sessionBuffer key.1, w'.sessionBuffer key.1, marks w' ≠ marks w⟩]
      else []
  | _ => []

/-- The turns of a session along a run. -/
def turns (slot : Slot) (g : Int) (w : World) (ls : List Label) : List Taken :=
  collect Impl.Server.step (turnOf (slot, g)) w ls

theorem accepted_mem_marks : .accepted slot g ∈ marks w ↔ .accepted slot g ∈ w.trace := by
  rw [marks, List.mem_filter]
  exact and_iff_left rfl

theorem chain_add (slot : Slot) (g : Int) (h : Sound w) (h' : Sound w')
    (ha : w'.threadPool.accepted = w.threadPool.accepted ++ tasks)
    (he : w'.threadPool.executed = w.threadPool.executed ++ done) :
    chain w' slot g + (done.filter (mine slot g) : Tasks Func Arg) =
      chain w slot g + (tasks.filter (mine slot g) : Tasks Func Arg) := by
  have hsum := congrArg (Multiset.filter (mine slot g)) (pending_add h.conserved h'.conserved ha he)
  rwa [Multiset.filter_add, Multiset.filter_add, Multiset.filter_coe, Multiset.filter_coe] at hsum

/-- Tasks that are not of this session do not matter to its chain. -/
theorem chain_eq (h : Sound w) (h' : Sound w')
    (ha : w'.threadPool.accepted = w.threadPool.accepted ++ tasks)
    (he : w'.threadPool.executed = w.threadPool.executed ++ done) (htasks : ∀ t ∈ tasks, ¬ mine slot g t)
    (hdone : ∀ t ∈ done, ¬ mine slot g t) : chain w' slot g = chain w slot g := by
  have hsum := chain_add slot g h h' ha he
  have htasks' : tasks.filter (mine slot g) = [] := by simpa [List.filter_eq_nil_iff] using htasks
  have hdone' : done.filter (mine slot g) = [] := by simpa [List.filter_eq_nil_iff] using hdone
  rw [htasks', hdone', Multiset.coe_nil, add_zero, add_zero] at hsum
  exact hsum

theorem mem_chain_of_running {worker c : Nat} (h : w.threadPool.running? worker = some (t, c))
    (ht : mine slot g t) : t ∈ chain w slot g :=
  Multiset.mem_filter.mpr ⟨mem_pending_of_running h, ht⟩

/-- A task that is pending for a session was scheduled for a reason. -/
theorem accepted_of_chain (h : Sound w) (ht : t ∈ chain w slot g) : .accepted slot g ∈ w.trace := by
  obtain ⟨hpending, harg, rfl⟩ := Multiset.mem_filter.mp ht
  have haccepted : t ∈ (w.threadPool.accepted : Tasks Func Arg) := by
    rw [h.conserved]
    exact Multiset.mem_add.mpr (.inl hpending)
  exact (h.due t (Multiset.mem_coe.mp haccepted) slot harg).1

/-! ## Steps -/

/-- What is left of a task on the pool once it is done. -/
structure Ran (w₁ w' : World) (done : List (Context Func Arg)) : Prop where
  sessionBuffer : w'.sessionBuffer = w₁.sessionBuffer
  trace : w'.trace = w₁.trace
  accepted : w'.threadPool.accepted = w₁.threadPool.accepted
  executed : w'.threadPool.executed = w₁.threadPool.executed ++ done

theorem ran_stopped (w : World) : Ran w w [] := ⟨rfl, rfl, rfl, (List.append_nil _).symm⟩

theorem ran_returned {w₁ : World} {fin : List Event} (hb : Busy w call.worker)
    (hrun : w.threadPool.running? call.worker = some (t, 0))
    (hreach : Reaches call.worker slot w w₁ fin tasks) :
    Ran w₁ ((w₁.poolStep (.taskReturns call.worker call.env.pick)).getD w₁) [t] := by
  obtain ⟨c', hrun₁⟩ := hreach.adds.running t 0 hrun
  obtain ⟨pool, hpool⟩ : ∃ pool, Impl.ThreadPool.step w₁.threadPool
      (.taskReturns call.worker call.env.pick) = some pool := (exists_step (hreach.busy hb).1 hrun₁).2 _
  have hexecuted : ∃ t' c, w₁.threadPool.running? call.worker = some (t', c) ∧
      pool.executed = w₁.threadPool.executed ++ [t'] := executed_step hpool
  obtain ⟨t', c, hrun', hexecuted⟩ := hexecuted
  obtain ⟨rfl, rfl⟩ := Prod.mk.inj (Option.some.inj (hrun₁.symm.trans hrun'))
  rw [World.poolStep, hpool]
  exact ⟨rfl, rfl, accepted_step hpool, hexecuted⟩

/-- How a worker's task that keeps to a specification has ended, unless the
process has halted. -/
theorem ran_of_meets {X Y : World → Prop} (hb : Busy w call.worker)
    (hrun : w.threadPool.running? call.worker = some (t, 0))
    (hX : ∀ w₁, X w₁ → ∃ slot fin tasks, Reaches call.worker slot w w₁ fin tasks)
    (hmeets : Meets call w (runTask t) (fun _ => X) fun w₁ => w₁.halted.isSome = true ∨ Y w₁)
    (h : w.runWorker call = some w') (hh : w'.halted = none) :
    ∃ w₁, w₁ = (runTask t call w).2 ∧ ∃ done, Ran w₁ w' done ∧ (∀ t' ∈ done, t' = t) ∧
      (X w₁ ∧ done = [t] ∨ Y w₁) := by
  obtain ⟨t', w₁, hrun', hended⟩ := runWorker_cases h
  obtain ⟨rfl, -⟩ := Prod.mk.inj (Option.some.inj (hrun.symm.trans hrun'))
  rcases hended with ⟨htask, rfl⟩ | ⟨htask, rfl⟩
  · rw [Meets, htask] at hmeets
    refine ⟨w', by rw [htask], [], ran_stopped w', List.forall_mem_nil _, .inr ((hmeets.2 rfl).resolve_left ?_)⟩
    rw [hh]
    decide
  · rw [Meets, htask] at hmeets
    have hx := hmeets.1 () rfl
    obtain ⟨slot, fin, tasks, hreach⟩ := hX w₁ hx
    exact ⟨w₁, by rw [htask], [t], ran_returned hb hrun hreach, fun t' ht' => List.mem_singleton.mp ht',
      .inl ⟨hx, rfl⟩⟩

/-- A task without the argument of its function halts the process. -/
theorem halts_of_arg (hb : Busy w call.worker) (hrun : w.threadPool.running? call.worker = some (t, 0))
    (harg : ∀ slot, t.arg ≠ some (.session slot))
    (hlistener : t.func = some .listenerWorkerTask → t.arg ≠ some .server) (h : w.runWorker call = some w')
    (hh : w'.halted = none) : False := by
  have hmeets : Meets call w (runTask t) (fun _ _ => False) fun w₁ => w₁.halted.isSome = true ∨ False := by
    unfold runTask
    dsimp only
    split
    case h_1 hfunc hserver => exact absurd hserver (hlistener hfunc)
    case h_12 => exact meets_halt fun _ h => .inl h
    -- all other tasks are those of a session
    all_goals
      rename_i slot _ hslot
      exact absurd hslot (harg slot)
  obtain ⟨_, -, _, -, -, hended⟩ := ran_of_meets hb hrun (fun _ hf => hf.elim) hmeets h hh
  exact hended.elim And.left id

/-! ## Sessions that are served -/

/-- A live session with the task that is pending for it, if there is one. -/
def Served (P : List Taken → Option Func → Session → Prop) (log : List Taken) (w : World) (slot : Slot) : Prop :=
  ∃ next tasks, P log next (w.sessionBuffer slot) ∧ Chained slot (generation w slot) next tasks ∧
    chain w slot (generation w slot) = (tasks : Tasks Func Arg) ∧
    (next ≠ none → (w.sessionBuffer slot).actionLock = false)

/-- A turn after which the session is still there. -/
structure Took (call : Call) (w : World) (slot : Slot) (f : Func) (fin : Bool) (next : Option Func)
    (s' : Session) : Prop where
  turn : Turn call w slot (w.sessionBuffer slot) f fin next s'
  stays : s'.currentGeneration = generation w slot
  free : (w.sessionBuffer slot).actionLock = false
  busy : Busy w call.worker
  ran : ∃ priority, (runTask ⟨priority, some f, some (.session slot), generation w slot⟩ call w).2.sessionBuffer
    slot = s'

/-- What holds of a new session, and is kept by each turn. -/
structure Lawful (G : World → Label → Prop) (P : List Taken → Option Func → Session → Prop) : Prop where
  opens : ∀ s clientSocket s', Same (newSession s clientSocket) s' → P [] (some .tcServerClientListenTask) s'
  deaf : ∀ w call s clientSocket s', G w (.task call) → call.env.accept.isSome = true →
    (Impl.ThreadPool.tcThreadScheduleNew w.threadPool (firstTask w) call.env.pick).1 = false →
    Same (newSession s clientSocket) s' → P [] none s'
  turn : ∀ w call slot log f fin next s', G w (.task call) → P log (some f) (w.sessionBuffer slot) →
    Took call w slot f fin next s' → P (log ++ [⟨call, f, w.sessionBuffer slot, s', fin⟩]) next s'

structure Serving (P : List Taken → Option Func → Session → Prop) (log : Slot × Int → List Taken) (w : World) :
    Prop where
  sound : Sound w
  slots : Slots w
  unborn : ∀ slot g, .accepted slot g ∉ w.trace → log (slot, g) = []
  served : w.halted = none → ∀ slot, Live w slot → Served P (log (slot, generation w slot)) w slot

/-- After a step, a session is served with its turns so far and the turn that
the step is for it. -/
abbrev Serves (P : List Taken → Option Func → Session → Prop) (log : Slot × Int → List Taken) (w : World) (l : Label)
    (w' : World) (slot : Slot) : Prop :=
  Served P (log (slot, generation w' slot) ++ turnOf (slot, generation w' slot) w l w') w' slot

section

variable {P : List Taken → Option Func → Session → Prop} {log : List Taken}

theorem Served.congr (h : Served P log w slot) (hs : w'.sessionBuffer slot = w.sessionBuffer slot)
    (hc : chain w' slot (generation w slot) = chain w slot (generation w slot)) : Served P log w' slot := by
  obtain ⟨next, tasks, hP, hchained, hchain, hlock⟩ := h
  have hg : generation w' slot = generation w slot := by rw [generation, hs, generation]
  refine ⟨next, tasks, ?_, ?_, ?_, ?_⟩
  · rwa [hs]
  · rwa [hg]
  · rw [hg, hc, hchain]
  · rwa [hs]

/-- The only task of a session, and what it is. -/
theorem Served.only {worker c : Nat} (h : Served P log w slot)
    (hrun : w.threadPool.running? worker = some (t, c)) (ht : mine slot (generation w slot) t) :
    ∃ f, t.func = some f ∧ P log (some f) (w.sessionBuffer slot) ∧
      chain w slot (generation w slot) = {t} ∧ (w.sessionBuffer slot).actionLock = false := by
  obtain ⟨next, tasks, hP, ⟨priority, htasks⟩, hchain, hlock⟩ := h
  have hmem := mem_chain_of_running hrun ht
  rw [hchain, Multiset.mem_coe] at hmem
  rcases next with _ | f
  · rw [htasks] at hmem
    cases hmem
  · rw [htasks] at hmem hchain
    obtain rfl := List.mem_singleton.mp hmem
    exact ⟨f, rfl, hP, hchain, hlock (by simp)⟩

end

/-- No turn of a session whose task does not run. -/
theorem turnOf_eq_nil {key : Slot × Int} {l : Label}
    (h : ∀ call t c, l = .task call → w.threadPool.running? call.worker = some (t, c) → mine key.1 key.2 t →
      generation w key.1 ≠ key.2) : turnOf key w l w' = [] := by
  cases l with
  | task call =>
    rw [turnOf]
    rcases hrun : w.threadPool.running? call.worker with _ | ⟨t, c⟩
    · rfl
    · exact if_neg fun hmine => h call t c rfl hrun hmine.1 hmine.2
  | _ => rfl

theorem step_keeps {l : Label} (hw : Sound w) (hslots : Slots w) (h : Impl.Server.step w l = some w') :
    Sound w' ∧ Slots w' ∧ w.trace ⊆ w'.trace := by
  refine inv_of_moves (I := fun w' => Sound w' ∧ Slots w' ∧ w.trace ⊆ w'.trace) (fun w₁ w₂ he h => ?_)
    (step_effects hw h) ⟨hw, hslots, List.Subset.refl _⟩
  exact ⟨h.1.effect he, h.2.1.effect he, List.Subset.trans h.2.2 (trace_subset he)⟩

theorem running_of_halted {l : Label} (h : Impl.Server.step w l = some w') : w.halted = none := by
  unfold Impl.Server.step at h
  split at h
  · cases h
  · rename_i hh
    simpa using hh

section

variable {P : List Taken → Option Func → Session → Prop} {log : Slot × Int → List Taken} {l : Label}

theorem Serving.unborn_step (hw : Serving P log w) (hsub : w.trace ⊆ w'.trace)
    (hg : .accepted slot g ∉ w'.trace) : log (slot, g) ++ turnOf (slot, g) w l w' = [] := by
  have hold : .accepted slot g ∉ w.trace := fun h => hg (hsub h)
  rw [hw.unborn slot g hold, List.nil_append]
  refine turnOf_eq_nil fun call t c _ hrun hmine => ?_
  exact absurd (accepted_of_chain hw.sound (mem_chain_of_running hrun hmine)) hold

/-- A session that a step does not concern. -/
theorem Serving.other (hw : Serving P log w) (hh : w.halted = none)
    (hs : w'.sessionBuffer slot = w.sessionBuffer slot)
    (ht : .accepted slot (generation w slot) ∈ w'.trace → .accepted slot (generation w slot) ∈ w.trace)
    (hc : chain w' slot (generation w slot) = chain w slot (generation w slot))
    (hturn : turnOf (slot, generation w slot) w l w' = []) (hlive : Live w' slot) :
    Serves P log w l w' slot := by
  have hg : generation w' slot = generation w slot := by rw [generation, hs, generation]
  rw [Live, hg] at hlive
  rw [Serves, hg, hturn, List.append_nil]
  exact (hw.served hh slot (ht hlive)).congr hs hc

/-- A step of the thread pool alone. -/
theorem Serving.poolStep (hw : Serving P log w) (hw' : Sound w') (hh : w.halted = none)
    {e : Impl.ThreadPool.Event Func Arg} (h : w.poolStep e = some w')
    (ha : ∀ pool, Impl.ThreadPool.step w.threadPool e = some pool →
      pool.accepted = w.threadPool.accepted ∧ pool.executed = w.threadPool.executed)
    (hl : ∀ call, l ≠ .task call) (slot : Slot) (hlive : Live w' slot) :
    Serves P log w l w' slot := by
  obtain ⟨pool, hpool, rfl⟩ := Option.map_eq_some_iff.mp h
  obtain ⟨haccepted, hexecuted⟩ := ha pool hpool
  refine hw.other hh rfl id ?_ (turnOf_eq_nil fun call _ _ hcall => absurd hcall (hl call)) hlive
  rw [← List.append_nil w.threadPool.accepted] at haccepted
  rw [← List.append_nil w.threadPool.executed] at hexecuted
  exact chain_eq hw.sound hw' haccepted hexecuted (List.forall_mem_nil _) (List.forall_mem_nil _)

section

variable {w₁ : World} {fin : List Event} (hw : Serving P log w) (hw' : Sound w') (hh : w.halted = none)
  (hrun : w.threadPool.running? call.worker = some (t, 0)) (hreach : Reaches call.worker slot w w₁ fin tasks)
  (hran : Ran w₁ w' done)

include hreach hran

theorem accepted_ran : w'.threadPool.accepted = w.threadPool.accepted ++ tasks := by
  rw [hran.accepted, hreach.adds.accepted]

theorem executed_ran : w'.threadPool.executed = w.threadPool.executed ++ done := by
  rw [hran.executed, hreach.adds.executed]

theorem accepted_mem_ran :
    .accepted slot' g ∈ w'.trace ↔ .accepted slot' g ∈ w.trace ∨ .accepted slot' g ∈ fin := by
  rw [hran.trace, ← accepted_mem_marks, hreach.marks, List.mem_append, accepted_mem_marks]

include hw hw' hh hrun

/-- A session that the task of a worker is not about. -/
theorem Serving.apart (hdone : ∀ t' ∈ done, t' = t) (hs : w₁.sessionBuffer slot' = w.sessionBuffer slot')
    (hfin : .accepted slot' (generation w slot') ∉ fin)
    (htasks : ∀ t' ∈ tasks, ¬ mine slot' (generation w slot') t') (ht : ¬ mine slot' (generation w slot') t)
    (hlive : Live w' slot') : Serves P log w (.task call) w' slot' := by
  refine hw.other hh ?_ (fun h => ?_) ?_ (turnOf_eq_nil fun call' t' c hcall hrun' hmine => ?_) hlive
  · rw [hran.sessionBuffer, hs]
  · exact ((accepted_mem_ran hreach hran).mp h).resolve_right hfin
  · refine chain_eq hw.sound hw' (accepted_ran hreach hran) (executed_ran hreach hran) htasks fun t' ht' => ?_
    rwa [hdone t' ht']
  · obtain rfl : call = call' := by
      cases hcall
      rfl
    obtain ⟨rfl, rfl⟩ := Prod.mk.inj (Option.some.inj (hrun.symm.trans hrun'))
    exact absurd hmine ht

end

theorem Chained.mine {next : Option Func} (h : Chained slot g next tasks) (ht : t ∈ tasks) :
    mine slot g t := by
  obtain ⟨priority, rfl⟩ := h
  obtain ⟨f, -, rfl⟩ := Option.map_eq_some_iff.mp (Option.mem_toList.mp ht)
  exact ⟨rfl, rfl⟩

theorem not_mine_of_slot {g' : Int} (h : mine slot g t) (hne : slot' ≠ slot) : ¬ mine slot' g' t := by
  intro h'
  have harg := h'.1.symm.trans h.1
  simp only [Option.some.injEq, Arg.session.injEq] at harg
  exact hne harg

theorem not_accepted_finalized {fin : Bool} {g' : Int} : .accepted slot' g' ∉ finalized fin slot g := by
  rw [finalized]
  split
  · simp
  · simp

/-- A client in the next slot, with the tasks that were scheduled for it. -/
theorem Serving.new {w₁ : World} {next : Option Func} (hw : Serving P log w) (hw' : Sound w')
    (hunborn : ¬ Live w (nextSlot w)) (harg : t.arg = some .server)
    (hreach : Reaches call.worker (nextSlot w) w w₁ [.accepted (nextSlot w) (generation w (nextSlot w))] tasks)
    (hran : Ran w₁ w' done) (hdone : ∀ t' ∈ done, t' = t)
    (hg : generation w₁ (nextSlot w) = generation w (nextSlot w))
    (hP : P [] next (w₁.sessionBuffer (nextSlot w)))
    (hchained : Chained (nextSlot w) (generation w (nextSlot w)) next
      (tasks.filter (mine (nextSlot w) (generation w (nextSlot w)))))
    (hlock : next ≠ none → (w₁.sessionBuffer (nextSlot w)).actionLock = false) :
    Serves P log w (.task call) w' (nextSlot w) := by
  have hsession : w'.sessionBuffer (nextSlot w) = w₁.sessionBuffer (nextSlot w) := by rw [hran.sessionBuffer]
  have hgen : generation w' (nextSlot w) = generation w (nextSlot w) := by
    rw [generation, hsession]
    exact hg
  have hnone : ∀ t', t' ∉ chain w (nextSlot w) (generation w (nextSlot w)) :=
    fun t' ht' => hunborn (accepted_of_chain hw.sound ht')
  have hturn : turnOf (nextSlot w, generation w (nextSlot w)) w (.task call) w' = [] :=
    turnOf_eq_nil fun call' t' c _ hrun' hmine => absurd (mem_chain_of_running hrun' hmine) (hnone t')
  have hsum := chain_add (nextSlot w) (generation w (nextSlot w)) hw.sound hw'
    (accepted_ran hreach hran) (executed_ran hreach hran)
  have hdone' : done.filter (mine (nextSlot w) (generation w (nextSlot w))) = [] := by
    rw [List.filter_eq_nil_iff]
    intro t' ht' hmine
    have harg' := (of_decide_eq_true hmine).1
    rw [hdone t' ht', harg] at harg'
    cases harg'
  rw [hdone', Multiset.eq_zero_of_forall_notMem hnone, Multiset.coe_nil, add_zero, zero_add] at hsum
  rw [Serves, hgen, hw.unborn _ _ hunborn, hturn]
  refine ⟨next, tasks.filter (mine (nextSlot w) (generation w (nextSlot w))), ?_, ?_, ?_, ?_⟩
  · rw [hsession]
    exact hP
  · rw [hgen]
    exact hchained
  · rw [hgen]
    exact hsum
  · rw [hsession]
    exact hlock

section

variable (hw : Serving P log w) (hw' : Sound w') (hh : w.halted = none) (hb : Busy w call.worker)
  (hrun : w.threadPool.running? call.worker = some (t, 0)) (h : w.runWorker call = some w') (hh' : w'.halted = none)

include hw hw' hh hb hrun h hh'

/-- A task that comes too late. -/
theorem Serving.late (harg : t.arg = some (.session slot)) (hg : generation w slot ≠ t.sessionGeneration)
    (slot' : Slot) (hlive : Live w' slot') :
    Serves P log w (.task call) w' slot' := by
  obtain ⟨w₁, -, done, hran, hdone, hended⟩ := ran_of_meets hb hrun
    (fun w₁ hw₁ => ⟨slot, [], hw₁.2.imp fun _ h => h.1⟩) (idles_task hb harg hg) h hh'
  obtain ⟨hsessions, tasks, hreach, htasks⟩ := hended.elim And.left id
  have hmine : ∀ t' : Context Func Arg, t'.arg = some (.session slot) →
      t'.sessionGeneration = t.sessionGeneration → ¬ mine slot' (generation w slot') t' := by
    intro t' harg' hg' hmine
    obtain rfl : slot' = slot := by
      have := hmine.1.symm.trans harg'
      simpa using this
    exact hg (hmine.2.symm.trans hg')
  exact hw.apart hw' hh hrun hreach hran hdone (by rw [hsessions]) List.not_mem_nil
    (fun t' ht' => hmine t' (htasks t' ht').1 (htasks t' ht').2) (hmine t harg rfl) hlive

/-- The task of a session takes its turn. -/
theorem Serving.turn (hlaw : Lawful G P) (hG : G w (.task call))
    (hpast : ∀ g, .accepted slot g ∈ w.trace → g ≤ generation w slot)
    (hmine : mine slot (generation w slot) t) (slot' : Slot) (hlive : Live w' slot') :
    Serves P log w (.task call) w' slot' := by
  have haccepted : Live w slot := accepted_of_chain hw.sound (mem_chain_of_running hrun hmine)
  obtain ⟨f, hfunc, hP, hchain, hfree⟩ := (hw.served hh slot haccepted).only hrun hmine
  obtain ⟨w₁, hresult, done, hran, hdone, hended⟩ := ran_of_meets hb hrun
    (fun w₁ ⟨_, _, tasks, _, _, hreach, _⟩ => ⟨slot, _, tasks, hreach⟩)
    (ends_task hb hfree hfunc hmine.1 hmine.2) h hh'
  obtain ⟨hends, hstays⟩ : Ends call slot w f w₁ ∧ (generation w₁ slot = generation w slot → done = [t]) := by
    rcases hended with ⟨hends, hreturned⟩ | ⟨hends, hgone⟩
    · exact ⟨hends, fun _ => hreturned⟩
    · exact ⟨hends, fun hsame => by omega⟩
  obtain ⟨fin, next, tasks, hturn, hchained, hreach, hlock⟩ := hends
  by_cases hslot : slot' = slot
  · subst hslot
    have hsession : w'.sessionBuffer slot' = w₁.sessionBuffer slot' := by rw [hran.sessionBuffer]
    have hgen : generation w' slot' = generation w₁ slot' := by rw [generation, hsession, generation]
    have hold : .accepted slot' (generation w₁ slot') ∈ w.trace := by
      rw [Live, hgen, accepted_mem_ran hreach hran] at hlive
      exact hlive.resolve_right not_accepted_finalized
    have hsame : generation w₁ slot' = generation w slot' := by
      have hle := hpast _ hold
      rcases hturn.generation with hg | hg
      · exact hg
      · have hg' : generation w₁ slot' = generation w slot' + 1 := hg
        omega
    have htook : Took call w slot' f fin next (w₁.sessionBuffer slot') := by
      refine ⟨hturn, hsame, hfree, hb, t.priority, ?_⟩
      rw [hresult, ← hfunc, ← hmine.1, ← hmine.2]
    have hmarks : (decide (marks w' ≠ marks w)) = fin := by
      have hm : marks w' = marks w ++ finalized fin slot' (generation w slot') := by
        rw [marks, hran.trace]
        exact hreach.marks
      rw [hm, finalized]
      rcases fin with _ | _
      · simp
      · simp
    have hrecord : turnOf (slot', generation w slot') w (.task call) w' =
        [⟨call, f, w.sessionBuffer slot', w₁.sessionBuffer slot', fin⟩] := by
      rw [turnOf, hrun]
      show (if mine slot' (generation w slot') t ∧ generation w slot' = generation w slot' then _ else _) = _
      rw [if_pos ⟨hmine, rfl⟩, hfunc, hsession]
      show [_] = [_]
      rw [hmarks]
    have hsum := chain_add slot' (generation w slot') hw.sound hw' (accepted_ran hreach hran)
      (executed_ran hreach hran)
    have htasks : tasks.filter (mine slot' (generation w slot')) = tasks := by
      rw [List.filter_eq_self]
      exact fun t' ht' => decide_eq_true (hchained.mine ht')
    have hdone' : [t].filter (mine slot' (generation w slot')) = [t] := by
      rw [List.filter_eq_self]
      exact fun t' ht' => decide_eq_true (List.mem_singleton.mp ht' ▸ hmine)
    rw [hstays hsame, hdone', htasks, hchain, Multiset.coe_singleton, add_comm] at hsum
    rw [Serves, hgen, hsame, hrecord]
    refine ⟨next, tasks, ?_, ?_, ?_, fun _ => ?_⟩
    · rw [hsession]
      exact hlaw.turn w call slot' _ f fin next _ hG hP htook
    · rw [hgen, hsame]
      exact hchained
    · rw [hgen, hsame]
      exact add_left_cancel hsum
    · rw [hsession]
      exact hlock hsame
  · exact hw.apart hw' hh hrun hreach hran hdone (hreach.others slot' hslot) not_accepted_finalized
      (fun t' ht' => not_mine_of_slot (hchained.mine ht') hslot) (not_mine_of_slot hmine hslot) hlive

theorem Serving.client (hlaw : Lawful G P) (hG : G w (.task call))
    (hfunc : t.func = some .listenerWorkerTask) (harg : t.arg = some .server) (slot' : Slot)
    (hlive : Live w' slot') : Serves P log w (.task call) w' slot' := by
  have hmeets : Meets call w (runTask t) (fun _ => Opens call w) (OpensOrHalts call w) := by
    rw [runTask, hfunc, harg]
    exact opens_listener hb
  obtain ⟨w₁, -, done, hran, hdone, hended⟩ := ran_of_meets hb hrun (fun w₁ hw₁ => hw₁.reaches) hmeets h hh'
  have hserver : ∀ t' : Context Func Arg, t'.arg = some .server → ∀ slot g, ¬ mine slot g t' := by
    intro t' harg' slot g hmine
    have := hmine.1.symm.trans harg'
    cases this
  have hfilter : ∀ tasks g slot, Elsewhere tasks → tasks.filter (mine slot g) = [] := by
    intro tasks g slot helse
    rw [List.filter_eq_nil_iff]
    exact fun t' ht' hmine => hserver t' (helse t' ht') slot g (of_decide_eq_true hmine)
  have hother : ∀ tasks, slot' ≠ nextSlot w →
      Reaches call.worker (nextSlot w) w w₁ [.accepted (nextSlot w) (generation w (nextSlot w))] tasks →
      (∀ t' ∈ tasks, ¬ mine slot' (generation w slot') t') →
      Serves P log w (.task call) w' slot' := by
    intro tasks hne hreach htasks
    refine hw.apart hw' hh hrun hreach hran hdone (hreach.others slot' hne) ?_ htasks (hserver t harg _ _) hlive
    simp [hne]
  cases hended.elim And.left id with
  | nothing reach same elsewhere =>
    exact hw.apart hw' hh hrun reach hran hdone (by rw [same]) List.not_mem_nil
      (fun t' ht' => hserver t' (elsewhere t' ht') _ _) (hserver t harg _ _) hlive
  | opened free reach elsewhere same hgen lock =>
    by_cases hslot : slot' = nextSlot w
    · subst hslot
      refine hw.new hw' (hw.slots.not_live_nextSlot free) harg reach hran hdone hgen
        (hlaw.opens _ _ _ same) ⟨.low, ?_⟩ fun _ => lock
      have hfirst : mine (nextSlot w) (generation w (nextSlot w)) (firstTask w) := ⟨rfl, rfl⟩
      rw [List.filter_cons_of_pos (by simpa using hfirst), hfilter _ _ _ elsewhere]
      rfl
    · refine hother _ hslot reach fun t' ht' => ?_
      rcases List.mem_cons.mp ht' with rfl | ht'
      · have hfirst : mine (nextSlot w) (generation w (nextSlot w)) (firstTask w) := ⟨rfl, rfl⟩
        exact not_mine_of_slot hfirst hslot
      · exact hserver t' (elsewhere t' ht') _ _
  | refused free reach elsewhere later =>
    by_cases hslot : slot' = nextSlot w
    · subst hslot
      have hgen : generation w' (nextSlot w) = generation w (nextSlot w) + 1 := by
        rw [generation, hran.sessionBuffer]
        exact later
      rw [Live, hgen, accepted_mem_ran reach hran] at hlive
      rcases hlive with hlive | hlive
      · have := hw.slots.past _ _ hlive
        omega
      · simp at hlive
    · exact hother _ hslot reach fun t' ht' => hserver t' (elsewhere t' ht') _ _
  | deaf free reach elsewhere came failed same hgen =>
    by_cases hslot : slot' = nextSlot w
    · subst hslot
      refine hw.new hw' (hw.slots.not_live_nextSlot free) harg reach hran hdone hgen
        (hlaw.deaf w call _ _ _ hG came failed same) ?_ fun hnone => absurd rfl hnone
      rw [hfilter _ _ _ elsewhere]
      exact chained_none ..
    · exact hother _ hslot reach fun t' ht' => hserver t' (elsewhere t' ht') _ _

end

theorem Serving.step (hlaw : Lawful G P) (hw : Serving P log w) (hG : G w l)
    (h : Impl.Server.step w l = some w') : Serving P (fun key => log key ++ turnOf key w l w') w' := by
  obtain ⟨hw', hslots', hsub⟩ := step_keeps hw.sound hw.slots h
  have hh := running_of_halted h
  refine ⟨hw', hslots', fun slot g hg => hw.unborn_step hsub hg, fun hh' slot' hlive => ?_⟩
  unfold Impl.Server.step at h
  split at h
  · cases h
  cases l with
  | task call =>
    obtain ⟨t, -, hrun, -⟩ := runWorker_cases h
    have hb : Busy w call.worker := ⟨hw.sound.reserve.ok, t, 0, hrun⟩
    rcases harg : t.arg with _ | _ | slot
    · exact (halts_of_arg hb hrun (fun slot => by rw [harg]; simp) (fun _ => by rw [harg]; simp) h hh').elim
    · by_cases hfunc : t.func = some .listenerWorkerTask
      · exact hw.client hw' hh hb hrun h hh' hlaw hG hfunc harg slot' hlive
      · exact (halts_of_arg hb hrun (fun slot => by rw [harg]; simp) (fun hf => absurd hf hfunc) h hh').elim
    · by_cases hg : generation w slot = t.sessionGeneration
      · exact hw.turn hw' hh hb hrun h hh' hlaw hG (hw.slots.past slot) ⟨harg, hg.symm⟩ slot' hlive
      · exact hw.late hw' hh hb hrun h hh' harg hg slot' hlive
  | loop | wakeUp | stop =>
    refine hw.poolStep hw' hh h (fun pool hpool => ⟨accepted_step hpool, executed_step hpool⟩) (fun call hc => ?_)
      slot' hlive
    cases hc

end

/-! ## Runs -/

section

variable {config : Config} {numThreads maxBlockingThreads : Nat}
  {tasks : Priority → Nat → Context Func Arg} {sessions : Slot → Session}

/-- What holds of a new session and is kept by each turn holds of every live
session after every run, with its turns so far and the task that is pending
for it. -/
theorem serving_run {P : List Taken → Option Func → Session → Prop} (hlaw : Lawful G P) {ls : List Label}
    (hG : Along Impl.Server.step G (start config numThreads maxBlockingThreads tasks sessions) ls)
    (h : run Impl.Server.step (start config numThreads maxBlockingThreads tasks sessions) ls = some w)
    (hh : w.halted = none) (hlive : Live w slot) :
    Served P (turns slot (generation w slot) (start config numThreads maxBlockingThreads tasks sessions) ls) w
      slot := by
  have hstart : Serving P (fun _ => []) (start config numThreads maxBlockingThreads tasks sessions) :=
    ⟨sound_start, slots_start, fun _ _ _ => rfl, fun _ slot hlive => by cases hlive⟩
  have hw := run_collect turnOf (fun log w l w' hG hw h => hw.step hlaw hG h) hG hstart h
  exact hw.served hh slot hlive

end

end TC.Proof.Server
