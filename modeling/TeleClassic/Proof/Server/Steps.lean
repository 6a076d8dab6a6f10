import TeleClassic.Proof.Server.Handler
import TeleClassic.Proof.ThreadPool.Conservation

/-!
# The steps of the server

The listening tasks, and with them every task of the server: each step is a
sequence of effects (`step_effects`), so that what every effect keeps holds
after every run (`run_inv_of_effect`).
-/

namespace TC.Proof.Server

open TC.Impl.Server TC.Impl.ThreadPool TC.Proof.ThreadPool Prog

variable {w w' : World} {call : Call}

section

variable {slot : Slot} {g : Int} {priority : Priority}

/-! ## Listening -/

theorem does_listenAgain (hr : Ready w call.worker priority) (ha : .accepted slot g ∈ w.trace) :
    Acts call w (listenAgain slot priority g) := by
  unfold listenAgain
  refine does_bind (does_scheduleNext hr fun f hf => ?_) fun _ _ _ => does_unlock.acts
  rcases hf with hf | hf <;> cases hf <;> exact due_session ha trivial

theorem does_pingClient (hl : Live w slot) : Does Effect call w (pingClient slot) fun there w' =>
    there = true → Touched slot w w' := by
  unfold pingClient
  apply does_ask
  split
  · refine does_bind (does_send rfl) fun sent w₁ h₁ => ?_
    split
    · exact does_pure fun _ => h₁
    · refine does_bind (does_disconnect (h₁.live hl)) fun _ _ _ => does_bind does_unlock fun _ _ _ => does_pure ?_
      intro h
      cases h
  · exact does_pure fun _ => Touched.refl slot w

theorem does_beginPacket {opcode : Byte} (hr : Ready w call.worker priority) (ho : Owns w slot g) :
    Acts call w (beginPacket slot priority g opcode) := by
  unfold beginPacket
  refine does_bind (does_touch ⟨rfl, rfl, rfl, rfl⟩) fun _ w₁ h₁ => ?_
  split
  · exact does_kickHandler (h₁.owns ho)
  split
  · exact does_kickHandler (h₁.owns ho)
  apply does_session
  apply does_ask
  dsimp only
  generalize (if call.env.packetBuffer = true then _ else _ : Option (List Byte)) = packetBuffer
  refine does_bind (does_touch ⟨rfl, rfl, rfl, rfl⟩) fun _ w₂ h₂ => ?_
  have h := h₁.trans h₂
  split
  · exact does_kickHandler (h.owns ho)
  · exact does_listenAgain (h.ready hr) (h.owns ho).2

theorem does_receiveOpcode (hr : Ready w call.worker priority) (ho : Owns w slot g) :
    Acts call w (receiveOpcode slot priority g) := by
  unfold receiveOpcode
  apply does_ask
  split
  · exact does_kickHandler ho
  · exact does_beginPacket hr ho
  · exact does_listenAgain hr ho.2
  · exact does_kickHandler ho

/-- What a dispatch leaves behind is what its handler is scheduled for. -/
theorem cause_dispatched {trace : List Event} {f : Func} {b : Bool} {opcode : Int}
    (hf : tcPacketHandlers opcode = some f) (h : .dispatched slot g f b ∈ trace) : Cause trace slot g f := by
  unfold tcPacketHandlers at hf
  split at hf
  · cases hf; exact ⟨b, h⟩
  split at hf
  · cases hf; exact ⟨b, h⟩
  split at hf
  · cases hf; exact ⟨b, h⟩
  split at hf
  · cases hf; trivial
  split at hf
  · cases hf; trivial
  split at hf
  · cases hf; trivial
  · cases hf

theorem does_storePayload {bytes : List Byte} (hr : Ready w call.worker priority) (ho : Owns w slot g) :
    Acts call w (storePayload slot priority g bytes) := by
  unfold storePayload
  apply does_session
  dsimp only
  split
  · exact does_overrun
  split
  · refine does_bind (does_touch ⟨rfl, rfl, rfl, rfl⟩) fun _ w₁ h₁ => ?_
    have ho₁ := h₁.owns ho
    split
    · split
      · exact does_crash
      · rename_i handler hhandler
        refine does_bind (does_note (w := w₁) ⟨ho₁.1.symm, ho₁.live, h₁.same.cpe.symm⟩) fun _ w₂ h₂ => ?_
        subst h₂
        have ha₂ : .accepted slot g ∈ (w₁.emit (.dispatched slot g handler
            (w.sessionBuffer slot).supportsCpe)).trace := List.mem_append_left _ ho₁.2
        refine does_bind (does_scheduleNext (w := w₁.emit _) (h₁.ready hr) fun f hf => ?_) fun _ _ _ =>
          does_unlock.acts
        rcases hf with hf | hf
        · cases hf
          exact due_session ha₂ (cause_dispatched hhandler (List.mem_append_right _ List.mem_cons_self))
        · cases hf
          exact due_session ha₂ trivial
    · exact does_listenAgain (h₁.ready hr) ho₁.2
  · exact does_overrun

theorem does_receivePayload (hr : Ready w call.worker priority) (ho : Owns w slot g) :
    Acts call w (receivePayload slot priority g) := by
  unfold receivePayload
  apply does_session
  dsimp only
  apply does_ask
  split
  · split
    · exact does_kickHandler ho
    · exact does_storePayload hr ho
  · exact does_listenAgain hr ho.2
  · exact does_listenAgain hr ho.2

theorem does_listen (hr : Ready w call.worker priority) (ha : .accepted slot g ∈ w.trace) :
    Acts call w (tcServerClientListenTask slot priority g) := by
  unfold tcServerClientListenTask
  refine does_withLock ha fun w₁ h₁ ho₁ => ?_
  refine does_bind (does_pingClient ho₁.live) fun there w₂ h₂ => ?_
  split
  · rename_i hthere
    have ho₂ := (h₂ hthere).owns ho₁
    have hr₂ := (h₂ hthere).ready (h₁.ready hr)
    apply does_session
    split
    · exact does_receiveOpcode hr₂ ho₂
    · exact does_receivePayload hr₂ ho₂
  · exact does_pure trivial

/-! ## New clients -/

/-- A task that has not yielded still has not. -/
def KeepsReady (w w' : World) : Prop := ∀ worker p, Ready w worker p → Ready w' worker p

theorem does_startListening (ho : Owns w slot g) :
    Does Effect call w (startListening slot g) fun _ w' => KeepsReady w w' := by
  unfold startListening
  apply does_ask
  split
  · refine does_bind (does_scheduleNew (due_session ho.2 trivial)) fun scheduled w₁ ⟨h₁, hr₁⟩ => ?_
    split
    · exact does_unlock.mono fun _ w₂ h₂ worker p hr => h₂.ready (hr₁ worker p hr)
    · refine does_bind (does_kickSession_locking (h₁.owns ho).2) fun _ w₂ h₂ => ?_
      exact does_unlock.mono fun _ w₃ h₃ worker p hr => h₃.ready (h₂.ready (hr₁ worker p hr))
  · exact (does_kickAndRelease ho.live).mono fun _ w₁ h₁ worker p hr => h₁.ready hr

/-- A session with its lock held. -/
def locked (s : Session) : Session := { s with actionLock := true }

/-- The session of a new client, with its lock held. -/
def accepted (w : World) (clientSocket : Stream) : World :=
  let slot := w.idBuffer w.idBufferHead
  ({ w with idBufferHead := w.idBufferHead + 1 }.setSession slot
    (newSession (locked (w.sessionBuffer slot)) clientSocket)).emit (.accepted slot (generation w slot))

theorem lock_unlocked (h : (w.sessionBuffer slot).actionLock = false) :
    pMutexLock slot call w = (some (), w.setSession slot (locked (w.sessionBuffer slot))) := by
  show (if (w.sessionBuffer slot).actionLock = true then _ else _ : TaskM Unit) call w = _
  rw [h]
  rfl

theorem lock_locked (h : (w.sessionBuffer slot).actionLock = true) :
    pMutexLock slot call w = (none, { w with stuck := call.worker :: w.stuck }) := by
  show (if (w.sessionBuffer slot).actionLock = true then _ else _ : TaskM Unit) call w = _
  rw [h]
  rfl

theorem aquire_unlocked (h : (w.sessionBuffer slot).actionLock = false) :
    tcSessionAquireActionLock slot (generation w slot) call w =
      (some true, w.setSession slot (locked (w.sessionBuffer slot))) := by
  have hg : ((w.setSession slot (locked (w.sessionBuffer slot))).sessionBuffer slot).currentGeneration =
      generation w slot := by
    rw [sessionBuffer_setSession]
    rfl
  rw [tcSessionAquireActionLock, bind_of_some (lock_unlocked h)]
  show (if _ ≠ generation w slot then _ else _ : TaskM Bool) call _ = _
  rw [if_neg (not_not.mpr hg)]
  rfl

section

variable {clientSocket : Stream} (hfree : w.idBufferHead ≠ maxSessions)

include hfree

/-- The id of a slot is taken, and the session in it opened. -/
theorem handleNewSession_unlocked (h : (w.sessionBuffer (w.idBuffer w.idBufferHead)).actionLock = false) :
    handleNewSession clientSocket call w =
      startListening (w.idBuffer w.idBufferHead) (generation w (w.idBuffer w.idBufferHead)) call
        (accepted w clientSocket) := by
  show (if w.idBufferHead = maxSessions then _ else _ : TaskM Unit) call w = _
  rw [if_neg hfree]
  refine (bind_of_some (aquire_unlocked (w := { w with idBufferHead := w.idBufferHead + 1 }) h)).trans ?_
  refine congrArg (startListening _ _ call) ?_
  show (World.setSession (World.setSession _ _ _) _ (newSession ((World.setSession _ _ _).sessionBuffer _)
    clientSocket)).emit _ = _
  rw [sessionBuffer_setSession, setSession_setSession]
  rfl

/-- The listener is stuck on a lock that was never released. -/
theorem handleNewSession_locked (h : (w.sessionBuffer (w.idBuffer w.idBufferHead)).actionLock = true) :
    handleNewSession clientSocket call w =
      (none, { w with idBufferHead := w.idBufferHead + 1, stuck := call.worker :: w.stuck }) := by
  show (if w.idBufferHead = maxSessions then _ else _ : TaskM Unit) call w = _
  rw [if_neg hfree]
  have hstuck : tcSessionAquireActionLock (w.idBuffer w.idBufferHead)
      (generation w (w.idBuffer w.idBufferHead)) call { w with idBufferHead := w.idBufferHead + 1 } =
        (none, { w with idBufferHead := w.idBufferHead + 1, stuck := call.worker :: w.stuck }) :=
    bind_of_none (lock_locked h)
  exact (bind_of_none hstuck).trans rfl

end

theorem does_handleNewSession {clientSocket : Stream} :
    Does Effect call w (handleNewSession clientSocket) fun _ w' => KeepsReady w w' := by
  by_cases hfree : w.idBufferHead = maxSessions
  · unfold handleNewSession
    apply does_get
    rw [if_pos hfree]
    exact does_pure fun _ _ hr => hr
  cases hlock : (w.sessionBuffer (w.idBuffer w.idBufferHead)).actionLock with
  | false =>
    -- the lock is taken first, so that the id and the session change together
    have hmoves : Effects w (accepted w clientSocket) := by
      refine (Relation.ReflTransGen.single (.touch (w.idBuffer w.idBufferHead)
        (locked (w.sessionBuffer _)) ⟨rfl, rfl, rfl, rfl⟩)).tail ?_
      have haccept := Effect.accept (w := w.setSession (w.idBuffer w.idBufferHead)
        (locked (w.sessionBuffer (w.idBuffer w.idBufferHead)))) clientSocket hfree
      convert haccept using 1
      simp only [accepted, generation, World.setSession, Function.update_idem, Function.update_self]
      rfl
    have ho : Owns (accepted w clientSocket) (w.idBuffer w.idBufferHead)
        (generation w (w.idBuffer w.idBufferHead)) := by
      refine ⟨?_, List.mem_append_right _ List.mem_cons_self⟩
      show ((World.setSession _ _ _).sessionBuffer _).currentGeneration = _
      rw [sessionBuffer_setSession]
      rfl
    refine Does.of_moves hmoves ((does_startListening ho).mono fun _ w' hw' worker p hr => ?_)
      (handleNewSession_unlocked hfree hlock)
    exact hw' worker p hr
  | true =>
    rw [Does, handleNewSession_locked hfree hlock]
    refine ⟨(Relation.ReflTransGen.single (.leak hfree)).tail (.stick call.worker), ?_⟩
    intro a ha
    cases ha

theorem does_listener (hr : Ready w call.worker priority) :
    Acts call w (listenerWorkerTask priority) := by
  have hnext : ∀ w', KeepsReady w w' → Acts call w'
      (tcThreadScheduleNext (some .listenerWorkerTask) none .server priority (-1)) := by
    intro w' hw'
    refine (does_scheduleNext (hw' _ _ hr) fun f hf slot hslot => ?_).acts
    cases hslot
  unfold listenerWorkerTask
  apply does_ask
  split
  · exact does_bind does_handleNewSession fun _ w' hw' => hnext w' hw'
  · exact hnext w fun _ _ h => h

/-! ## Steps -/

theorem does_task {t : Context Func Arg} (hr : Ready w call.worker t.priority) (hdue : Due w.trace t) :
    Acts call w (runTask t) := by
  unfold runTask
  dsimp only
  split
  · exact does_listener hr
  · rename_i slot hf harg
    exact does_listen hr (hdue slot harg).1
  · rename_i slot hf harg
    exact (does_kickSession_locking (hdue slot harg).1).acts
  · rename_i slot hf harg
    exact does_beginCpeNegotiation hr (hdue slot harg).1 ((hdue slot harg).2 _ hf)
  · rename_i slot hf harg
    exact does_extinfo hr (hdue slot harg).1 ((hdue slot harg).2 _ hf)
  · rename_i slot hf harg
    exact does_extentry hr (hdue slot harg).1 ((hdue slot harg).2 _ hf)
  · rename_i slot hf harg
    exact does_supportLevel hr (hdue slot harg).1 ((hdue slot harg).2 _ hf)
  · rename_i slot hf harg
    exact does_identification hr (hdue slot harg).1
  · rename_i slot hf harg
    exact does_setBlock hr (hdue slot harg).1
  · rename_i slot hf harg
    exact does_positionUpdate hr (hdue slot harg).1
  · rename_i slot hf harg
    exact does_joinableTask hr (hdue slot harg).1 ((hdue slot harg).2 _ hf)
  · exact does_crash

end

/-- The pool keeps its reserve and its tasks, and every task was scheduled for
a reason. -/
structure Sound (w : World) : Prop where
  reserve : Reserve w.threadPool
  conserved : Conserved w.threadPool
  due : ∀ t ∈ w.threadPool.accepted, Due w.trace t

theorem trace_subset (h : Effect w w') : w.trace ⊆ w'.trace := by
  cases h with
  | note | finish | join | disconnect | accept => exact List.subset_append_left ..
  | identify => exact List.Subset.trans (List.subset_append_left ..) (List.subset_append_left ..)
  | _ => exact List.Subset.refl _

theorem Due.mono {trace trace' : List Event} (h : trace ⊆ trace') {t : Context Func Arg}
    (ht : Due trace t) : Due trace' t := by
  intro slot hslot
  obtain ⟨ha, hc⟩ := ht slot hslot
  refine ⟨h ha, fun f hf => ?_⟩
  have := hc f hf
  cases f with
  | joinableTask | handleBeginCpeNegotiation => exact h this
  | handleCpeExtinfo | handleCpeExtentry | handleCpeCustomBlockSupportLevel => exact this.imp fun _ hb => h hb
  | _ => trivial

theorem Sound.effect (h : Effect w w') (hw : Sound w) : Sound w' := by
  have hdue : ∀ t ∈ w.threadPool.accepted, Due w'.trace t :=
    fun t ht => (hw.due t ht).mono (trace_subset h)
  cases h with
  | pool moves due =>
    refine ⟨inv_of_moves (I := Reserve) (fun _ _ => Reserve.move) moves hw.reserve,
      inv_of_moves (I := Conserved) (fun _ _ => Conserved.move) moves hw.conserved, fun t ht => ?_⟩
    rcases due t ht with ht | ht
    · exact hdue t ht
    · exact ht
  | _ => exact ⟨hw.reserve, hw.conserved, hdue⟩

/-- A step of the pool that accepts no task. -/
theorem poolStep_effects {e : Impl.ThreadPool.Event Func Arg} (h : w.poolStep e = some w')
    (hd : Disciplined w.threadPool e)
    (ha : ∀ pool, Impl.ThreadPool.step w.threadPool e = some pool → pool.accepted = w.threadPool.accepted) :
    Effects w w' := by
  obtain ⟨pool, hpool, rfl⟩ := Option.map_eq_some_iff.mp h
  refine .single (.pool (step_moves (fun _ => hd) hpool) fun t ht => ?_)
  rw [ha pool hpool] at ht
  exact .inl ht

theorem runTask_effects {task : Context Func Arg} (hw : Sound w)
    (hrun : w.threadPool.running? call.worker = some (task, 0)) : Effects w (runTask task call w).2 := by
  have hdue := hw.due task (hw.conserved.mem_accepted (running?_eq_some hrun))
  exact (does_task ⟨hw.reserve.ok, task, hrun, rfl⟩ hdue).1

/-- A task leaves the server sound, also when it stops. -/
theorem Sound.runTask {task : Context Func Arg} (hw : Sound w)
    (hrun : w.threadPool.running? call.worker = some (task, 0)) : Sound (runTask task call w).2 :=
  inv_of_moves (I := Sound) (fun _ _ he hs => hs.effect he) (runTask_effects hw hrun) hw

/-- What a worker does: its task stops, or it returns and the worker is done with it. -/
theorem runWorker_cases (h : w.runWorker call = some w') :
    ∃ task w₁, w.threadPool.running? call.worker = some (task, 0) ∧
      (runTask task call w = (none, w₁) ∧ w' = w₁ ∨
        runTask task call w = (some (), w₁) ∧
          w' = (w₁.poolStep (.taskReturns call.worker call.env.pick)).getD w₁) := by
  unfold World.runWorker at h
  split at h
  · rename_i task hrun
    split at h
    · cases h
    split at h
    · rename_i w₁ hret
      exact ⟨task, w₁, hrun, .inr ⟨hret, (Option.some.inj h).symm⟩⟩
    · rename_i w₁ hret
      exact ⟨task, w₁, hrun, .inl ⟨hret, (Option.some.inj h).symm⟩⟩
  · cases h

theorem runWorker_effects (hw : Sound w) (h : w.runWorker call = some w') : Effects w w' := by
  obtain ⟨task, w₁, hrun, hended⟩ := runWorker_cases h
  have hmoves := runTask_effects hw hrun
  rcases hended with ⟨hret, rfl⟩ | ⟨hret, rfl⟩
  · rw [hret] at hmoves
    exact hmoves
  · rw [hret] at hmoves
    cases hreturn : w₁.poolStep (.taskReturns call.worker call.env.pick) with
    | none => exact hmoves
    | some w₂ => exact hmoves.trans (poolStep_effects hreturn trivial fun _ hp => accepted_step hp)

theorem step_effects {l : Label} (hw : Sound w) (h : Impl.Server.step w l = some w') : Effects w w' := by
  unfold Impl.Server.step at h
  split at h
  · cases h
  cases l with
  | loop | wakeUp | stop => exact poolStep_effects h trivial fun _ hp => accepted_step hp
  | task call => exact runWorker_effects hw h

section

variable {config : Config} {numThreads maxBlockingThreads : Nat}
  {tasks : Priority → Nat → Context Func Arg} {sessions : Slot → Session}

theorem sound_start : Sound (start config numThreads maxBlockingThreads tasks sessions) := by
  have hmoves : Moves True _ _ := tcThreadScheduleNew_moves (newPool serverPattern numThreads
    maxBlockingThreads tasks) ⟨.high, some .listenerWorkerTask, some .server, -1⟩ 0
  refine ⟨inv_of_moves (I := Reserve) (fun _ _ => Reserve.move) hmoves (reserve_newPool ..),
    inv_of_moves (I := Conserved) (fun _ _ => Conserved.move) hmoves (conserved_newPool ..), fun t ht => ?_⟩
  rcases mem_accepted_scheduleNew ht with ht | rfl
  · cases ht
  · intro slot hslot
    cases hslot

/-- What every effect keeps holds after every run. -/
theorem run_inv_of_effect {I : World → Prop} (hI : ∀ w w', Effect w w' → Sound w → I w → I w')
    {ls : List Label} (hstart : I (start config numThreads maxBlockingThreads tasks sessions))
    (h : run Impl.Server.step (start config numThreads maxBlockingThreads tasks sessions) ls = some w) :
    Sound w ∧ I w := by
  have hstep : ∀ w l w', Sound w ∧ I w → Impl.Server.step w l = some w' → Sound w' ∧ I w' := by
    intro w l w' hw hl
    refine inv_of_moves (I := fun w => Sound w ∧ I w) (fun w w' he hw => ?_) (step_effects hw.1 hl) hw
    exact ⟨hw.1.effect he, hI w w' he hw.1 hw.2⟩
  exact run_inv hstep ⟨sound_start, hstart⟩ h

theorem sound_run {ls : List Label}
    (h : run Impl.Server.step (start config numThreads maxBlockingThreads tasks sessions) ls = some w) :
    Sound w :=
  (run_inv_of_effect (I := fun _ => True) (fun _ _ _ _ _ => trivial) trivial h).1

end

end TC.Proof.Server
