import TeleClassic.Proof.Server.Effects

/-!
# The functions on a session

One specification for each function that the tasks of the server are made of:
what it needs to be known where it is called, and that what it does are
effects.
-/

namespace TC.Proof.Server

open TC.Impl.Server TC.Impl.ThreadPool TC.Impl.Protocol TC.Proof.ThreadPool Prog

variable {call : Call} {w : World} {slot : Slot} {g : Int} {priority : Priority}
  {address msg : Option String} {aquireLock : Bool} {α : Type} {Q : α → World → Prop}

/-- What the program does are effects. -/
abbrev Acts {α : Type} (call : Call) (w : World) (p : TaskM α) : Prop := Does Effect call w p fun _ _ => True

/-! ## Sessions -/

theorem does_session {f : Session → TaskM α} (h : Does Effect call w (f (w.sessionBuffer slot)) Q) :
    Does Effect call w (session slot >>= f) Q := h

theorem does_touch {f : Session → Session} (hf : SameIdentity (w.sessionBuffer slot) (f (w.sessionBuffer slot))) :
    Does Effect call w (modifySession slot f) fun _ w' => Touched slot w w' :=
  does_modify (.touch slot _ hf) ⟨_, hf, rfl⟩

theorem does_halt {failure : Failure} (h : Effect w { w with halted := some failure }) :
    Does Effect call w (halt failure) Q :=
  does_bind (does_modify h trivial) (Q := fun _ _ => True) fun _ _ _ => does_stop

theorem does_crash : Does Effect call w (halt .badAccess) Q :=
  does_halt (.crash _ nofun)

theorem does_overrun : Does Effect call w (halt .outOfBuffer) Q :=
  does_halt (.crash _ nofun)

theorem does_note {e : Event} (h : Noted w e) : Does Effect call w (emit e) fun _ w' => w' = w.emit e :=
  does_modify (.note e h) rfl

theorem does_unlock : Does Effect call w (tcSessionReleaseActionLock slot) fun _ w' => Touched slot w w' :=
  does_touch ⟨rfl, rfl, rfl, rfl⟩

theorem does_lock : Does Effect call w (pMutexLock slot) fun _ w' => Touched slot w w' := by
  unfold pMutexLock
  apply does_session
  split
  · exact does_ask (does_bind (does_modify (.stick call.worker) trivial) (Q := fun _ _ => True)
      fun _ _ _ => does_stop)
  · exact does_touch ⟨rfl, rfl, rfl, rfl⟩

theorem does_aquire : Does Effect call w (tcSessionAquireActionLock slot g) fun aquired w' =>
    Touched slot w w' ∧ (aquired = true → generation w' slot = g) := by
  unfold tcSessionAquireActionLock
  refine does_bind does_lock fun _ w₁ h₁ => ?_
  apply does_session
  split
  · refine does_bind does_unlock fun _ w₂ h₂ => does_pure ⟨h₁.trans h₂, ?_⟩
    intro h
    cases h
  · rename_i hg
    exact does_pure ⟨h₁, fun _ => not_not.mp hg⟩

/-- A packet whose function asserts nothing, or nothing that fails. -/
theorem does_send {packet : Packet} (hp : packet.asserts = true) :
    Does Effect call w (send slot packet) fun _ w' => Touched slot w w' := by
  unfold send
  apply does_session
  rw [Packet.send, if_pos hp]
  exact does_bind (does_touch ⟨rfl, rfl, rfl, rfl⟩) fun _ _ h => does_pure h

/-! ## Scheduling -/

/-- A task that has not yielded calls `tc_thread_schedule_next` with its own
priority. -/
theorem does_scheduleNext {nextTask shutdownTask : Option Func} {arg : Arg}
    (hr : Ready w call.worker priority)
    (hdue : ∀ f, nextTask = some f ∨ shutdownTask = some f → Due w.trace ⟨priority, some f, some arg, g⟩) :
    Does Effect call w (tcThreadScheduleNext nextTask shutdownTask arg priority g)
      fun _ w' => Scheduled w w' := by
  obtain ⟨hok, t, hrun, hp⟩ := hr
  obtain ⟨pool, hpool⟩ : ∃ pool, Impl.ThreadPool.step w.threadPool (.scheduleNext call.worker nextTask
      shutdownTask (some arg) priority g call.env.pick) = some pool := (exists_step hok hrun).1 ..
  have hmoves : Moves True w.threadPool pool := by
    refine step_moves (fun _ => ?_) hpool
    intro t' c hat
    have := (running?_eq_some hrun).symm.trans hat
    simp only [Option.some.injEq, Worker.running.injEq] at this
    obtain ⟨rfl, rfl⟩ := this
    exact ⟨rfl, hp.symm⟩
  have hnew : ∀ t ∈ pool.accepted, t ∈ w.threadPool.accepted ∨ Due w.trace t := by
    intro t ht
    rcases mem_accepted_scheduleNext hpool ht with ht | ⟨f, hf, rfl⟩
    · exact .inl ht
    · exact .inr (hdue f hf)
  unfold Impl.Server.tcThreadScheduleNext
  apply does_ask
  refine does_bind (does_modify (s := w) (Q := fun _ w' => w' = { w with threadPool := pool })
    ?_ ?_) fun _ w' hw' => ?_
  · rw [hpool]
    exact .pool hmoves hnew
  · rw [hpool]
    rfl
  · subst hw'
    apply does_get
    unfold tcAssert
    split
    · exact does_pure ⟨rfl, rfl⟩
    · rename_i hfail
      exact does_halt (.poolFails (by simpa using hfail))

theorem running?_scheduleNew {s : System Func Arg} {i c : Nat} {t : Context Func Arg}
    (h : s.running? i = some (t, c)) (task : Context Func Arg) (pick : Nat) :
    (Impl.ThreadPool.tcThreadScheduleNew s task pick).2.running? i = some (t, c) := by
  rw [Impl.ThreadPool.tcThreadScheduleNew]
  split
  · exact h
  · split
    · exact h
    · rename_i s' he
      obtain ⟨-, -, rfl⟩ := enqueue_eq_some.mp he
      have hat := (signal_wakes pick s.workers).getElem? (running?_eq_some h) (by simp)
      rw [System.running?] at h ⊢
      rw [running?_eq_some h] at h
      have hat' : ((accept s task).signalled pick).workers[i]? = some (.running t c) := hat
      simp only [hat']
      exact h

theorem assertFailed_scheduleNew (s : System Func Arg) (task : Context Func Arg) (pick : Nat) :
    (Impl.ThreadPool.tcThreadScheduleNew s task pick).2.assertFailed = s.assertFailed := by
  rw [Impl.ThreadPool.tcThreadScheduleNew]
  split
  · rfl
  · split
    · rfl
    · rename_i s' he
      obtain ⟨-, -, rfl⟩ := enqueue_eq_some.mp he
      rfl

theorem does_scheduleNew {task : Func} {arg : Arg} {newPriority : Priority}
    (hdue : Due w.trace ⟨newPriority, some task, some arg, g⟩) :
    Does Effect call w (tcThreadScheduleNew task arg newPriority g) fun _ w' => Scheduled w w' ∧
      ∀ worker p, Ready w worker p → Ready w' worker p := by
  unfold Impl.Server.tcThreadScheduleNew
  apply does_get
  apply does_ask
  generalize hx : Impl.ThreadPool.tcThreadScheduleNew w.threadPool _ _ = x
  obtain ⟨scheduled, pool⟩ := x
  have hpool : (Impl.ThreadPool.tcThreadScheduleNew w.threadPool ⟨newPriority, some task, some arg, g⟩
    call.env.pick).2 = pool := congrArg Prod.snd hx
  have hmoves : Moves True w.threadPool pool := hpool ▸ tcThreadScheduleNew_moves ..
  have hnew : ∀ t ∈ pool.accepted, t ∈ w.threadPool.accepted ∨ Due w.trace t := by
    intro t ht
    rw [← hpool] at ht
    rcases mem_accepted_scheduleNew ht with ht | rfl
    · exact .inl ht
    · exact .inr hdue
  refine does_bind (does_modify (Q := fun _ w' => w' = { w with threadPool := pool }) (.pool hmoves hnew)
    rfl) fun _ w' hw' => does_pure ?_
  subst hw'
  refine ⟨⟨rfl, rfl⟩, fun worker p ⟨hok, t, hrun, hp⟩ => ⟨?_, t, ?_, hp⟩⟩
  · show pool.assertFailed = false
    rw [← hpool, assertFailed_scheduleNew, hok]
  · show pool.running? worker = _
    rw [← hpool]
    exact running?_scheduleNew hrun ..

/-! ## Disconnecting -/

theorem does_leaveCurrent : Does Effect call w (leaveCurrent slot) fun _ w' =>
    w'.sessionBuffer = w.sessionBuffer ∧ Quiet w w' := by
  unfold leaveCurrent
  apply does_session
  split
  · refine (does_note (e := .left slot _ _) trivial).mono fun _ w' hw' => ?_
    subst hw'
    exact ⟨rfl, rfl, List.subset_append_left ..⟩
  · exact does_pure ⟨rfl, rfl, List.Subset.refl _⟩

theorem does_disconnect (hl : Live w slot) :
    Does Effect call w (disconnectSession slot) fun _ w' => Quiet w w' := by
  unfold disconnectSession
  refine does_bind does_leaveCurrent fun _ w₁ ⟨hs₁, h₁⟩ => ?_
  have hl₁ : Live w₁ slot := by
    rw [Live, generation, hs₁]
    exact h₁.2 hl
  refine does_bind (does_modify (Q := fun _ w' => w' = w₁.setSession slot
    { w₁.sessionBuffer slot with currentJoinable := none }) (.leave slot) rfl) fun _ w₂ h₂ => ?_
  have hl₂ : Live w₂ slot := by
    subst h₂
    rw [Live, generation, sessionBuffer_setSession]
    exact hl₁
  refine does_bind (does_touch ⟨rfl, rfl, rfl, rfl⟩) fun _ w₃ h₃ => ?_
  refine does_modify (.disconnect slot (h₃.live hl₂)) ?_
  have hq : Quiet w₁ w₃ := by
    subst h₂
    exact h₃.quiet
  refine (h₁.trans hq).trans ⟨rfl, List.subset_append_left ..⟩

theorem does_kick (hl : Live w slot) :
    Does Effect call w (tcServerKickSession.kick slot msg) fun _ w' => Quiet w w' := by
  unfold tcServerKickSession.kick
  split
  · refine does_bind (does_send rfl) fun _ w₁ h₁ => ?_
    exact (does_disconnect (h₁.live hl)).mono fun _ w₂ h₂ => h₁.quiet.trans h₂
  · exact does_disconnect hl

theorem does_kickSession (hl : Live w slot) :
    Does Effect call w (tcServerKickSession slot msg g false) fun _ w' => Quiet w w' := by
  unfold tcServerKickSession
  exact does_kick hl

/-- A kick that takes the lock, of a session that was accepted once. -/
theorem does_kickSession_locking (h : .accepted slot g ∈ w.trace) :
    Does Effect call w (tcServerKickSession slot msg g true) fun _ w' => Quiet w w' := by
  unfold tcServerKickSession
  rw [if_pos rfl]
  refine does_bind does_aquire fun aquired w₁ ⟨h₁, hg⟩ => ?_
  split
  · rename_i ha
    have hl₁ : Live w₁ slot := by
      rw [Live, hg ha, h₁.trace]
      exact h
    refine does_bind (does_kick hl₁) fun _ w₂ h₂ => ?_
    exact does_unlock.mono fun _ w₃ h₃ => (h₁.quiet.trans h₂).trans h₃.quiet
  · exact does_pure h₁.quiet

theorem does_kickAndRelease {msg : String} (hl : Live w slot) :
    Does Effect call w (kickAndRelease slot msg) fun _ w' => Quiet w w' :=
  does_bind (does_kickSession hl) fun _ _ h => does_unlock.mono fun _ _ h' => h.trans h'.quiet

/-! ## The end of a handler -/

theorem due_session {trace : List Event} {f : Func} (ha : .accepted slot g ∈ trace)
    (hc : Cause trace slot g f) : Due trace ⟨priority, some f, some (.session slot), g⟩ := by
  intro slot' hslot
  cases hslot
  refine ⟨ha, fun f' hf => ?_⟩
  cases hf
  exact hc

theorem does_cleanup_none : Does Effect call w (tcServerProtocolHandlerCleanup slot none priority g)
    fun _ w' => Touched slot w w' := by
  unfold tcServerProtocolHandlerCleanup
  exact does_bind (does_touch ⟨rfl, rfl, rfl, rfl⟩) fun _ _ h => does_pure h

theorem does_setJoinable {joinable : Nat} (ho : Owns w slot g) (hj : .joining slot g ∈ w.trace) :
    Does Effect call w (setJoinable slot joinable) fun _ w' => Quiet w w' := by
  obtain ⟨rfl, ha⟩ := ho
  exact does_modify (.join slot joinable ha hj) ⟨rfl, List.subset_append_left ..⟩

theorem does_releaseIf : Does Effect call w (releaseIf aquireLock slot) fun _ w' => Touched slot w w' := by
  unfold releaseIf
  split
  · exact does_unlock
  · exact does_pure (Touched.refl slot w)

theorem does_sendMessage {messageType : Byte} {message : String} :
    Does Effect call w (tcApiSendMessage slot messageType message) fun _ w' => Touched slot w w' := by
  unfold tcApiSendMessage
  apply does_session
  split
  · exact does_send rfl
  · exact does_send rfl

variable (hr : Ready w call.worker priority)

include hr

theorem does_cleanup {f : Func} (ha : .accepted slot g ∈ w.trace) (hc : Cause w.trace slot g f) :
    Acts call w (tcServerProtocolHandlerCleanup slot (some f) priority g) := by
  unfold tcServerProtocolHandlerCleanup
  refine does_bind (does_touch ⟨rfl, rfl, rfl, rfl⟩) fun _ w₁ h₁ => ?_
  refine (does_scheduleNext (h₁.ready hr) fun f' hf => ?_).acts
  rw [h₁.trace]
  rcases hf with hf | hf
  · cases hf
    exact due_session ha hc
  · cases hf
    exact due_session ha trivial

/-- The client is listened to again. -/
theorem does_continue (ha : .accepted slot g ∈ w.trace) :
    Acts call w (do
      tcServerProtocolHandlerCleanup slot (some .tcServerClientListenTask) priority g
      tcSessionReleaseActionLock slot) :=
  does_bind (does_cleanup hr ha trivial) fun _ _ _ => does_unlock.acts

/-! ## Joining -/

/-- A joinable schedules its task, with what to run instead at the end. -/
theorem does_scheduleJoinable {shutdown : OnShutdown}
    (ha : .accepted slot g ∈ w.trace) (hj : .joining slot g ∈ w.trace) :
    Does Effect call w (tcThreadScheduleNext (some .joinableTask) shutdown.func (.session slot) priority g)
      fun _ w' => Scheduled w w' := by
  refine does_scheduleNext hr fun f hf => ?_
  rcases hf with hf | hf
  · cases hf
    exact due_session ha hj
  · cases shutdown with
    | nothing => cases hf
    | kick => cases hf; exact due_session ha trivial
    | own => cases hf; exact due_session ha hj

theorem does_attemptJoin {n : Nat} (ha : .accepted slot g ∈ w.trace) (hj : .joining slot g ∈ w.trace) :
    Does Effect call w (attemptJoin n slot priority g) fun admitted w' =>
      Scheduled w w' ∧ (admitted = false → Ready w' call.worker priority) := by
  unfold attemptJoin
  apply does_ask
  split
  · exact does_pure ⟨⟨rfl, rfl⟩, fun _ => hr⟩
  · refine does_bind (does_scheduleJoinable hr ha hj) fun _ w' h => does_pure ⟨h, ?_⟩
    intro h
    cases h
  · exact (does_scheduleNew (due_session (f := .joinableTask) ha hj)).mono fun _ _ h => ⟨h.1, fun _ => h.2 _ _ hr⟩

theorem does_rerouteToDefault (ho : Owns w slot g) (hj : .joining slot g ∈ w.trace) :
    Does Effect call w (rerouteToDefault slot priority g aquireLock) fun _ w' => w.trace ⊆ w'.trace := by
  unfold rerouteToDefault
  refine does_bind does_sendMessage fun sent w₁ h₁ => ?_
  have ho₁ := h₁.owns ho
  split
  · apply does_get
    split
    · exact does_crash
    · refine does_bind (does_attemptJoin (h₁.ready hr) ho₁.2 (h₁.trace ▸ hj))
        fun admitted w₂ ⟨h₂, hr₂⟩ => ?_
      have ho₂ := h₂.owns ho₁
      have ht₂ : w.trace = w₂.trace := (h₂.2.trans h₁.trace).symm
      split
      · refine does_bind (does_setJoinable ho₂ (ht₂ ▸ hj)) fun _ w₃ h₃ => ?_
        refine does_bind does_releaseIf fun _ w₄ h₄ => does_pure ?_
        rw [h₄.trace, ht₂]
        exact h₃.2
      · refine does_bind (does_kickSession ho₂.live) fun _ w₃ h₃ => ?_
        refine does_bind does_releaseIf fun _ w₄ h₄ => does_pure ?_
        rw [h₄.trace, ht₂]
        exact h₃.2
  · refine does_bind (does_kickSession ho₁.live) fun _ w₂ h₂ => ?_
    refine does_bind does_releaseIf fun _ w₃ h₃ => does_pure ?_
    rw [h₃.trace, ← h₁.trace]
    exact h₂.2

theorem does_joinFound {joinable : Nat} (ho : Owns w slot g) (hj : .joining slot g ∈ w.trace) :
    Does Effect call w (joinFound slot joinable priority g aquireLock) fun _ w' => w.trace ⊆ w'.trace := by
  unfold joinFound
  refine does_bind does_leaveCurrent fun _ w₁ hw₁ => ?_
  obtain ⟨hs₁, h₁⟩ := hw₁
  have ho₁ : Owns w₁ slot g := by
    rw [Owns, generation, hs₁]
    exact ⟨ho.1, h₁.2 ho.2⟩
  refine does_bind (does_attemptJoin (h₁.ready hr) ho₁.2 (h₁.2 hj)) fun admitted w₂ hw₂ => ?_
  obtain ⟨h₂, hr₂⟩ := hw₂
  have ho₂ := h₂.owns ho₁
  have ht₂ : w.trace ⊆ w₂.trace := h₂.2 ▸ h₁.2
  split
  · refine does_bind (does_setJoinable ho₂ (ht₂ hj)) fun _ w₃ h₃ => ?_
    refine does_bind does_releaseIf fun _ w₄ h₄ => does_pure ?_
    rw [h₄.trace]
    exact List.Subset.trans ht₂ h₃.2
  · rename_i hadmitted
    exact (does_rerouteToDefault (hr₂ (by simpa using hadmitted)) ho₂ (ht₂ hj)).mono
      fun _ w₃ h₃ => List.Subset.trans ht₂ h₃

/-- A join of a session whose lock is held. -/
theorem does_join (ho : Owns w slot g) (hf : .finalizing slot g ∈ w.trace) :
    Does Effect call w (tcSessionJoin slot address priority g false) fun _ w' => w.trace ⊆ w'.trace := by
  unfold tcSessionJoin
  refine does_bind (does_note (.inl hf)) fun _ w₁ h₁ => ?_
  subst h₁
  have hsub : w.trace ⊆ (w.emit (.joining slot g)).trace := List.subset_append_left ..
  apply does_get
  split
  · exact does_pure hsub
  · refine (does_joinFound (w := w.emit _) hr ⟨ho.1, hsub ho.2⟩ (List.mem_append_right _ List.mem_cons_self)).mono ?_
    exact fun _ w₂ h₂ => List.Subset.trans hsub h₂

/-- A join by a joinable's task, which takes the lock. -/
theorem does_join_locking (ha : .accepted slot g ∈ w.trace) (hj : .joining slot g ∈ w.trace) :
    Acts call w (tcSessionJoin slot address priority g true) := by
  unfold tcSessionJoin
  refine does_bind (does_note (.inr hj)) fun _ w₁ h₁ => ?_
  subst h₁
  have hsub : w.trace ⊆ (w.emit (.joining slot g)).trace := List.subset_append_left ..
  apply does_get
  split
  · exact does_pure trivial
  · rw [if_pos rfl]
    refine does_bind does_aquire fun aquired w₂ ⟨h₂, hg⟩ => ?_
    split
    · rename_i haq
      have ho₂ : Owns w₂ slot g := ⟨hg haq, h₂.trace ▸ hsub ha⟩
      exact (does_joinFound (h₂.ready hr) ho₂ (h₂.trace ▸ hsub hj)).acts
    · exact does_pure trivial

theorem does_joinableTask (ha : .accepted slot g ∈ w.trace) (hj : .joining slot g ∈ w.trace) :
    Acts call w (joinableTask slot priority g) := by
  unfold joinableTask
  apply does_ask
  split
  · refine (does_scheduleNext hr fun f hf => ?_).acts
    rcases hf with hf | hf <;> cases hf <;> exact due_session ha trivial
  · exact (does_scheduleJoinable hr ha hj).acts
  · exact does_bind (does_scheduleNew (due_session (f := .joinableTask) ha hj)) fun _ _ _ => does_pure trivial
  · exact (does_kickSession_locking ha).acts
  · exact does_bind (does_join_locking hr ha hj) fun _ _ _ => does_pure trivial
  · exact does_pure trivial

/-! ## The end of the handshake -/

theorem does_finishHandshake (ho : Owns w slot g) (hf : .finalizing slot g ∈ w.trace) :
    Acts call w (finishHandshake slot priority g) := by
  unfold finishHandshake
  refine does_bind does_cleanup_none fun _ w₁ h₁ => ?_
  have ho₁ := h₁.owns ho
  have hf₁ : .finalizing slot g ∈ w₁.trace := h₁.trace ▸ hf
  have hr₁ := h₁.ready hr
  obtain ⟨rfl, ha₁⟩ := ho₁
  refine does_bind (does_modify (Q := fun _ w' => w' = { w₁ with
    activePlayers := w₁.activePlayers + 1 }.emit (.finished slot (generation w₁ slot)))
    (.finish slot ha₁ hf₁) rfl) fun _ w₂ h₂ => ?_
  subst h₂
  refine does_bind (does_join hr₁ ⟨rfl, List.mem_append_left _ ha₁⟩ (List.mem_append_left _ hf₁))
    fun joined w₃ h₃ => ?_
  split
  · exact does_unlock.acts
  · exact does_bind (does_kickSession_locking (h₃ (List.mem_append_left _ ha₁))) fun _ _ _ =>
      does_unlock.acts

theorem does_finalize (ho : Owns w slot g)
    (he : (w.sessionBuffer slot).supportsCpe = true ∨
      (w.sessionBuffer slot).authenticatedService.isSome = true) :
    Acts call w (finalizePlayerIdentification slot priority g) := by
  unfold finalizePlayerIdentification
  refine does_bind (does_note ⟨ho.1.symm, ho.live, he⟩) fun _ w₁ h₁ => ?_
  subst h₁
  have ho₁ : Owns (w.emit (.finalizing slot g)) slot g := ⟨ho.1, List.mem_append_left _ ho.2⟩
  have hf₁ : .finalizing slot g ∈ (w.emit (.finalizing slot g)).trace :=
    List.mem_append_right _ List.mem_cons_self
  apply does_get
  refine does_bind (does_send rfl) fun sent w₂ h₂ => ?_
  split
  · exact does_finishHandshake (h₂.ready hr) (h₂.owns ho₁) (h₂.trace ▸ hf₁)
  · exact does_bind (does_kickSession (h₂.owns ho₁).live) fun _ _ _ => does_pure trivial

/-- The end of the handshake, as the end of a handler. -/
theorem does_finalizeAndRelease (ho : Owns w slot g)
    (he : (w.sessionBuffer slot).supportsCpe = true ∨
      (w.sessionBuffer slot).authenticatedService.isSome = true) :
    Acts call w (do
      finalizePlayerIdentification slot priority g
      tcSessionReleaseActionLock slot) :=
  does_bind (does_finalize hr ho he) fun _ _ _ => does_unlock.acts

end TC.Proof.Server
