import TeleClassic.Proof.Server.Play
import TeleClassic.Proof.Server.Receive

/-!
# Accesses to the packet buffer

No task reads or writes outside of `pending_packet_buffer`: the functions that the
tasks are made of do not touch it (`Preserves`), but for the reads of the handlers and the
writes of `tc_server_client_listen_task`, which come with a session in the state for them
(`Tracks`).
-/

namespace TC.Proof.Server

open TC.Impl.Server TC.Impl.ThreadPool TC.Impl.Protocol TC.Proof.ThreadPool Prog

/-! ## Functions that do not touch the buffer -/

/-- No access was outside of a packet buffer. -/
def InBuffer (w : World) : Prop := w.halted ≠ some .outOfBuffer

section

variable (slot : Slot) (priority : Priority) (generation : Int)

instance preserves_session : Preserves InBuffer (session slot) := by
  unfold session
  infer_instance

instance preserves_modifySession (f : Session → Session) : Preserves InBuffer (modifySession slot f) :=
  preserves_modify fun _ h => h

instance preserves_emit (e : Event) : Preserves InBuffer (emit e) := preserves_modify fun _ h => h

/-- The process halts for another reason. -/
theorem preserves_halt {α : Type} {failure : Failure} (h : failure ≠ .outOfBuffer) :
    Preserves InBuffer (halt failure : TaskM α) := ⟨fun _ _ _ hf => h (Option.some.inj hf)⟩

instance preserves_assertFailed {α : Type} : Preserves InBuffer (halt .assertFailed : TaskM α) := preserves_halt nofun

instance preserves_badAccess {α : Type} : Preserves InBuffer (halt .badAccess : TaskM α) := preserves_halt nofun

instance preserves_assert (condition : Bool) : Preserves InBuffer (tcAssert condition) := by
  unfold tcAssert
  infer_instance

instance preserves_stick (call : Call) :
    Preserves InBuffer (modify fun w => { w with stuck := call.worker :: w.stuck } : TaskM Unit) :=
  preserves_modify fun _ h => h

instance preserves_lock : Preserves InBuffer (pMutexLock slot) := by
  unfold pMutexLock
  infer_instance

instance preserves_unlock : Preserves InBuffer (pMutexUnlock slot) := by
  unfold pMutexUnlock
  infer_instance

instance preserves_send (packet : Packet) : Preserves InBuffer (send slot packet) := by
  unfold send
  refine (preserves_session slot).bind fun s => ?_
  dsimp only
  refine (preserves_modifySession slot _).bind fun _ => ?_
  split
  · infer_instance
  · infer_instance

instance preserves_scheduleNext (nextTask shutdownTask : Option Func) (arg : Arg) :
    Preserves InBuffer (Impl.Server.tcThreadScheduleNext nextTask shutdownTask arg priority generation) := by
  unfold Impl.Server.tcThreadScheduleNext
  have hpool : ∀ call : Call, Preserves InBuffer (modify fun w =>
      { w with threadPool := (Impl.ThreadPool.step w.threadPool (.scheduleNext call.worker nextTask
          shutdownTask (some arg) priority generation call.env.pick)).getD w.threadPool } : TaskM Unit) :=
    fun _ => preserves_modify fun _ h => h
  infer_instance

instance preserves_scheduleNew (task : Func) (arg : Arg) :
    Preserves InBuffer (Impl.Server.tcThreadScheduleNew task arg priority generation) := by
  unfold Impl.Server.tcThreadScheduleNew
  have hpool : ∀ pool : System Func Arg, Preserves InBuffer (modify ({ · with threadPool := pool }) : TaskM Unit) :=
    fun _ => preserves_modify fun _ h => h
  infer_instance

instance preserves_aquire : Preserves InBuffer (tcSessionAquireActionLock slot generation) := by
  unfold tcSessionAquireActionLock
  infer_instance

instance preserves_release : Preserves InBuffer (tcSessionReleaseActionLock slot) := by
  unfold tcSessionReleaseActionLock
  infer_instance

instance preserves_leaveCurrent : Preserves InBuffer (leaveCurrent slot) := by
  unfold leaveCurrent
  refine (preserves_session slot).bind fun s => ?_
  split
  · infer_instance
  · infer_instance

instance preserves_disconnect : Preserves InBuffer (disconnectSession slot) := by
  unfold disconnectSession
  have hrelease : Preserves InBuffer (modify fun w =>
      ((w.setSession slot { w.sessionBuffer slot with
        currentGeneration := (w.sessionBuffer slot).currentGeneration + 1 }).release slot).emit
          (.disconnected slot (w.sessionBuffer slot).currentGeneration) : TaskM Unit) :=
    preserves_modify fun _ h => h
  infer_instance

instance preserves_kick (msg : Option String) (aquireLock : Bool) :
    Preserves InBuffer (tcServerKickSession slot msg generation aquireLock) := by
  have hkick : Preserves InBuffer (tcServerKickSession.kick slot msg) := by
    unfold tcServerKickSession.kick
    split
    · infer_instance
    · infer_instance
  unfold tcServerKickSession
  infer_instance

instance preserves_kickAndRelease (msg : String) : Preserves InBuffer (kickAndRelease slot msg) := by
  unfold kickAndRelease
  infer_instance

instance preserves_cleanup (nextTask : Option Func) :
    Preserves InBuffer (tcServerProtocolHandlerCleanup slot nextTask priority generation) := by
  unfold tcServerProtocolHandlerCleanup
  infer_instance

instance preserves_shutdownClient : Preserves InBuffer (tcServerShutdownClientTask slot generation) := by
  unfold tcServerShutdownClientTask
  infer_instance

instance preserves_attemptJoin (n : Nat) : Preserves InBuffer (attemptJoin n slot priority generation) := by
  unfold attemptJoin
  refine preserves_ask.bind fun call => ?_
  split
  · infer_instance
  · infer_instance
  · infer_instance

instance preserves_sendMessage (messageType : Byte) (message : String) :
    Preserves InBuffer (tcApiSendMessage slot messageType message) := by
  unfold tcApiSendMessage
  infer_instance

instance preserves_setJoinable (joinable : Nat) : Preserves InBuffer (setJoinable slot joinable) :=
  preserves_modify fun _ h => h

instance preserves_releaseIf (aquireLock : Bool) : Preserves InBuffer (releaseIf aquireLock slot) := by
  unfold releaseIf
  infer_instance

instance preserves_rerouteToDefault (aquireLock : Bool) :
    Preserves InBuffer (rerouteToDefault slot priority generation aquireLock) := by
  unfold rerouteToDefault
  refine (preserves_sendMessage slot _ _).bind fun sent => ?_
  split
  · refine preserves_get.bind fun w => ?_
    split
    · infer_instance
    · infer_instance
  · infer_instance

instance preserves_joinFound (joinable : Nat) (aquireLock : Bool) :
    Preserves InBuffer (joinFound slot joinable priority generation aquireLock) := by
  unfold joinFound
  infer_instance

instance preserves_join (address : Option String) (aquireLock : Bool) :
    Preserves InBuffer (tcSessionJoin slot address priority generation aquireLock) := by
  unfold tcSessionJoin
  refine (preserves_emit _).bind fun _ => preserves_get.bind fun w => ?_
  split
  · infer_instance
  · infer_instance

instance preserves_joinableTask : Preserves InBuffer (joinableTask slot priority generation) := by
  unfold joinableTask
  refine preserves_ask.bind fun call => ?_
  split
  all_goals infer_instance

instance preserves_finishHandshake : Preserves InBuffer (finishHandshake slot priority generation) := by
  unfold finishHandshake
  have hfinish : Preserves InBuffer (modify fun w => { w with activePlayers := w.activePlayers + 1 }.emit
      (.finished slot (w.sessionBuffer slot).currentGeneration) : TaskM Unit) := preserves_modify fun _ h => h
  infer_instance

instance preserves_finalize : Preserves InBuffer (finalizePlayerIdentification slot priority generation) := by
  unfold finalizePlayerIdentification
  infer_instance

instance preserves_sendExtentries (extensions : List Extension) : Preserves InBuffer (sendExtentries slot extensions) := by
  induction extensions with
  | nil => exact preserves_pure true
  | cons extension extensions ih =>
    unfold sendExtentries
    infer_instance

instance preserves_beginCpeNegotiation : Preserves InBuffer (handleBeginCpeNegotiation slot priority generation) := by
  unfold handleBeginCpeNegotiation
  refine (preserves_aquire slot generation).bind fun aquired => ?_
  split
  · refine (preserves_session slot).bind fun s => (preserves_assert _).bind fun _ => (preserves_send slot _).bind fun sent => ?_
    infer_instance
  · infer_instance

instance preserves_countExtPacket : Preserves InBuffer (countExtPacket slot) := by
  unfold countExtPacket
  infer_instance

instance preserves_finishExtentries : Preserves InBuffer (finishExtentries slot priority generation) := by
  unfold finishExtentries
  infer_instance

instance preserves_identify (service : Nat) (supportsCpe : Bool) : Preserves InBuffer (identify slot service supportsCpe) :=
  preserves_modify fun _ h => h

instance preserves_listenAgain : Preserves InBuffer (listenAgain slot priority generation) := by
  unfold listenAgain
  infer_instance

instance preserves_beginPacket (opcode : Byte) : Preserves InBuffer (beginPacket slot priority generation opcode) := by
  unfold beginPacket
  infer_instance

instance preserves_receiveOpcode : Preserves InBuffer (receiveOpcode slot priority generation) := by
  unfold receiveOpcode
  refine preserves_ask.bind fun call => ?_
  split
  all_goals infer_instance

instance preserves_startListening : Preserves InBuffer (startListening slot generation) := by
  unfold startListening
  infer_instance

instance preserves_handleNewSession (clientSocket : Stream) : Preserves InBuffer (handleNewSession clientSocket) := by
  unfold handleNewSession
  have hid : Preserves InBuffer (modify fun w => { w with idBufferHead := w.idBufferHead + 1 } : TaskM Unit) :=
    preserves_modify fun _ h => h
  have hnew : ∀ slot generation, Preserves InBuffer (modify fun w =>
      (w.setSession slot (newSession (w.sessionBuffer slot) clientSocket)).emit
        (.accepted slot generation) : TaskM Unit) := fun _ _ => preserves_modify fun _ h => h
  infer_instance

instance preserves_listener : Preserves InBuffer (listenerWorkerTask priority) := by
  unfold listenerWorkerTask
  refine preserves_ask.bind fun call => ?_
  split
  · infer_instance
  · infer_instance

end

/-! ## Handlers -/

/-- However the program ends, no access was outside of a packet buffer. -/
def Safe {α : Type} (call : Call) (w : World) (p : TaskM α) : Prop := Meets call w p (fun _ => InBuffer) InBuffer

theorem safe_of_preserves {α : Type} {call : Call} {w : World} (p : TaskM α) [hp : Preserves InBuffer p] (hw : InBuffer w) :
    Safe call w p :=
  ⟨fun _ _ => hp.preserves call w hw, fun _ => hp.preserves call w hw⟩

/-- How much of a packet its handler reads. -/
def readSize (custom : Bool) : Func → Nat
  | .handleCpeExtinfo => 66
  | .handleCpeExtentry => 68
  | .handleCpeCustomBlockSupportLevel => 1
  | .handlePlayerIdentification => 130
  | .handlePlayerSetBlock => if custom then 9 else 8
  | .handlePlayerPositionAndOrientationUpdate => if custom then 10 else 9
  | _ => 0

/-- The sizes of the table are those that the handlers read. -/
theorem payloadSize_eq {opcode : Byte} {f : Func} (h : tcPacketHandlers opcode.toInt = some f) (custom : Bool) :
    payloadSize custom opcode = readSize custom f := by
  have hall : ∀ opcode : Byte, ∀ custom, (tcPacketHandlers opcode.toInt).all fun f =>
      payloadSize custom opcode = readSize custom f := by decide +kernel
  simpa [h] using hall opcode custom

section

variable {call : Call} {w : World} {slot : Slot} {priority : Priority} {s : Session} {buffer : List Byte}

theorem safe_assert {β : Type} {condition : Bool} {k : Unit → TaskM β} (h : Safe call w (k ())) :
    Safe call w (tcAssert condition >>= k) := by
  rcases condition with _ | _
  · have hfails : tcAssert false call w = (none, { w with halted := some .assertFailed }) := rfl
    exact meets_of_none (bind_of_none hfails) nofun
  · exact h

variable (hfree : (w.sessionBuffer slot).actionLock = false)
  (hheld : (w.sessionBuffer slot).pendingPacketBuffer = some buffer) (hw : InBuffer w)

include hfree hheld hw

theorem safe_extinfo (hlength : buffer.length = 66) :
    Safe call w (handleCpeExtinfo slot priority (generation w slot)) := by
  unfold handleCpeExtinfo
  refine meets_aquire hfree (meets_read (safe_assert (meets_read ?_)))
  split
  · exact safe_of_preserves _ hw
  refine meets_bind_of_some (readString_eq (held_locked hheld) ?_) ?_
  · rw [hlength]
    decide
  refine meets_bind_of_some (readShort_eq (held_locked hheld) ?_) ?_
  · rw [hlength]
    decide
  exact safe_of_preserves _ hw

theorem safe_extentry (hlength : buffer.length = 68) :
    Safe call w (handleCpeExtentry slot priority (generation w slot)) := by
  unfold handleCpeExtentry
  refine meets_aquire hfree (meets_read (safe_assert (meets_read ?_)))
  split
  · exact safe_of_preserves _ hw
  refine meets_bind_of_some (readString_eq (held_locked hheld) ?_) ?_
  · rw [hlength]
    decide
  split
  · exact safe_of_preserves _ hw
  unfold acceptExtentry
  refine meets_bind_of_some (readInt_eq (held_locked hheld) ?_) ?_
  · rw [hlength]
    decide
  exact safe_of_preserves _ hw

theorem safe_supportLevel (hlength : buffer.length = 1) :
    Safe call w (handleCpeCustomBlockSupportLevel slot priority (generation w slot)) := by
  unfold handleCpeCustomBlockSupportLevel
  refine meets_aquire hfree (meets_read (safe_assert ?_))
  refine meets_bind_of_some (readByte_eq (held_locked hheld) ?_) ?_
  · omega
  exact safe_of_preserves _ hw

theorem safe_identification (hlength : buffer.length = 130) :
    Safe call w (handlePlayerIdentification slot priority (generation w slot)) := by
  unfold handlePlayerIdentification
  refine meets_aquire hfree (meets_read ?_)
  split
  · exact safe_of_preserves _ hw
  refine meets_bind_of_some (readByte_eq (held_locked hheld) ?_) ?_
  · omega
  split
  · refine meets_bind_of_some (readString_eq (held_locked hheld) ?_) (meets_write ?_)
    · rw [hlength]
      decide
    have hnamed (username : List Byte) : ((w.setSession slot { locked (w.sessionBuffer slot) with
        username := username }).sessionBuffer slot).pendingPacketBuffer = some buffer := by
      rw [sessionBuffer_setSession]
      exact hheld
    refine meets_bind_of_some (readString_eq (hnamed _) ?_) (meets_ask ?_)
    · rw [hlength]
      decide
    split
    · exact safe_of_preserves _ hw
    refine meets_bind_of_some (readByte_eq (hnamed _) ?_) ?_
    · omega
    exact safe_of_preserves _ hw
  · exact safe_of_preserves _ hw

theorem safe_setBlock
    (hlength : buffer.length = readSize (supports (w.sessionBuffer slot) customBlocks) .handlePlayerSetBlock) :
    Safe call w (handlePlayerSetBlock slot priority (generation w slot)) := by
  have hlong : 8 ≤ buffer.length := by
    rw [hlength, readSize]
    split
    · decide
    · decide
  unfold handlePlayerSetBlock
  refine meets_aquire hfree ?_
  refine meets_bind_of_some (readShort_eq (held_locked hheld) ?_) ?_
  · omega
  refine meets_bind_of_some (readShort_eq (held_locked hheld) ?_) ?_
  · omega
  refine meets_bind_of_some (readShort_eq (held_locked hheld) ?_) ?_
  · omega
  refine meets_bind_of_some (readByte_eq (held_locked hheld) ?_) ?_
  · omega
  refine meets_bind_of_some (readBlock_eq (held_locked hheld) ?_) ?_
  · rw [hlength, sessionBuffer_setSession]
    have hhandler : tcPacketHandlers (0x05 : Byte).toInt = some .handlePlayerSetBlock := rfl
    exact (payloadSize_eq hhandler _).symm
  exact safe_of_preserves _ hw

theorem safe_positionUpdate (hlength : buffer.length =
      readSize (supports (w.sessionBuffer slot) customBlocks) .handlePlayerPositionAndOrientationUpdate) :
    Safe call w (handlePlayerPositionAndOrientationUpdate slot priority (generation w slot)) := by
  unfold handlePlayerPositionAndOrientationUpdate
  refine meets_aquire hfree (meets_read ?_)
  dsimp only
  have hoffset : (if supports (locked (w.sessionBuffer slot)) customBlocks then 2 else 1) + 8 = buffer.length := by
    show (if supports (w.sessionBuffer slot) customBlocks then 2 else 1) + 8 = _
    rw [hlength, readSize]
    split
    · rfl
    · rfl
  revert hoffset
  generalize (if supports (locked (w.sessionBuffer slot)) customBlocks then 2 else 1) = offset
  intro hoffset
  refine meets_bind_of_some (readShort_eq (held_locked hheld) ?_) ?_
  · omega
  refine meets_bind_of_some (readShort_eq (held_locked hheld) ?_) ?_
  · omega
  refine meets_bind_of_some (readShort_eq (held_locked hheld) ?_) ?_
  · omega
  refine meets_bind_of_some (readByte_eq (held_locked hheld) ?_) ?_
  · omega
  refine meets_bind_of_some (readByte_eq (held_locked hheld) ?_) ?_
  · omega
  exact safe_of_preserves _ hw

end

/-! ## Listening -/

section

variable {call : Call} {w : World} {slot : Slot} {priority : Priority}

/-- The client is there after the ping, with the session as it was but for its socket,
or is gone. -/
theorem safe_pingClient {s : Session} {k : Bool → TaskM Unit} (hw : InBuffer w)
    (hthere : ∀ socket, Safe call (w.setSession slot (withSocket s socket)) (k true))
    (hgone : ∀ w', InBuffer w' → Safe call w' (k false)) :
    Safe call (w.setSession slot s) (pingClient slot >>= k) := by
  unfold pingClient
  refine meets_assoc (meets_ask ?_)
  split
  · refine meets_assoc (meets_send rfl fun sent socket _ => ?_)
    rcases sent with _ | _
    · refine meets_assoc (meets_disconnect fun w₁ hw₁ => meets_assoc (meets_unlockThen (hgone _ ?_)))
      show w₁.halted ≠ some .outOfBuffer
      rw [hw₁.halted]
      exact hw
    · exact hthere socket
  · exact hthere s.clientSocket

theorem safe_storePayload {s : Session} {buffer bytes : List Byte} (hw : InBuffer w) (g : Int)
    (hheld : s.pendingPacketBuffer = some buffer) (hbytes : s.pendingPacketBufferSize + bytes.length ≤ buffer.length) :
    Safe call (w.setSession slot s) (storePayload slot priority g bytes) := by
  unfold storePayload
  refine meets_read ?_
  simp only [hheld, if_pos hbytes]
  refine meets_write ?_
  split
  · split
    · exact safe_of_preserves _ hw
    · exact safe_of_preserves _ hw
  · exact safe_of_preserves _ hw

theorem safe_receivePayload {s : Session} {buffer : List Byte} (hw : InBuffer w) (g : Int)
    (hpayload : InPayload s buffer) :
    Safe call (w.setSession slot s) (receivePayload slot priority g) := by
  have hlength := hpayload.length
  have hpart := hpayload.part
  unfold receivePayload
  refine meets_read (meets_ask ?_)
  dsimp only
  split
  · rename_i bytes hreceive
    split
    · exact safe_of_preserves _ hw
    · refine safe_storePayload hw g hpayload.held ?_
      have htake := List.length_take_le (tcPacketDataSize s.pendingPacketOpcode s - s.pendingPacketBufferSize) bytes
      omega
  · exact safe_of_preserves _ hw
  · exact safe_of_preserves _ hw

theorem safe_listen (hw : InBuffer w) (hfree : (w.sessionBuffer slot).actionLock = false)
    (hstate : (w.sessionBuffer slot).pendingPacketOpcode = -1 ∨ ∃ buffer, InPayload (w.sessionBuffer slot) buffer) :
    Safe call w (tcServerClientListenTask slot priority (generation w slot)) := by
  unfold tcServerClientListenTask
  refine meets_aquire hfree (safe_pingClient hw (fun socket => meets_read ?_) fun w' hw' => meets_pure hw')
  split
  · exact safe_of_preserves _ hw
  · rename_i hbusy
    obtain ⟨buffer, hpayload⟩ := hstate.resolve_left hbusy
    exact safe_receivePayload hw _ ⟨hpayload.busy, hpayload.known, hpayload.held, hpayload.length, hpayload.part⟩

/-! ## Tasks -/

/-- The tasks that access the buffer start with taking the lock, and do nothing if the
session is not the one they were scheduled for. -/
theorem safe_stale {g : Int} {p : TaskM Unit} (hw : InBuffer w) (hg : generation w slot ≠ g) :
    Safe call w (tcSessionAquireActionLock slot g >>= fun aquired => if aquired = true then p else pure ()) :=
  meets_aquire_stale hg hw (meets_pure hw)

end

/-- The size of the buffer of a packet is always the one that is computed for it. -/
theorem Tracks.sized {packets done : List (Byte × List Byte)} {r : Receiver Bool Byte} {s : Session}
    {next : Option Func} (h : Tracks packets done r s next) (hcode : s.pendingPacketOpcode ≠ -1) :
    ∃ buffer, s.pendingPacketBuffer = some buffer ∧ buffer.length = tcPacketDataSize s.pendingPacketOpcode s := by
  induction h with
  | idle idle => exact absurd idle.code hcode
  | filling fills => exact ⟨_, fills.held, by rw [fills.code, dataSize_eq, fills.custom, fills.length]⟩
  | full full => exact ⟨_, full.held, by rw [full.code, dataSize_eq, full.length]⟩
  | ended _ ih => exact ih

section

variable {config : Config} {numThreads maxBlockingThreads : Nat}
  {tasks : Priority → Nat → Context Func Arg} {sessions : Slot → Session} {ls : List Label} {w : World} {call : Call}
  {t : Context Func Arg}
  (h : run Impl.Server.step (start config numThreads maxBlockingThreads tasks sessions) ls = some w)
  (hh : w.halted = none) (hrun : w.threadPool.running? call.worker = some (t, 0))

include h hh hrun

/-- A handler does nothing if the session is not the one it was scheduled for, and
finds the packet for it otherwise. -/
theorem safe_handled {slot : Slot} {f : Func} (handler : Int → TaskM Unit)
    (hstale : ∀ g, generation w slot ≠ g → Safe call w (handler g)) (hfunc : t.func = some f)
    (harg : t.arg = some (.session slot)) (hf : isHandler f = true)
    (hcurrent : (w.sessionBuffer slot).actionLock = false → ∀ buffer,
      (w.sessionBuffer slot).pendingPacketBuffer = some buffer →
      buffer.length = readSize (supports (w.sessionBuffer slot) customBlocks) f →
      Safe call w (handler (generation w slot))) : Safe call w (handler t.sessionGeneration) := by
  by_cases hg : generation w slot = t.sessionGeneration
  · obtain ⟨f', packets, done, r, hfunc', htracks, hlock⟩ := tracks_running h hh hrun ⟨harg, hg.symm⟩
    obtain rfl := Option.some.inj (hfunc.symm.trans hfunc')
    obtain ⟨opcode, payload, full, -⟩ := htracks.handling hf
    rw [← hg]
    exact hcurrent hlock payload full.held (full.length.trans (payloadSize_eq full.handler _))
  · exact hstale _ hg

theorem safe_task : Safe call w (runTask t) := by
  have hw : InBuffer w := by
    rw [InBuffer, hh]
    nofun
  unfold runTask
  dsimp only
  split
  · exact safe_of_preserves _ hw
  · rename_i slot hfunc harg
    by_cases hg : generation w slot = t.sessionGeneration
    · obtain ⟨hfree, hstate⟩ := listening_states h hh hrun ⟨harg, hg.symm⟩ hfunc
      rw [← hg]
      exact safe_listen hw hfree hstate
    · exact safe_stale hw hg
  · exact safe_of_preserves _ hw
  · exact safe_of_preserves _ hw
  · rename_i slot hfunc harg
    exact safe_handled h hh hrun (handleCpeExtinfo slot t.priority) (fun _ => safe_stale hw) hfunc harg rfl
      fun hfree _ hheld hlength => safe_extinfo hfree hheld hw hlength
  · rename_i slot hfunc harg
    exact safe_handled h hh hrun (handleCpeExtentry slot t.priority) (fun _ => safe_stale hw) hfunc harg rfl
      fun hfree _ hheld hlength => safe_extentry hfree hheld hw hlength
  · rename_i slot hfunc harg
    exact safe_handled h hh hrun (handleCpeCustomBlockSupportLevel slot t.priority) (fun _ => safe_stale hw) hfunc
      harg rfl fun hfree _ hheld hlength => safe_supportLevel hfree hheld hw hlength
  · rename_i slot hfunc harg
    exact safe_handled h hh hrun (handlePlayerIdentification slot t.priority) (fun _ => safe_stale hw) hfunc harg rfl
      fun hfree _ hheld hlength => safe_identification hfree hheld hw hlength
  · rename_i slot hfunc harg
    exact safe_handled h hh hrun (handlePlayerSetBlock slot t.priority) (fun _ => safe_stale hw) hfunc harg rfl
      fun hfree _ hheld hlength => safe_setBlock hfree hheld hw hlength
  · rename_i slot hfunc harg
    exact safe_handled h hh hrun (handlePlayerPositionAndOrientationUpdate slot t.priority) (fun _ => safe_stale hw)
      hfunc harg rfl fun hfree _ hheld hlength => safe_positionUpdate hfree hheld hw hlength
  · exact safe_of_preserves _ hw
  · exact safe_of_preserves _ hw

end

section

variable {config : Config} {numThreads maxBlockingThreads : Nat}
  {tasks : Priority → Nat → Context Func Arg} {sessions : Slot → Session}

theorem halted_poolStep {w w' : World} {e : Impl.ThreadPool.Event Func Arg} (h : w.poolStep e = some w') :
    w'.halted = w.halted := by
  obtain ⟨pool, -, rfl⟩ := Option.map_eq_some_iff.mp h
  rfl

theorem inBuffer_step {ls : List Label} {w w' : World} {l : Label}
    (h : run Impl.Server.step (start config numThreads maxBlockingThreads tasks sessions) ls = some w)
    (hstep : Impl.Server.step w l = some w') : InBuffer w' := by
  have hh := running_of_halted hstep
  have hpool {e : Impl.ThreadPool.Event Func Arg} (he : w.poolStep e = some w') : InBuffer w' := by
    rw [InBuffer, halted_poolStep he, hh]
    nofun
  unfold Impl.Server.step at hstep
  split at hstep
  · cases hstep
  cases l with
  | loop worker => exact hpool hstep
  | wakeUp worker => exact hpool hstep
  | stop => exact hpool hstep
  | task call =>
    obtain ⟨t, w₁, hrun, hended⟩ := runWorker_cases hstep
    have hsafe : InBuffer (runTask t call w).2 := (safe_task h hh hrun).ends (fun _ _ hw => hw) fun _ hw => hw
    rcases hended with ⟨hret, rfl⟩ | ⟨hret, rfl⟩
    · rw [hret] at hsafe
      exact hsafe
    · rw [hret] at hsafe
      cases hreturn : w₁.poolStep (.taskReturns call.worker call.env.pick) with
      | none => exact hsafe
      | some w₂ =>
        show w₂.halted ≠ some .outOfBuffer
        rw [halted_poolStep hreturn]
        exact hsafe

end

/-- A client sets a block, and begins to move. -/
def moving : List Label := player bothExtensions ++ plays bothExtensions (builtPieces.take 4 ++ [[1, 2, 0, 64]])

end TC.Proof.Server
