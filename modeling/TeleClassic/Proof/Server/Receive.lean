import TeleClassic.Impl.Receive
import TeleClassic.Proof.Server.Framing

/-!
# Outcomes of a receive

What `tc_server_client_listen_task` does with each answer of `p_socket_receive`, and with
the error object of the answer. In the payload of a packet the answer is in a
variable that the end of the task does not see: a failed socket is asked again,
and the error is never freed.
-/

namespace TC.Proof.Server

open TC.Impl TC.Impl.Server TC.Impl.ThreadPool TC.Impl.Protocol TC.Proof.ThreadPool Prog
open TC.Impl.Receive (Errors PError ReceiveM pErrorFree pSocketReceive noErrors)

variable {bytes : List Byte} {socket : Stream} {p : TaskM Unit}

/-! ## The task on the world -/

section

variable {call : Call} {slot : Slot} {priority : Priority} {g : Int} {state : World × Errors} {error : Option PError}

theorem shows_free {q : ReceiveM Unit} (h : ∀ state, Shows call state q p) :
    Shows call state (pErrorFree error >>= fun _ => q) p := by
  rcases error with _ | error
  · exact h state
  · exact shows_skip rfl rfl (h _)

theorem shows_then_free : Shows call state (within p >>= fun _ => pErrorFree error) p := by
  rcases hp : p call state.1 with ⟨_ | ⟨⟩, w'⟩
  · have hwithin : within p call state = (none, w', state.2) := by rw [within, hp]
    rw [Shows, bind_of_none hwithin, hp]
    exact ⟨rfl, rfl⟩
  · have hwithin : within p call state = (some (), w', state.2) := by rw [within, hp]
    rw [Shows, bind_of_some hwithin, hp]
    rcases error with _ | error
    · exact ⟨rfl, rfl⟩
    · exact ⟨rfl, rfl⟩

theorem shows_finish_none : Shows call state (Receive.finish slot priority g none) (listenAgain slot priority g) :=
  shows_then_free

theorem shows_finish_wouldBlock {id : Nat} :
    Shows call state (Receive.finish slot priority g (some ⟨id, .wouldBlock⟩)) (listenAgain slot priority g) :=
  shows_then_free

theorem shows_finish_other {id : Nat} : Shows call state (Receive.finish slot priority g (some ⟨id, .other⟩))
    (kickAndRelease slot "Error: Please reconnect.") :=
  shows_then_free

theorem shows_beginPacket {opcode : Byte} : Shows call state (Receive.beginPacket slot priority g opcode none)
    (beginPacket slot priority g opcode) := by
  unfold Receive.beginPacket beginPacket
  refine shows_bind shows_within fun _ s₁ => ?_
  split
  · exact shows_free fun _ => shows_within
  split
  · exact shows_free fun _ => shows_within
  refine shows_bind shows_within fun s s₂ => shows_ask ?_
  dsimp only
  generalize (if call.env.packetBuffer then some ((List.range (tcPacketDataSize opcode.toInt s)).map call.env.memory)
    else none) = packetBuffer
  refine shows_bind shows_within fun _ s₃ => ?_
  split
  · exact shows_free fun _ => shows_within
  · exact shows_finish_none

theorem receive_data (h : call.env.receive = .data bytes) (buflen : Nat) :
    pSocketReceive buflen call state = (some ⟨some (bytes.take buflen), none⟩, state) := by
  rw [pSocketReceive, bind_of_some (p := ask) rfl, h]
  rfl

theorem receive_wouldBlock (h : call.env.receive = .wouldBlock) (buflen : Nat) : pSocketReceive buflen call state =
    (some ⟨none, some ⟨state.2.made, .wouldBlock⟩⟩, state.1, state.2.make) := by
  rw [pSocketReceive, bind_of_some (p := ask) rfl, h]
  rfl

theorem receive_failed (h : call.env.receive = .failed) (buflen : Nat) : pSocketReceive buflen call state =
    (some ⟨none, some ⟨state.2.made, .other⟩⟩, state.1, state.2.make) := by
  rw [pSocketReceive, bind_of_some (p := ask) rfl, h]
  rfl

theorem shows_receiveOpcode :
    Shows call state (Receive.receiveOpcode slot priority g) (receiveOpcode slot priority g) := by
  rcases hreceive : call.env.receive with bytes | _ | _
  · refine shows_skip (receive_data hreceive 1) rfl ?_
    rw [Shows, receiveOpcode, bind_of_some (p := ask) rfl, hreceive]
    rcases bytes with _ | ⟨opcode, bytes⟩
    · exact shows_then_free
    · exact shows_beginPacket
  · refine shows_skip (receive_wouldBlock hreceive 1) rfl ?_
    rw [Shows, receiveOpcode, bind_of_some (p := ask) rfl, hreceive]
    exact shows_finish_wouldBlock
  · refine shows_skip (receive_failed hreceive 1) rfl ?_
    rw [Shows, receiveOpcode, bind_of_some (p := ask) rfl, hreceive]
    exact shows_finish_other

theorem shows_receivePayload :
    Shows call state (Receive.receivePayload slot priority g) (receivePayload slot priority g) := by
  unfold Receive.receivePayload receivePayload
  refine shows_bind shows_within fun s s₁ => ?_
  dsimp only
  generalize tcPacketDataSize s.pendingPacketOpcode s - s.pendingPacketBufferSize = buflen
  rcases hreceive : call.env.receive with bytes | _ | _
  · refine shows_skip (receive_data hreceive buflen) rfl ?_
    rw [Shows, bind_of_some (p := ask) rfl, hreceive]
    dsimp only
    rcases bytes.take buflen with _ | ⟨byte, bytes⟩
    · exact shows_free fun _ => shows_within
    · exact shows_within
  · refine shows_skip (receive_wouldBlock hreceive buflen) rfl ?_
    rw [Shows, bind_of_some (p := ask) rfl, hreceive]
    exact shows_finish_none
  · refine shows_skip (receive_failed hreceive buflen) rfl ?_
    rw [Shows, bind_of_some (p := ask) rfl, hreceive]
    exact shows_finish_none

/-- Without the errors this is the task that the server runs. -/
theorem shows_listen : Shows call state (Receive.tcServerClientListenTask slot priority g)
    (tcServerClientListenTask slot priority g) := by
  unfold Receive.tcServerClientListenTask tcServerClientListenTask
  refine shows_bind shows_within fun aquired s₁ => ?_
  split
  · refine shows_bind shows_within fun there s₂ => ?_
    split
    · refine shows_bind shows_within fun s s₃ => ?_
      split
      · exact shows_receiveOpcode
      · exact shows_receivePayload
    · exact ⟨rfl, rfl⟩
  · exact ⟨rfl, rfl⟩

end

/-! ## The outcomes -/

/-- The session stays, and its next task is scheduled with the pool's own one for a
shutdown. -/
structure Continues (call : Call) (w : World) (slot : Slot) (priority : Priority) (f : Func) (w' : World) :
    Prop where
  connected : generation w' slot = generation w slot
  scheduled : Adds call.worker w.threadPool w'.threadPool (continuation w.threadPool (some f)
    (some .tcServerShutdownClientTask) (some (.session slot)) priority (generation w slot))

/-- The session is gone, and nothing is scheduled. -/
structure Disconnects (call : Call) (w : World) (slot : Slot) (w' : World) : Prop where
  gone : generation w' slot = generation w slot + 1
  scheduled : Adds call.worker w.threadPool w'.threadPool []

/-- A session of which only the socket has changed. -/
def withSocket (s : Session) (clientSocket : Stream) : Session := { s with clientSocket := clientSocket }

/-- The outcome that an answer of the socket should have. A ping may have been
sent before it. -/
def Treated (call : Call) (w : World) (slot : Slot) (priority : Priority) (w' : World) : Prop :=
  match call.env.receive with
  | .data [] => Disconnects call w slot w'
  | .data (_ :: _) => ∃ f, (f = .tcServerClientListenTask ∨ isHandler f = true) ∧ Continues call w slot priority f w'
  | .wouldBlock => Continues call w slot priority .tcServerClientListenTask w' ∧
      ∃ socket, w'.sessionBuffer slot = withSocket (w.sessionBuffer slot) socket
  | .failed => Disconnects call w slot w'

/-- Every error is freed once. -/
def FreedOnce (errors : Errors) : Prop := ∀ id, errors.freed.count id = if id < errors.made then 1 else 0

/-- An opcode that the server knows and has memory for; and no error in a payload. -/
def Proper (env : Env) (s : Session) : Prop :=
  match env.receive with
  | .data [] => True
  | .data (opcode :: _) => s.pendingPacketOpcode = -1 → (tcPacketHandlers opcode.toInt).isSome ∧ env.packetBuffer
  | .wouldBlock => s.pendingPacketOpcode = -1
  | .failed => s.pendingPacketOpcode = -1

/-- The socket gives bytes, with an opcode that the server knows and has memory for, or
would block. -/
def Flows (env : Env) (s : Session) : Prop :=
  match env.receive with
  | .data [] => False
  | .data (opcode :: _) => s.pendingPacketOpcode = -1 → (tcPacketHandlers opcode.toInt).isSome ∧ env.packetBuffer
  | .wouldBlock => True
  | .failed => False

/-- A session that has received a part of a payload. -/
structure InPayload (s : Session) (buffer : List Byte) : Prop where
  busy : s.pendingPacketOpcode ≠ -1
  known : (tcPacketHandlers s.pendingPacketOpcode).isSome = true
  held : s.pendingPacketBuffer = some buffer
  length : buffer.length = tcPacketDataSize s.pendingPacketOpcode s
  part : s.pendingPacketBufferSize < buffer.length

/-- The pool has failed. -/
def PoolFails (w : World) : Prop := w.threadPool.assertFailed = true

section

variable {call : Call} {w w' : World} {slot : Slot} {priority : Priority} {s₁ : Session} {errors : Errors}

theorem Continues.not_disconnects {f : Func} (h : Continues call w slot priority f w') :
    ¬ Disconnects call w slot w' := by
  intro h'
  have hconnected := h.connected
  have hgone := h'.gone
  omega

variable (hg : s₁.currentGeneration = generation w slot)

include hg

theorem disconnects_kick {msg : String} : Meets call (w.setSession slot s₁) (kickAndRelease slot msg)
    (fun _ => Disconnects call w slot) PoolFails := by
  refine meets_kick fun w₁ socket hw₁ => meets_unlock ⟨?_, ?_⟩
  · show ((w₁.setSession slot _).sessionBuffer slot).currentGeneration = _
    rw [sessionBuffer_setSession]
    exact congrArg (· + 1) hg
  · show Adds call.worker w.threadPool w₁.threadPool []
    rw [hw₁.threadPool]
    exact Adds.none ..

variable (hb : Busy w call.worker)

include hb

/-- The next task of a session that stays is scheduled, and the lock released. -/
theorem continues_schedule {f : Func} : Meets call (w.setSession slot s₁) (do
      tcThreadScheduleNext (some f) (some .tcServerShutdownClientTask) (.session slot) priority (generation w slot)
      tcSessionReleaseActionLock slot)
    (fun _ w' => Continues call w slot priority f w' ∧ w'.sessionBuffer slot = { s₁ with actionLock := false })
    PoolFails := by
  refine meets_scheduleNext_or (fun w' _ hfailed => hfailed) hb fun pool hadds => meets_unlock ⟨⟨?_, hadds⟩, ?_⟩
  · show (({ w with threadPool := pool }.setSession slot _).sessionBuffer slot).currentGeneration = _
    rw [sessionBuffer_setSession]
    exact hg
  · exact sessionBuffer_setSession ..

end

/-- The errors, once one is freed that may not be there. -/
def freeing (errors : Errors) : Option PError → Errors
  | none => errors
  | some error => errors.free error.id

theorem meets_thenFree {call : Call} {w : World} {errors : Errors} {error : Option PError}
    {X R : World → Prop} (hp : Meets call w p (fun _ => X) R) :
    Meets call (w, errors) (within p >>= fun _ => pErrorFree error)
      (fun _ r => X r.1 ∧ r.2 = freeing errors error) (fun r => R r.1) := by
  refine meets_bind (meets_within (Q := fun _ r => X r.1 ∧ r.2 = errors) (hp.mono fun _ w' hw' => ⟨hw', rfl⟩)) ?_
  rintro - ⟨w', errors'⟩ ⟨hw', rfl⟩
  rcases error with _ | error
  · exact meets_pure ⟨hw', rfl⟩
  · exact meets_of_some rfl ⟨hw', rfl⟩

theorem freedOnce_none : FreedOnce noErrors := fun _ => rfl

theorem freedOnce_one : FreedOnce (noErrors.make.free 0) := by
  intro id
  show [0].count id = if id < 1 then 1 else 0
  rcases id with _ | id
  · rfl
  · rfl

theorem not_freedOnce : ¬ FreedOnce noErrors.make := by
  intro h
  have hzero := h 0
  simp [noErrors, Errors.make] at hzero

/-- The answer is treated as it should be, with its error, if and only if it is a
proper one; and the session goes on while the bytes flow, whatever becomes of the
error. -/
structure Verdict (call : Call) (w : World) (slot : Slot) (priority : Priority) (r : World × Errors) : Prop where
  treated : (Treated call w slot priority r.1 ∧ FreedOnce r.2) ↔ Proper call.env (w.sessionBuffer slot)
  flows : Flows call.env (w.sessionBuffer slot) → Treated call w slot priority r.1

section

variable {call : Call} {w : World} {slot : Slot} {priority : Priority} {s₁ : Session}

/-- The opcodes with a handler are in range. -/
theorem handlers_in_range {opcode : Int} (h : (tcPacketHandlers opcode).isSome = true) :
    ¬ (opcode < 0 ∨ opcode ≥ maxPackets) := by
  unfold tcPacketHandlers at h
  repeat' split at h
  all_goals first
    | subst_vars; decide
    | cases h

/-- What the task does from `w₁` on makes it treat what was received as it should. -/
abbrev Judges (call : Call) (slot : Slot) (priority : Priority) (w w₁ : World) (p : ReceiveM Unit) : Prop :=
  Meets call (w₁, noErrors) p (fun _ => Verdict call w slot priority) (fun r => PoolFails r.1)

theorem verdict_beginPacket {opcode : Byte} (hb : Busy w call.worker)
    (hg : s₁.currentGeneration = generation w slot)
    (hidle : (w.sessionBuffer slot).pendingPacketOpcode = -1)
    (hreceive : call.env.receive = .data (opcode :: bytes)) :
    Judges call slot priority w (w.setSession slot s₁)
      (Receive.beginPacket slot priority (generation w slot) opcode none) := by
  have hkicked {s : Session} {msg : String} (hs : s.currentGeneration = generation w slot)
      (hnot : (tcPacketHandlers opcode.toInt).isSome = true → call.env.packetBuffer = true → False) :
      Judges call slot priority w (w.setSession slot s)
        (pErrorFree none >>= fun _ => within (kickAndRelease slot msg)) := by
    refine meets_within ((disconnects_kick hs).mono fun _ w' hw' => ?_)
    refine ⟨?_, fun hflows => ?_⟩
    · simp only [Treated, Proper, hreceive, hidle]
      refine ⟨fun h => ?_, fun h => (hnot (h trivial).1 (h trivial).2).elim⟩
      obtain ⟨⟨f, -, hcontinues⟩, -⟩ := h
      exact absurd hw' hcontinues.not_disconnects
    · simp only [Flows, hreceive] at hflows
      exact (hnot (hflows hidle).1 (hflows hidle).2).elim
  have hcontinued {s : Session} (hs : s.currentGeneration = generation w slot)
      (hproper : (tcPacketHandlers opcode.toInt).isSome = true ∧ call.env.packetBuffer = true) :
      Judges call slot priority w (w.setSession slot s) (Receive.finish slot priority (generation w slot) none) := by
    refine (meets_thenFree (continues_schedule hs hb)).mono fun _ r hr => ?_
    obtain ⟨⟨hcontinues, -⟩, herrors⟩ := hr
    have htreated : Treated call w slot priority r.1 := by
      simp only [Treated, hreceive]
      exact ⟨_, .inl rfl, hcontinues⟩
    refine ⟨?_, fun _ => htreated⟩
    simp only [Proper, hreceive]
    exact ⟨fun _ _ => hproper, fun _ => ⟨htreated, herrors ▸ freedOnce_none⟩⟩
  unfold Receive.beginPacket
  refine meets_withinThen (write_eq ..) ?_
  split
  · rename_i hrange
    exact hkicked hg fun hknown _ => handlers_in_range hknown hrange
  split
  · rename_i hunknown
    refine hkicked hg fun hknown _ => ?_
    rw [Option.isNone_iff_eq_none.mp hunknown] at hknown
    cases hknown
  rename_i hknown
  refine meets_withinThen (read_eq ..) (meets_ask ?_)
  dsimp only
  split
  · rename_i hmemory
    refine meets_withinThen (write_eq ..) (hcontinued hg ⟨?_, hmemory⟩)
    simpa [Option.isSome_iff_ne_none] using hknown
  · rename_i hmemory
    exact meets_withinThen (write_eq ..) (hkicked hg fun _ h => hmemory h)

theorem unlocked_eq (hfree : (w.sessionBuffer slot).actionLock = false) :
    { withSocket (locked (w.sessionBuffer slot)) socket with actionLock := false } =
      withSocket (w.sessionBuffer slot) socket := by
  rw [← hfree]
  rfl

/-- While the session waits for an opcode. -/
theorem verdict_receiveOpcode (hb : Busy w call.worker) (hfree : (w.sessionBuffer slot).actionLock = false)
    (hidle : (w.sessionBuffer slot).pendingPacketOpcode = -1)
    (hs₁ : s₁ = withSocket (locked (w.sessionBuffer slot)) socket) :
    Judges call slot priority w (w.setSession slot s₁) (Receive.receiveOpcode slot priority (generation w slot)) := by
  have hg : s₁.currentGeneration = generation w slot := by rw [hs₁]; rfl
  have hunlocked : { s₁ with actionLock := false } = withSocket (w.sessionBuffer slot) socket := by
    rw [hs₁]
    exact unlocked_eq hfree
  unfold Receive.receiveOpcode
  rcases hreceive : call.env.receive with bytes | _ | _
  · refine meets_bind_of_some (receive_data hreceive 1) ?_
    rcases bytes with _ | ⟨opcode, bytes⟩
    · refine (meets_thenFree (disconnects_kick hg)).mono fun _ r hr => ⟨?_, fun hflows => ?_⟩
      · simp only [Treated, Proper, hreceive, iff_true]
        exact ⟨hr.1, hr.2 ▸ freedOnce_none⟩
      · simp only [Flows, hreceive] at hflows
    · exact verdict_beginPacket hb hg hidle hreceive
  · refine meets_bind_of_some (receive_wouldBlock hreceive 1) ?_
    refine (meets_thenFree (continues_schedule hg hb)).mono fun _ r hr => ?_
    obtain ⟨⟨hcontinues, hsession⟩, herrors⟩ := hr
    have htreated : Treated call w slot priority r.1 := by
      simp only [Treated, hreceive]
      exact ⟨hcontinues, socket, hsession.trans hunlocked⟩
    refine ⟨?_, fun _ => htreated⟩
    simp only [Proper, hreceive, hidle, iff_true]
    exact ⟨htreated, herrors ▸ freedOnce_one⟩
  · refine meets_bind_of_some (receive_failed hreceive 1) ?_
    refine (meets_thenFree (disconnects_kick hg)).mono fun _ r hr => ⟨?_, fun hflows => ?_⟩
    · simp only [Treated, Proper, hreceive, hidle, iff_true]
      exact ⟨hr.1, hr.2 ▸ freedOnce_one⟩
    · simp only [Flows, hreceive] at hflows

/-- More bytes of a payload: the session listens again, or has its packet handled. -/
theorem continues_storePayload {buffer : List Byte} (hb : Busy w call.worker)
    (hg : s₁.currentGeneration = generation w slot) (hpayload : InPayload s₁ buffer)
    (hbytes : s₁.pendingPacketBufferSize + bytes.length ≤ buffer.length) :
    Meets call (w.setSession slot s₁) (storePayload slot priority (generation w slot) bytes)
      (fun _ w' => ∃ f, (f = .tcServerClientListenTask ∨ isHandler f = true) ∧ Continues call w slot priority f w')
      PoolFails := by
  obtain ⟨handler, hhandler⟩ := Option.isSome_iff_exists.mp hpayload.known
  unfold storePayload
  refine meets_read ?_
  simp only [hpayload.held, hhandler, if_pos hbytes]
  refine meets_write ?_
  split
  · refine meets_emit ?_
    refine Meets.mono (continues_schedule (w := w.emit _) ?_ hb) fun _ w' hw' => ?_
    · exact hg
    · exact ⟨handler, .inr (isHandler_of_handlers hhandler), hw'.1.connected, hw'.1.scheduled⟩
  · refine Meets.mono (continues_schedule ?_ hb) fun _ w' hw' => ⟨_, .inl rfl, hw'.1⟩
    exact hg

/-- While the session receives a payload. -/
theorem verdict_receivePayload {buffer : List Byte} (hb : Busy w call.worker)
    (hfree : (w.sessionBuffer slot).actionLock = false) (hpayload : InPayload (w.sessionBuffer slot) buffer)
    (hs₁ : s₁ = withSocket (locked (w.sessionBuffer slot)) socket) :
    Judges call slot priority w (w.setSession slot s₁) (Receive.receivePayload slot priority (generation w slot)) := by
  have hg : s₁.currentGeneration = generation w slot := by rw [hs₁]; rfl
  have hunlocked : { s₁ with actionLock := false } = withSocket (w.sessionBuffer slot) socket := by
    rw [hs₁]
    exact unlocked_eq hfree
  have hpayload₁ : InPayload s₁ buffer := by
    rw [hs₁]
    exact ⟨hpayload.busy, hpayload.known, hpayload.held, hpayload.length, hpayload.part⟩
  have hroom := hpayload₁.part
  have hlength := hpayload₁.length
  have hbusy := hpayload.busy
  unfold Receive.receivePayload
  refine meets_withinThen (read_eq ..) ?_
  dsimp only
  rcases hreceive : call.env.receive with bytes | _ | _
  · refine meets_bind_of_some (receive_data hreceive _) ?_
    rcases bytes with _ | ⟨byte, bytes⟩
    · rw [List.take_nil]
      refine meets_within ((disconnects_kick hg).mono fun _ w' hw' => ⟨?_, fun hflows => ?_⟩)
      · simp only [Treated, Proper, hreceive, iff_true]
        exact ⟨hw', freedOnce_none⟩
      · simp only [Flows, hreceive] at hflows
    · obtain ⟨n, hn⟩ : ∃ n, tcPacketDataSize s₁.pendingPacketOpcode s₁ - s₁.pendingPacketBufferSize = n + 1 :=
        Nat.exists_eq_succ_of_ne_zero (by omega)
      rw [hn, List.take_succ_cons]
      have hbytes : s₁.pendingPacketBufferSize + (byte :: bytes.take n).length ≤ buffer.length := by
        have htake := List.length_take_le n bytes
        rw [List.length_cons]
        omega
      refine meets_within ((continues_storePayload hb hg hpayload₁ hbytes).mono fun _ w' hw' => ?_)
      have htreated : Treated call w slot priority w' := by
        simp only [Treated, hreceive]
        exact hw'
      refine ⟨?_, fun _ => htreated⟩
      simp only [Proper, hreceive]
      exact ⟨fun _ hidle => absurd hidle hbusy, fun _ => ⟨htreated, freedOnce_none⟩⟩
  · refine meets_bind_of_some (receive_wouldBlock hreceive _) ?_
    refine (meets_thenFree (continues_schedule hg hb)).mono fun _ r hr => ⟨?_, fun _ => ?_⟩
    · simp only [Proper, hreceive, hbusy, iff_false]
      intro h
      have hfreed := h.2
      rw [hr.2] at hfreed
      exact not_freedOnce hfreed
    · simp only [Treated, hreceive]
      exact ⟨hr.1.1, socket, hr.1.2.trans hunlocked⟩
  · refine meets_bind_of_some (receive_failed hreceive _) ?_
    refine (meets_thenFree (continues_schedule hg hb)).mono fun _ r hr => ⟨?_, fun hflows => ?_⟩
    · simp only [Treated, Proper, hreceive, hbusy, iff_false]
      exact fun h => hr.1.1.not_disconnects h.1
    · simp only [Flows, hreceive] at hflows

/-- The client is still there once it has been pinged. -/
theorem ping_eq (hpinged : pinged call.env (w.sessionBuffer slot) = true) : ∃ socket,
    pingClient slot call (w.setSession slot (locked (w.sessionBuffer slot))) =
      (some true, w.setSession slot (withSocket (locked (w.sessionBuffer slot)) socket)) := by
  unfold pingClient
  rw [bind_of_some (p := ask) rfl]
  split
  · rename_i hdue
    have hsent : (Packet.tcProtocolPing.send (w.sessionBuffer slot).clientSocket).1 = some true := by
      simpa [pinged, hdue] using hpinged
    have hsend : Packet.tcProtocolPing.send (locked (w.sessionBuffer slot)).clientSocket = (some true, _) :=
      Prod.ext hsent rfl
    exact ⟨_, bind_of_some (send_eq hsend)⟩
  · exact ⟨_, rfl⟩

/-- The whole task, once the client has been pinged if that was due. -/
theorem verdict_listen (hb : Busy w call.worker) (hfree : (w.sessionBuffer slot).actionLock = false)
    (hpinged : pinged call.env (w.sessionBuffer slot) = true)
    (hstate : (w.sessionBuffer slot).pendingPacketOpcode = -1 ∨ ∃ buffer, InPayload (w.sessionBuffer slot) buffer) :
    Judges call slot priority w w (Receive.tcServerClientListenTask slot priority (generation w slot)) := by
  unfold Receive.tcServerClientListenTask
  refine meets_withinThen (aquire_unlocked hfree) ?_
  obtain ⟨socket, hping⟩ := ping_eq (w := w) hpinged
  refine meets_withinThen hping (meets_withinThen (read_eq ..) ?_)
  split
  · rename_i hidle
    exact verdict_receiveOpcode hb hfree hidle rfl
  · rename_i hbusy
    obtain ⟨buffer, hpayload⟩ := hstate.resolve_left hbusy
    exact verdict_receivePayload hb hfree hpayload rfl

end

/-- The task that listens to the client in a slot. -/
def listenTask (w : World) (slot : Slot) (priority : Priority) : Context Func Arg :=
  ⟨priority, some .tcServerClientListenTask, some (.session slot), generation w slot⟩

section

variable {config : Config} {numThreads maxBlockingThreads : Nat}
  {tasks : Priority → Nat → Context Func Arg} {sessions : Slot → Session} {ls : List Label} {w : World} {call : Call}
  {slot : Slot} {priority : Priority}
  (h : run Impl.Server.step (start config numThreads maxBlockingThreads tasks sessions) ls = some w)
  (hh : w.halted = none)

include h hh

/-- The states in which a session listens. -/
theorem listening_states {t : Context Func Arg} {worker c : Nat}
    (hrun : w.threadPool.running? worker = some (t, c)) (ht : mine slot (generation w slot) t)
    (hlisten : t.func = some .tcServerClientListenTask) : (w.sessionBuffer slot).actionLock = false ∧
      ((w.sessionBuffer slot).pendingPacketOpcode = -1 ∨ ∃ buffer, InPayload (w.sessionBuffer slot) buffer) := by
  obtain ⟨f, packets, done, r, hf, htracks, hlock⟩ := tracks_running h hh hrun ht
  rw [hlisten, Option.some.injEq] at hf
  subst hf
  refine ⟨hlock, ?_⟩
  obtain ⟨-, idle | ⟨opcode, payload, buffer, fills⟩⟩ := htracks.listening
  · exact .inl idle.code
  · refine .inr ⟨buffer, ?_, ?_, fills.held, ?_, ?_⟩
    · intro hcode
      have hknown := fills.known
      rw [← fills.code, hcode, handlers_neg] at hknown
      cases hknown
    · rw [fills.code]
      exact fills.known
    · rw [fills.code, dataSize_eq, fills.custom, fills.length]
    · rw [fills.size, fills.length]
      exact fills.part

/-- The task that listens returns, with its verdict on the answer of the socket. -/
theorem listen_verdict (hrun : w.threadPool.running? call.worker = some (listenTask w slot priority, 0))
    (hpinged : pinged call.env (w.sessionBuffer slot) = true) : ∃ w' errors,
    Receive.tcServerClientListenTask slot priority (generation w slot) call (w, noErrors) = (some (), w', errors) ∧
      Verdict call w slot priority (w', errors) := by
  obtain ⟨hfree, hstate⟩ := listening_states h hh hrun ⟨rfl, rfl⟩ rfl
  have hbusy : Busy w call.worker := ⟨(sound_run h).reserve.ok, _, _, hrun⟩
  have hverdict : Judges call slot priority w w _ := verdict_listen hbusy hfree hpinged hstate
  -- the pool does not fail in the task, since it does not in the one that the server runs
  have hshows : Shows call (w, noErrors) (Receive.tcServerClientListenTask slot priority (generation w slot))
      (tcServerClientListenTask slot priority (generation w slot)) := shows_listen
  have hok : (tcServerClientListenTask slot priority (generation w slot) call w).2.threadPool.assertFailed = false :=
    ((sound_run h).runTask hrun).reserve.ok
  rcases hresult : Receive.tcServerClientListenTask slot priority (generation w slot) call (w, noErrors) with
    ⟨_ | ⟨⟩, w', errors⟩
  · rw [Judges, Meets, hresult] at hverdict
    rw [Shows, hresult] at hshows
    have hfailed : w'.threadPool.assertFailed = true := hverdict.2 rfl
    rw [← hshows.2, hfailed] at hok
    cases hok
  · rw [Judges, Meets, hresult] at hverdict
    exact ⟨w', errors, rfl, hverdict.1 () rfl⟩

/-- In every state of a session that listens, waiting for an opcode or within a
payload, the task returns; and the answer of the socket has the outcome it should
have, with its error freed once, if and only if it is not an error within a payload,
or an opcode that is not known or for which there is no memory. -/
theorem receive_treated_iff (hrun : w.threadPool.running? call.worker = some (listenTask w slot priority, 0))
    (hpinged : pinged call.env (w.sessionBuffer slot) = true) : ∃ w' errors,
    Receive.tcServerClientListenTask slot priority (generation w slot) call (w, noErrors) = (some (), w', errors) ∧
      ((Treated call w slot priority w' ∧ FreedOnce errors) ↔ Proper call.env (w.sessionBuffer slot)) := by
  obtain ⟨w', errors, hresult, hverdict⟩ := listen_verdict h hh hrun hpinged
  exact ⟨w', errors, hresult, hverdict.treated⟩

end

/-- A client has sent an opcode, and the worker listens to it again. -/
def opcodeSent : List Label := visit 0x00 [] 0

/-- The task that listens gets an answer of the socket. -/
def answering (receive : Impl.Server.Receive) : Call := ⟨0, { hospitable with receive := receive }⟩

theorem receive_treated_iff_data : ∃ w w' errors, run Impl.Server.step oneWorld opcodeSent = some w ∧
    Receive.tcServerClientListenTask first .low (generation w first) (answering (.data [7])) (w, noErrors) =
      (some (), w', errors) ∧
    Treated (answering (.data [7])) w first .low w' ∧ FreedOnce errors := by
  obtain ⟨w, hw, hh, hlistens, hbusy⟩ : ∃ w, run Impl.Server.step oneWorld opcodeSent = some w ∧
      w.halted = none ∧ w.threadPool.running? 0 = some (listenTask w first .low, 0) ∧
      (w.sessionBuffer first).pendingPacketOpcode ≠ -1 := exists_of_decide (by decide +kernel)
  have hpinged : pinged (answering (.data [7])).env (w.sessionBuffer first) = true := rfl
  obtain ⟨w', errors, hresult, hiff⟩ := receive_treated_iff hw hh hlistens hpinged
  obtain ⟨htreated, hfreed⟩ := hiff.mpr fun hidle => absurd hidle hbusy
  exact ⟨w, w', errors, hw, hresult, htreated, hfreed⟩

/-- The socket fails within a payload: the session stays and listens again, and the
error is not freed. -/
theorem failure_ignored : ∃ w w' errors, run Impl.Server.step oneWorld opcodeSent = some w ∧
    w.threadPool.running? 0 = some (listenTask w first .low, 0) ∧
    Receive.tcServerClientListenTask first .low (generation w first) (answering .failed) (w, noErrors) =
      (some (), w', errors) ∧
    generation w' first = generation w first ∧
    w'.threadPool.accepted = w.threadPool.accepted ++ [listenTask w first .low] ∧
    errors.made = 1 ∧ errors.freed = [] := by
  obtain ⟨w, hw, hlistens, hreturns, hobs'⟩ : ∃ w, run Impl.Server.step oneWorld opcodeSent = some w ∧
      let result := Receive.tcServerClientListenTask first .low (generation w first) (answering .failed) (w, noErrors)
      w.threadPool.running? 0 = some (listenTask w first .low, 0) ∧ result.1 = some () ∧
      generation result.2.1 first = generation w first ∧
      result.2.1.threadPool.accepted = w.threadPool.accepted ++ [listenTask w first .low] ∧
      result.2.2.made = 1 ∧ result.2.2.freed = [] := exists_of_decide (by decide +kernel)
  exact ⟨w, _, _, hw, hlistens, Prod.ext hreturns rfl, hobs'⟩

/-! ## Fragments -/

/-- A turn that listens keeps the session while bytes flow: it gets the bytes, with
the handler or the next turn scheduled, or finds that the socket would block and
leaves all as it was. -/
def Listens (w : World) (slot : Slot) : Prop := ∀ call priority,
  w.threadPool.running? call.worker = some (listenTask w slot priority, 0) →
  pinged call.env (w.sessionBuffer slot) = true → Flows call.env (w.sessionBuffer slot) →
  ∃ w', tcServerClientListenTask slot priority (generation w slot) call w = (some (), w') ∧
    Treated call w slot priority w'

section

variable {config config' : Config} {numThreads numThreads' maxBlockingThreads maxBlockingThreads' : Nat}
  {tasks tasks' : Priority → Nat → Context Func Arg} {sessions sessions' : Slot → Session}

theorem listens_run {ls : List Label} {w : World}
    (h : run Impl.Server.step (start config numThreads maxBlockingThreads tasks sessions) ls = some w)
    (hh : w.halted = none) (slot : Slot) : Listens w slot := by
  intro call priority hrun hpinged hflows
  obtain ⟨w', errors, hresult, hverdict⟩ := listen_verdict h hh hrun hpinged
  have hshows : Shows call (w, noErrors) (Receive.tcServerClientListenTask slot priority (generation w slot))
      (tcServerClientListenTask slot priority (generation w slot)) := shows_listen
  rw [Shows, hresult] at hshows
  exact ⟨w', Prod.ext hshows.1.symm hshows.2.symm, hverdict.flows hflows⟩

end

/-- A client without extensions sets a block. -/
def settler : List Label :=
  talk listening (worldWithDefault "lobby") [[0x00], identification 0, [0x05], [0, 1, 0, 2, 0, 3, 1, 4]] 24

/-- The same client sends a byte of its identification, and nothing for a while. -/
def slowSettler : List Label := talk listening (worldWithDefault "lobby") [[0x00], [7]] 6

/-- The rest comes in pieces. -/
def slowerSettler : List Label :=
  slowSettler ++ (run Impl.Server.step (worldWithDefault "lobby") slowSettler).elim [] fun w =>
    drive listening w [(identification 0).drop 1, [0x05], [0], [1, 0, 2, 0], [3, 1], [4]] 35

/-- Nothing comes within a packet. -/
def waits (t : Taken) : Bool :=
  t.func = .tcServerClientListenTask ∧ t.before.pendingPacketOpcode ≠ -1 ∧ heard t.call.env t.before = []

end TC.Proof.Server
