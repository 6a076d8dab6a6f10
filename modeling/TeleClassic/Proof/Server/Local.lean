import TeleClassic.Proof.Server.Steps

/-!
# Programs on one session

A task works on the session in one slot, so the worlds it goes through are
written `w.setSession slot s`: `s` is the session as the task has left it so
far, and `w` the rest of the server. There is one rule for each function that
the tasks are made of; it asks for what follows from every end the function can
have. `Reaches` collects what a task has done to the rest of the server.
-/

namespace TC.Proof.Server

open TC.Impl.Server TC.Impl.ThreadPool TC.Impl.Protocol TC.Proof.ThreadPool Prog

variable {offset : Nat} {priority : Priority}

/-! ## The rest of the server -/

def isMark : Event → Bool
  | .accepted _ _ => true
  | .finalizing _ _ => true
  | _ => false

/-- The sessions accepted and the calls of `finalize_player_identification` so
far. -/
def marks (w : World) : List Event := w.trace.filter isMark

theorem marks_emit {w : World} {e : Event} (h : isMark e = false) : marks (w.emit e) = marks w := by
  rw [marks, World.emit, List.filter_append, List.filter_cons_of_neg (by simp [h]), List.filter_nil,
    List.append_nil]
  rfl

/-- What the task of a worker on the session in a slot has done to the rest of
the server: it has added some tasks, and may have finished a handshake. -/
structure Reaches (worker : Nat) (slot : Slot) (w w' : World) (fin : List Event)
    (tasks : List (Context Func Arg)) : Prop where
  others : ∀ slot', slot' ≠ slot → w'.sessionBuffer slot' = w.sessionBuffer slot'
  adds : Adds worker w.threadPool w'.threadPool tasks
  config : w'.config = w.config
  marks : marks w' = marks w ++ fin
  halted : w'.halted = w.halted

section

variable {worker : Nat} {slot : Slot} {w w' : World} {fin : List Event} {tasks : List (Context Func Arg)}

theorem Reaches.refl (worker : Nat) (slot : Slot) (w : World) : Reaches worker slot w w [] [] :=
  ⟨fun _ _ => rfl, Adds.none worker _, rfl, (List.append_nil _).symm, rfl⟩

theorem Reaches.trans {w'' : World} {fin' : List Event} {tasks' : List (Context Func Arg)}
    (h : Reaches worker slot w w' fin tasks) (h' : Reaches worker slot w' w'' fin' tasks') :
    Reaches worker slot w w'' (fin ++ fin') (tasks ++ tasks') := by
  have hadds := h.adds
  have hadds' := h'.adds
  refine ⟨fun slot' hne => (h'.others slot' hne).trans (h.others slot' hne), ⟨?_, ?_, ?_, ?_, fun t c hr => ?_⟩,
    h'.config.trans h.config, ?_, h'.halted.trans h.halted⟩
  · rw [hadds'.accepted, hadds.accepted, List.append_assoc]
  · rw [hadds'.executed, hadds.executed]
  · rw [hadds'.shutdown, hadds.shutdown]
  · rw [hadds'.assertFailed, hadds.assertFailed]
  · obtain ⟨c', hr'⟩ := hadds.running t c hr
    exact hadds'.running t c' hr'
  · rw [h'.marks, h.marks, List.append_assoc]

theorem reaches_setSession (worker : Nat) (slot : Slot) (w : World) (s : Session) :
    Reaches worker slot w (w.setSession slot s) [] [] :=
  ⟨fun _ hne => sessionBuffer_setSession_of_ne w hne s, Adds.none worker _, rfl, (List.append_nil _).symm, rfl⟩

theorem reaches_schedule {pool : System Func Arg} (h : Adds worker w.threadPool pool tasks) :
    Reaches worker slot w { w with threadPool := pool } [] tasks :=
  ⟨fun _ _ => rfl, h, rfl, (List.append_nil _).symm, rfl⟩

end

/-- The books are changed: ids, the number of players, and what is noted. -/
structure Alike (w w' : World) : Prop where
  sessionBuffer : w'.sessionBuffer = w.sessionBuffer
  threadPool : w'.threadPool = w.threadPool
  config : w'.config = w.config
  marks : marks w' = marks w
  halted : w'.halted = w.halted

theorem Alike.emit {w : World} {e : Event} (he : isMark e = false) : Alike w (w.emit e) :=
  ⟨rfl, rfl, rfl, marks_emit he, rfl⟩

theorem Alike.refl (w : World) : Alike w w := ⟨rfl, rfl, rfl, rfl, rfl⟩

theorem Alike.trans {w w' w'' : World} (h : Alike w w') (h' : Alike w' w'') : Alike w w'' :=
  ⟨h'.sessionBuffer.trans h.sessionBuffer, h'.threadPool.trans h.threadPool, h'.config.trans h.config,
    h'.marks.trans h.marks, h'.halted.trans h.halted⟩

theorem Alike.reaches {w w' : World} (h : Alike w w') (worker : Nat) (slot : Slot) :
    Reaches worker slot w w' [] [] := by
  refine ⟨fun slot' _ => ?_, ?_, h.config, ?_, h.halted⟩
  · rw [h.sessionBuffer]
  · rw [h.threadPool]
    exact Adds.none worker _
  · rw [h.marks, List.append_nil]

/-- A worker whose task goes on. -/
def Busy (w : World) (worker : Nat) : Prop :=
  w.threadPool.assertFailed = false ∧ ∃ t c, w.threadPool.running? worker = some (t, c)

section

variable {worker : Nat} {slot : Slot} {w w' w'' : World} {fin : List Event}

theorem Reaches.busy {tasks : List (Context Func Arg)} (h : Reaches worker slot w w' fin tasks)
    (hb : Busy w worker) : Busy w' worker := by
  obtain ⟨hok, t, c, hrun⟩ := hb
  obtain ⟨c', hrun'⟩ := h.adds.running t c hrun
  exact ⟨h.adds.assertFailed.trans hok, t, c', hrun'⟩

theorem Reaches.alike (h : Reaches worker slot w w' fin []) (ha : Alike w' w'') :
    Reaches worker slot w w'' fin [] := by
  simpa using h.trans (ha.reaches worker slot)

/-- Tasks are scheduled once. -/
theorem Reaches.schedule {pool : System Func Arg} {tasks : List (Context Func Arg)}
    (h : Reaches worker slot w w' fin []) (ha : Adds worker w'.threadPool pool tasks) :
    Reaches worker slot w { w' with threadPool := pool } fin tasks := by
  simpa using h.trans (reaches_schedule ha)

end

/-! ## Packets -/

def byteAt (packet : List Byte) (offset : Nat) : Byte := ((packet.drop offset).take 1).headD 0

def shortAt (packet : List Byte) (offset : Nat) : BitVec 16 :=
  let bytes := (packet.drop offset).take 2
  tcProtocolDecodeShort (bytes.getD 0 0) (bytes.getD 1 0)

def intAt (packet : List Byte) (offset : Nat) : BitVec 32 :=
  let bytes := (packet.drop offset).take 4
  tcProtocolDecodeInt (bytes.getD 0 0) (bytes.getD 1 0) (bytes.getD 2 0) (bytes.getD 3 0)

def stringAt (packet : List Byte) (offset : Nat) : List Byte :=
  (tcProtocolDecodeString ((packet.drop offset).take maxStrLen)).1

/-! ## Rules -/

section

variable {α β : Type} {call : Call} {slot : Slot} {w : World} {s : Session} {Q : β → World → Prop}
  {R : World → Prop} {k : Unit → TaskM β}

theorem read_eq (call : Call) (slot : Slot) (w : World) (s : Session) :
    session slot call (w.setSession slot s) = (some s, w.setSession slot s) := by
  show (some ((w.setSession slot s).sessionBuffer slot), _) = _
  rw [sessionBuffer_setSession]

theorem meets_read {k : Session → TaskM β} (h : Meets call (w.setSession slot s) (k s) Q R) :
    Meets call (w.setSession slot s) (session slot >>= k) Q R :=
  meets_bind_of_some (read_eq ..) h

theorem write_eq (call : Call) (slot : Slot) (w : World) (s : Session) (f : Session → Session) :
    modifySession slot f call (w.setSession slot s) = (some (), w.setSession slot (f s)) := by
  show (some (), (w.setSession slot s).setSession slot (f ((w.setSession slot s).sessionBuffer slot))) = _
  rw [sessionBuffer_setSession, setSession_setSession]

theorem meets_write {f : Session → Session} (h : Meets call (w.setSession slot (f s)) (k ()) Q R) :
    Meets call (w.setSession slot s) (modifySession slot f >>= k) Q R :=
  meets_bind_of_some (write_eq _ _ _ _ f) h

theorem meets_unlockThen (h : Meets call (w.setSession slot { s with actionLock := false }) (k ()) Q R) :
    Meets call (w.setSession slot s) (tcSessionReleaseActionLock slot >>= k) Q R :=
  meets_write (f := ({ · with actionLock := false })) h

theorem meets_unlock {Q : Unit → World → Prop} (h : Q () (w.setSession slot { s with actionLock := false })) :
    Meets call (w.setSession slot s) (tcSessionReleaseActionLock slot) Q R := by
  have hunlock : tcSessionReleaseActionLock slot call (w.setSession slot s) =
      (some (), w.setSession slot { s with actionLock := false }) :=
    write_eq call slot w s ({ · with actionLock := false })
  exact meets_of_some hunlock h

theorem meets_emit {e : Event} (h : Meets call ((w.emit e).setSession slot s) (k ()) Q R) :
    Meets call (w.setSession slot s) (emit e >>= k) Q R := h

theorem send_eq {packet : Packet} {sent : Bool} {socket : Stream}
    (hsend : packet.send s.clientSocket = (some sent, socket)) : send slot packet call (w.setSession slot s) =
      (some sent, w.setSession slot { s with clientSocket := socket }) := by
  rw [send, bind_of_some (read_eq ..), hsend]
  exact bind_of_some (write_eq ..)

theorem meets_send {packet : Packet} (hp : packet.asserts = true) {k : Bool → TaskM β}
    (h : ∀ sent socket, packet.send s.clientSocket = (some sent, socket) →
      Meets call (w.setSession slot { s with clientSocket := socket }) (k sent) Q R) :
    Meets call (w.setSession slot s) (send slot packet >>= k) Q R := by
  obtain ⟨sent, socket, hsend⟩ : ∃ sent socket, packet.send s.clientSocket = (some sent, socket) := by
    rw [Packet.send, if_pos hp]
    exact ⟨_, _, rfl⟩
  exact meets_bind_of_some (send_eq hsend) (h sent socket hsend)

section

variable (hR : ∀ w' : World, w'.halted.isSome = true → R w')

include hR

theorem meets_halt {failure : Failure} : Meets call w (halt failure) Q R :=
  meets_of_none rfl (hR _ rfl)

theorem meets_assert {condition : Bool} (h : condition = true → Meets call w (k ()) Q R) :
    Meets call w (tcAssert condition >>= k) Q R := by
  rcases condition with _ | _
  · exact meets_bind (Q := fun _ _ => False) (meets_halt hR) fun _ _ hf => hf.elim
  · exact h rfl

theorem meets_readBytes {n : Nat} {k : List Byte → TaskM β}
    (h : ∀ buffer, s.pendingPacketBuffer = some buffer → offset + n ≤ buffer.length →
      Meets call (w.setSession slot s) (k ((buffer.drop offset).take n)) Q R) :
    Meets call (w.setSession slot s) (readBytes slot offset n >>= k) Q R := by
  refine meets_bind (Q := fun bytes w' => w' = w.setSession slot s ∧
    Meets call (w.setSession slot s) (k bytes) Q R) ?_ fun bytes w' hw' => ?_
  · unfold readBytes
    apply meets_read
    rcases hbuffer : s.pendingPacketBuffer with _ | buffer
    · exact meets_halt hR
    · dsimp only
      split
      · rename_i hle
        exact meets_pure ⟨rfl, h buffer hbuffer hle⟩
      · exact meets_halt hR
  · obtain ⟨rfl, hk⟩ := hw'
    exact hk

theorem meets_readByte {k : Byte → TaskM β}
    (h : ∀ buffer, s.pendingPacketBuffer = some buffer → offset + 1 ≤ buffer.length →
      Meets call (w.setSession slot s) (k (byteAt buffer offset)) Q R) :
    Meets call (w.setSession slot s) (readByte slot offset >>= k) Q R :=
  meets_assoc (meets_readBytes hR h)

theorem meets_readShort {k : BitVec 16 → TaskM β}
    (h : ∀ buffer, s.pendingPacketBuffer = some buffer → offset + 2 ≤ buffer.length →
      Meets call (w.setSession slot s) (k (shortAt buffer offset)) Q R) :
    Meets call (w.setSession slot s) (readShort slot offset >>= k) Q R :=
  meets_assoc (meets_readBytes hR h)

theorem meets_readInt {k : BitVec 32 → TaskM β}
    (h : ∀ buffer, s.pendingPacketBuffer = some buffer → offset + 4 ≤ buffer.length →
      Meets call (w.setSession slot s) (k (intAt buffer offset)) Q R) :
    Meets call (w.setSession slot s) (readInt slot offset >>= k) Q R :=
  meets_assoc (meets_readBytes hR h)

theorem meets_readString {k : List Byte → TaskM β}
    (h : ∀ buffer, s.pendingPacketBuffer = some buffer → offset + maxStrLen ≤ buffer.length →
      Meets call (w.setSession slot s) (k (stringAt buffer offset)) Q R) :
    Meets call (w.setSession slot s) (readString slot offset >>= k) Q R :=
  meets_assoc (meets_readBytes hR h)

omit hR in
/-- The pool fails, or takes the task. -/
theorem meets_scheduleNext_or {nextTask shutdownTask : Option Func} {arg : Arg} {g : Int}
    (hfailed : ∀ w' : World, w'.halted.isSome = true → w'.threadPool.assertFailed = true → R w')
    (hb : Busy w call.worker)
    (h : ∀ pool, Adds call.worker w.threadPool pool
      (continuation w.threadPool nextTask shutdownTask (some arg) priority g) →
      Meets call ({ w with threadPool := pool }.setSession slot s) (k ()) Q R) :
    Meets call (w.setSession slot s) (tcThreadScheduleNext nextTask shutdownTask arg priority g >>= k) Q R := by
  obtain ⟨hok, t, c, hrun⟩ := hb
  obtain ⟨pool, hpool⟩ : ∃ pool, Impl.ThreadPool.step w.threadPool (.scheduleNext call.worker nextTask
      shutdownTask (some arg) priority g call.env.pick) = some pool := (exists_step hok hrun).1 ..
  have hcall : tcThreadScheduleNext nextTask shutdownTask arg priority g call (w.setSession slot s) =
      tcAssert (!pool.assertFailed) call ({ w with threadPool := pool }.setSession slot s) := by
    have hpool' : (Impl.ThreadPool.step w.threadPool (.scheduleNext call.worker nextTask
        shutdownTask (some arg) priority g call.env.pick)).getD w.threadPool = pool := by
      rw [hpool, Option.getD_some]
    subst hpool'
    rfl
  rcases scheduleNext_adds hpool with ⟨hfail, -⟩ | hadds
  · refine meets_of_none (bind_of_none ?_) (hfailed { { w with threadPool := pool }.setSession slot s with
      halted := some .assertFailed } rfl hfail)
    rw [hcall, hfail]
    rfl
  · refine meets_bind_of_some (a := ()) ?_ (h pool hadds)
    rw [hcall, hadds.assertFailed, hok]
    rfl

theorem meets_scheduleNext {nextTask shutdownTask : Option Func} {arg : Arg} {g : Int}
    (hb : Busy w call.worker)
    (h : ∀ pool, Adds call.worker w.threadPool pool
      (continuation w.threadPool nextTask shutdownTask (some arg) priority g) →
      Meets call ({ w with threadPool := pool }.setSession slot s) (k ()) Q R) :
    Meets call (w.setSession slot s) (tcThreadScheduleNext nextTask shutdownTask arg priority g >>= k) Q R :=
  meets_scheduleNext_or (fun w' hh _ => hR w' hh) hb h

end

theorem meets_scheduleNew {task : Func} {arg : Arg} {g : Int} {k : Bool → TaskM β}
    (h : ∀ scheduled pool,
      Impl.ThreadPool.tcThreadScheduleNew w.threadPool ⟨priority, some task, some arg, g⟩ call.env.pick =
        (scheduled, pool) →
      Meets call ({ w with threadPool := pool }.setSession slot s) (k scheduled) Q R) :
    Meets call (w.setSession slot s) (tcThreadScheduleNew task arg priority g >>= k) Q R :=
  meets_bind_of_some rfl (h _ _ rfl)

/-! ## Disconnecting -/

/-- A session that is disconnected. -/
def gone (s : Session) : Session :=
  { s with currentJoinable := none, pendingPacketBuffer := none, currentGeneration := s.currentGeneration + 1 }

theorem leaveCurrent_eq (call : Call) (slot : Slot) (w : World) (s : Session) : ∃ w', Alike w w' ∧
    leaveCurrent slot call (w.setSession slot s) = (some (), w'.setSession slot s) := by
  rw [leaveCurrent, bind_of_some (read_eq ..)]
  rcases hjoinable : s.currentJoinable with _ | joinable
  · exact ⟨w, Alike.refl w, rfl⟩
  · exact ⟨w.emit (.left slot s.currentGeneration joinable), Alike.emit rfl, rfl⟩

theorem disconnect_eq (call : Call) (slot : Slot) (w : World) (s : Session) : ∃ w', Alike w w' ∧
    disconnectSession slot call (w.setSession slot s) = (some (), w'.setSession slot (gone s)) := by
  obtain ⟨w₁, h₁, hleave⟩ := leaveCurrent_eq call slot w s
  have hbooks : Alike w₁ ({ w₁ with
      activePlayers := if s.authenticatedService.isSome then w₁.activePlayers - 1 else w₁.activePlayers
      idBufferHead := w₁.idBufferHead - 1
      idBuffer := Function.update w₁.idBuffer (w₁.idBufferHead - 1) slot }.emit
        (.disconnected slot s.currentGeneration)) :=
    ⟨rfl, rfl, rfl, marks_emit rfl, rfl⟩
  refine ⟨_, h₁.trans hbooks, ?_⟩
  refine (bind_of_some hleave).trans ((bind_of_some (write_eq ..)).trans ((bind_of_some (write_eq ..)).trans ?_))
  simp only [Prog.modify, World.release, sessionBuffer_setSession, setSession_setSession]
  rfl

theorem meets_disconnect (h : ∀ w', Alike w w' → Meets call (w'.setSession slot (gone s)) (k ()) Q R) :
    Meets call (w.setSession slot s) (disconnectSession slot >>= k) Q R := by
  obtain ⟨w', hw', heq⟩ := disconnect_eq call slot w s
  exact meets_bind_of_some heq (h w' hw')

/-- A kick by a task that holds the lock, with a message that may not get there. -/
theorem meets_kick {msg : Option String} {g : Int}
    (h : ∀ w' socket, Alike w w' → Meets call (w'.setSession slot (gone { s with clientSocket := socket })) (k ()) Q R) :
    Meets call (w.setSession slot s) (tcServerKickSession slot msg g false >>= k) Q R := by
  rcases msg with _ | msg
  · exact meets_disconnect fun w' hw' => h w' s.clientSocket hw'
  · exact meets_assoc (meets_send rfl fun _ socket _ => meets_disconnect fun w' hw' => h w' socket hw')

end

end TC.Proof.Server
