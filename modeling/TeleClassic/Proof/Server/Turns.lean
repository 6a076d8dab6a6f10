import TeleClassic.Proof.Server.Local

/-!
# The turns of a session

A live session is served by tasks, each of which schedules the next. A `Turn`
is what one of them does to its session: the function that ran, whether it
finished the handshake, what it scheduled, and the session it leaves behind,
each way with the conditions under which the task takes it. `ends_task` is the
connection to the tasks themselves: a task that gets the lock of its session in
its generation makes a turn, and changes no other session.

The socket, the name and the joinable of a session are left out (`Same`): no
later turn depends on them as far as packets are concerned.
-/

namespace TC.Proof.Server

open TC.Impl.Server TC.Impl.ThreadPool TC.Impl.Protocol TC.Proof.ThreadPool Prog

variable {s s' : Session} {β : Type} {next : Option Func} {R : World → Prop} {Q : β → World → Prop}
  {k : Unit → TaskM β}

/-! ## Sessions -/

/-- The same session, as far as the packets of the client are concerned. -/
structure Same (s s' : Session) : Prop where
  generation : s'.currentGeneration = s.currentGeneration
  service : s'.authenticatedService = s.authenticatedService
  cpe : s'.supportsCpe = s.supportsCpe
  versions : s'.extCpeVersions = s.extCpeVersions
  remaining : s'.remainingCpeExtPackets = s.remainingCpeExtPackets
  opcode : s'.pendingPacketOpcode = s.pendingPacketOpcode
  buffer : s'.pendingPacketBuffer = s.pendingPacketBuffer
  size : s'.pendingPacketBufferSize = s.pendingPacketBufferSize

theorem Same.refl (s : Session) : Same s s := ⟨rfl, rfl, rfl, rfl, rfl, rfl, rfl, rfl⟩

theorem Same.trans {s'' : Session} (h : Same s s') (h' : Same s' s'') : Same s s'' :=
  ⟨h'.generation.trans h.generation, h'.service.trans h.service, h'.cpe.trans h.cpe,
    h'.versions.trans h.versions, h'.remaining.trans h.remaining, h'.opcode.trans h.opcode,
    h'.buffer.trans h.buffer, h'.size.trans h.size⟩

theorem Same.after {s'' : Session} (h' : Same s' s'') (h : Same s s') : Same s s'' := h.trans h'

/-- What was negotiated depends on the versions only. -/
theorem supports_congr (h : s'.extCpeVersions = s.extCpeVersions) (i : Fin maxSupported) :
    supports s' i = supports s i := by
  rw [supports, supports, tcSessionGetExtensionVersion, tcSessionGetExtensionVersion, h]

theorem dataSize_congr (h : s'.extCpeVersions = s.extCpeVersions) (opcode : Int) :
    tcPacketDataSize opcode s' = tcPacketDataSize opcode s := by
  rw [tcPacketDataSize, tcPacketDataSize, supports_congr h]

/-- A session that waits for the next packet. -/
def cleaned (s : Session) : Session :=
  { s with pendingPacketOpcode := -1, pendingPacketBuffer := none, pendingPacketBufferSize := 0 }

/-- A session that expects one entry less. -/
def counted (s : Session) : Session := { s with remainingCpeExtPackets := s.remainingCpeExtPackets - 1 }

/-! ## What a client sends -/

/-- How many bytes `tc_server_client_listen_task` asks the socket for. -/
def requested (s : Session) : Nat :=
  if s.pendingPacketOpcode = -1 then 1
  else tcPacketDataSize s.pendingPacketOpcode s - s.pendingPacketBufferSize

/-- The ping is not due, or it was sent. -/
def pinged (env : Env) (s : Session) : Bool :=
  !env.pingDue || (Packet.tcProtocolPing.send s.clientSocket).1 == some true

/-- The bytes that `tc_server_client_listen_task` gets. -/
def heard (env : Env) (s : Session) : List Byte :=
  if pinged env s then
    match env.receive with
    | .data bytes => bytes.take (requested s)
    | .wouldBlock => []
    | .failed => []
  else []

/-- A session with more bytes of its payload. -/
def stored (s : Session) (buffer bytes : List Byte) : Session :=
  { s with
    pendingPacketBuffer := some (writeAt buffer s.pendingPacketBufferSize bytes)
    pendingPacketBufferSize := s.pendingPacketBufferSize + bytes.length }

/-- The extension an ExtEntry packet names. -/
def entryIndex (packet : List Byte) : Option Nat := tcCpeGetExtensionIndex (stringAt packet 0)

/-- The version of an extension that both sides have. -/
def effective (version : BitVec 32) (i : Nat) : BitVec 32 :=
  minVersion version (((supportedExtensions.map Extension.version).getD i 0).signExtend 32)

/-- The version of an ExtEntry packet. -/
def entryVersion (packet : List Byte) : BitVec 32 := intAt packet maxStrLen

def isValid (version : BitVec 32) : Prop := 1 ≤ version.toInt ∧ version.toInt ≤ 3

/-- A session that has counted an ExtEntry packet of an extension it has. -/
def declared (s : Session) (packet : List Byte) (i : Nat) : Session :=
  counted (setExtensionVersion s i (effective (entryVersion packet) i))

/-- An ExtEntry packet that is not refused, of an extension the server has. -/
structure Declares (s : Session) (packet : List Byte) (i : Nat) : Prop where
  cpe : s.supportsCpe = true
  buffer : s.pendingPacketBuffer = some packet
  expected : s.remainingCpeExtPackets ≠ 0
  index : entryIndex packet = some i
  valid : isValid (effective (entryVersion packet) i)

/-! ## Turns -/

/-- The task that follows in the chain, or the one that ends it once the pool
was stopped. -/
def after (w : World) (f : Func) : Option Func :=
  if w.threadPool.pool.shutdown then some .tcServerShutdownClientTask else some f

/-- The pool is stopped, and a joinable admits a session with nothing to run. -/
def Drops (call : Call) (w : World) : Prop :=
  w.threadPool.pool.shutdown = true ∧ ∃ n, call.env.attemptJoin n = .next .nothing

/-- A task schedules nothing for a session that stays. -/
def Loses (call : Call) (w : World) (slot : Slot) : Func → Prop
  | .joinableTask =>
    match call.env.joinable with
    | .nothing => True
    | .next shutdown => w.threadPool.pool.shutdown = true ∧ shutdown = .nothing
    | .new priority => (Impl.ThreadPool.tcThreadScheduleNew w.threadPool
        ⟨priority, some .joinableTask, some (.session slot), generation w slot⟩ call.env.pick).1 = false
    | .join address => tcFindJoinable w.config.joinRouter address = none ∨ Drops call w
    | _ => False
  | _ => w.config.joinRouter.defaultJoinable = none ∨ Drops call w

/-- What a joinable may have scheduled. -/
def Passed (next : Option Func) : Prop :=
  ∀ f, next = some f → f = .joinableTask ∨ f = .tcServerShutdownClientTask ∨ f = .tcServerClientListenTask

/-- The handlers after which the client is listened to again, with the session
before its buffer is cleaned. -/
inductive Handles (s : Session) : Func → Session → Prop where
  | negotiation : Handles s .handleBeginCpeNegotiation s
  | extinfo {packet : List Byte} (cpe : s.supportsCpe = true) (buffer : s.pendingPacketBuffer = some packet)
      (first : s.remainingCpeExtPackets.toInt < 0) :
      Handles s .handleCpeExtinfo { s with remainingCpeExtPackets := shortAt packet maxStrLen }
  | unknown {packet : List Byte} (cpe : s.supportsCpe = true) (buffer : s.pendingPacketBuffer = some packet)
      (expected : s.remainingCpeExtPackets ≠ 0) (index : entryIndex packet = none) :
      Handles s .handleCpeExtentry (counted s)
  | known {packet : List Byte} {i : Nat} (declares : Declares s packet i)
      (more : (declared s packet i).remainingCpeExtPackets ≠ 0 ∨
        supports (declared s packet i) customBlocks = true) :
      Handles s .handleCpeExtentry (declared s packet i)
  | setBlock : Handles s .handlePlayerSetBlock s
  | position : Handles s .handlePlayerPositionAndOrientationUpdate s

/-- The handlers that call `finalize_player_identification`, with the session
they call it for. -/
inductive Finishes (s : Session) : Func → Session → Prop where
  | identification {service : Nat} (unknown : s.authenticatedService = none) :
      Finishes s .handlePlayerIdentification
        { s with authenticatedService := some service, supportsCpe := false }
  | entry {packet : List Byte} {i : Nat} (declares : Declares s packet i)
      (last : (declared s packet i).remainingCpeExtPackets = 0)
      (plain : supports (declared s packet i) customBlocks = false) :
      Finishes s .handleCpeExtentry (declared s packet i)
  | level (cpe : s.supportsCpe = true) : Finishes s .handleCpeCustomBlockSupportLevel s

inductive Turn (call : Call) (w : World) (slot : Slot) (s : Session) :
    Func → Bool → Option Func → Session → Prop where
  | gone {f : Func} {fin : Bool} {next : Option Func} {s' : Session}
      (later : s'.currentGeneration = s.currentGeneration + 1)
      (hears : f = .tcServerClientListenTask →
        heard call.env s = [] ∨ s.pendingPacketOpcode = -1 ∧ (heard call.env s).length = 1)
      (finishes : fin = true → ∃ s₁, Finishes s f s₁) : Turn call w slot s f fin next s'
  | waits {s' : Session} (silent : heard call.env s = []) (same : Same s s') :
      Turn call w slot s .tcServerClientListenTask false (after w .tcServerClientListenTask) s'
  | begins {opcode : Byte} {memory : List Byte} {s' : Session} (idle : s.pendingPacketOpcode = -1)
      (hears : heard call.env s = [opcode]) (known : (tcPacketHandlers opcode.toInt).isSome = true)
      (length : memory.length = tcPacketDataSize opcode.toInt s)
      (same : Same { s with
        pendingPacketOpcode := opcode.toInt
        pendingPacketBuffer := some memory
        pendingPacketBufferSize := 0 } s') :
      Turn call w slot s .tcServerClientListenTask false (after w .tcServerClientListenTask) s'
  | stores {buffer : List Byte} {s' : Session} (busy : s.pendingPacketOpcode ≠ -1)
      (some_ : s.pendingPacketBuffer = some buffer) (hears : heard call.env s ≠ [])
      (part : s.pendingPacketBufferSize + (heard call.env s).length ≠
        tcPacketDataSize s.pendingPacketOpcode s)
      (same : Same (stored s buffer (heard call.env s)) s') :
      Turn call w slot s .tcServerClientListenTask false (after w .tcServerClientListenTask) s'
  | dispatches {buffer : List Byte} {handler : Func} {s' : Session} (busy : s.pendingPacketOpcode ≠ -1)
      (some_ : s.pendingPacketBuffer = some buffer) (hears : heard call.env s ≠ [])
      (whole : s.pendingPacketBufferSize + (heard call.env s).length =
        tcPacketDataSize s.pendingPacketOpcode s)
      (handles : tcPacketHandlers s.pendingPacketOpcode = some handler)
      (same : Same (stored s buffer (heard call.env s)) s') :
      Turn call w slot s .tcServerClientListenTask false (after w handler) s'
  | listens {f : Func} {s₁ s' : Session} (handles : Handles s f s₁) (same : Same (cleaned s₁) s') :
      Turn call w slot s f false (after w .tcServerClientListenTask) s'
  | negotiates {service : Nat} {s' : Session} (unknown : s.authenticatedService = none)
      (same : Same (cleaned { s with authenticatedService := some service, supportsCpe := true }) s') :
      Turn call w slot s .handlePlayerIdentification false (after w .handleBeginCpeNegotiation) s'
  | finalizes {f : Func} {next : Option Func} {s₁ s' : Session} (finishes : Finishes s f s₁)
      (same : Same (cleaned s₁) s') (passed : Passed next) (lost : next = none → Loses call w slot f) :
      Turn call w slot s f true next s'
  | joins {next : Option Func} {s' : Session} (same : Same s s') (passed : Passed next)
      (lost : next = none → Loses call w slot .joinableTask) :
      Turn call w slot s .joinableTask false next s'

theorem Handles.generation {s₁ : Session} {f : Func} (h : Handles s f s₁) :
    s₁.currentGeneration = s.currentGeneration := by
  cases h with
  | _ => rfl

theorem Finishes.generation {s₁ : Session} {f : Func} (h : Finishes s f s₁) :
    s₁.currentGeneration = s.currentGeneration := by
  cases h with
  | _ => rfl

/-- A turn stays in the generation of its session, or ends it. -/
theorem Turn.generation {call : Call} {w : World} {slot : Slot} {f : Func} {fin : Bool}
    (h : Turn call w slot s f fin next s') :
    s'.currentGeneration = s.currentGeneration ∨ s'.currentGeneration = s.currentGeneration + 1 := by
  cases h with
  | gone later => exact .inr later
  | waits _ same | begins _ _ _ _ same | stores _ _ _ _ same | dispatches _ _ _ _ _ same | negotiates _ same
  | joins same => exact .inl same.generation
  | listens handles same => exact .inl (same.generation.trans handles.generation)
  | finalizes finishes same => exact .inl (same.generation.trans finishes.generation)

/-- The tasks that a turn has scheduled: one at most. -/
def Chained (slot : Slot) (g : Int) (next : Option Func) (tasks : List (Context Func Arg)) : Prop :=
  ∃ priority, tasks = (next.map fun f => ⟨priority, some f, some (.session slot), g⟩).toList

/-- What is noted of a turn. -/
def finalized (fin : Bool) (slot : Slot) (g : Int) : List Event := if fin then [.finalizing slot g] else []

/-- The task of a session has made a turn. -/
def Ends (call : Call) (slot : Slot) (w : World) (f : Func) (w' : World) : Prop :=
  ∃ fin next tasks, Turn call w slot (w.sessionBuffer slot) f fin next (w'.sessionBuffer slot) ∧
    Chained slot (generation w slot) next tasks ∧
    Reaches call.worker slot w w' (finalized fin slot (generation w slot)) tasks ∧
    (generation w' slot = generation w slot → (w'.sessionBuffer slot).actionLock = false)

/-- The process has halted, or the task is stuck with a session that is gone. -/
def Stops (call : Call) (slot : Slot) (w : World) (f : Func) (w' : World) : Prop :=
  w'.halted.isSome = true ∨ Ends call slot w f w' ∧ generation w' slot = generation w slot + 1

/-- The rest of a task, from a later world on, makes the turn, or it stops. -/
abbrev Makes (call : Call) (slot : Slot) (w : World) (f : Func) (w₁ : World) (p : TaskM Unit) : Prop :=
  Meets call w₁ p (fun _ => Ends call slot w f) (Stops call slot w f)

/-- Nothing was heard, or the opcode of a packet. -/
abbrev HearsOpcode (env : Env) (s : Session) : Prop :=
  heard env s = [] ∨ s.pendingPacketOpcode = -1 ∧ (heard env s).length = 1

/-! ## The end of a turn -/

section

variable {call : Call} {slot : Slot} {w w₁ : World} {s₁ : Session} {f : Func} {fin : Bool} {priority : Priority}

theorem stops_of_halted (w' : World) (h : w'.halted.isSome = true) : Stops call slot w f w' := .inl h

theorem ends_of {tasks : List (Context Func Arg)}
    (hreach : Reaches call.worker slot w w₁ (finalized fin slot (generation w slot)) tasks)
    (hturn : Turn call w slot (w.sessionBuffer slot) f fin next s₁)
    (hchained : Chained slot (generation w slot) next tasks)
    (hlock : s₁.currentGeneration = generation w slot → s₁.actionLock = false) :
    Ends call slot w f (w₁.setSession slot s₁) := by
  have hsession : (w₁.setSession slot s₁).sessionBuffer slot = s₁ := sessionBuffer_setSession ..
  refine ⟨fin, next, tasks, ?_, hchained, ?_, fun hg => ?_⟩
  · rwa [hsession]
  · simpa using hreach.trans (reaches_setSession call.worker slot w₁ s₁)
  · rw [generation, hsession] at hg
    rw [hsession]
    exact hlock hg

theorem chained_none (slot : Slot) (g : Int) : Chained slot g none [] := ⟨.low, rfl⟩

/-- The session is gone, and nothing else is done but to release its lock. -/
theorem ends_of_gone {s₂ : Session}
    (hreach : Reaches call.worker slot w w₁ (finalized fin slot (generation w slot)) [])
    (hgone : s₂.currentGeneration = generation w slot + 1)
    (hears : f = .tcServerClientListenTask → HearsOpcode call.env (w.sessionBuffer slot))
    (hfin : fin = true → ∃ s', Finishes (w.sessionBuffer slot) f s') :
    Ends call slot w f (w₁.setSession slot s₂) := by
  refine ends_of hreach (.gone hgone hears hfin) (chained_none ..) fun hg => ?_
  omega

theorem meets_kickAndRelease {msg : String}
    (hreach : Reaches call.worker slot w w₁ (finalized fin slot (generation w slot)) [])
    (hg : s₁.currentGeneration = generation w slot)
    (hears : f = .tcServerClientListenTask → HearsOpcode call.env (w.sessionBuffer slot))
    (hfin : fin = true → ∃ s', Finishes (w.sessionBuffer slot) f s') :
    Makes call slot w f (w₁.setSession slot s₁) (kickAndRelease slot msg) := by
  refine meets_kick fun w₂ socket hw₂ => meets_unlock (ends_of_gone (hreach.alike hw₂) ?_ hears hfin)
  show s₁.currentGeneration + 1 = _
  rw [hg]

theorem not_finalizing (h : false = true) : ∃ s', Finishes s f s' := absurd h Bool.false_ne_true

theorem reaches_start (call : Call) (slot : Slot) (w : World) :
    Reaches call.worker slot w w (finalized false slot (generation w slot)) [] :=
  Reaches.refl ..

/-- A handler kicks the client. -/
theorem meets_kickHandler {msg : String} (hf : f ≠ .tcServerClientListenTask)
    (hreach : Reaches call.worker slot w w₁ (finalized false slot (generation w slot)) [])
    (hg : s₁.currentGeneration = generation w slot) :
    Makes call slot w f (w₁.setSession slot s₁) (kickAndRelease slot msg) :=
  meets_kickAndRelease hreach hg (fun h => absurd h hf) not_finalizing

theorem chained_continuation {next : Func} (h : w₁.threadPool.pool.shutdown = w.threadPool.pool.shutdown) :
    Chained slot (generation w slot) (after w next) (continuation w₁.threadPool (some next)
      (some .tcServerShutdownClientTask) (some (.session slot)) priority (generation w slot)) := by
  refine ⟨priority, ?_⟩
  rw [continuation, after, h]

/-- The next task of the chain is scheduled, and the lock released. -/
theorem meets_schedule {next : Func} (hb : Busy w call.worker)
    (hreach : Reaches call.worker slot w w₁ (finalized fin slot (generation w slot)) [])
    (hturn : ∀ s', Same s₁ s' → Turn call w slot (w.sessionBuffer slot) f fin (after w next) s') :
    Makes call slot w f (w₁.setSession slot s₁) (do
      tcThreadScheduleNext (some next) (some .tcServerShutdownClientTask) (.session slot) priority
        (generation w slot)
      tcSessionReleaseActionLock slot) := by
  refine meets_scheduleNext stops_of_halted (hreach.busy hb) fun pool hadds => meets_unlock ?_
  refine ends_of (hreach.schedule hadds) (hturn _ ⟨rfl, rfl, rfl, rfl, rfl, rfl, rfl, rfl⟩)
    (chained_continuation hreach.adds.shutdown) fun _ => rfl

/-- The end of a handler: the buffer is cleaned first. -/
theorem meets_cleanup {next : Func} (hb : Busy w call.worker)
    (hreach : Reaches call.worker slot w w₁ (finalized fin slot (generation w slot)) [])
    (hturn : ∀ s', Same (cleaned s₁) s' → Turn call w slot (w.sessionBuffer slot) f fin (after w next) s') :
    Makes call slot w f (w₁.setSession slot s₁) (do
      tcServerProtocolHandlerCleanup slot (some next) priority (generation w slot)
      tcSessionReleaseActionLock slot) :=
  meets_assoc (meets_write (meets_schedule hb hreach hturn))

end

/-! ## Joining -/

/-- How `tc_session_join` ends for a session whose lock is held: the session is
with a joinable, or it is gone. -/
inductive Joins (call : Call) (slot : Slot) (g : Int) (aquireLock : Bool) (w : World) (s : Session) :
    Bool → World → Prop where
  | admitted {w' : World} {s' : Session} {next : Option Func} {tasks : List (Context Func Arg)}
      (reach : Reaches call.worker slot w w' [] tasks) (chained : Chained slot g next tasks)
      (passed : Passed next) (lost : next = none → Drops call w) (same : Same s s')
      (lock : s'.actionLock = (s.actionLock && !aquireLock)) :
      Joins call slot g aquireLock w s true (w'.setSession slot s')
  | gone {w' : World} {s' : Session} (reach : Reaches call.worker slot w w' [] [])
      (later : s'.currentGeneration = s.currentGeneration + 1)
      (lock : s'.actionLock = (s.actionLock && !aquireLock)) :
      Joins call slot g aquireLock w s false (w'.setSession slot s')

section

variable {call : Call} {slot : Slot} {g : Int} {w w₁ : World} {s₁ : Session} {priority : Priority} {aquireLock : Bool}

theorem meets_releaseIf
    (h : Meets call (w.setSession slot { s with actionLock := s.actionLock && !aquireLock }) (k ()) Q R) :
    Meets call (w.setSession slot s) (releaseIf aquireLock slot >>= k) Q R := by
  rcases aquireLock with _ | _
  · rw [Bool.not_false, Bool.and_true] at h
    exact h
  · rw [Bool.not_true, Bool.and_false] at h
    exact meets_unlockThen h

theorem meets_setJoinable {joinable : Nat}
    (h : Meets call ((w.emit (.joined slot s.currentGeneration joinable)).setSession slot
      { s with currentJoinable := some joinable }) (k ()) Q R) :
    Meets call (w.setSession slot s) (setJoinable slot joinable >>= k) Q R := by
  refine meets_bind_of_some (a := ()) ?_ h
  simp only [setJoinable, Prog.modify, sessionBuffer_setSession, setSession_setSession]
  rfl

theorem scheduleNew_false {pool : System Func Arg} {task : Context Func Arg} {pick : Nat}
    (h : (Impl.ThreadPool.tcThreadScheduleNew pool task pick).1 = false) :
    (Impl.ThreadPool.tcThreadScheduleNew pool task pick).2 = pool := by
  rw [Impl.ThreadPool.tcThreadScheduleNew] at h ⊢
  split at h
  · rw [if_pos (by assumption)]
  · rw [if_neg (by assumption)]
    split at h
    · rfl
    · cases h

theorem passed_continuation {shutdown : OnShutdown} :
    Passed (if w.threadPool.pool.shutdown then shutdown.func else some .joinableTask) := by
  intro f hf
  split at hf
  · rcases shutdown with _ | _ | _
    · cases hf
    · cases hf
      exact .inr (.inl rfl)
    · cases hf
      exact .inl rfl
  · cases hf
    exact .inl rfl

theorem meets_sendMessage {messageType : Byte} {message : String} {k : Bool → TaskM β}
    (h : ∀ sent socket, Meets call (w.setSession slot { s with clientSocket := socket }) (k sent) Q R) :
    Meets call (w.setSession slot s) (tcApiSendMessage slot messageType message >>= k) Q R := by
  unfold tcApiSendMessage
  refine meets_assoc (meets_read ?_)
  split
  · exact meets_send rfl fun sent socket _ => h sent socket
  · exact meets_send rfl fun sent socket _ => h sent socket

/-- A session that is kicked by `tc_session_join`. -/
theorem meets_kickJoining {msg : String} (hreach : Reaches call.worker slot w w₁ [] [])
    (hg : s₁.currentGeneration = s.currentGeneration) (hlock : s₁.actionLock = s.actionLock) :
    Meets call (w₁.setSession slot s₁) (do
      tcServerKickSession slot (some msg) (-1) false
      releaseIf aquireLock slot
      return false) (Joins call slot g aquireLock w s) R := by
  refine meets_kick fun w₂ socket hw₂ => meets_releaseIf (meets_pure (.gone (hreach.alike hw₂) ?_ ?_))
  · show s₁.currentGeneration + 1 = _
    rw [hg]
  · show (s₁.actionLock && !aquireLock) = _
    rw [hlock]

theorem meets_admitted {joinable : Nat} {pool : System Func Arg} {tasks : List (Context Func Arg)}
    (hreach : Reaches call.worker slot w w₁ [] []) (hsame : Same s s₁)
    (hlock : s₁.actionLock = s.actionLock) (hadds : Adds call.worker w₁.threadPool pool tasks)
    (hchained : Chained slot g next tasks) (hpassed : Passed next) (hlost : next = none → Drops call w) :
    Meets call ({ w₁ with threadPool := pool }.setSession slot s₁) (do
      setJoinable slot joinable
      releaseIf aquireLock slot
      return true) (Joins call slot g aquireLock w s) R := by
  have hjoined := hreach.schedule hadds
  refine meets_setJoinable (meets_releaseIf (meets_pure (.admitted ?_ hchained hpassed hlost ?_ ?_)))
  · simpa using hjoined.trans ((Alike.emit rfl).reaches call.worker slot)
  · exact hsame.trans ⟨rfl, rfl, rfl, rfl, rfl, rfl, rfl, rfl⟩
  · show (s₁.actionLock && !aquireLock) = _
    rw [hlock]

theorem Drops.of_reaches (hreach : Reaches call.worker slot w w₁ [] []) (h : Drops call w₁) : Drops call w :=
  ⟨hreach.adds.shutdown.symm.trans h.1, h.2⟩

theorem meets_attemptJoin {n : Nat} {k : Bool → TaskM β}
    (hfailed : ∀ w' : World, w'.halted.isSome = true → w'.threadPool.assertFailed = true → R w')
    (hb : Busy w call.worker)
    (hadmitted : ∀ pool next tasks, Adds call.worker w.threadPool pool tasks → Chained slot g next tasks →
      Passed next → (next = none → Drops call w) →
      Meets call ({ w with threadPool := pool }.setSession slot s) (k true) Q R)
    (hrefused : Meets call (w.setSession slot s) (k false) Q R) :
    Meets call (w.setSession slot s) (attemptJoin n slot priority g >>= k) Q R := by
  unfold attemptJoin
  refine meets_assoc (meets_ask ?_)
  rcases hanswer : call.env.attemptJoin n with _ | shutdown | newPriority
  · exact hrefused
  · refine meets_assoc (meets_scheduleNext_or hfailed hb fun pool hadds => ?_)
    refine hadmitted pool _ _ hadds ⟨priority, rfl⟩ passed_continuation fun hnone => ?_
    split at hnone
    · rename_i hshutdown
      rcases shutdown with _ | _ | _
      · exact ⟨hshutdown, n, hanswer⟩
      · cases hnone
      · cases hnone
    · cases hnone
  · refine meets_scheduleNew fun scheduled pool hpool => ?_
    have hadds := scheduleNew_adds call.worker w.threadPool
      ⟨newPriority, some .joinableTask, some (.session slot), g⟩ call.env.pick
    rw [hpool] at hadds
    rcases scheduled with _ | _
    · have hsame := scheduleNew_false (congrArg Prod.fst hpool)
      rw [hpool] at hsame
      subst hsame
      exact hrefused
    · refine hadmitted pool (some .joinableTask) _ hadds ⟨newPriority, rfl⟩ (fun f hf => ?_) fun hnone => ?_
      · cases hf
        exact .inl rfl
      · cases hnone

variable (hR : ∀ w' : World, w'.halted.isSome = true → R w')

include hR

theorem meets_rerouteToDefault (hb : Busy w call.worker) (hreach : Reaches call.worker slot w w₁ [] []) :
    Meets call (w₁.setSession slot s) (rerouteToDefault slot priority g aquireLock)
      (Joins call slot g aquireLock w s) R := by
  unfold rerouteToDefault
  refine meets_sendMessage fun sent socket => ?_
  split
  · refine meets_get ?_
    split
    · exact meets_halt hR
    · refine meets_attemptJoin (fun w' hh _ => hR w' hh) (hreach.busy hb) (fun pool next tasks hadds hchained hpassed hlost => ?_) ?_
      · exact meets_admitted hreach ⟨rfl, rfl, rfl, rfl, rfl, rfl, rfl, rfl⟩ rfl hadds hchained hpassed
          fun hnone => (hlost hnone).of_reaches hreach
      · exact meets_kickJoining hreach rfl rfl
  · exact meets_kickJoining hreach rfl rfl

theorem meets_joinFound {joinable : Nat} (hb : Busy w call.worker) :
    Meets call (w.setSession slot s) (joinFound slot joinable priority g aquireLock)
      (Joins call slot g aquireLock w s) R := by
  obtain ⟨w₁, hw₁, hleave⟩ := leaveCurrent_eq call slot w s
  have hreach := hw₁.reaches call.worker slot
  refine meets_bind_of_some hleave ?_
  refine meets_attemptJoin (fun w' hh _ => hR w' hh) (hreach.busy hb) (fun pool next tasks hadds hchained hpassed hlost => ?_) ?_
  · exact meets_admitted hreach (Same.refl s) rfl hadds hchained hpassed
      fun hnone => (hlost hnone).of_reaches hreach
  · exact meets_rerouteToDefault hR hb hreach

end

/-- A join of the default joinable by a task that holds the lock. -/
theorem meets_joinDefault {call : Call} {slot : Slot} {g : Int} {w : World} {priority : Priority}
    (hR : ∀ w' : World, w'.halted.isSome = true → R w') (hb : Busy w call.worker) :
    Meets call (w.setSession slot s) (tcSessionJoin slot none priority g false) (fun joined w' =>
      (w.config.joinRouter.defaultJoinable = none ∧ joined = true ∧
        w' = (w.emit (.joining slot g)).setSession slot s) ∨
      Joins call slot g false (w.emit (.joining slot g)) s joined w') R := by
  unfold tcSessionJoin
  refine meets_emit (meets_get ?_)
  rcases hdefault : tcFindJoinable w.config.joinRouter none with _ | joinable
  · have hfind : tcFindJoinable ((w.emit (.joining slot g)).setSession slot s).config.joinRouter none = none :=
      hdefault
    rw [hfind]
    exact meets_pure (.inl ⟨hdefault, rfl, rfl⟩)
  · have hfind : tcFindJoinable ((w.emit (.joining slot g)).setSession slot s).config.joinRouter none =
      some joinable := hdefault
    rw [hfind]
    exact (meets_joinFound (w := w.emit _) hR hb).mono fun joined w' h => .inr h

/-! ## The end of the handshake -/

section

variable {call : Call} {slot : Slot} {w w₁ : World} {s₁ : Session} {f : Func} {priority : Priority}

theorem reaches_finalizing (h : Reaches call.worker slot w w₁ [] []) :
    Reaches call.worker slot w (w₁.emit (.finalizing slot (generation w slot)))
      (finalized true slot (generation w slot)) [] := by
  refine ⟨h.others, h.adds, h.config, ?_, h.halted⟩
  have hmarks := h.marks
  rw [List.append_nil] at hmarks
  rw [marks, World.emit, List.filter_append, ← hmarks]
  rfl

/-- A session that is already gone is kicked again, by a task that holds its
lock. -/
theorem meets_kickAgain {msg : Option String} {g : Int} (hlock : s.actionLock = true)
    (h : R ({ w with stuck := call.worker :: w.stuck }.setSession slot s)) :
    Meets call (w.setSession slot s) (tcServerKickSession slot msg g true >>= k) Q R := by
  have hlocked : ((w.setSession slot s).sessionBuffer slot).actionLock = true := by
    rwa [sessionBuffer_setSession]
  have haquire : tcSessionAquireActionLock slot g call (w.setSession slot s) =
      (none, { w with stuck := call.worker :: w.stuck }.setSession slot s) :=
    bind_of_none (lock_locked hlocked)
  exact meets_of_none (bind_of_none (bind_of_none haquire)) h

theorem meets_finish (h : ∀ w', Alike w w' → Meets call (w'.setSession slot s) (k ()) Q R) :
    Meets call (w.setSession slot s) ((Prog.modify fun w => { w with activePlayers := w.activePlayers + 1 }.emit
      (.finished slot (w.sessionBuffer slot).currentGeneration)) >>= k) Q R := by
  refine meets_bind_of_some (a := ()) ?_ (h ({ w with activePlayers := w.activePlayers + 1 }.emit
    (.finished slot s.currentGeneration)) ⟨rfl, rfl, rfl, marks_emit rfl, rfl⟩)
  simp only [Prog.modify, sessionBuffer_setSession]
  rfl

/-- The handlers that finish a handshake are not the joinables' tasks. -/
theorem Finishes.loses (h : Finishes s f s')
    (hlost : w.config.joinRouter.defaultJoinable = none ∨ Drops call w) : Loses call w slot f := by
  rcases h with _ | _ | _
  · exact hlost
  · exact hlost
  · exact hlost

variable (hb : Busy w call.worker) (hfinishes : Finishes (w.sessionBuffer slot) f s) (hsame : Same s s₁)
  (hg : s.currentGeneration = generation w slot) (hlock : s₁.actionLock = true)

include hb hfinishes hsame hg hlock

theorem meets_finishHandshake
    (hreach : Reaches call.worker slot w w₁ (finalized true slot (generation w slot)) []) :
    Makes call slot w f (w₁.setSession slot s₁) (do
      finishHandshake slot priority (generation w slot)
      tcSessionReleaseActionLock slot) := by
  unfold finishHandshake
  refine meets_assoc (meets_assoc (meets_write ?_))
  refine meets_assoc (meets_finish fun w₂ hw₂ => ?_)
  have hreach₂ := (hreach.alike hw₂).alike (Alike.emit (e := .joining slot (generation w slot)) rfl)
  have hclean : Same (cleaned s) (cleaned s₁) :=
    ⟨hsame.generation, hsame.service, hsame.cpe, hsame.versions, hsame.remaining, rfl, rfl, rfl⟩
  refine meets_assoc (meets_bind (meets_joinDefault stops_of_halted (Reaches.busy (hreach.alike hw₂) hb)) ?_)
  rintro joined w' (⟨hnone, rfl, rfl⟩ | hjoins)
  · -- nothing was scheduled: `tc_session_join` found no joinable and returns `TRUE`
    refine meets_unlockThen (meets_unlock (ends_of hreach₂ (.finalizes hfinishes (hclean.trans ?_)
      (fun f hf => by cases hf) fun _ => ?_) (chained_none ..) fun _ => rfl))
    · exact ⟨rfl, rfl, rfl, rfl, rfl, rfl, rfl, rfl⟩
    · refine hfinishes.loses (.inl ?_)
      rw [← hreach.config, ← hw₂.config]
      exact hnone
  rcases hjoins with ⟨hreach₃, hchained, hpassed, hlost, hsame₃, hlock₃⟩ | ⟨hreach₃, hlater, hlock₃⟩
  · have hreach₄ := hreach₂.trans hreach₃
    rw [List.append_nil, List.nil_append] at hreach₄
    refine meets_unlockThen (meets_unlock (ends_of hreach₄ (.finalizes hfinishes ((hclean.trans hsame₃).trans ?_)
      hpassed fun hnone => ?_) hchained fun _ => rfl))
    · exact ⟨rfl, rfl, rfl, rfl, rfl, rfl, rfl, rfl⟩
    · exact hfinishes.loses (.inr ⟨hreach₂.adds.shutdown.symm.trans (hlost hnone).1, (hlost hnone).2⟩)
  · -- the session is gone, and its lock still held
    refine meets_assoc (meets_kickAgain ?_ (.inr ?_))
    · rw [hlock₃]
      show (s₁.actionLock && true) = true
      rw [hlock]
      rfl
    · have hreach₄ := hreach₂.trans hreach₃
      rw [List.append_nil, List.nil_append] at hreach₄
      rename_i s₂
      have hgone : s₂.currentGeneration = generation w slot + 1 := by
        rw [hlater]
        show s₁.currentGeneration + 1 = _
        rw [hsame.generation, hg]
      refine ⟨ends_of_gone (hreach₄.alike ⟨rfl, rfl, rfl, rfl, rfl⟩) hgone (fun hf => ?_) fun _ => ⟨s, hfinishes⟩, ?_⟩
      · subst hf
        rcases hfinishes
      · rw [generation, sessionBuffer_setSession]
        exact hgone

theorem meets_finalize (hreach : Reaches call.worker slot w w₁ [] []) :
    Makes call slot w f (w₁.setSession slot s₁) (do
      finalizePlayerIdentification slot priority (generation w slot)
      tcSessionReleaseActionLock slot) := by
  unfold finalizePlayerIdentification
  have hreach₁ := reaches_finalizing hreach
  refine meets_assoc (meets_emit (meets_assoc (meets_get ?_)))
  refine meets_assoc (meets_send rfl fun sent socket _ => ?_)
  split
  · exact meets_finishHandshake hb hfinishes
      (hsame.trans ⟨rfl, rfl, rfl, rfl, rfl, rfl, rfl, rfl⟩) hg hlock hreach₁
  · refine meets_assoc (meets_kick fun w₂ socket₂ hw₂ => meets_unlock ?_)
    refine ends_of_gone (hreach₁.alike hw₂) ?_ (fun hf => ?_) fun _ => ⟨s, hfinishes⟩
    · show s₁.currentGeneration + 1 = _
      rw [hsame.generation, hg]
    · subst hf
      rcases hfinishes

end

end TC.Proof.Server
