import TeleClassic.Impl.Handler

/-!
# The server (`server.c`)

`tc_server_client_listen_task`, which reads packets from a client, the task that
accepts clients, and the runs of the whole: a step is one task, run to its end
or until it stops, or a step of the thread pool.
-/

namespace TC.Impl.Server

open TC.Impl.ThreadPool TC.Impl.Protocol Prog

/-! ## Listening to a client -/

/-- The end of `tc_server_client_listen_task` while the client stays. -/
def listenAgain (slot : Slot) (priority : Priority) (generation : Int) : TaskM Unit := do
  tcThreadScheduleNext (some .tcServerClientListenTask) (some .tcServerShutdownClientTask)
    (.session slot) priority generation
  tcSessionReleaseActionLock slot

/-- The ping, if it is time for one; whether the client is still there. -/
def pingClient (slot : Slot) : TaskM Bool := do
  unless (← ask).env.pingDue do return true
  if ← send slot .tcProtocolPing then return true
  disconnectSession slot
  tcSessionReleaseActionLock slot
  return false

/-- The opcode of a new packet. -/
def beginPacket (slot : Slot) (priority : Priority) (generation : Int) (opcode : Byte) :
    TaskM Unit := do
  modifySession slot ({ · with pendingPacketOpcode := opcode.toInt })
  if opcode.toInt < 0 ∨ opcode.toInt ≥ maxPackets then
    return ← kickAndRelease slot "Packet Opcode Out of Range: Please reconnect."
  if (tcPacketHandlers opcode.toInt).isNone then
    return ← kickAndRelease slot "Invalid Packet Opcode: Please reconnect."
  let packetBufferSize := tcPacketDataSize opcode.toInt (← session slot)
  let env := (← ask).env
  let packetBuffer := if env.packetBuffer then some ((List.range packetBufferSize).map env.memory) else none
  modifySession slot ({ · with pendingPacketBuffer := packetBuffer, pendingPacketBufferSize := 0 })
  if packetBuffer.isNone then
    return ← kickAndRelease slot "Out of Memory: Sorry"
  listenAgain slot priority generation

def receiveOpcode (slot : Slot) (priority : Priority) (generation : Int) : TaskM Unit := do
  match (← ask).env.receive with
  | .data [] => kickAndRelease slot "Client Disconnected: Please reconnect."
  | .data (opcode :: _) => beginPacket slot priority generation opcode
  | .wouldBlock => listenAgain slot priority generation
  | .failed => kickAndRelease slot "Error: Please reconnect."

/-- A buffer with bytes written at an offset. -/
def writeAt (buffer : List Byte) (offset : Nat) (bytes : List Byte) : List Byte :=
  buffer.take offset ++ bytes ++ buffer.drop (offset + bytes.length)

/-- More bytes of the payload. -/
def storePayload (slot : Slot) (priority : Priority) (generation : Int) (bytes : List Byte) :
    TaskM Unit := do
  let s ← session slot
  let packetBufferSize := tcPacketDataSize s.pendingPacketOpcode s
  match s.pendingPacketBuffer with
  | none => halt .outOfBuffer
  | some buffer =>
    unless s.pendingPacketBufferSize + bytes.length ≤ buffer.length do return ← halt .outOfBuffer
    modifySession slot ({ · with
      pendingPacketBuffer := some (writeAt buffer s.pendingPacketBufferSize bytes)
      pendingPacketBufferSize := s.pendingPacketBufferSize + bytes.length })
    unless s.pendingPacketBufferSize + bytes.length = packetBufferSize do
      return ← listenAgain slot priority generation
    match tcPacketHandlers s.pendingPacketOpcode with
    | none => halt .badAccess
    | some handler =>
      emit (.dispatched slot generation handler s.supportsCpe)
      tcThreadScheduleNext (some handler) (some .tcServerShutdownClientTask) (.session slot) priority
        generation
      tcSessionReleaseActionLock slot

def receivePayload (slot : Slot) (priority : Priority) (generation : Int) : TaskM Unit := do
  let s ← session slot
  let packetBufferSize := tcPacketDataSize s.pendingPacketOpcode s
  match (← ask).env.receive with
  | .data bytes =>
    let bytes := bytes.take (packetBufferSize - s.pendingPacketBufferSize)
    if bytes.isEmpty then kickAndRelease slot "Client Disconnected: Please reconnect."
    else storePayload slot priority generation bytes
  -- the error is in a variable of its own here, and is not looked at
  | .wouldBlock => listenAgain slot priority generation
  | .failed => listenAgain slot priority generation

def tcServerClientListenTask (slot : Slot) (priority : Priority) (generation : Int) : TaskM Unit := do
  unless ← tcSessionAquireActionLock slot generation do return
  unless ← pingClient slot do return
  if (← session slot).pendingPacketOpcode = -1 then receiveOpcode slot priority generation
  else receivePayload slot priority generation

/-! ## New clients -/

/-- The session of a new client in its slot. -/
def newSession (s : Session) (clientSocket : Stream) : Session :=
  { s with
    clientSocket := clientSocket
    pendingPacketOpcode := -1
    pendingPacketBuffer := none
    pendingPacketBufferSize := 0
    supportsCpe := false
    authenticatedService := none
    currentJoinable := none
    remainingCpeExtPackets := -1
    customBlockSupportLevel := 0
    extCpeVersions := Vector.replicate _ 0 }

/-- `handle_new_session` once it has initialised the session. -/
def startListening (slot : Slot) (generation : Int) : TaskM Unit := do
  unless (← ask).env.pingProfiler do
    return ← kickAndRelease slot "Out of Memory: Sorry"
  if ← tcThreadScheduleNew .tcServerClientListenTask (.session slot) .low generation then
    tcSessionReleaseActionLock slot
  else
    tcServerKickSession slot (some "Server is Busy: Please try again or come back soon.") generation true
    tcSessionReleaseActionLock slot

def handleNewSession (clientSocket : Stream) : TaskM Unit := do
  let w ← get
  -- the client is told that the server is busy
  if w.idBufferHead = maxSessions then return
  let slot := w.idBuffer w.idBufferHead
  modify fun w => { w with idBufferHead := w.idBufferHead + 1 }
  let generation := (← session slot).currentGeneration
  unless ← tcSessionAquireActionLock slot generation do return
  modify fun w => (w.setSession slot (newSession (w.sessionBuffer slot) clientSocket)).emit
    (.accepted slot generation)
  startListening slot generation

def listenerWorkerTask (priority : Priority) : TaskM Unit := do
  match (← ask).env.accept with
  | some clientSocket =>
    handleNewSession clientSocket
    tcThreadScheduleNext (some .listenerWorkerTask) none .server priority (-1)
  | none => tcThreadScheduleNext (some .listenerWorkerTask) none .server priority (-1)

/-! ## Runs -/

def runTask (task : Context Func Arg) : TaskM Unit :=
  let priority := task.priority
  let generation := task.sessionGeneration
  match task.func, task.arg with
  | some .listenerWorkerTask, some .server => listenerWorkerTask priority
  | some .tcServerClientListenTask, some (.session slot) => tcServerClientListenTask slot priority generation
  | some .tcServerShutdownClientTask, some (.session slot) => tcServerShutdownClientTask slot generation
  | some .handleBeginCpeNegotiation, some (.session slot) => handleBeginCpeNegotiation slot priority generation
  | some .handleCpeExtinfo, some (.session slot) => handleCpeExtinfo slot priority generation
  | some .handleCpeExtentry, some (.session slot) => handleCpeExtentry slot priority generation
  | some .handleCpeCustomBlockSupportLevel, some (.session slot) =>
    handleCpeCustomBlockSupportLevel slot priority generation
  | some .handlePlayerIdentification, some (.session slot) =>
    handlePlayerIdentification slot priority generation
  | some .handlePlayerSetBlock, some (.session slot) => handlePlayerSetBlock slot priority generation
  | some .handlePlayerPositionAndOrientationUpdate, some (.session slot) =>
    handlePlayerPositionAndOrientationUpdate slot priority generation
  | some .joinableTask, some (.session slot) => joinableTask slot priority generation
  | _, _ => halt .badAccess

/-- A step: a worker runs its task, a worker takes a task or is woken, or the
pool is stopped. -/
inductive Label where
  | task (call : Call)
  | loop (worker : Nat)
  | wakeUp (worker : Nat)
  | stop

/-- A step of the thread pool alone. -/
def World.poolStep (w : World) (e : ThreadPool.Event Func Arg) : Option World :=
  (ThreadPool.step w.threadPool e).map fun pool => { w with threadPool := pool }

/-- A worker runs the task it has taken, and is done with it. A worker that is
stuck does not go on; any other has not called `tc_thread_schedule_next` yet. -/
def World.runWorker (w : World) (call : Call) : Option World :=
  match w.threadPool.running? call.worker with
  | some (task, 0) =>
    if call.worker ∈ w.stuck then none
    else
      match runTask task call w with
      | (some (), w') => some ((w'.poolStep (.taskReturns call.worker call.env.pick)).getD w')
      | (none, w') => some w'
  | _ => none

def step (w : World) (l : Label) : Option World :=
  if w.halted.isSome then none
  else
    match l with
    | .task call => w.runWorker call
    | .loop worker => w.poolStep (.loop worker)
    | .wakeUp worker => w.poolStep (.wakeUp worker)
    | .stop => w.poolStep .stop

/-- The server after `tc_server_init` and `tc_server_start`, with
`numThreads` workers, in memory with any contents. -/
def start (config : Config) (numThreads maxBlockingThreads : Nat)
    (tasks : Priority → Nat → Context Func Arg) (sessions : Slot → Session) : World where
  sessionBuffer slot := { sessions slot with currentGeneration := 0, actionLock := false }
  idBuffer i := ⟨i.toNat % maxSessions, freeId_lt i⟩
  idBufferHead := 0
  threadPool := (ThreadPool.tcThreadScheduleNew (newPool serverPattern numThreads maxBlockingThreads tasks)
    { priority := .high
      func := some .listenerWorkerTask
      arg := some .server
      sessionGeneration := -1 } 0).2
  activePlayers := 0
  config := config
  stuck := []
  halted := none
  trace := []

end TC.Impl.Server
