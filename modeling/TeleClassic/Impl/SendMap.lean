import TeleClassic.Impl.Map
import TeleClassic.Impl.Session
import TeleClassic.Impl.TaskBacklog

/-!
# Sending a map to a client (`api.c`)

`tc_api_schedule_send_map` starts a chain of tasks: the map is loaded by the
cache or is loaded already, its block arrays are compressed, the level and its
environment are announced, and the compressed arrays are sent in chunks, one
task for each. At most one task of the chain is queued at a time. A `Chain` is
what it shares with others or owns between two tasks: the session, the reference
count of the map's cache entry, the locks it holds and the memory it has
allocated. How often the handlers of the caller were used is a ghost.

A task that returns early stops, and so does one that halts the process. The
cache answers the request for a map once: nothing is ever found in its index, so
that the load task of an entry dispatches one request (`Proof.Cache.Loads`). If
the cache cannot schedule that task it frees the new entry twice, which halts
the process. Compression and `float` arithmetic are part of the environment.
-/

namespace TC.Impl.SendMap

open TC.Impl.Map TC.Impl.Protocol TC.Impl.TaskBacklog
open TC.Impl.Nbt (Bytes)
open TC.Impl.ThreadPool (Priority)
open TC.Impl.Server (Session Failure supports tcSessionGetExtensionVersion)

/-- What the call is given: the map of the cache entry, and `schedule_info`. -/
structure Setup where
  map : TcMap
  priority : Priority
  sessionGeneration : Int

/-- The memory that a chain allocates. -/
inductive Block where
  | backlogArgs
  | sendMapData
  | blockArrayBuffer
  | blockArray2Buffer
  | sendBufferTaskData
deriving DecidableEq, Repr

/-- `tc_send_map_data_t`. -/
structure SendMapData where
  map : Option TcMap
  blockArrayBuffer : Option (List Byte)
  blockArray2Buffer : Option (List Byte)

/-- The tasks of a chain; those that send a buffer with their
`tc_send_buffer_task_data_t`. -/
inductive Func where
  | onMapLoadSuccess
  | tcSendMapTask2
  | tcSendBufferTask (sentCount : Nat) (sendMainBuffer : Bool)
  | tcSendBufferHandleFailure
deriving DecidableEq, Repr

structure Queued where
  func : Func
  priority : Priority
  sessionGeneration : Int

/-- A task with the requested priority. -/
def Setup.task (c : Setup) (func : Func) (sessionGeneration : Int) : Queued :=
  { func, priority := c.priority, sessionGeneration }

structure Chain where
  session : Session
  /-- `shutdown` of the thread pool. -/
  shutdown : Bool
  /-- `open_count` of the cache entry. -/
  openCount : Int
  /-- The reader locks of the map that the chain holds. -/
  readers : Nat
  /-- The action lock of the session is held by the chain. -/
  holdsLock : Bool
  sendMapData : Option SendMapData
  heap : List Block
  /-- The cache has not answered yet. -/
  waiting : Bool
  task : Option Queued
  /-- How often the success handler was scheduled. -/
  succeeded : Nat
  /-- How often the failure handler was called. -/
  failed : Nat
  halted : Option Failure

/-- What a task gets from outside. -/
structure Env where
  deflate : Bytes → Option (List Byte)
  gzip : Bytes → Option (List Byte)
  /-- `p_malloc0` succeeds. -/
  alloc : Bool
  /-- The buffer of the pool has room for a new task. -/
  enqueue : Bool
  /-- How the request for the map is dispatched, once it is loaded. -/
  load : Dispatch
  /-- How the success handler of the caller is dispatched. -/
  handler : Dispatch
  /-- `sent_count * 100.0f / size`. -/
  percent : Nat → Nat → Byte
  /-- A `float` times a factor, as a `pint32`. -/
  scaled : BitVec 32 → Nat → BitVec 32

abbrev SendM := Prog Env Chain

open Prog (ask get modify stop)

/-! ## Memory, locks, references -/

def halt {α : Type} (failure : Failure) : SendM α := do
  modify ({ · with halted := some failure })
  stop

def tcAssert (condition : Bool) : SendM Unit := if condition then return else halt .assertFailed

/-- A value that is there, or an access to `NULL`. -/
def deref {α : Type} (x : Option α) : SendM α :=
  match x with
  | some a => return a
  | none => halt .badAccess

def pFree (b : Block) : SendM Unit := do
  if b ∈ (← get).heap then modify fun s => { s with heap := s.heap.erase b }
  else halt .badAccess

def Chain.alloc (s : Chain) (b : Block) : Chain := { s with heap := s.heap ++ [b] }

def data : SendM SendMapData := do deref (← get).sendMapData

/-- `send_map_data->map->..`. -/
def theMap : SendM TcMap := do deref (← data).map

def readerLock : SendM Unit := modify fun s => { s with readers := s.readers + 1 }

def readerUnlock : SendM Unit := do
  if (← get).readers = 0 then halt .badAccess
  else modify fun s => { s with readers := s.readers - 1 }

def tcSessionReleaseActionLock : SendM Unit :=
  modify fun s => { s with session := { s.session with actionLock := false }, holdsLock := false }

/-- The lock is free when the task starts. -/
def tcSessionAquireActionLock (expectedGeneration : Int) : SendM Bool := do
  if (← get).session.currentGeneration ≠ expectedGeneration then return false
  modify fun s => { s with session := { s.session with actionLock := true }, holdsLock := true }
  return true

def tcMapRef (s : Chain) : Chain := { s with openCount := s.openCount + 1 }

def tcMapUnref (s : Chain) : Chain := { s with openCount := s.openCount - 1 }

/-- A packet sent to the client, unless an assertion fails. -/
def send (packet : Packet) : SendM Bool := do
  let result := packet.send (← get).session.clientSocket
  modify fun s => { s with session := { s.session with clientSocket := result.2 } }
  result.1.elim (halt .assertFailed) pure

/-! ## Scheduling -/

/-- A pool that has been stopped accepts nothing. -/
def Chain.outcome (s : Chain) (o : Dispatch) : Dispatch := if s.shutdown ∧ o = .accepted then .refused else o

def tcThreadScheduleNew (task : Queued) : SendM Bool := do
  if (← get).shutdown ∨ !(← ask).enqueue then return false
  modify ({ · with task := some task })
  return true

def tcThreadScheduleNext (nextTask shutdownTask : Queued) : SendM Unit :=
  modify fun s => { s with task := some (if s.shutdown then shutdownTask else nextTask) }

/-- The handlers of the caller. -/
def userHandlers (release : Chain → Chain) : Handlers Chain where
  success _ _ s := { s with succeeded := s.succeeded + 1 }
  failure _ s := { s with failed := s.failed + 1 }
  aquire := id
  release := release

/-- `tc_task_backlog_invoke_handler` with `schedule_info`. -/
def invokeHandler (c : Setup) (release : Chain → Chain) (result : Bool) (currentPriority : Option Priority) :
    SendM Unit := do
  let env ← ask
  modify fun s => tcTaskBacklogInvokeHandler (userHandlers release) { id := 0, priority := c.priority } result
    currentPriority (s.outcome env.handler) s

/-! ## The end of a chain -/

def freeSendMapData : SendM Unit := do
  let d ← data
  if d.map.isSome then modify tcMapUnref
  if d.blockArrayBuffer.isSome then pFree .blockArrayBuffer
  if d.blockArray2Buffer.isSome then pFree .blockArray2Buffer
  pFree .sendMapData
  modify ({ · with sendMapData := none })

def handleSuccess (c : Setup) (currentPriority : Priority) : SendM Unit := do
  tcSessionReleaseActionLock
  readerUnlock
  invokeHandler c tcMapUnref true (some currentPriority)
  freeSendMapData

def handleFailure (c : Setup) (releaseLock : Bool) : SendM Unit := do
  if releaseLock then tcSessionReleaseActionLock
  if (← data).map.isSome then readerUnlock
  invokeHandler c id false none
  freeSendMapData

def handleMapLoadFailure (c : Setup) : SendM Unit := do
  invokeHandler c tcMapUnref false none
  freeSendMapData

/-! ## Sending chunks -/

/-- `tc_send_buffer_handle_failure`, also the exits of `tc_send_buffer_task`
that clean up. -/
def tcSendBufferHandleFailure (c : Setup) : SendM Unit := do
  handleFailure c true
  pFree .sendBufferTaskData

/-- The chunk that is sent, filled up with zeros. -/
def currentChunk (bytes : List Byte) (sentCount chunkLength : Nat) : Vector Byte 1024 :=
  Vector.ofFn fun i => if i < chunkLength then bytes.getD (sentCount + i) 0 else 0

/-- `TC_CPE_EXTENDED_BLOCKS_EXTENSION_INDEX`. -/
def extendedBlocks : Fin maxSupported := ⟨2, by decide⟩

def chunkPacket (env : Env) (session : Session) (bytes : List Byte) (sentCount : Nat) (sendMainBuffer : Bool) :
    Packet :=
  let chunkLength := min 1024 (bytes.length - sentCount)
  .tcProtocolSendLevelDataChunk (BitVec.ofNat 16 chunkLength) (currentChunk bytes sentCount chunkLength)
    (if supports session extendedBlocks then (if sendMainBuffer then 0 else 1)
      else env.percent sentCount bytes.length)

def finalizePacket (m : TcMap) : Packet := .tcProtocolSendLevelFinalize m.xSize m.ySize m.zSize

/-- The end of a task that sends a chunk: the next chunk. -/
def scheduleChunk (c : Setup) (sentCount : Nat) (sendMainBuffer : Bool) (sessionGeneration : Int) : SendM Unit :=
  tcThreadScheduleNext (c.task (.tcSendBufferTask sentCount sendMainBuffer) sessionGeneration)
    (c.task .tcSendBufferHandleFailure sessionGeneration)

/-- The end of the last `tc_send_buffer_task`. -/
def finishSending (c : Setup) (m : TcMap) (priority : Priority) : SendM Unit := do
  let sent ← send (finalizePacket m)
  if !sent then tcSendBufferHandleFailure c
  else
    handleSuccess c priority
    pFree .sendBufferTaskData

def tcSendBufferTask (c : Setup) (sentCount : Nat) (sendMainBuffer : Bool) (priority : Priority)
    (sessionGeneration : Int) : SendM Unit := do
  tcAssert (priority = c.priority)
  let d ← data
  let bytes ← deref (if sendMainBuffer then d.blockArrayBuffer else d.blockArray2Buffer)
  let sent ← send (chunkPacket (← ask) (← get).session bytes sentCount sendMainBuffer)
  if !sent then tcSendBufferHandleFailure c
  else
    let m ← theMap
    let sentCount := sentCount + min 1024 (bytes.length - sentCount)
    if sentCount < bytes.length then scheduleChunk c sentCount sendMainBuffer sessionGeneration
    else if sendMainBuffer ∧ m.blocks.blockArray2.isSome then scheduleChunk c 0 false sessionGeneration
    else finishSending c m priority

/-! ## Announcing the level -/

/-- A failure of `tc_send_map_task2`. -/
def fail {α : Type} (c : Setup) : SendM α := do
  handleFailure c true
  stop

/-- `HANDLE_FAILURE`. -/
def sendOrFail (c : Setup) (packet : Packet) : SendM Unit := do
  if !(← send packet) then fail c

/-- One `HANDLE_FAILURE` after another. -/
def sendEach (c : Setup) : List Packet → SendM Unit
  | [] => return
  | packet :: packets => do
    sendOrFail c packet
    sendEach c packets

/-- The client must support an extension that the map needs. -/
def needs (c : Setup) (extensionIndex : Fin maxSupported) : SendM Unit := do
  if !supports (← get).session extensionIndex then fail c

/-- `TC_CPE_BLOCK_DEFINITIONS_EXTENSION_INDEX`. -/
def blockDefinitions : Fin maxSupported := ⟨1, by decide⟩

/-- `TC_CPE_FASTMAP_EXTENSION_INDEX`. -/
def fastMap : Fin maxSupported := ⟨5, by decide⟩

/-- `TC_CPE_ENV_MAP_APPEARANCE_EXTENSION_INDEX`. -/
def envMapAppearance : Fin maxSupported := ⟨6, by decide⟩

/-- `TC_CPE_ENV_MAP_WEATHER_TYPE_EXTENSION_INDEX`. -/
def envMapWeatherType : Fin maxSupported := ⟨7, by decide⟩

/-- `TC_CPE_ENV_MAP_COLORS_EXTENSION_INDEX`. -/
def envMapColors : Fin maxSupported := ⟨8, by decide⟩

/-- `TC_CPE_ENV_MAP_ASPECT_EXTENSION_INDEX`. -/
def envMapAspect : Fin maxSupported := ⟨9, by decide⟩

/-- `tc_cpe_map_env_property_t`. -/
inductive MapEnvProperty where
  | sideBlock
  | edgeBlock
  | edgeHeight
  | cloudsHeight
  | maxViewDistance
  | cloudsSpeed
  | weatherSpeed
  | weatherFade
  | useExponentialFog
  | sideOffset

def MapEnvProperty.code : MapEnvProperty → Byte
  | .sideBlock => 0
  | .edgeBlock => 1
  | .edgeHeight => 2
  | .cloudsHeight => 3
  | .maxViewDistance => 4
  | .cloudsSpeed => 5
  | .weatherSpeed => 6
  | .weatherFade => 7
  | .useExponentialFog => 8
  | .sideOffset => 9

def setProperty (property : MapEnvProperty) (value : BitVec 32) : Packet :=
  .tcCpeSendSetMapEnvProperty property.code value

def aspectPackets (env : Env) (textureUrl : String) (a : EnvAspect) : List Packet :=
  [.tcCpeSendSetTextureUrl (ascii textureUrl),
    setProperty .sideBlock (a.sideBlock.signExtend 32),
    setProperty .edgeBlock (a.edgeBlock.signExtend 32),
    setProperty .edgeHeight a.edgeHeight,
    setProperty .cloudsHeight a.cloudsHeight,
    setProperty .cloudsSpeed (env.scaled a.cloudsSpeed 256),
    setProperty .weatherSpeed (env.scaled a.weatherSpeed 256),
    setProperty .weatherFade (env.scaled a.weatherFade 128),
    setProperty .useExponentialFog (a.useExponentialFog.signExtend 32),
    setProperty .sideOffset a.sideOffset]

/-- The texture is that of the appearance, which may not be there. -/
def sendAspect (c : Setup) (m : TcMap) (a : EnvAspect) : SendM Unit := do
  needs c envMapAspect
  let appearance ← deref m.envAppearanceExtension
  sendEach c (aspectPackets (← ask) appearance.textureUrl a)

def fallbackPackets {ySize : BitVec 16} (a : EnvAppearance ySize) : List Packet :=
  [.tcCpeSendSetTextureUrl (ascii a.textureUrl),
    setProperty .sideBlock (a.sideBlock.signExtend 32),
    setProperty .edgeBlock (a.edgeBlock.signExtend 32),
    setProperty .edgeHeight (a.sideLevel.signExtend 32),
    setProperty .cloudsHeight (a.cloudLevel.signExtend 32),
    setProperty .maxViewDistance (a.maximumViewDistance.signExtend 32)]

/-- The packet of the version that the client supports. -/
def sendAppearancePacket (c : Setup) {ySize : BitVec 16} (a : EnvAppearance ySize) (clientSupportedVersion : BitVec 32) :
    SendM Unit :=
  if clientSupportedVersion = 2 then
    sendOrFail c (.tcCpeSendEnvMapAppearance2 (ascii a.textureUrl) a.sideBlock a.edgeBlock a.sideLevel a.cloudLevel
      a.maximumViewDistance)
  else do
    tcAssert (clientSupportedVersion = 1)
    sendOrFail c (.tcCpeSendEnvMapAppearance1 (ascii a.textureUrl) a.sideBlock a.edgeBlock a.sideLevel)

def sendAppearance (c : Setup) {ySize : BitVec 16} (a : EnvAppearance ySize) : SendM Unit := do
  let clientSupportedVersion := tcSessionGetExtensionVersion (← get).session envMapAppearance
  if clientSupportedVersion.toInt < a.extensionVersion.toInt then
    needs c envMapAspect
    sendEach c (fallbackPackets a)
  sendAppearancePacket c a clientSupportedVersion

def sendEnv (c : Setup) (m : TcMap) : SendM Unit :=
  match m.envAspectExtension, m.envAppearanceExtension with
  | some aspect, _ => sendAspect c m aspect
  | none, some appearance => sendAppearance c appearance
  | none, none => return

def sendWeather (c : Setup) (m : TcMap) : SendM Unit :=
  match m.envWeatherExtension with
  | none => return
  | some weather => do
    needs c envMapWeatherType
    sendOrFail c (.tcCpeSendEnvSetWeatherType weather.weatherType)

def colorPackets (e : EnvColors) : List Packet :=
  let packet (field : Byte) (color : ColorConfig) : Packet :=
    .tcCpeSendSetEnvColor field color.red color.green color.blue
  [packet 0 e.sky, packet 1 e.cloud, packet 2 e.fog, packet 3 e.ambient, packet 4 e.sunlight]

def sendColors (c : Setup) (m : TcMap) : SendM Unit :=
  match m.envColorsExtension with
  | none => return
  | some colors => do
    needs c envMapColors
    sendEach c (colorPackets colors)

/-- The definitions themselves are not sent. -/
def checkBlockDefinitions (c : Setup) (m : TcMap) : SendM Unit :=
  if m.blockDefinitionExtensions.isSome then needs c blockDefinitions else return

def int32Max : Nat := 2 ^ 31 - 1

def sendInitialize (c : Setup) (m : TcMap) : SendM Unit := do
  if supports (← get).session fastMap then
    tcAssert (((← data).blockArrayBuffer.getD []).length ≤ int32Max)
    sendOrFail c (.tcProtocolSendLevelInitialize2 (BitVec.ofNat 32 m.blocks.blockArray.val.length))
  else sendOrFail c .tcProtocolSendLevelInitialize

/-- The packets before the blocks. -/
def announceLevel (c : Setup) (m : TcMap) : SendM Unit := do
  sendInitialize c m
  sendEnv c m
  sendWeather c m
  sendColors c m
  checkBlockDefinitions c m

/-- The end of `tc_send_map_task2`: the first chunk. -/
def startSending (c : Setup) (sessionGeneration : Int) : SendM Unit := do
  if !(← ask).alloc then fail c
  else
    modify (·.alloc .sendBufferTaskData)
    scheduleChunk c 0 true sessionGeneration

def tcSendMapTask2 (c : Setup) (priority : Priority) (sessionGeneration : Int) : SendM Unit := do
  tcAssert (priority = c.priority)
  let aquired ← tcSessionAquireActionLock sessionGeneration
  -- a client that is gone: nothing is cleaned up
  if !aquired then return
  else
    announceLevel c (← theMap)
    startSending c sessionGeneration

/-! ## Compressing the map -/

/-- The clean-up of `on_map_load_success`. -/
def endLoad (c : Setup) : SendM Unit := do
  handleFailure c false
  pFree .backlogArgs

def compress (session : Session) (env : Env) : Bytes → Option (List Byte) :=
  if supports session fastMap then env.deflate else env.gzip

def modifyData (f : SendMapData → SendMapData) : SendM Unit := do
  let d ← data
  modify ({ · with sendMapData := some (f d) })

/-- A compressed array, or the end of the chain. -/
def compressOrEnd (c : Setup) (input : Bytes) : SendM (List Byte) := do
  match compress (← get).session (← ask) input with
  | some bytes => return bytes
  | none =>
    endLoad c
    stop

def compressHigh (c : Setup) (m : TcMap) : SendM Unit :=
  match m.blocks.blockArray2 with
  | none => return
  | some blockArray2 => do
    if !supports (← get).session extendedBlocks then
      endLoad c
      stop
    let bytes ← compressOrEnd c blockArray2
    modify (·.alloc .blockArray2Buffer)
    modifyData ({ · with blockArray2Buffer := some bytes })

def onMapLoadSuccess (c : Setup) (priority : Priority) (sessionGeneration : Int) : SendM Unit := do
  modifyData ({ · with map := some c.map })
  tcAssert (priority = .blocking)
  let m ← theMap
  readerLock
  let bytes ← compressOrEnd c m.blocks.blockArray
  modify (·.alloc .blockArrayBuffer)
  modifyData ({ · with blockArrayBuffer := some bytes })
  compressHigh c m
  let scheduled ← tcThreadScheduleNew (c.task .tcSendMapTask2 sessionGeneration)
  if scheduled then pFree .backlogArgs else endLoad c

/-! ## Chains -/

def loadRequest : Request := { id := 1, priority := .blocking }

/-- The handlers of the request for the map. -/
def loadHandlers (c : Setup) (env : Env) : Handlers Chain where
  success r _ s :=
    { s.alloc .backlogArgs with
      task := some { func := .onMapLoadSuccess, priority := r.priority, sessionGeneration := c.sessionGeneration } }
  failure _ s := (handleMapLoadFailure c env s).2
  aquire := tcMapRef
  release := tcMapUnref

/-- The chain before the call. -/
def Chain.idle (session : Session) (shutdown : Bool) (openCount : Int) : Chain where
  session := session
  shutdown := shutdown
  openCount := openCount
  readers := 0
  holdsLock := false
  sendMapData := none
  heap := []
  waiting := false
  task := none
  succeeded := 0
  failed := 0
  halted := none

/-- `none` where the code returns `FALSE`. -/
def tcApiScheduleSendMap (c : Setup) (preLoadedMap : Bool) (currentPriority : Option Priority) (env : Env)
    (s : Chain) : Option Chain :=
  if !env.alloc then none
  else
    let s := { s.alloc .sendMapData with
      sendMapData := some { map := none, blockArrayBuffer := none, blockArray2Buffer := none } }
    if preLoadedMap then
      some (tcTaskBacklogInvokeHandler (loadHandlers c env) loadRequest true currentPriority (s.outcome env.load) s)
    else some { s with waiting := true }

/-- The cache answers: the load has failed, or the load task dispatches its
backlog. -/
def answer (c : Setup) (loaded : Bool) (env : Env) (s : Chain) : Chain :=
  tcTaskScheduleBacklog (loadHandlers c env) loaded .blocking (fun _ => s.outcome env.load) 0 false [loadRequest]
    { s with waiting := false }

def runTask (c : Setup) (task : Queued) : SendM Unit :=
  match task.func with
  | .onMapLoadSuccess => onMapLoadSuccess c task.priority task.sessionGeneration
  | .tcSendMapTask2 => tcSendMapTask2 c task.priority task.sessionGeneration
  | .tcSendBufferTask sentCount sendMainBuffer =>
    tcSendBufferTask c sentCount sendMainBuffer task.priority task.sessionGeneration
  | .tcSendBufferHandleFailure => tcSendBufferHandleFailure c

inductive Label where
  | answer (loaded : Bool) (env : Env)
  /-- The cache cannot schedule the load. -/
  | doubleFree
  | run (env : Env)
  /-- Other tasks change the session, as when the client disconnects. -/
  | session (session : Session)
  | stop

def chainStep (c : Setup) (s : Chain) (l : Label) : Option Chain :=
  if s.halted.isSome then none
  else
    match l with
    | .answer loaded env => if s.waiting then some (answer c loaded env s) else none
    | .doubleFree => if s.waiting then some { s with waiting := false, halted := some .badAccess } else none
    | .run env =>
      match s.task with
      | none => none
      | some task =>
        -- the lock is waited for
        if task.func = .tcSendMapTask2 ∧ s.session.actionLock then none
        else some (runTask c task env { s with task := none }).2
    | .session session =>
      if s.holdsLock ∧ !session.actionLock then none else some { s with session := session }
    | .stop => some { s with shutdown := true }

end TC.Impl.SendMap
