import TeleClassic.Impl.SendMap

/-!
# The stages of a map that is sent

Between two tasks, all that a chain holds follows from its stage: `Stage.chain`
is the chain in a stage. `Next` says from which stage to which a task goes, and
`Moves` says it of a step; that the code does this is proved in `Tasks`. The
lemmas here are what the tasks share: the ways in which a chain ends, on the
states `busy` and `released`, and a packet that is sent.
-/

namespace TC.Proof.SendMap

open TC.Impl.Map TC.Impl.Protocol TC.Impl.TaskBacklog TC.Impl.SendMap
open TC.Impl.ThreadPool (Priority)
open TC.Impl.Server (Session Failure supports tcSessionGetExtensionVersion)
open Prog

/-! ## States -/

/-- What is not the chain's own: the session, and whether the pool is stopped. -/
structure Around where
  session : Session
  shutdown : Bool

def Around.unlock (a : Around) (releaseLock : Bool) : Around :=
  if releaseLock then { a with session := { a.session with actionLock := false } } else a

/-- A stopped pool accepts nothing. -/
def Around.outcome (a : Around) (o : Dispatch) : Dispatch := if a.shutdown ∧ o = .accepted then .refused else o

/-- The arguments of tasks, which outlive the data of the chain. -/
structure Args where
  backlogArgs : Bool
  sendBufferTaskData : Bool

def Args.none : Args := { backlogArgs := false, sendBufferTaskData := false }

def blockIf (b : Block) (present : Bool) : List Block := if present then [b] else []

def Args.blocks (x : Args) : List Block :=
  blockIf .backlogArgs x.backlogArgs ++ blockIf .sendBufferTaskData x.sendBufferTaskData

/-- The heap of a chain, in the order of the allocations. -/
def heapOf (d : SendMapData) (x : Args) : List Block :=
  [.sendMapData] ++ blockIf .backlogArgs x.backlogArgs ++ blockIf .blockArrayBuffer d.blockArrayBuffer.isSome ++
    blockIf .blockArray2Buffer d.blockArray2Buffer.isSome ++ blockIf .sendBufferTaskData x.sendBufferTaskData

/-- A chain that has the map. -/
def busy (a : Around) (openCount : Int) (d : SendMapData) (holdsLock : Bool) (x : Args) (task : Option Queued) :
    Chain where
  session := a.session
  shutdown := a.shutdown
  openCount := openCount
  readers := 1
  holdsLock := holdsLock
  sendMapData := some d
  heap := heapOf d x
  waiting := false
  task := task
  succeeded := 0
  failed := 0
  halted := Option.none

/-- A chain that has let go of everything but the arguments of tasks. -/
def released (a : Around) (openCount : Int) (succeeded failed : Nat) (x : Args) : Chain where
  session := a.session
  shutdown := a.shutdown
  openCount := openCount
  readers := 0
  holdsLock := false
  sendMapData := Option.none
  heap := x.blocks
  waiting := false
  task := Option.none
  succeeded := succeeded
  failed := failed
  halted := Option.none

/-! ## Stages -/

/-- The compressed arrays. -/
structure Buffers (c : Setup) where
  main : List Byte
  high : Option (List Byte)
  high_isSome : high.isSome = c.map.blocks.blockArray2.isSome

variable {c : Setup} (b : Buffers c)

def Buffers.data : SendMapData := { map := some c.map, blockArrayBuffer := some b.main, blockArray2Buffer := b.high }

/-- The array that is being sent. -/
def Buffers.selected (sendMainBuffer : Bool) : Option (List Byte) := if sendMainBuffer then some b.main else b.high

/-- Where a chain is between two tasks. -/
inductive Stage (c : Setup) where
  | waiting
  | loaded
  | ready (b : Buffers c)
  | sending (b : Buffers c) (sentCount : Nat) (sendMainBuffer : Bool) (h : (b.selected sendMainBuffer).isSome)
  | cancelled (b : Buffers c)
  /-- The failure handler was called. -/
  | failed
  /-- The success handler was scheduled. -/
  | succeeded
  /-- The pool refused the success handler. -/
  | refused
  /-- The client was gone before the map was announced. -/
  | lost (b : Buffers c)
  | aborted (b : Buffers c) (failure : Failure)
  | crashed

def emptyData : SendMapData := { map := none, blockArrayBuffer := none, blockArray2Buffer := none }

def sendBufferArgs : Args := { backlogArgs := false, sendBufferTaskData := true }

/-- The chain in a stage; `n` is the reference count without it. -/
def Stage.chain (a : Around) (n : Int) : Stage c → Chain
  | .waiting => { released a n 0 0 Args.none with waiting := true, sendMapData := some emptyData, heap := [.sendMapData] }
  | .loaded =>
    { released a (n + 1) 0 0 Args.none with
      sendMapData := some emptyData
      heap := [.sendMapData, .backlogArgs]
      task := some { func := .onMapLoadSuccess, priority := .blocking, sessionGeneration := c.sessionGeneration } }
  | .ready b => busy a (n + 1) b.data false Args.none (c.task .tcSendMapTask2 c.sessionGeneration)
  | .sending b sentCount sendMainBuffer _ =>
    busy a (n + 1) b.data true sendBufferArgs (c.task (.tcSendBufferTask sentCount sendMainBuffer) c.sessionGeneration)
  | .cancelled b => busy a (n + 1) b.data true sendBufferArgs (c.task .tcSendBufferHandleFailure c.sessionGeneration)
  | .failed => released a n 0 1 Args.none
  | .succeeded => released a n 1 0 Args.none
  | .refused => released a (n - 1) 0 1 Args.none
  | .lost b => busy a (n + 1) b.data false Args.none none
  | .aborted b failure => { busy a (n + 1) b.data true Args.none none with halted := some failure }
  | .crashed =>
    { released a n 0 0 Args.none with
      sendMapData := some emptyData, heap := [.sendMapData], halted := some .badAccess }

/-! ## What the stages depend on -/

/-- The versions of an appearance that can be sent: the client has one of the
two versions, or is too old and has no other extension instead. -/
def VersionOk (session : Session) {ySize : BitVec 16} (appearance : EnvAppearance ySize) : Prop :=
  tcSessionGetExtensionVersion session envMapAppearance = 1 ∨
    tcSessionGetExtensionVersion session envMapAppearance = 2 ∨
    ((tcSessionGetExtensionVersion session envMapAppearance).toInt < appearance.extensionVersion.toInt ∧
      supports session envMapAspect = false)

/-- The client has the extensions that a map needs before its colours are sent. -/
structure EquippedEnv (session : Session) (m : TcMap) : Prop where
  aspect : m.envAspectExtension.isSome → supports session envMapAspect = true
  appearance : m.envAspectExtension = none → ∀ appearance, m.envAppearanceExtension = some appearance →
    (tcSessionGetExtensionVersion session envMapAppearance).toInt < appearance.extensionVersion.toInt →
    supports session envMapAspect = true
  weather : m.envWeatherExtension.isSome → supports session envMapWeatherType = true

/-- The client has all extensions that the map needs. -/
structure Equipped (session : Session) (m : TcMap) : Prop extends EquippedEnv session m where
  colors : m.envColorsExtension.isSome → supports session envMapColors = true
  definitions : m.blockDefinitionExtensions.isSome → supports session blockDefinitions = true

/-- What `tc_send_map_task2` asserts or relies on, if the client has what is needed
to come that far. -/
structure Sendable (session : Session) (m : TcMap) (blockArrayBuffer : List Byte) : Prop where
  size : supports session fastMap = true → blockArrayBuffer.length ≤ int32Max
  texture : m.envAspectExtension.isSome → supports session envMapAspect = true → m.envAppearanceExtension.isSome
  version : m.envAspectExtension = none → ∀ appearance, m.envAppearanceExtension = some appearance →
    VersionOk session appearance
  colors : EquippedEnv session m → ∀ colors, m.envColorsExtension = some colors →
    supports session envMapColors = true → ∀ p ∈ colorPackets colors, p.asserts = true

/-- The chunk is the last one of the map, it and the end of the level are sent,
and the arguments of the success handler can be allocated. -/
structure Finishes (c : Setup) (env : Env) (session : Session) (bytes : List Byte) (sentCount : Nat)
    (sendMainBuffer : Bool) : Prop where
  last : bytes.length ≤ sentCount + min 1024 (bytes.length - sentCount)
  high : ¬(sendMainBuffer ∧ c.map.blocks.blockArray2.isSome)
  chunk : ((chunkPacket env session bytes sentCount sendMainBuffer).send session.clientSocket).1 = some true
  level : ((finalizePacket c.map).send
    ((chunkPacket env session bytes sentCount sendMainBuffer).send session.clientSocket).2).1 = some true
  args : env.handler ≠ .noArgs

/-! ## From stage to stage -/

/-- The tasks of a chain, from stage to stage. -/
inductive Next (c : Setup) (env : Env) (a : Around) : Stage c → Stage c → Prop
  | notCompressed : Next c env a .loaded .failed
  | compressed (b : Buffers c) : Next c env a .loaded (.ready b)
  | gone (b : Buffers c) (h : a.session.currentGeneration ≠ c.sessionGeneration) :
    Next c env a (.ready b) (.lost b)
  | aborted (b : Buffers c) (failure : Failure) (h : ¬Sendable a.session c.map b.main) :
    Next c env a (.ready b) (.aborted b failure)
  | notAnnounced (b : Buffers c) : Next c env a (.ready b) .failed
  | announced (b : Buffers c) : Next c env a (.ready b) (.sending b 0 true rfl)
  | announcedLast (b : Buffers c) : Next c env a (.ready b) (.cancelled b)
  | chunk {b : Buffers c} {sentCount sentCount' : Nat} {main main' : Bool} (h : (b.selected main).isSome)
    (h' : (b.selected main').isSome)
    (hnot : ¬Finishes c env a.session ((b.selected main).get h) sentCount main) :
    Next c env a (.sending b sentCount main h) (.sending b sentCount' main' h')
  | lastChunk {b : Buffers c} {sentCount : Nat} {main : Bool} (h : (b.selected main).isSome)
    (hnot : ¬Finishes c env a.session ((b.selected main).get h) sentCount main) :
    Next c env a (.sending b sentCount main h) (.cancelled b)
  | notSent {b : Buffers c} {sentCount : Nat} {main : Bool} (h : (b.selected main).isSome)
    (hnot : ¬Finishes c env a.session ((b.selected main).get h) sentCount main) :
    Next c env a (.sending b sentCount main h) .failed
  | succeeded {b : Buffers c} {sentCount : Nat} {main : Bool} (h : (b.selected main).isSome)
    (hfin : Finishes c env a.session ((b.selected main).get h) sentCount main)
    (hhandler : a.outcome env.handler = .accepted) : Next c env a (.sending b sentCount main h) .succeeded
  | refused {b : Buffers c} {sentCount : Nat} {main : Bool} (h : (b.selected main).isSome)
    (hfin : Finishes c env a.session ((b.selected main).get h) sentCount main)
    (hhandler : a.outcome env.handler = .refused) : Next c env a (.sending b sentCount main h) .refused
  | cancelled (b : Buffers c) : Next c env a (.cancelled b) .failed

/-- The chain is in a stage with `P`, whatever has become of the session. -/
def In (a : Around) (n : Int) (P : Stage c → Prop) (s : Chain) : Prop :=
  ∃ session st, P st ∧ s = st.chain { a with session } n

/-- A step of the chain, from stage to stage. -/
inductive Moves (c : Setup) (a : Around) : Label → Stage c → Stage c → Prop
  | answered (env : Env) : Moves c a (.answer true env) .waiting .loaded
  | notLoaded (loaded : Bool) (env : Env) : Moves c a (.answer loaded env) .waiting .failed
  | doubleFree : Moves c a .doubleFree .waiting .crashed
  | run {env : Env} {st st' : Stage c} (h : Next c env a st st') : Moves c a (.run env) st st'
  | session (session : Session) (st : Stage c) : Moves c a (.session session) st st
  | stop (st : Stage c) : Moves c a .stop st st

variable (env : Env) {a : Around} {n : Int} {d : SendMapData} {m : TcMap} {x : Args}

/-! ## The end of a chain -/

theorem freeSendMapData_eq (hm : d.map = some m) (s : Chain) :
    freeSendMapData env { s with sendMapData := some d, heap := heapOf d x } =
      (some (), { s with openCount := s.openCount - 1, sendMapData := none, heap := x.blocks }) := by
  obtain ⟨_, main, high⟩ := d
  subst hm
  obtain ⟨_ | _, _ | _⟩ := x <;> cases main <;> cases high <;> rfl

theorem handleFailure_busy (hm : d.map = some m) (lock : Bool) :
    handleFailure c lock env (busy a n d lock x none) = (some (), released (a.unlock lock) (n - 1) 0 1 x) := by
  have hfree : freeSendMapData env { released (a.unlock lock) n 0 1 x with sendMapData := some d, heap := heapOf d x } =
    (some (), released (a.unlock lock) (n - 1) 0 1 x) := freeSendMapData_eq env hm _
  obtain ⟨_, main, high⟩ := d
  subst hm
  cases lock <;> exact hfree

/-- How the chain ends once the map is sent. -/
def handed (a : Around) (n : Int) (x : Args) : Dispatch → Chain
  | .noArgs => released a n 0 1 x
  | .refused => released a (n - 1) 0 1 x
  | .accepted => released a n 1 0 x

theorem handleSuccess_busy (hm : d.map = some m) (priority : Priority) :
    handleSuccess c priority env (busy a n d true x none) =
      (some (), handed (a.unlock true) (n - 1) x (a.outcome env.handler)) := by
  have hfree (s : Chain) := freeSendMapData_eq env (x := x) hm s
  have hrun : handleSuccess c priority env (busy a n d true x none) =
      freeSendMapData env (dispatch (userHandlers tcMapUnref) { id := 0, priority := c.priority }
        (some priority = some c.priority) (a.outcome env.handler)
        { released (a.unlock true) n 0 0 x with sendMapData := some d, heap := heapOf d x }) := rfl
  rw [hrun]
  cases a.outcome env.handler with
  | noArgs => exact hfree (released (a.unlock true) n 0 1 x)
  | refused => exact hfree (released (a.unlock true) (n - 1) 0 1 x)
  | accepted => exact hfree (released (a.unlock true) n 1 0 x)

theorem pFree_backlogArgs_released {succeeded failed : Nat} :
    pFree .backlogArgs env (released a n succeeded failed { x with backlogArgs := true }) =
      (some (), released a n succeeded failed { x with backlogArgs := false }) := by
  obtain ⟨_ | _, _ | _⟩ := x <;> rfl

theorem pFree_backlogArgs_busy {holdsLock : Bool} {task : Option Queued} :
    pFree .backlogArgs env (busy a n d holdsLock { x with backlogArgs := true } task) =
      (some (), busy a n d holdsLock { x with backlogArgs := false } task) := by
  obtain ⟨_, main, high⟩ := d
  obtain ⟨_ | _, _ | _⟩ := x <;> cases main <;> cases high <;> rfl

theorem pFree_sendBufferTaskData_released {succeeded failed : Nat} :
    pFree .sendBufferTaskData env (released a n succeeded failed { x with sendBufferTaskData := true }) =
      (some (), released a n succeeded failed { x with sendBufferTaskData := false }) := by
  obtain ⟨_ | _, _ | _⟩ := x <;> rfl

theorem tcSendBufferHandleFailure_busy (hm : d.map = some m) :
    tcSendBufferHandleFailure c env (busy a n d true { x with sendBufferTaskData := true } none) =
      (some (), released (a.unlock true) (n - 1) 0 1 { x with sendBufferTaskData := false }) := by
  rw [tcSendBufferHandleFailure, bind_of_some (handleFailure_busy env hm true)]
  exact pFree_sendBufferTaskData_released env

/-! ## Sending packets -/

def Around.withSocket (a : Around) (socket : Stream) : Around :=
  { a with session := { a.session with clientSocket := socket } }

variable {p : Packet}

theorem send_run (s : Chain) :
    send p env s = (p.send s.session.clientSocket).1.elim (halt .assertFailed) pure env
      { s with session := { s.session with clientSocket := (p.send s.session.clientSocket).2 } } :=
  rfl

theorem send_eq {sent : Bool} {socket : Stream} {s : Chain}
    (h : p.send s.session.clientSocket = (some sent, socket)) :
    send p env s = (some sent, { s with session := { s.session with clientSocket := socket } }) := by
  rw [send_run, h]
  rfl

theorem send_of_not_asserts {s : Chain} (h : p.asserts = false) :
    send p env s = (none, { s with halted := some .assertFailed }) := by
  have hsend : p.send s.session.clientSocket = (none, s.session.clientSocket) := by simp [Packet.send, h]
  rw [send_run, hsend]
  rfl

theorem send_of_asserts (h : p.asserts = true) (socket : Stream) :
    ∃ sent socket', p.send socket = (some sent, socket') := by
  simp [Packet.send, h]

end TC.Proof.SendMap
