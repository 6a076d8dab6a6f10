import TeleClassic.Impl.Session

/-!
# Packet handlers (`handler.c`)

The tasks that `tc_server_client_listen_task` schedules once it has read a
packet. They read the packet from the session's buffer; a read outside of it is
an access to memory that is not there.
-/

namespace TC.Impl.Server

open TC.Impl.ThreadPool TC.Impl.Protocol Prog

/-! ## Reading a packet -/

/-- `n` bytes of the packet from `offset` on. -/
def readBytes (slot : Slot) (offset n : Nat) : TaskM (List Byte) := do
  match (← session slot).pendingPacketBuffer with
  | none => halt .outOfBuffer
  | some buffer =>
    if offset + n ≤ buffer.length then return (buffer.drop offset).take n else halt .outOfBuffer

def readByte (slot : Slot) (offset : Nat) : TaskM Byte := do
  return (← readBytes slot offset 1).headD 0

def readShort (slot : Slot) (offset : Nat) : TaskM (BitVec 16) := do
  let bytes ← readBytes slot offset 2
  return tcProtocolDecodeShort (bytes.getD 0 0) (bytes.getD 1 0)

def readInt (slot : Slot) (offset : Nat) : TaskM (BitVec 32) := do
  let bytes ← readBytes slot offset 4
  return tcProtocolDecodeInt (bytes.getD 0 0) (bytes.getD 1 0) (bytes.getD 2 0) (bytes.getD 3 0)

def readString (slot : Slot) (offset : Nat) : TaskM (List Byte) := do
  return (tcProtocolDecodeString (← readBytes slot offset maxStrLen)).1

/-! ## The end of the handshake -/

/-- `TC_PROTOCOL_USER_TYPE_STANDARD`. -/
def userTypeStandard : Byte := 0x00

/-- `finalize_player_identification` once the server's identification was sent. -/
def finishHandshake (slot : Slot) (priority : Priority) (generation : Int) : TaskM Unit := do
  tcServerProtocolHandlerCleanup slot none priority generation
  modify fun w => { w with activePlayers := w.activePlayers + 1 }.emit
    (.finished slot (w.sessionBuffer slot).currentGeneration)
  if ← tcSessionJoin slot none priority generation false then
    tcSessionReleaseActionLock slot
  else
    tcServerKickSession slot (some "Failed to join default/lobby.") generation true
    tcSessionReleaseActionLock slot

def finalizePlayerIdentification (slot : Slot) (priority : Priority) (generation : Int) :
    TaskM Unit := do
  emit (.finalizing slot generation)
  let config := (← get).config
  unless ← send slot (.tcProtocolServerIdentification config.serverName config.motd userTypeStandard) do
    tcServerKickSession slot (some "Could not send server identification packet.") (-1) false
    return
  finishHandshake slot priority generation

/-! ## CPE -/

/-- The loop over `tc_supported_extensions`, until a packet cannot be sent. -/
def sendExtentries (slot : Slot) : List Extension → TaskM Bool
  | [] => return true
  | extension :: extensions => do
    unless ← send slot (.tcCpeSendExtentry extension.name extension.version) do return false
    sendExtentries slot extensions

def handleBeginCpeNegotiation (slot : Slot) (priority : Priority) (generation : Int) :
    TaskM Unit := do
  unless ← tcSessionAquireActionLock slot generation do return
  tcAssert (← session slot).supportsCpe
  unless ← send slot (.tcCpeSendExtinfo (ascii "TeleClassic26")) do
    return ← kickAndRelease slot "Could not send CPE extinfo packet."
  unless ← sendExtentries slot supportedExtensions do
    return ← kickAndRelease slot "Could not send CPE extentry packet."
  tcServerProtocolHandlerCleanup slot (some .tcServerClientListenTask) priority generation
  tcSessionReleaseActionLock slot

def handleCpeExtinfo (slot : Slot) (priority : Priority) (generation : Int) : TaskM Unit := do
  unless ← tcSessionAquireActionLock slot generation do return
  tcAssert (← session slot).supportsCpe
  if (← session slot).remainingCpeExtPackets.toInt ≥ 0 then
    return ← kickAndRelease slot "Client cannot send more than 1 CPE extinfo packet."
  let _appname ← readString slot 0
  let extensionCount ← readShort slot maxStrLen
  modifySession slot ({ · with remainingCpeExtPackets := extensionCount })
  tcServerProtocolHandlerCleanup slot (some .tcServerClientListenTask) priority generation
  tcSessionReleaseActionLock slot

/-- `session->remaining_cpe_ext_packets--`. -/
def countExtPacket (slot : Slot) : TaskM Unit :=
  modifySession slot fun s => { s with remainingCpeExtPackets := s.remainingCpeExtPackets - 1 }

/-- `TC_MIN` of a client's version and the server's. -/
def minVersion (client server : BitVec 32) : BitVec 32 := if client.toInt < server.toInt then client else server

/-- `session->ext_cpe_versions[i / 4] |= (version & 0x3) << (i % 4 * 2)`. -/
def setExtensionVersion (session : Session) (extensionIndex : Nat) (version : BitVec 32) : Session :=
  let bits : Byte := ((version &&& 0x3) <<< (extensionIndex % 4 * 2)).setWidth 8
  { session with
    extCpeVersions := session.extCpeVersions.mapIdx fun i versions =>
      if i = extensionIndex / 4 then versions ||| bits else versions }

/-- `TC_CPE_CUSTOM_BLOCKS_MAX_SUPPORT_LEVEL`. -/
def maxSupportLevel : Byte := 1

/-- `handle_cpe_extentry` once the last declared entry has been counted. -/
def finishExtentries (slot : Slot) (priority : Priority) (generation : Int) : TaskM Unit := do
  if supports (← session slot) customBlocks then
    if ← send slot (.tcCpeSendCustomBlockSupportLevel maxSupportLevel) then
      tcServerProtocolHandlerCleanup slot (some .tcServerClientListenTask) priority generation
      tcSessionReleaseActionLock slot
    else
      tcServerKickSession slot (some "Could not send custom block support level packet.") (-1) false
      tcServerProtocolHandlerCleanup slot (some .tcServerClientListenTask) priority generation
      tcSessionReleaseActionLock slot
  else
    finalizePlayerIdentification slot priority generation
    tcSessionReleaseActionLock slot

/-- `handle_cpe_extentry` on an extension that the server has. -/
def acceptExtentry (slot : Slot) (priority : Priority) (generation : Int) (extensionIndex : Nat) :
    TaskM Unit := do
  let clientVersion ← readInt slot maxStrLen
  let serverVersion := (supportedExtensions.map Extension.version).getD extensionIndex 0
  let version := minVersion clientVersion (serverVersion.signExtend 32)
  if version.toInt < 1 ∨ version.toInt > 3 then
    countExtPacket slot
    return ← kickAndRelease slot "Invalid extension version: TeleClassic26 only supports extensions 1-3."
  modifySession slot (setExtensionVersion · extensionIndex version)
  countExtPacket slot
  if (← session slot).remainingCpeExtPackets = 0 then
    finishExtentries slot priority generation
  else
    tcServerProtocolHandlerCleanup slot (some .tcServerClientListenTask) priority generation
    tcSessionReleaseActionLock slot

def handleCpeExtentry (slot : Slot) (priority : Priority) (generation : Int) : TaskM Unit := do
  unless ← tcSessionAquireActionLock slot generation do return
  tcAssert (← session slot).supportsCpe
  if (← session slot).remainingCpeExtPackets = 0 then
    return ← kickAndRelease slot "Client has already sent all extension packets."
  let extensionName ← readString slot 0
  match tcCpeGetExtensionIndex extensionName with
  | none =>
    countExtPacket slot
    tcServerProtocolHandlerCleanup slot (some .tcServerClientListenTask) priority generation
    tcSessionReleaseActionLock slot
  | some extensionIndex => acceptExtentry slot priority generation extensionIndex

def handleCpeCustomBlockSupportLevel (slot : Slot) (priority : Priority) (generation : Int) :
    TaskM Unit := do
  unless ← tcSessionAquireActionLock slot generation do return
  tcAssert (← session slot).supportsCpe
  let level ← readByte slot 0
  modifySession slot ({ · with customBlockSupportLevel := level })
  finalizePlayerIdentification slot priority generation
  tcSessionReleaseActionLock slot

/-! ## Identification -/

/-- `session->authenticated_service` is set, and with it whether the client
asked for CPE. -/
def identify (slot : Slot) (service : Nat) (supportsCpe : Bool) : TaskM Unit :=
  modify fun w =>
    let s := w.sessionBuffer slot
    ((w.setSession slot { s with
      authenticatedService := some service, supportsCpe := supportsCpe }).emit
        (.validated slot s.currentGeneration)).emit (.identified slot s.currentGeneration supportsCpe)

def handlePlayerIdentification (slot : Slot) (priority : Priority) (generation : Int) :
    TaskM Unit := do
  unless ← tcSessionAquireActionLock slot generation do return
  if (← session slot).authenticatedService.isSome then
    return ← kickAndRelease slot "Already Identified: Your client has a bug."
  unless (← readByte slot 0) = protocolVersion do
    return ← kickAndRelease slot "Invalid Protocol Version: Please update your client."
  let username ← readString slot 1
  modifySession slot ({ · with username := username })
  let key ← readString slot (1 + maxStrLen)
  match (← ask).env.validate username key with
  | none => kickAndRelease slot "Could not validate your identity."
  | some service =>
    let supportsCpe := (← readByte slot 129) = 0x42
    identify slot service supportsCpe
    if supportsCpe then
      tcServerProtocolHandlerCleanup slot (some .handleBeginCpeNegotiation) priority generation
      tcSessionReleaseActionLock slot
    else
      finalizePlayerIdentification slot priority generation
      tcSessionReleaseActionLock slot

/-! ## Play -/

/-- The block id of a set-block packet. -/
def readBlock (slot : Slot) : TaskM (BitVec 16) := do
  if supports (← session slot) customBlocks then return ← readShort slot 7
  return (← readByte slot 7).signExtend 16

def handlePlayerSetBlock (slot : Slot) (priority : Priority) (generation : Int) : TaskM Unit := do
  unless ← tcSessionAquireActionLock slot generation do return
  let x ← readShort slot 0
  let y ← readShort slot 2
  let z ← readShort slot 4
  let mode ← readByte slot 6
  let block ← readBlock slot
  if (← session slot).currentJoinable.isNone then
    return ← kickAndRelease slot "Client cannot currently set blocks."
  emit (.handed slot generation)
  unless (← ask).env.handleSetBlock x y z mode block do
    return ← kickAndRelease slot "Failed to handle set block request."
  tcServerProtocolHandlerCleanup slot (some .tcServerClientListenTask) priority generation
  tcSessionReleaseActionLock slot

def handlePlayerPositionAndOrientationUpdate (slot : Slot) (priority : Priority)
    (generation : Int) : TaskM Unit := do
  unless ← tcSessionAquireActionLock slot generation do return
  let offset := if supports (← session slot) customBlocks then 2 else 1
  let x ← readShort slot offset
  let y ← readShort slot (offset + 2)
  let z ← readShort slot (offset + 4)
  let heading ← readByte slot (offset + 6)
  let pitch ← readByte slot (offset + 7)
  if (← session slot).currentJoinable.isNone then
    return ← kickAndRelease slot "Client cannot currently update their position and orientation."
  emit (.handed slot generation)
  unless (← ask).env.handlePositionUpdate x y z heading pitch do
    return ← kickAndRelease slot "Failed to handle position and orientation update request."
  tcServerProtocolHandlerCleanup slot (some .tcServerClientListenTask) priority generation
  tcSessionReleaseActionLock slot

/-! ## The tables -/

/-- `TC_PACKET_HANDLERS_MAX_PACKETS`. -/
def maxPackets : Int := 32

/-- `tc_packet_handlers`. -/
def tcPacketHandlers (opcode : Int) : Option Func :=
  if opcode = 0x10 then some .handleCpeExtinfo
  else if opcode = 0x11 then some .handleCpeExtentry
  else if opcode = 0x13 then some .handleCpeCustomBlockSupportLevel
  else if opcode = 0x00 then some .handlePlayerIdentification
  else if opcode = 0x05 then some .handlePlayerSetBlock
  else if opcode = 0x08 then some .handlePlayerPositionAndOrientationUpdate
  else none

/-- `tc_packet_data_sizes`. -/
def tcPacketDataSizes (opcode : Int) : Nat :=
  if opcode = 0x10 then 66
  else if opcode = 0x11 then 68
  else if opcode = 0x13 then 1
  else if opcode = 0x00 then 130
  else if opcode = 0x05 then 8
  else if opcode = 0x08 then 9
  else 0

def tcPacketDataSize (opcode : Int) (session : Session) : Nat :=
  if supports session customBlocks ∧ opcode = 0x05 then 9
  else if supports session customBlocks ∧ opcode = 0x08 then 10
  else tcPacketDataSizes opcode

end TC.Impl.Server
