import TeleClassic.Framework.Stream

/-!
# The protocol (`protocol.c`)

A packet is sent field by field, and each field by one or more calls of
`p_socket_send`: a byte by one, a short by two, an int by four, a string by one
of 64 bytes and a data chunk by one. The functions that send packets are all of
one form, a list of fields that stops at the first that fails; a `Packet` is a
call of one of them, under its name, with its arguments (`Packet.fields`).

`pchar`, `pint16` and `pint32` are bit vectors; the conversions between them
that C makes are written out.
-/

namespace TC.Impl.Protocol

/-- `TC_PROTOCOL_MAX_STR_LEN`. -/
def maxStrLen : Nat := 64

/-- `TC_PROTOCOL_VERSION`. -/
def protocolVersion : Byte := 0x07

/-! ## Sending -/

/-- `p_socket_send` on a socket: its answer, and the socket afterwards. An
empty buffer is an invalid argument. -/
def pSocketSend (socket : Stream) (buffer : List Byte) : Outcome × Stream :=
  if buffer = [] then (.failed, socket) else (socket.next, socket.offer buffer)

/-- How `tc_protocol_send_byte` and `tc_protocol_send_datachunk` read the
answer: to wait is taken for success. -/
def isSent : Outcome → Bool
  | .accept _ => true
  | .wouldBlock => true
  | .disconnected => false
  | .failed => false

def tcProtocolSendByte (socket : Stream) (opcode : Byte) : Bool × Stream :=
  let (sent, socket) := pSocketSend socket [opcode]
  (isSent sent, socket)

def tcProtocolSendDatachunk (socket : Stream) (data : List Byte) (length : Nat) : Bool × Stream :=
  let (sent, socket) := pSocketSend socket (data.take length)
  (isSent sent, socket)

/-- Calls made one after another until one returns `FALSE`. -/
def allSent : List (Stream → Bool × Stream) → Stream → Bool × Stream
  | [], socket => (true, socket)
  | send :: sends, socket =>
    let (sent, socket) := send socket
    if !sent then (false, socket) else allSent sends socket

def tcProtocolSendShort (socket : Stream) (data : BitVec 16) : Bool × Stream :=
  let high := data.extractLsb' 8 8
  let low := data.extractLsb' 0 8
  allSent [(tcProtocolSendByte · high), (tcProtocolSendByte · low)] socket

def tcProtocolSendInt (socket : Stream) (data : BitVec 32) : Bool × Stream :=
  let ha := data.extractLsb' 24 8
  let hb := data.extractLsb' 16 8
  let la := data.extractLsb' 8 8
  let lb := data.extractLsb' 0 8
  allSent [(tcProtocolSendByte · ha), (tcProtocolSendByte · hb), (tcProtocolSendByte · la),
    (tcProtocolSendByte · lb)] socket

/-- The buffer of `tc_protocol_send_string`: the text, cut at 64 bytes, and
spaces. -/
def stringField (str : List Byte) : List Byte :=
  let text := strn maxStrLen str
  text ++ List.replicate (maxStrLen - text.length) 0x20

/-- `tc_protocol_send_string` does not ask `p_socket_send` for the error, so
to wait is a failure here. -/
def tcProtocolSendString (socket : Stream) (str : List Byte) : Bool × Stream :=
  let (sent, socket) := pSocketSend socket (stringField str)
  match sent with
  | .accept _ => (true, socket)
  | _ => (false, socket)

/-! ## Decoding -/

/-- `tc_protocol_decode_short`, with `pchar` signed: both bytes are extended
to `int` before they are combined. -/
def tcProtocolDecodeShort (b0 b1 : Byte) : BitVec 16 :=
  ((b0.signExtend 32 <<< 8) ||| b1.signExtend 32).setWidth 16

def tcProtocolDecodeInt (b0 b1 b2 b3 : Byte) : BitVec 32 :=
  (b0.signExtend 32 <<< 24) ||| (b1.signExtend 32 <<< 16) ||| (b2.signExtend 32 <<< 8) |||
    b3.signExtend 32

/-- The text of a string field, without its trailing spaces. -/
def decodedText (packet : List Byte) : List Byte :=
  ((packet.take maxStrLen).reverse.dropWhile (· = 0x20)).reverse

/-- `tc_protocol_decode_string`: the 64 bytes of `dest_buffer`, and the length. -/
def tcProtocolDecodeString (packet : List Byte) : List Byte × Nat :=
  let text := decodedText packet
  (text ++ List.replicate (maxStrLen - text.length) 0, text.length)

/-! ## Packets -/

inductive Field where
  | byte (b : Byte)
  | short (v : BitVec 16)
  | int (v : BitVec 32)
  | string (s : List Byte)
  | datachunk (data : List Byte) (length : Nat)

def Field.send : Field → Stream → Bool × Stream
  | .byte b => (tcProtocolSendByte · b)
  | .short v => (tcProtocolSendShort · v)
  | .int v => (tcProtocolSendInt · v)
  | .string s => (tcProtocolSendString · s)
  | .datachunk data length => (tcProtocolSendDatachunk · data length)

/-- `send_position`. -/
def sendPosition (position : BitVec 32) (useExtendedPositions : Bool) : List Field :=
  [.short (position.extractLsb' 16 16),
    if useExtendedPositions then .int position else .short (position.extractLsb' 0 16)]

/-- A block id or a texture id: two bytes, or the low one. -/
def sendId (id : BitVec 16) (extended : Bool) : Field :=
  if extended then .short id else .byte (id.extractLsb' 0 8)

/-- A call of a function of `protocol.c` that sends a packet. -/
inductive Packet where
  | tcProtocolServerIdentification (serverName motd : List Byte) (userType : Byte)
  | tcProtocolPing
  | tcProtocolKick (msg : List Byte)
  | tcCpeSendExtinfo (appname : List Byte)
  | tcCpeSendExtentry (extensionName : List Byte) (extensionVersion : Byte)
  | tcCpeSendCustomBlockSupportLevel (supportLevel : Byte)
  | tcCpeSendSetTextureUrl (textureUrl : List Byte)
  | tcCpeSendSetMapEnvProperty (property : Byte) (value : BitVec 32)
  | tcCpeSendEnvMapAppearance1 (textureUrl : List Byte) (sideBlock edgeBlock : Byte)
      (sideLevel : BitVec 16)
  | tcCpeSendEnvMapAppearance2 (textureUrl : List Byte) (sideBlock edgeBlock : Byte)
      (sideLevel cloudLevel maximumViewDistance : BitVec 16)
  | tcCpeSendEnvSetWeatherType (weatherType : Byte)
  | tcCpeSendSetBlockDefinition (blockId : BitVec 16) (blockName : List Byte)
      (solidity movementSpeed : Byte) (topTextureId bottomTextureId sideTextureId : BitVec 16)
      (transmitsLight walkSound fullBright shape blockDraw : Byte)
      (fogDensity fogColorRed fogColorGreen fogColorBlue : Byte)
      (useExtendedBlocks useExtendedTextures : Bool)
  | tcCpeSendSetEnvColor (colorField : Byte) (red green blue : BitVec 16)
  | tcProtocolSendMessage (playerId : Byte) (message : List Byte)
  | tcProtocolSendLevelInitialize
  | tcProtocolSendLevelInitialize2 (blockCount : BitVec 32)
  | tcProtocolSendLevelDataChunk (chunkLength : BitVec 16) (chunkData : Vector Byte 1024)
      (percentComplete : Byte)
  | tcProtocolSendLevelFinalize (xSize ySize zSize : BitVec 16)
  | tcProtocolSendSetBlock (x y z block : BitVec 16) (useExtendedBlocks : Bool)
  | tcProtocolSendSpawnPlayer (playerId : Byte) (playerName : List Byte) (x y z : BitVec 32)
      (heading pitch : Byte) (useExtendedPositions : Bool)
  | tcProtocolSendSetPlayerPositionAndOrientation (playerId : Byte) (x y z : BitVec 32)
      (heading pitch : Byte) (useExtendedPositions : Bool)
  | tcProtocolSendUpdatePlayerPositionAndOrientationDelta (playerId : Byte)
      (deltaX deltaY deltaZ : BitVec 32) (heading pitch : Byte) (useExtendedPositions : Bool)
  | tcProtocolUpdatePlayerPositionDelta (playerId : Byte) (deltaX deltaY deltaZ : BitVec 32)
      (useExtendedPositions : Bool)
  | tcProtocolUpdatePlayerHeadingAndPitch (playerId : Byte) (heading pitch : Byte)
  | tcProtocolDespawnPlayer (playerId : Byte)

/-- `TC_CPE_EXTENSION_MAX_SUPPORTED`. -/
def maxSupported : Nat := 10

/-- The fields each function sends, in its order. -/
def Packet.fields : Packet → List Field
  | .tcProtocolServerIdentification serverName motd userType =>
    [.byte 0x00, .byte protocolVersion, .string serverName, .string motd, .byte userType]
  | .tcProtocolPing => [.byte 0x01]
  | .tcProtocolKick msg => [.byte 0x0e, .string msg]
  | .tcCpeSendExtinfo appname => [.byte 0x10, .string appname, .short (BitVec.ofNat 16 maxSupported)]
  | .tcCpeSendExtentry extensionName extensionVersion =>
    [.byte 0x11, .string extensionName, .int (extensionVersion.signExtend 32)]
  | .tcCpeSendCustomBlockSupportLevel supportLevel => [.byte 0x13, .byte supportLevel]
  | .tcCpeSendSetTextureUrl textureUrl => [.byte 0x28, .string textureUrl]
  | .tcCpeSendSetMapEnvProperty property value => [.byte 0x29, .byte property, .int value]
  | .tcCpeSendEnvMapAppearance1 textureUrl sideBlock edgeBlock sideLevel =>
    [.byte 0x2a, .string textureUrl, .byte sideBlock, .byte edgeBlock, .short sideLevel]
  | .tcCpeSendEnvMapAppearance2 textureUrl sideBlock edgeBlock sideLevel cloudLevel
      maximumViewDistance =>
    [.byte 0x1e, .string textureUrl, .byte sideBlock, .byte edgeBlock, .short sideLevel,
      .short cloudLevel, .short maximumViewDistance]
  | .tcCpeSendEnvSetWeatherType weatherType => [.byte 0x1f, .byte weatherType]
  | .tcCpeSendSetBlockDefinition blockId blockName solidity movementSpeed topTextureId
      bottomTextureId sideTextureId transmitsLight walkSound fullBright shape blockDraw fogDensity
      fogColorRed fogColorGreen fogColorBlue useExtendedBlocks useExtendedTextures =>
    [.byte 0x23, sendId blockId useExtendedBlocks, .string blockName, .byte solidity,
      .byte movementSpeed, sendId topTextureId useExtendedTextures,
      sendId bottomTextureId useExtendedTextures, sendId sideTextureId useExtendedTextures,
      .byte transmitsLight, .byte walkSound, .byte fullBright, .byte shape, .byte blockDraw,
      .byte fogDensity, .byte fogColorRed, .byte fogColorGreen, .byte fogColorBlue]
  | .tcCpeSendSetEnvColor colorField red green blue =>
    [.byte 0x19, .byte colorField, .short red, .short green, .short blue]
  | .tcProtocolSendMessage playerId message => [.byte 0x0d, .byte playerId, .string message]
  | .tcProtocolSendLevelInitialize => [.byte 0x02]
  | .tcProtocolSendLevelInitialize2 blockCount => [.byte 0x02, .int blockCount]
  | .tcProtocolSendLevelDataChunk chunkLength chunkData percentComplete =>
    [.byte 0x03, .short chunkLength, .datachunk chunkData.toList 1024, .byte percentComplete]
  | .tcProtocolSendLevelFinalize xSize ySize zSize => [.byte 0x04, .short xSize, .short ySize, .short zSize]
  | .tcProtocolSendSetBlock x y z block useExtendedBlocks =>
    [.byte 0x06, .short x, .short y, .short z, sendId block useExtendedBlocks]
  | .tcProtocolSendSpawnPlayer playerId playerName x y z heading pitch useExtendedPositions =>
    [.byte 0x07, .byte playerId, .string playerName] ++ sendPosition x useExtendedPositions ++
      sendPosition y useExtendedPositions ++ sendPosition z useExtendedPositions ++
      [.byte heading, .byte pitch]
  | .tcProtocolSendSetPlayerPositionAndOrientation playerId x y z heading pitch
      useExtendedPositions =>
    [.byte 0x08, .byte playerId] ++ sendPosition x useExtendedPositions ++
      sendPosition y useExtendedPositions ++ sendPosition z useExtendedPositions ++
      [.byte heading, .byte pitch]
  | .tcProtocolSendUpdatePlayerPositionAndOrientationDelta playerId deltaX deltaY deltaZ heading
      pitch useExtendedPositions =>
    [.byte 0x09, .byte playerId] ++ sendPosition deltaX useExtendedPositions ++
      sendPosition deltaY useExtendedPositions ++ sendPosition deltaZ useExtendedPositions ++
      [.byte heading, .byte pitch]
  | .tcProtocolUpdatePlayerPositionDelta playerId deltaX deltaY deltaZ useExtendedPositions =>
    [.byte 0x0a, .byte playerId] ++ sendPosition deltaX useExtendedPositions ++
      sendPosition deltaY useExtendedPositions ++ sendPosition deltaZ useExtendedPositions
  | .tcProtocolUpdatePlayerHeadingAndPitch playerId heading pitch =>
    [.byte 0x0b, .byte playerId, .byte heading, .byte pitch]
  | .tcProtocolDespawnPlayer playerId => [.byte 0x0c, .byte playerId]

/-- A value between 0 and 255, as a `pint16`. -/
def isColor (v : BitVec 16) : Bool := 0 ≤ v.toInt ∧ v.toInt ≤ 255

/-- The assertions at the start of a function. -/
def Packet.asserts : Packet → Bool
  | .tcCpeSendSetEnvColor _ red green blue => isColor red && isColor green && isColor blue
  | _ => true

/-- What the function returns, or `none` if an assertion fails, and the socket
afterwards. -/
def Packet.send (p : Packet) (socket : Stream) : Option Bool × Stream :=
  if p.asserts then
    let (sent, socket) := allSent (p.fields.map Field.send) socket
    (some sent, socket)
  else (none, socket)

/-! ## Extensions -/

/-- `tc_cpe_extension_t`. -/
structure Extension where
  name : List Byte
  version : Byte

/-- The bytes of an ASCII text. -/
def ascii (s : String) : List Byte := s.toList.map fun c => BitVec.ofNat 8 c.toNat

/-- `tc_supported_extensions`. -/
def supportedExtensions : List Extension :=
  [⟨ascii "CustomBlocks", 1⟩, ⟨ascii "BlockDefinitions", 1⟩, ⟨ascii "ExtendedBlocks", 1⟩,
    ⟨ascii "ExtendedTextures", 1⟩, ⟨ascii "MessageTypes", 1⟩, ⟨ascii "FastMap", 1⟩,
    ⟨ascii "EnvMapAppearance", 2⟩, ⟨ascii "EnvWeatherType", 1⟩, ⟨ascii "EnvColors", 1⟩,
    ⟨ascii "EnvMapAspect", 1⟩]

/-- `tc_cpe_get_extension_index`, with `none` for `-1`. -/
def tcCpeGetExtensionIndex (extensionName : List Byte) : Option Nat :=
  supportedExtensions.findIdx? fun e => strncmp extensionName e.name maxStrLen == 0

end TC.Impl.Protocol
