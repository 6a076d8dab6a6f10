import TeleClassic.Impl.Server

/-!
# Errors of the socket (`server.c`)

`tc_server_client_listen_task` with the `PError` objects that `p_socket_receive` makes
and `p_error_free` frees, which the tasks on the `World` leave out. The variable
`error` of the task is shadowed by another of the same name while a payload is
received.
-/

namespace TC.Impl.Receive

open TC.Impl.ThreadPool TC.Impl.Protocol TC.Impl.Server Prog

/-! ## Errors -/

/-- `p_error_get_code`. -/
inductive Code where
  | wouldBlock
  | other
deriving DecidableEq, Repr

/-- `PError`; the errors are numbered in the order in which they are made. -/
structure PError where
  id : Nat
  code : Code
deriving DecidableEq, Repr

/-- The errors made, and those freed, in that order. -/
structure Errors where
  made : Nat
  freed : List Nat
deriving DecidableEq, Repr

def noErrors : Errors := ⟨0, []⟩

def Errors.make (errors : Errors) : Errors := { errors with made := errors.made + 1 }

def Errors.free (errors : Errors) (id : Nat) : Errors := { errors with freed := errors.freed ++ [id] }

abbrev ReceiveM := Prog Call (World × Errors)

/-- `p_error_new_literal`, which finds memory. -/
def pErrorNew (code : Code) : ReceiveM PError := do
  let state ← get
  modify fun state => (state.1, state.2.make)
  return ⟨state.2.made, code⟩

/-- `p_error_free`, which does nothing on `NULL`. -/
def pErrorFree (error : Option PError) : ReceiveM Unit :=
  match error with
  | none => return
  | some error => modify fun state => (state.1, state.2.free error.id)

/-- The bytes that `p_socket_receive` has read, `none` if it returns -1, and `*error`. -/
structure Read where
  bytes : Option (List Byte)
  error : Option PError

/-- `p_socket_receive`. No bytes are no error. -/
def pSocketReceive (buflen : Nat) : ReceiveM Read := do
  match (← ask).env.receive with
  | .data bytes => return ⟨some (bytes.take buflen), none⟩
  | .wouldBlock => return ⟨none, some (← pErrorNew .wouldBlock)⟩
  | .failed => return ⟨none, some (← pErrorNew .other)⟩

/-! ## Listening to a client -/

/-- The end of the task, from where both phases meet. -/
def finish (slot : Slot) (priority : Priority) (generation : Int) (error : Option PError) : ReceiveM Unit := do
  if error.any (·.code ≠ .wouldBlock) then
    within (kickAndRelease slot "Error: Please reconnect.")
    pErrorFree error
  else
    within (listenAgain slot priority generation)
    pErrorFree error

/-- The opcode of a new packet. -/
def beginPacket (slot : Slot) (priority : Priority) (generation : Int) (opcode : Byte)
    (error : Option PError) : ReceiveM Unit := do
  within (modifySession slot ({ · with pendingPacketOpcode := opcode.toInt }))
  if opcode.toInt < 0 ∨ opcode.toInt ≥ maxPackets then
    pErrorFree error
    return ← within (kickAndRelease slot "Packet Opcode Out of Range: Please reconnect.")
  if (tcPacketHandlers opcode.toInt).isNone then
    pErrorFree error
    return ← within (kickAndRelease slot "Invalid Packet Opcode: Please reconnect.")
  let packetBufferSize := tcPacketDataSize opcode.toInt (← within (session slot))
  let env := (← ask).env
  let packetBuffer := if env.packetBuffer then some ((List.range packetBufferSize).map env.memory) else none
  within (modifySession slot ({ · with pendingPacketBuffer := packetBuffer, pendingPacketBufferSize := 0 }))
  if packetBuffer.isNone then
    pErrorFree error
    return ← within (kickAndRelease slot "Out of Memory: Sorry")
  finish slot priority generation error

def receiveOpcode (slot : Slot) (priority : Priority) (generation : Int) : ReceiveM Unit := do
  let read ← pSocketReceive 1
  match read.bytes with
  | some (opcode :: _) => beginPacket slot priority generation opcode read.error
  | some [] =>
    within (kickAndRelease slot "Client Disconnected: Please reconnect.")
    pErrorFree read.error
  | none => finish slot priority generation read.error

/-- The payload of a packet. `storePayload` ends as `finish` does without an error,
unless the packet is complete. -/
def receivePayload (slot : Slot) (priority : Priority) (generation : Int) : ReceiveM Unit := do
  let s ← within (session slot)
  let packetBufferSize := tcPacketDataSize s.pendingPacketOpcode s
  let read ← pSocketReceive (packetBufferSize - s.pendingPacketBufferSize)
  match read.bytes with
  | some (byte :: bytes) => within (storePayload slot priority generation (byte :: bytes))
  | some [] =>
    pErrorFree read.error
    within (kickAndRelease slot "Client Disconnected: Please reconnect.")
  -- `error` is the outer variable again, which is still `NULL`
  | none => finish slot priority generation none

def tcServerClientListenTask (slot : Slot) (priority : Priority) (generation : Int) : ReceiveM Unit := do
  unless ← within (tcSessionAquireActionLock slot generation) do return
  unless ← within (pingClient slot) do return
  if (← within (session slot)).pendingPacketOpcode = -1 then receiveOpcode slot priority generation
  else receivePayload slot priority generation

end TC.Impl.Receive
