import TeleClassic.Impl.Protocol

/-!
# The loops over strings (`protocol.c`)

`tc_protocol_send_string` and `tc_protocol_decode_string`, loop by loop. A string
is the memory from its address on; the condition of the first loop reads the byte
at 64 before it looks at the index. The local buffers have any contents at first.
-/

namespace TC.Impl.Strings

open TC.Impl.Protocol

abbrev Buffer := Vector Byte maxStrLen

/-- The `while` loop of `tc_protocol_send_string`, with `current - str` as `i`. -/
def copyText (str : Nat → Byte) (buffer : Buffer) (i : Nat) : Buffer × Nat :=
  if h : str i ≠ 0 ∧ i < maxStrLen then copyText str (buffer.set i (str i) h.2) (i + 1) else (buffer, i)
termination_by maxStrLen - i

/-- The `for` loop of `tc_protocol_send_string`. -/
def padText (buffer : Buffer) (i : Nat) : Buffer :=
  if h : i < maxStrLen then padText (buffer.set i 0x20 h) (i + 1) else buffer
termination_by maxStrLen - i

/-- The buffer that is sent. -/
def filledBuffer (str : Nat → Byte) (buffer : Buffer) : Buffer :=
  let (buffer, i) := copyText str buffer 0
  padText buffer i

def tcProtocolSendString (socket : Stream) (str : Nat → Byte) (buffer : Buffer) : Bool × Stream :=
  let (sent, socket) := pSocketSend socket (filledBuffer str buffer).toList
  match sent with
  | .accept _ => (true, socket)
  | _ => (false, socket)

/-- The `for` loop of `tc_protocol_decode_string` from `i` down. -/
def stripSpaces (destBuffer : Buffer) (length : Nat) : (i : Nat) → i ≤ maxStrLen → Buffer × Nat
  | 0, _ => (destBuffer, length)
  | i + 1, h =>
    if destBuffer.get ⟨i, h⟩ ≠ 0x20 then (destBuffer, length)
    else stripSpaces (destBuffer.set i 0 h) i i (Nat.le_of_succ_le h)

/-- `tc_protocol_decode_string`: what is in `dest_buffer` afterwards, and the
length. -/
def tcProtocolDecodeString (packetBuffer : Buffer) : Buffer × Nat :=
  stripSpaces packetBuffer maxStrLen maxStrLen (Nat.le_refl maxStrLen)

end TC.Impl.Strings
