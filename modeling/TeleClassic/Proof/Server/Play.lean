import TeleClassic.Proof.Server.Framing

/-!
# What a client asks of its world

Set-block and position packets hold a block id, in two bytes for a client with
ExtendedBlocks. The server takes them to be of that form for a client with
CustomBlocks instead, both when it cuts the stream and when it reads them, and
extends bytes by their sign. So it asks the world for what the client has sent
(`requests_recovered`) for a client that has both extensions or none, with
numbers that are decoded as they were sent. With CustomBlocks alone the first
set-block packet takes the opcode of the next one for a part of its block id
(`request_shifted`).
-/

namespace TC.Proof.Server

open TC.Impl.Server TC.Impl.ThreadPool TC.Impl.Protocol TC.Proof.ThreadPool Prog
open TC.Impl.SendMap (extendedBlocks)
open TC.Proof.Protocol (Field.encoding sentShort sentShort_bytes decodeShort_eq)

variable {offset : Nat}

/-! ## Packets -/

/-- What a world is asked for. -/
inductive Request where
  | setBlock (x y z : BitVec 16) (mode : Byte) (block : BitVec 16)
  | position (x y z : BitVec 16) (heading pitch : Byte)
  deriving DecidableEq

namespace Request

def opcode : Request → Byte
  | setBlock .. => 0x05
  | position .. => 0x08

/-- The fields of the packet, of a client that holds a block. -/
def fields (extended : Bool) (held : BitVec 16) : Request → List Field
  | setBlock x y z mode block => [.short x, .short y, .short z, .byte mode, sendId block extended]
  | position x y z heading pitch =>
    [sendId held extended, .short x, .short y, .short z, .byte heading, .byte pitch]

def payload (extended : Bool) (held : BitVec 16) (request : Request) : List Byte :=
  (request.fields extended held).flatMap Field.encoding

/-- The packet of a request. -/
def packet (extended : Bool) (sent : Request × BitVec 16) : Byte × List Byte :=
  (sent.1.opcode, sent.1.payload extended sent.2)

end Request

/-- A number that is decoded as it was sent. -/
def Plain (v : BitVec 16) : Prop := (v.extractLsb' 0 8).msb = false ∨ v.extractLsb' 8 8 = 0xFF

/-- A block id that is read as it was sent. -/
def PlainId (extended : Bool) (id : BitVec 16) : Prop := if extended then Plain id else id.toNat < 128

def Request.Legible (extended : Bool) : Request → Prop
  | .setBlock x y z _ block => Plain x ∧ Plain y ∧ Plain z ∧ PlainId extended block
  | .position x y z _ _ => Plain x ∧ Plain y ∧ Plain z

/-- What the server reads in a packet. -/
def readRequest (custom : Bool) (packet : Byte × List Byte) : List Request :=
  if packet.1 = 0x05 then
    [.setBlock (shortAt packet.2 0) (shortAt packet.2 2) (shortAt packet.2 4) (byteAt packet.2 6)
      (if custom then shortAt packet.2 7 else (byteAt packet.2 7).signExtend 16)]
  else if packet.1 = 0x08 then
    let offset := if custom then 2 else 1
    [.position (shortAt packet.2 offset) (shortAt packet.2 (offset + 2)) (shortAt packet.2 (offset + 4))
      (byteAt packet.2 (offset + 6)) (byteAt packet.2 (offset + 7))]
  else []

/-- What a number is decoded to. -/
def reread (v : BitVec 16) : BitVec 16 := tcProtocolDecodeShort (v.extractLsb' 8 8) (v.extractLsb' 0 8)

theorem reread_plain {v : BitVec 16} (h : Plain v) : reread v = v := by
  rw [reread, decodeShort_eq h, sentShort_bytes]

theorem signExtend_plain {v : BitVec 16} (h : v.toNat < 128) : (v.extractLsb' 0 8).signExtend 16 = v := by
  have hlow : (v.extractLsb' 0 8).toNat = v.toNat := by
    rw [BitVec.extractLsb'_toNat, Nat.shiftRight_zero]
    omega
  have hmsb : (v.extractLsb' 0 8).msb = false := by
    rw [BitVec.msb_eq_decide, hlow]
    simp
    omega
  rw [BitVec.signExtend_eq_setWidth_of_msb_false hmsb]
  apply BitVec.eq_of_toNat_eq
  rw [BitVec.toNat_setWidth, hlow]
  omega

/-- The server reads what the client has sent, if both mean the same by a block
id. -/
theorem readRequest_packet {extended : Bool} {sent : Request × BitVec 16} (h : sent.1.Legible extended) :
    readRequest extended (Request.packet extended sent) = [sent.1] := by
  obtain ⟨request, held⟩ := sent
  cases request with
  | setBlock x y z mode block =>
    obtain ⟨hx, hy, hz, hblock⟩ := h
    cases extended with
    | false =>
      show [Request.setBlock (reread x) (reread y) (reread z) mode ((block.extractLsb' 0 8).signExtend 16)] = _
      rw [reread_plain hx, reread_plain hy, reread_plain hz, signExtend_plain hblock]
    | true =>
      show [Request.setBlock (reread x) (reread y) (reread z) mode (reread block)] = _
      rw [reread_plain hx, reread_plain hy, reread_plain hz, reread_plain hblock]
  | position x y z heading pitch =>
    obtain ⟨hx, hy, hz⟩ := h
    have hread : readRequest extended (Request.packet extended (.position x y z heading pitch, held)) =
        [.position (reread x) (reread y) (reread z) heading pitch] := by
      cases extended with
      | false => rfl
      | true => rfl
    rw [hread, reread_plain hx, reread_plain hy, reread_plain hz]

/-! ## Handlers -/

/-- The answer of the world. -/
def Request.answer (env : Env) : Request → Bool
  | .setBlock x y z mode block => env.handleSetBlock x y z mode block
  | .position x y z heading pitch => env.handlePositionUpdate x y z heading pitch

/-- A client is kicked that is in no world. -/
def Request.refused : Request → String
  | .setBlock .. => "Client cannot currently set blocks."
  | .position .. => "Client cannot currently update their position and orientation."

def Request.failed : Request → String
  | .setBlock .. => "Failed to handle set block request."
  | .position .. => "Failed to handle position and orientation update request."

/-- What a handler does once it has read its packet, with the answer of the
world. -/
def answered (slot : Slot) (priority : Priority) (generation : Int) (request : Request) (answer : Bool) :
    TaskM Unit := do
  if (← session slot).currentJoinable.isNone then
    return ← kickAndRelease slot request.refused
  emit (.handed slot generation)
  unless answer do
    return ← kickAndRelease slot request.failed
  tcServerProtocolHandlerCleanup slot (some .tcServerClientListenTask) priority generation
  tcSessionReleaseActionLock slot

variable {request : Request}

section

variable {call : Call} {w : World} {slot : Slot} {priority : Priority} {buffer : List Byte}

theorem held_locked (h : (w.sessionBuffer slot).pendingPacketBuffer = some buffer) :
    ((w.setSession slot (locked (w.sessionBuffer slot))).sessionBuffer slot).pendingPacketBuffer = some buffer := by
  rw [sessionBuffer_setSession]
  exact h

theorem readBytes_eq (hbuffer : (w.sessionBuffer slot).pendingPacketBuffer = some buffer) {n : Nat}
    (h : offset + n ≤ buffer.length) :
    readBytes slot offset n call w = (some ((buffer.drop offset).take n), w) := by
  have hsession : session slot call w = (some (w.sessionBuffer slot), w) := rfl
  refine (bind_of_some hsession).trans ?_
  simp only [hbuffer]
  rw [if_pos h]
  rfl

theorem readByte_eq (hbuffer : (w.sessionBuffer slot).pendingPacketBuffer = some buffer)
    (h : offset + 1 ≤ buffer.length) : readByte slot offset call w = (some (byteAt buffer offset), w) :=
  bind_of_some (readBytes_eq hbuffer h)

theorem readShort_eq (hbuffer : (w.sessionBuffer slot).pendingPacketBuffer = some buffer)
    (h : offset + 2 ≤ buffer.length) : readShort slot offset call w = (some (shortAt buffer offset), w) :=
  bind_of_some (readBytes_eq hbuffer h)

theorem readInt_eq (hbuffer : (w.sessionBuffer slot).pendingPacketBuffer = some buffer)
    (h : offset + 4 ≤ buffer.length) : readInt slot offset call w = (some (intAt buffer offset), w) :=
  bind_of_some (readBytes_eq hbuffer h)

theorem readString_eq (hbuffer : (w.sessionBuffer slot).pendingPacketBuffer = some buffer)
    (h : offset + maxStrLen ≤ buffer.length) :
    readString slot offset call w = (some (stringAt buffer offset), w) :=
  bind_of_some (readBytes_eq hbuffer h)

theorem readBlock_eq (hbuffer : (w.sessionBuffer slot).pendingPacketBuffer = some buffer)
    (h : buffer.length = payloadSize (supports (w.sessionBuffer slot) customBlocks) 0x05) :
    readBlock slot call w = (some (if supports (w.sessionBuffer slot) customBlocks then shortAt buffer 7
      else (byteAt buffer 7).signExtend 16), w) := by
  show (if supports (w.sessionBuffer slot) customBlocks then _ else _ : TaskM (BitVec 16)) call w = _
  rcases hcustom : supports (w.sessionBuffer slot) customBlocks with _ | _
  · rw [hcustom] at h
    exact bind_of_some (readByte_eq hbuffer (by rw [h]; decide))
  · rw [hcustom] at h
    have hlength : 7 + 2 ≤ buffer.length := by
      rw [h]
      decide
    exact readShort_eq hbuffer hlength

variable (hfree : (w.sessionBuffer slot).actionLock = false)
  (hbuffer : (w.sessionBuffer slot).pendingPacketBuffer = some buffer)

include hfree hbuffer

theorem handlePlayerSetBlock_eq
    (h : buffer.length = payloadSize (supports (w.sessionBuffer slot) customBlocks) 0x05)
    (hrequest : request ∈ readRequest (supports (w.sessionBuffer slot) customBlocks) (0x05, buffer)) :
    handlePlayerSetBlock slot priority (generation w slot) call w =
      answered slot priority (generation w slot) request (request.answer call.env) call
        (w.setSession slot (locked (w.sessionBuffer slot))) := by
  have hlocked := held_locked hbuffer
  have hlength : 8 ≤ buffer.length := by
    rw [h]
    cases supports (w.sessionBuffer slot) customBlocks <;> decide
  have hblock : readBlock slot call (w.setSession slot (locked (w.sessionBuffer slot))) = _ :=
    readBlock_eq hlocked (by rw [sessionBuffer_setSession]; exact h)
  rw [sessionBuffer_setSession] at hblock
  rw [readRequest, if_pos rfl, List.mem_singleton] at hrequest
  subst hrequest
  rw [handlePlayerSetBlock, bind_of_some (aquire_unlocked hfree), if_pos rfl,
    bind_of_some (readShort_eq hlocked (by omega)), bind_of_some (readShort_eq hlocked (by omega)),
    bind_of_some (readShort_eq hlocked (by omega)), bind_of_some (readByte_eq hlocked (by omega)),
    bind_of_some hblock]
  refine bind_congr_right fun s w' => ?_
  split
  · rfl
  · rfl

theorem handlePlayerPositionAndOrientationUpdate_eq
    (h : buffer.length = payloadSize (supports (w.sessionBuffer slot) customBlocks) 0x08)
    (hrequest : request ∈ readRequest (supports (w.sessionBuffer slot) customBlocks) (0x08, buffer)) :
    handlePlayerPositionAndOrientationUpdate slot priority (generation w slot) call w =
      answered slot priority (generation w slot) request (request.answer call.env) call
        (w.setSession slot (locked (w.sessionBuffer slot))) := by
  have hlocked := held_locked hbuffer
  have hlength : (if supports (w.sessionBuffer slot) customBlocks then 2 else 1) + 8 ≤ buffer.length := by
    rw [h]
    cases supports (w.sessionBuffer slot) customBlocks <;> decide
  have hne : ¬ (0x08 : Byte) = 0x05 := by decide
  rw [readRequest, if_neg hne, if_pos rfl, List.mem_singleton] at hrequest
  subst hrequest
  rw [handlePlayerPositionAndOrientationUpdate, bind_of_some (aquire_unlocked hfree), if_pos rfl,
    bind_of_some (read_eq ..)]
  have hcustom : supports (locked (w.sessionBuffer slot)) customBlocks =
      supports (w.sessionBuffer slot) customBlocks := supports_congr rfl customBlocks
  rw [hcustom]
  dsimp only
  rw [bind_of_some (readShort_eq hlocked (by omega)), bind_of_some (readShort_eq hlocked (by omega)),
    bind_of_some (readShort_eq hlocked (by omega)), bind_of_some (readByte_eq hlocked (by omega)),
    bind_of_some (readByte_eq hlocked (by omega))]
  refine bind_congr_right fun s w' => ?_
  split
  · rfl
  · rfl

end

/-! ## Turns -/

/-- What the turn of a handler asks the world for. -/
def requestsOf (t : Taken) : List Request :=
  match t.func with
  | .handlePlayerSetBlock => readRequest (supports t.before customBlocks) (0x05, (packetOf t.before).2)
  | .handlePlayerPositionAndOrientationUpdate =>
    readRequest (supports t.before customBlocks) (0x08, (packetOf t.before).2)
  | _ => []

/-- What the world was asked for. -/
def requests (log : List Taken) : List Request := log.flatMap requestsOf

/-- The handler of a turn does what the world answers to a request. -/
def Asks (t : Taken) (request : Request) : Prop :=
  ∀ worker w slot priority, w.sessionBuffer slot = t.before →
    runTask ⟨priority, some t.func, some (.session slot), generation w slot⟩ ⟨worker, t.call.env⟩ w =
      answered slot priority (generation w slot) request (request.answer t.call.env) ⟨worker, t.call.env⟩
        (w.setSession slot (locked t.before))

/-- What was read in packets, by a server that learns of CustomBlocks from them. -/
def readAll : Bool → List (Byte × List Byte) → List Request
  | _, [] => []
  | custom, packet :: packets => readRequest custom packet ++ readAll (learnCustom custom packet) packets

theorem readAll_append (custom : Bool) (packets packets' : List (Byte × List Byte)) :
    readAll custom (packets ++ packets') =
      readAll custom packets ++ readAll (packets.foldl learnCustom custom) packets' := by
  induction packets generalizing custom with
  | nil => rfl
  | cons packet packets ih => rw [List.cons_append, readAll, ih, readAll, List.append_assoc, List.foldl_cons]

section

variable {r : Receiver Bool Byte} {s s' : Session} {f : Func} {opcode : Byte} {payload : List Byte} {call : Call}
  {fin : Bool}

theorem Full.packet_cases (h : Full r s f opcode payload) :
    f = .handlePlayerSetBlock ∧ opcode = 0x05 ∨ f = .handlePlayerPositionAndOrientationUpdate ∧ opcode = 0x08 ∨
      f ≠ .handlePlayerSetBlock ∧ f ≠ .handlePlayerPositionAndOrientationUpdate ∧ opcode ≠ 0x05 ∧ opcode ≠ 0x08 := by
  have hhandler := h.handler
  have hset : ∀ opcode : Byte, tcPacketHandlers opcode.toInt = some .handlePlayerSetBlock → opcode = 0x05 := by
    decide +kernel
  have hposition : ∀ opcode : Byte,
      tcPacketHandlers opcode.toInt = some .handlePlayerPositionAndOrientationUpdate → opcode = 0x08 := by
    decide +kernel
  by_cases hf : f = .handlePlayerSetBlock
  · exact .inl ⟨hf, hset opcode (hf ▸ hhandler)⟩
  by_cases hf' : f = .handlePlayerPositionAndOrientationUpdate
  · exact .inr (.inl ⟨hf', hposition opcode (hf' ▸ hhandler)⟩)
  refine .inr (.inr ⟨hf, hf', ?_, ?_⟩)
  · rintro rfl
    exact hf (Option.some.inj hhandler.symm)
  · rintro rfl
    exact hf' (Option.some.inj hhandler.symm)

theorem requestsOf_eq_nil (hset : f ≠ .handlePlayerSetBlock)
    (hposition : f ≠ .handlePlayerPositionAndOrientationUpdate) : requestsOf ⟨call, f, s, s', fin⟩ = [] := by
  cases f with
  | handlePlayerSetBlock => exact absurd rfl hset
  | handlePlayerPositionAndOrientationUpdate => exact absurd rfl hposition
  | _ => rfl

/-- A handler reads what is in its packet. -/
theorem Full.requestsOf_eq (h : Full r s f opcode payload) :
    requestsOf ⟨call, f, s, s', fin⟩ = readRequest (supports s customBlocks) (opcode, payload) := by
  have hpacket := h.packetOf_eq
  rcases h.packet_cases with ⟨rfl, rfl⟩ | ⟨rfl, rfl⟩ | ⟨hset, hposition, hne, hne'⟩
  · rw [requestsOf, hpacket]
  · rw [requestsOf, hpacket]
  · rw [requestsOf_eq_nil hset hposition, readRequest, if_neg hne, if_neg hne']

theorem Full.asks (h : Full r s f opcode payload) (hfree : s.actionLock = false)
    (hrequest : request ∈ requestsOf ⟨call, f, s, s', fin⟩) : Asks ⟨call, f, s, s', fin⟩ request := by
  rw [h.requestsOf_eq] at hrequest
  intro worker w slot priority hw
  dsimp only at hw ⊢
  have hlength := h.length
  have hheld := h.held
  rw [← hw] at hfree hheld hlength hrequest ⊢
  rcases h.packet_cases with ⟨rfl, rfl⟩ | ⟨rfl, rfl⟩ | ⟨-, -, hne, hne'⟩
  · exact handlePlayerSetBlock_eq hfree hheld hlength hrequest
  · exact handlePlayerPositionAndOrientationUpdate_eq hfree hheld hlength hrequest
  · rw [readRequest, if_neg hne, if_neg hne'] at hrequest
    cases hrequest

end

/-! ## Runs -/

section

variable {r : Receiver Bool Byte} {s s' : Session} {f : Func} {opcode : Byte} {payload : List Byte} {call : Call}
  {w : World} {slot : Slot} {fin : Bool} {next : Option Func}

theorem Turn.learns (h : Turn call w slot s f fin next s') (hstays : s'.currentGeneration = s.currentGeneration)
    (hfull : Full r s f opcode payload) :
    supports s' customBlocks = learnCustom (supports s customBlocks) (opcode, payload) := by
  have hhandler := isHandler_of_handlers hfull.handler
  cases h with
  | gone later => omega
  | waits | begins | stores | dispatches | joins => cases hhandler
  | negotiates _ same =>
    rw [learnCustom_of_ne hfull.handler (fun hf => by cases hf)]
    exact supports_congr same.versions customBlocks
  | listens handles same =>
    rw [← hfull.handles handles]
    exact supports_congr same.versions customBlocks
  | finalizes finishes same =>
    rw [← hfull.finishes finishes]
    exact supports_congr same.versions customBlocks

theorem Turn.keepsCustom (h : Turn call w slot s f fin next s') (hstays : s'.currentGeneration = s.currentGeneration)
    (hf : isHandler f = false) : supports s' customBlocks = supports s customBlocks := by
  cases h with
  | gone later => omega
  | waits _ same | begins _ _ _ _ same | stores _ _ _ _ same | dispatches _ _ _ _ _ same
  | joins same => exact supports_congr same.versions customBlocks
  | negotiates => cases hf
  | listens handles same =>
    cases handles with
    | negotiation => exact supports_congr same.versions customBlocks
    | _ => cases hf
  | finalizes finishes =>
    cases finishes with
    | _ => cases hf

end

/-- What a session has learnt and asked for is what is in the packets it has
handled. -/
structure Plays (log : List Taken) (s : Session) : Prop where
  custom : supports s customBlocks = (handled log).foldl learnCustom false
  reads : requests log = readAll false (handled log)
  asks : ∀ t ∈ log, ∀ request ∈ requestsOf t, Asks t request

theorem Plays.turn {log : List Taken} {call : Call} {w : World} {slot : Slot} {f : Func} {fin : Bool}
    {next : Option Func} {s' : Session} (h : Plays log (w.sessionBuffer slot))
    (htracks : Follows log (some f) (w.sessionBuffer slot)) (htook : Took call w slot f fin next s') :
    Plays (log ++ [⟨call, f, w.sessionBuffer slot, s', fin⟩]) s' := by
  have hhandled := handled_snoc log ⟨call, f, w.sessionBuffer slot, s', fin⟩
  have hrequests : requests (log ++ [⟨call, f, w.sessionBuffer slot, s', fin⟩]) =
      requests log ++ requestsOf ⟨call, f, w.sessionBuffer slot, s', fin⟩ := by
    simp [requests]
  cases hf : isHandler f with
  | true =>
    obtain ⟨opcode, payload, full, -⟩ := htracks.2.handling hf
    have hpacket : handledOf ⟨call, f, w.sessionBuffer slot, s', fin⟩ = [(opcode, payload)] := by
      rw [handledOf, if_pos hf, full.packetOf_eq]
    refine ⟨?_, ?_, fun t ht request hrequest => ?_⟩
    · rw [hhandled, hpacket, List.foldl_append, ← h.custom]
      exact htook.turn.learns htook.stays full
    · rw [hrequests, hhandled, hpacket, readAll_append, ← h.custom, ← h.reads, full.requestsOf_eq, readAll, readAll,
        List.append_nil]
    · rcases List.mem_append.mp ht with ht | ht
      · exact h.asks t ht request hrequest
      · cases List.mem_singleton.mp ht
        exact full.asks htook.free hrequest
  | false =>
    have hpacket : handledOf ⟨call, f, w.sessionBuffer slot, s', fin⟩ = [] := by
      rw [handledOf, if_neg (by simp [hf])]
    have hnone : requestsOf ⟨call, f, w.sessionBuffer slot, s', fin⟩ = [] := by
      refine requestsOf_eq_nil ?_ ?_
      · rintro rfl
        cases hf
      · rintro rfl
        cases hf
    rw [hpacket, List.append_nil] at hhandled
    rw [hnone, List.append_nil] at hrequests
    refine ⟨?_, ?_, fun t ht request hrequest => ?_⟩
    · rw [hhandled, ← h.custom]
      exact htook.turn.keepsCustom htook.stays hf
    · rw [hrequests, hhandled, h.reads]
    · rcases List.mem_append.mp ht with ht | ht
      · exact h.asks t ht request hrequest
      · cases List.mem_singleton.mp ht
        rw [hnone] at hrequest
        cases hrequest

theorem plays_new {s s' : Session} {clientSocket : Stream} (h : Same (newSession s clientSocket) s') :
    Plays [] s' := by
  refine ⟨?_, rfl, List.forall_mem_nil _⟩
  rw [supports, (versions_new h).version customBlocks]
  rfl

theorem lawful_play : Lawful (fun _ _ => True) fun log next s => Follows log next s ∧ Plays log s :=
  ⟨fun s clientSocket s' h => ⟨lawful_framing.opens s clientSocket s' h, plays_new h⟩,
    fun w call s clientSocket s' hG hcame hfull h =>
      ⟨lawful_framing.deaf w call s clientSocket s' hG hcame hfull h, plays_new h⟩,
    fun w call slot log f fin next s' hG h htook =>
      ⟨lawful_framing.turn w call slot log f fin next s' hG h.1 htook, h.2.turn h.1 htook⟩⟩

/-! ## Streams of requests -/

theorem length_payload (extended : Bool) (held : BitVec 16) (request : Request) :
    (request.payload extended held).length = payloadSize extended request.opcode := by
  cases request with
  | setBlock => cases extended <;> rfl
  | position => cases extended <;> rfl

theorem learnCustom_request (custom extended : Bool) (sent : Request × BitVec 16) :
    learnCustom custom (Request.packet extended sent) = custom := by
  obtain ⟨request, held⟩ := sent
  cases request <;> exact Bool.or_false custom

theorem foldl_requests (custom extended : Bool) (sent : List (Request × BitVec 16)) :
    (sent.map (Request.packet extended)).foldl learnCustom custom = custom := by
  induction sent with
  | nil => rfl
  | cons p sent ih => rw [List.map_cons, List.foldl_cons, learnCustom_request, ih]

theorem proper_requests (extended : Bool) (sent : List (Request × BitVec 16)) :
    wire.Proper extended (sent.map (Request.packet extended)) := by
  induction sent with
  | nil => trivial
  | cons p sent ih =>
    have hlength := length_payload extended p.2 p.1
    refine ⟨?_, hlength, ?_⟩
    · intro hnil
      have hzero : (p.1.payload extended p.2).length = 0 := congrArg List.length hnil
      rw [hlength] at hzero
      rcases p with ⟨⟨⟩ | ⟨⟩, _⟩ <;> cases extended <;> cases hzero
    · show wire.Proper (learnCustom extended (Request.packet extended p)) _
      rw [learnCustom_request]
      exact ih

/-- A client with the extensions that the server takes it to have is understood. -/
theorem readAll_requests {extended : Bool} {sent : List (Request × BitVec 16)}
    (h : ∀ p ∈ sent, p.1.Legible extended) :
    readAll extended (sent.map (Request.packet extended)) = sent.map Prod.fst := by
  induction sent with
  | nil => rfl
  | cons p sent ih =>
    rw [List.map_cons, readAll, readRequest_packet (h p List.mem_cons_self), learnCustom_request,
      ih fun q hq => h q (List.mem_cons_of_mem p hq)]
    rfl

theorem length_readAll (custom : Bool) (packets : List (Byte × List Byte)) :
    (readAll custom packets).length ≤ packets.length := by
  induction packets generalizing custom with
  | nil => exact Nat.le_refl 0
  | cons packet packets ih =>
    have hone : (readRequest custom packet).length ≤ 1 := by
      unfold readRequest
      split
      · exact Nat.le_refl 1
      · split
        · exact Nat.le_refl 1
        · exact Nat.zero_le 1
    have hrest := ih (learnCustom custom packet)
    rw [readAll, List.length_append, List.length_cons]
    omega

theorem requests_append (log log' : List Taken) : requests (log ++ log') = requests log ++ requests log' :=
  List.flatMap_append

/-- The widths of block ids agree only if CustomBlocks and ExtendedBlocks do. -/
theorem widths_iff (s : Session) :
    (∀ (request : Request) (held : BitVec 16), tcPacketDataSize request.opcode.toInt s =
      (request.payload (supports s extendedBlocks) held).length) ↔
      supports s customBlocks = supports s extendedBlocks := by
  constructor
  · intro h
    have hset := h (.setBlock 0 0 0 0 0) 0
    rw [dataSize_eq, length_payload] at hset
    revert hset
    generalize supports s customBlocks = custom
    generalize supports s extendedBlocks = extended
    revert custom extended
    decide
  · intro h request held
    rw [dataSize_eq, length_payload, h]

section

variable {config : Config} {numThreads maxBlockingThreads : Nat}
  {tasks : Priority → Nat → Context Func Arg} {sessions : Slot → Session}

/-- The server gives block ids of a session the width that its client does if
and only if the client has both CustomBlocks and ExtendedBlocks, or none; and
then a stream of legible requests, from any point between two packets on, is
dispatched packet by packet, and each asks the world for what was sent. -/
theorem requests_recovered {ls ls' : List Label} {w w' : World} {slot : Slot}
    (h : run Impl.Server.step (start config numThreads maxBlockingThreads tasks sessions) ls = some w)
    (h' : run Impl.Server.step w ls' = some w') (hh : w.halted = none) (hh' : w'.halted = none)
    (hlive : Live w slot) (hlive' : Live w' slot) (hg : generation w' slot = generation w slot)
    (hidle : (w.sessionBuffer slot).pendingPacketOpcode = -1) (extended : Bool)
    (hextended : supports (w.sessionBuffer slot) extendedBlocks = extended)
    (log : List Taken) (hlog : log = turns slot (generation w slot) w ls') (sent : List (Request × BitVec 16))
    (hbytes : received log = (sent.map (Request.packet extended)).flatMap packetBytes) :
    ((∀ (request : Request) (held : BitVec 16), tcPacketDataSize request.opcode.toInt (w.sessionBuffer slot) =
      (request.payload extended held).length) ↔ supports (w.sessionBuffer slot) customBlocks = extended) ∧
    (supports (w.sessionBuffer slot) customBlocks = extended → (∀ p ∈ sent, p.1.Legible extended) →
      dispatched log = sent.map (Request.packet extended) ∧
      (∃ waiting, waiting.length ≤ 1 ∧ sent.map Prod.fst = requests log ++ waiting) ∧
      ∀ t ∈ log, ∀ request ∈ requestsOf t, Asks t request) := by
  refine ⟨hextended ▸ widths_iff _, fun hcustom hlegible => ?_⟩
  obtain ⟨next, _, ⟨⟨hpackets, htracks⟩, hplays⟩, -⟩ :=
    serving_run lawful_play (along_of_forall fun _ _ _ => trivial) h hh hlive
  obtain ⟨next', _, ⟨⟨hpackets', htracks'⟩, hplays'⟩, -⟩ :=
    serving_run lawful_play (along_of_forall fun _ _ _ => trivial) (run_append.mpr ⟨w, h, h'⟩) hh' hlive'
  generalize hbefore : turns slot (generation w slot)
    (start config numThreads maxBlockingThreads tasks sessions) ls = before at hpackets htracks hplays
  have hwhole : turns slot (generation w' slot) (start config numThreads maxBlockingThreads tasks sessions)
      (ls ++ ls') = before ++ log := by
    rw [hg, turns, collect_append h, hlog, ← hbefore]
    rfl
  rw [hwhole] at hpackets' htracks' hplays'
  obtain ⟨hall, idle⟩ := htracks.quiet hidle
  have hfeed : wire.feed (wire.feed blank (received before)).1 (received log) =
      (⟨extended, none⟩, sent.map (Request.packet extended)) := by
    have hr : (wire.feed blank (received before)).1 = ⟨extended, none⟩ := by
      rw [← hcustom, idle.custom, ← idle.pending]
    rw [hr, hbytes, Format.feed_proper (proper_requests extended sent)]
    show ((⟨(sent.map (Request.packet extended)).foldl learnCustom extended, none⟩ : Receiver Bool Byte), _) = _
    rw [foldl_requests]
  have hdispatched : dispatched log = sent.map (Request.packet extended) := by
    rw [received_append, Format.feed_append, hfeed, dispatched_append, hpackets] at hpackets'
    exact List.append_cancel_left hpackets'
  obtain ⟨waiting, hwaiting, hhandled⟩ := htracks'.waiting
  rw [dispatched_append, handled_append, hall, List.append_assoc] at hhandled
  have hhandled' := List.append_cancel_left hhandled
  have hrequests : requests log = readAll extended (handled log) := by
    have hreads := hplays'.reads
    rw [requests_append, handled_append, readAll_append, ← hplays.reads, ← hplays.custom, hcustom] at hreads
    exact List.append_cancel_left hreads
  refine ⟨hdispatched, ⟨readAll ((handled log).foldl learnCustom extended) waiting, ?_, ?_⟩, fun t ht => ?_⟩
  · exact Nat.le_trans (length_readAll _ _) hwaiting
  · rw [hrequests, ← readAll_append, ← hhandled', hdispatched, readAll_requests hlegible]
  · exact hplays'.asks t (List.mem_append_right _ ht)

end

/-- A client that has declared some extensions, CustomBlocks among them. -/
def player (extensions : List String) : List Label :=
  talk listening (worldWithDefault "lobby")
    (negotiation (extensions.map fun name => (ascii name, 1)) ++ [[0x13], [1]]) 40

/-- It goes on to send something. -/
def plays (extensions : List String) (pieces : List (List Byte)) : List Label :=
  (run Impl.Server.step (worldWithDefault "lobby") (player extensions)).elim [] fun w => drive listening w pieces 36

/-- A client with both extensions sets a block with an id of two bytes, and moves. -/
def built : List (Request × BitVec 16) := [(.setBlock 1 2 3 1 0x0102, 0), (.position 64 96 64 0 0, 0x0102)]

/-- The extensions of a client that uses block ids of two bytes. -/
def bothExtensions : List String := ["CustomBlocks", "ExtendedBlocks"]

def builtPieces : List (List Byte) := [[0x05], [0, 1, 0, 2], [0, 3, 1, 1, 2], [0x08], [1, 2, 0, 64, 0, 96, 0, 64, 0, 0]]

theorem requests_recovered_built : ∃ w w' log,
    run Impl.Server.step (worldWithDefault "lobby") (player bothExtensions) = some w ∧
    run Impl.Server.step w (plays bothExtensions builtPieces) = some w' ∧
    log = turns first (generation w first) w (plays bothExtensions builtPieces) ∧
    (requests log).length = 2 ∧ dispatched log = built.map (Request.packet true) ∧
    ∃ waiting, waiting.length ≤ 1 ∧ built.map Prod.fst = requests log ++ waiting := by
  obtain ⟨w, w', hw, hw', hh, hh', hlive, hlive', hg, hidle, hextended, hcustom, hbytes, hlength⟩ : ∃ w w',
      run Impl.Server.step (worldWithDefault "lobby") (player bothExtensions) = some w ∧
      run Impl.Server.step w (plays bothExtensions builtPieces) = some w' ∧
      let log := turns first (generation w first) w (plays bothExtensions builtPieces)
      w.halted = none ∧ w'.halted = none ∧ Live w first ∧ Live w' first ∧
      generation w' first = generation w first ∧ (w.sessionBuffer first).pendingPacketOpcode = -1 ∧
      supports (w.sessionBuffer first) extendedBlocks = true ∧
      supports (w.sessionBuffer first) customBlocks = true ∧
      received log = (built.map (Request.packet true)).flatMap packetBytes ∧ (requests log).length = 2 :=
    exists_of_decide₂ (by decide +kernel)
  have hlegible : ∀ p ∈ built, p.1.Legible true := by
    intro p hp
    simp only [built, List.mem_cons, List.not_mem_nil, or_false] at hp
    rcases hp with rfl | rfl
    · exact ⟨.inl rfl, .inl rfl, .inl rfl, .inl rfl⟩
    · exact ⟨.inl rfl, .inl rfl, .inl rfl⟩
  obtain ⟨hpackets, hwaiting, -⟩ :=
    (requests_recovered hw hw' hh hh' hlive hlive' hg hidle true hextended _ rfl built hbytes).2 hcustom hlegible
  exact ⟨w, w', _, hw, hw', rfl, hlength, hpackets, hwaiting⟩

/-- A client with CustomBlocks alone sets two blocks, with ids of one byte. -/
def twoBlocks : List (Request × BitVec 16) := [(.setBlock 1 2 3 1 4, 0), (.setBlock 1 2 3 1 4, 0)]

def twoBlocksPieces : List (List Byte) := [[0x05], [0, 1, 0, 2, 0, 3, 1, 4, 5], [0], [1, 0, 2, 0, 3, 1, 4]]

/-- The server takes the second opcode for a part of the first block id. -/
theorem request_shifted : ∃ w w' log,
    run Impl.Server.step (worldWithDefault "lobby") (player ["CustomBlocks"]) = some w ∧
    run Impl.Server.step w (plays ["CustomBlocks"] twoBlocksPieces) = some w' ∧
    log = turns first (generation w first) w (plays ["CustomBlocks"] twoBlocksPieces) ∧
    w'.halted = none ∧ Live w first ∧ Live w' first ∧ generation w' first = generation w first ∧
    (w.sessionBuffer first).pendingPacketOpcode = -1 ∧
    supports (w.sessionBuffer first) extendedBlocks = false ∧
    (∀ p ∈ twoBlocks, p.1.Legible false) ∧ received log = (twoBlocks.map (Request.packet false)).flatMap packetBytes ∧
    dispatched log = [(0x05, [0, 1, 0, 2, 0, 3, 1, 4, 5])] ∧ requests log = [.setBlock 1 2 3 1 0x0405] := by
  obtain ⟨w, w', hw, hw', hh', hlive, hlive', hg, hidle, hextended, hbytes, hpackets, hrequests⟩ : ∃ w w',
      run Impl.Server.step (worldWithDefault "lobby") (player ["CustomBlocks"]) = some w ∧
      run Impl.Server.step w (plays ["CustomBlocks"] twoBlocksPieces) = some w' ∧
      let log := turns first (generation w first) w (plays ["CustomBlocks"] twoBlocksPieces)
      w'.halted = none ∧ Live w first ∧ Live w' first ∧ generation w' first = generation w first ∧
      (w.sessionBuffer first).pendingPacketOpcode = -1 ∧
      supports (w.sessionBuffer first) extendedBlocks = false ∧
      received log = (twoBlocks.map (Request.packet false)).flatMap packetBytes ∧
      dispatched log = [(0x05, [0, 1, 0, 2, 0, 3, 1, 4, 5])] ∧ requests log = [.setBlock 1 2 3 1 0x0405] :=
    exists_of_decide₂ (by decide +kernel)
  have hlegible : ∀ p ∈ twoBlocks, p.1.Legible false := by
    intro p hp
    simp only [twoBlocks, List.mem_cons, List.not_mem_nil, or_false, or_self] at hp
    subst hp
    exact ⟨.inl rfl, .inl rfl, .inl rfl, by show (4 : BitVec 16).toNat < 128; decide⟩
  exact ⟨w, w', _, hw, hw', rfl, hh', hlive, hlive', hg, hidle, hextended, hlegible, hbytes, hpackets, hrequests⟩

end TC.Proof.Server
