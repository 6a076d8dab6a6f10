import TeleClassic.Framework.Framing
import TeleClassic.Proof.Server.Extensions

/-!
# Packets of a client

What a client sends is a stream of packets (`wire`): the length of a payload
depends on its opcode, and on whether CustomBlocks was declared before. The
receive state of a session, which is spread over its opcode, its buffer and its
fill count, and over the task that is pending for it, is a receiver of this
stream (`Tracks`). So the packets that are dispatched are those of the stream,
in whatever pieces it comes (`framed_run`).
-/

namespace TC.Proof.Server

open TC.Impl.Server TC.Impl.ThreadPool TC.Impl.Protocol TC.Proof.ThreadPool

variable {buffer : List Byte}

/-! ## The stream -/

/-- The length of a payload, for a client with CustomBlocks or without. -/
def payloadSize (custom : Bool) (opcode : Byte) : Nat :=
  if custom ∧ opcode = 0x05 then 9 else if custom ∧ opcode = 0x08 then 10 else tcPacketDataSizes opcode.toInt

/-- Whether CustomBlocks was declared, with one more packet. -/
def learnCustom (custom : Bool) (packet : Byte × List Byte) : Bool :=
  custom || (packet.1 == 0x11 && entryIndex packet.2 == some customBlocks.val)

/-- The packets that a client sends. -/
def wire : Format Bool Byte := ⟨payloadSize, learnCustom⟩

/-- Nothing was received. -/
def blank : Receiver Bool Byte := ⟨false, none⟩

theorem dataSize_eq (s : Session) (opcode : Byte) :
    tcPacketDataSize opcode.toInt s = payloadSize (supports s customBlocks) opcode := by
  have hset : opcode.toInt = 0x05 ↔ opcode = 0x05 := BitVec.toInt_inj (y := 0x05)
  have hposition : opcode.toInt = 0x08 ↔ opcode = 0x08 := BitVec.toInt_inj (y := 0x08)
  simp only [tcPacketDataSize, payloadSize, hset, hposition]

/-- There is a payload for every opcode that has a handler. -/
theorem payloadSize_pos {opcode : Byte} (h : (tcPacketHandlers opcode.toInt).isSome = true) (custom : Bool) :
    0 < payloadSize custom opcode := by
  have hall : ∀ opcode : Byte, (tcPacketHandlers opcode.toInt).isSome = true → ∀ custom,
      0 < payloadSize custom opcode := by decide +kernel
  exact hall opcode h custom

theorem handlers_neg : tcPacketHandlers (-1) = none := rfl

theorem version_masked (s : Session) (i : Fin maxSupported) :
    ∃ v : BitVec 2, tcSessionGetExtensionVersion s i = v.setWidth 32 := by
  rw [tcSessionGetExtensionVersion, and_three]
  exact ⟨_, rfl⟩

theorem supports_declared {s : Session} {packet : List Byte} {i : Nat} (h : Declares s packet i) :
    supports (declared s packet i) customBlocks = (supports s customBlocks || i == customBlocks.val) := by
  have hversion : tcSessionGetExtensionVersion (declared s packet i) customBlocks =
      if customBlocks.val = i then tcSessionGetExtensionVersion s customBlocks |||
        (effective (entryVersion packet) i &&& 3) else tcSessionGetExtensionVersion s customBlocks :=
    version_setExtensionVersion s customBlocks i _
  obtain ⟨v, hv⟩ := version_masked s customBlocks
  rw [supports, supports, hversion, hv]
  split
  · rename_i hi
    have hone : ∀ v : BitVec 2, 0 < (v.setWidth 32 ||| ((1 : BitVec 32) &&& 3)).toInt := by decide
    have htwo : ∀ v : BitVec 2, 0 < (v.setWidth 32 ||| ((2 : BitVec 32) &&& 3)).toInt := by decide
    have hpos : 0 < (v.setWidth 32 ||| (effective (entryVersion packet) i &&& 3)).toInt := by
      rcases effective_eq h.valid with he | he
      · rw [he]
        exact hone v
      · rw [he]
        exact htwo v
    rw [decide_eq_true hpos, beq_iff_eq.mpr hi.symm, Bool.or_true]
  · rename_i hi
    simp [Ne.symm hi]

/-! ## What a run shows of it -/

/-- The bytes that were received in a turn. -/
def bytesOf (t : Taken) : List Byte :=
  if t.func = .tcServerClientListenTask then heard t.call.env t.before else []

/-- The bytes that were received. -/
def received (log : List Taken) : List Byte := log.flatMap bytesOf

/-- The packet in the buffer of a session. -/
def packetOf (s : Session) : Byte × List Byte :=
  (BitVec.ofInt 8 s.pendingPacketOpcode, s.pendingPacketBuffer.getD [])

/-- The buffer is full. -/
def isFull (s : Session) : Bool :=
  s.pendingPacketOpcode ≠ -1 ∧ s.pendingPacketBufferSize = tcPacketDataSize s.pendingPacketOpcode s

/-- The packet that the turn of a listening task dispatches. -/
def dispatchOf (t : Taken) : List (Byte × List Byte) :=
  if t.func = .tcServerClientListenTask ∧ isFull t.after = true then [packetOf t.after] else []

/-- The packets that were dispatched. -/
def dispatched (log : List Taken) : List (Byte × List Byte) := log.flatMap dispatchOf

def isHandler : Func → Bool
  | .handleCpeExtinfo => true
  | .handleCpeExtentry => true
  | .handleCpeCustomBlockSupportLevel => true
  | .handlePlayerIdentification => true
  | .handlePlayerSetBlock => true
  | .handlePlayerPositionAndOrientationUpdate => true
  | _ => false

/-- The packet that the turn of a handler is for. -/
def handledOf (t : Taken) : List (Byte × List Byte) := if isHandler t.func then [packetOf t.before] else []

/-- The packets that were handled. -/
def handled (log : List Taken) : List (Byte × List Byte) := log.flatMap handledOf

theorem received_append (log log' : List Taken) : received (log ++ log') = received log ++ received log' :=
  List.flatMap_append

theorem dispatched_append (log log' : List Taken) : dispatched (log ++ log') = dispatched log ++ dispatched log' :=
  List.flatMap_append

theorem handled_append (log log' : List Taken) : handled (log ++ log') = handled log ++ handled log' :=
  List.flatMap_append

theorem handled_snoc (log : List Taken) (t : Taken) : handled (log ++ [t]) = handled log ++ handledOf t := by
  simp [handled]

theorem isHandler_of_handlers {opcode : Int} {f : Func} (h : tcPacketHandlers opcode = some f) :
    isHandler f = true := by
  unfold tcPacketHandlers at h
  repeat' split at h
  all_goals cases h
  all_goals rfl

/-! ## The receive state -/

/-- The session waits for a packet. -/
structure Idle (r : Receiver Bool Byte) (s : Session) : Prop where
  code : s.pendingPacketOpcode = -1
  pending : r.pending = none
  custom : supports s customBlocks = r.state

/-- The session is in a payload. -/
structure Filling (r : Receiver Bool Byte) (s : Session) (opcode : Byte) (payload buffer : List Byte) : Prop where
  code : s.pendingPacketOpcode = opcode.toInt
  known : (tcPacketHandlers opcode.toInt).isSome = true
  pending : r.pending = some (opcode, payload)
  custom : supports s customBlocks = r.state
  held : s.pendingPacketBuffer = some buffer
  length : buffer.length = payloadSize r.state opcode
  size : s.pendingPacketBufferSize = payload.length
  stored : buffer.take payload.length = payload
  part : payload.length < payloadSize r.state opcode

/-- The session has a packet for its handler. -/
structure Full (r : Receiver Bool Byte) (s : Session) (f : Func) (opcode : Byte) (payload : List Byte) : Prop where
  code : s.pendingPacketOpcode = opcode.toInt
  handler : tcPacketHandlers opcode.toInt = some f
  held : s.pendingPacketBuffer = some payload
  length : payload.length = payloadSize (supports s customBlocks) opcode
  learnt : r = ⟨learnCustom (supports s customBlocks) (opcode, payload), none⟩

/-- A session and the task that is pending for it, as a receiver that has
completed some packets, of which some were handled. -/
inductive Tracks (packets done : List (Byte × List Byte)) (r : Receiver Bool Byte) (s : Session) :
    Option Func → Prop where
  | idle {next : Option Func} (idle : Idle r s) (all : packets = done)
      (free : ∀ f, next = some f → isHandler f = false) : Tracks packets done r s next
  | filling {opcode : Byte} {payload buffer : List Byte} (fills : Filling r s opcode payload buffer)
      (all : packets = done) : Tracks packets done r s (some .tcServerClientListenTask)
  | full {f : Func} {opcode : Byte} {payload : List Byte} (full : Full r s f opcode payload)
      (last : packets = done ++ [(opcode, payload)]) : Tracks packets done r s (some f)
  | ended {f : Func} (was : Tracks packets done r s (some f)) :
      Tracks packets done r s (some .tcServerShutdownClientTask)

section

variable {packets done : List (Byte × List Byte)} {r : Receiver Bool Byte} {s s' : Session} {f : Func} {opcode : Byte}
  {payload : List Byte}

theorem Idle.same (h : Idle r s) (hs : Same s s') : Idle r s' :=
  ⟨hs.opcode.trans h.code, h.pending, (supports_congr hs.versions customBlocks).trans h.custom⟩

theorem Filling.same (h : Filling r s opcode payload buffer) (hs : Same s s') :
    Filling r s' opcode payload buffer :=
  ⟨hs.opcode.trans h.code, h.known, h.pending, (supports_congr hs.versions customBlocks).trans h.custom,
    hs.buffer.trans h.held, h.length, hs.size.trans h.size, h.stored, h.part⟩

theorem Tracks.waiting {next : Option Func} (h : Tracks packets done r s next) :
    ∃ waiting, waiting.length ≤ 1 ∧ packets = done ++ waiting := by
  induction h with
  | idle _ all | filling _ all => exact ⟨[], Nat.zero_le 1, by rw [all, List.append_nil]⟩
  | full _ last => exact ⟨[_], Nat.le_refl 1, last⟩
  | ended _ ih => exact ih

theorem Tracks.after (h : Tracks packets done r s (some f)) (w : World) : Tracks packets done r s (after w f) := by
  unfold Server.after
  split
  · exact .ended h
  · exact h

theorem Tracks.listening (h : Tracks packets done r s (some .tcServerClientListenTask)) :
    packets = done ∧ (Idle r s ∨ ∃ opcode payload buffer, Filling r s opcode payload buffer) := by
  cases h with
  | idle idle all => exact ⟨all, .inl idle⟩
  | filling fills all => exact ⟨all, .inr ⟨_, _, _, fills⟩⟩
  | full full => cases isHandler_of_handlers full.handler

theorem Tracks.handling (h : Tracks packets done r s (some f)) (hf : isHandler f = true) :
    ∃ opcode payload, Full r s f opcode payload ∧ packets = done ++ [(opcode, payload)] := by
  cases h with
  | idle _ _ free => cases (free f rfl).symm.trans hf
  | filling => cases hf
  | full full last => exact ⟨_, _, full, last⟩
  | ended => cases hf

theorem Tracks.between (h : Tracks packets done r s (some f))
    (hf : f = .joinableTask ∨ f = .handleBeginCpeNegotiation) : packets = done ∧ Idle r s := by
  cases h with
  | idle idle all => exact ⟨all, idle⟩
  | filling => rcases hf with h | h <;> cases h
  | full full =>
    have := isHandler_of_handlers full.handler
    rcases hf with rfl | rfl <;> cases this
  | ended => rcases hf with h | h <;> cases h

/-- Between two packets. -/
theorem Tracks.quiet {next : Option Func} (h : Tracks packets done r s next) (hcode : s.pendingPacketOpcode = -1) :
    packets = done ∧ Idle r s := by
  induction h with
  | idle idle all => exact ⟨all, idle⟩
  | filling fills =>
    have hknown := fills.known
    rw [← fills.code, hcode, handlers_neg] at hknown
    cases hknown
  | full full =>
    have hhandler := full.handler
    rw [← full.code, hcode, handlers_neg] at hhandler
    cases hhandler
  | ended _ ih => exact ih

/-- A receive asks for one byte at least. -/
theorem Tracks.requested (h : Tracks packets done r s (some .tcServerClientListenTask)) : 1 ≤ requested s := by
  rw [Server.requested]
  rcases h.listening with ⟨-, idle | ⟨opcode, payload, buffer, fills⟩⟩
  · rw [if_pos idle.code]
  · split
    · exact Nat.le_refl 1
    · have hpart := fills.part
      rw [fills.code, dataSize_eq, fills.custom, fills.size]
      omega

theorem Idle.not_full (h : Idle r s) : isFull s = false := by
  simp [isFull, h.code]

theorem Filling.not_full (h : Filling r s opcode payload buffer) : isFull s = false := by
  have hpart := h.part
  have hsize := dataSize_eq s opcode
  rw [h.custom] at hsize
  simp only [isFull, decide_eq_false_iff_not]
  rintro ⟨-, heq⟩
  rw [h.code, hsize, h.size] at heq
  omega

theorem Full.packetOf_eq (h : Full r s f opcode payload) : packetOf s = (opcode, payload) := by
  rw [packetOf, h.code, h.held, BitVec.ofInt_toInt]
  rfl

theorem length_heard (env : Env) (s : Session) : (heard env s).length ≤ requested s := by
  unfold heard
  split
  · split
    · exact List.length_take_le ..
    · exact Nat.zero_le _
    · exact Nat.zero_le _
  · exact Nat.zero_le _

end

/-! ## Turns -/

section

variable {packets done : List (Byte × List Byte)} {r : Receiver Bool Byte} {call : Call} {w : World} {slot : Slot}
  {s s' : Session} {f : Func} {fin : Bool} {next : Option Func} {opcode : Byte} {payload : List Byte}

/-- A turn is what its bytes are to the receiver. -/
def Advances (packets done : List (Byte × List Byte)) (r : Receiver Bool Byte) (t : Taken) (next : Option Func) :
    Prop :=
  dispatchOf t = (wire.feed r (bytesOf t)).2 ∧
    Tracks (packets ++ dispatchOf t) (done ++ handledOf t) (wire.feed r (bytesOf t)).1 t.after next

/-- Only listening tasks receive and dispatch. -/
theorem advances_of_ne (hf : f ≠ .tcServerClientListenTask)
    (h : Tracks packets (done ++ handledOf ⟨call, f, s, s', fin⟩) r s' next) :
    Advances packets done r ⟨call, f, s, s', fin⟩ next := by
  have hbytes : bytesOf ⟨call, f, s, s', fin⟩ = [] := if_neg hf
  have hdispatch : dispatchOf ⟨call, f, s, s', fin⟩ = [] := if_neg fun h => hf h.1
  rw [Advances, hbytes, hdispatch, List.append_nil]
  exact ⟨rfl, h⟩

/-- A listening task has received something and dispatched nothing. -/
theorem advances_listening {r' : Receiver Bool Byte} (hfeed : wire.feed r (heard call.env s) = (r', []))
    (hfull : isFull s' = false) (h : Tracks packets done r' s' (some .tcServerClientListenTask)) :
    Advances packets done r ⟨call, .tcServerClientListenTask, s, s', fin⟩
      (after w .tcServerClientListenTask) := by
  have hbytes : bytesOf ⟨call, .tcServerClientListenTask, s, s', fin⟩ = heard call.env s := if_pos rfl
  have hdispatch : dispatchOf ⟨call, .tcServerClientListenTask, s, s', fin⟩ = [] :=
    if_neg fun h => Bool.false_ne_true (hfull.symm.trans h.2)
  have hhandled : handledOf ⟨call, .tcServerClientListenTask, s, s', fin⟩ = [] := rfl
  rw [Advances, hbytes, hdispatch, hhandled, hfeed, List.append_nil, List.append_nil]
  exact ⟨rfl, h.after w⟩

theorem Tracks.waits (h : Tracks packets done r s (some .tcServerClientListenTask))
    (silent : heard call.env s = []) (same : Same s s') :
    Advances packets done r ⟨call, .tcServerClientListenTask, s, s', fin⟩ (Server.after w .tcServerClientListenTask) := by
  have hfeed : wire.feed r (heard call.env s) = (r, []) := by
    rw [silent]
    rfl
  obtain ⟨all, idle | ⟨opcode, payload, buffer, fills⟩⟩ := h.listening
  · refine advances_listening hfeed (idle.same same).not_full (.idle (idle.same same) all fun f hf => ?_)
    cases hf
    rfl
  · exact advances_listening hfeed (fills.same same).not_full (.filling (fills.same same) all)

theorem Tracks.begins {memory : List Byte} (h : Tracks packets done r s (some .tcServerClientListenTask))
    (empty : s.pendingPacketOpcode = -1) (hears : heard call.env s = [opcode])
    (known : (tcPacketHandlers opcode.toInt).isSome = true)
    (length : memory.length = tcPacketDataSize opcode.toInt s)
    (same : Same { s with
      pendingPacketOpcode := opcode.toInt
      pendingPacketBuffer := some memory
      pendingPacketBufferSize := 0 } s') :
    Advances packets done r ⟨call, .tcServerClientListenTask, s, s', fin⟩ (Server.after w .tcServerClientListenTask) := by
  obtain ⟨all, idle | ⟨opcode', payload, buffer, fills⟩⟩ := h.listening
  · have hfills : Filling ⟨r.state, some (opcode, [])⟩ s' opcode [] memory := by
      refine ⟨same.opcode, known, rfl, ?_, same.buffer, ?_, same.size, rfl, payloadSize_pos known r.state⟩
      · exact (supports_congr same.versions customBlocks).trans idle.custom
      · rw [length, dataSize_eq, idle.custom]
    refine advances_listening ?_ hfills.not_full (.filling hfills all)
    rw [hears, Format.feed_first idle.pending]
  · have hknown := fills.known
    rw [← fills.code, empty, handlers_neg] at hknown
    cases hknown

theorem length_writeAt {bytes : List Byte} {offset : Nat} (h : offset + bytes.length ≤ buffer.length) :
    (writeAt buffer offset bytes).length = buffer.length := by
  simp [writeAt]
  omega

theorem take_writeAt {bytes : List Byte} {offset : Nat} (h : offset ≤ buffer.length) :
    (writeAt buffer offset bytes).take (offset + bytes.length) = buffer.take offset ++ bytes := by
  have hlength : (buffer.take offset ++ bytes).length = offset + bytes.length := by
    simp [h]
  rw [writeAt, ← hlength, List.take_left]

/-- What is in the buffer after a receive. -/
theorem Filling.stored_eq (h : Filling r s opcode payload buffer) (bytes : List Byte) :
    (writeAt buffer s.pendingPacketBufferSize bytes).take (payload ++ bytes).length = payload ++ bytes := by
  have hpart := h.part
  have hlength := h.length
  rw [h.size, List.length_append, take_writeAt (by omega), h.stored]

theorem Filling.requested_eq (h : Filling r s opcode payload buffer) (busy : s.pendingPacketOpcode ≠ -1) :
    requested s = payloadSize r.state opcode - payload.length := by
  rw [requested, if_neg busy, h.code, dataSize_eq, h.custom, h.size]

theorem Tracks.stores (h : Tracks packets done r s (some .tcServerClientListenTask))
    (busy : s.pendingPacketOpcode ≠ -1) (held : s.pendingPacketBuffer = some buffer)
    (part : s.pendingPacketBufferSize + (heard call.env s).length ≠ tcPacketDataSize s.pendingPacketOpcode s)
    (same : Same (stored s buffer (heard call.env s)) s') :
    Advances packets done r ⟨call, .tcServerClientListenTask, s, s', fin⟩ (Server.after w .tcServerClientListenTask) := by
  obtain ⟨all, idle | ⟨opcode, payload, buffer', fills⟩⟩ := h.listening
  · exact absurd idle.code busy
  cases held.symm.trans fills.held
  have hlt := fills.part
  have hlength := fills.length
  have hheard := length_heard call.env s
  rw [fills.requested_eq busy] at hheard
  rw [fills.size, fills.code, dataSize_eq, fills.custom] at part
  have hfills : Filling ⟨r.state, some (opcode, payload ++ heard call.env s)⟩ s' opcode
      (payload ++ heard call.env s) (writeAt buffer s.pendingPacketBufferSize (heard call.env s)) := by
    refine ⟨same.opcode.trans fills.code, fills.known, rfl, ?_, same.buffer, ?_, ?_, fills.stored_eq _, ?_⟩
    · exact (supports_congr same.versions customBlocks).trans fills.custom
    · rw [length_writeAt (by rw [fills.size]; omega), hlength]
    · rw [same.size, List.length_append, ← fills.size]
      rfl
    · show _ < payloadSize r.state opcode
      rw [List.length_append]
      omega
  refine advances_listening ?_ hfills.not_full (.filling hfills all)
  exact Format.feed_part fills.pending (by show _ < payloadSize r.state opcode; omega)

theorem Tracks.dispatches {handler : Func} (h : Tracks packets done r s (some .tcServerClientListenTask))
    (busy : s.pendingPacketOpcode ≠ -1) (held : s.pendingPacketBuffer = some buffer)
    (hears : heard call.env s ≠ [])
    (whole : s.pendingPacketBufferSize + (heard call.env s).length = tcPacketDataSize s.pendingPacketOpcode s)
    (handles : tcPacketHandlers s.pendingPacketOpcode = some handler)
    (same : Same (stored s buffer (heard call.env s)) s') :
    Advances packets done r ⟨call, .tcServerClientListenTask, s, s', fin⟩ (Server.after w handler) := by
  obtain ⟨all, idle | ⟨opcode, payload, buffer', fills⟩⟩ := h.listening
  · exact absurd idle.code busy
  cases held.symm.trans fills.held
  have hlength := fills.length
  have hsize : tcPacketDataSize s'.pendingPacketOpcode s' = tcPacketDataSize s.pendingPacketOpcode s := by
    rw [same.opcode]
    exact dataSize_congr same.versions _
  have hfull : isFull s' = true := by
    refine decide_eq_true ⟨?_, ?_⟩
    · rw [same.opcode]
      exact busy
    · rw [hsize, ← whole, same.size]
      rfl
  rw [fills.size, fills.code, dataSize_eq, fills.custom] at whole
  have hbuffer : writeAt buffer s.pendingPacketBufferSize (heard call.env s) = payload ++ heard call.env s := by
    have hstored := fills.stored_eq (heard call.env s)
    rwa [List.take_of_length_le] at hstored
    rw [length_writeAt (by rw [fills.size]; omega), List.length_append]
    omega
  have hfeed : wire.feed r (heard call.env s) =
      (⟨learnCustom r.state (opcode, payload ++ heard call.env s), none⟩, [(opcode, payload ++ heard call.env s)]) :=
    Format.feed_whole fills.pending hears whole
  have hfull' : Full ⟨learnCustom r.state (opcode, payload ++ heard call.env s), none⟩ s' handler opcode
      (payload ++ heard call.env s) := by
    have hcustom : supports s' customBlocks = r.state :=
      (supports_congr same.versions customBlocks).trans fills.custom
    refine ⟨same.opcode.trans fills.code, fills.code ▸ handles, ?_, ?_, ?_⟩
    · rw [same.buffer, ← hbuffer]
      rfl
    · rw [List.length_append, whole, hcustom]
    · rw [hcustom]
  have hbytes : bytesOf ⟨call, .tcServerClientListenTask, s, s', fin⟩ = heard call.env s := if_pos rfl
  have hdispatch : dispatchOf ⟨call, .tcServerClientListenTask, s, s', fin⟩ =
      [(opcode, payload ++ heard call.env s)] := by
    rw [dispatchOf, if_pos ⟨rfl, hfull⟩, hfull'.packetOf_eq]
  have hhandled : handledOf ⟨call, .tcServerClientListenTask, s, s', fin⟩ = [] := rfl
  rw [Advances, hbytes, hdispatch, hhandled, hfeed, List.append_nil]
  exact ⟨rfl, (Tracks.full hfull' (by rw [all])).after w⟩

theorem after_free (w : World) (hf : isHandler f = false) : ∀ g, Server.after w f = some g → isHandler g = false := by
  intro g hg
  unfold Server.after at hg
  split at hg
  · cases hg
    rfl
  · cases hg
    exact hf

theorem Passed.free (h : Passed next) : ∀ g, next = some g → isHandler g = false := by
  intro g hg
  rcases h g hg with rfl | rfl | rfl <;> rfl

/-- Only ExtEntry packets say something of CustomBlocks. -/
theorem learnCustom_of_ne {custom : Bool} (h : tcPacketHandlers opcode.toInt = some f)
    (hf : f ≠ .handleCpeExtentry) : learnCustom custom (opcode, payload) = custom := by
  have hne : (opcode == 0x11) = false := by
    rw [beq_eq_false_iff_ne]
    rintro rfl
    exact hf (Option.some.inj h.symm)
  rw [learnCustom, hne, Bool.false_and, Bool.or_false]

theorem learnCustom_extentry {custom : Bool} (h : tcPacketHandlers opcode.toInt = some .handleCpeExtentry) :
    learnCustom custom (opcode, payload) = (custom || entryIndex payload == some customBlocks.val) := by
  have hall : ∀ opcode : Byte, tcPacketHandlers opcode.toInt = some .handleCpeExtentry → opcode = 0x11 := by
    decide +kernel
  rw [hall opcode h]
  rfl

/-- A packet has been handled, and its session waits for the next. -/
theorem Full.idle (h : Full r s f opcode payload) {s₁ : Session} (hs : Same (cleaned s₁) s')
    (hcustom : supports s₁ customBlocks = learnCustom (supports s customBlocks) (opcode, payload)) : Idle r s' := by
  refine ⟨hs.opcode, ?_, ?_⟩
  · rw [h.learnt]
  · rw [h.learnt, ← hcustom]
    exact supports_congr hs.versions customBlocks

theorem Full.handles (h : Full r s f opcode payload) {s₁ : Session} (hs : Handles s f s₁) :
    supports s₁ customBlocks = learnCustom (supports s customBlocks) (opcode, payload) := by
  have hhandler := h.handler
  cases hs with
  | unknown cpe buffer expected index =>
    cases buffer.symm.trans h.held
    rw [learnCustom_extentry hhandler, index]
    exact (Bool.or_false _).symm
  | known declares more =>
    cases declares.buffer.symm.trans h.held
    rw [learnCustom_extentry hhandler, declares.index, supports_declared declares]
    rfl
  | negotiation => cases isHandler_of_handlers hhandler
  | extinfo | setBlock | position => exact (learnCustom_of_ne hhandler (fun hf => by cases hf)).symm

theorem Full.finishes (h : Full r s f opcode payload) {s₁ : Session} (hs : Finishes s f s₁) :
    supports s₁ customBlocks = learnCustom (supports s customBlocks) (opcode, payload) := by
  have hhandler := h.handler
  cases hs with
  | entry declares last plain =>
    cases declares.buffer.symm.trans h.held
    rw [learnCustom_extentry hhandler, declares.index, supports_declared declares]
    rfl
  | identification | level => exact (learnCustom_of_ne hhandler (fun hf => by cases hf)).symm

/-- A turn of a handler, which leaves the session idle. -/
theorem Tracks.handles (h : Tracks packets done r s (some f)) (hf : isHandler f = true)
    (hidle : ∀ opcode payload, Full r s f opcode payload → Idle r s')
    (hfree : ∀ g, next = some g → isHandler g = false) :
    Advances packets done r ⟨call, f, s, s', fin⟩ next := by
  obtain ⟨opcode, payload, full, last⟩ := h.handling hf
  have hhandled : handledOf ⟨call, f, s, s', fin⟩ = [(opcode, payload)] := by
    rw [handledOf, if_pos hf, full.packetOf_eq]
  refine advances_of_ne ?_ ?_
  · rintro rfl
    cases hf
  · rw [hhandled, ← last]
    exact .idle (hidle opcode payload full) rfl hfree

/-- A turn of a task that is not there for a packet. -/
theorem Tracks.passes (h : Tracks packets done r s (some f))
    (hf : f = .joinableTask ∨ f = .handleBeginCpeNegotiation) (hidle : Idle r s → Idle r s')
    (hfree : ∀ g, next = some g → isHandler g = false) :
    Advances packets done r ⟨call, f, s, s', fin⟩ next := by
  obtain ⟨all, idle⟩ := h.between hf
  have hhandled : handledOf ⟨call, f, s, s', fin⟩ = [] := by
    rcases hf with rfl | rfl <;> rfl
  refine advances_of_ne ?_ ?_
  · rcases hf with rfl | rfl <;> exact fun h => by cases h
  · rw [hhandled, List.append_nil]
    exact .idle (hidle idle) all hfree

theorem Tracks.turn (h : Tracks packets done r s (some f)) (ht : Turn call w slot s f fin next s')
    (hstays : s'.currentGeneration = s.currentGeneration) :
    Advances packets done r ⟨call, f, s, s', fin⟩ next := by
  cases ht with
  | gone later => omega
  | waits silent same => exact h.waits silent same
  | begins empty hears known length same => exact h.begins empty hears known length same
  | stores busy held _ part same => exact h.stores busy held part same
  | dispatches busy held hears whole handles same => exact h.dispatches busy held hears whole handles same
  | joins same passed => exact h.passes (.inl rfl) (fun idle => idle.same same) passed.free
  | negotiates unknown same =>
    refine h.handles rfl (fun opcode payload full => full.idle same ?_) (after_free w rfl)
    exact (learnCustom_of_ne full.handler (fun hf => by cases hf)).symm
  | listens handles same =>
    by_cases hf : f = .handleBeginCpeNegotiation
    · subst hf
      cases handles
      refine h.passes (.inr rfl) (fun idle => ?_) (after_free w rfl)
      exact ⟨same.opcode, idle.pending, (supports_congr same.versions customBlocks).trans idle.custom⟩
    · refine h.handles ?_ (fun opcode payload full => full.idle same (full.handles handles)) (after_free w rfl)
      cases handles with
      | negotiation => exact absurd rfl hf
      | _ => rfl
  | finalizes finishes same passed =>
    refine h.handles ?_ (fun opcode payload full => full.idle same (full.finishes finishes)) passed.free
    cases finishes with
    | _ => rfl

end

/-! ## Runs -/

/-- The session is a receiver of what was received. -/
def Follows (log : List Taken) (next : Option Func) (s : Session) : Prop :=
  dispatched log = (wire.feed blank (received log)).2 ∧
    Tracks (dispatched log) (handled log) (wire.feed blank (received log)).1 s next

theorem lawful_framing : Lawful (fun _ _ => True) Follows := by
  have hnew : ∀ s clientSocket s', Same (newSession s clientSocket) s' → Idle blank s' := by
    intro s clientSocket s' hsame
    refine ⟨hsame.opcode, rfl, ?_⟩
    rw [supports, (versions_new hsame).version customBlocks]
    rfl
  refine ⟨fun s clientSocket s' h => ⟨rfl, .idle (hnew s clientSocket s' h) rfl fun f hf => ?_⟩,
    fun _ _ s clientSocket s' _ _ _ h => ⟨rfl, .idle (hnew s clientSocket s' h) rfl fun f hf => ?_⟩, ?_⟩
  · cases hf
    rfl
  · cases hf
  intro w call slot log f fin next s' _ hfollows htook
  obtain ⟨hpackets, htracks⟩ := hfollows
  obtain ⟨hdispatch, htracks'⟩ := htracks.turn htook.turn htook.stays
  have hfeed := Format.feed_append (F := wire) (r := blank) (received log)
    (bytesOf ⟨call, f, w.sessionBuffer slot, s', fin⟩)
  have hreceived : received (log ++ [⟨call, f, w.sessionBuffer slot, s', fin⟩]) =
      received log ++ bytesOf ⟨call, f, w.sessionBuffer slot, s', fin⟩ := by
    simp [received]
  have hdispatched : dispatched (log ++ [⟨call, f, w.sessionBuffer slot, s', fin⟩]) =
      dispatched log ++ dispatchOf ⟨call, f, w.sessionBuffer slot, s', fin⟩ := by
    simp [dispatched]
  have hhandled := handled_snoc log ⟨call, f, w.sessionBuffer slot, s', fin⟩
  rw [Follows, hreceived, hfeed, hdispatched, hhandled]
  refine ⟨?_, htracks'⟩
  rw [hdispatch, hpackets]

/-- What is dispatched to a session is what its bytes say. -/
structure Framed (log : List Taken) (w : World) (slot : Slot) : Prop where
  packets : dispatched log = (wire.feed blank (received log)).2
  bytes : received log = (dispatched log).flatMap packetBytes ++ (wire.feed blank (received log)).1.bytes
  handlers : ∃ waiting, waiting.length ≤ 1 ∧ dispatched log = handled log ++ waiting
  requests : ∀ t ∈ chain w slot (generation w slot), t.func = some .tcServerClientListenTask →
    1 ≤ requested (w.sessionBuffer slot)

section

variable {config : Config} {numThreads maxBlockingThreads : Nat}
  {tasks : Priority → Nat → Context Func Arg} {sessions : Slot → Session}

/-- A task that runs for a session in its generation: the session is in the state
for it, and its lock is free. -/
theorem tracks_running {ls : List Label} {w : World} {slot : Slot} {worker c : Nat} {t : Context Func Arg}
    (h : run Impl.Server.step (start config numThreads maxBlockingThreads tasks sessions) ls = some w)
    (hh : w.halted = none) (hrun : w.threadPool.running? worker = some (t, c))
    (ht : mine slot (generation w slot) t) : ∃ f packets done r, t.func = some f ∧
      Tracks packets done r (w.sessionBuffer slot) (some f) ∧ (w.sessionBuffer slot).actionLock = false := by
  have hlive : Live w slot := accepted_of_chain (sound_run h) (mem_chain_of_running hrun ht)
  obtain ⟨f, hf, ⟨-, htracks⟩, -, hlock⟩ :=
    (serving_run lawful_framing (along_of_forall fun _ _ _ => trivial) h hh hlive).only hrun ht
  exact ⟨f, _, _, _, hf, htracks, hlock⟩

theorem framed_run {ls : List Label} {w : World} {slot : Slot}
    (h : run Impl.Server.step (start config numThreads maxBlockingThreads tasks sessions) ls = some w)
    (hh : w.halted = none) (hlive : Live w slot) :
    Framed (turns slot (generation w slot) (start config numThreads maxBlockingThreads tasks sessions) ls) w
      slot := by
  obtain ⟨next, tasks', ⟨hpackets, htracks⟩, ⟨priority, htasks⟩, hchain, -⟩ :=
    serving_run lawful_framing (along_of_forall fun _ _ _ => trivial) h hh hlive
  refine ⟨hpackets, ?_, htracks.waiting, fun t ht hf => ?_⟩
  · rw [hpackets, Format.feed_bytes]
    rfl
  · rw [hchain, htasks, Multiset.mem_coe, Option.mem_toList, Option.map_eq_some_iff] at ht
    obtain ⟨f, rfl, rfl⟩ := ht
    cases hf
    exact htracks.requested

end

end TC.Proof.Server
