import TeleClassic.Impl.Protocol

/-!
# What a successful send has delivered

A packet is the concatenation of its fields (`Packet.encoding`). Sending it
offers the socket one chunk after another (`send_eq_sendAll`), once each, and
what the socket did not take of a chunk is dropped; so a function that returns
`TRUE` has delivered its packet if and only if the socket took every chunk
whole (`send_exact_iff`).

Integers are decoded byte by byte, each with its sign. So one that was sent is
decoded as another, unless no byte but the first is negative
(`decodeInt_of_nonneg`, `decodeShort_eq`).
-/

namespace TC.Proof.Protocol

open TC.Impl.Protocol

/-- The bytes of a field, most significant first. -/
def Field.encoding : Field → List Byte
  | .byte b => [b]
  | .short v => [v.extractLsb' 8 8, v.extractLsb' 0 8]
  | .int v => [v.extractLsb' 24 8, v.extractLsb' 16 8, v.extractLsb' 8 8, v.extractLsb' 0 8]
  | .string s => stringField s
  | .datachunk data length => data.take length

/-- The packet of a function. -/
def Packet.encoding (p : Packet) : List Byte := p.fields.flatMap Field.encoding

/-- A byte, for which to wait counts as having sent it. -/
def byteChunk (b : Byte) : Chunk := ⟨[b], true⟩

/-- The calls of `p_socket_send` that send a field. -/
def Field.chunks : Field → List Chunk
  | .string s => [⟨stringField s, false⟩]
  | .datachunk data length => [⟨data.take length, true⟩]
  | f => (Field.encoding f).map byteChunk

/-- The calls of `p_socket_send` that send a packet. -/
def Packet.chunks (p : Packet) : List Chunk := p.fields.flatMap Field.chunks

/-! ## Fields -/

theorem length_stringField (s : List Byte) : (stringField s).length = maxStrLen := by
  have h : (strn maxStrLen s).length ≤ maxStrLen := by
    have hw : strn maxStrLen s <+: s.take maxStrLen := List.takeWhile_prefix _
    exact hw.length_le.trans (List.length_take_le _ _)
  simp only [stringField, List.length_append, List.length_replicate]
  omega

theorem stringField_ne_nil (s : List Byte) : stringField s ≠ [] := by
  intro h
  have hl := length_stringField s
  rw [h] at hl
  cases hl

theorem isSent_eq (o : Outcome) (b : List Byte) : isSent o = !decide ((⟨b, true⟩ : Chunk).Stops o) := by
  cases o with
  | accept n => rfl
  | wouldBlock => rfl
  | disconnected => rfl
  | failed => rfl

theorem sendAll_singleton (c : Chunk) (s : Stream) :
    sendAll [c] s = (!decide (c.Stops s.next), s.offer c.bytes) := by
  rw [sendAll]
  split
  · rename_i h; rw [decide_eq_true h]; rfl
  · rename_i h; rw [decide_eq_false h]; rfl

theorem tcProtocolSendByte_eq (b : Byte) : (tcProtocolSendByte · b) = sendAll [byteChunk b] := by
  funext s
  rw [sendAll_singleton, tcProtocolSendByte, pSocketSend, if_neg (List.cons_ne_nil _ _)]
  exact congrArg (·, s.offer [b]) (isSent_eq s.next [b])

theorem tcProtocolSendDatachunk_eq {data : List Byte} {length : Nat} (h : data.take length ≠ []) :
    (tcProtocolSendDatachunk · data length) = sendAll [⟨data.take length, true⟩] := by
  funext s
  rw [sendAll_singleton, tcProtocolSendDatachunk, pSocketSend, if_neg h]
  exact congrArg (·, s.offer (data.take length)) (isSent_eq s.next (data.take length))

theorem tcProtocolSendString_eq (str : List Byte) :
    (tcProtocolSendString · str) = sendAll [⟨stringField str, false⟩] := by
  funext s
  rw [sendAll_singleton, tcProtocolSendString, pSocketSend, if_neg (stringField_ne_nil str)]
  cases s.next with
  | accept n => rfl
  | wouldBlock => rfl
  | disconnected => rfl
  | failed => rfl

/-- Calls that each send some chunks send these one after another. -/
theorem allSent_eq {α : Type} {f : α → Stream → Bool × Stream} {chunks : α → List Chunk} {l : List α}
    (h : ∀ a ∈ l, f a = sendAll (chunks a)) (s : Stream) :
    allSent (l.map f) s = sendAll (l.flatMap chunks) s := by
  induction l generalizing s with
  | nil => rfl
  | cons a l ih =>
    have ha := congrFun (h a List.mem_cons_self) s
    have hl := ih (fun b hb => h b (List.mem_cons_of_mem _ hb)) (sendAll (chunks a) s).2
    rw [List.flatMap_cons, sendAll_append, List.map_cons, allSent, ha]
    show (if !(sendAll (chunks a) s).1 then _ else _) = _
    cases hs : (sendAll (chunks a) s).1 with
    | true => exact hl
    | false => exact Prod.ext hs.symm rfl

/-- Bytes sent one by one. -/
theorem allSent_bytes (bs : List Byte) (s : Stream) :
    allSent (bs.map fun b => (tcProtocolSendByte · b)) s = sendAll (bs.map byteChunk) s := by
  rw [List.map_eq_flatMap (f := byteChunk)]
  exact allSent_eq (fun b _ => tcProtocolSendByte_eq b) s

/-- A field is offered as its chunks; an empty data chunk would be refused
without an offer. -/
theorem send_field_eq {f : Field} (h : ∀ c ∈ Field.chunks f, c.bytes ≠ []) :
    f.send = sendAll (Field.chunks f) := by
  cases f with
  | byte b => exact tcProtocolSendByte_eq b
  | short v => exact funext fun s => allSent_bytes [v.extractLsb' 8 8, v.extractLsb' 0 8] s
  | int v =>
    exact funext fun s => allSent_bytes
      [v.extractLsb' 24 8, v.extractLsb' 16 8, v.extractLsb' 8 8, v.extractLsb' 0 8] s
  | string str => exact tcProtocolSendString_eq str
  | datachunk data length => exact tcProtocolSendDatachunk_eq (h _ (List.mem_singleton_self _))

theorem flatten_chunks (f : Field) : flatten (Field.chunks f) = Field.encoding f := by
  cases f with
  | byte b => rfl
  | short v => rfl
  | int v => rfl
  | string s => exact List.append_nil _
  | datachunk data length => exact List.append_nil _

/-! ## Packets -/

/-- The chunks of a field are not empty, if it is no empty data chunk. -/
theorem chunks_nonempty {f : Field} (h : ∀ data length, f = .datachunk data length → data.take length ≠ [])
    {c : Chunk} (hc : c ∈ Field.chunks f) : c.bytes ≠ [] := by
  cases f with
  | string s =>
    rw [List.mem_singleton.mp hc]
    exact stringField_ne_nil s
  | datachunk data length =>
    rw [List.mem_singleton.mp hc]
    exact h data length rfl
  | _ =>
    obtain ⟨b, -, rfl⟩ := List.mem_map.mp hc
    exact List.cons_ne_nil _ _

theorem sendId_ne_datachunk (id : BitVec 16) (extended : Bool) (data : List Byte) (length : Nat) :
    Field.datachunk data length ≠ sendId id extended := by
  cases extended <;> simp [sendId]

theorem datachunk_not_mem_sendPosition (position : BitVec 32) (extended : Bool) (data : List Byte)
    (length : Nat) : Field.datachunk data length ∉ sendPosition position extended := by
  cases extended <;> simp [sendPosition]

/-- Only a level data chunk has a data chunk, of 1024 bytes. -/
theorem length_datachunk {p : Packet} {data : List Byte} {length : Nat} (h : .datachunk data length ∈ p.fields) :
    (data.take length).length = 1024 := by
  cases p with
  | tcProtocolSendLevelDataChunk chunkLength chunkData percentComplete =>
    simp only [Packet.fields, List.mem_cons, reduceCtorEq, Field.datachunk.injEq, List.not_mem_nil,
      or_false, false_or] at h
    obtain ⟨rfl, rfl⟩ := h
    rw [List.length_take, Vector.length_toList, Nat.min_self]
  | _ => simp [Packet.fields, sendId_ne_datachunk, datachunk_not_mem_sendPosition] at h

theorem packet_chunks_nonempty (p : Packet) : ∀ c ∈ Packet.chunks p, c.bytes ≠ [] := by
  intro c hc
  obtain ⟨f, hf, hc⟩ := List.mem_flatMap.mp hc
  refine chunks_nonempty (fun data length h => ?_) hc
  rw [← List.length_pos_iff, length_datachunk (h ▸ hf)]
  decide

theorem flatten_packet_chunks (p : Packet) : flatten (Packet.chunks p) = Packet.encoding p := by
  rw [flatten, Packet.chunks, Packet.encoding, List.flatMap_assoc]
  exact congrArg (p.fields.flatMap ·) (funext flatten_chunks)

/-- Sending a packet offers its chunks one after another. -/
theorem send_eq_sendAll (p : Packet) (h : p.asserts = true) (socket : Stream) :
    p.send socket = (some (sendAll (Packet.chunks p) socket).1, (sendAll (Packet.chunks p) socket).2) := by
  have hall : allSent (p.fields.map Field.send) socket = sendAll (Packet.chunks p) socket := by
    refine allSent_eq (fun f hf => send_field_eq fun c hc => ?_) socket
    exact packet_chunks_nonempty p c (List.mem_flatMap.mpr ⟨f, hf, hc⟩)
  rw [Packet.send, if_pos h, hall]

/-- A packet to a socket that takes each of its chunks whole. -/
theorem send_of_takes {p : Packet} (h : p.asserts = true) {n k : Nat}
    (hp : ∀ c ∈ Packet.chunks p, c.bytes.length ≤ n) {socket : Stream}
    (hsocket : socket.Takes n ((Packet.chunks p).length + k)) :
    (p.send socket).1 = some true ∧ (p.send socket).2.Takes n k ∧
      (p.send socket).2.accepted = socket.accepted ++ Packet.encoding p := by
  rw [send_eq_sendAll p h, ← flatten_packet_chunks, Option.some.injEq]
  exact sendAll_of_takes hp hsocket

/-- The longest chunk of a packet is a string, or a data chunk if it has one. -/
theorem chunks_le {p : Packet} {n : Nat} (hn : maxStrLen ≤ n)
    (hdata : ∀ data length, .datachunk data length ∈ p.fields → 1024 ≤ n) :
    ∀ c ∈ Packet.chunks p, c.bytes.length ≤ n := by
  intro c hc
  obtain ⟨f, hf, hc⟩ := List.mem_flatMap.mp hc
  cases f with
  | string s =>
    rw [List.mem_singleton.mp hc, length_stringField]
    exact hn
  | datachunk data length =>
    rw [List.mem_singleton.mp hc]
    exact (length_datachunk hf).trans_le (hdata data length hf)
  | _ =>
    obtain ⟨b, -, rfl⟩ := List.mem_map.mp hc
    exact Nat.le_trans (Nat.le_of_ble_eq_true rfl) hn

/-- For every packet and every behaviour of the socket: if the function returns
`TRUE` the socket has taken exactly the packet, if and only if an assertion
fails, one of its calls of `p_socket_send` fails (for a string also by asking to
wait), or each of these calls takes its whole buffer. -/
theorem send_exact_iff (p : Packet) (socket : Stream) :
    ((p.send socket).1 = some true →
        (p.send socket).2.accepted = socket.accepted ++ Packet.encoding p) ↔
      p.asserts = false ∨
      (∃ c ∈ (Packet.chunks p).zipIdx socket.calls, c.1.Stops (socket.outcomes c.2)) ∨
      ∀ c ∈ (Packet.chunks p).zipIdx socket.calls, c.1.Whole (socket.outcomes c.2) := by
  cases h : p.asserts with
  | false =>
    refine iff_of_true (fun ht => ?_) (.inl rfl)
    rw [Packet.send, h] at ht
    cases ht
  | true =>
    rw [send_eq_sendAll p h, ← flatten_packet_chunks, Option.some.injEq,
      sendAll_exact_iff (packet_chunks_nonempty p)]
    simp only [Bool.true_eq_false, false_or]

/-- A ping to a socket that asks to wait: the function returns `TRUE`, and
nothing was sent. -/
theorem ping_not_delivered :
    (Packet.tcProtocolPing.send ⟨fun _ => .wouldBlock, 0, []⟩).1 = some true ∧
      (Packet.tcProtocolPing.send ⟨fun _ => .wouldBlock, 0, []⟩).2.accepted ≠
        [] ++ Packet.encoding .tcProtocolPing := by
  decide

/-- A socket that takes all it is offered. -/
def readySocket : Stream := ⟨fun _ => .accept maxStrLen, 0, []⟩

/-! ## Decoding -/

/-- A short integer as the client sends it. -/
def sentShort (b0 b1 : Byte) : BitVec 16 := (b0.setWidth 16 <<< 8) ||| b1.setWidth 16

/-- An integer as the client sends it, most significant byte first. -/
def sentInt (b0 b1 b2 b3 : Byte) : BitVec 32 :=
  (b0.setWidth 32 <<< 24) ||| (b1.setWidth 32 <<< 16) ||| (b2.setWidth 32 <<< 8) ||| b3.setWidth 32

/-- An integer that is not decoded to a negative one is decoded as it was sent. -/
theorem decodeInt_of_nonneg {b0 b1 b2 b3 : Byte} (h : 0 ≤ (tcProtocolDecodeInt b0 b1 b2 b3).toInt) :
    tcProtocolDecodeInt b0 b1 b2 b3 = sentInt b0 b1 b2 b3 := by
  have hmsb : (tcProtocolDecodeInt b0 b1 b2 b3).msb = false := by
    rw [BitVec.msb_eq_toInt]
    simpa using h
  have hbits : b0.msb = false ∧ b1.msb = false ∧ b2.msb = false ∧ b3.msb = false := by
    simp only [tcProtocolDecodeInt, BitVec.msb_or, BitVec.msb_shiftLeft, BitVec.getMsbD_eq_getLsbD,
      BitVec.getLsbD_signExtend, BitVec.msb_signExtend, Bool.or_eq_false_iff] at hmsb
    obtain ⟨⟨⟨h0, h1⟩, h2⟩, h3⟩ := hmsb
    exact ⟨by simpa [BitVec.msb_eq_getLsbD_last] using h0, by simpa using h1, by simpa using h2, by simpa using h3⟩
  obtain ⟨h0, h1, h2, h3⟩ := hbits
  rw [tcProtocolDecodeInt, sentInt, BitVec.signExtend_eq_setWidth_of_msb_false h0,
    BitVec.signExtend_eq_setWidth_of_msb_false h1, BitVec.signExtend_eq_setWidth_of_msb_false h2,
    BitVec.signExtend_eq_setWidth_of_msb_false h3]

theorem getLsbD_sentShort (b0 b1 : Byte) {j : Nat} (h : j < 16) :
    (sentShort b0 b1).getLsbD j = if j < 8 then b1.getLsbD j else b0.getLsbD (j - 8) := by
  rw [sentShort]
  split
  · rename_i hj
    simp [hj, h]
  · rename_i hj
    simp [hj, h, BitVec.getLsbD_of_ge b1 j (by omega)]

theorem getLsbD_decodeShort (b0 b1 : Byte) {j : Nat} (h : j < 16) :
    (tcProtocolDecodeShort b0 b1).getLsbD j = if j < 8 then b1.getLsbD j else b0.getLsbD (j - 8) || b1.msb := by
  rw [tcProtocolDecodeShort]
  split
  · rename_i hj
    simp [hj, h, BitVec.getElem_signExtend, show j < 32 by omega]
  · rename_i hj
    simp [hj, h, BitVec.getElem_signExtend, show j < 32 by omega, show j - 8 < 32 by omega,
      show j - 8 < 8 by omega]

/-- A short integer is decoded as it was sent if its low byte is not negative, or
its high byte is -1. -/
theorem decodeShort_eq {b0 b1 : Byte} (h : b1.msb = false ∨ b0 = 0xFF) :
    tcProtocolDecodeShort b0 b1 = sentShort b0 b1 := by
  refine BitVec.eq_of_getLsbD_eq fun j hj => ?_
  rw [getLsbD_decodeShort b0 b1 hj, getLsbD_sentShort b0 b1 hj]
  split
  · rfl
  · rename_i hlow
    rcases h with h | h
    · rw [h, Bool.or_false]
    · have hones : ∀ k < 8, (0xFF : Byte).getLsbD k = true := by decide
      rw [h, hones (j - 8) (by omega), Bool.true_or]

theorem sentShort_bytes (v : BitVec 16) : sentShort (v.extractLsb' 8 8) (v.extractLsb' 0 8) = v := by
  refine BitVec.eq_of_getLsbD_eq fun j hj => ?_
  rw [getLsbD_sentShort _ _ hj]
  split
  · rename_i hlow
    simp [hlow]
  · rename_i hlow
    simp [show j - 8 < 8 by omega, show 8 + (j - 8) = j by omega]

end TC.Proof.Protocol
