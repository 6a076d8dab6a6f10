import TeleClassic.Impl.Compress
import TeleClassic.Proof.SendMap.Completion

/-!
# The level data that a client gets

A compressed array is sent in pieces of 1024 bytes and a last one that may be
shorter (`pieces`), first the main one and then that of the high bytes. A chain that
has compressed its arrays announces the level (`ready_run`). Before the task that
sends piece `k` it is at piece `k` (`Sending`), and the task takes it to the next one
or ends the level (`chunk_step`). So a chain whose packets are sent sends every piece
once, in order, and then the end of the level (`level_data_intact`); but not if the
pool is stopped (`level_without_end`).
-/

namespace TC.Proof.SendMap

open TC.Impl.Map TC.Impl.Protocol TC.Impl.SendMap TC.Impl.Compress
open TC.Impl.Nbt (Bytes)
open TC.Impl.ThreadPool (Priority)
open TC.Impl.Server (Session supports)
open TC.Proof.Map (nonempty_of_none)
open TC.Proof.Protocol (Packet.chunks Packet.encoding send_eq_sendAll send_of_takes chunks_le)
open Prog

variable {session : Session} {env : Env} {s : Chain} {i : Nat}

/-! ## Pieces -/

/-- The number of chunks for an array. -/
def numChunks (bytes : List Byte) : Nat := (bytes.length + 1023) / 1024

def piece (bytes : List Byte) (i : Nat) : List Byte := (bytes.drop (1024 * i)).take 1024

def pieces (bytes : List Byte) : List (List Byte) := (List.range (numChunks bytes)).map (piece bytes)

variable {bytes : List Byte}

@[simp]
theorem length_pieces : (pieces bytes).length = numChunks bytes := by
  simp [pieces]

theorem getElem?_pieces (h : i < numChunks bytes) : (pieces bytes)[i]? = some (piece bytes i) := by
  simp [pieces, h]

theorem lt_numChunks : i < numChunks bytes ↔ 1024 * i < bytes.length := by
  unfold numChunks
  omega

theorem length_piece : (piece bytes i).length = min 1024 (bytes.length - 1024 * i) := by
  simp [piece]

theorem length_of_mem_pieces {p : List Byte} (h : p ∈ pieces bytes) : 1 ≤ p.length ∧ p.length ≤ 1024 := by
  obtain ⟨i, hi, rfl⟩ := List.mem_map.mp h
  have hlt := lt_numChunks.mp (List.mem_range.mp hi)
  rw [length_piece]
  omega

/-- The pieces up to some one are a front of the array. -/
theorem flatten_range_piece (k : Nat) : ((List.range k).map (piece bytes)).flatten = bytes.take (1024 * k) := by
  induction k with
  | zero => simp
  | succ k ih =>
    rw [List.range_succ, List.map_append, List.flatten_append, ih]
    simp [piece, Nat.mul_succ, List.take_add]

@[simp]
theorem flatten_pieces : (pieces bytes).flatten = bytes := by
  have hall : ¬ numChunks bytes < numChunks bytes := Nat.lt_irrefl _
  rw [lt_numChunks] at hall
  rw [pieces, flatten_range_piece, List.take_of_length_le (by omega)]

theorem toList_currentChunk {sentCount length : Nat} (hlength : length ≤ 1024)
    (hle : sentCount + length ≤ bytes.length) :
    (currentChunk bytes sentCount length).toList.take length = (bytes.drop sentCount).take length := by
  refine List.ext_getElem ?_ fun i hi hi' => ?_
  · simp
    omega
  · simp only [List.length_take, Vector.length_toList] at hi
    have hlt : sentCount + i < bytes.length := by omega
    simp [currentChunk, show i < length by omega, List.getD_eq_getElem?_getD, hlt]

/-! ## Packets -/

/-- A level data chunk whose first bytes are a piece; a client with the extension
is told by the last byte which array it is of. -/
def IsChunk (extended : Bool) (array : Byte) (part : List Byte) : Packet → Prop
  | .tcProtocolSendLevelDataChunk length data last =>
    1 ≤ length.toNat ∧ length.toNat ≤ 1024 ∧ data.toList.take length.toNat = part ∧ (extended → last = array)
  | _ => False

theorem isChunk_chunkPacket (env : Env) (session : Session) (main : Bool) (h : 1024 * i < bytes.length) :
    IsChunk (supports session extendedBlocks) (if main then 0 else 1) (piece bytes i)
      (chunkPacket env session bytes (1024 * i) main) := by
  have hlength : (BitVec.ofNat 16 (min 1024 (bytes.length - 1024 * i))).toNat = min 1024 (bytes.length - 1024 * i) := by
    rw [BitVec.toNat_ofNat]
    omega
  refine ⟨?_, ?_, ?_, fun hextended => if_pos hextended⟩
  · rw [hlength]
    omega
  · rw [hlength]
    omega
  · rw [hlength, toList_currentChunk (by omega) (by omega), piece]
    simp [List.take_eq_take_iff]

/-- Each packet is sent, in turn. -/
inductive Sends : List Packet → Stream → Stream → Prop
  | nil (socket : Stream) : Sends [] socket socket
  | cons {p : Packet} {ps : List Packet} {socket socket₁ socket' : Stream} (h : p.send socket = (some true, socket₁))
    (hs : Sends ps socket₁ socket') : Sends (p :: ps) socket socket'

variable {p : Packet} {socket socket₁ socket' : Stream}

/-- What a packet that was sent did to the socket. -/
theorem send_socket (h : p.send socket = (some true, socket₁)) :
    socket₁.outcomes = socket.outcomes ∧ socket₁.calls = socket.calls + (Packet.chunks p).length := by
  cases hasserts : p.asserts with
  | false => simp [Packet.send, hasserts] at h
  | true =>
    rw [send_eq_sendAll p hasserts, Prod.mk.injEq, Option.some.injEq] at h
    obtain ⟨hsent, rfl⟩ := h
    exact ⟨sendAll_outcomes _ _, sendAll_calls hsent⟩

theorem later_of_sends {ps : List Packet} (h : Sends ps socket socket') : socket.Later socket' := by
  induction h with
  | nil => exact ⟨rfl, Nat.le_refl _⟩
  | cons h _ ih =>
    obtain ⟨houtcomes, hcalls⟩ := send_socket h
    exact Stream.Later.trans ⟨houtcomes, by omega⟩ ih

/-- A socket that takes each buffer whole has taken the packets. -/
theorem Sends.accepted {ps : List Packet} (h : Sends ps socket socket')
    (hwhole : socket.Between (Outcome.Holds 1024) socket') :
    socket'.accepted = socket.accepted ++ ps.flatMap Packet.encoding := by
  induction h with
  | nil => simp
  | @cons p ps socket socket₁ socket' h hs ih =>
    obtain ⟨houtcomes, hcalls⟩ := send_socket h
    have hle := (later_of_sends hs).2
    have htakes : socket.Takes 1024 ((Packet.chunks p).length + 0) := by
      intro i hi
      exact hwhole _ (by omega) (by omega)
    have hrest : socket₁.Between (Outcome.Holds 1024) socket' := hwhole.later ⟨houtcomes, by omega⟩
    have hasserts : p.asserts = true := by
      cases hasserts : p.asserts with
      | false => simp [Packet.send, hasserts] at h
      | true => rfl
    have hp := (send_of_takes hasserts (chunks_le (by decide) fun _ _ _ => Nat.le_refl _) htakes).2.2
    rw [h] at hp
    rw [ih hrest, hp, List.flatMap_cons, List.append_assoc]

/-- The packets are sent, and a client whose socket takes each buffer whole gets
exactly these. -/
def Carries (ps : List Packet) (socket socket' : Stream) : Prop :=
  Sends ps socket socket' ∧ (socket.Between (Outcome.Holds 1024) socket' →
    socket'.accepted = socket.accepted ++ ps.flatMap Packet.encoding)

/-- The packets of the level data have no string, so that only a connection that
is gone stops them. -/
theorem send_of_connected {sent : Bool} (hasserts : p.asserts = true)
    (htolerant : ∀ c ∈ Packet.chunks p, c.tolerant = true) (h : p.send socket = (some sent, socket₁))
    (hsocket : socket.Between Outcome.Connected socket₁) : sent = true := by
  rw [send_eq_sendAll p hasserts, Prod.mk.injEq] at h
  obtain ⟨hsent, rfl⟩ := h
  rw [← Option.some.inj hsent]
  exact sendAll_of_between (fun x hx => not_stops_of_connected (htolerant x hx)) hsocket

/-! ## Positions -/

section Positions

variable {c : Setup} (b : Buffers c)

/-- The pieces of both arrays. -/
def Buffers.parts : List (List Byte) := pieces b.main ++ b.high.elim [] pieces

/-- Piece `i` of an array is piece `k` of all. -/
structure At (k i : Nat) (main : Bool) (bytes : List Byte) : Prop where
  selected : b.selected main = some bytes
  lt : 1024 * i < bytes.length
  index : k = if main then i else numChunks b.main + i

variable {b} {k : Nat} {main : Bool}

theorem At.part (h : At b k i main bytes) : b.parts[k]? = some (piece bytes i) := by
  obtain ⟨hselected, hlt, hindex⟩ := h
  have hi : i < numChunks bytes := lt_numChunks.mpr hlt
  cases main with
  | true =>
    obtain rfl := Option.some.inj hselected
    obtain rfl : k = i := hindex
    rw [Buffers.parts, List.getElem?_append_left (by rw [length_pieces]; exact hi), getElem?_pieces hi]
  | false =>
    have hhigh : b.high = some bytes := hselected
    obtain rfl : k = numChunks b.main + i := hindex
    rw [Buffers.parts, hhigh, List.getElem?_append_right (by rw [length_pieces]; omega), length_pieces,
      Nat.add_sub_cancel_left]
    exact getElem?_pieces hi

theorem At.main_iff (h : At b k i main bytes) : k < numChunks b.main ↔ main = true := by
  obtain ⟨hselected, hlt, hindex⟩ := h
  cases main with
  | true =>
    obtain rfl := Option.some.inj hselected
    obtain rfl : k = i := hindex
    simpa using lt_numChunks.mpr hlt
  | false =>
    obtain rfl : k = numChunks b.main + i := hindex
    simp

theorem At.more (h : At b k i main bytes) (hmore : 1024 * (i + 1) < bytes.length) : At b (k + 1) (i + 1) main bytes := by
  refine ⟨h.selected, hmore, ?_⟩
  rw [h.index]
  cases main <;> rfl

/-- From the last piece of the main array to the first of the other. -/
theorem At.switch {bytes' : List Byte} (h : At b k i true bytes) (hlast : bytes.length ≤ 1024 * (i + 1))
    (hhigh : b.high = some bytes') (hne : bytes' ≠ []) : At b (k + 1) 0 false bytes' := by
  obtain ⟨hselected, hlt, hindex⟩ := h
  obtain rfl := Option.some.inj hselected
  obtain rfl : k = i := hindex
  refine ⟨hhigh, List.length_pos_iff.mpr hne, ?_⟩
  show k + 1 = numChunks b.main + 0
  unfold numChunks
  omega

theorem At.last (h : At b k i main bytes) (hlast : bytes.length ≤ 1024 * (i + 1))
    (hhigh : ¬(main ∧ c.map.blocks.blockArray2.isSome)) : k + 1 = b.parts.length := by
  obtain ⟨hselected, hlt, hindex⟩ := h
  have hi : i + 1 = numChunks bytes := by
    unfold numChunks
    omega
  cases main with
  | true =>
    obtain rfl := Option.some.inj hselected
    obtain rfl : k = i := hindex
    have hnone : b.high = none := by
      rw [← Option.not_isSome_iff_eq_none, b.high_isSome]
      exact fun h => hhigh ⟨rfl, h⟩
    simp [Buffers.parts, hnone, hi]
  | false =>
    have hsome : b.high = some bytes := hselected
    obtain rfl : k = numChunks b.main + i := hindex
    simp only [Buffers.parts, hsome, Option.elim, List.length_append, length_pieces]
    omega

theorem At.lt_length (h : At b k i main bytes) : k < b.parts.length := by
  have hpart := h.part
  exact (List.getElem?_eq_some_iff.mp hpart).1

end Positions

/-! ## One chunk -/

section Step

variable {c : Setup} {b : Buffers c} {a : Around} {n : Int} {k : Nat} {main : Bool}

/-- The level data goes on with piece `k`. -/
def Sending (b : Buffers c) (n : Int) (k : Nat) (s : Chain) : Prop :=
  ∃ a i main bytes, ∃ h : (b.selected main).isSome, At b k i main bytes ∧ a.shutdown = false ∧
    s = (Stage.sending b (1024 * i) main h).chain a n

theorem At.isSome_selected (h : At b k i main bytes) : (b.selected main).isSome := by
  simp [h.selected]

theorem tolerant_chunkPacket {sentCount : Nat} :
    ∀ c ∈ Packet.chunks (chunkPacket env session bytes sentCount main), c.tolerant = true := by
  simp [Packet.chunks, chunkPacket, Packet.fields, Protocol.Field.chunks, Protocol.byteChunk, Protocol.Field.encoding]

theorem tolerant_finalizePacket : ∀ x ∈ Packet.chunks (finalizePacket c.map), x.tolerant = true := by
  simp [Packet.chunks, finalizePacket, Packet.fields, Protocol.Field.chunks, Protocol.byteChunk, Protocol.Field.encoding]

/-- A sending fails only when the client is gone. -/
theorem not_failed_of_connected {p : Packet} {socket : Stream} (hasserts : p.asserts = true)
    (htolerant : ∀ x ∈ Packet.chunks p, x.tolerant = true)
    (hsend : p.send a.session.clientSocket = (some false, socket))
    (hs : s = (tcSendBufferHandleFailure c env
      (busy (a.withSocket socket) (n + 1) b.data true sendBufferArgs none)).2) :
    ¬ a.session.clientSocket.Between Outcome.Connected s.session.clientSocket := by
  intro hconnected
  have hend := tcSendBufferHandleFailure_sending (a := a.withSocket socket) (n := n) env b
  have hsocket : s.session.clientSocket = socket := by
    rw [hs]
    exact congrArg (·.2.session.clientSocket) hend
  rw [hsocket] at hconnected
  cases send_of_connected hasserts htolerant hsend hconnected

/-- The end of the level. -/
theorem finish_sent (hs : s = (finishSending c c.map c.priority env (busy a (n + 1) b.data true sendBufferArgs none)).2)
    (hconnected : a.session.clientSocket.Between Outcome.Connected s.session.clientSocket) :
    Sends [finalizePacket c.map] a.session.clientSocket s.session.clientSocket ∧ Ended s := by
  obtain ⟨sent, socket, hsend⟩ := send_of_asserts (p := finalizePacket c.map) rfl a.session.clientSocket
  have hrun : finishSending c c.map c.priority env (busy a (n + 1) b.data true sendBufferArgs none) =
      (if !sent then tcSendBufferHandleFailure c
        else do
          handleSuccess c c.priority
          pFree .sendBufferTaskData) env (busy (a.withSocket socket) (n + 1) b.data true sendBufferArgs none) :=
    bind_of_some (send_eq env hsend)
  rw [hrun] at hs
  cases sent with
  | false => exact absurd hconnected (not_failed_of_connected rfl tolerant_finalizePacket hsend hs)
  | true =>
    have hend := handleSuccess_sending (a := a.withSocket socket) (n := n) env b
    obtain rfl : s = handed ((a.withSocket socket).unlock true) n Args.none ((a.withSocket socket).outcome env.handler) :=
      hs.trans (congrArg Prod.snd hend)
    cases (a.withSocket socket).outcome env.handler with
    | noArgs => exact ⟨.cons hsend (.nil socket), rfl, rfl⟩
    | refused => exact ⟨.cons hsend (.nil socket), rfl, rfl⟩
    | accepted => exact ⟨.cons hsend (.nil socket), rfl, rfl⟩

/-- A task that has sent a piece goes on with the next one, if there is one. -/
theorem chunk_goes_on {p : Packet} {socket : Stream} {i' : Nat} {main' : Bool} {bytes' : List Byte}
    (hshutdown : a.shutdown = false) (hsend : p.send a.session.clientSocket = (some true, socket))
    (hat : At b (k + 1) i' main' bytes')
    (hs : s = (scheduleChunk c (1024 * i') main' c.sessionGeneration env
      (busy (a.withSocket socket) (n + 1) b.data true sendBufferArgs none)).2) :
    Sends (p :: if k + 1 = b.parts.length then [finalizePacket c.map] else [])
      a.session.clientSocket s.session.clientSocket ∧
      (Sending b n (k + 1) s ∨ k + 1 = b.parts.length ∧ Ended s) := by
  have hs' : s = (Stage.sending b (1024 * i') main' hat.isSome_selected).chain (a.withSocket socket) n := by
    rw [hs, scheduleChunk_busy, show (a.withSocket socket).shutdown = false from hshutdown]
    rfl
  rw [if_neg (Nat.ne_of_lt hat.lt_length)]
  refine ⟨.cons hsend ?_, .inl ⟨a.withSocket socket, i', main', bytes', hat.isSome_selected, hat, hshutdown, hs'⟩⟩
  rw [hs']
  exact .nil socket

/-- A task sends its piece, and the end of the level after the last one. -/
theorem chunk_step (hat : At b k i main bytes) (hne : ∀ bytes', b.high = some bytes' → bytes' ≠ [])
    (hshutdown : a.shutdown = false) (h : (b.selected main).isSome)
    (hstep : chainStep c ((Stage.sending b (1024 * i) main h).chain a n) (.run env) = some s)
    (hconnected : a.session.clientSocket.Between Outcome.Connected s.session.clientSocket) :
    Sends (chunkPacket env a.session bytes (1024 * i) main ::
        if k + 1 = b.parts.length then [finalizePacket c.map] else [])
      a.session.clientSocket s.session.clientSocket ∧
      (Sending b n (k + 1) s ∨ k + 1 = b.parts.length ∧ Ended s) := by
  obtain ⟨sent, socket, hsend⟩ :=
    send_of_asserts (p := chunkPacket env a.session bytes (1024 * i) main) rfl a.session.clientSocket
  have hs : s = (tcSendBufferTask c (1024 * i) main c.priority c.sessionGeneration env
    (busy a (n + 1) b.data true sendBufferArgs none)).2 := (Option.some.inj hstep).symm
  rw [tcSendBufferTask_run env b hat.selected hsend] at hs
  have hlt := hat.lt
  cases sent with
  | false => exact absurd hconnected (not_failed_of_connected rfl tolerant_chunkPacket hsend hs)
  | true =>
    rw [if_neg (by simp)] at hs
    split at hs
    · rename_i hmore
      have hcount : 1024 * i + min 1024 (bytes.length - 1024 * i) = 1024 * (i + 1) := by omega
      rw [hcount] at hs hmore
      exact chunk_goes_on hshutdown hsend (hat.more hmore) hs
    · rename_i hlast
      have hlast : bytes.length ≤ 1024 * (i + 1) := by omega
      split at hs
      · rename_i hhigh
        obtain ⟨rfl, hhigh⟩ := hhigh
        obtain ⟨bytes', hbytes'⟩ := Option.isSome_iff_exists.mp (b.high_isSome.trans hhigh)
        exact chunk_goes_on hshutdown hsend (hat.switch hlast hbytes' (hne bytes' hbytes')) hs
      · rename_i hhigh
        have hk := hat.last hlast hhigh
        have hrest : (a.withSocket socket).session.clientSocket.Between Outcome.Connected s.session.clientSocket :=
          hconnected.later (later_of_sends (.cons hsend (.nil socket)))
        obtain ⟨hsent, hended⟩ := finish_sent hs hrest
        rw [if_pos hk]
        exact ⟨.cons hsend hsent, .inr ⟨hk, hended⟩⟩

end Step

/-! ## The whole level -/

/-- A run of `tc_send_buffer_task`: the session before and after it. -/
structure Turn where
  before : Session
  after : Session

def Func.isTcSendBufferTask : Func → Bool
  | .tcSendBufferTask _ _ => true
  | _ => false

/-- The turns of a step. -/
def turns (s : Chain) (l : Label) (s' : Chain) : List Turn :=
  match l with
  | .run _ => if s.task.any (Func.isTcSendBufferTask ·.func) then [⟨s.session, s'.session⟩] else []
  | _ => []

/-- The client stays connected while a task sends to it. -/
def Stays (c : Setup) (s : Chain) : Label → Prop
  | .run env => ∀ s', chainStep c s (.run env) = some s' →
    s.session.clientSocket.Between Outcome.Connected s'.session.clientSocket
  | _ => True

/-- What `tc_send_map_task2` needs to announce the level, when it runs: the client is the
one of the call and has the extensions, the map can be sent to it, each packet is taken
at least in part, and there is memory for the next task. -/
structure Announceable (c : Setup) (s : Chain) (env : Env) : Prop where
  client : s.session.currentGeneration = c.sessionGeneration
  has : Equipped s.session c.map
  ok : ∀ d bytes, s.sendMapData = some d → d.blockArrayBuffer = some bytes → Sendable s.session c.map bytes
  alloc : env.alloc = true
  sent : ∀ s', chainStep c s (.run env) = some s' →
    s.session.clientSocket.Between Outcome.Accepted s'.session.clientSocket

/-- The client stays connected, the level can be announced, and the pool is not
stopped. -/
def Smooth (c : Setup) (s : Chain) (l : Label) : Prop :=
  Stays c s l ∧ l ≠ .stop ∧
    ∀ env, l = .run env → s.task.map Queued.func = some .tcSendMapTask2 → Announceable c s env

/-- Each turn has sent a piece of the arrays, in order, and the turn of the last
piece the end of the level after it. -/
structure LevelData (m : TcMap) (low high : List (List Byte)) (log : List Turn) : Prop where
  length : log.length ≤ (low ++ high).length
  sent : ∀ k turn part, log[k]? = some turn → (low ++ high)[k]? = some part →
    ∃ chunk, IsChunk (supports turn.before extendedBlocks) (if k < low.length then 0 else 1) part chunk ∧
      Carries (chunk :: if k + 1 = (low ++ high).length then [finalizePacket m] else [])
        turn.before.clientSocket turn.after.clientSocket

section Run

variable {c : Setup} {b : Buffers c} {n : Int} {s' : Chain} {l : Label} {log : List Turn}

/-- The level is to be announced. -/
def Ready (b : Buffers c) (n : Int) (s : Chain) : Prop := ∃ a, a.shutdown = false ∧ s = (Stage.ready b).chain a n

/-- The level data so far. -/
def Progress (b : Buffers c) (n : Int) (log : List Turn) (s : Chain) : Prop :=
  LevelData c.map (pieces b.main) (b.high.elim [] pieces) log ∧
    (log = [] ∧ Ready b n s ∨ Sending b n log.length s ∨ log.length = b.parts.length ∧ Ended s)

theorem LevelData.snoc {low high : List (List Byte)} {m : TcMap} (h : LevelData m low high log) {turn : Turn}
    {part : List Byte} (hpart : (low ++ high)[log.length]? = some part) {chunk : Packet}
    (hchunk : IsChunk (supports turn.before extendedBlocks) (if log.length < low.length then 0 else 1) part chunk)
    (hsent : Sends (chunk :: if log.length + 1 = (low ++ high).length then [finalizePacket m] else [])
      turn.before.clientSocket turn.after.clientSocket) : LevelData m low high (log ++ [turn]) := by
  have hlt := (List.getElem?_eq_some_iff.mp hpart).1
  refine ⟨by rw [List.length_append, List.length_singleton]; exact hlt, fun k turn' part' hturn hpart' => ?_⟩
  rcases Nat.lt_trichotomy k log.length with hk | rfl | hk
  · rw [List.getElem?_append_left hk] at hturn
    exact h.sent k turn' part' hturn hpart'
  · rw [List.getElem?_concat_length] at hturn
    obtain rfl := Option.some.inj hturn
    obtain rfl := Option.some.inj (hpart.symm.trans hpart')
    exact ⟨chunk, hchunk, hsent, hsent.accepted⟩
  · rw [List.getElem?_eq_none (by rw [List.length_append, List.length_singleton]; omega)] at hturn
    cases hturn

/-- Nothing is sent once the chain has ended. -/
theorem ended_step (hs : Ended s) (hstep : chainStep c s l = some s') : turns s l s' = [] ∧ Ended s' := by
  obtain ⟨htask, hwaiting⟩ := hs
  unfold chainStep at hstep
  split at hstep
  · cases hstep
  · cases l with
    | answer => simp [hwaiting] at hstep
    | doubleFree => simp [hwaiting] at hstep
    | run => simp [htask] at hstep
    | session session =>
      dsimp only at hstep
      split at hstep
      · cases hstep
      · cases hstep
        exact ⟨rfl, htask, hwaiting⟩
    | stop =>
      cases hstep
      exact ⟨rfl, htask, hwaiting⟩

/-- The level is announced, and the first piece comes next. -/
theorem ready_run {a : Around} (hshutdown : a.shutdown = false)
    (hopen : Announceable c ((Stage.ready b).chain a n) env)
    (hstep : chainStep c ((Stage.ready b).chain a n) (.run env) = some s') :
    ∃ session : Session, a.session.clientSocket.Later session.clientSocket ∧
      s' = (Stage.sending b 0 true rfl).chain { a with session } n := by
  have hsent := hopen.sent s' hstep
  have hends : Task2Ends env a n b s' := by
    rw [chainStep_ready] at hstep
    split at hstep
    · cases hstep
    · obtain rfl := Option.some.inj hstep
      exact tcSendMapTask2_ends env b
  cases hends with
  | gone hgone => exact absurd hopen.client hgone
  | announced _ _ session hlater hs =>
    rw [if_neg (by rw [hshutdown]; exact Bool.false_ne_true)] at hs
    exact ⟨session, hlater, hs⟩
  | failed session hwhy hs =>
    subst hs
    cases ((hwhy hsent).1 hopen.has).symm.trans hopen.alloc
  | halted hbad => exact absurd (hopen.ok _ _ rfl rfl) hbad

theorem progress_step (hmain : b.main ≠ []) (hne : ∀ bytes', b.high = some bytes' → bytes' ≠ []) (hl : Smooth c s l)
    (hs : Progress b n log s) (hstep : chainStep c s l = some s') : Progress b n (log ++ turns s l s') s' := by
  obtain ⟨hlog, ⟨rfl, a, hshutdown, rfl⟩ | ⟨a, i, main, bytes, h, hat, hshutdown, rfl⟩ | ⟨hall, hended⟩⟩ := hs
  · cases l with
    | answer => cases hstep
    | doubleFree => cases hstep
    | stop => exact absurd rfl hl.2.1
    | session session => exact ⟨hlog, .inl ⟨rfl, { a with session }, hshutdown, session_step hstep⟩⟩
    | run env =>
      obtain ⟨session, -, hs'⟩ := ready_run hshutdown (hl.2.2 env rfl rfl) hstep
      have hat : At b 0 0 true b.main := ⟨rfl, List.length_pos_iff.mpr hmain, rfl⟩
      exact ⟨hlog, .inr (.inl ⟨{ a with session }, 0, true, b.main, rfl, hat, hshutdown, hs'⟩)⟩
  · cases l with
    | answer => cases hstep
    | doubleFree => cases hstep
    | stop => exact absurd rfl hl.2.1
    | session session =>
      rw [show turns _ (.session session) s' = [] from rfl, List.append_nil]
      exact ⟨hlog, .inr (.inl ⟨{ a with session }, i, main, bytes, h, hat, hshutdown, session_step hstep⟩)⟩
    | run env =>
      obtain ⟨hsent, hnext⟩ := chunk_step hat hne hshutdown h hstep (hl.1 s' hstep)
      have hturns : turns ((Stage.sending b (1024 * i) main h).chain a n) (.run env) s' = [⟨a.session, s'.session⟩] := rfl
      rw [hturns]
      refine ⟨hlog.snoc hat.part ?_ hsent, .inr ?_⟩
      · have hchunk := isChunk_chunkPacket env a.session main hat.lt
        rwa [length_pieces, if_congr hat.main_iff rfl rfl]
      · rwa [List.length_append, List.length_singleton]
  · obtain ⟨hturns, hended'⟩ := ended_step hended hstep
    rw [hturns, List.append_nil]
    exact ⟨hlog, .inr (.inr ⟨hall, hended'⟩)⟩

end Run

/-! ## The arrays -/

/-- What `deflate` writes to the end, `inflate` reads back. -/
def Inverts (inflate : Int → List Byte → Option (List Byte)) (z : Zlib) : Prop :=
  ∀ windowBits input availOut output, z.deflate windowBits input availOut = some output →
    inflate windowBits output = some input

/-- The arrays are compressed by `utils.c`, each call over a zlib that `inflate`
inverts. -/
structure Compresses (inflate : Int → List Byte → Option (List Byte)) (env : Env) : Prop where
  gzip : ∀ input output, env.gzip input = some output → ∃ z, Inverts inflate z ∧ tcGzipByteArray z input = some output
  deflate : ∀ input output, env.deflate input = some output →
    ∃ z, Inverts inflate z ∧ tcDeflateByteArray z input = some output

def levelBits (session : Session) : Int := if supports session fastMap then rawBits else gzipBits

/-- What a client that inflates an array finds: without the extension, its length
comes first. -/
def levelInput (session : Session) (blocks : Bytes) : List Byte :=
  if supports session fastMap then blocks.val else newInput blocks

section Arrays

variable {inflate : Int → List Byte → Option (List Byte)} {z : Zlib} {input output : List Byte}

theorem inflate_deflateAll {windowBits : Int} (hz : Inverts inflate z) (hinput : input.length < 2 ^ 32)
    (h : deflateAll z windowBits input = some output) : inflate windowBits output = some input := by
  have htake : input.take (uInt input.length) = input := by
    rw [uInt, Nat.mod_eq_of_lt hinput, List.take_length]
  unfold deflateAll at h
  split at h
  · cases h
  · split at h
    · cases h
    · rw [htake] at h
      exact hz _ _ _ _ h

theorem length_newInput (blocks : Bytes) : (newInput blocks).length = 4 + blocks.val.length := by
  rw [newInput, List.length_append]
  rfl

theorem inflate_compress (henv : Compresses inflate env) {blocks : Bytes}
    (h : compress session env blocks = some output) :
    inflate (levelBits session) output = some (levelInput session blocks) := by
  have hlength := blocks.property
  unfold compress at h
  unfold levelBits levelInput
  split at h
  · rename_i hfast
    obtain ⟨z, hz, hdeflate⟩ := henv.deflate blocks output h
    rw [if_pos hfast, if_pos hfast]
    exact inflate_deflateAll hz (by omega) hdeflate
  · rename_i hfast
    obtain ⟨z, hz, hgzip⟩ := henv.gzip blocks output h
    rw [if_neg hfast, if_neg hfast]
    unfold tcGzipByteArray at hgzip
    split at hgzip
    · cases hgzip
    · refine inflate_deflateAll hz ?_ hgzip
      rw [length_newInput]
      omega

end Arrays

/-- The task that compresses the map and schedules the next one. -/
theorem ready_of_loaded {c : Setup} {n : Int} {preLoadedMap : Bool} {currentPriority : Option Priority}
    {env₀ : Env} {shutdown : Bool} {t₀ t₁ : Chain} {ls₀ : List Label}
    (hcall : tcApiScheduleSendMap c preLoadedMap currentPriority env (Chain.idle session shutdown n) = some s)
    (hrun₀ : run (chainStep c) s ls₀ = some t₀) (hload : t₀.task.map Queued.func = some .onMapLoadSuccess)
    (hstep : chainStep c t₀ (.run env₀) = some t₁) (hready : t₁.task.map Queued.func = some .tcSendMapTask2) :
    ∃ a, ∃ b : Buffers c, Compressed env₀ t₀.session b ∧ t₁ = (Stage.ready b).chain a n := by
  obtain ⟨st, -, hs⟩ := scheduled_stage (a := ⟨session, shutdown⟩) env hcall
  obtain ⟨a, st₀, rfl⟩ := run_inv stage_step ⟨_, st, hs⟩ hrun₀
  cases st₀ with
  | loaded =>
    rcases onMapLoadSuccess_ends env₀ (Option.some.inj hstep).symm with rfl | ⟨b, hb, ht₁⟩
    · cases hready
    · exact ⟨a, b, hb, ht₁⟩
  | _ => cases hload

/-! ## The level arrives -/

/-- What has been sent of a level up to `u`: `log` are the turns, `t₀` is the chain
before its arrays are compressed and `t₁` after it. -/
structure Intact (inflate : Int → List Byte → Option (List Byte)) (c : Setup) (t₀ t₁ u : Chain) (log : List Turn)
    (low high : List (List Byte)) : Prop where
  data : LevelData c.map low high log
  sizes : ∀ part ∈ low ++ high, 1 ≤ part.length ∧ part.length ≤ 1024
  buffers : t₁.sendMapData = some {
    map := some c.map
    blockArrayBuffer := some low.flatten
    blockArray2Buffer := c.map.blocks.blockArray2.map fun _ => high.flatten }
  main : inflate (levelBits t₀.session) low.flatten = some (levelInput t₀.session c.map.blocks.blockArray)
  second : ∀ blockArray2, c.map.blocks.blockArray2 = some blockArray2 →
    inflate (levelBits t₀.session) high.flatten = some (levelInput t₀.session blockArray2)
  noSecond : c.map.blocks.blockArray2 = none → high = []
  ended : Ended u ↔ log.length = (low ++ high).length
  goesOn : ¬Ended u → (u.task.map Queued.func = some .tcSendMapTask2 → u.session.actionLock = false) →
    ∀ env, ∃ u', chainStep c u (.run env) = some u'

variable {log : List Turn}

section Arrives

variable {c : Setup} {n : Int} {inflate : Int → List Byte → Option (List Byte)} {b : Buffers c}

theorem not_ended_sending {k : Nat} (h : Sending b n k s) : ¬Ended s := by
  obtain ⟨a, i, main, bytes, hsome, -, -, rfl⟩ := h
  exact fun hended => by cases hended.1

theorem ended_iff_of_progress {u : Chain} (hmain : b.main ≠ []) (h : Progress b n log u) :
    Ended u ↔ log.length = b.parts.length := by
  obtain ⟨-, ⟨rfl, a, -, rfl⟩ | hsending | ⟨hall, hended⟩⟩ := h
  · refine iff_of_false (fun hended => by cases hended.1) fun hall => ?_
    have hpos : 0 < numChunks b.main := lt_numChunks.mpr (List.length_pos_iff.mpr hmain)
    rw [Buffers.parts, List.length_append, length_pieces, List.length_nil] at hall
    omega
  · refine iff_of_false (not_ended_sending hsending) ?_
    obtain ⟨a, i, main, bytes, hsome, hat, -, -⟩ := hsending
    exact Nat.ne_of_lt hat.lt_length
  · exact iff_of_true hended hall

theorem goesOn_of_progress {u : Chain} (h : Progress b n log u) (hu : ¬Ended u)
    (hlock : u.task.map Queued.func = some .tcSendMapTask2 → u.session.actionLock = false) (env : Env) :
    ∃ u', chainStep c u (.run env) = some u' := by
  obtain ⟨-, ⟨-, a, -, rfl⟩ | ⟨a, i, main, bytes, hsome, -, -, rfl⟩ | ⟨-, hended⟩⟩ := h
  · have hfree : a.session.actionLock = false := hlock rfl
    rw [chainStep_ready, hfree]
    exact ⟨_, rfl⟩
  · exact ⟨_, rfl⟩
  · exact absurd hended hu

theorem Compressed.high_ne_nil (henv : Compresses inflate env) (hinflate : ∀ bits, inflate bits [] = none)
    (hb : Compressed env session b) (bytes : List Byte) (hbytes : b.high = some bytes) : bytes ≠ [] := by
  obtain ⟨blockArray2, hblocks⟩ := Option.isSome_iff_exists.mp (b.high_isSome.symm.trans (by rw [hbytes]; rfl))
  have hread := inflate_compress henv ((hb.high blockArray2 hblocks).trans hbytes)
  rintro rfl
  rw [hinflate] at hread
  cases hread

theorem Compressed.main_ne_nil (henv : Compresses inflate env) (hinflate : ∀ bits, inflate bits [] = none)
    (hb : Compressed env session b) : b.main ≠ [] := by
  have hread := inflate_compress henv hb.main
  intro hmain
  rw [hmain, hinflate] at hread
  cases hread

theorem intact_of_progress (henv : Compresses inflate env) {t₀ u : Chain} {a : Around} (hmain : b.main ≠ [])
    (hb : Compressed env t₀.session b) (h : Progress b n log u) :
    Intact inflate c t₀ ((Stage.ready b).chain a n) u log (pieces b.main) (b.high.elim [] pieces) := by
  have hhigh : b.high = c.map.blocks.blockArray2.map fun _ => (b.high.elim [] pieces).flatten := by
    cases hhigh : b.high with
    | none =>
      have hnone := b.high_isSome
      rw [hhigh, Option.isSome_none, eq_comm, Option.isSome_eq_false_iff, Option.isNone_iff_eq_none] at hnone
      rw [hnone]
      rfl
    | some bytes =>
      obtain ⟨blockArray2, hsome⟩ := Option.isSome_iff_exists.mp (b.high_isSome.symm.trans (by rw [hhigh]; rfl))
      rw [hsome]
      simp
  refine ⟨h.1, fun part hpart => ?_, ?_, ?_, fun blockArray2 hsome => ?_, fun hnone => ?_, ended_iff_of_progress hmain h,
    goesOn_of_progress h⟩
  · rcases List.mem_append.mp hpart with hpart | hpart
    · exact length_of_mem_pieces hpart
    · cases hh : b.high with
      | none => simp [hh] at hpart
      | some bytes =>
        rw [hh] at hpart
        exact length_of_mem_pieces hpart
  · rw [flatten_pieces, ← hhigh]
    rfl
  · rw [flatten_pieces]
    exact inflate_compress henv hb.main
  · rw [hsome] at hhigh
    exact inflate_compress henv ((hb.high blockArray2 hsome).trans hhigh)
  · rw [hnone] at hhigh
    rw [hhigh]
    rfl

/-- A chain whose arrays were compressed, with a pool that is not stopped, a level that
can be announced and a client that stays connected, sends each piece of the arrays and
then the end of the level, and ends when it has done so. -/
theorem level_data_intact {preLoadedMap : Bool} {currentPriority : Option Priority} {env env₀ : Env}
    {session : Session} {shutdown : Bool} {s t₀ t₁ u : Chain} {ls₀ ls : List Label}
    (hinflate : ∀ bits, inflate bits [] = none) (henv : Compresses inflate env₀)
    (hcall : tcApiScheduleSendMap c preLoadedMap currentPriority env (Chain.idle session shutdown n) = some s)
    (hrun₀ : run (chainStep c) s ls₀ = some t₀) (hload : t₀.task.map Queued.func = some .onMapLoadSuccess)
    (hstep : chainStep c t₀ (.run env₀) = some t₁) (hready : t₁.task.map Queued.func = some .tcSendMapTask2)
    (hpool : t₁.shutdown = false) (hsmooth : Along (chainStep c) (Smooth c) t₁ ls)
    (hrun : run (chainStep c) t₁ ls = some u) :
    ∃ low high, Intact inflate c t₀ t₁ u (collect (chainStep c) turns t₁ ls) low high := by
  obtain ⟨a, b, hb, rfl⟩ := ready_of_loaded hcall hrun₀ hload hstep hready
  have hmain := hb.main_ne_nil henv hinflate
  have hbegin : Progress b n [] ((Stage.ready b).chain a n) :=
    ⟨⟨Nat.zero_le _, fun k turn part h => by cases h⟩, .inl ⟨rfl, a, hpool, rfl⟩⟩
  have hstep' (log : Unit → List Turn) (s : Chain) (l : Label) (s' : Chain) (hl : Smooth c s l)
      (hs : Progress b n (log ()) s) (h : chainStep c s l = some s') : Progress b n (log () ++ turns s l s') s' :=
    progress_step hmain (hb.high_ne_nil henv hinflate) hl hs h
  have hprogress : Progress b n ([] ++ collect (chainStep c) turns _ ls) u :=
    @run_collect _ _ _ Unit Turn (fun _ => turns) (Smooth c) (fun log => Progress b n (log ())) hstep' (fun _ => []) _ _ _
      hsmooth hbegin hrun
  exact ⟨_, _, intact_of_progress henv hmain hb hprogress⟩

/-- A client that accepts everything stays connected. -/
theorem stays_of_accepts (h : s.session.clientSocket.Accepts) (l : Label) : Stays c s l := by
  cases l with
  | run env =>
    intro s' _ k _ _
    have haccepted := h k
    revert haccepted
    cases s.session.clientSocket.outcomes k <;> simp [Outcome.Accepted, Outcome.Connected]
  | _ => trivial

/-- The level comes to its end if the client accepts everything. -/
theorem sending_ends (env : Env) (hne : ∀ bytes', b.high = some bytes' → bytes' ≠ []) {k : Nat}
    (hs : Sending b n k s) (haccepts : s.session.clientSocket.Accepts) :
    ∃ ls u, run (chainStep c) s ls = some u ∧ Along (chainStep c) (Smooth c) s ls ∧ Ended u := by
  -- by induction on the pieces that are left
  induction hleft : b.parts.length - k generalizing k s with
  | zero =>
    obtain ⟨a, i, main, bytes, h, hat, -, -⟩ := hs
    have hlt := hat.lt_length
    omega
  | succ left ih =>
    obtain ⟨a, i, main, bytes, h, hat, hshutdown, rfl⟩ := hs
    obtain ⟨s', hstep⟩ : ∃ s', chainStep c ((Stage.sending b (1024 * i) main h).chain a n) (.run env) = some s' := ⟨_, rfl⟩
    have hsmooth : Smooth c ((Stage.sending b (1024 * i) main h).chain a n) (.run env) := by
      refine ⟨stays_of_accepts haccepts _, Label.noConfusion, fun _ _ htask => ?_⟩
      cases htask
    obtain ⟨hsent, hnext⟩ := chunk_step hat hne hshutdown h hstep (hsmooth.1 s' hstep)
    have haccepts' : s'.session.clientSocket.Accepts := by
      intro j
      rw [(later_of_sends hsent).1]
      exact haccepts j
    rcases hnext with hnext | ⟨-, hended⟩
    · obtain ⟨ls, u, hrun, halong, hended⟩ := ih hnext haccepts' (by omega)
      exact ⟨.run env :: ls, u, run_cons.mpr ⟨s', hstep, hrun⟩, along_cons hsmooth hstep halong, hended⟩
    · exact ⟨[.run env], s', run_cons.mpr ⟨s', hstep, rfl⟩, along_cons hsmooth hstep trivial, hended⟩

end Arrives

/-! ## One level -/

/-- Blocks that do not become fewer bytes. -/
@[irreducible]
def noise : List Byte := (List.range 1024).map fun i => BitVec.ofNat 8 (i ^ 3 / 256)

theorem length_noise : noise.length = 1024 := by
  unfold noise
  rw [List.length_map]
  exact List.length_range

theorem noise_lt : noise.length < 2 ^ 31 := by
  rw [length_noise]
  decide

def noiseBytes : Bytes := ⟨noise, noise_lt⟩

theorem noise_dimensions : BitVec.ofNat 64 noiseBytes.val.length = volume 32 1 32 := by
  rw [noiseBytes, length_noise]
  decide

theorem noise_nonempty : noiseBytes.val ≠ [] := by
  rw [← List.length_pos_iff, noiseBytes, length_noise]
  decide

theorem noise_enough2 : ∀ b ∈ (none : Option Bytes), noiseBytes.val.length ≤ b.val.length * 4 := by simp

def noisyMap : TcMap :=
  { plainMap with
    xSize := 32
    ySize := 1
    zSize := 32
    envAppearanceExtension := none
    blocks := {
      blockArray := noiseBytes
      blockArray2 := none
      dimensions := noise_dimensions
      nonempty := noise_nonempty
      enough2 := noise_enough2
      nonempty2 := nonempty_of_none } }

def toField : Setup := sending noisyMap

/-- The last block of a raw stream, stored as it is. -/
def storedBlock (input : List Byte) : List Byte :=
  let length := BitVec.ofNat 16 input.length
  [1, length.extractLsb' 0 8, length.extractLsb' 8 8, (~~~length).extractLsb' 0 8, (~~~length).extractLsb' 8 8] ++ input

theorem length_storedBlock (input : List Byte) : (storedBlock input).length = input.length + 5 := by
  simp [storedBlock]

/-- A zlib that stores its input, if it is not too long for one block. -/
def storing : Zlib where
  mallocInput := true
  mallocOutput := true
  deflateInit2 _ := true
  compressBound := compressBound
  deflate windowBits input availOut :=
    if windowBits = rawBits ∧ input.length < 2 ^ 16 ∧ input.length + 5 ≤ availOut then some (storedBlock input) else none

def unstored (windowBits : Int) (output : List Byte) : Option (List Byte) :=
  if windowBits = rawBits ∧ 5 ≤ output.length then some (output.drop 5) else none

theorem unstored_nil (windowBits : Int) : unstored windowBits [] = none := if_neg fun h => absurd h.2 (by decide)

def stores : Env := { lucky with deflate := tcDeflateByteArray storing, gzip := tcGzipByteArray storing }

theorem compresses_stores : Compresses unstored stores := by
  have hinverts : Inverts unstored storing := by
    intro windowBits input availOut output h
    simp only [storing] at h
    split at h
    · rename_i hbits
      obtain rfl := Option.some.inj h
      rw [unstored, if_pos ⟨hbits.1, by rw [length_storedBlock]; omega⟩]
      rfl
    · cases h
  exact ⟨fun _ _ h => ⟨storing, hinverts, h⟩, fun _ _ h => ⟨storing, hinverts, h⟩⟩

theorem compress_noise : compress quiet.session stores noiseBytes = some (storedBlock noise) := by
  have hfast : supports quiet.session fastMap = true := by decide
  have htake : noise.take (uInt noise.length) = noise := List.take_of_length_le (by rw [length_noise]; decide)
  have hroom : rawBits = rawBits ∧ noise.length < 2 ^ 16 ∧ noise.length + 5 ≤ uInt (compressBound noise.length) := by
    rw [length_noise]
    decide
  have hdeflate : tcDeflateByteArray storing noiseBytes =
    storing.deflate rawBits (noise.take (uInt noise.length)) (uInt (compressBound noise.length)) := rfl
  rw [compress, if_pos hfast]
  refine hdeflate.trans ?_
  rw [htake]
  exact if_pos hroom

/-- The map, stored. -/
def stored : Buffers toField := { main := storedBlock noise, high := none, high_isSome := rfl }

theorem length_stored : stored.main.length = 1029 := by
  rw [stored, length_storedBlock, length_noise]

theorem field_loaded : run (chainStep toField) ((Stage.waiting : Stage toField).chain quiet 0) [.answer true lucky] =
    some ((Stage.loaded : Stage toField).chain quiet 0) := rfl

theorem field_compressed : chainStep toField ((Stage.loaded : Stage toField).chain quiet 0) (.run stores) =
    some ((Stage.ready stored).chain quiet 0) := loaded_step stores compress_noise rfl rfl rfl

theorem quiet_accepts : quiet.session.clientSocket.Accepts := fun _ => trivial

theorem equipped_noisyMap : Equipped fastSession noisyMap where
  aspect h := by cases h
  appearance _ _ h := by cases h
  weather h := by cases h
  colors h := by cases h
  definitions h := by cases h

theorem sendable_noisyMap : Sendable fastSession noisyMap stored.main where
  size _ := by
    rw [length_stored]
    decide
  texture h := by cases h
  version _ _ h := by cases h
  colors _ _ h := by cases h

theorem announceable_field : Announceable toField ((Stage.ready stored).chain quiet 0) stores where
  client := rfl
  has := equipped_noisyMap
  ok d bytes hd hbytes := by
    cases hd
    cases hbytes
    exact sendable_noisyMap
  alloc := rfl
  sent _ _ k _ _ := quiet_accepts k

/-- The level is announced to a client that accepts everything. -/
theorem field_announced : ∃ session : Session, session.clientSocket.Accepts ∧
    chainStep toField ((Stage.ready stored).chain quiet 0) (.run stores) =
      some ((Stage.sending stored 0 true rfl).chain { quiet with session } 0) := by
  obtain ⟨s, hstep⟩ : ∃ s, chainStep toField ((Stage.ready stored).chain quiet 0) (.run stores) = some s := ⟨_, rfl⟩
  obtain ⟨session, hlater, rfl⟩ := ready_run rfl announceable_field hstep
  refine ⟨session, fun k => ?_, hstep⟩
  rw [hlater.1]
  exact quiet_accepts k

theorem level_data_intact_field :
    ∃ s t₀ t₁ u ls low high, tcApiScheduleSendMap toField false none lucky (Chain.idle fastSession false 0) = some s ∧
      run (chainStep toField) s [.answer true lucky] = some t₀ ∧ chainStep toField t₀ (.run stores) = some t₁ ∧
      run (chainStep toField) t₁ ls = some u ∧ Ended u ∧ low.flatten = storedBlock noise ∧ high = [] ∧
      Intact unstored toField t₀ t₁ u (collect (chainStep toField) turns t₁ ls) low high := by
  have hcall : tcApiScheduleSendMap toField false none lucky (Chain.idle fastSession false 0) =
    some ((Stage.waiting : Stage toField).chain quiet 0) := rfl
  obtain ⟨session, haccepts, hannounce⟩ := field_announced
  have hat : At stored 0 0 true stored.main := ⟨rfl, by rw [length_stored]; decide, rfl⟩
  have hsending : Sending stored 0 0 ((Stage.sending stored 0 true rfl).chain { quiet with session } 0) :=
    ⟨{ quiet with session }, 0, true, stored.main, rfl, hat, rfl, rfl⟩
  obtain ⟨ls, u, hrun, halong, hended⟩ := sending_ends stores (fun _ h => by cases h) hsending haccepts
  have hopen : Smooth toField ((Stage.ready stored).chain quiet 0) (.run stores) := by
    refine ⟨stays_of_accepts quiet_accepts _, Label.noConfusion, fun env henv _ => ?_⟩
    cases henv
    exact announceable_field
  have hrun' := run_cons.mpr ⟨_, hannounce, hrun⟩
  obtain ⟨low, high, hintact⟩ := level_data_intact unstored_nil compresses_stores hcall field_loaded rfl
    field_compressed rfl rfl (along_cons hopen hannounce halong) hrun'
  have hlow : some (storedBlock noise) = some low.flatten :=
    congrArg SendMapData.blockArrayBuffer (Option.some.inj hintact.buffers)
  exact ⟨_, _, _, u, _, low, high, hcall, field_loaded, field_compressed, hrun', hended,
    (Option.some.inj hlow).symm, hintact.noSecond rfl, hintact⟩

/-- The pool is stopped before the first of two chunks is sent: every packet is
sent, the client stays, and the level has no end. -/
theorem level_without_end :
    ∃ s t u chunk turn, Compresses unstored stores ∧
      tcApiScheduleSendMap toField false none lucky (Chain.idle fastSession false 0) = some s ∧
      run (chainStep toField) s [.answer true lucky, .run stores] = some t ∧
      t.task.map Queued.func = some .tcSendMapTask2 ∧
      Along (chainStep toField) (Stays toField) t [.run stores, .stop, .run stores, .run stores] ∧
      run (chainStep toField) t [.run stores, .stop, .run stores, .run stores] = some u ∧ Ended u ∧
      u.succeeded = 0 ∧ u.failed = 1 ∧
      collect (chainStep toField) turns t [.run stores, .stop, .run stores, .run stores] = [turn] ∧
      IsChunk (supports turn.before extendedBlocks) 0 (piece (storedBlock noise) 0) chunk ∧
      Sends [chunk] turn.before.clientSocket turn.after.clientSocket ∧ numChunks (storedBlock noise) = 2 := by
  obtain ⟨session, haccepts, hannounce⟩ := field_announced
  let stopped : Around := { session, shutdown := true }
  have hstop : chainStep toField ((Stage.sending stored 0 true rfl).chain { quiet with session } 0) .stop =
    some ((Stage.sending stored 0 true rfl).chain stopped 0) := rfl
  -- the chunk is sent, and the failure task comes next
  obtain ⟨hsent, haccepts'⟩ := sendAll_of_accepts (Packet.chunks (chunkPacket stores session stored.main 0 true)) haccepts
  have hsend := send_eq_sendAll (chunkPacket stores session stored.main 0 true) rfl session.clientSocket
  rw [hsent] at hsend
  generalize (sendAll (Packet.chunks (chunkPacket stores session stored.main 0 true)) session.clientSocket).2 = socket
    at hsend haccepts'
  have hchunk : chainStep toField ((Stage.sending stored 0 true rfl).chain stopped 0) (.run stores) =
      some ((Stage.cancelled stored).chain (stopped.withSocket socket) 0) := by
    have hselected : stored.selected true = some stored.main := rfl
    have htask := tcSendBufferTask_run (a := stopped) (n := 0) stores stored hselected hsend
    refine congrArg some ((congrArg Prod.snd htask).trans ?_)
    rw [if_neg (by simp), if_pos (by rw [length_stored]; decide)]
    rfl
  have hfail : chainStep toField ((Stage.cancelled stored).chain (stopped.withSocket socket) 0) (.run stores) =
      some ((Stage.failed : Stage toField).chain ((stopped.withSocket socket).unlock true) 0) :=
    congrArg some (congrArg Prod.snd (tcSendBufferHandleFailure_sending stores stored))
  refine ⟨(Stage.waiting : Stage toField).chain quiet 0, (Stage.ready stored).chain quiet 0, _,
    chunkPacket stores session stored.main (1024 * 0) true, ⟨session, (stopped.withSocket socket).session⟩,
    compresses_stores, rfl, run_append.mpr ⟨_, field_loaded, run_cons.mpr ⟨_, field_compressed, rfl⟩⟩, rfl, ?_,
    run_cons.mpr ⟨_, hannounce, run_cons.mpr ⟨_, hstop, run_cons.mpr ⟨_, hchunk, run_cons.mpr ⟨_, hfail, rfl⟩⟩⟩⟩,
    ⟨rfl, rfl⟩, rfl, rfl, ?_, ?_, .cons hsend (.nil socket), ?_⟩
  · refine along_cons (stays_of_accepts quiet_accepts _) hannounce (along_cons trivial hstop ?_)
    refine along_cons (stays_of_accepts haccepts _) hchunk ?_
    exact ⟨stays_of_accepts haccepts' _, fun _ _ => trivial⟩
  · rw [collect_cons hannounce, collect_cons hstop, collect_cons hchunk, collect_cons hfail]
    rfl
  · exact isChunk_chunkPacket stores session true (by rw [length_storedBlock, length_noise]; decide)
  · rw [numChunks, length_storedBlock, length_noise]

end TC.Proof.SendMap
