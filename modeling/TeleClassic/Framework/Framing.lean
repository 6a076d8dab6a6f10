/-!
# Packets in a stream

A stream of symbols is a sequence of packets: a symbol that says what the packet
is, and a payload whose length depends on that symbol and on what the packets
before have said (`Format`). A receiver takes the stream in pieces of any size.
The packets it completes are those of the whole stream (`feed_append`), and
together with the packet it is in they are the stream (`feed_bytes`); so what
was sent as packets is received as these packets (`feed_proper`).
-/

namespace TC

/-- How long a payload is, and what is learnt from a packet. -/
structure Format (σ α : Type) where
  size : σ → α → Nat
  learn : σ → α × List α → σ

/-- What was learnt so far, and the packet that is not complete. -/
structure Receiver (σ α : Type) where
  state : σ
  pending : Option (α × List α)

variable {σ α : Type}

/-- The symbols of a packet. -/
def packetBytes (packet : α × List α) : List α := packet.1 :: packet.2

/-- The symbols that do not make a packet yet. -/
def Receiver.bytes (r : Receiver σ α) : List α := r.pending.elim [] packetBytes

namespace Format

variable (F : Format σ α)

/-- The receiver gets a symbol. -/
def push (r : Receiver σ α) (a : α) : Receiver σ α × List (α × List α) :=
  match r.pending with
  | none => (⟨r.state, some (a, [])⟩, [])
  | some (first, payload) =>
    if payload.length + 1 = F.size r.state first then
      (⟨F.learn r.state (first, payload ++ [a]), none⟩, [(first, payload ++ [a])])
    else (⟨r.state, some (first, payload ++ [a])⟩, [])

/-- The receiver gets a piece of the stream; also the packets that it completes. -/
def feed (r : Receiver σ α) : List α → Receiver σ α × List (α × List α)
  | [] => (r, [])
  | a :: piece =>
    let rest := feed (F.push r a).1 piece
    (rest.1, (F.push r a).2 ++ rest.2)

variable {F} {r : Receiver σ α} {first : α} {payload : List α}

/-- It does not matter where the stream is cut. -/
theorem feed_append (piece rest : List α) : F.feed r (piece ++ rest) =
    ((F.feed (F.feed r piece).1 rest).1, (F.feed r piece).2 ++ (F.feed (F.feed r piece).1 rest).2) := by
  induction piece generalizing r with
  | nil => rfl
  | cons a piece ih =>
    rw [List.cons_append, feed, ih, feed]
    simp only [List.append_assoc]

theorem feed_mono {stream stream' : List α} (h : stream <+: stream') :
    (F.feed r stream).2 <+: (F.feed r stream').2 := by
  obtain ⟨rest, rfl⟩ := h
  rw [feed_append]
  exact List.prefix_append _ _

/-- The first symbol of a packet. -/
theorem feed_first (hr : r.pending = none) (a : α) : F.feed r [a] = (⟨r.state, some (a, [])⟩, []) := by
  rw [feed, push, hr]
  rfl

/-- A piece that does not complete the payload. -/
theorem feed_part {piece : List α} (hr : r.pending = some (first, payload))
    (h : payload.length + piece.length < F.size r.state first) :
    F.feed r piece = (⟨r.state, some (first, payload ++ piece)⟩, []) := by
  induction piece generalizing r payload with
  | nil =>
    rw [feed, List.append_nil, ← hr]
  | cons a piece ih =>
    rw [List.length_cons] at h
    have hpush : F.push r a = (⟨r.state, some (first, payload ++ [a])⟩, []) := by
      rw [push, hr]
      exact if_neg (by omega)
    have hfeed := ih (r := ⟨r.state, some (first, payload ++ [a])⟩) rfl (by simp; omega)
    rw [feed, hpush, hfeed, List.append_assoc, List.singleton_append]
    rfl

/-- A piece that completes the payload. -/
theorem feed_whole {piece : List α} (hr : r.pending = some (first, payload)) (hne : piece ≠ [])
    (h : payload.length + piece.length = F.size r.state first) :
    F.feed r piece =
      (⟨F.learn r.state (first, payload ++ piece), none⟩, [(first, payload ++ piece)]) := by
  obtain ⟨front, a, rfl⟩ := List.eq_nil_or_concat piece |>.resolve_left hne
  rw [List.concat_eq_append, List.length_append, List.length_singleton] at h
  have hlast : F.push ⟨r.state, some (first, payload ++ front)⟩ a =
      (⟨F.learn r.state (first, payload ++ front ++ [a]), none⟩, [(first, payload ++ front ++ [a])]) := by
    rw [push]
    exact if_pos (by simp; omega)
  rw [List.append_assoc] at hlast
  rw [List.concat_eq_append, feed_append, feed_part hr (by omega), feed, hlast]
  rfl

theorem push_bytes (a : α) : (F.push r a).2.flatMap packetBytes ++ (F.push r a).1.bytes = r.bytes ++ [a] := by
  rw [push, Receiver.bytes, Receiver.bytes]
  rcases r.pending with _ | ⟨first, payload⟩
  · rfl
  · dsimp only
    split
    · simp [packetBytes]
    · simp [packetBytes]

/-- Nothing of the stream is lost, and nothing is added. -/
theorem feed_bytes (piece : List α) :
    (F.feed r piece).2.flatMap packetBytes ++ (F.feed r piece).1.bytes = r.bytes ++ piece := by
  induction piece generalizing r with
  | nil => simp [feed]
  | cons a piece ih =>
    rw [feed, List.flatMap_append, List.append_assoc, ih, ← List.append_assoc, push_bytes, List.append_assoc,
      List.singleton_append]

/-- Packets with payloads of the right length. -/
def Proper (F : Format σ α) : σ → List (α × List α) → Prop
  | _, [] => True
  | state, packet :: packets =>
    packet.2 ≠ [] ∧ packet.2.length = F.size state packet.1 ∧ Proper F (F.learn state packet) packets

/-- A stream of proper packets is received as these packets. -/
theorem feed_proper {state : σ} {packets : List (α × List α)} (h : F.Proper state packets) :
    F.feed ⟨state, none⟩ (packets.flatMap packetBytes) = (⟨packets.foldl F.learn state, none⟩, packets) := by
  induction packets generalizing state with
  | nil => rfl
  | cons packet packets ih =>
    obtain ⟨hne, hlength, hrest⟩ := h
    have hfirst : F.feed ⟨state, none⟩ [packet.1] = (⟨state, some (packet.1, [])⟩, []) := feed_first rfl packet.1
    have hsize : ([] : List α).length + packet.2.length = F.size state packet.1 := by simpa using hlength
    have hpending : (⟨state, some (packet.1, [])⟩ : Receiver σ α).pending = some (packet.1, []) := rfl
    have hwhole := feed_whole hpending hne hsize
    rw [List.nil_append] at hwhole
    have hpacket : F.feed ⟨state, none⟩ (packetBytes packet) = (⟨F.learn state packet, none⟩, [packet]) := by
      rw [packetBytes, ← List.singleton_append, feed_append, hfirst, hwhole]
      rfl
    rw [List.flatMap_cons, feed_append, hpacket, ih hrest]
    rfl

end Format

end TC
