import TeleClassic.Proof.Server.Identity
import Mathlib.Data.Fintype.Card

/-!
# The number of players

`active_players` is raised at the end of a handshake and lowered when a session
with a service is disconnected. It is the number of live sessions that have
finished their handshake (`players`) as long as every session that is
disconnected after its validation has finished the handshake, and none
finishes it twice (`activePlayers_eq`). Neither is checked by the server:
a client that leaves during the negotiation takes a player with it
(`activePlayers_negative`).
-/

namespace TC.Proof.Server

open TC.Impl.Server TC.Impl.ThreadPool

variable {w : World} {slot : Slot}

/-- The session is live and has finished its handshake. -/
def IsPlayer (w : World) (slot : Slot) : Prop :=
  Live w slot ∧ .finished slot (generation w slot) ∈ w.trace

instance (w : World) (slot : Slot) : Decidable (IsPlayer w slot) :=
  inferInstanceAs (Decidable (_ ∈ w.trace ∧ _ ∈ w.trace))

def players (w : World) : Nat := (Finset.univ.filter fun slot => IsPlayer w slot).card

/-- A session leaves as a player if it was validated, and becomes one once. -/
def Settled (before : List Event) : Event → Prop
  | .finished slot g => .finished slot g ∉ before
  | .disconnected slot g => .validated slot g ∈ before → .finished slot g ∈ before
  | _ => True

instance (before : List Event) (e : Event) : Decidable (Settled before e) := by
  cases e <;> dsimp only [Settled] <;> infer_instance

abbrev Balanced (trace : List Event) : Prop := Causal Settled trace

/-! ## One slot at a time -/

section

variable {w' : World}

theorem players_congr (h : ∀ slot, IsPlayer w' slot ↔ IsPlayer w slot) : players w' = players w := by
  unfold players
  simp only [h]

theorem players_enter (slot : Slot) (hne : ∀ slot', slot' ≠ slot → (IsPlayer w' slot' ↔ IsPlayer w slot'))
    (h : ¬ IsPlayer w slot) (h' : IsPlayer w' slot) : players w' = players w + 1 := by
  have hinsert : (Finset.univ.filter fun s => IsPlayer w' s) =
      insert slot (Finset.univ.filter fun s => IsPlayer w s) := by
    ext slot'
    simp only [Finset.mem_insert, Finset.mem_filter, Finset.mem_univ, true_and]
    by_cases heq : slot' = slot
    · simp [heq, h']
    · simp [heq, hne slot' heq]
  unfold players
  rw [hinsert, Finset.card_insert_of_notMem (by simp [h])]

/-- Nothing has changed about who is a player. -/
theorem players_same (hg : generation w' = generation w)
    (ha : ∀ slot g, .accepted slot g ∈ w'.trace ↔ .accepted slot g ∈ w.trace)
    (hf : ∀ slot g, .finished slot g ∈ w'.trace ↔ .finished slot g ∈ w.trace) :
    players w' = players w := by
  refine players_congr fun slot => ?_
  rw [IsPlayer, IsPlayer, Live, Live, hg, ha, hf]

end

/-! ## Effects -/

theorem players_finish (live : Live w slot) (hf : .finished slot (generation w slot) ∉ w.trace) :
    players ({ w with activePlayers := w.activePlayers + 1 }.emit (.finished slot (generation w slot))) =
      players w + 1 := by
  refine players_enter slot (fun slot' hs => ?_) (fun hp => hf hp.2) ⟨?_, ?_⟩
  · show _ ∈ w.trace ++ [_] ∧ _ ∈ w.trace ++ [_] ↔ _ ∈ w.trace ∧ _ ∈ w.trace
    rw [mem_snoc_of_ne (by simp), mem_snoc_of_ne (by simp [hs])]
    rfl
  · exact List.mem_append_left _ live
  · exact List.mem_append_right _ List.mem_cons_self

section

variable (h : Identity w)

include h

/-- The slot of a new client is not counted, before it and after it. -/
theorem Identity.players_accept (clientSocket : Stream) (free : w.idBufferHead ≠ maxSessions) :
    players (admitted w clientSocket) = players w := by
  refine players_congr fun slot => ?_
  rw [IsPlayer, IsPlayer, Live, Live, generation_admitted, trace_admitted,
    mem_snoc_of_ne (x := Event.finished slot (generation w slot)) (by simp)]
  by_cases hs : slot = nextSlot w
  · have hnot : .finished slot (generation w slot) ∉ w.trace := by
      rw [hs]
      exact fun hf => h.not_validated_nextSlot free (h.ordered.precedes hf)
    simp [hnot]
  · rw [mem_snoc_of_ne (by simp [hs])]

/-- A player that is disconnected is counted no more. -/
theorem Identity.players_disconnect (live : Live w slot) :
    players w = players (disconnected w slot) +
      if .finished slot (generation w slot) ∈ w.trace then 1 else 0 := by
  have hgone : ¬ IsPlayer (disconnected w slot) slot :=
    fun hp => h.slots.not_live_disconnected slot hp.1
  have hne : ∀ slot', slot' ≠ slot → (IsPlayer w slot' ↔ IsPlayer (disconnected w slot) slot') := by
    intro slot' hs
    rw [IsPlayer, IsPlayer, live_disconnected hs, generation_disconnected, if_neg hs, trace_disconnected,
      mem_snoc_of_ne (by simp)]
  split
  · rename_i hf
    exact players_enter slot hne hgone ⟨live, hf⟩
  · rename_i hf
    refine players_congr fun slot' => ?_
    by_cases hs : slot' = slot
    · rw [hs]
      exact iff_of_false (fun hp => hf hp.2) hgone
    · exact hne slot' hs

end

/-- The number of players is right if the trace is balanced. -/
structure Counted (w : World) : Prop where
  identity : Identity w
  exact : Balanced w.trace → w.activePlayers = players w

/-- An effect that leaves the counter and the players as they are. -/
theorem Counted.same {w' : World} (h : Counted w) (hi : Identity w')
    (hc : w'.activePlayers = w.activePlayers) (hp : players w' = players w)
    (ht : Balanced w'.trace → Balanced w.trace) : Counted w' := by
  refine ⟨hi, fun hb => ?_⟩
  rw [hc, hp]
  exact h.exact (ht hb)

theorem Counted.finish (h : Counted w) (live : Live w slot)
    (hb : Balanced (w.trace ++ [.finished slot (generation w slot)])) :
    w.activePlayers + 1 =
      players ({ w with activePlayers := w.activePlayers + 1 }.emit (.finished slot (generation w slot))) := by
  obtain ⟨hb, hf⟩ := causal_snoc.mp hb
  rw [players_finish live hf, h.exact hb]
  rfl

theorem activePlayers_disconnected (w : World) (slot : Slot) : (disconnected w slot).activePlayers =
    if (w.sessionBuffer slot).authenticatedService.isSome then w.activePlayers - 1 else w.activePlayers := by
  show (if ((w.setSession slot _).sessionBuffer slot).authenticatedService.isSome then _ else _) = _
  rw [sessionBuffer_setSession]
  rfl

theorem Counted.disconnect (h : Counted w) (live : Live w slot) (hb : Balanced (disconnected w slot).trace) :
    (disconnected w slot).activePlayers = players (disconnected w slot) := by
  rw [trace_disconnected] at hb
  rw [activePlayers_disconnected]
  obtain ⟨hb, hsettled⟩ := causal_snoc.mp hb
  have hplayers := h.identity.players_disconnect live
  have hexact := h.exact hb
  have hservice := (h.identity.consistent slot).service live
  by_cases hv : .validated slot (generation w slot) ∈ w.trace
  · rw [if_pos (hsettled hv)] at hplayers
    rw [if_pos (hservice.mpr hv)]
    omega
  · have hf : .finished slot (generation w slot) ∉ w.trace := fun hf => hv (h.identity.ordered.precedes hf)
    rw [if_neg hf] at hplayers
    rw [if_neg (fun hs => hv (hservice.mp hs))]
    omega

theorem Counted.effect {w' : World} (he : Effect w w') (h : Counted w) : Counted w' := by
  have hi := h.identity.effect he
  cases he with
  | touch slot s same =>
    exact h.same hi rfl (players_same (generation_setSession_of_eq same.generation) (fun _ _ => .rfl)
      fun _ _ => .rfl) id
  | leave slot =>
    exact h.same hi rfl (players_same (generation_setSession_of_eq rfl) (fun _ _ => .rfl) fun _ _ => .rfl) id
  | note e noted =>
    refine h.same hi rfl (players_same rfl (fun _ _ => accepted_mem_append noted.notAccepted) fun _ _ => ?_)
      fun hb => (causal_snoc.mp hb).1
    refine mem_snoc_of_ne ?_
    rintro rfl
    exact noted
  | identify slot service cpe =>
    refine h.same hi rfl (players_same (generation_setSession_of_eq rfl) (fun _ _ => ?_) fun _ _ => ?_)
      fun hb => (causal_snoc.mp (causal_snoc.mp hb).1).1
    · exact (accepted_mem_append rfl).trans (accepted_mem_append rfl)
    · exact (mem_snoc_of_ne (by simp)).trans (mem_snoc_of_ne (by simp))
  | finish slot live => exact ⟨hi, h.finish live⟩
  | join slot joinable =>
    exact h.same hi rfl (players_same (generation_setSession_of_eq rfl) (fun _ _ => accepted_mem_append rfl)
      fun _ _ => mem_snoc_of_ne (by simp)) fun hb => (causal_snoc.mp hb).1
  | disconnect slot live => exact ⟨hi, h.disconnect live⟩
  | accept clientSocket free =>
    exact h.same hi rfl (h.identity.players_accept clientSocket free) fun hb => (causal_snoc.mp hb).1
  | _ => exact h.same hi rfl (players_same rfl (fun _ _ => .rfl) fun _ _ => .rfl) id

section

variable {config : Config} {numThreads maxBlockingThreads : Nat}
  {tasks : Priority → Nat → Context Func Arg} {sessions : Slot → Session}

theorem counted_start : Counted (start config numThreads maxBlockingThreads tasks sessions) := by
  refine ⟨identity_start, fun _ => ?_⟩
  have hnone : ∀ slot, ¬ IsPlayer (start config numThreads maxBlockingThreads tasks sessions) slot :=
    fun slot hp => List.not_mem_nil hp.1
  have hzero : players (start config numThreads maxBlockingThreads tasks sessions) = 0 := by
    simp [players, hnone]
  rw [hzero]
  rfl

/-- If no session is disconnected between its validation and the end of its
handshake, and none finishes the handshake twice, `active_players` is the
number of live sessions that have finished it. -/
theorem activePlayers_eq {ls : List Label} {w : World}
    (h : run Impl.Server.step (start config numThreads maxBlockingThreads tasks sessions) ls = some w)
    (hb : Balanced w.trace) : w.activePlayers = players w ∧ 0 ≤ w.activePlayers := by
  obtain ⟨-, hw⟩ := run_inv_of_effect (fun w w' he _ => Counted.effect he) counted_start h
  have hexact := hw.exact hb
  omega

end

/-- A client without extensions is one player. -/
theorem activePlayers_eq_one : ∃ w, run Impl.Server.step oneWorld (visit 0x00 (identification 0) 4) = some w ∧
    w.activePlayers = 1 ∧ Balanced w.trace ∧ w.activePlayers = players w := by
  have hrun : (run Impl.Server.step oneWorld (visit 0x00 (identification 0) 4)).map
      (fun w => (w.activePlayers, decide (Balanced w.trace))) = some (1, true) := by
    decide +kernel
  obtain ⟨w, hw, hobs⟩ := Option.map_eq_some_iff.mp hrun
  obtain ⟨hactive, hb⟩ := Prod.mk.inj hobs
  exact ⟨w, hw, hactive, of_decide_eq_true hb, (activePlayers_eq hw (of_decide_eq_true hb)).1⟩

/-- A client that is sent away during the negotiation is subtracted, though it
was never added. -/
theorem activePlayers_negative :
    (run Impl.Server.step oneWorld (visit 0x00 (identification 0x42) 6)).map
      (fun w => (w.activePlayers, players w)) = some (-1, 0) := by
  decide +kernel

end TC.Proof.Server
