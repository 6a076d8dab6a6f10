import TeleClassic.Proof.Server.Handshake

/-!
# The assertions of the server

Three handlers of the negotiation assert that their session supports it, and
the dispatch of a packet does not look at this. No assertion fails as long as
the packets of the negotiation are dispatched for sessions that were identified
with its support (`assertions_hold`); a client that sends one of them first
stops the server (`extinfo_first`).
-/

namespace TC.Proof.Server

open TC.Impl.Server TC.Impl.ThreadPool

/-- A packet of the negotiation is dispatched for a session without it. -/
def isPremature : Event → Bool
  | .dispatched _ _ handler false => assertsCpe handler
  | _ => false

def Negotiated (trace : List Event) : Prop := ∀ e ∈ trace, isPremature e = false

instance (trace : List Event) : Decidable (Negotiated trace) :=
  inferInstanceAs (Decidable (∀ e ∈ trace, isPremature e = false))

theorem Negotiated.mono {trace trace' : List Event} (h : Negotiated trace') (hsub : trace ⊆ trace') :
    Negotiated trace :=
  fun e he => h e (hsub he)

section

variable {trace : List Event} (ho : Ordered trace) (hn : Negotiated trace) {slot : Slot} {g : Int}

include ho hn

theorem identified_of_dispatched {handler : Func} (ha : assertsCpe handler = true) {cpe : Bool}
    (hd : .dispatched slot g handler cpe ∈ trace) : .identified slot g true ∈ trace := by
  cases cpe with
  | true => exact ho.precedes hd rfl
  | false => exact absurd ha (Bool.eq_false_iff.mp (hn _ hd))

/-- A task that asserts the support of the negotiation comes after an
identification with it. -/
theorem identified_of_cause {f : Func} (ha : assertsCpe f = true) (hc : Cause trace slot g f) :
    .identified slot g true ∈ trace := by
  cases f with
  | handleBeginCpeNegotiation => exact hc
  | handleCpeExtinfo | handleCpeExtentry | handleCpeCustomBlockSupportLevel =>
    obtain ⟨cpe, hd⟩ := hc
    exact identified_of_dispatched ho hn ha hd
  | _ => cases ha

end

/-- No assertion has failed if the negotiations were in order. -/
structure Asserted (w : World) : Prop where
  identity : Identity w
  holds : Negotiated w.trace → w.halted ≠ some .assertFailed

theorem Asserted.effect {w w' : World} (he : Effect w w') (hs : Sound w) (h : Asserted w) : Asserted w' := by
  refine ⟨h.identity.effect he, fun hn => ?_⟩
  have hholds := h.holds (hn.mono (trace_subset he))
  cases he with
  | crash failure access => exact fun hf => access (Option.some.inj hf)
  | assertFails slot f asserts live cause cpe =>
    have hidentified := identified_of_cause h.identity.ordered hn asserts cause
    have hcpe := ((h.identity.consistent slot).cpe live).mpr hidentified
    rw [cpe] at hcpe
    cases hcpe
  | poolFails failed =>
    rw [hs.reserve.ok] at failed
    cases failed
  | _ => exact hholds

section

variable {config : Config} {numThreads maxBlockingThreads : Nat}
  {tasks : Priority → Nat → Context Func Arg} {sessions : Slot → Session}

theorem asserted_start : Asserted (start config numThreads maxBlockingThreads tasks sessions) :=
  ⟨identity_start, fun _ hf => nomatch hf⟩

/-- No assertion fails if every packet of the negotiation is dispatched for a
session that supports it. -/
theorem assertions_hold {ls : List Label} {w : World}
    (h : run Impl.Server.step (start config numThreads maxBlockingThreads tasks sessions) ls = some w)
    (hn : Negotiated w.trace) : w.halted ≠ some .assertFailed := by
  obtain ⟨-, hw⟩ := run_inv_of_effect (fun w w' he hs => Asserted.effect he hs) asserted_start h
  exact hw.holds hn

end

/-- A client goes through the negotiation, with all the handlers that assert. -/
theorem assertions_hold_customBlocks : ∃ w,
    run Impl.Server.step (worldWithDefault "lobby") customBlocksClient = some w ∧
      (∀ handler ∈ [.handleCpeExtinfo, .handleCpeExtentry, .handleCpeCustomBlockSupportLevel],
        Event.dispatched first 0 handler true ∈ w.trace) ∧
      Negotiated w.trace ∧ w.halted ≠ some .assertFailed := by
  obtain ⟨w, hw, hdispatched, hn⟩ : ∃ w,
      run Impl.Server.step (worldWithDefault "lobby") customBlocksClient = some w ∧
      (∀ handler ∈ [Func.handleCpeExtinfo, .handleCpeExtentry, .handleCpeCustomBlockSupportLevel],
        Event.dispatched first 0 handler true ∈ w.trace) ∧
      Negotiated w.trace := exists_of_decide (by decide +kernel)
  exact ⟨w, hw, hdispatched, hn, assertions_hold hw hn⟩

/-- The first packet of a client is an ExtInfo packet. -/
theorem extinfo_first :
    (run Impl.Server.step oneWorld (visit 0x10 (List.replicate 66 0) 4)).map World.halted =
      some (some .assertFailed) := by
  decide +kernel

end TC.Proof.Server
