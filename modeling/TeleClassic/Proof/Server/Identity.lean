import TeleClassic.Framework.History
import TeleClassic.Proof.Server.Steps

/-!
# Who a session is

What the fields of a session say about it is what has happened to it in its
generation: `authenticated_service` is set if and only if the session was
validated, `supports_cpe` if and only if it was identified as such, and a
joinable only after a join (`Consistent`). A slot is reused only in a new
generation, since the free ids are those of sessions that are not live
(`Slots`). With this, what only a validated session may do happens only after
the validation (`joins_authenticated`).
-/

namespace TC.Proof.Server

open TC.Impl.Server TC.Impl.ThreadPool TC.Proof.ThreadPool

variable {slot : Slot} {w : World} {trace : List Event} {e : Event} {s : Session}

/-! ## Slots -/

/-- The free ids are different, and none is that of a live session. -/
structure Slots (w : World) : Prop where
  past : ∀ slot g, .accepted slot g ∈ w.trace → g ≤ generation w slot
  head_le : w.idBufferHead ≤ maxSessions
  distinct : ∀ i j, w.idBufferHead ≤ i → i < maxSessions → w.idBufferHead ≤ j → j < maxSessions →
    w.idBuffer i = w.idBuffer j → i = j
  idle : ∀ i, w.idBufferHead ≤ i → i < maxSessions → ¬ Live w (w.idBuffer i)

theorem generation_setSession (w : World) (slot slot' : Slot) (s : Session) :
    generation (w.setSession slot s) slot' =
      if slot' = slot then s.currentGeneration else generation w slot' := by
  rw [generation]
  split
  · rename_i h
    rw [h, sessionBuffer_setSession]
  · rename_i h
    rw [sessionBuffer_setSession_of_ne w h, generation]

/-- A session changed within its generation. -/
theorem generation_setSession_of_eq (h : s.currentGeneration = generation w slot) :
    generation (w.setSession slot s) = generation w := by
  funext slot'
  rw [generation_setSession]
  split
  · rename_i hs
    rw [h, hs]
  · rfl

/-- The world after the session of a slot was disconnected. -/
def disconnected (w : World) (slot : Slot) : World :=
  ((w.setSession slot { w.sessionBuffer slot with
    currentGeneration := generation w slot + 1 }).release slot).emit
      (.disconnected slot (generation w slot))

/-- The slot of the next client. -/
def nextSlot (w : World) : Slot := w.idBuffer w.idBufferHead

/-- The world after a client was accepted. -/
def admitted (w : World) (clientSocket : Stream) : World :=
  ({ w with idBufferHead := w.idBufferHead + 1 }.setSession (nextSlot w)
    (newSession (w.sessionBuffer (nextSlot w)) clientSocket)).emit
      (.accepted (nextSlot w) (generation w (nextSlot w)))

theorem generation_disconnected (w : World) (slot slot' : Slot) : generation (disconnected w slot) slot' =
    if slot' = slot then generation w slot + 1 else generation w slot' :=
  generation_setSession w slot slot' _

theorem trace_disconnected (w : World) (slot : Slot) :
    (disconnected w slot).trace = w.trace ++ [.disconnected slot (generation w slot)] := rfl

theorem generation_admitted (w : World) (clientSocket : Stream) :
    generation (admitted w clientSocket) = generation w :=
  generation_setSession_of_eq (w := { w with idBufferHead := w.idBufferHead + 1 }) rfl

theorem trace_admitted (w : World) (clientSocket : Stream) :
    (admitted w clientSocket).trace = w.trace ++ [.accepted (nextSlot w) (generation w (nextSlot w))] := rfl

/-- An event that is not the acceptance of a client. -/
def notAccepted : Event → Bool
  | .accepted _ _ => false
  | _ => true

theorem accepted_mem_append (he : notAccepted e = true) {g : Int} :
    .accepted slot g ∈ trace ++ [e] ↔ .accepted slot g ∈ trace := by
  refine mem_snoc_of_ne ?_
  rintro rfl
  cases he

/-- Nothing but what is noted of other things is changed. -/
theorem Slots.congr {w' : World} (h : Slots w) (hg : generation w' = generation w)
    (ht : ∀ slot g, .accepted slot g ∈ w'.trace ↔ .accepted slot g ∈ w.trace)
    (hb : w'.idBuffer = w.idBuffer) (hh : w.idBufferHead ≤ w'.idBufferHead)
    (hle : w'.idBufferHead ≤ maxSessions) : Slots w' := by
  have hlive : ∀ slot, Live w' slot ↔ Live w slot := by
    intro slot
    rw [Live, Live, hg, ht]
  refine ⟨fun slot g ha => ?_, hle, fun i j hi hi' hj hj' hij => ?_, fun i hi hi' => ?_⟩
  · rw [hg]
    exact h.past slot g ((ht slot g).mp ha)
  · rw [hb] at hij
    exact h.distinct i j (by omega) hi' (by omega) hj' hij
  · rw [hb, hlive]
    exact h.idle i (by omega) hi'

theorem Noted.notAccepted (h : Noted w e) : notAccepted e = true := by
  cases e with
  | accepted => cases h
  | _ => rfl

/-- A slot that is disconnected is not live in its new generation. -/
theorem Slots.not_live_disconnected (h : Slots w) (slot : Slot) : ¬ Live (disconnected w slot) slot := by
  rw [Live, trace_disconnected, accepted_mem_append rfl, generation_disconnected, if_pos rfl]
  intro ha
  have := h.past slot _ ha
  omega

theorem live_disconnected {slot' : Slot} (hs : slot' ≠ slot) :
    Live (disconnected w slot) slot' ↔ Live w slot' := by
  rw [Live, Live, trace_disconnected, accepted_mem_append rfl, generation_disconnected, if_neg hs]

theorem Slots.disconnect (h : Slots w) (live : Live w slot) : Slots (disconnected w slot) := by
  have hb : ∀ i, (disconnected w slot).idBuffer i = if i = w.idBufferHead - 1 then slot else w.idBuffer i :=
    fun i => Function.update_apply ..
  have hh : (disconnected w slot).idBufferHead = w.idBufferHead - 1 := rfl
  have hle := h.head_le
  have hfree : ∀ i, w.idBufferHead ≤ i → i < maxSessions → w.idBuffer i ≠ slot :=
    fun i hi hi' he => h.idle i hi hi' (he ▸ live)
  refine ⟨fun slot' g ha => ?_, by omega, fun i j hi hi' hj hj' hij => ?_, fun i hi hi' => ?_⟩
  · rw [trace_disconnected, accepted_mem_append rfl] at ha
    have hpast := h.past slot' g ha
    rw [generation_disconnected]
    split
    · rename_i hs
      rw [hs] at hpast
      omega
    · exact hpast
  · rw [hb, hb] at hij
    split at hij <;> split at hij
    · omega
    · exact absurd hij.symm (hfree j (by omega) hj')
    · exact absurd hij (hfree i (by omega) hi')
    · exact h.distinct i j (by omega) hi' (by omega) hj' hij
  · rw [hb]
    split
    · exact h.not_live_disconnected slot
    · rw [live_disconnected (hfree i (by omega) hi')]
      exact h.idle i (by omega) hi'

theorem Slots.not_live_nextSlot (h : Slots w) (free : w.idBufferHead ≠ maxSessions) :
    ¬ Live w (nextSlot w) := by
  have := h.head_le
  exact h.idle _ (Int.le_refl _) (by omega)

theorem Slots.accept (h : Slots w) (clientSocket : Stream) (free : w.idBufferHead ≠ maxSessions) :
    Slots (admitted w clientSocket) := by
  have hb : (admitted w clientSocket).idBuffer = w.idBuffer := rfl
  have hh : (admitted w clientSocket).idBufferHead = w.idBufferHead + 1 := rfl
  have ht : ∀ slot g, .accepted slot g ∈ (admitted w clientSocket).trace ↔ .accepted slot g ∈ w.trace ∨
      slot = nextSlot w ∧ g = generation w (nextSlot w) := by
    intro slot g
    rw [trace_admitted, List.mem_append, List.mem_singleton, Event.accepted.injEq]
  have hle := h.head_le
  refine ⟨fun slot g ha => ?_, by omega, fun i j hi hi' hj hj' hij => ?_, fun i hi hi' => ?_⟩
  · rw [generation_admitted]
    rcases (ht slot g).mp ha with ha | ⟨rfl, rfl⟩
    · exact h.past slot g ha
    · exact Int.le_refl _
  · rw [hb] at hij
    exact h.distinct i j (by omega) hi' (by omega) hj' hij
  · rw [hb, Live, ht, generation_admitted, not_or]
    refine ⟨h.idle i (by omega) hi', fun hi'' => ?_⟩
    have := h.distinct i w.idBufferHead (by omega) hi' (by omega) (by omega) hi''.1
    omega

theorem Slots.effect {w' : World} (he : Effect w w') (h : Slots w) : Slots w' := by
  have hle := h.head_le
  cases he with
  | touch slot s same =>
    exact h.congr (generation_setSession_of_eq same.generation) (fun _ _ => .rfl) rfl (Int.le_refl _) hle
  | leave slot =>
    exact h.congr (generation_setSession_of_eq rfl) (fun _ _ => .rfl) rfl (Int.le_refl _) hle
  | note e noted =>
    exact h.congr rfl (fun _ _ => accepted_mem_append noted.notAccepted) rfl (Int.le_refl _) hle
  | identify slot service cpe =>
    refine h.congr (generation_setSession_of_eq rfl) (fun _ _ => ?_) rfl (Int.le_refl _) hle
    exact (accepted_mem_append rfl).trans (accepted_mem_append rfl)
  | finish slot => exact h.congr rfl (fun _ _ => accepted_mem_append rfl) rfl (Int.le_refl _) hle
  | join slot joinable =>
    exact h.congr (generation_setSession_of_eq rfl) (fun _ _ => accepted_mem_append rfl) rfl
      (Int.le_refl _) hle
  | disconnect slot live => exact h.disconnect live
  | accept clientSocket free => exact h.accept clientSocket free
  | leak free =>
    refine h.congr rfl (fun _ _ => .rfl) rfl ?_ ?_
    · show w.idBufferHead ≤ w.idBufferHead + 1
      omega
    · show w.idBufferHead + 1 ≤ maxSessions
      omega
  | _ => exact h.congr rfl (fun _ _ => .rfl) rfl (Int.le_refl _) hle

/-! ## Generations -/

def isDisconnection (slot : Slot) : Event → Bool
  | .disconnected s _ => s = slot
  | _ => false

/-- The disconnections of a slot. -/
def disconnections (slot : Slot) (trace : List Event) : Nat := trace.countP (isDisconnection slot)

theorem disconnections_append (he : isDisconnection slot e = false) :
    disconnections slot (trace ++ [e]) = disconnections slot trace := by
  rw [disconnections, List.countP_append, List.countP_cons_of_neg (by rw [he]; exact Bool.false_ne_true)]
  rfl

theorem disconnections_disconnected (w : World) (slot slot' : Slot) : disconnections slot' (disconnected w slot).trace =
    disconnections slot' w.trace + if slot' = slot then 1 else 0 := by
  rw [trace_disconnected, disconnections, List.countP_append]
  by_cases hs : slot' = slot
  · simp [disconnections, isDisconnection, hs]
  · simp [disconnections, isDisconnection, hs, Ne.symm hs]

theorem Noted.not_disconnection (h : Noted w e) (slot : Slot) : isDisconnection slot e = false := by
  cases e with
  | disconnected => cases h
  | _ => rfl

/-- A generation is the number of disconnections of its slot. -/
theorem generation_effect {w' : World} (he : Effect w w') (slot : Slot)
    (h : generation w slot = disconnections slot w.trace) :
    generation w' slot = disconnections slot w'.trace := by
  have hcongr {w' : World} (hg : generation w' = generation w)
      (ht : disconnections slot w'.trace = disconnections slot w.trace) :
      generation w' slot = disconnections slot w'.trace := by
    rw [hg, ht, h]
  cases he with
  | touch slot' s same => exact hcongr (generation_setSession_of_eq same.generation) rfl
  | leave slot' => exact hcongr (generation_setSession_of_eq rfl) rfl
  | note e noted => exact hcongr rfl (disconnections_append (noted.not_disconnection slot))
  | identify slot' service cpe =>
    exact hcongr (generation_setSession_of_eq rfl) ((disconnections_append rfl).trans (disconnections_append rfl))
  | finish slot' => exact hcongr rfl (disconnections_append rfl)
  | join slot' joinable => exact hcongr (generation_setSession_of_eq rfl) (disconnections_append rfl)
  | disconnect slot' live =>
    show generation (disconnected w slot') slot = disconnections slot (disconnected w slot').trace
    rw [generation_disconnected, disconnections_disconnected]
    split
    · rename_i hs
      rw [← hs, h]
      rfl
    · exact h
  | accept clientSocket free => exact hcongr (generation_admitted w clientSocket) (disconnections_append rfl)
  | _ => exact h

/-- A `pint` holds the generation of a slot as long as there are fewer than `2 ^ 31`
disconnections. -/
theorem generation_held {config : Config} {numThreads maxBlockingThreads : Nat}
    {tasks : Priority → Nat → Context Func Arg} {sessions : Slot → Session} {ls : List Label}
    (h : run Impl.Server.step (start config numThreads maxBlockingThreads tasks sessions) ls = some w)
    (hfew : disconnections slot w.trace < 2 ^ 31) :
    (BitVec.ofInt 32 (generation w slot)).toInt = generation w slot := by
  obtain ⟨-, hcounts⟩ := run_inv_of_effect (I := fun w => generation w slot = disconnections slot w.trace)
    (fun _ _ he _ => generation_effect he slot) rfl h
  exact BitVec.toInt_ofInt_eq_self (by decide) (by omega) (by omega)

/-! ## Sessions -/

/-- The fields of a live session are what has happened to it in its generation. -/
structure Consistent (trace : List Event) (slot : Slot) (s : Session) : Prop where
  service : .accepted slot s.currentGeneration ∈ trace →
    (s.authenticatedService.isSome = true ↔ .validated slot s.currentGeneration ∈ trace)
  cpe : .accepted slot s.currentGeneration ∈ trace →
    (s.supportsCpe = true ↔ .identified slot s.currentGeneration true ∈ trace)
  joinable : .accepted slot s.currentGeneration ∈ trace → s.currentJoinable.isSome = true →
    .joining slot s.currentGeneration ∈ trace

/-- The events on which the fields of the session in a slot depend. -/
def decides (slot : Slot) : Event → Prop
  | .accepted s _ => s = slot
  | .validated s _ => s = slot
  | .identified s _ _ => s = slot
  | _ => False

theorem mem_append_of_decides {x : Event} (hx : decides slot x) (he : ¬ decides slot e) :
    x ∈ trace ++ [e] ↔ x ∈ trace := by
  refine mem_snoc_of_ne ?_
  rintro rfl
  exact he hx

theorem Consistent.append (h : Consistent trace slot s) (he : ¬ decides slot e) :
    Consistent (trace ++ [e]) slot s := by
  have haccepted : ∀ g, .accepted slot g ∈ trace ++ [e] ↔ .accepted slot g ∈ trace :=
    fun g => mem_append_of_decides (x := .accepted slot g) rfl he
  refine ⟨fun ha => ?_, fun ha => ?_, fun ha hj => ?_⟩
  · rw [mem_append_of_decides (x := .validated slot _) rfl he]
    exact h.service ((haccepted _).mp ha)
  · rw [mem_append_of_decides (x := .identified slot _ _) rfl he]
    exact h.cpe ((haccepted _).mp ha)
  · exact List.mem_append_left _ (h.joinable ((haccepted _).mp ha) hj)

theorem Consistent.same {s' : Session} (h : Consistent trace slot s) (hs : SameIdentity s s') :
    Consistent trace slot s' := by
  refine ⟨?_, ?_, ?_⟩
  · rw [hs.generation, hs.service]
    exact h.service
  · rw [hs.generation, hs.cpe]
    exact h.cpe
  · rw [hs.generation, hs.joinable]
    exact h.joinable

/-- What must have happened before an event. -/
def Precedes (before : List Event) : Event → Prop
  | .validated slot g => .accepted slot g ∈ before
  | .identified slot g _ => .validated slot g ∈ before
  | .dispatched slot g _ b => b = true → .identified slot g true ∈ before
  | .finalizing slot g => .validated slot g ∈ before
  | .finished slot g => .validated slot g ∈ before
  | .joining slot g => .validated slot g ∈ before
  | .joined slot g _ => .validated slot g ∈ before
  | .handed slot g => .validated slot g ∈ before
  | _ => True

/-- Each event comes after what must have happened before it. -/
abbrev Ordered (trace : List Event) : Prop := Causal Precedes trace

theorem Precedes.mono {before before' : List Event} (h : before ⊆ before') (he : Precedes before e) :
    Precedes before' e := by
  cases e with
  | accepted => trivial
  | dispatched => exact fun hb => h (he hb)
  | left => trivial
  | disconnected => trivial
  | _ => exact h he

theorem Ordered.append (h : Ordered trace) (he : Precedes trace e) : Ordered (trace ++ [e]) :=
  causal_snoc.mpr ⟨h, he⟩

/-- What must have happened before an event of the trace has happened. -/
theorem Ordered.precedes (h : Ordered trace) (he : e ∈ trace) : Precedes trace e :=
  Causal.of_mem (fun _ _ _ hsub hp => hp.mono hsub) h he

section

variable (h : Ordered trace) {g : Int}

include h

theorem Ordered.accepted_of_validated (hv : .validated slot g ∈ trace) : .accepted slot g ∈ trace :=
  h.precedes hv

theorem Ordered.validated_of_identified {b : Bool} (hi : .identified slot g b ∈ trace) :
    .validated slot g ∈ trace :=
  h.precedes hi

theorem Ordered.validated_of_finalizing (hf : .finalizing slot g ∈ trace) : .validated slot g ∈ trace :=
  h.precedes hf

theorem Ordered.validated_of_joining (hj : .joining slot g ∈ trace) : .validated slot g ∈ trace :=
  h.precedes hj

end

structure Identity (w : World) : Prop where
  slots : Slots w
  consistent : ∀ slot, Consistent w.trace slot (w.sessionBuffer slot)
  ordered : Ordered w.trace

theorem consistent_setSession (h : ∀ slot', slot' ≠ slot → Consistent trace slot' (w.sessionBuffer slot'))
    (hs : Consistent trace slot s) (slot' : Slot) :
    Consistent trace slot' ((w.setSession slot s).sessionBuffer slot') := by
  by_cases heq : slot' = slot
  · subst heq
    rw [sessionBuffer_setSession]
    exact hs
  · rw [sessionBuffer_setSession_of_ne w heq]
    exact h slot' heq

section

variable (h : Identity w)

include h

theorem Identity.validated_of_entitled (live : Live w slot)
    (he : (w.sessionBuffer slot).supportsCpe = true ∨
      (w.sessionBuffer slot).authenticatedService.isSome = true) :
    .validated slot (generation w slot) ∈ w.trace := by
  rcases he with hcpe | hservice
  · exact h.ordered.validated_of_identified (((h.consistent slot).cpe live).mp hcpe)
  · exact ((h.consistent slot).service live).mp hservice

theorem Identity.precedes_noted (noted : Noted w e) : Precedes w.trace e := by
  cases e with
  | dispatched slot g f b =>
    obtain ⟨rfl, live, rfl⟩ := noted
    exact ((h.consistent slot).cpe live).mp
  | finalizing slot g =>
    obtain ⟨rfl, live, he⟩ := noted
    exact h.validated_of_entitled live he
  | joining slot g =>
    rcases noted with hmem | hmem
    · exact h.ordered.validated_of_finalizing hmem
    · exact h.ordered.validated_of_joining hmem
  | handed slot g =>
    obtain ⟨rfl, live, hj⟩ := noted
    exact h.ordered.validated_of_joining ((h.consistent slot).joinable live hj)
  | accepted => trivial
  | left => trivial
  | disconnected => trivial
  | validated => cases noted
  | identified => cases noted
  | finished => cases noted
  | joined => cases noted

/-- A session that is not known yet is identified. -/
theorem Identity.identify {service : Nat} {cpe : Bool} (live : Live w slot)
    (unknown : (w.sessionBuffer slot).authenticatedService = none) (slot' : Slot) :
    Consistent (w.trace ++ [.validated slot (generation w slot)] ++
        [.identified slot (generation w slot) cpe]) slot'
      ((w.setSession slot { w.sessionBuffer slot with
        authenticatedService := some service, supportsCpe := cpe }).sessionBuffer slot') := by
  refine consistent_setSession (fun slot' hne => ?_) ⟨fun _ => ?_, fun _ => ?_, fun _ hj => ?_⟩ slot'
  · exact ((h.consistent slot').append (e := .validated slot _) hne.symm).append
      (e := .identified slot _ _) hne.symm
  · exact iff_of_true rfl (List.mem_append_left _ (List.mem_append_right _ List.mem_cons_self))
  · have hnew : .identified slot (generation w slot) true ∉ w.trace := by
      intro hi
      have hservice := ((h.consistent slot).service live).mpr (h.ordered.validated_of_identified hi)
      rw [unknown] at hservice
      cases hservice
    show cpe = true ↔ Event.identified slot (generation w slot) true ∈ _
    simp [hnew, eq_comm]
  · exact List.mem_append_left _ (List.mem_append_left _ ((h.consistent slot).joinable live hj))

/-- A new session has no past in its generation. -/
theorem Identity.not_validated_nextSlot (free : w.idBufferHead ≠ maxSessions) :
    .validated (nextSlot w) (generation w (nextSlot w)) ∉ w.trace :=
  fun hv => h.slots.not_live_nextSlot free (h.ordered.accepted_of_validated hv)

theorem Identity.accept (clientSocket : Stream) (free : w.idBufferHead ≠ maxSessions) (slot' : Slot) :
    Consistent (admitted w clientSocket).trace slot' ((admitted w clientSocket).sessionBuffer slot') := by
  have hvalidated := h.not_validated_nextSlot free
  have hidentified : .identified (nextSlot w) (generation w (nextSlot w)) true ∉ w.trace :=
    fun hi => hvalidated (h.ordered.validated_of_identified hi)
  rw [trace_admitted]
  refine consistent_setSession (fun slot' hne => (h.consistent slot').append
    (e := .accepted (nextSlot w) _) hne.symm) ⟨fun _ => ?_, fun _ => ?_, fun _ hj => ?_⟩ slot'
  · refine iff_of_false Bool.false_ne_true ?_
    rw [mem_snoc_of_ne (by simp)]
    exact hvalidated
  · refine iff_of_false Bool.false_ne_true ?_
    rw [mem_snoc_of_ne (by simp)]
    exact hidentified
  · cases hj

theorem Identity.disconnect (slot' : Slot) :
    Consistent (disconnected w slot).trace slot' ((disconnected w slot).sessionBuffer slot') := by
  have hnew := h.slots.not_live_disconnected slot
  rw [Live, generation_disconnected, if_pos rfl] at hnew
  exact consistent_setSession (fun slot' _ => (h.consistent slot').append id)
    ⟨fun ha => absurd ha hnew, fun ha => absurd ha hnew, fun ha => absurd ha hnew⟩ slot'

end

theorem Identity.effect {w' : World} (he : Effect w w') (h : Identity w) : Identity w' := by
  have hslots := h.slots.effect he
  cases he with
  | touch slot s same =>
    exact ⟨hslots, consistent_setSession (fun slot' _ => h.consistent slot') ((h.consistent slot).same same),
      h.ordered⟩
  | leave slot =>
    have hslot := h.consistent slot
    refine ⟨hslots, consistent_setSession (fun slot' _ => h.consistent slot') ?_, h.ordered⟩
    exact ⟨hslot.service, hslot.cpe, fun _ hj => by cases hj⟩
  | note e noted =>
    refine ⟨hslots, fun slot => (h.consistent slot).append ?_, h.ordered.append (h.precedes_noted noted)⟩
    cases e with
    | accepted => cases noted
    | validated => cases noted
    | identified => cases noted
    | _ => exact id
  | identify slot service cpe live unknown =>
    refine ⟨hslots, h.identify live unknown, ?_⟩
    exact (h.ordered.append (e := .validated slot _) live).append (e := .identified slot _ cpe)
      (List.mem_append_right _ List.mem_cons_self)
  | finish slot live finalizing =>
    exact ⟨hslots, fun slot' => (h.consistent slot').append id,
      h.ordered.append (h.ordered.validated_of_finalizing finalizing)⟩
  | join slot joinable live joining =>
    have hslot := h.consistent slot
    have hjoined : Consistent w.trace slot { w.sessionBuffer slot with currentJoinable := some joinable } :=
      ⟨hslot.service, hslot.cpe, fun _ _ => joining⟩
    refine ⟨hslots, ?_, h.ordered.append (h.ordered.validated_of_joining joining)⟩
    exact consistent_setSession (fun slot' _ => (h.consistent slot').append id)
      (hjoined.append (e := .joined slot _ joinable) id)
  | disconnect slot live => exact ⟨hslots, h.disconnect, h.ordered.append trivial⟩
  | accept clientSocket free => exact ⟨hslots, h.accept clientSocket free, h.ordered.append trivial⟩
  | _ => exact ⟨hslots, h.consistent, h.ordered⟩

section

variable {config : Config} {numThreads maxBlockingThreads : Nat}
  {tasks : Priority → Nat → Context Func Arg} {sessions : Slot → Session}

theorem slots_start : Slots (start config numThreads maxBlockingThreads tasks sessions) := by
  refine ⟨fun slot g ha => ?_, ?_, fun i j hi hi' hj hj' hij => ?_, fun i _ _ live => ?_⟩
  · cases ha
  · show (0 : Int) ≤ maxSessions
    omega
  · have hmod : i.toNat % maxSessions = j.toNat % maxSessions := congrArg Fin.val hij
    change 0 ≤ i at hi
    change 0 ≤ j at hj
    rw [Nat.mod_eq_of_lt (by omega), Nat.mod_eq_of_lt (by omega)] at hmod
    omega
  · cases live

theorem identity_start : Identity (start config numThreads maxBlockingThreads tasks sessions) := by
  refine ⟨slots_start, fun slot => ⟨fun ha => ?_, fun ha => ?_, fun ha => ?_⟩, causal_nil⟩
  · cases ha
  · cases ha
  · cases ha

/-- The slot and the generation of what only a validated session may do. -/
def privileged : Event → Option (Slot × Int)
  | .finalizing slot g => some (slot, g)
  | .finished slot g => some (slot, g)
  | .joining slot g => some (slot, g)
  | .joined slot g _ => some (slot, g)
  | .handed slot g => some (slot, g)
  | _ => none

theorem validated_of_privileged {before : List Event} {g : Int} (he : privileged e = some (slot, g))
    (h : Precedes before e) : .validated slot g ∈ before := by
  cases e with
  | finalizing | finished | joining | joined | handed => cases he; exact h
  | _ => cases he

end

/-! ## One client -/

def first : Slot := ⟨0, maxSessions_pos⟩

/-- A socket that takes everything. -/
def openSocket : Stream := ⟨fun _ => .accept 1000, 0, []⟩

def blankSession : Session where
  username := []
  extCpeVersions := Vector.replicate _ 0
  clientSocket := openSocket
  actionLock := false
  authenticatedService := none
  currentJoinable := none
  pendingPacketBuffer := none
  pendingPacketBufferSize := 0
  pendingPacketOpcode := -1
  supportsCpe := false
  currentGeneration := 0
  remainingCpeExtPackets := 0
  customBlockSupportLevel := 0

/-- Every key is valid, and every joinable takes the client. -/
def hospitable : Env where
  pingDue := false
  receive := .wouldBlock
  packetBuffer := true
  memory := fun _ => 0
  accept := none
  pingProfiler := true
  validate := fun _ _ => some 0
  attemptJoin := fun _ => .new .medium
  handleSetBlock := fun _ _ _ _ _ => true
  handlePositionUpdate := fun _ _ _ _ _ => true
  joinable := .nothing
  pick := 0

/-- A server with one thread and one world. -/
def oneWorld : World :=
  start ⟨[], [], tcJoinRouterInit ["lobby"] "lobby"⟩ 1 1 (fun _ _ => .invalid) fun _ => blankSession

/-- The tasks, one after the other, in which a client connects and sends a
packet. -/
def visit (opcode : Byte) (payload : List Byte) (numTasks : Nat) : List Label :=
  let task (env : Env) : Label := .task ⟨0, env⟩
  [.loop 0, task { hospitable with accept := some openSocket }, task hospitable,
    task { hospitable with receive := .data [opcode] }] ++
    List.replicate numTasks (task { hospitable with receive := .data payload })

/-- The payload of an identification packet of protocol 7. -/
def identification (cpe : Byte) : List Byte := 7 :: List.replicate 128 0x20 ++ [cpe]

end TC.Proof.Server
