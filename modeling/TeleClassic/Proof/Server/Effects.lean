import TeleClassic.Impl.Server
import TeleClassic.Proof.ThreadPool.Moves

/-!
# What a task of the server can do

Every step of the server is a sequence of a few effects (`step_effects`): a
session is changed in a way that does not matter to who it is, identified,
finished with its handshake, joined, disconnected or accepted, something is
noted, tasks are scheduled, or the process halts. Each effect comes with what
is known where it happens, so that a property of the server is proved of
effects, and the handlers are gone through here only.

`Due` says why a task was scheduled: its session was accepted in its
generation, and a handler was dispatched, a negotiation followed an
identification, a joinable's task a call of `tc_session_join`.
-/

namespace TC.Proof.Server

open TC.Impl.Server TC.Impl.ThreadPool TC.Proof.ThreadPool

/-! ## Effects -/

/-- The generation of the session in a slot. -/
def generation (w : World) (slot : Slot) : Int := (w.sessionBuffer slot).currentGeneration

/-- The session in the slot was accepted in its generation. -/
def Live (w : World) (slot : Slot) : Prop := .accepted slot (generation w slot) ∈ w.trace

instance (w : World) (slot : Slot) : Decidable (Live w slot) := inferInstanceAs (Decidable (_ ∈ _))

/-- The same session, as far as it matters who it is. -/
structure SameIdentity (s s' : Session) : Prop where
  generation : s'.currentGeneration = s.currentGeneration
  service : s'.authenticatedService = s.authenticatedService
  cpe : s'.supportsCpe = s.supportsCpe
  joinable : s'.currentJoinable = s.currentJoinable

/-- What went before a task of that function. -/
def Cause (trace : List Event) (slot : Slot) (generation : Int) : Func → Prop
  | .joinableTask => .joining slot generation ∈ trace
  | .handleBeginCpeNegotiation => .identified slot generation true ∈ trace
  | .handleCpeExtinfo => ∃ b, .dispatched slot generation .handleCpeExtinfo b ∈ trace
  | .handleCpeExtentry => ∃ b, .dispatched slot generation .handleCpeExtentry b ∈ trace
  | .handleCpeCustomBlockSupportLevel =>
    ∃ b, .dispatched slot generation .handleCpeCustomBlockSupportLevel b ∈ trace
  | _ => True

/-- Why a task was scheduled. -/
def Due (trace : List Event) (t : Context Func Arg) : Prop :=
  ∀ slot, t.arg = some (.session slot) → .accepted slot t.sessionGeneration ∈ trace ∧
    ∀ f, t.func = some f → Cause trace slot t.sessionGeneration f

/-- The functions that assert `supports_cpe`. -/
def assertsCpe : Func → Bool
  | .handleBeginCpeNegotiation => true
  | .handleCpeExtinfo => true
  | .handleCpeExtentry => true
  | .handleCpeCustomBlockSupportLevel => true
  | _ => false

/-- When an event is noted that changes nothing else. -/
def Noted (w : World) : Event → Prop
  | .left _ _ _ => True
  | .dispatched slot g _ b =>
    g = generation w slot ∧ Live w slot ∧ b = (w.sessionBuffer slot).supportsCpe
  | .finalizing slot g => g = generation w slot ∧ Live w slot ∧
      ((w.sessionBuffer slot).supportsCpe = true ∨ (w.sessionBuffer slot).authenticatedService.isSome = true)
  | .joining slot g => .finalizing slot g ∈ w.trace ∨ .joining slot g ∈ w.trace
  | .handed slot g => g = generation w slot ∧ Live w slot ∧
      (w.sessionBuffer slot).currentJoinable.isSome = true
  | _ => False

inductive Effect : World → World → Prop where
  | touch {w : World} (slot : Slot) (s : Session) (same : SameIdentity (w.sessionBuffer slot) s) :
      Effect w (w.setSession slot s)
  | leave {w : World} (slot : Slot) :
      Effect w (w.setSession slot { w.sessionBuffer slot with currentJoinable := none })
  | stick {w : World} (worker : Nat) : Effect w { w with stuck := worker :: w.stuck }
  | crash {w : World} (failure : Failure) (access : failure ≠ .assertFailed) :
      Effect w { w with halted := some failure }
  | assertFails {w : World} (slot : Slot) (f : Func) (asserts : assertsCpe f = true)
      (live : Live w slot) (cause : Cause w.trace slot (generation w slot) f)
      (cpe : (w.sessionBuffer slot).supportsCpe = false) :
      Effect w { w with halted := some .assertFailed }
  | poolFails {w : World} (failed : w.threadPool.assertFailed = true) :
      Effect w { w with halted := some .assertFailed }
  | note {w : World} (e : Event) (noted : Noted w e) : Effect w (w.emit e)
  | identify {w : World} (slot : Slot) (service : Nat) (cpe : Bool) (live : Live w slot)
      (unknown : (w.sessionBuffer slot).authenticatedService = none) :
      Effect w (((w.setSession slot { w.sessionBuffer slot with
        authenticatedService := some service, supportsCpe := cpe }).emit
          (.validated slot (generation w slot))).emit (.identified slot (generation w slot) cpe))
  | finish {w : World} (slot : Slot) (live : Live w slot)
      (finalizing : .finalizing slot (generation w slot) ∈ w.trace) :
      Effect w ({ w with activePlayers := w.activePlayers + 1 }.emit
        (.finished slot (generation w slot)))
  | join {w : World} (slot : Slot) (joinable : Nat) (live : Live w slot)
      (joining : .joining slot (generation w slot) ∈ w.trace) :
      Effect w ((w.setSession slot { w.sessionBuffer slot with currentJoinable := some joinable }).emit
        (.joined slot (generation w slot) joinable))
  | disconnect {w : World} (slot : Slot) (live : Live w slot) :
      Effect w (((w.setSession slot { w.sessionBuffer slot with
        currentGeneration := generation w slot + 1 }).release slot).emit
          (.disconnected slot (generation w slot)))
  | accept {w : World} (clientSocket : Stream) (free : w.idBufferHead ≠ maxSessions) :
      Effect w (({ w with idBufferHead := w.idBufferHead + 1 }.setSession (w.idBuffer w.idBufferHead)
        (newSession (w.sessionBuffer (w.idBuffer w.idBufferHead)) clientSocket)).emit
          (.accepted (w.idBuffer w.idBufferHead) (generation w (w.idBuffer w.idBufferHead))))
  | leak {w : World} (free : w.idBufferHead ≠ maxSessions) :
      Effect w { w with idBufferHead := w.idBufferHead + 1 }
  | pool {w : World} {pool : System Func Arg} (moves : Moves True w.threadPool pool)
      (due : ∀ t ∈ pool.accepted, t ∈ w.threadPool.accepted ∨ Due w.trace t) :
      Effect w { w with threadPool := pool }

abbrev Effects : World → World → Prop := Relation.ReflTransGen Effect

/-! ## Where a task is -/

/-- A session that is only touched. -/
def Touched (slot : Slot) (w w' : World) : Prop :=
  ∃ s, SameIdentity (w.sessionBuffer slot) s ∧ w' = w.setSession slot s

/-- The session is live in the generation the task was scheduled for. -/
def Owns (w : World) (slot : Slot) (g : Int) : Prop :=
  generation w slot = g ∧ .accepted slot g ∈ w.trace

/-- The worker runs a task of that priority, which has not yielded. -/
def Ready (w : World) (worker : Nat) (priority : Priority) : Prop :=
  w.threadPool.assertFailed = false ∧ ∃ t : Context Func Arg,
    w.threadPool.running? worker = some (t, 0) ∧ t.priority = priority

/-- Nothing is scheduled, and nothing that was noted is lost. -/
def Quiet (w w' : World) : Prop := w'.threadPool = w.threadPool ∧ w.trace ⊆ w'.trace

/-- Only the thread pool is changed. -/
def Scheduled (w w' : World) : Prop := w'.sessionBuffer = w.sessionBuffer ∧ w'.trace = w.trace

theorem Owns.live {w : World} {slot : Slot} {g : Int} (h : Owns w slot g) : Live w slot := by
  obtain ⟨rfl, h⟩ := h
  exact h

theorem SameIdentity.trans {s₁ s₂ s₃ : Session} (h : SameIdentity s₁ s₂) (h' : SameIdentity s₂ s₃) :
    SameIdentity s₁ s₃ :=
  ⟨h'.generation.trans h.generation, h'.service.trans h.service, h'.cpe.trans h.cpe,
    h'.joinable.trans h.joinable⟩

@[simp] theorem sessionBuffer_setSession (w : World) (slot : Slot) (s : Session) :
    (w.setSession slot s).sessionBuffer slot = s :=
  Function.update_self ..

theorem sessionBuffer_setSession_of_ne (w : World) {slot slot' : Slot} (h : slot' ≠ slot) (s : Session) :
    (w.setSession slot s).sessionBuffer slot' = w.sessionBuffer slot' :=
  Function.update_of_ne h ..

theorem setSession_setSession (w : World) (slot : Slot) (s s' : Session) :
    (w.setSession slot s).setSession slot s' = w.setSession slot s' := by
  simp only [World.setSession, Function.update_idem]

theorem Touched.refl (slot : Slot) (w : World) : Touched slot w w := by
  refine ⟨w.sessionBuffer slot, ⟨rfl, rfl, rfl, rfl⟩, ?_⟩
  rw [World.setSession, Function.update_eq_self]

section

variable {slot : Slot} {w w' w'' : World} {g : Int} {worker : Nat} {priority : Priority}

theorem Touched.trans (h : Touched slot w w') (h' : Touched slot w' w'') : Touched slot w w'' := by
  obtain ⟨s, hs, rfl⟩ := h
  obtain ⟨s', hs', rfl⟩ := h'
  rw [sessionBuffer_setSession] at hs'
  exact ⟨s', hs.trans hs', setSession_setSession ..⟩

theorem Touched.same (h : Touched slot w w') :
    SameIdentity (w.sessionBuffer slot) (w'.sessionBuffer slot) := by
  obtain ⟨s, hs, rfl⟩ := h
  rwa [sessionBuffer_setSession]

theorem Touched.trace (h : Touched slot w w') : w'.trace = w.trace := by
  obtain ⟨s, -, rfl⟩ := h
  rfl

theorem Touched.threadPool (h : Touched slot w w') : w'.threadPool = w.threadPool := by
  obtain ⟨s, -, rfl⟩ := h
  rfl

theorem Touched.owns (h : Touched slot w w') (ho : Owns w slot g) : Owns w' slot g := by
  refine ⟨h.same.generation.trans ho.1, ?_⟩
  rw [h.trace]
  exact ho.2

theorem Touched.live (h : Touched slot w w') (hl : Live w slot) : Live w' slot := by
  rw [Live, h.trace, generation, h.same.generation]
  exact hl

theorem Touched.ready (h : Touched slot w w') (hr : Ready w worker priority) :
    Ready w' worker priority := by
  rw [Ready, h.threadPool]
  exact hr

theorem Touched.quiet (h : Touched slot w w') : Quiet w w' :=
  ⟨h.threadPool, h.trace ▸ List.Subset.refl _⟩

theorem Quiet.trans (h : Quiet w w') (h' : Quiet w' w'') : Quiet w w'' :=
  ⟨h'.1.trans h.1, List.Subset.trans h.2 h'.2⟩

theorem Quiet.ready (h : Quiet w w') (hr : Ready w worker priority) : Ready w' worker priority := by
  rw [Ready, h.1]
  exact hr

theorem Scheduled.owns (h : Scheduled w w') (ho : Owns w slot g) : Owns w' slot g := by
  rw [Owns, generation, h.1, h.2]
  exact ho

end

end TC.Proof.Server
