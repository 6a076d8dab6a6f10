import TeleClassic.Framework.FreeIds
import TeleClassic.Framework.History
import TeleClassic.Proof.Tasks.Discipline

/-!
# Session slots

The ids in `id_buffer` from `id_buffer_head` on are those of the slots that are
not handed out, and a generation of a session is disconnected once, as long as
no thread releases the lock of a session that another thread holds
(`slots_partition`). What carries this through the operations of all threads are
the phases: a thread that is inside a session knows its generation and is the
only one there, and a slot that is on its way from or to the free ids has one
thread that moves it (`Sessions`).

A handshake that has succeeded releases the lock of its session twice. If
another thread has taken the lock in between, a third one can enter, and both
disconnect the session (`slot_returned_twice`).
-/

namespace TC.Proof.Tasks

open TC.Impl.Tasks
open TC.Impl.Server (Slot JoinRouter maxSessions)

variable {tasks : List Task} {slot' : Slot} {c : Choice} {i : Nat}

/-! ## The invariant -/

/-- The session whose generation is known to be the current one. -/
def Phase.current : Phase → Option (Slot × Int)
  | .known slot g | .opening slot g | .checked slot g | .inside slot g => some (slot, g)
  | _ => none

/-- What holds of the state alone. -/
structure Books (s : Shared) : Prop where
  ids : FreeIds s.idBuffer s.idBufferHead s.live
  past : ∀ slot g, .opened slot g ∈ s.trace → g ≤ s.currentGeneration slot
  live : ∀ slot, .opened slot (s.currentGeneration slot) ∈ s.trace → s.live slot = true
  ended : ∀ slot g, .disconnected slot g ∈ s.trace → g < s.currentGeneration slot
  once : ∀ slot g, s.trace.count (.disconnected slot g) ≤ 1
  handed : ∀ slot, s.trace.count (.handedOut slot) = s.trace.count (.returned slot) + (s.live slot).toNat

/-- What a thread knows of the state in its phase. -/
structure Sound (s : Shared) (thread : Nat) (ph : Phase) : Prop where
  holder : ∀ slot, ph.held = some slot → s.actionLock slot = some thread
  ticket : ∀ slot g, ph.ticket = some (slot, g) → .opened slot g ∈ s.trace
  current : ∀ slot g, ph.current = some (slot, g) → g = s.currentGeneration slot
  pending : ∀ slot, ph.pending = some slot →
    s.live slot = true ∧ .opened slot (s.currentGeneration slot) ∉ s.trace

structure Sessions (s : Shared) (phases : List Phase) : Prop where
  books : Books s
  sound : ∀ (i : Nat) (ph : Phase), phases[i]? = some ph → Sound s i ph
  alone : ∀ (i j : Nat) (ph ph' : Phase) (slot : Slot), phases[i]? = some ph → phases[j]? = some ph' →
    ph.pending = some slot → ph'.pending = some slot → i = j

section

variable {s s' : Shared} {phases : List Phase} {thread : Nat} {ph ph' : Phase} {slot : Slot} {g : Int}

theorem getElem?_set_cases {A : Type} {l : List A} {j : Nat} {a b : A} (h : (l.set i a)[j]? = some b) :
    j = i ∧ b = a ∨ j ≠ i ∧ l[j]? = some b := by
  rw [List.getElem?_set] at h
  split at h
  · rename_i hij
    split at h
    · exact .inl ⟨hij.symm, (Option.some.inj h).symm⟩
    · cases h
  · rename_i hij
    exact .inr ⟨fun hji => hij hji.symm, h⟩

/-- A thread goes on to another phase. -/
theorem Sessions.act (h : Sessions s phases) (hat : phases[thread]? = some ph) (hbooks : Books s')
    (hself : Sound s' thread ph')
    (hothers : ∀ (i : Nat) (ph₁ : Phase), i ≠ thread → phases[i]? = some ph₁ → Sound s i ph₁ → Sound s' i ph₁)
    (hpending : ∀ slot, ph'.pending = some slot → ph.pending = some slot ∨
      ∀ (i : Nat) (ph₁ : Phase), phases[i]? = some ph₁ → ph₁.pending ≠ some slot) :
    Sessions s' (phases.set thread ph') := by
  have hmoved : ∀ (j : Nat) (ph₁ : Phase) slot, phases[j]? = some ph₁ → ph'.pending = some slot →
      ph₁.pending = some slot → j = thread := by
    intro j ph₁ slot hj h₁ h₂
    rcases hpending slot h₁ with h₁ | hnone
    · exact h.alone j thread ph₁ ph slot hj hat h₂ h₁
    · exact absurd h₂ (hnone j ph₁ hj)
  refine ⟨hbooks, fun i ph₁ hi => ?_, fun i j ph₁ ph₂ slot hi hj h₁ h₂ => ?_⟩
  · rcases getElem?_set_cases hi with ⟨rfl, rfl⟩ | ⟨hne, hi⟩
    · exact hself
    · exact hothers i ph₁ hne hi (h.sound i ph₁ hi)
  · rcases getElem?_set_cases hi with ⟨hi', rfl⟩ | ⟨-, hi'⟩ <;>
      rcases getElem?_set_cases hj with ⟨hj', rfl⟩ | ⟨-, hj'⟩
    · rw [hi', hj']
    · rw [hi', hmoved j ph₂ slot hj' h₁ h₂]
    · rw [hj', hmoved i ph₁ slot hi' h₂ h₁]
    · exact h.alone i j ph₁ ph₂ slot hi' hj' h₁ h₂

theorem sound_idle : Sound s thread .idle where
  holder _ hheld := by cases hheld
  ticket _ _ hticket := by cases hticket
  current _ _ hcurrent := by cases hcurrent
  pending _ hpending := by cases hpending

theorem sound_outside (hopened : .opened slot g ∈ s.trace) : Sound s thread (.outside slot g) where
  holder _ hheld := by cases hheld
  ticket _ _ hticket := by
    cases hticket
    exact hopened
  current _ _ hcurrent := by cases hcurrent
  pending _ hpending := by cases hpending

/-- Tasks are started for sessions that were opened. -/
theorem Sessions.spawn (h : Sessions s phases) {news : List Phase}
    (hnews : ∀ ph ∈ news, ph = .idle ∨ ∃ slot g, ph = .outside slot g ∧ .opened slot g ∈ s.trace) :
    Sessions s (phases ++ news) := by
  have hcases : ∀ (i : Nat) (ph : Phase), (phases ++ news)[i]? = some ph → phases[i]? = some ph ∨ ph ∈ news := by
    intro i ph hi
    rw [List.getElem?_append] at hi
    split at hi
    · exact .inl hi
    · exact .inr (List.mem_of_getElem? hi)
  have hpending : ∀ ph ∈ news, ph.pending = none := by
    intro ph hph
    obtain rfl | ⟨slot, g, rfl, -⟩ := hnews ph hph <;> rfl
  refine ⟨h.books, fun i ph hi => ?_, fun i j ph ph' slot hi hj h₁ h₂ => ?_⟩
  · rcases hcases i ph hi with hi | hph
    · exact h.sound i ph hi
    · obtain rfl | ⟨slot, g, rfl, hopened⟩ := hnews ph hph
      · exact sound_idle
      · exact sound_outside hopened
  · rcases hcases i ph hi with hi | hph
    · rcases hcases j ph' hj with hj | hph'
      · exact h.alone i j ph ph' slot hi hj h₁ h₂
      · cases (hpending ph' hph').symm.trans h₂
    · cases (hpending ph hph).symm.trans h₁

/-- A thread that is inside a session is the only one that knows its generation
or moves its id. -/
theorem Sessions.inside_alone (h : Sessions s phases) (hat : phases[thread]? = some (.inside slot g))
    (hi : phases[i]? = some ph) (hne : i ≠ thread) : ph.held ≠ some slot ∧ ph.pending ≠ some slot := by
  have hself := h.sound thread _ hat
  refine ⟨fun hheld => ?_, fun hpending => ?_⟩
  · have hlock := (h.sound i ph hi).holder slot hheld
    rw [hself.holder slot rfl] at hlock
    exact hne (Option.some.inj hlock).symm
  · have hopened := hself.ticket slot g rfl
    rw [hself.current slot g rfl] at hopened
    exact ((h.sound i ph hi).pending slot hpending).2 hopened

/-- What is current is held or pending. -/
theorem held_or_pending_of_current (h : ph.current = some (slot, g)) :
    ph.held = some slot ∨ ph.pending = some slot := by
  cases ph <;> cases h
  · exact .inr rfl
  · exact .inr rfl
  · exact .inr rfl
  · exact .inl rfl

/-! ## Operations that change no session -/

theorem count_note (s : Shared) (e e' : Event) :
    (s.note e).trace.count e' = s.trace.count e' + if e = e' then 1 else 0 := by
  rw [Shared.note, List.count_append, List.count_singleton]
  simp only [beq_iff_eq]

theorem live_note (s : Shared) (e : Event) : (s.note e).live = s.live := rfl

/-- An event that is not about ids and generations. -/
def quietEvent : Event → Bool
  | .accessed _ | .sent _ _ _ | .left _ _ | .attempted _ _ _ | .handled _ _ => true
  | .handedOut _ | .opened _ _ | .disconnected _ _ | .returned _ => false

/-- Only joinables and quiet events are different. -/
structure Quiet (s s' : Shared) : Prop where
  lock : s'.actionLock = s.actionLock
  generation : s'.currentGeneration = s.currentGeneration
  idBuffer : s'.idBuffer = s.idBuffer
  head : s'.idBufferHead = s.idBufferHead
  live : s'.live = s.live
  trace : ∀ e, quietEvent e = false → s'.trace.count e = s.trace.count e

theorem Quiet.refl (s : Shared) : Quiet s s := ⟨rfl, rfl, rfl, rfl, rfl, fun _ _ => rfl⟩

theorem quiet_note {e : Event} (he : quietEvent e = true) : Quiet s (s.note e) := by
  refine ⟨rfl, rfl, rfl, rfl, rfl, fun e' he' => ?_⟩
  have hne : e ≠ e' := by
    rintro rfl
    cases he.symm.trans he'
  rw [count_note, if_neg hne, Nat.add_zero]

theorem quiet_setJoinable {joinables : Slot → Option Nat} : Quiet s { s with currentJoinable := joinables } :=
  ⟨rfl, rfl, rfl, rfl, rfl, fun _ _ => rfl⟩

theorem Quiet.mem_trace (h : Quiet s s') {e : Event} (he : quietEvent e = false) :
    e ∈ s'.trace ↔ e ∈ s.trace := by
  rw [← List.count_pos_iff, h.trace e he, List.count_pos_iff]

theorem Quiet.books (h : Quiet s s') (hb : Books s) : Books s' := by
  refine ⟨?_, fun slot g hmem => ?_, fun slot hmem => ?_, fun slot g hmem => ?_, fun slot g => ?_, fun slot => ?_⟩
  · rw [h.idBuffer, h.head, h.live]
    exact hb.ids
  · rw [h.generation]
    exact hb.past slot g ((h.mem_trace rfl).mp hmem)
  · rw [h.generation] at hmem
    rw [h.live]
    exact hb.live slot ((h.mem_trace rfl).mp hmem)
  · rw [h.generation]
    exact hb.ended slot g ((h.mem_trace rfl).mp hmem)
  · rw [h.trace _ rfl]
    exact hb.once slot g
  · rw [h.trace _ rfl, h.trace _ rfl, h.live]
    exact hb.handed slot

theorem Quiet.sound (h : Quiet s s') (hs : Sound s i ph) : Sound s' i ph := by
  refine ⟨fun slot hheld => ?_, fun slot g hticket => ?_, fun slot g hcurrent => ?_, fun slot hpending => ?_⟩
  · rw [h.lock]
    exact hs.holder slot hheld
  · exact (h.mem_trace rfl).mpr (hs.ticket slot g hticket)
  · rw [h.generation]
    exact hs.current slot g hcurrent
  · rw [h.live, h.generation, h.mem_trace rfl]
    exact hs.pending slot hpending

theorem Quiet.sessions (h : Quiet s s') (hs : Sessions s phases) : Sessions s' phases :=
  ⟨h.books hs.books, fun i ph hi => h.sound (hs.sound i ph hi), hs.alone⟩

/-! ## Locks -/

theorem Books.setLock (h : Books s) (locks : Slot → Option Nat) : Books { s with actionLock := locks } :=
  ⟨h.ids, h.past, h.live, h.ended, h.once, h.handed⟩

/-- A lock that was free is taken. -/
theorem Sessions.lock (h : Sessions s phases) (hat : phases[thread]? = some ph)
    (hfree : s.actionLock slot = none) (hheld : ph'.held = some slot) (hticket : ph'.ticket = ph.ticket)
    (hcurrent : ph'.current = ph.current) (hpending : ph'.pending = ph.pending) :
    Sessions { s with actionLock := Function.update s.actionLock slot (some thread) } (phases.set thread ph') := by
  have hself := h.sound thread ph hat
  refine h.act hat (h.books.setLock _) ⟨?_, ?_, ?_, ?_⟩ (fun i ph₁ _ _ hs => ⟨?_, hs.ticket, hs.current, hs.pending⟩)
    fun slot' hslot' => .inl (hpending ▸ hslot')
  · intro slot' hslot'
    obtain rfl := Option.some.inj (hheld.symm.trans hslot')
    exact Function.update_self ..
  · rw [hticket]
    exact hself.ticket
  · rw [hcurrent]
    exact hself.current
  · rw [hpending]
    exact hself.pending
  · intro slot' hslot'
    have hne : slot' ≠ slot := by
      rintro rfl
      cases hfree.symm.trans (hs.holder _ hslot')
    show Function.update s.actionLock slot (some thread) slot' = some i
    rw [Function.update_of_ne hne]
    exact hs.holder slot' hslot'

/-- A lock is released that no other thread holds. -/
theorem Sessions.unlock (h : Sessions s phases) (hat : phases[thread]? = some ph)
    (howned : ∀ i, s.actionLock slot = some i → i = thread) (hticket : ph.ticket = some (slot, g)) :
    Sessions { s with actionLock := Function.update s.actionLock slot none }
      (phases.set thread (.outside slot g)) := by
  have hopened := (h.sound thread ph hat).ticket slot g hticket
  refine h.act hat (h.books.setLock _) (sound_outside hopened)
    (fun i ph₁ hi _ hs => ⟨?_, hs.ticket, hs.current, hs.pending⟩) fun _ hpending => by cases hpending
  intro slot' hslot'
  have hne : slot' ≠ slot := by
    rintro rfl
    exact hi (howned i (hs.holder _ hslot'))
  show Function.update s.actionLock slot none slot' = some i
  rw [Function.update_of_ne hne]
  exact hs.holder slot' hslot'

/-- A thread that has read a generation. -/
theorem Sessions.read (h : Sessions s phases) (hat : phases[thread]? = some ph) (hheld : ph'.held = ph.held)
    (hticket : ∀ slot g, ph'.ticket = some (slot, g) → ph.ticket = some (slot, g))
    (hcurrent : ∀ slot g, ph'.current = some (slot, g) → g = s.currentGeneration slot)
    (hpending : ∀ slot, ph'.pending = some slot → ph.pending = some slot) :
    Sessions s (phases.set thread ph') := by
  have hself := h.sound thread ph hat
  refine h.act hat h.books ⟨?_, fun slot g ht => ?_, hcurrent, fun slot hp => ?_⟩ (fun _ _ _ _ hs => hs)
    fun slot hp => .inl (hpending slot hp)
  · rw [hheld]
    exact hself.holder
  · exact hself.ticket slot g (hticket slot g ht)
  · exact hself.pending slot (hpending slot hp)

/-! ## Sessions come and go -/

/-- An id is handed out. -/
def taken (s : Shared) (slot : Slot) : Shared :=
  { s with idBufferHead := s.idBufferHead + 1, live := Function.update s.live slot true }.note (.handedOut slot)

/-- The id that is handed out next is that of no live session. -/
theorem Books.live_next (h : Books s) (hhead : s.idBufferHead ≠ maxSessions) :
    s.live (s.idBuffer s.idBufferHead) = false := by
  have hle := h.ids.le_card
  rw [Fintype.card_fin] at hle
  refine h.ids.free _ le_rfl ?_
  rw [Fintype.card_fin]
  omega

theorem live_taken (hlive : s.live slot = true) (slot' : Slot) : (taken s slot').live slot = true := by
  show Function.update s.live slot' true slot = true
  rw [Function.update_apply]
  split
  · rfl
  · exact hlive

theorem opened_taken : .opened slot g ∈ (taken s slot').trace ↔ .opened slot g ∈ s.trace :=
  mem_snoc_of_ne (by simp)

theorem Books.take (h : Books s) (hhead : s.idBufferHead ≠ maxSessions)
    (hslot : slot = s.idBuffer s.idBufferHead) : Books (taken s slot) := by
  have hidle : s.live slot = false := hslot ▸ h.live_next hhead
  refine ⟨?_, fun slot' g hmem => h.past slot' g (opened_taken.mp hmem), fun slot' hmem => ?_,
    fun slot' g hmem => ?_, fun slot' g => ?_, fun slot' => ?_⟩
  · rw [hslot]
    refine h.ids.take ?_
    rw [Fintype.card_fin]
    exact hhead
  · exact live_taken (h.live slot' (opened_taken.mp hmem)) slot
  · exact h.ended slot' g ((mem_snoc_of_ne (by simp)).mp hmem)
  · simpa [taken, count_note] using h.once slot' g
  · have hhanded := h.handed slot'
    rw [taken, count_note, count_note, live_note]
    by_cases heq : slot = slot'
    · subst heq
      simpa [hidle] using hhanded
    · simpa [heq, Function.update_of_ne (Ne.symm heq)] using hhanded

theorem Sessions.take (h : Sessions s phases) (hat : phases[thread]? = some .idle)
    (hhead : s.idBufferHead ≠ maxSessions) (hslot : slot = s.idBuffer s.idBufferHead) :
    Sessions (taken s slot) (phases.set thread (.fresh slot)) := by
  have hidle : s.live slot = false := hslot ▸ h.books.live_next hhead
  have hself : Sound (taken s slot) thread (.fresh slot) := by
    refine ⟨fun _ hheld => (by cases hheld), fun _ _ hticket => (by cases hticket),
      fun _ _ hcurrent => (by cases hcurrent), fun slot' hpending => ?_⟩
    cases hpending
    refine ⟨Function.update_self .., fun hmem => ?_⟩
    cases (h.books.live slot (opened_taken.mp hmem)).symm.trans hidle
  refine h.act hat (h.books.take hhead hslot) hself (fun i ph₁ _ _ hs => ?_) fun slot' hpending => .inr ?_
  · refine ⟨hs.holder, fun slot' g hticket => opened_taken.mpr (hs.ticket slot' g hticket), hs.current,
      fun slot' hpending => ?_⟩
    have hp := hs.pending slot' hpending
    exact ⟨live_taken hp.1 slot, fun hmem => hp.2 (opened_taken.mp hmem)⟩
  · cases hpending
    intro i ph₁ hi hp
    cases hidle.symm.trans ((h.sound i ph₁ hi).pending slot hp).1

/-- A session is initialised for a new client. -/
def openedAt (s : Shared) (slot : Slot) : Shared :=
  { s with currentJoinable := Function.update s.currentJoinable slot none }.note
    (.opened slot (s.currentGeneration slot))

theorem opened_openedAt : .opened slot g ∈ (openedAt s slot').trace ↔
    .opened slot g ∈ s.trace ∨ slot = slot' ∧ g = s.currentGeneration slot' := by
  show _ ∈ s.trace ++ [_] ↔ _
  rw [List.mem_append, List.mem_singleton, Event.opened.injEq]

theorem Books.initialise (h : Books s) (hlive : s.live slot = true) : Books (openedAt s slot) := by
  refine ⟨h.ids, fun slot' g hmem => ?_, fun slot' hmem => ?_, fun slot' g hmem => ?_, fun slot' g => ?_,
    fun slot' => ?_⟩
  · rcases opened_openedAt.mp hmem with hmem | ⟨rfl, rfl⟩
    · exact h.past slot' g hmem
    · exact le_rfl
  · rcases opened_openedAt.mp hmem with hmem | ⟨rfl, -⟩
    · exact h.live slot' hmem
    · exact hlive
  · exact h.ended slot' g ((mem_snoc_of_ne (by simp)).mp hmem)
  · simpa [openedAt, count_note] using h.once slot' g
  · simpa [openedAt, count_note, live_note] using h.handed slot'

theorem Sessions.initialise (h : Sessions s phases) (hat : phases[thread]? = some (.checked slot g)) :
    Sessions (openedAt s slot) (phases.set thread (.inside slot g)) := by
  have hs := h.sound thread _ hat
  have hg : g = s.currentGeneration slot := hs.current slot g rfl
  have hself : Sound (openedAt s slot) thread (.inside slot g) := by
    refine ⟨hs.holder, fun slot' g' hticket => ?_, hs.current, fun _ hpending => (by cases hpending)⟩
    cases hticket
    exact opened_openedAt.mpr (.inr ⟨rfl, hg⟩)
  refine h.act hat (h.books.initialise (hs.pending slot rfl).1) hself (fun i ph₁ hi hat₁ hs₁ => ?_)
    fun _ hpending => by cases hpending
  refine ⟨hs₁.holder, fun slot' g' hticket => opened_openedAt.mpr (.inl (hs₁.ticket slot' g' hticket)),
    hs₁.current, fun slot' hpending => ⟨(hs₁.pending slot' hpending).1, fun hmem => ?_⟩⟩
  rcases opened_openedAt.mp hmem with hmem | ⟨rfl, -⟩
  · exact (hs₁.pending slot' hpending).2 hmem
  · exact hi (h.alone i thread ph₁ _ slot' hat₁ hat hpending rfl)

/-- The generation of a session is advanced. -/
def advancedAt (s : Shared) (slot : Slot) : Shared :=
  { s with
    currentGeneration := Function.update s.currentGeneration slot (s.currentGeneration slot + 1) }.note
      (.disconnected slot (s.currentGeneration slot))

theorem opened_advancedAt : .opened slot g ∈ (advancedAt s slot').trace ↔ .opened slot g ∈ s.trace :=
  mem_snoc_of_ne (by simp)

theorem generation_advancedAt (s : Shared) (slot : Slot) :
    (advancedAt s slot).currentGeneration slot = s.currentGeneration slot + 1 := Function.update_self ..

theorem generation_advancedAt_of_ne (h : slot' ≠ slot) :
    (advancedAt s slot).currentGeneration slot' = s.currentGeneration slot' := Function.update_of_ne h ..

theorem generation_le_advancedAt (s : Shared) (slot slot' : Slot) :
    s.currentGeneration slot' ≤ (advancedAt s slot).currentGeneration slot' ∧
      (advancedAt s slot).currentGeneration slot' ≤ s.currentGeneration slot' + 1 := by
  by_cases h : slot' = slot
  · rw [h, generation_advancedAt]
    omega
  · rw [generation_advancedAt_of_ne h]
    omega

/-- The new generation was not opened. -/
theorem Books.not_opened_advancedAt (h : Books s) (slot : Slot) :
    .opened slot ((advancedAt s slot).currentGeneration slot) ∉ (advancedAt s slot).trace := by
  rw [opened_advancedAt, generation_advancedAt]
  intro hmem
  have := h.past slot _ hmem
  omega

theorem Books.advance (h : Books s) : Books (advancedAt s slot) := by
  have hle := fun slot' => (generation_le_advancedAt s slot slot').1
  refine ⟨h.ids, fun slot' g hmem => ?_, fun slot' hmem => ?_, fun slot' g hmem => ?_, fun slot' g => ?_,
    fun slot' => ?_⟩
  · exact (h.past slot' g (opened_advancedAt.mp hmem)).trans (hle slot')
  · have hne : slot' ≠ slot := by
      rintro rfl
      exact h.not_opened_advancedAt _ hmem
    rw [opened_advancedAt, generation_advancedAt_of_ne hne] at hmem
    exact h.live slot' hmem
  · have hcases : .disconnected slot' g ∈ s.trace ∨ slot' = slot ∧ g = s.currentGeneration slot := by
      rw [← Event.disconnected.injEq, ← List.mem_singleton, ← List.mem_append]
      exact hmem
    rcases hcases with hmem | ⟨rfl, rfl⟩
    · exact (h.ended slot' g hmem).trans_le (hle slot')
    · rw [generation_advancedAt]
      omega
  · by_cases heq : Event.disconnected slot (s.currentGeneration slot) = .disconnected slot' g
    · have hnew : s.trace.count (.disconnected slot' g) = 0 := by
        rw [← heq, List.count_eq_zero]
        intro hmem
        have := h.ended slot _ hmem
        omega
      rw [advancedAt, count_note, if_pos heq]
      exact Nat.succ_le_succ hnew.le
    · rw [advancedAt, count_note, if_neg heq]
      exact h.once slot' g
  · simpa [advancedAt, count_note, live_note] using h.handed slot'

theorem Sessions.advance (h : Sessions s phases) (hat : phases[thread]? = some (.inside slot g)) :
    Sessions (advancedAt s slot) (phases.set thread (.advanced slot g)) := by
  have hs := h.sound thread _ hat
  have hopened : .opened slot (s.currentGeneration slot) ∈ s.trace := by
    rw [← hs.current slot g rfl]
    exact hs.ticket slot g rfl
  have hself : Sound (advancedAt s slot) thread (.advanced slot g) := by
    refine ⟨hs.holder, fun slot' g' hticket => opened_advancedAt.mpr (hs.ticket slot' g' hticket),
      fun _ _ hcurrent => (by cases hcurrent), fun slot' hpending => ?_⟩
    cases hpending
    exact ⟨h.books.live slot hopened, h.books.not_opened_advancedAt slot⟩
  refine h.act hat h.books.advance hself (fun i ph₁ hi hat₁ hs₁ => ?_) fun slot' hpending => .inr ?_
  · have halone := h.inside_alone hat hat₁ hi
    refine ⟨hs₁.holder, fun slot' g' hticket => opened_advancedAt.mpr (hs₁.ticket slot' g' hticket),
      fun slot' g' hcurrent => ?_, fun slot' hpending => ?_⟩
    · have hne : slot' ≠ slot := by
        rintro rfl
        exact (held_or_pending_of_current hcurrent).elim halone.1 halone.2
      rw [generation_advancedAt_of_ne hne]
      exact hs₁.current slot' g' hcurrent
    · have hne : slot' ≠ slot := by
        rintro rfl
        exact halone.2 hpending
      rw [generation_advancedAt_of_ne hne, opened_advancedAt]
      exact hs₁.pending slot' hpending
  · cases hpending
    intro i ph₁ hi hp
    exact ((h.sound i ph₁ hi).pending slot hp).2 hopened

/-- The id of a session is returned. -/
def returnedAt (s : Shared) (slot : Slot) : Shared :=
  { s with
    idBufferHead := s.idBufferHead - 1
    idBuffer := Function.update s.idBuffer (s.idBufferHead - 1) slot
    live := Function.update s.live slot false }.note (.returned slot)

theorem opened_returnedAt : .opened slot g ∈ (returnedAt s slot').trace ↔ .opened slot g ∈ s.trace :=
  mem_snoc_of_ne (by simp)

theorem live_returnedAt_of_ne (h : slot' ≠ slot) : (returnedAt s slot).live slot' = s.live slot' :=
  Function.update_of_ne h ..

theorem Books.giveBack (h : Books s) (hlive : s.live slot = true)
    (hclosed : .opened slot (s.currentGeneration slot) ∉ s.trace) : Books (returnedAt s slot) := by
  refine ⟨h.ids.give hlive, fun slot' g hmem => h.past slot' g (opened_returnedAt.mp hmem), fun slot' hmem => ?_,
    fun slot' g hmem => ?_, fun slot' g => ?_, fun slot' => ?_⟩
  · have hmem' := opened_returnedAt.mp hmem
    have hne : slot' ≠ slot := by
      rintro rfl
      exact hclosed hmem'
    rw [live_returnedAt_of_ne hne]
    exact h.live slot' hmem'
  · exact h.ended slot' g ((mem_snoc_of_ne (by simp)).mp hmem)
  · simpa [returnedAt, count_note] using h.once slot' g
  · have hhanded := h.handed slot'
    rw [returnedAt, count_note, count_note, live_note]
    by_cases heq : slot = slot'
    · subst heq
      simpa [hlive] using hhanded
    · simpa [heq, Function.update_of_ne (Ne.symm heq)] using hhanded

theorem Sessions.giveBack (h : Sessions s phases) (hat : phases[thread]? = some (.advanced slot g)) :
    Sessions (returnedAt s slot) (phases.set thread (.gone slot g)) := by
  have hs := h.sound thread _ hat
  have hp := hs.pending slot rfl
  have hself : Sound (returnedAt s slot) thread (.gone slot g) := by
    refine ⟨hs.holder, fun slot' g' hticket => opened_returnedAt.mpr (hs.ticket slot' g' hticket),
      fun _ _ hcurrent => (by cases hcurrent), fun _ hpending => (by cases hpending)⟩
  refine h.act hat (h.books.giveBack hp.1 hp.2) hself (fun i ph₁ hi hat₁ hs₁ => ?_)
    fun _ hpending => by cases hpending
  refine ⟨hs₁.holder, fun slot' g' hticket => opened_returnedAt.mpr (hs₁.ticket slot' g' hticket), hs₁.current,
    fun slot' hpending => ?_⟩
  have hne : slot' ≠ slot := by
    rintro rfl
    exact hi (h.alone i thread ph₁ _ slot' hat₁ hat hpending rfl)
  rw [live_returnedAt_of_ne hne, opened_returnedAt]
  exact hs₁.pending slot' hpending

/-! ## Steps -/

theorem set_of_getElem? {A : Type} {l : List A} {a : A} (h : l[i]? = some a) : l.set i a = l := by
  obtain ⟨hi, rfl⟩ := List.getElem?_eq_some_iff.mp h
  exact List.set_getElem_self hi

/-- An operation that keeps the phase, and starts tasks for the session of the
thread. -/
theorem Sessions.quiet (h : Sessions s phases) (hat : phases[thread]? = some ph) (hquiet : Quiet s s')
    (htasks : ∀ task ∈ tasks, ∃ slot g, ph.ticket = some (slot, g) ∧ start task = .outside slot g) :
    Sessions s' (phases.set thread ph ++ tasks.map start) := by
  rw [set_of_getElem? hat]
  refine (hquiet.sessions h).spawn fun ph₁ hph₁ => .inr ?_
  obtain ⟨task, htask, rfl⟩ := List.mem_map.mp hph₁
  obtain ⟨slot, g, hticket, hstart⟩ := htasks task htask
  exact ⟨slot, g, hstart, (hquiet.mem_trace rfl).mpr ((h.sound thread ph hat).ticket slot g hticket)⟩

/-- No task is started. -/
theorem Sessions.noTask (h : Sessions s phases) : Sessions s (phases ++ ([] : List Task).map start) := by
  rw [List.map_nil, List.append_nil]
  exact h

theorem perform_lock {ans : Unit} (h : perform thread (.pMutexLock slot) c s = some (ans, s', tasks)) :
    s.actionLock slot = none ∧
      s' = { s with actionLock := Function.update s.actionLock slot (some thread) } ∧ tasks = [] := by
  simp only [perform] at h
  split at h
  · cases h
  · rename_i hfree
    cases h
    exact ⟨hfree, rfl, rfl⟩

theorem perform_takeId {ans : Option Slot} (h : perform thread .takeId c s = some (ans, s', tasks)) :
    s.idBufferHead = maxSessions ∧ ans = none ∧ s' = s ∧ tasks = [] ∨
    s.idBufferHead ≠ maxSessions ∧ ans = some (s.idBuffer s.idBufferHead) ∧
      s' = taken s (s.idBuffer s.idBufferHead) ∧ tasks = [] := by
  simp only [perform] at h
  split at h
  · rename_i hfull
    cases h
    exact .inl ⟨hfull, rfl, rfl, rfl⟩
  · rename_i hfree
    cases h
    exact .inr ⟨hfree, rfl, rfl, rfl⟩

theorem perform_opcode {ans : Ans .opcode} (h : perform thread .opcode c s = some (ans, s', tasks)) :
    ans.val = c.opcode ∧ s' = s ∧ tasks = [] := by
  simp only [perform] at h
  split at h
  · cases h
    exact ⟨rfl, rfl, rfl⟩
  · cases h

theorem start_next (c : Choice) (slot : Slot) (g : Int) : start (c.next slot g) = .outside slot g := by
  unfold Choice.next
  split <;> rfl

/-- What an operation does to the sessions, for a thread that is allowed to
perform it. -/
theorem Sessions.perform (h : Sessions s phases) (hat : phases[thread]? = some ph) {op : Op}
    (hallowed : Allowed true ph op)
    (howned : ∀ slot, op = .pMutexUnlock slot → ∀ i, s.actionLock slot = some i → i = thread) {ans : Ans op}
    (hperform : perform thread op c s = some (ans, s', tasks)) :
    ∃ ph', ph.next op ans = some ph' ∧ Sessions s' (phases.set thread ph' ++ tasks.map start) := by
  have hs := h.sound thread ph hat
  cases op with
  | pMutexLock slot =>
    obtain ⟨hfree, rfl, rfl⟩ := perform_lock hperform
    obtain ⟨g, rfl⟩ | ⟨g, rfl⟩ | ⟨-, hheld⟩ := hallowed
    · exact ⟨_, rfl, Sessions.noTask (h.lock hat hfree rfl rfl rfl rfl)⟩
    · exact ⟨_, rfl, Sessions.noTask (h.lock hat hfree rfl rfl rfl rfl)⟩
    · cases hfree.symm.trans (hs.holder slot hheld)
  | pMutexUnlock slot =>
    cases hperform
    obtain ⟨g, hph⟩ := hallowed
    have hticket : ph.ticket = some (slot, g) := by
      obtain rfl | rfl | rfl | ⟨-, rfl⟩ := hph <;> rfl
    refine ⟨.outside slot g, ?_, (h.unlock hat (howned slot rfl) hticket).noTask⟩
    show ph.ticket.map _ = _
    rw [hticket]
    rfl
  | currentGeneration slot =>
    cases hperform
    obtain rfl | ⟨g, rfl | rfl⟩ := hallowed
    · refine ⟨_, rfl, Sessions.noTask (h.read hat rfl ?_ ?_ ?_)⟩
      · exact fun _ _ hticket => by cases hticket
      · exact fun _ _ hcurrent => by cases hcurrent; rfl
      · exact fun _ hpending => hpending
    · refine ⟨_, rfl, Sessions.noTask (h.read hat ?_ ?_ ?_ ?_)⟩
      · split <;> rfl
      · split <;> exact fun _ _ hticket => hticket
      · split
        · rename_i hg
          exact fun _ _ hcurrent => by cases hcurrent; exact hg.symm
        · exact fun _ _ hcurrent => by cases hcurrent
      · split <;> exact fun _ hpending => by cases hpending
    · have hg : s.currentGeneration slot = g := (hs.current slot g rfl).symm
      refine ⟨.checked slot g, congrArg some (if_pos hg), Sessions.noTask (h.read hat rfl ?_ hs.current ?_)⟩
      · exact fun _ _ hticket => by cases hticket
      · exact fun _ hpending => hpending
  | advanceGeneration slot =>
    cases hperform
    obtain ⟨g, rfl⟩ := hallowed
    exact ⟨_, rfl, (h.advance hat).noTask⟩
  | takeId =>
    obtain rfl := hallowed
    obtain ⟨-, rfl, rfl, rfl⟩ | ⟨hhead, rfl, rfl, rfl⟩ := perform_takeId hperform
    · exact ⟨_, rfl, Sessions.noTask (h.read hat rfl (fun _ _ ht => ht) (fun _ _ hc => by cases hc) fun _ hp => hp)⟩
    · exact ⟨_, rfl, (h.take hat hhead rfl).noTask⟩
  | returnId slot =>
    cases hperform
    obtain ⟨g, rfl⟩ := hallowed
    exact ⟨_, rfl, (h.giveBack hat).noTask⟩
  | initialise slot =>
    cases hperform
    obtain ⟨g, rfl⟩ := hallowed
    exact ⟨_, rfl, (h.initialise hat).noTask⟩
  | access | send | leave | handle =>
    cases hperform
    exact ⟨_, rfl, h.quiet hat (quiet_note rfl) (List.forall_mem_nil _)⟩
  | test | currentJoinable | joinable =>
    cases hperform
    exact ⟨_, rfl, h.quiet hat (Quiet.refl s) (List.forall_mem_nil _)⟩
  | opcode =>
    obtain ⟨-, rfl, rfl⟩ := perform_opcode hperform
    exact ⟨_, rfl, h.quiet hat (Quiet.refl s') (List.forall_mem_nil _)⟩
  | setJoinable slot joinable =>
    cases hperform
    exact ⟨_, rfl, h.quiet hat quiet_setJoinable (List.forall_mem_nil _)⟩
  | attemptJoin slot joinable g =>
    cases hperform
    obtain rfl := hallowed
    refine ⟨_, rfl, h.quiet hat (quiet_note rfl) fun task htask => ⟨slot, g, rfl, ?_⟩⟩
    split at htask
    · rw [List.mem_singleton.mp htask, start_next]
    · cases htask
  | tcThreadScheduleNext task shutdownTask slot g =>
    cases hperform
    refine ⟨_, rfl, h.quiet hat (Quiet.refl s) fun task htask => ⟨slot, g, hallowed, ?_⟩⟩
    obtain ⟨func, -, rfl⟩ := Option.map_eq_some_iff.mp (Option.mem_toList.mp htask)
    rfl
  | tcThreadScheduleNew task slot g =>
    cases hperform
    refine ⟨_, rfl, h.quiet hat (Quiet.refl s) fun task htask => ⟨slot, g, hallowed, ?_⟩⟩
    split at htask
    · rw [List.mem_singleton.mp htask]
      rfl
    · cases htask
  | crash => exact ans.elim

end

/-- A thread that is about to release a lock does not take it from another
thread. -/
def Owned (s : System) : Label → Prop
  | .act thread _ => ∀ slot, s.op? thread = some (.pMutexUnlock slot) →
    s.shared.actionLock slot = none ∨ s.shared.actionLock slot = some thread
  | _ => True

instance : ∀ s l, Decidable (Owned s l)
  | s, .act thread _ => inferInstanceAs (Decidable (∀ slot, s.op? thread = some (.pMutexUnlock slot) →
    s.shared.actionLock slot = none ∨ s.shared.actionLock slot = some thread))
  | _, .accept => .isTrue trivial
  | _, .kick _ _ => .isTrue trivial

section

variable {router : JoinRouter} {s s' : System}

theorem keeps_program (task : Task) : Keeps (protocol true) (start task) ((semantics router).program task) :=
  (follows_program true router task).mono fun _ _ _ => trivial

theorem keeps_programs (tasks : List Task) :
    List.Forall₂ (Keeps (protocol true)) (tasks.map start) (tasks.map (semantics router).program) := by
  induction tasks with
  | nil => exact .nil
  | cons task tasks ih => exact .cons (keeps_program task) ih

theorem sessions_step {l : Label} (howned : Owned s l) (h : Typed (protocol true) Sessions s)
    (hstep : step router s l = some s') : Typed (protocol true) Sessions s' := by
  cases l with
  | accept =>
    cases hstep
    refine h.start (keeps_program .handleNewSession) fun phases hs => hs.spawn fun ph hph => ?_
    exact .inl (List.mem_singleton.mp hph)
  | kick slot g =>
    simp only [step] at hstep
    split at hstep
    · rename_i hopened
      cases hstep
      refine h.start (keeps_program (.tcServerKickSession slot g)) fun phases hs => hs.spawn fun ph hph => ?_
      exact .inr ⟨slot, g, List.mem_singleton.mp hph, hopened⟩
    · cases hstep
  | act thread c =>
    refine h.act hstep fun phases ph op ans shared tasks hs hph hop hallowed hperform => ?_
    have hown : ∀ slot, op = .pMutexUnlock slot → ∀ i, s.shared.actionLock slot = some i → i = thread := by
      rintro slot rfl i hi
      rcases howned slot hop with hnone | hself
      · cases hnone.symm.trans hi
      · exact (Option.some.inj (hself.symm.trans hi)).symm
    obtain ⟨ph', hnext, hs'⟩ := hs.perform hph hallowed hown hperform
    exact ⟨ph', tasks.map start, ⟨.inl rfl, hnext⟩, keeps_programs tasks, hs'⟩

theorem sessions_init (joinables : Slot → Option Nat) : Typed (protocol true) Sessions (init joinables) := by
  refine ⟨[], .nil, ⟨⟨FreeIds.init fun i j hi hi' hj hj' heq => ?_, ?_, ?_, ?_, ?_, ?_⟩, ?_, ?_⟩⟩
  · rw [Fintype.card_fin] at hi' hj'
    have hmod := Fin.mk.inj heq
    rw [Nat.mod_eq_of_lt (by omega), Nat.mod_eq_of_lt (by omega)] at hmod
    omega
  · exact fun _ _ hmem => absurd hmem List.not_mem_nil
  · exact fun _ hmem => absurd hmem List.not_mem_nil
  · exact fun _ _ hmem => absurd hmem List.not_mem_nil
  · exact fun _ _ => Nat.zero_le 1
  · exact fun _ => rfl
  · exact fun _ _ hat => by cases hat
  · exact fun _ _ _ _ _ hat => by cases hat

end

/-! ## The partition -/

/-- The free ids are different, and they are those of the sessions that are not
live. No generation was disconnected twice, and an id was handed out once more
than it was returned if and only if its session is live. -/
structure Partition (s : Shared) : Prop where
  head : 0 ≤ s.idBufferHead ∧ s.idBufferHead ≤ maxSessions
  distinct : ∀ i j, s.idBufferHead ≤ i → i < maxSessions → s.idBufferHead ≤ j → j < maxSessions →
    s.idBuffer i = s.idBuffer j → i = j
  free : ∀ i, s.idBufferHead ≤ i → i < maxSessions → s.live (s.idBuffer i) = false
  count : s.idBufferHead = (Finset.univ.filter fun slot => s.live slot = true).card
  once : ∀ slot g, s.trace.count (.disconnected slot g) ≤ 1
  handed : ∀ slot, s.trace.count (.handedOut slot) = s.trace.count (.returned slot) + (s.live slot).toNat

theorem Books.partition {s : Shared} (h : Books s) : Partition s := by
  have hids := h.ids
  have hcard : Fintype.card Slot = maxSessions := Fintype.card_fin _
  refine ⟨⟨hids.nonneg, hcard ▸ hids.le_card⟩, ?_, ?_, hids.head_eq, h.once, h.handed⟩
  · exact hcard ▸ hids.distinct
  · exact hcard ▸ hids.free

/-- The slots are a partition in every state that is reached without a lock
being released that another thread holds. -/
theorem slots_partition (router : JoinRouter) (joinables : Slot → Option Nat) {ls : List Label} {s : System}
    (hrun : run (step router) (init joinables) ls = some s)
    (howned : Along (step router) Owned (init joinables) ls) : Partition s.shared := by
  obtain ⟨phases, -, hs⟩ := run_inv_along (fun _ _ _ hown h => sessions_step hown h) howned
    (sessions_init joinables) hrun
  exact hs.books.partition

/-- A handshake to its end, a kick, and a new client in the same slot. -/
def visitAndKick : List Label :=
  handshake 0 ++ acts 3 [yes] ++ [.kick firstSlot 0] ++
    acts 5 [yes, yes, yes, yes, yes, yes, yes, yes, yes, yes] ++ [.accept] ++ acts 6 [yes, yes, yes]

theorem slots_partition_visitAndKick : ∃ s, run (step hub) (init fun _ => none) visitAndKick = some s ∧
    Along (step hub) Owned (init fun _ => none) visitAndKick ∧ s.shared.live firstSlot = true ∧
    Event.disconnected firstSlot 0 ∈ s.shared.trace ∧ Partition s.shared := by
  have hend : (run (step hub) (init fun _ => none) visitAndKick).map (fun s =>
      (s.shared.live firstSlot, decide (Event.disconnected firstSlot 0 ∈ s.shared.trace))) =
      some (true, true) := by decide +kernel
  have howned : Along (step hub) Owned (init fun _ => none) visitAndKick := by decide +kernel
  obtain ⟨s, hrun, hs⟩ := Option.map_eq_some_iff.mp hend
  obtain ⟨hlive, hmem⟩ := Prod.mk.inj hs
  exact ⟨s, hrun, howned, hlive, of_decide_eq_true hmem, slots_partition hub _ hrun howned⟩

/-- A second client is there; the first one has just joined, and the task that
listens to it has taken its lock when the handler releases it again. A kick from
elsewhere gets the lock as well, and both disconnect the session. -/
def doubleDisconnect : List Label :=
  handshake 0 ++ acts 4 [{ joinable := .listen }, yes] ++
    acts 5 [yes, yes] ++ acts 3 [yes] ++ [.kick firstSlot 0] ++ acts 6 [yes, yes] ++
    [.accept] ++ acts 7 [yes, yes, yes, yes, yes, yes, yes, yes] ++
    acts 5 [no, yes, yes, yes, yes, yes, yes, yes, yes, yes] ++ acts 6 [yes, yes, yes, yes, yes]

/-- The id of the first session is free twice, and the next two clients get it. -/
theorem slot_returned_twice :
    (∃ s, run (step hub) (init fun _ => none) doubleDisconnect = some s ∧ ¬ Partition s.shared) ∧
    (run (step hub) (init fun _ => none) (doubleDisconnect ++ [.accept, .accept, .act 9 yes, .act 10 yes])).map
      (fun s => (s.op? 9, s.op? 10)) =
      some (some (.currentGeneration firstSlot), some (.currentGeneration firstSlot)) := by
  refine ⟨?_, by decide +kernel⟩
  have hend : (run (step hub) (init fun _ => none) doubleDisconnect).map (fun s =>
      (s.shared.idBufferHead, s.shared.idBuffer 0, s.shared.idBuffer 1)) = some (0, firstSlot, firstSlot) := by
    decide +kernel
  obtain ⟨s, hrun, hs⟩ := Option.map_eq_some_iff.mp hend
  simp only [Prod.mk.injEq] at hs
  obtain ⟨hhead, h₀, h₁⟩ := hs
  refine ⟨s, hrun, fun hpartition => ?_⟩
  have := hpartition.distinct 0 1 (by omega) (by decide) (by omega) (by decide) (h₀.trans h₁.symm)
  omega

end TC.Proof.Tasks
