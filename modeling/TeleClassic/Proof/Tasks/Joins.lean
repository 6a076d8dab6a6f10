import TeleClassic.Proof.Tasks.Slots

/-!
# Joins and leaves

A joinable should see a session join and leave in turn: `leave` is called on the
interface that the last successful `attempt_join` returned, once
(`membership`). The server compares what `attempt_join` returns with `NULL` only
and remembers the joinable that it asked; and `tc_session_join`, which leaves the
joinable of a session before it asks for another one, does not forget it, so
that a kick inside of it leaves it a second time (`left_twice`). If the
interfaces are those that were asked, and each session that has a joinable is
let in by the one it asks for, or is told of the refusal and let in by the
default one, then joins and leaves alternate (`joins_alternate`).
-/

namespace TC.Proof.Tasks

open TC.Impl.Tasks
open Proc (Ends Lasting exec exec_perform ends_pure ends_op ends_bind ends_last)
open TC.Impl.Server (Slot JoinRouter)

variable {current : Option Nat}

/-! ## Membership -/

/-- The interface in which the session of a slot is after an event; `none` if it
leaves another one, or joins while it is in one. -/
def follow (slot : Slot) (joined : Option Nat) : Event → Option (Option Nat)
  | .left slot' joinable =>
    if slot' ≠ slot then some joined else if joined = some joinable then some none else none
  | .attempted slot' _ (some interface) =>
    if slot' ≠ slot then some joined else if joined = none then some (some interface) else none
  | _ => some joined

/-- The interface in which the session is after all that has happened, if joins
and leaves alternate. -/
def membership (slot : Slot) (trace : List Event) : Option (Option Nat) :=
  trace.foldl (fun joined e => joined.bind fun joined => follow slot joined e) (some none)

theorem membership_snoc (slot : Slot) (trace : List Event) (e : Event) :
    membership slot (trace ++ [e]) = (membership slot trace).bind fun joined => follow slot joined e := by
  rw [membership, List.foldl_append]
  rfl

/-- Each interface that was returned is the one that was asked. -/
def Faithful (slot : Slot) (s : Shared) : Prop :=
  ∀ joinable interface, .attempted slot joinable (some interface) ∈ s.trace → interface = joinable

theorem subset_perform {thread : Nat} {op : Op} {c : Choice} {s s' : Shared} {ans : Ans op} {tasks : List Task}
    (hperform : perform thread op c s = some (ans, s', tasks)) : s.trace ⊆ s'.trace := by
  cases op with
  | pMutexLock slot =>
    obtain ⟨-, rfl, -⟩ := perform_lock hperform
    exact List.Subset.refl _
  | takeId =>
    obtain ⟨-, -, rfl, -⟩ | ⟨-, -, rfl, -⟩ := perform_takeId hperform
    · exact List.Subset.refl _
    · exact List.subset_append_left ..
  | opcode =>
    obtain ⟨-, rfl, -⟩ := perform_opcode hperform
    exact List.Subset.refl _
  | crash => exact ans.elim
  | pMutexUnlock _ | currentGeneration _ | test _ | currentJoinable _ | setJoinable _ _ | joinable
  | tcThreadScheduleNext _ _ _ _ | tcThreadScheduleNew _ _ _ =>
    cases hperform
    exact List.Subset.refl _
  | advanceGeneration _ | returnId _ | initialise _ | access _ | send _ _ | leave _ _ | attemptJoin _ _ _
  | handle _ _ =>
    cases hperform
    exact List.subset_append_left ..

theorem lasting_faithful {router : JoinRouter} {thread : Nat} {slot : Slot} :
    Lasting (semantics router) thread (Faithful slot) :=
  fun _ _ _ _ _ _ hperform hF joinable interface hmem => hF joinable interface (subset_perform hperform hmem)

/-- If each interface is the one that was asked, the program ends with `Q`. -/
abbrev Brings {α : Type} (router : JoinRouter) (slot : Slot) (thread : Nat) (s : Shared) (p : TaskM α)
    (Q : α → Shared → Prop) : Prop := Ends (semantics router) (Faithful slot) thread s p Q

/-! ## Where a session stands -/

/-- What the environment answers in a join: whether a joinable lets the session
in, and whether the message of a refusal is sent. -/
inductive Answer where
  | attempt (letIn : Bool)
  | message (sent : Bool)
deriving DecidableEq, Repr

def answer? (slot : Slot) : Event → Option Answer
  | .attempted slot' _ interface => if slot' = slot then some (.attempt interface.isSome) else none
  | .sent slot' .message ok => if slot' = slot then some (.message ok) else none
  | _ => none

def answers (slot : Slot) (trace : List Event) : List Answer := trace.filterMap (answer? slot)

/-- What a session has joined once the joinable that the server has is left. -/
def leaving (joined : Option (Option Nat)) : Option Nat → Option (Option Nat)
  | none => joined
  | some joinable => joined.bind fun joined => if joined = some joinable then some none else none

theorem leaving_self (current : Option Nat) : leaving (some current) current = some none := by
  cases current with
  | none => rfl
  | some joinable => simp [leaving]

/-- The membership of the session is `joined`, the server has it in `current`,
and `given` was answered. -/
structure Standing (slot : Slot) (joined : Option (Option Nat)) (current : Option Nat) (g : Int) (given : List Answer)
    (s : Shared) : Prop where
  joined : membership slot s.trace = joined
  current : s.currentJoinable slot = current
  generation : s.currentGeneration slot = g
  given : answers slot s.trace = given

variable {new : List Answer}

section

variable {router : JoinRouter} {thread : Nat} {slot : Slot} {joined : Option (Option Nat)} {g g' : Int}
  {given : List Answer} {s : Shared} {joinable : Nat} {aquireLock : Bool}

theorem Standing.setLock (h : Standing slot joined current g given s) (locks : Slot → Option Nat) :
    Standing slot joined current g given { s with actionLock := locks } :=
  ⟨h.joined, h.current, h.generation, h.given⟩

theorem Standing.note (h : Standing slot joined current g given s) (e : Event) :
    Standing slot (joined.bind fun joined => follow slot joined e) current g (given ++ (answer? slot e).toList)
      (s.note e) := by
  refine ⟨?_, h.current, h.generation, ?_⟩
  · rw [← h.joined]
    exact membership_snoc slot s.trace e
  · rw [← h.given]
    show answers slot (s.trace ++ [e]) = _
    rw [answers, List.filterMap_append, List.filterMap_cons, List.filterMap_nil, ← answers]
    cases answer? slot e <;> rfl

/-- An event that is neither a join nor a leave, and no answer. -/
theorem Standing.quiet (h : Standing slot joined current g given s) {e : Event}
    (hjoined : ∀ joined, follow slot joined e = some joined) (hgiven : answer? slot e = none) :
    Standing slot joined current g given (s.note e) := by
  have hnote := h.note e
  simp only [hjoined, hgiven, Option.toList_none, List.append_nil] at hnote
  cases joined <;> exact hnote

theorem ends_aquire (h : Standing slot joined current g given s) :
    Brings router slot thread s (tcSessionAquireActionLock slot g')
      fun aquired s' => Standing slot joined current g given s' ∧ (aquired = true ↔ g = g') := by
  refine ends_op lasting_faithful fun c _ s₁ tasks hlock _ => ?_
  obtain ⟨-, rfl, -⟩ := perform_lock (c := c) hlock
  refine ends_op lasting_faithful fun c ans s₁ tasks hread _ => ?_
  cases hread
  by_cases hg : g = g'
  · rw [if_neg (not_not_intro (h.generation.trans hg))]
    exact ends_pure ⟨h.setLock _, iff_of_true rfl hg⟩
  · rw [if_pos fun heq => hg (h.generation.symm.trans heq)]
    refine ends_op lasting_faithful fun c ans s₁ tasks hunlock _ => ?_
    cases hunlock
    exact ends_pure ⟨(h.setLock _).setLock _, iff_of_false Bool.false_ne_true hg⟩

theorem ends_release (h : Standing slot joined current g given s) :
    Brings router slot thread s (tcSessionReleaseActionLock slot)
      fun _ s' => Standing slot joined current g given s' := by
  refine ends_last fun c ans s₁ tasks hunlock => ?_
  cases hunlock
  exact h.setLock _

theorem ends_releaseIf (h : Standing slot joined current g given s) :
    Brings router slot thread s (releaseIf aquireLock slot)
      fun _ s' => Standing slot joined current g given s' := by
  unfold releaseIf
  split
  · exact ends_release h
  · exact ends_pure h

/-- The joinable of the session is left; the server still has it. -/
theorem ends_leaveCurrent (h : Standing slot joined current g given s) :
    Brings router slot thread s (leaveCurrent slot)
      fun left s' => Standing slot (leaving joined current) current g given s' ∧ (left = true ↔ current.isSome) := by
  refine ends_op lasting_faithful fun c ans s₁ tasks hread _ => ?_
  cases hread
  rw [h.current]
  cases current with
  | none => exact ends_pure ⟨h, by simp⟩
  | some joinable =>
    refine ends_op lasting_faithful fun c ans s₁ tasks hleave _ => ?_
    cases hleave
    have hnote := h.note (.left slot joinable)
    simp only [follow, answer?, ne_eq, not_true_eq_false, if_false, Option.toList_none, List.append_nil] at hnote
    exact ends_pure ⟨hnote, by simp⟩

theorem ends_disconnect (h : Standing slot joined current g given s) :
    Brings router slot thread s (disconnectSession slot)
      fun _ s' => Standing slot (leaving joined current) none (g + 1) given s' := by
  have hforget : Brings router slot thread s (forgetJoinable slot)
      fun _ s' => Standing slot (leaving joined current) none g given s' := by
    refine ends_bind lasting_faithful (ends_leaveCurrent h) fun left s₁ hs₁ => ?_
    split
    · refine ends_last fun c ans s₂ tasks hset => ?_
      cases hset
      exact ⟨hs₁.1.joined, Function.update_self .., hs₁.1.generation, hs₁.1.given⟩
    · rename_i hleft
      have hnone : current = none := by
        rw [← Option.not_isSome_iff_eq_none, ← hs₁.2]
        exact hleft
      subst hnone
      exact ends_pure hs₁.1
  refine ends_bind lasting_faithful hforget fun _ s₁ hs₁ => ?_
  refine ends_op lasting_faithful fun c ans s₂ tasks haccess _ => ?_
  cases haccess
  refine ends_op lasting_faithful fun c ans s₃ tasks hadvance _ => ?_
  cases hadvance
  refine ends_last fun c ans s₄ tasks hreturn => ?_
  cases hreturn
  have hs₂ := hs₁.quiet (e := .accessed slot) (fun _ => rfl) rfl
  have hs₃ := hs₂.quiet (e := .disconnected slot ((s₁.note (.accessed slot)).currentGeneration slot)) (fun _ => rfl) rfl
  have hs₄ := hs₃.quiet (e := .returned slot) (fun _ => rfl) rfl
  refine ⟨hs₄.joined, hs₄.current, ?_, hs₄.given⟩
  rw [← hs₂.generation]
  exact Function.update_self ..

theorem ends_kick (hasMsg : Bool) (h : Standing slot joined current g given s) :
    Brings router slot thread s (kick slot hasMsg)
      fun _ s' => Standing slot (leaving joined current) none (g + 1) given s' := by
  unfold kick
  split
  · refine ends_op lasting_faithful fun c ans s₁ tasks hsend _ => ?_
    cases hsend
    exact ends_disconnect (h.quiet (fun _ => rfl) rfl)
  · exact ends_disconnect h

/-! ## Joining -/

/-- The session is let in by the joinable it asks for, or is told that it is not
and let in by the default one. -/
def admitted : List (List Answer) := [[.attempt true], [.attempt false, .message true, .attempt true]]

/-- How a join ends for a session that had `current`: the session has joined what
the server has then, or it was not let in and is kicked. -/
def Joined (slot : Slot) (current : Option Nat) (g : Int) (given : List Answer) (s : Shared) : Prop :=
  (∃ joinable, ∃ new ∈ admitted, Standing slot (some (some joinable)) (some joinable) g (given ++ new) s) ∨
    ∃ new, new ≠ [] ∧ new ∉ admitted ∧ Standing slot (leaving (some none) current) none (g + 1) (given ++ new) s

theorem ends_kickJoining (hnew : new ≠ [] ∧ new ∉ admitted)
    (h : Standing slot (some none) current g (given ++ new) s) :
    Brings router slot thread s (kickJoining slot aquireLock) fun _ => Joined slot current g given := by
  have hkick : Brings router slot thread s (tcServerKickSession slot true (-1) false)
      fun _ s' => Standing slot (leaving (some none) current) none (g + 1) (given ++ new) s' := ends_kick true h
  refine ends_bind lasting_faithful hkick fun _ s₁ hs₁ => ?_
  exact ends_bind lasting_faithful (ends_releaseIf hs₁) fun _ s₂ hs₂ => ends_pure (.inr ⟨new, hnew.1, hnew.2, hs₂⟩)

theorem ends_enter (hnew : new ∈ admitted)
    (h : Standing slot (some (some joinable)) current g (given ++ new) s) :
    Brings router slot thread s (enter slot joinable aquireLock) fun _ => Joined slot current g given := by
  refine ends_op lasting_faithful fun c ans s₁ tasks hset _ => ?_
  cases hset
  have hs₁ : Standing slot (some (some joinable)) (some joinable) g (given ++ new)
      { s with currentJoinable := Function.update s.currentJoinable slot (some joinable) } :=
    ⟨h.joined, Function.update_self .., h.generation, h.given⟩
  exact ends_bind lasting_faithful (ends_releaseIf hs₁) fun _ s₂ hs₂ => ends_pure (.inl ⟨joinable, new, hnew, hs₂⟩)

/-- What follows an attempt to join, by a session that is in no joinable. -/
theorem ends_attemptJoin (h : Standing slot (some none) current g (given ++ new) s)
    {f : Option Nat → TaskM Bool} {Q : Bool → Shared → Prop}
    (hrefused : ∀ s', Standing slot (some none) current g (given ++ (new ++ [.attempt false])) s' →
      Brings router slot thread s' (f none) Q)
    (hjoined : ∀ s', Standing slot (some (some joinable)) current g (given ++ (new ++ [.attempt true])) s' →
      Brings router slot thread s' (f (some joinable)) Q) :
    Brings router slot thread s (op (.attemptJoin slot joinable g') >>= f) Q := by
  refine ends_op lasting_faithful fun c ans s₁ tasks hattempt hfaithful => ?_
  cases hattempt
  have hnote := h.note (.attempted slot joinable c.interface)
  simp only [answer?, if_true, Option.toList_some, List.append_assoc, Option.bind_some] at hnote
  cases hinterface : c.interface with
  | none =>
    rw [hinterface] at hnote
    exact hrefused _ hnote
  | some interface =>
    rw [hinterface] at hnote hfaithful
    have hself : interface = joinable :=
      hfaithful joinable interface (List.mem_append_right _ List.mem_cons_self)
    subst hself
    simp only [follow, ne_eq, not_true_eq_false, if_false, if_true] at hnote
    exact hjoined _ hnote

theorem ends_rerouteToDefault (h : Standing slot (some none) current g (given ++ [.attempt false]) s) :
    Brings router slot thread s (rerouteToDefault router slot g' aquireLock)
      fun _ => Joined slot current g given := by
  refine ends_op lasting_faithful fun c sent s₁ tasks hsend _ => ?_
  cases hsend
  have hs₁ (ok : Bool) (hok : c.yes = ok) : Standing slot (some none) current g
      (given ++ [.attempt false, .message ok]) (s.note (.sent slot .message c.yes)) := by
    have hnote := h.note (.sent slot .message c.yes)
    rw [List.append_assoc, answer?, if_pos rfl, hok] at hnote
    exact hok ▸ hnote
  split
  · rename_i hyes
    split
    · intro choices a s' hexec
      obtain ⟨c, rest, ans, -⟩ := exec_perform.mp hexec
      exact ans.elim
    · refine ends_attemptJoin (hs₁ true hyes) (fun s₂ hs₂ => ?_) fun s₂ hs₂ => ?_
      · exact ends_kickJoining (by decide) hs₂
      · exact ends_enter (by decide) hs₂
  · rename_i hno
    exact ends_kickJoining (by decide) (hs₁ false (Bool.eq_false_iff.mpr hno))

theorem ends_joinFound (h : Standing slot (some current) current g given s) : Brings router slot thread s
    (joinFound router slot joinable g' aquireLock) fun _ => Joined slot current g given := by
  refine ends_bind lasting_faithful (ends_leaveCurrent h) fun _ s₁ hs₁ => ?_
  have hleft : Standing slot (some none) current g (given ++ []) s₁ := by
    rw [List.append_nil, ← leaving_self current]
    exact hs₁.1
  refine ends_attemptJoin hleft (fun s₂ hs₂ => ?_) fun s₂ hs₂ => ?_
  · exact ends_rerouteToDefault hs₂
  · exact ends_enter (by decide) hs₂

end

/-- The server has what the session has joined, and nothing once the generation
is over. -/
structure InStep (slot : Slot) (g : Int) (s : Shared) : Prop where
  joined : membership slot s.trace = some (s.currentJoinable slot)
  gone : s.currentGeneration slot ≠ g → s.currentJoinable slot = none

/-! ## Visits -/

/-- A call of `tc_session_join`: with `aquire_lock` it takes the lock of the
session itself, without it the caller holds the lock. -/
def joinCall (router : JoinRouter) (slot : Slot) (address : Option String) (g : Int) (aquireLock : Bool) : TaskM Unit := do
  if aquireLock then
    let _ ← tcSessionJoin router slot address g true
  else
    unless ← tcSessionAquireActionLock slot g do return
    let _ ← tcSessionJoin router slot address g false
    tcSessionReleaseActionLock slot

/-- A call for a session, with what the environment answers in it. -/
inductive Call where
  | join (address : Option String) (aquireLock : Bool) (choices : List Choice)
  | disconnect (choices : List Choice)

/-- The calls for the session of a generation, one after another. -/
def callStep (router : JoinRouter) (slot : Slot) (g : Int) (s : Shared) : Call → Option Shared
  | .join address aquireLock choices =>
    (exec (semantics router) 0 (joinCall router slot address g aquireLock) choices s).map Prod.snd
  | .disconnect choices => (exec (semantics router) 0 (tcServerKickSession slot true g true) choices s).map Prod.snd

/-- What is answered in a call. -/
def newAnswers (slot : Slot) (s s' : Shared) : List Answer :=
  (answers slot s'.trace).drop (answers slot s.trace).length

/-- A session that has a joinable is let in, if there is an attempt to join. -/
def Welcome (router : JoinRouter) (slot : Slot) (g : Int) (s : Shared) (call : Call) : Prop :=
  s.currentJoinable slot = none ∨ ∀ s' ∈ callStep router slot g s call,
    newAnswers slot s s' = [] ∨ newAnswers slot s s' ∈ admitted

instance (router : JoinRouter) (slot : Slot) (g : Int) (s : Shared) (call : Call) :
    Decidable (Welcome router slot g s call) := inferInstanceAs (Decidable (_ ∨ _))

variable {given : List Answer}

section

variable {router : JoinRouter} {thread : Nat} {slot : Slot} {g : Int} {s s' : Shared}

theorem InStep.standing (h : InStep slot g s) : Standing slot (some (s.currentJoinable slot)) (s.currentJoinable slot)
    (s.currentGeneration slot) (answers slot s.trace) s :=
  ⟨h.joined, rfl, rfl, rfl⟩

theorem Standing.inStep {g' : Int} (h : Standing slot (some current) current g' given s)
    (hgone : g' ≠ g → current = none) : InStep slot g s := by
  refine ⟨?_, fun hne => ?_⟩
  · rw [h.joined, h.current]
  · rw [h.current]
    exact hgone (h.generation ▸ hne)

/-- How a call of `tc_session_join` ends, if the session had `current`. -/
def JoinEnds (slot : Slot) (g : Int) (current : Option Nat) (given : List Answer) (s : Shared) : Prop :=
  InStep slot g s ∨ ∃ new, new ≠ [] ∧ new ∉ admitted ∧ answers slot s.trace = given ++ new ∧ current ≠ none

theorem Joined.joinEnds (h : Joined slot current g given s) : JoinEnds slot g current given s := by
  obtain ⟨joinable, new, -, hs⟩ | ⟨new, hne, hnot, hs⟩ := h
  · exact .inl (hs.inStep fun hne => absurd rfl hne)
  · by_cases hcurrent : current = none
    · subst hcurrent
      exact .inl (hs.inStep fun _ => rfl)
    · exact .inr ⟨new, hne, hnot, hs.given, hcurrent⟩

theorem JoinEnds.setLock (h : JoinEnds slot g current given s) (locks : Slot → Option Nat) :
    JoinEnds slot g current given { s with actionLock := locks } := by
  obtain h | h := h
  · exact .inl ⟨h.joined, h.gone⟩
  · exact .inr h

theorem ends_joinCall (h : InStep slot g s) {address : Option String} {aquireLock : Bool} :
    Brings router slot thread s (joinCall router slot address g aquireLock)
      fun _ s' => JoinEnds slot g (s.currentJoinable slot) (answers slot s.trace) s' := by
  -- the call itself, with the lock taken by it or by the caller
  have hfound {s₁ : Shared} {joinable : Nat} (hs₁ : Standing slot (some (s.currentJoinable slot))
      (s.currentJoinable slot) (s.currentGeneration slot) (answers slot s.trace) s₁)
      (hg : s.currentGeneration slot = g) : Brings router slot thread s₁
        (joinFound router slot joinable g aquireLock)
        fun _ => JoinEnds slot g (s.currentJoinable slot) (answers slot s.trace) := by
    rw [hg] at hs₁
    exact (ends_joinFound hs₁).mono fun _ _ hs' => hs'.joinEnds
  cases aquireLock with
  | true =>
    refine ends_bind lasting_faithful (Q := fun _ => JoinEnds slot g (s.currentJoinable slot) (answers slot s.trace)) ?_
      fun _ s₁ hs₁ => ends_pure hs₁
    unfold tcSessionJoin
    split
    · exact ends_pure (.inl h)
    · refine ends_bind lasting_faithful (ends_aquire h.standing) fun aquired s₁ hs₁ => ?_
      split
      · rename_i haquired
        exact hfound hs₁.1 (hs₁.2.mp haquired)
      · exact ends_pure (.inl (hs₁.1.inStep h.gone))
  | false =>
    refine ends_bind lasting_faithful (ends_aquire h.standing) fun aquired s₁ hs₁ => ?_
    split
    · rename_i haquired
      refine ends_bind lasting_faithful (Q := fun _ => JoinEnds slot g (s.currentJoinable slot) (answers slot s.trace)) ?_
        fun _ s₂ hs₂ => ?_
      · unfold tcSessionJoin
        split
        · exact ends_pure (.inl (hs₁.1.inStep h.gone))
        · exact hfound hs₁.1 (hs₁.2.mp haquired)
      · refine ends_last fun c ans s₃ tasks hunlock => ?_
        cases hunlock
        exact hs₂.setLock _
    · exact ends_pure (.inl (hs₁.1.inStep h.gone))

/-- After a kick that takes the lock the session has nothing. -/
theorem ends_kickLast (h : InStep slot g s) {hasMsg : Bool} : Brings router slot thread s
    (tcServerKickSession slot hasMsg g true) fun _ s' => InStep slot g s' ∧ s'.currentJoinable slot = none := by
  refine ends_bind lasting_faithful (ends_aquire h.standing) fun aquired s₁ hs₁ => ?_
  split
  · refine ends_bind lasting_faithful (ends_kick hasMsg hs₁.1) fun _ s₂ hs₂ => ?_
    rw [leaving_self] at hs₂
    exact (ends_release hs₂).mono fun _ _ hs₃ => ⟨hs₃.inStep fun _ => rfl, hs₃.current⟩
  · rename_i haquired
    refine ends_pure ⟨hs₁.1.inStep h.gone, ?_⟩
    rw [hs₁.1.current]
    exact h.gone fun hg => haquired (hs₁.2.mpr hg)

theorem Faithful.of_callStep {call : Call} (hstep : callStep router slot g s call = some s')
    (h : Faithful slot s') : Faithful slot s := by
  cases call with
  | join address aquireLock choices =>
    obtain ⟨⟨ok, s₁⟩, hexec, rfl⟩ := Option.map_eq_some_iff.mp hstep
    exact lasting_faithful.of_exec hexec h
  | disconnect choices =>
    obtain ⟨⟨_, s₁⟩, hexec, rfl⟩ := Option.map_eq_some_iff.mp hstep
    exact lasting_faithful.of_exec hexec h

theorem Faithful.of_run {calls : List Call} (hrun : run (callStep router slot g) s calls = some s')
    (h : Faithful slot s') : Faithful slot s := by
  induction calls generalizing s with
  | nil => exact Option.some.inj hrun ▸ h
  | cons call calls ih =>
    obtain ⟨s₁, hstep, hrun₁⟩ := run_cons.mp hrun
    exact (ih hrun₁).of_callStep hstep

theorem InStep.callStep {call : Call} (h : InStep slot g s) (hwelcome : Welcome router slot g s call)
    (hfaithful : Faithful slot s') (hstep : callStep router slot g s call = some s') : InStep slot g s' := by
  cases call with
  | join address aquireLock choices =>
    have hcall := hstep
    obtain ⟨⟨_, s₁⟩, hexec, rfl⟩ := Option.map_eq_some_iff.mp hstep
    obtain hs₁ | ⟨new, hne, hnot, hgiven, hcurrent⟩ := ends_joinCall h choices () s₁ hexec hfaithful
    · exact hs₁
    · have hnew : newAnswers slot s s₁ = new := by rw [newAnswers, hgiven, List.drop_left]
      obtain hnone | hlet := hwelcome
      · exact absurd hnone hcurrent
      · have hadmitted := hlet s₁ hcall
        rw [hnew] at hadmitted
        exact absurd hadmitted (not_or.mpr ⟨hne, hnot⟩)
  | disconnect choices =>
    obtain ⟨⟨_, s₁⟩, hexec, rfl⟩ := Option.map_eq_some_iff.mp hstep
    exact (ends_kickLast h choices () s₁ hexec hfaithful).1

theorem InStep.run {calls : List Call} (h : InStep slot g s)
    (hwelcome : Along (Tasks.callStep router slot g) (Welcome router slot g) s calls) (hfaithful : Faithful slot s')
    (hrun : run (Tasks.callStep router slot g) s calls = some s') : InStep slot g s' := by
  induction calls generalizing s with
  | nil => exact Option.some.inj hrun ▸ h
  | cons call calls ih =>
    obtain ⟨s₁, hstep, hrun₁⟩ := run_cons.mp hrun
    exact ih (h.callStep hwelcome.1 (hfaithful.of_run hrun₁) hstep) (hwelcome.2 s₁ hstep) hrun₁

end

/-- In a visit in which every interface is the one that was asked, and in which
a session that has a joinable is let in whenever it joins, joins and leaves
alternate, and at the end the session is in no joinable. -/
theorem joins_alternate (router : JoinRouter) (slot : Slot) (g : Int) {s s' : Shared} {calls : List Call}
    {choices : List Choice} (hnew : s.currentJoinable slot = none) (htrace : membership slot s.trace = some none)
    (hrun : run (callStep router slot g) s (calls ++ [.disconnect choices]) = some s')
    (hwelcome : Along (callStep router slot g) (Welcome router slot g) s calls) (hfaithful : Faithful slot s') :
    membership slot s'.trace = some none := by
  have hstart : InStep slot g s := ⟨hnew ▸ htrace, fun _ => hnew⟩
  obtain ⟨s₁, hcalls, hlast⟩ := run_append.mp hrun
  have hs₁ := hstart.run hwelcome (hfaithful.of_run hlast) hcalls
  obtain ⟨s₂, hstep, hend⟩ := run_cons.mp hlast
  obtain rfl := Option.some.inj hend
  obtain ⟨⟨_, s₃⟩, hexec, rfl⟩ := Option.map_eq_some_iff.mp hstep
  obtain ⟨hs₃, hnone⟩ := ends_kickLast hs₁ choices () s₃ hexec hfaithful
  rw [hs₃.joined, hnone]

/-- The default joinable lets the session in. -/
def letIn : Choice := { interface := some 0 }

/-- A session joins with the lock held by the caller. Then it joins again, is
refused, told so, and let in after all. -/
def twoJoins : List Call :=
  [.join none false [yes, yes, yes, letIn, yes, yes],
    .join none true [yes, yes, yes, yes, yes, yes, letIn, yes, yes]]

/-- The lock, a kick, and the release. -/
def leavingChoices : List Choice := List.replicate 10 yes

theorem joins_alternate_twoJoins : ∃ s', run (callStep hub firstSlot 0) (init fun _ => none).shared
      (twoJoins ++ [.disconnect leavingChoices]) = some s' ∧
    s'.trace.count (.left firstSlot 0) = 2 ∧ membership firstSlot s'.trace = some none := by
  have hend : (run (callStep hub firstSlot 0) (init fun _ => none).shared
      (twoJoins ++ [.disconnect leavingChoices])).map (fun s => s.trace) =
      some [.attempted firstSlot 0 (some 0), .left firstSlot 0, .attempted firstSlot 0 none,
        .sent firstSlot .message true, .attempted firstSlot 0 (some 0),
        .sent firstSlot .kick true, .left firstSlot 0, .accessed firstSlot, .disconnected firstSlot 0,
        .returned firstSlot] := by decide +kernel
  have hwelcome : Along (callStep hub firstSlot 0) (Welcome hub firstSlot 0) (init fun _ => none).shared twoJoins := by
    decide +kernel
  obtain ⟨s', hrun, htrace⟩ := Option.map_eq_some_iff.mp hend
  have hfaithful : Faithful firstSlot s' := by
    intro joinable interface hmem
    rw [htrace] at hmem
    simp only [List.mem_cons, Event.attempted.injEq, Option.some.injEq, List.not_mem_nil, or_false,
      reduceCtorEq, false_or, or_self, and_false] at hmem
    rw [hmem.2.1, hmem.2.2]
  refine ⟨s', hrun, ?_, joins_alternate hub firstSlot 0 rfl rfl hrun hwelcome hfaithful⟩
  rw [htrace]
  decide

/-- A session that has joined leaves to join again, is refused, and cannot be
told. -/
def refusedJoin : List Call :=
  [.join none false [yes, yes, yes, letIn, yes, yes],
    .join none true [yes, yes, yes, yes, yes, no, yes, yes, yes, yes, yes, yes, yes, yes],
    .disconnect [yes, yes, yes]]

/-- The joinable lets the session in with another interface. -/
def otherInterface : List Call :=
  [.join none false [yes, yes, yes, { interface := some 7 }, yes, yes], .disconnect leavingChoices]

/-- In the first visit the joinable is left twice after one join, in the second
one it is left although the session has joined another one. -/
theorem left_twice :
    (run (callStep hub firstSlot 0) (init fun _ => none).shared refusedJoin).map (fun s =>
      (s.trace.count (.attempted firstSlot 0 (some 0)), s.trace.count (.left firstSlot 0),
        membership firstSlot s.trace)) = some (1, 2, none) ∧
    (run (callStep hub firstSlot 0) (init fun _ => none).shared otherInterface).map (fun s =>
      (s.trace.count (.attempted firstSlot 0 (some 7)), s.trace.count (.left firstSlot 0),
        membership firstSlot s.trace)) = some (1, 1, none) := by
  decide +kernel

end TC.Proof.Tasks
