import TeleClassic.Impl.Tasks

/-!
# The phases of a task

Where a task is in its use of a session: outside of its lock with a generation
that it was scheduled for, in the lock before and after it has compared the
generations, and in the parts of `disconnect_session`; or, for
`handle_new_session`, on the way to a session of its own. The `protocol` says
which operations belong to which phase, and every task keeps to it
(`follows_program`).

Two things are wrong in the tasks: a lock is released that was released before,
and a lock is taken that is held. The protocol lets them through if it is
`lenient`; if it is not, then after a `Benign` answer only, none of them
happens.
-/

namespace TC.Proof.Tasks

open TC.Impl.Tasks
open Proc (Follows follows_pure follows_bind)
open TC.Impl.Server (Slot Func JoinRouter)

/-! ## The protocol -/

inductive Phase where
  /-- Nothing is known of any session. -/
  | idle
  /-- The id is taken from the free ones. -/
  | fresh (slot : Slot)
  /-- The generation of the new session is read. -/
  | known (slot : Slot) (g : Int)
  /-- The lock of the new session is taken. -/
  | opening (slot : Slot) (g : Int)
  /-- The generation was compared, and the session is to be initialised. -/
  | checked (slot : Slot) (g : Int)
  /-- The lock is not held. -/
  | outside (slot : Slot) (g : Int)
  /-- The lock is taken, and the generations are not yet compared. -/
  | entered (slot : Slot) (g : Int)
  /-- The generation is another one. -/
  | stale (slot : Slot) (g : Int)
  /-- The generation is the right one. -/
  | inside (slot : Slot) (g : Int)
  /-- The generation was advanced, and the id is not yet returned. -/
  | advanced (slot : Slot) (g : Int)
  /-- The session was disconnected. -/
  | gone (slot : Slot) (g : Int)
deriving DecidableEq

/-- The session whose lock is held. -/
def Phase.held : Phase → Option Slot
  | .idle | .fresh _ | .known _ _ | .outside _ _ => none
  | .opening slot _ | .checked slot _ | .entered slot _ | .stale slot _ | .inside slot _ | .advanced slot _
  | .gone slot _ => some slot

/-- The session for which the task was scheduled. -/
def Phase.ticket : Phase → Option (Slot × Int)
  | .idle | .fresh _ | .known _ _ | .opening _ _ | .checked _ _ => none
  | .outside slot g | .entered slot g | .stale slot g | .inside slot g | .advanced slot g | .gone slot g =>
    some (slot, g)

/-- The session that is on its way from or to the free ids. -/
def Phase.pending : Phase → Option Slot
  | .fresh slot | .known slot _ | .opening slot _ | .checked slot _ | .advanced slot _ => some slot
  | _ => none

/-- The phases in which an operation is performed. -/
def Allowed (lenient : Bool) (ph : Phase) : Op → Prop
  | .pMutexLock slot =>
    (∃ g, ph = .outside slot g) ∨ (∃ g, ph = .known slot g) ∨ lenient = true ∧ ph.held = some slot
  | .pMutexUnlock slot =>
    ∃ g, ph = .stale slot g ∨ ph = .inside slot g ∨ ph = .gone slot g ∨ lenient = true ∧ ph = .outside slot g
  | .currentGeneration slot => ph = .fresh slot ∨ ∃ g, ph = .entered slot g ∨ ph = .opening slot g
  | .advanceGeneration slot => ∃ g, ph = .inside slot g
  | .takeId => ph = .idle
  | .returnId slot => ∃ g, ph = .advanced slot g
  | .initialise slot => ∃ g, ph = .checked slot g
  | .access slot => ∃ g, ph = .inside slot g ∨ ph = .gone slot g
  | .send slot _ | .currentJoinable slot | .setJoinable slot _ | .leave slot _ | .handle slot _ =>
    ∃ g, ph = .inside slot g
  | .attemptJoin slot _ g => ph = .inside slot g
  | .tcThreadScheduleNext _ _ slot g | .tcThreadScheduleNew _ slot g => ph.ticket = some (slot, g)
  | .test _ | .opcode | .joinable | .crash => True

/-- The phase after an answer; a lock that is held cannot be taken. -/
def Phase.next (ph : Phase) (op : Op) (ans : Ans op) : Option Phase :=
  match op with
  | .pMutexLock _ =>
    match ph with
    | .outside slot g => some (.entered slot g)
    | .known slot g => some (.opening slot g)
    | _ => none
  | .pMutexUnlock _ => ph.ticket.map fun (slot, g) => .outside slot g
  | .currentGeneration _ =>
    match ph with
    | .fresh slot => some (.known slot ans)
    | .entered slot g => some (if ans = g then .inside slot g else .stale slot g)
    | .opening slot g => some (if ans = g then .checked slot g else .stale slot g)
    | _ => none
  | .advanceGeneration _ => ph.ticket.map fun (slot, g) => .advanced slot g
  | .returnId _ => ph.ticket.map fun (slot, g) => .gone slot g
  | .takeId => some (Option.elim ans .idle .fresh)
  | .initialise _ =>
    match ph with
    | .checked slot g => some (.inside slot g)
    | _ => none
  | _ => some ph

/-- An answer after which no lock is taken or released twice: the server's
identification is not sent, and the task that listens to a new client is
scheduled. -/
def Benign : (op : Op) → Ans op → Prop
  | .send _ .serverIdentification, sent => sent = false
  | .tcThreadScheduleNew .tcServerClientListenTask _ _, scheduled => scheduled = true
  | _, _ => True

def protocol (lenient : Bool) : Protocol Op Ans Phase where
  allowed := Allowed lenient
  after ph op ans ph' := (lenient = true ∨ Benign op ans) ∧ ph.next op ans = some ph'

/-! ## Locks -/

/-- The program ends in the phase. -/
abbrev At {α : Type} (ph : Phase) : α → Phase → Prop := fun _ ph' => ph' = ph

/-- From the phase on, the program obeys the protocol and ends with `Q`. -/
abbrev Obeys {α : Type} (lenient : Bool) (Q : α → Phase → Prop) (ph : Phase) (p : TaskM α) : Prop :=
  Follows (protocol lenient) Q ph p

section

variable {α : Type} {lenient : Bool} {slot : Slot} {g : Int} {ph : Phase} {Q : α → Phase → Prop}
  {f : Bool → TaskM α}

/-- What is returned says in which phase the program has ended. -/
theorem follows_then {β : Type} {p : TaskM β} {f : β → TaskM α} {next : β → Phase}
    (hp : Obeys lenient (fun a ph' => ph' = next a) ph p)
    (hf : ∀ a, Obeys lenient Q (next a) (f a)) : Obeys lenient Q ph (p >>= f) :=
  follows_bind hp fun a _ hph => hph ▸ hf a

theorem follows_perform {o : Op} {f : Ans o → TaskM α} (ha : Allowed lenient ph o)
    (hf : ∀ ans ph', lenient = true ∨ Benign o ans → ph.next o ans = some ph' → Obeys lenient Q ph' (f ans)) :
    Obeys lenient Q ph (op o >>= f) :=
  ⟨ha, fun ans ph' hafter => hf ans ph' hafter.1 hafter.2⟩

/-- An operation that keeps the phase. -/
theorem follows_quiet {o : Op} {f : Ans o → TaskM α} (ha : Allowed lenient ph o)
    (hnext : ∀ ans, ph.next o ans = some ph)
    (hf : ∀ ans, lenient = true ∨ Benign o ans → Obeys lenient Q ph (f ans)) :
    Obeys lenient Q ph (op o >>= f) := by
  refine follows_perform ha fun ans ph' hans hph => ?_
  obtain rfl := Option.some.inj ((hnext ans).symm.trans hph)
  exact hf ans hans

theorem follows_test {t : Test} (hf : ∀ b, Obeys lenient Q ph (f b)) : Obeys lenient Q ph (test t >>= f) :=
  follows_quiet (o := .test t) trivial (fun _ => rfl) fun b _ => hf b

theorem follows_send {packet : Packet}
    (hf : ∀ b, lenient = true ∨ Benign (.send slot packet) b → Obeys lenient Q (.inside slot g) (f b)) :
    Obeys lenient Q (.inside slot g) (send slot packet >>= f) :=
  follows_quiet (o := .send slot packet) ⟨g, rfl⟩ (fun _ => rfl) hf

theorem follows_access (h : ph = .inside slot g ∨ ph = .gone slot g) :
    Obeys lenient (At ph) ph (access slot) :=
  ⟨⟨g, h⟩, fun _ _ hafter => (Option.some.inj hafter.2).symm⟩

/-- What is scheduled is for the session of the task. -/
theorem follows_scheduleNext {task shutdownTask : Option Func} (h : ph.ticket = some (slot, g)) :
    Obeys lenient (At ph) ph (tcThreadScheduleNext task shutdownTask slot g) :=
  ⟨h, fun _ _ hafter => (Option.some.inj hafter.2).symm⟩

theorem follows_scheduleNew {task : Func} (h : ph.ticket = some (slot, g))
    (hf : ∀ b, lenient = true ∨ Benign (.tcThreadScheduleNew task slot g) b → Obeys lenient Q ph (f b)) :
    Obeys lenient Q ph (tcThreadScheduleNew task slot g >>= f) :=
  follows_quiet (o := .tcThreadScheduleNew task slot g) h (fun _ => rfl) hf

/-- The generations are compared, and the lock is released if they differ. -/
theorem follows_compare {current : Int} {right : Phase} : Obeys lenient
    (fun aquired ph => ph = if aquired = true then right else .outside slot g)
    (if current = g then right else .stale slot g)
    (if current ≠ g then do op (.pMutexUnlock slot); return false else return true) := by
  by_cases h : current = g
  · rw [if_pos h, if_neg (not_not_intro h)]
    exact follows_pure rfl
  · rw [if_neg h, if_pos h]
    refine follows_perform (o := .pMutexUnlock slot) ⟨g, .inl rfl⟩ fun _ ph _ hunlock => ?_
    exact follows_pure (Option.some.inj hunlock).symm

theorem follows_aquire : Obeys lenient
    (fun aquired ph => ph = if aquired = true then .inside slot g else .outside slot g) (.outside slot g)
    (tcSessionAquireActionLock slot g) := by
  refine follows_perform (o := .pMutexLock slot) (.inl ⟨g, rfl⟩) fun _ ph _ hlock => ?_
  obtain rfl := Option.some.inj hlock
  refine follows_perform (o := .currentGeneration slot) (.inr ⟨g, .inl rfl⟩) fun current ph _ hread => ?_
  obtain rfl := Option.some.inj hread
  exact follows_compare

/-- The lock of a new session. -/
theorem follows_aquireNew : Obeys lenient
    (fun aquired ph => ph = if aquired = true then .checked slot g else .outside slot g) (.known slot g)
    (tcSessionAquireActionLock slot g) := by
  refine follows_perform (o := .pMutexLock slot) (.inr (.inl ⟨g, rfl⟩)) fun _ ph _ hlock => ?_
  obtain rfl := Option.some.inj hlock
  refine follows_perform (o := .currentGeneration slot) (.inr ⟨g, .inr rfl⟩) fun current ph _ hread => ?_
  obtain rfl := Option.some.inj hread
  exact follows_compare

/-- A task that does nothing if the generation is another one. -/
theorem follows_withLock {Q : Unit → Phase → Prop} {body : TaskM Unit}
    (hbody : Obeys lenient Q (.inside slot g) body) (hstale : Q () (.outside slot g)) :
    Obeys lenient Q (.outside slot g)
      (tcSessionAquireActionLock slot g >>= fun aquired => if aquired = true then body else pure ()) := by
  refine follows_then follows_aquire fun aquired => ?_
  split
  · exact hbody
  · exact follows_pure hstale

theorem follows_release (h : ph = .stale slot g ∨ ph = .inside slot g ∨ ph = .gone slot g ∨
    lenient = true ∧ ph = .outside slot g) :
    Obeys lenient (At (.outside slot g)) ph (tcSessionReleaseActionLock slot) := by
  refine ⟨⟨g, h⟩, fun _ ph' hafter => ?_⟩
  rcases h with rfl | rfl | rfl | ⟨-, rfl⟩ <;> exact (Option.some.inj hafter.2).symm

/-! ## Disconnecting -/

theorem follows_leaveCurrent :
    Obeys lenient (At (.inside slot g)) (.inside slot g) (leaveCurrent slot) := by
  refine follows_quiet (o := .currentJoinable slot) ⟨g, rfl⟩ (fun _ => rfl) fun joinable _ => ?_
  cases joinable with
  | none => exact follows_pure rfl
  | some joinable =>
    exact follows_quiet (o := .leave slot joinable) ⟨g, rfl⟩ (fun _ => rfl) fun _ _ => follows_pure rfl

theorem follows_disconnect :
    Obeys lenient (At (.gone slot g)) (.inside slot g) (disconnectSession slot) := by
  have hforget : Obeys lenient (At (.inside slot g)) (.inside slot g) (forgetJoinable slot) := by
    refine follows_then follows_leaveCurrent fun joined => ?_
    split
    · exact ⟨⟨g, rfl⟩, fun _ _ hafter => (Option.some.inj hafter.2).symm⟩
    · exact follows_pure rfl
  refine follows_then hforget fun _ => ?_
  refine follows_then (follows_access (.inl rfl)) fun _ => ?_
  refine follows_perform (o := .advanceGeneration slot) ⟨g, rfl⟩ fun _ ph _ hadvance => ?_
  obtain rfl := Option.some.inj hadvance
  exact ⟨⟨g, rfl⟩, fun _ _ hreturn => (Option.some.inj hreturn.2).symm⟩

theorem follows_kick {hasMsg : Bool} :
    Obeys lenient (At (.gone slot g)) (.inside slot g) (kick slot hasMsg) := by
  unfold kick
  split
  · exact follows_send fun _ _ => follows_disconnect
  · exact follows_disconnect

/-- A kick by a task that holds the lock. -/
theorem follows_kickHeld {hasMsg : Bool} {g' : Int} : Obeys lenient (At (.gone slot g))
    (.inside slot g) (tcServerKickSession slot hasMsg g' false) :=
  follows_kick

/-- A kick that takes the lock. -/
theorem follows_kickLocking {hasMsg : Bool} : Obeys lenient (At (.outside slot g))
    (.outside slot g) (tcServerKickSession slot hasMsg g true) := by
  refine follows_withLock (follows_bind follows_kick fun _ ph hph => ?_) rfl
  exact follows_release (.inr (.inr (.inl hph)))

theorem follows_kickAndRelease :
    Obeys lenient (At (.outside slot g)) (.inside slot g) (kickAndRelease slot) :=
  follows_bind follows_kickHeld fun _ _ hph => follows_release (.inr (.inr (.inl hph)))

theorem follows_cleanup {nextTask : Option Func} (h : ph = .inside slot g ∨ ph = .gone slot g) :
    Obeys lenient (At ph) ph (tcServerProtocolHandlerCleanup slot nextTask g) := by
  refine follows_then (follows_access h) fun _ => ?_
  split
  · refine follows_scheduleNext ?_
    rcases h with rfl | rfl <;> rfl
  · exact follows_pure rfl

theorem follows_listenAndRelease (h : ph = .inside slot g ∨ ph = .gone slot g) :
    Obeys lenient (At (.outside slot g)) ph (listenAndRelease slot g) := by
  refine follows_then (follows_cleanup h) fun _ => ?_
  exact follows_release (.inr (h.imp_right .inl))

/-! ## Joining -/

/-- Inside if the session has joined, and gone if not; outside if the lock was
not held before. -/
abbrev Joins (aquireLock : Bool) (slot : Slot) (g : Int) : Bool → Phase → Prop := fun joined ph =>
  ph = if aquireLock = true then .outside slot g else if joined = true then .inside slot g else .gone slot g

variable {aquireLock : Bool} {router : JoinRouter}

theorem follows_releaseIf (h : ph = .inside slot g ∨ ph = .gone slot g) : Obeys lenient
    (At (if aquireLock = true then .outside slot g else ph)) ph (releaseIf aquireLock slot) := by
  unfold releaseIf
  split
  · exact follows_release (.inr (h.imp_right .inl))
  · exact follows_pure rfl

theorem follows_kickJoining :
    Obeys lenient (Joins aquireLock slot g) (.inside slot g) (kickJoining slot aquireLock) := by
  refine follows_then follows_kickHeld fun _ => ?_
  exact follows_bind (follows_releaseIf (.inr rfl)) fun _ _ hph => follows_pure hph

theorem follows_enter {joinable : Nat} :
    Obeys lenient (Joins aquireLock slot g) (.inside slot g) (enter slot joinable aquireLock) := by
  refine follows_quiet (o := .setJoinable slot (some joinable)) ⟨g, rfl⟩ (fun _ => rfl) fun _ _ => ?_
  exact follows_bind (follows_releaseIf (.inl rfl)) fun _ _ hph => follows_pure hph

theorem follows_rerouteToDefault : Obeys lenient (Joins aquireLock slot g) (.inside slot g)
    (rerouteToDefault router slot g aquireLock) := by
  refine follows_send fun sent _ => ?_
  split
  · split
    · exact ⟨trivial, fun ans => ans.elim⟩
    · rename_i joinable _
      refine follows_quiet (o := .attemptJoin slot joinable g) rfl (fun _ => rfl) fun interface _ => ?_
      cases interface with
      | none => exact follows_kickJoining
      | some _ => exact follows_enter
  · exact follows_kickJoining

theorem follows_joinFound {joinable : Nat} : Obeys lenient (Joins aquireLock slot g)
    (.inside slot g) (joinFound router slot joinable g aquireLock) := by
  refine follows_then follows_leaveCurrent fun _ => ?_
  refine follows_quiet (o := .attemptJoin slot joinable g) rfl (fun _ => rfl) fun interface _ => ?_
  cases interface with
  | none => exact follows_rerouteToDefault
  | some _ => exact follows_enter

/-- `tc_session_join` by a task that holds the lock. -/
theorem follows_joinHeld {address : Option String} : Obeys lenient (Joins false slot g)
    (.inside slot g) (tcSessionJoin router slot address g false) := by
  unfold tcSessionJoin
  split
  · exact follows_pure rfl
  · exact follows_joinFound

theorem follows_joinLocking {address : Option String} : Obeys lenient (At (.outside slot g))
    (.outside slot g) (tcSessionJoin router slot address g true) := by
  unfold tcSessionJoin
  split
  · exact follows_pure rfl
  · refine follows_then follows_aquire fun aquired => ?_
    split
    · show Follows _ (Joins true slot g) _ _
      exact follows_joinFound
    · exact follows_pure rfl

/-! ## Packet handlers -/

/-- The handshake ends with the session gone, or with its lock released. -/
theorem follows_finalize : Obeys lenient
    (fun _ ph => ph = .gone slot g ∨ lenient = true ∧ ph = .outside slot g) (.inside slot g)
    (finalizePlayerIdentification router slot g) := by
  refine follows_send fun sent hsent => ?_
  split
  · rename_i h
    have hlenient : lenient = true := hsent.resolve_right fun hbenign => by
      cases h.symm.trans hbenign
    refine follows_then (follows_cleanup (.inl rfl)) fun _ => ?_
    refine follows_then follows_joinHeld fun joined => ?_
    by_cases hjoined : joined = true
    · rw [if_neg Bool.false_ne_true, if_pos hjoined, if_pos hjoined]
      exact (follows_release (.inr (.inl rfl))).mono fun _ _ hph => .inr ⟨hlenient, hph⟩
    · rw [if_neg Bool.false_ne_true, if_neg hjoined, if_neg hjoined]
      -- the lock is held: the kick waits for it forever
      exact ⟨.inr (.inr ⟨hlenient, rfl⟩), fun _ _ hafter => by cases hafter.2⟩
  · exact follows_kickHeld.mono fun _ _ hph => .inl hph

theorem follows_finalizeAndRelease :
    Obeys lenient (At (.outside slot g)) (.inside slot g) (finalizeAndRelease router slot g) :=
  follows_bind follows_finalize fun _ _ hph => follows_release (.inr (.inr hph))

theorem follows_sendExtentries (n : Nat) :
    Obeys lenient (At (.inside slot g)) (.inside slot g) (sendExtentries slot n) := by
  induction n with
  | zero => exact follows_pure rfl
  | succ n ih =>
    refine follows_send fun sent _ => ?_
    split
    · exact ih
    · exact follows_pure rfl

theorem follows_beginCpeNegotiation :
    Obeys lenient (At (.outside slot g)) (.outside slot g) (handleBeginCpeNegotiation slot g) := by
  refine follows_withLock (follows_send fun sent _ => ?_) rfl
  split
  · refine follows_then (follows_sendExtentries _) fun sent => ?_
    split
    · exact follows_listenAndRelease (.inl rfl)
    · exact follows_kickAndRelease
  · exact follows_kickAndRelease

theorem follows_extinfo :
    Obeys lenient (At (.outside slot g)) (.outside slot g) (handleCpeExtinfo slot g) := by
  refine follows_withLock (follows_test fun sent => ?_) rfl
  split
  · exact follows_kickAndRelease
  · exact follows_bind (follows_access (.inl rfl)) fun _ _ hph => follows_listenAndRelease (.inl hph)

theorem follows_finishExtentries :
    Obeys lenient (At (.outside slot g)) (.inside slot g) (finishExtentries router slot g) := by
  refine follows_test fun customBlocks => ?_
  split
  · refine follows_send fun sent _ => ?_
    split
    · exact follows_listenAndRelease (.inl rfl)
    · exact follows_bind follows_kickHeld fun _ _ hph => follows_listenAndRelease (.inr hph)
  · exact follows_finalizeAndRelease

theorem follows_extentry :
    Obeys lenient (At (.outside slot g)) (.outside slot g) (handleCpeExtentry router slot g) := by
  refine follows_withLock (follows_test fun sentAll => ?_) rfl
  split
  · exact follows_kickAndRelease
  refine follows_then (follows_access (.inl rfl)) fun _ => ?_
  refine follows_test fun isUnknown => ?_
  split
  · exact follows_listenAndRelease (.inl rfl)
  refine follows_test fun isInvalid => ?_
  split
  · exact follows_kickAndRelease
  refine follows_test fun isLast => ?_
  split
  · exact follows_finishExtentries
  · exact follows_listenAndRelease (.inl rfl)

theorem follows_customBlockSupportLevel : Obeys lenient (At (.outside slot g)) (.outside slot g)
    (handleCpeCustomBlockSupportLevel router slot g) := by
  refine follows_withLock (follows_then (follows_access (.inl rfl)) fun _ => ?_) rfl
  exact follows_finalizeAndRelease

theorem follows_identification : Obeys lenient (At (.outside slot g)) (.outside slot g)
    (handlePlayerIdentification router slot g) := by
  refine follows_withLock (follows_test fun isIdentified => ?_) rfl
  split
  · exact follows_kickAndRelease
  refine follows_test fun isOther => ?_
  split
  · exact follows_kickAndRelease
  refine follows_then (follows_access (.inl rfl)) fun _ => ?_
  refine follows_test fun isNotValidated => ?_
  split
  · exact follows_kickAndRelease
  refine follows_then (follows_access (.inl rfl)) fun _ => ?_
  refine follows_test fun supportsCpe => ?_
  split
  · exact follows_bind (follows_cleanup (.inl rfl)) fun _ _ hph => follows_release (.inr (.inl hph))
  · exact follows_finalizeAndRelease

theorem follows_handToJoinable :
    Obeys lenient (At (.outside slot g)) (.outside slot g) (handToJoinable slot g) := by
  refine follows_withLock (follows_then (follows_access (.inl rfl)) fun _ => ?_) rfl
  refine follows_quiet (o := .currentJoinable slot) ⟨g, rfl⟩ (fun _ => rfl) fun joinable _ => ?_
  cases joinable with
  | none => exact follows_kickAndRelease
  | some joinable =>
    refine follows_quiet (o := .handle slot joinable) ⟨g, rfl⟩ (fun _ => rfl) fun handled _ => ?_
    show Follows _ _ _ (if handled = true then _ else _)
    split
    · exact follows_listenAndRelease (.inl rfl)
    · exact follows_kickAndRelease

/-! ## Listening -/

theorem follows_receive : Obeys lenient (At (.outside slot g)) (.inside slot g) (receive slot g) := by
  refine follows_then (follows_access (.inl rfl)) fun _ => ?_
  refine follows_test fun isGone => ?_
  split
  · exact follows_kickAndRelease
  refine follows_test fun isComplete => ?_
  split
  · refine follows_quiet (o := .opcode) trivial (fun _ => rfl) fun opcode _ => ?_
    exact follows_bind (follows_scheduleNext rfl) fun _ _ hph => follows_release (.inr (.inl hph))
  · exact follows_bind (follows_scheduleNext rfl) fun _ _ hph => follows_release (.inr (.inl hph))

theorem follows_listen :
    Obeys lenient (At (.outside slot g)) (.outside slot g) (tcServerClientListenTask slot g) := by
  refine follows_withLock (follows_test fun pingIsDue => ?_) rfl
  split
  · refine follows_send fun sent _ => ?_
    split
    · exact follows_receive
    · exact follows_bind follows_disconnect fun _ _ hph => follows_release (.inr (.inr (.inl hph)))
  · exact follows_receive

theorem follows_startListening :
    Obeys lenient (At (.outside slot g)) (.inside slot g) (startListening slot g) := by
  refine follows_test fun hasPingProfiler => ?_
  split
  · refine follows_scheduleNew rfl fun scheduled hscheduled => ?_
    split
    · exact follows_release (.inr (.inl rfl))
    · rename_i h
      have hlenient : lenient = true := hscheduled.resolve_right h
      -- the lock is held: the kick waits for it forever
      exact ⟨.inr (.inr ⟨hlenient, rfl⟩), fun _ _ hafter => by cases hafter.2⟩
  · exact follows_kickAndRelease

theorem follows_newSession : Obeys lenient (fun _ ph => ph.held = none) .idle handleNewSession := by
  refine follows_perform (o := .takeId) rfl fun taken ph _ htake => ?_
  obtain rfl := Option.some.inj htake
  cases taken with
  | none => exact follows_pure rfl
  | some slot =>
    refine follows_perform (o := .currentGeneration slot) (.inl rfl) fun g ph _ hread => ?_
    obtain rfl := Option.some.inj hread
    refine follows_then follows_aquireNew fun aquired => ?_
    split
    · refine follows_perform (o := .initialise slot) ⟨g, rfl⟩ fun _ ph _ hopened => ?_
      obtain rfl := Option.some.inj hopened
      exact follows_startListening.mono fun _ _ hph => hph ▸ rfl
    · exact follows_pure rfl

/-! ## Joinables -/

theorem follows_joinableTask :
    Obeys lenient (At (.outside slot g)) (.outside slot g) (joinableTask router slot g) := by
  refine follows_quiet (o := .joinable) trivial (fun _ => rfl) fun action _ => ?_
  cases action with
  | listen => exact follows_scheduleNext rfl
  | next _ => exact follows_scheduleNext rfl
  | new _ => exact follows_scheduleNew rfl fun _ _ => follows_pure rfl
  | kick _ => exact follows_kickLocking
  | join _ => exact follows_bind follows_joinLocking fun _ _ hph => follows_pure hph
  | nothing => exact follows_pure rfl

theorem follows_sendMap (n : Nat) :
    Obeys lenient (At (.inside slot g)) (.inside slot g) (sendMap slot n) := by
  induction n with
  | zero => exact follows_pure rfl
  | succ n ih =>
    refine follows_send fun sent _ => ?_
    split
    · exact ih
    · exact follows_pure rfl

theorem follows_sendMapTask2 {numPackets : Nat} : Obeys lenient (At (.outside slot g))
    (.outside slot g) (tcSendMapTask2 slot g numPackets) := by
  refine follows_withLock (follows_then (follows_sendMap _) fun _ => ?_) rfl
  refine follows_then (follows_release (.inr (.inl rfl))) fun _ => ?_
  exact follows_scheduleNew rfl fun _ _ => follows_pure rfl

end

/-! ## All tasks -/

/-- The phase in which a task starts. -/
def start : Task → Phase
  | .handleNewSession => .idle
  | .session _ slot g | .tcSendMapTask2 slot g _ | .tcServerKickSession slot g => .outside slot g

theorem follows_program (lenient : Bool) (router : JoinRouter) (task : Task) :
    Obeys lenient (fun _ ph => ph.held = none) (start task) (program router task) := by
  cases task with
  | handleNewSession => exact follows_newSession
  | session func slot g =>
    have hsession : Obeys lenient (At (.outside slot g)) (.outside slot g)
        (program router (.session func slot g)) := by
      cases func with
      | listenerWorkerTask => exact follows_pure rfl
      | tcServerClientListenTask => exact follows_listen
      | tcServerShutdownClientTask => exact follows_kickLocking
      | handleBeginCpeNegotiation => exact follows_beginCpeNegotiation
      | handleCpeExtinfo => exact follows_extinfo
      | handleCpeExtentry => exact follows_extentry
      | handleCpeCustomBlockSupportLevel => exact follows_customBlockSupportLevel
      | handlePlayerIdentification => exact follows_identification
      | handlePlayerSetBlock => exact follows_handToJoinable
      | handlePlayerPositionAndOrientationUpdate => exact follows_handToJoinable
      | joinableTask => exact follows_joinableTask
    exact hsession.mono fun _ _ hph => hph ▸ rfl
  | tcSendMapTask2 slot g numPackets => exact follows_sendMapTask2.mono fun _ _ hph => hph ▸ rfl
  | tcServerKickSession slot g => exact follows_kickLocking.mono fun _ _ hph => hph ▸ rfl

end TC.Proof.Tasks
