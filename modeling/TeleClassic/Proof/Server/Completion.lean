import TeleClassic.Proof.Server.Handshake
import TeleClassic.Proof.Server.Play

/-!
# The end of the negotiation

The server answers the last extension that a client declares, with the support
level of CustomBlocks or with its identification. It does so in the branch of an
extension that it has: a client whose last extension is another, or that has
none to declare, waits for an answer, and the server for an entry. All other
clients are answered, as long as what they send is decoded as it was sent.
-/

namespace TC.Proof.Server

open TC.Impl.Server TC.Impl.ThreadPool TC.Impl.Protocol TC.Proof.ThreadPool Prog
open TC.Proof.Protocol (Packet.encoding Packet.chunks send_of_takes chunks_le
  length_stringField sentShort_bytes decodeShort_eq)

variable {appname : List Byte} {R : World → Prop}

/-! ## What the client is told -/

/-- The client was sent some bytes, and stays. -/
def Replied (slot : Slot) (s : Session) (reply : List Byte) (w : World) : Prop :=
  w.halted = none ∧ generation w slot = s.currentGeneration ∧
    (w.sessionBuffer slot).clientSocket.accepted = s.clientSocket.accepted ++ reply

/-- A message, or the reason of a kick. -/
def isNotice : Packet → Bool
  | .tcProtocolSendMessage _ _ => true
  | .tcProtocolKick _ => true
  | _ => false

/-- The client was sent some bytes, and then nothing but notices. -/
def Notified (slot : Slot) (bytes : List Byte) (w : World) : Prop :=
  w.halted = none ∧ ∃ notices : List Packet, (∀ p ∈ notices, isNotice p = true) ∧
    (w.sessionBuffer slot).clientSocket.accepted = bytes ++ notices.flatMap Packet.encoding

/-- The same of a session that a task works on, whose socket takes `k` more
offers whole. -/
def Notifying (bytes : List Byte) (k : Nat) (s : Session) : Prop :=
  s.clientSocket.Takes maxStrLen k ∧ ∃ notices : List Packet, (∀ p ∈ notices, isNotice p = true) ∧
    s.clientSocket.accepted = bytes ++ notices.flatMap Packet.encoding

/-- It ends so, or the thread pool has failed. -/
def OrFails (X : World → Prop) (w : World) : Prop := X w ∨ w.threadPool.assertFailed = true

/-- However the program ends, it is with `X`, unless the thread pool fails. -/
abbrev Leads (call : Call) (w : World) (p : TaskM Unit) (X : World → Prop) : Prop :=
  Meets call w p (fun _ => X) (OrFails X)

section

variable {call : Call} {slot : Slot} {w : World} {s : Session} {bytes : List Byte} {k : Nat}
  {priority : Priority} {g : Int}

theorem fails {X : World → Prop} (w' : World) (_ : w'.halted.isSome = true)
    (h : w'.threadPool.assertFailed = true) : OrFails X w' := .inr h

theorem Notifying.congr {s' : Session} (h : Notifying bytes k s) (hs : s'.clientSocket = s.clientSocket) :
    Notifying bytes k s' := by
  rwa [Notifying, hs]

theorem Notifying.mono {k' : Nat} (h : Notifying bytes k s) (hk : k' ≤ k) : Notifying bytes k' s :=
  ⟨h.1.mono hk, h.2⟩

theorem Notifying.notified (h : Notifying bytes k s) (hh : w.halted = none) :
    Notified slot bytes (w.setSession slot s) := by
  rw [Notified, sessionBuffer_setSession]
  exact ⟨hh, h.2⟩

theorem Notifying.send {p : Packet} {sent : Bool} {socket : Stream} (h : Notifying bytes (k + 3) s)
    (hp : isNotice p = true) (hsend : p.send s.clientSocket = (some sent, socket)) :
    sent = true ∧ Notifying bytes k { s with clientSocket := socket } := by
  obtain ⟨hasserts, hdata, hchunks⟩ : p.asserts = true ∧ (∀ data length, .datachunk data length ∈ p.fields →
      1024 ≤ maxStrLen) ∧ (Packet.chunks p).length ≤ 3 := by
    cases p with
    | tcProtocolSendMessage => exact ⟨rfl, by simp [Packet.fields], Nat.le_refl 3⟩
    | tcProtocolKick => exact ⟨rfl, by simp [Packet.fields], Nat.le_succ 2⟩
    | _ => cases hp
  obtain ⟨htakes, notices, hnotices, haccepted⟩ := h
  obtain ⟨hsent, htakes', haccepted'⟩ :=
    send_of_takes hasserts (chunks_le (Nat.le_refl _) hdata) (k := k) (htakes.mono (by omega))
  rw [hsend] at hsent htakes' haccepted'
  refine ⟨Option.some.inj hsent, htakes', notices ++ [p], ?_, ?_⟩
  · intro q hq
    rcases List.mem_append.mp hq with hq | hq
    · exact hnotices q hq
    · rwa [List.mem_singleton.mp hq]
  · show socket.accepted = _
    rw [haccepted', haccepted, List.flatMap_append, List.flatMap_singleton, List.append_assoc]

theorem meets_sendNotice {β : Type} {p : Packet} (hp : isNotice p = true) (hasserts : p.asserts = true)
    {cont : Bool → TaskM β} {Q : β → World → Prop} (hs : Notifying bytes (k + 3) s)
    (h : ∀ socket, Notifying bytes k { s with clientSocket := socket } →
      Meets call (w.setSession slot { s with clientSocket := socket }) (cont true) Q R) :
    Meets call (w.setSession slot s) (send slot p >>= cont) Q R := by
  refine meets_send hasserts fun sent socket hsend => ?_
  obtain ⟨rfl, hs'⟩ := hs.send hp hsend
  exact h socket hs'

theorem meets_kickNotified {β : Type} {msg : String} {cont : Unit → TaskM β} {Q : β → World → Prop}
    (hs : Notifying bytes (k + 3) s)
    (h : ∀ w' socket, Alike w w' → Notifying bytes k { s with clientSocket := socket } →
      Meets call (w'.setSession slot (gone { s with clientSocket := socket })) (cont ()) Q R) :
    Meets call (w.setSession slot s) (tcServerKickSession slot (some msg) g false >>= cont) Q R :=
  meets_assoc (meets_sendNotice rfl rfl hs fun socket hs' =>
    meets_disconnect fun w' hw' => h w' socket hw' hs')

/-! ## Joining -/

/-- How a join ends for a client that is told why. -/
def Notifies (slot : Slot) (bytes : List Byte) (joined : Bool) (w' : World) : Prop :=
  ∃ (w₁ : World) (s₁ : Session), w' = w₁.setSession slot s₁ ∧ w₁.halted = none ∧ Notifying bytes 0 s₁ ∧
    (joined = false → s₁.actionLock = true)

theorem meets_rerouteNotified (hb : Busy w call.worker) (hh : w.halted = none) (hs : Notifying bytes 6 s)
    (hlock : s.actionLock = true) (hdefault : w.config.joinRouter.defaultJoinable ≠ none) :
    Meets call (w.setSession slot s) (rerouteToDefault slot priority g false) (Notifies slot bytes)
      (OrFails (Notified slot bytes)) := by
  unfold rerouteToDefault tcApiSendMessage
  refine meets_assoc (meets_read ?_)
  -- the message is sent in one of two packets; what follows is the same
  split <;> refine meets_sendNotice rfl rfl hs fun socket hs' => meets_get ?_
  all_goals
    split
    · rename_i hnone
      exact absurd hnone hdefault
    refine meets_attemptJoin fails hb (fun pool _ _ _ _ _ _ => ?_) ?_
    · refine meets_setJoinable (meets_releaseIf (meets_pure ⟨_, _, rfl, hh, (hs'.mono (Nat.zero_le 3)).congr rfl, ?_⟩))
      exact fun hf => by cases hf
    · refine meets_kickNotified hs' fun w' socket' hw' hs'' => meets_releaseIf (meets_pure ?_)
      refine ⟨_, _, rfl, hw'.halted.trans hh, hs''.congr rfl, fun _ => ?_⟩
      show (s.actionLock && !false) = true
      rw [hlock]
      rfl

theorem meets_joinNotified (hb : Busy w call.worker) (hh : w.halted = none) (hs : Notifying bytes 6 s)
    (hlock : s.actionLock = true) :
    Meets call (w.setSession slot s) (tcSessionJoin slot none priority g false) (Notifies slot bytes)
      (OrFails (Notified slot bytes)) := by
  unfold tcSessionJoin
  refine meets_emit (meets_get ?_)
  split
  · exact meets_pure ⟨_, _, rfl, hh, hs.mono (Nat.zero_le 6), fun hf => by cases hf⟩
  · rename_i joinable hfind
    have hdefault : w.config.joinRouter.defaultJoinable = some joinable := hfind
    obtain ⟨w₁, hw₁, hleave⟩ := leaveCurrent_eq call slot (w.emit (.joining slot g)) s
    have hb₁ : Busy w₁ call.worker := (hw₁.reaches call.worker slot).busy hb
    have hh₁ : w₁.halted = none := hw₁.halted.trans hh
    rw [if_neg Bool.false_ne_true]
    refine meets_bind_of_some hleave (meets_attemptJoin fails hb₁ (fun pool _ _ _ _ _ _ => ?_) ?_)
    · refine meets_setJoinable (meets_releaseIf (meets_pure ⟨_, _, rfl, hh₁, (hs.mono (Nat.zero_le 6)).congr rfl, ?_⟩))
      exact fun hf => by cases hf
    · refine meets_rerouteNotified hb₁ hh₁ hs hlock ?_
      rw [hw₁.config]
      show w.config.joinRouter.defaultJoinable ≠ none
      rw [hdefault]
      exact Option.some_ne_none joinable

/-! ## The answers -/

/-- The identification of the server. -/
def World.identification (w : World) : Packet :=
  .tcProtocolServerIdentification w.config.serverName w.config.motd userTypeStandard

theorem meets_finalizeNotified (hb : Busy w call.worker) (hh : w.halted = none)
    (hsocket : s.clientSocket.Takes maxStrLen 11) (hlock : s.actionLock = true) :
    Leads call (w.setSession slot s) (do
      finalizePlayerIdentification slot priority g
      tcSessionReleaseActionLock slot)
      (Notified slot (s.clientSocket.accepted ++ Packet.encoding (World.identification w))) := by
  unfold finalizePlayerIdentification
  refine meets_assoc (meets_emit (meets_assoc (meets_get (meets_assoc (meets_send rfl ?_)))))
  intro sent socket hsend
  obtain ⟨hsent, htakes, haccepted⟩ := send_of_takes (p := World.identification w) rfl
    (chunks_le (Nat.le_refl _) (by simp [Packet.fields, World.identification])) (k := 6) hsocket
  have hsend' : (World.identification w).send s.clientSocket = (some sent, socket) := hsend
  rw [hsend'] at hsent htakes haccepted
  rw [Option.some.inj hsent, if_pos rfl]
  have hs : Notifying (s.clientSocket.accepted ++ Packet.encoding (World.identification w)) 6
      { s with clientSocket := socket } := by
    refine ⟨htakes, [], List.forall_mem_nil _, ?_⟩
    rw [List.flatMap_nil, List.append_nil]
    exact haccepted
  unfold finishHandshake
  refine meets_assoc (meets_assoc (meets_write (meets_assoc (meets_finish fun w₁ hw₁ => ?_))))
  have hb₁ : Busy w₁ call.worker := (hw₁.reaches call.worker slot).busy hb
  refine meets_assoc (meets_bind (meets_joinNotified hb₁ (hw₁.halted.trans hh) (hs.congr rfl) hlock) ?_)
  rintro joined w' ⟨w₂, s₂, rfl, hh₂, hs₂, hlock₂⟩
  rcases joined with _ | _
  · -- the client was kicked already: the task waits for the lock that it holds
    exact meets_assoc (meets_kickAgain (hlock₂ rfl) (.inl (hs₂.notified hh₂)))
  · refine meets_unlockThen (meets_unlock (Notifying.notified (k := 0) ?_ hh₂))
    exact hs₂.congr rfl

theorem meets_listenReplied {reply : List Byte} {s₀ : Session} (hb : Busy w call.worker) (hh : w.halted = none)
    (hg : s.currentGeneration = s₀.currentGeneration)
    (hreply : s.clientSocket.accepted = s₀.clientSocket.accepted ++ reply) :
    Leads call (w.setSession slot s) (do
      tcServerProtocolHandlerCleanup slot (some .tcServerClientListenTask) priority g
      tcSessionReleaseActionLock slot) (Replied slot s₀ reply) := by
  refine meets_assoc (meets_write (meets_scheduleNext_or fails hb fun pool _ => meets_unlock ?_))
  rw [Replied, generation, sessionBuffer_setSession]
  exact ⟨hh, hg, hreply⟩

/-- The answer to the last extension. -/
def Answered (slot : Slot) (w : World) (custom : Bool) (w' : World) : Prop :=
  if custom then
    Replied slot (w.sessionBuffer slot) (Packet.encoding (.tcCpeSendCustomBlockSupportLevel maxSupportLevel)) w'
  else
    Notified slot ((w.sessionBuffer slot).clientSocket.accepted ++ Packet.encoding (World.identification w)) w'

theorem meets_finishAnswered (hb : Busy w call.worker) (hh : w.halted = none)
    (hsocket : (w.sessionBuffer slot).clientSocket.Takes maxStrLen 11)
    (hclient : s.clientSocket = (w.sessionBuffer slot).clientSocket)
    (hg : s.currentGeneration = generation w slot) (hlock : s.actionLock = true) :
    Leads call (w.setSession slot s) (finishExtentries slot priority g)
      (Answered slot w (supports s customBlocks)) := by
  rw [← hclient] at hsocket
  unfold finishExtentries Answered
  refine meets_read ?_
  rcases supports s customBlocks with _ | _
  · simp only [Bool.false_eq_true, if_false, ← hclient]
    exact meets_finalizeNotified hb hh hsocket hlock
  · simp only [if_true]
    refine meets_send rfl fun sent socket hsend => ?_
    obtain ⟨hsent, -, haccepted⟩ :=
      send_of_takes (p := .tcCpeSendCustomBlockSupportLevel maxSupportLevel) rfl
        (chunks_le (Nat.le_refl _) (by simp [Packet.fields])) (k := 9) hsocket
    rw [hsend] at hsent haccepted
    rw [Option.some.inj hsent, if_pos rfl]
    refine meets_listenReplied hb hh hg ?_
    rw [← hclient]
    exact haccepted

end

/-! ## The handlers -/

section

variable {call : Call} {slot : Slot} {w : World} {buffer : List Byte} {priority : Priority}

theorem meets_assert_true {β : Type} {condition : Bool} {k : Unit → TaskM β} {Q : β → World → Prop}
    (hc : condition = true) (h : Meets call w (k ()) Q R) :
    Meets call w (tcAssert condition >>= k) Q R := by
  subst hc
  exact h

/-- What follows on an ExtEntry packet. -/
def Entered (slot : Slot) (w : World) (buffer : List Byte) (w' : World) : Prop :=
  if (w.sessionBuffer slot).remainingCpeExtPackets = 1 ∧ entryIndex buffer ≠ none then
    Answered slot w (supports (w.sessionBuffer slot) customBlocks || entryIndex buffer == some customBlocks.val) w'
  else Replied slot (w.sessionBuffer slot) [] w'

theorem entered_last (h : (w.sessionBuffer slot).remainingCpeExtPackets = 1 ∧ entryIndex buffer ≠ none) :
    Entered slot w buffer = Answered slot w
      (supports (w.sessionBuffer slot) customBlocks || entryIndex buffer == some customBlocks.val) :=
  funext fun _ => if_pos h

theorem entered_more (h : ¬ ((w.sessionBuffer slot).remainingCpeExtPackets = 1 ∧ entryIndex buffer ≠ none)) :
    Entered slot w buffer = Replied slot (w.sessionBuffer slot) [] :=
  funext fun _ => if_neg h

variable (hb : Busy w call.worker) (hh : w.halted = none) (hfree : (w.sessionBuffer slot).actionLock = false)
  (hcpe : (w.sessionBuffer slot).supportsCpe = true)
  (hbuffer : (w.sessionBuffer slot).pendingPacketBuffer = some buffer)

include hb hh hcpe hbuffer

include hfree in
theorem meets_extinfoReplied (hlength : buffer.length = 66)
    (hfirst : (w.sessionBuffer slot).remainingCpeExtPackets.toInt < 0) :
    Leads call w (handleCpeExtinfo slot priority (generation w slot)) (Replied slot (w.sessionBuffer slot) []) := by
  have hheld := held_locked hbuffer
  have hnot : ¬ (locked (w.sessionBuffer slot)).remainingCpeExtPackets.toInt ≥ 0 := Int.not_le.mpr hfirst
  have hstring : 0 + maxStrLen ≤ buffer.length := by
    rw [hlength]
    decide
  have hshort : maxStrLen + 2 ≤ buffer.length := by
    rw [hlength]
    decide
  unfold handleCpeExtinfo
  refine meets_aquire hfree (meets_read (meets_assert_true hcpe (meets_read ?_)))
  rw [if_neg hnot]
  refine meets_bind_of_some (readString_eq hheld hstring) (meets_bind_of_some (readShort_eq hheld hshort) ?_)
  refine meets_write (meets_listenReplied hb hh rfl ?_)
  exact (List.append_nil _).symm

theorem meets_acceptAnswered {i : Nat} (hlength : buffer.length = 68)
    (hsocket : (w.sessionBuffer slot).clientSocket.Takes maxStrLen 11)
    (hexpected : (w.sessionBuffer slot).remainingCpeExtPackets ≠ 0) (hindex : entryIndex buffer = some i)
    (hvalid : isValid (effective (entryVersion buffer) i)) :
    Leads call (w.setSession slot (locked (w.sessionBuffer slot)))
      (acceptExtentry slot priority (generation w slot) i) (Entered slot w buffer) := by
  have hheld := held_locked hbuffer
  have hint : maxStrLen + 4 ≤ buffer.length := by
    rw [hlength]
    decide
  have hbounds : ¬ ((effective (entryVersion buffer) i).toInt < 1 ∨ (effective (entryVersion buffer) i).toInt > 3) := by
    have h1 := hvalid.1
    have h3 := hvalid.2
    omega
  have hcustom : supports (declared (locked (w.sessionBuffer slot)) buffer i) customBlocks =
      (supports (w.sessionBuffer slot) customBlocks || entryIndex buffer == some customBlocks.val) := by
    rw [hindex]
    exact supports_declared (s := locked (w.sessionBuffer slot)) ⟨hcpe, hbuffer, hexpected, hindex, hvalid⟩
  have hlast : (declared (locked (w.sessionBuffer slot)) buffer i).remainingCpeExtPackets = 0 ↔
      (w.sessionBuffer slot).remainingCpeExtPackets = 1 := by
    show (w.sessionBuffer slot).remainingCpeExtPackets - 1 = 0 ↔ _
    exact sub_eq_zero
  unfold acceptExtentry
  refine meets_bind_of_some (readInt_eq hheld hint) ?_
  dsimp only
  refine (congrArg (Meets call _ · _ _) (if_neg hbounds)).mpr ?_
  refine meets_write (meets_write (meets_read ?_))
  have hnone : entryIndex buffer ≠ none := by
    rw [hindex]
    exact Option.some_ne_none i
  split
  · rename_i hzero
    rw [entered_last ⟨hlast.mp hzero, hnone⟩, ← hcustom]
    exact meets_finishAnswered hb hh hsocket rfl rfl rfl
  · rename_i hmore
    rw [entered_more fun h => hmore (hlast.mpr h.1)]
    exact meets_listenReplied hb hh rfl (List.append_nil _).symm

include hfree in
theorem meets_extentryAnswered (hlength : buffer.length = 68)
    (hsocket : (w.sessionBuffer slot).clientSocket.Takes maxStrLen 11)
    (hexpected : (w.sessionBuffer slot).remainingCpeExtPackets ≠ 0)
    (hvalid : ∀ i, entryIndex buffer = some i → isValid (effective (entryVersion buffer) i)) :
    Leads call w (handleCpeExtentry slot priority (generation w slot)) (Entered slot w buffer) := by
  have hheld := held_locked hbuffer
  have hstring : 0 + maxStrLen ≤ buffer.length := by
    rw [hlength]
    decide
  have hnot : ¬ (locked (w.sessionBuffer slot)).remainingCpeExtPackets = 0 := hexpected
  unfold handleCpeExtentry
  refine meets_aquire hfree (meets_read (meets_assert_true hcpe (meets_read ?_)))
  rw [if_neg hnot]
  refine meets_bind_of_some (readString_eq hheld hstring) ?_
  split
  · rename_i hindex
    have hnone : entryIndex buffer = none := hindex
    rw [entered_more fun h => h.2 hnone]
    exact meets_write (meets_listenReplied hb hh rfl (List.append_nil _).symm)
  · rename_i i hindex
    exact meets_acceptAnswered hb hh hcpe hbuffer hlength hsocket hexpected hindex (hvalid i hindex)

end

/-- How a worker's task that keeps to a specification has ended. -/
theorem ended_of_meets {call : Call} {w w' : World} {t : Context Func Arg} {X : World → Prop}
    (hX : ∀ w₁ w₂ : World, w₂.sessionBuffer = w₁.sessionBuffer → w₂.halted = w₁.halted → X w₁ → X w₂)
    (hrun : w.threadPool.running? call.worker = some (t, 0))
    (hmeets : Leads call w (runTask t) X)
    (h : Impl.Server.step w (.task call) = some w') (hw' : Sound w') : X w' := by
  unfold Impl.Server.step at h
  split at h
  · cases h
  obtain ⟨t', w₁, hrun', hended⟩ := runWorker_cases h
  obtain ⟨rfl, -⟩ := Prod.mk.inj (Option.some.inj (hrun.symm.trans hrun'))
  rcases hended with ⟨htask, rfl⟩ | ⟨htask, rfl⟩
  · rw [Leads, Meets, htask] at hmeets
    refine (hmeets.2 rfl).resolve_right fun hfailed => ?_
    cases hfailed.symm.trans hw'.reserve.ok
  · rw [Leads, Meets, htask] at hmeets
    have hx := hmeets.1 () rfl
    rcases hpool : w₁.poolStep (.taskReturns call.worker call.env.pick) with _ | w₂
    · exact hx
    · obtain ⟨pool, -, rfl⟩ := Option.map_eq_some_iff.mp hpool
      exact hX w₁ _ rfl rfl hx

/-! ## What a session remembers -/

/-- The entries that are still expected, after one more packet. -/
def learnRemaining (remaining : BitVec 16) (packet : Byte × List Byte) : BitVec 16 :=
  if packet.1 = 0x10 then shortAt packet.2 maxStrLen
  else if packet.1 = 0x11 then remaining - 1
  else remaining

section

variable {r : Receiver Bool Byte} {s s' : Session} {f : Func} {opcode : Byte} {payload : List Byte} {call : Call}
  {w : World} {slot : Slot} {fin : Bool} {next : Option Func}

theorem Full.learnsRemaining (h : Full r s f opcode payload) (hp : Progress s s' f fin) :
    s'.remainingCpeExtPackets = learnRemaining s.remainingCpeExtPackets (opcode, payload) := by
  have hhandler := h.handler
  have hopcode : ∀ opcode : Byte, ∀ f, tcPacketHandlers opcode.toInt = some f →
      (f = .handleCpeExtinfo ↔ opcode = 0x10) ∧ (f = .handleCpeExtentry ↔ opcode = 0x11) := by
    intro opcode f hf
    unfold tcPacketHandlers at hf
    have hinfo : opcode.toInt = 0x10 ↔ opcode = 0x10 := BitVec.toInt_inj (y := 0x10)
    have hentry : opcode.toInt = 0x11 ↔ opcode = 0x11 := BitVec.toInt_inj (y := 0x11)
    simp only [hinfo, hentry] at hf
    grind
  obtain ⟨hinfo, hentry⟩ := hopcode opcode f hhandler
  cases hp with
  | info buffer first remaining =>
    cases buffer.symm.trans h.held
    rw [remaining, learnRemaining, if_pos (hinfo.mp rfl)]
  | entry expected remaining last =>
    have hne : opcode ≠ 0x10 := fun hc => by cases hinfo.mpr hc
    rw [remaining, learnRemaining, if_neg hne, if_pos (hentry.mp rfl)]
  | level remaining =>
    have hne : opcode ≠ 0x10 := fun hc => by cases hinfo.mpr hc
    have hne' : opcode ≠ 0x11 := fun hc => by cases hentry.mpr hc
    rw [remaining, learnRemaining, if_neg hne, if_neg hne']
  | other info entry level remaining =>
    rw [remaining, learnRemaining, if_neg fun hc => info (hinfo.mpr hc), if_neg fun hc => entry (hentry.mpr hc)]

theorem Progress.keepsRemaining (h : Progress s s' f fin) (hf : isHandler f = false) :
    s'.remainingCpeExtPackets = s.remainingCpeExtPackets := by
  cases h with
  | other _ _ _ remaining => exact remaining
  | _ => cases hf

end

/-- The entries that are expected, and who the client is. -/
structure Remembers (log : List Taken) (s : Session) : Prop where
  remaining : s.remainingCpeExtPackets = (handled log).foldl learnRemaining (-1)
  known : ∀ t ∈ log, t.after.authenticatedService ≠ none →
    s.authenticatedService ≠ none ∧ s.supportsCpe = t.after.supportsCpe
  latest : log.getLast?.elim (s.authenticatedService = none) fun t => t.after = s

theorem Remembers.turn {log : List Taken} {call : Call} {w : World} {slot : Slot} {f : Func} {fin : Bool}
    {next : Option Func} {s' : Session} (h : Remembers log (w.sessionBuffer slot))
    (htracks : Follows log (some f) (w.sessionBuffer slot)) (htook : Took call w slot f fin next s') :
    Remembers (log ++ [⟨call, f, w.sessionBuffer slot, s', fin⟩]) s' := by
  have hprogress := htook.turn.progress htook.stays
  refine ⟨?_, fun t ht hknown => ?_, ?_⟩
  · rw [handled_snoc, List.foldl_append, ← h.remaining]
    cases hf : isHandler f with
    | true =>
      obtain ⟨opcode, payload, full, -⟩ := htracks.2.handling hf
      rw [handledOf, if_pos hf, full.packetOf_eq]
      exact full.learnsRemaining hprogress
    | false =>
      rw [handledOf, if_neg (by simp [hf])]
      exact hprogress.keepsRemaining hf
  · rcases List.mem_append.mp ht with ht | ht
    · obtain ⟨hservice, hcpe⟩ := h.known t ht hknown
      rcases htook.turn.identity htook.stays with ⟨hsame, hsame'⟩ | ⟨hnone, -⟩
      · exact ⟨hsame ▸ hservice, hsame'.trans hcpe⟩
      · exact absurd hnone hservice
    · cases List.mem_singleton.mp ht
      exact ⟨hknown, rfl⟩
  · rw [List.getLast?_concat]
    rfl

theorem remembers_new {s s' : Session} {clientSocket : Stream} (h : Same (newSession s clientSocket) s') :
    Remembers [] s' :=
  ⟨h.remaining, List.forall_mem_nil _, h.service⟩

theorem lawful_remembers : Lawful (fun _ _ => True) fun log next s =>
    Follows log next s ∧ Plays log s ∧ Remembers log s :=
  ⟨fun s clientSocket s' h =>
      ⟨lawful_framing.opens s clientSocket s' h, plays_new h, remembers_new h⟩,
    fun w call s clientSocket s' hG hcame hfull h =>
      ⟨lawful_framing.deaf w call s clientSocket s' hG hcame hfull h, plays_new h, remembers_new h⟩,
    fun w call slot log f fin next s' hG h htook =>
      ⟨lawful_framing.turn w call slot log f fin next s' hG h.1 htook, h.2.1.turn h.1 htook,
        h.2.2.turn h.1 htook⟩⟩

/-! ## Streams of declarations -/

/-- An extension that a client declares: its name and version. -/
abbrev Entry := List Byte × BitVec 32

/-- The packet that declares an extension. -/
def Entry.packet (e : Entry) : Byte × List Byte := (0x11, extEntry e.1 e.2)

/-- The extension of the server that is declared. -/
def Entry.index (e : Entry) : Option Nat := entryIndex (extEntry e.1 e.2)

def Entry.isCustomBlocks (e : Entry) : Bool := e.index == some customBlocks.val

/-- The packets of a client that declares some extensions. -/
def declarations (appname : List Byte) (entries : List Entry) : List (Byte × List Byte) :=
  (0x10, extInfo appname (BitVec.ofNat 16 entries.length)) :: entries.map Entry.packet

/-- The last extension is one of the server's, and what is declared is decoded
as it was sent. -/
structure Answerable (entries : List Entry) : Prop where
  last : ∃ e, entries.getLast? = some e ∧ e.index ≠ none
  count : entries.length < 2 ^ 15 ∧ entries.length % 2 ^ 8 < 2 ^ 7
  versions : ∀ e ∈ entries, e.index ≠ none → 1 ≤ (entryVersion (extEntry e.1 e.2)).toInt

theorem length_extInfo (appname : List Byte) (count : BitVec 16) : (extInfo appname count).length = 66 := by
  rw [extInfo, List.length_append, length_stringField]
  rfl

theorem length_extEntry (name : List Byte) (version : BitVec 32) : (extEntry name version).length = 68 := by
  rw [extEntry, List.length_append, length_stringField]
  rfl

theorem proper_entries (custom : Bool) (entries : List Entry) : wire.Proper custom (entries.map Entry.packet) := by
  induction entries generalizing custom with
  | nil => trivial
  | cons e entries ih =>
    have hlength := length_extEntry e.1 e.2
    refine ⟨fun hnil => ?_, ?_, ih _⟩
    · have hzero : (extEntry e.1 e.2).length = 0 := congrArg List.length hnil
      omega
    · show (extEntry e.1 e.2).length = payloadSize custom 0x11
      rw [hlength]
      cases custom <;> rfl

theorem proper_declarations (custom : Bool) (appname : List Byte) (entries : List Entry) :
    wire.Proper custom (declarations appname entries) := by
  have hlength := length_extInfo appname (BitVec.ofNat 16 entries.length)
  refine ⟨fun hnil => ?_, ?_, proper_entries _ entries⟩
  · have hzero : (extInfo appname (BitVec.ofNat 16 entries.length)).length = 0 := congrArg List.length hnil
    omega
  · show (extInfo appname (BitVec.ofNat 16 entries.length)).length = payloadSize custom 0x10
    rw [hlength]
    cases custom <;> rfl

theorem foldl_learnRemaining (remaining : BitVec 16) (entries : List Entry) :
    (entries.map Entry.packet).foldl learnRemaining remaining = remaining - BitVec.ofNat 16 entries.length := by
  induction entries generalizing remaining with
  | nil => exact (BitVec.sub_zero remaining).symm
  | cons e entries ih =>
    have hstep : learnRemaining remaining e.packet = remaining - 1 := rfl
    rw [List.map_cons, List.foldl_cons, hstep, ih, List.length_cons, Nat.add_comm, BitVec.ofNat_add]
    exact (sub_add_eq_sub_sub remaining 1 _).symm

theorem foldl_learnCustom (custom : Bool) (entries : List Entry) :
    (entries.map Entry.packet).foldl learnCustom custom = (custom || entries.any Entry.isCustomBlocks) := by
  induction entries generalizing custom with
  | nil => exact (Bool.or_false custom).symm
  | cons e entries ih =>
    have hstep : learnCustom custom e.packet = (custom || e.isCustomBlocks) := rfl
    rw [List.map_cons, List.foldl_cons, hstep, ih, List.any_cons, Bool.or_assoc]

/-- The count of an ExtInfo packet, if its low byte has no sign. -/
theorem shortAt_extInfo (appname : List Byte) {n : Nat} (h : n % 2 ^ 8 < 2 ^ 7) :
    shortAt (extInfo appname (BitVec.ofNat 16 n)) maxStrLen = BitVec.ofNat 16 n := by
  have hdrop : (extInfo appname (BitVec.ofNat 16 n)).drop maxStrLen =
      Protocol.Field.encoding (.short (BitVec.ofNat 16 n)) := by
    rw [extInfo, List.drop_left' (length_stringField appname)]
  have hsign : ((BitVec.ofNat 16 n).extractLsb' 0 8).msb = false := by
    rw [BitVec.msb_eq_false_iff_two_mul_lt]
    simp only [BitVec.extractLsb'_toNat, BitVec.toNat_ofNat]
    omega
  rw [shortAt, hdrop]
  exact (decodeShort_eq (.inl hsign)).trans (sentShort_bytes _)

theorem Answerable.valid {entries : List Entry} (h : Answerable entries) {e : Entry} (he : e ∈ entries) {i : Nat}
    (hi : e.index = some i) : isValid (effective (entryVersion (extEntry e.1 e.2)) i) := by
  have hpos := h.versions e he (by rw [hi]; exact Option.some_ne_none i)
  have hlt : i < supportedExtensions.length := by
    obtain ⟨hlt, -⟩ := List.findIdx?_eq_some_iff_getElem.mp hi
    exact hlt
  have hserver : ∀ i < supportedExtensions.length,
      isValid (((supportedExtensions.map Extension.version).getD i 0).signExtend 32) := by
    unfold isValid
    decide +kernel
  obtain ⟨h1, h3⟩ := hserver i hlt
  rw [effective, minVersion]
  split
  · exact ⟨hpos, by omega⟩
  · exact ⟨h1, h3⟩

/-- The packet that is handled next, after some others of the stream. -/
theorem declarations_cases {entries : List Entry} {done : List (Byte × List Byte)}
    {packet : Byte × List Byte} (h : done ++ [packet] <+: declarations appname entries) :
    done = [] ∧ packet = (0x10, extInfo appname (BitVec.ofNat 16 entries.length)) ∨
    ∃ front e rest, entries = front ++ e :: rest ∧ packet = e.packet ∧
      done = (0x10, extInfo appname (BitVec.ofNat 16 entries.length)) :: front.map Entry.packet := by
  obtain ⟨others, hothers⟩ := h
  cases done with
  | nil => exact .inl ⟨rfl, (List.cons.inj hothers).1⟩
  | cons first done =>
    obtain ⟨rfl, hrest⟩ := List.cons.inj hothers
    have hsplit : done ++ ([packet] ++ others) = entries.map Entry.packet := by
      rw [← List.append_assoc]
      exact hrest
    obtain ⟨front, back, rfl, hfront, hback⟩ := List.map_eq_append_iff.mp hsplit.symm
    obtain ⟨e, rest, rfl, he, -⟩ := List.map_eq_cons_iff.mp hback
    exact .inr ⟨front, e, rest, rfl, he.symm, by rw [hfront]⟩

theorem remaining_entries {front rest : List Entry} {e : Entry} {remaining : BitVec 16}
    (h : (front ++ e :: rest).length % 2 ^ 8 < 2 ^ 7) :
    ((0x10, extInfo appname (BitVec.ofNat 16 (front ++ e :: rest).length)) :: front.map Entry.packet).foldl
      learnRemaining remaining = BitVec.ofNat 16 (rest.length + 1) := by
  have hinfo : learnRemaining remaining (0x10, extInfo appname (BitVec.ofNat 16 (front ++ e :: rest).length)) =
      BitVec.ofNat 16 (front ++ e :: rest).length := shortAt_extInfo appname h
  rw [List.foldl_cons, hinfo, foldl_learnRemaining, List.length_append, List.length_cons, BitVec.ofNat_add]
  exact add_sub_cancel_left _ _

theorem answered_mono {slot : Slot} {w : World} {custom : Bool} (w₁ w₂ : World)
    (hs : w₂.sessionBuffer = w₁.sessionBuffer) (hh : w₂.halted = w₁.halted) (h : Answered slot w custom w₁) :
    Answered slot w custom w₂ := by
  unfold Answered Replied Notified generation at h ⊢
  rwa [hs, hh]

theorem replied_mono {slot : Slot} {s : Session} {reply : List Byte} (w₁ w₂ : World)
    (hs : w₂.sessionBuffer = w₁.sessionBuffer) (hh : w₂.halted = w₁.halted) (h : Replied slot s reply w₁) :
    Replied slot s reply w₂ := by
  unfold Replied generation at h ⊢
  rwa [hs, hh]

section

variable {call : Call} {slot : Slot} {w w' : World} {t : Context Func Arg} {opcode : Byte} {payload : List Byte}
  {r : Receiver Bool Byte} {f : Func} (hrun : w.threadPool.running? call.worker = some (t, 0))
  (hmine : mine slot (generation w slot) t) (hfunc : t.func = some f)
  (hstep : Impl.Server.step w (.task call) = some w') (hw : Sound w) (hw' : Sound w')
  (hfree : (w.sessionBuffer slot).actionLock = false) (hcpe : (w.sessionBuffer slot).supportsCpe = true)
  (hfull : Full r (w.sessionBuffer slot) f opcode payload)

include hrun hmine hfunc hstep hw hw' hfree hcpe hfull

theorem replied_step {count : BitVec 16} (hpacket : (opcode, payload) = (0x10, extInfo appname count))
    (hfirst : (w.sessionBuffer slot).remainingCpeExtPackets.toInt < 0) :
    Replied slot (w.sessionBuffer slot) [] w' := by
  obtain ⟨rfl, rfl⟩ := Prod.mk.inj hpacket
  obtain rfl : f = .handleCpeExtinfo := Option.some.inj hfull.handler.symm
  refine ended_of_meets replied_mono hrun ?_ hstep hw'
  rw [runTask, hfunc, hmine.1, hmine.2]
  exact meets_extinfoReplied ⟨hw.reserve.ok, t, 0, hrun⟩ (running_of_halted hstep) hfree hcpe hfull.held
    (length_extInfo ..) hfirst

theorem entered_step {e : Entry} (hpacket : (opcode, payload) = e.packet)
    (hsocket : (w.sessionBuffer slot).clientSocket.Takes maxStrLen 11)
    (hexpected : (w.sessionBuffer slot).remainingCpeExtPackets ≠ 0)
    (hvalid : ∀ i, e.index = some i → isValid (effective (entryVersion (extEntry e.1 e.2)) i)) :
    Entered slot w (extEntry e.1 e.2) w' := by
  obtain ⟨rfl, rfl⟩ := Prod.mk.inj hpacket
  obtain rfl : f = .handleCpeExtentry := Option.some.inj hfull.handler.symm
  refine ended_of_meets (fun w₁ w₂ hs hh h => ?_) hrun ?_ hstep hw'
  · unfold Entered at h ⊢
    split
    · rw [if_pos (by assumption)] at h
      exact answered_mono w₁ w₂ hs hh h
    · rw [if_neg (by assumption)] at h
      exact replied_mono w₁ w₂ hs hh h
  · rw [runTask, hfunc, hmine.1, hmine.2]
    exact meets_extentryAnswered ⟨hw.reserve.ok, t, 0, hrun⟩ (running_of_halted hstep) hfree hcpe hfull.held
      (length_extEntry ..) hsocket hexpected hvalid

end

section

variable {config : Config} {numThreads maxBlockingThreads : Nat}
  {tasks : Priority → Nat → Context Func Arg} {sessions : Slot → Session}

/-- A CPE client that has declared nothing yet declares some extensions, the
last of which the server has. Whenever the handler of one of its packets runs,
with a socket that takes what it sends, the client is told nothing and listened
to again, unless the packet was the last: then it is told the support level of
CustomBlocks, or else the identification of the server. -/
theorem negotiation_answered {ls ls' : List Label} {w w' w'' : World} {slot : Slot} (call : Call)
    {t : Context Func Arg} {f : Func}
    (h : run Impl.Server.step (start config numThreads maxBlockingThreads tasks sessions) ls = some w)
    (h' : run Impl.Server.step w ls' = some w') (hh : w.halted = none)
    (hlive : Live w slot) (hlive' : Live w' slot) (hg : generation w' slot = generation w slot)
    (hidle : (w.sessionBuffer slot).pendingPacketOpcode = -1)
    (hknown : (w.sessionBuffer slot).authenticatedService ≠ none)
    (hcpe : (w.sessionBuffer slot).supportsCpe = true)
    (hfirst : (w.sessionBuffer slot).remainingCpeExtPackets.toInt < 0)
    (appname : List Byte) (entries : List Entry) (hentries : Answerable entries)
    (log : List Taken) (hlog : log = turns slot (generation w slot) w ls')
    (hbytes : received log <+: (declarations appname entries).flatMap packetBytes)
    (hrun : w'.threadPool.running? call.worker = some (t, 0)) (hmine : mine slot (generation w' slot) t)
    (hfunc : t.func = some f) (hhandler : isHandler f = true)
    (hsocket : (w'.sessionBuffer slot).clientSocket.Takes maxStrLen 11)
    (hstep : Impl.Server.step w' (.task call) = some w'') :
    (dispatched log ≠ declarations appname entries → Replied slot (w'.sessionBuffer slot) [] w'') ∧
    (dispatched log = declarations appname entries → Answered slot w'
      (supports (w.sessionBuffer slot) customBlocks || entries.any Entry.isCustomBlocks) w'') := by
  obtain ⟨next, _, ⟨⟨hpackets, htracks⟩, hplays, hmemory⟩, -⟩ :=
    serving_run lawful_remembers (along_of_forall fun _ _ _ => trivial) h hh hlive
  have hserved := serving_run lawful_remembers (along_of_forall fun _ _ _ => trivial)
    (run_append.mpr ⟨w, h, h'⟩) (running_of_halted hstep) hlive'
  obtain ⟨f', hfunc', ⟨⟨hpackets', htracks'⟩, hplays', hmemory'⟩, -, hfree⟩ := hserved.only hrun hmine
  obtain rfl : f' = f := Option.some.inj (hfunc'.symm.trans hfunc)
  generalize hbefore : turns slot (generation w slot)
    (start config numThreads maxBlockingThreads tasks sessions) ls = before at hpackets htracks hplays hmemory
  have hwhole : turns slot (generation w' slot) (start config numThreads maxBlockingThreads tasks sessions)
      (ls ++ ls') = before ++ log := by
    rw [hg, turns, collect_append h, hlog, ← hbefore]
    rfl
  rw [hwhole] at hpackets' htracks' hplays' hmemory'
  have hsound : Sound w' ∧ Slots w' := run_inv_of_effect (fun _ _ he _ hs => hs.effect he) slots_start
    (run_append.mpr ⟨w, h, h'⟩)
  have hsound' := (step_keeps hsound.1 hsound.2 hstep).1
  -- the client is still the one that was identified
  have hcpe' : (w'.sessionBuffer slot).supportsCpe = true := by
    have hlatest := hmemory.latest
    rcases hlast : before.getLast? with _ | t₀
    · rw [hlast] at hlatest
      exact absurd hlatest hknown
    · rw [hlast] at hlatest
      have hafter : t₀.after = w.sessionBuffer slot := hlatest
      have hsame := (hmemory'.known t₀ (List.mem_append_left _ (List.mem_of_getLast? hlast))
        (by rw [hafter]; exact hknown)).2
      rw [hsame, hafter, hcpe]
  -- the packets of the stream that have come
  obtain ⟨hall, idle⟩ := htracks.quiet hidle
  obtain ⟨opcode, payload, hfull, hlast⟩ := htracks'.handling hhandler
  have hr : (wire.feed blank (received before)).1 = ⟨supports (w.sessionBuffer slot) customBlocks, none⟩ := by
    rw [idle.custom, ← idle.pending]
  have hfeed : dispatched log =
      (wire.feed ⟨supports (w.sessionBuffer slot) customBlocks, none⟩ (received log)).2 := by
    rw [received_append, Format.feed_append, hr, dispatched_append, hpackets] at hpackets'
    exact List.append_cancel_left hpackets'
  have hdispatched : dispatched log = handled log ++ [(opcode, payload)] := by
    rw [dispatched_append, handled_append, hall, List.append_assoc] at hlast
    exact List.append_cancel_left hlast
  have hfront : handled log ++ [(opcode, payload)] <+: declarations appname entries := by
    have hmono := Format.feed_mono (F := wire)
      (r := ⟨supports (w.sessionBuffer slot) customBlocks, none⟩) hbytes
    rwa [← hfeed, hdispatched, Format.feed_proper (proper_declarations ..)] at hmono
  have hremaining : (w'.sessionBuffer slot).remainingCpeExtPackets =
      (handled log).foldl learnRemaining (w.sessionBuffer slot).remainingCpeExtPackets := by
    rw [hmemory'.remaining, handled_append, List.foldl_append, ← hmemory.remaining]
  have hcustom : supports (w'.sessionBuffer slot) customBlocks =
      (handled log).foldl learnCustom (supports (w.sessionBuffer slot) customBlocks) := by
    rw [hplays'.custom, handled_append, List.foldl_append, ← hplays.custom]
  rcases declarations_cases hfront with ⟨hdone, hpacket⟩ | ⟨front, e, rest, hsplit, hpacket, hdone⟩
  · have hreplied : Replied slot (w'.sessionBuffer slot) [] w'' := by
      refine replied_step hrun hmine hfunc hstep hsound.1 hsound' hfree hcpe' hfull hpacket ?_
      rw [hremaining, hdone]
      exact hfirst
    refine ⟨fun _ => hreplied, fun hcomplete => ?_⟩
    -- there is an extension, so the ExtInfo packet is not the last one
    rw [hdispatched, hdone, hpacket] at hcomplete
    have hnil : entries.map Entry.packet = [] := (List.cons.inj hcomplete).2.symm
    obtain ⟨e, he, -⟩ := hentries.last
    rw [List.map_eq_nil_iff.mp hnil] at he
    cases he
  · subst hsplit
    have hcount : (w'.sessionBuffer slot).remainingCpeExtPackets = BitVec.ofNat 16 (rest.length + 1) := by
      rw [hremaining, hdone, remaining_entries hentries.count.2]
    have hlt : rest.length + 1 < 2 ^ 15 := by
      have hcount := hentries.count.1
      rw [List.length_append, List.length_cons] at hcount
      omega
    have hentered := entered_step hrun hmine hfunc hstep hsound.1 hsound' hfree hcpe' hfull hpacket hsocket
      (fun hzero => by
        have hnat : (rest.length + 1) % 2 ^ 16 = 0 := congrArg BitVec.toNat (hcount.symm.trans hzero)
        omega)
      fun i hi => hentries.valid (by simp) hi
    have hcomplete : dispatched log = declarations appname (front ++ e :: rest) ↔ rest = [] := by
      constructor
      · intro heq
        have hlength := congrArg List.length heq
        simp only [hdispatched, hdone, declarations, List.length_append, List.length_cons, List.length_map,
          List.length_nil] at hlength
        exact List.length_eq_zero_iff.mp (by omega)
      · rintro rfl
        rw [hdispatched, hdone, hpacket, declarations, List.map_append]
        rfl
    have hlastIndex : rest = [] → e.index ≠ none := by
      rintro rfl
      obtain ⟨e', he', hindex⟩ := hentries.last
      rw [List.getLast?_concat] at he'
      rwa [Option.some.inj he']
    have hone : (w'.sessionBuffer slot).remainingCpeExtPackets = 1 ↔ rest = [] := by
      rw [hcount, ← List.length_eq_zero_iff]
      constructor
      · intro hone
        have hnat : (rest.length + 1) % 2 ^ 16 = 1 := congrArg BitVec.toNat hone
        omega
      · intro hzero
        rw [hzero]
        rfl
    refine ⟨fun hmore => ?_, fun hdone' => ?_⟩
    · rwa [entered_more fun hc => hmore (hcomplete.mpr (hone.mp hc.1))] at hentered
    · have hrest := hcomplete.mp hdone'
      rw [entered_last ⟨hone.mpr hrest, hlastIndex hrest⟩, hcustom, hdone, List.foldl_cons] at hentered
      have hinfo : learnCustom (supports (w.sessionBuffer slot) customBlocks)
          (0x10, extInfo appname (BitVec.ofNat 16 (front ++ e :: rest).length)) =
          supports (w.sessionBuffer slot) customBlocks := Bool.or_false _
      rw [hinfo, foldl_learnCustom] at hentered
      rw [hrest, List.any_append, List.any_cons, List.any_nil, Bool.or_false, ← Bool.or_assoc]
      exact hentered

end

/-- A client that has asked for CPE, and was told the server's extensions. -/
def greeted : List Label := talk listening (worldWithDefault "lobby") [[0x00], identification 0x42] 12

/-- Its declarations, one packet after another, until the given number of tasks
has run. -/
def declares (entries : List Entry) (numTasks : Nat) : List Label :=
  (run Impl.Server.step (worldWithDefault "lobby") greeted).elim [] fun w =>
    drive listening w ((declarations (ascii "client") entries).flatMap fun p => [[p.1], p.2]) numTasks

/-- CustomBlocks comes last. -/
def customBlocksLast : List Entry := [(ascii "TwoWayPing", 1), (ascii "CustomBlocks", 1)]

theorem answerable_customBlocksLast : Answerable customBlocksLast := by
  refine ⟨⟨(ascii "CustomBlocks", 1), rfl, ?_⟩, ?_, ?_⟩
  · decide +kernel
  · decide
  · decide +kernel

theorem negotiation_answered_customBlocks : ∃ w w' w'',
    run Impl.Server.step (worldWithDefault "lobby") greeted = some w ∧
    run Impl.Server.step w (declares customBlocksLast 16) = some w' ∧
    Impl.Server.step w' (.task ⟨0, listening⟩) = some w'' ∧
    dispatched (turns first (generation w first) w (declares customBlocksLast 16)) =
      declarations (ascii "client") customBlocksLast ∧
    Replied first (w'.sessionBuffer first) [0x13, 1] w'' := by
  have hrun : (run Impl.Server.step (worldWithDefault "lobby") greeted).bind (fun w =>
      (run Impl.Server.step w (declares customBlocksLast 16)).bind fun w' =>
      (Impl.Server.step w' (.task ⟨0, listening⟩)).map fun _ =>
      let log := turns first (generation w first) w (declares customBlocksLast 16)
      decide (w.halted = none ∧ Event.accepted first (generation w first) ∈ w.trace ∧
        Event.accepted first (generation w' first) ∈ w'.trace ∧ generation w' first = generation w first ∧
        (w.sessionBuffer first).pendingPacketOpcode = -1 ∧
        (w.sessionBuffer first).authenticatedService ≠ none ∧ (w.sessionBuffer first).supportsCpe = true ∧
        (w.sessionBuffer first).remainingCpeExtPackets.toInt < 0 ∧
        received log <+: (declarations (ascii "client") customBlocksLast).flatMap packetBytes ∧
        ((w'.threadPool.running? 0).any fun p => p.2 = 0 ∧ mine first (generation w' first) p.1 ∧
          p.1.func = some .handleCpeExtentry) = true ∧
        (w'.sessionBuffer first).clientSocket.Takes maxStrLen 11 ∧
        dispatched log = declarations (ascii "client") customBlocksLast ∧
        (supports (w.sessionBuffer first) customBlocks ||
          customBlocksLast.any Entry.isCustomBlocks) = true)) = some true := by
    decide +kernel
  obtain ⟨w, hw, hrun'⟩ := Option.bind_eq_some_iff.mp hrun
  obtain ⟨w', hw', hrun''⟩ := Option.bind_eq_some_iff.mp hrun'
  obtain ⟨w'', hw'', hobs⟩ := Option.map_eq_some_iff.mp hrun''
  obtain ⟨hh, hlive, hlive', hg, hidle, hknown, hcpe, hfirst, hbytes, htask, hsocket, hall, hcustom⟩ :=
    of_decide_eq_true hobs
  obtain ⟨⟨t, c⟩, hrunning, htask'⟩ := (Option.any_eq_true _ _).mp htask
  obtain ⟨rfl, hmine, hfunc⟩ : c = 0 ∧ mine first (generation w' first) t ∧ t.func = some .handleCpeExtentry :=
    of_decide_eq_true htask'
  have hanswered := (negotiation_answered ⟨0, listening⟩ hw hw' hh hlive hlive' hg hidle hknown hcpe hfirst
    (ascii "client") customBlocksLast answerable_customBlocksLast _ rfl hbytes hrunning hmine hfunc rfl hsocket hw'').2
    hall
  rw [hcustom] at hanswered
  exact ⟨w, w', w'', hw, hw', hw'', hall, hanswered⟩

/-- A client that has no extension, or none that the server has, declares so:
nothing is sent to it, and the server waits for more. -/
def LeftWaiting (entries : List Entry) : Prop := ∃ w w' log,
    run Impl.Server.step (worldWithDefault "lobby") greeted = some w ∧
    run Impl.Server.step w (declares entries 20) = some w' ∧
    log = turns first (generation w first) w (declares entries 20) ∧
    w'.halted = none ∧ Live w first ∧ Live w' first ∧ generation w' first = generation w first ∧
    (w.sessionBuffer first).authenticatedService ≠ none ∧ (w.sessionBuffer first).supportsCpe = true ∧
    (w.sessionBuffer first).remainingCpeExtPackets = -1 ∧
    received log = (declarations (ascii "client") entries).flatMap packetBytes ∧
    handled log = declarations (ascii "client") entries ∧
    (w'.sessionBuffer first).remainingCpeExtPackets = 0 ∧
    (w'.sessionBuffer first).clientSocket.accepted = (w.sessionBuffer first).clientSocket.accepted

theorem left_waiting : LeftWaiting [] ∧ LeftWaiting [(ascii "TwoWayPing", 1)] := by
  have hrun : ∀ entries ∈ [[], [(ascii "TwoWayPing", 1)]],
      (run Impl.Server.step (worldWithDefault "lobby") greeted).bind (fun w =>
      (run Impl.Server.step w (declares entries 20)).map fun w' =>
      let log := turns first (generation w first) w (declares entries 20)
      decide (w'.halted = none ∧ Event.accepted first (generation w first) ∈ w.trace ∧
        Event.accepted first (generation w' first) ∈ w'.trace ∧ generation w' first = generation w first ∧
        (w.sessionBuffer first).authenticatedService ≠ none ∧ (w.sessionBuffer first).supportsCpe = true ∧
        (w.sessionBuffer first).remainingCpeExtPackets = -1 ∧
        received log = (declarations (ascii "client") entries).flatMap packetBytes ∧
        handled log = declarations (ascii "client") entries ∧
        (w'.sessionBuffer first).remainingCpeExtPackets = 0 ∧
        (w'.sessionBuffer first).clientSocket.accepted = (w.sessionBuffer first).clientSocket.accepted)) =
      some true := by
    decide +kernel
  have hleft : ∀ entries ∈ [[], [(ascii "TwoWayPing", 1)]], LeftWaiting entries := by
    intro entries hentries
    obtain ⟨w, hw, hrun'⟩ := Option.bind_eq_some_iff.mp (hrun entries hentries)
    obtain ⟨w', hw', hobs⟩ := Option.map_eq_some_iff.mp hrun'
    have hend := of_decide_eq_true hobs
    exact ⟨w, w', _, hw, hw', rfl, hend⟩
  exact ⟨hleft _ (by simp), hleft _ (by simp)⟩

end TC.Proof.Server
