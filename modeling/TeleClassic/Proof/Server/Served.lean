import TeleClassic.Proof.Server.Turns

/-!
# Every task makes a turn

One specification for each task of a session that is live, in the generation
the task was scheduled for, and whose lock is free: it makes a turn, or the
process halts.
-/

namespace TC.Proof.Server

open TC.Impl.Server TC.Impl.ThreadPool TC.Impl.Protocol TC.Proof.ThreadPool Prog

variable {R : World → Prop} {s : Session}

section

variable {call : Call} {slot : Slot} {w : World} {f : Func} {priority : Priority}

/-- The task gets the lock. -/
theorem meets_aquire {p : TaskM Unit} {Q : Unit → World → Prop}
    (hfree : (w.sessionBuffer slot).actionLock = false)
    (h : Meets call (w.setSession slot (locked (w.sessionBuffer slot))) p Q R) :
    Meets call w (tcSessionAquireActionLock slot (generation w slot) >>= fun aquired =>
      if aquired = true then p else pure ()) Q R :=
  meets_bind_of_some (aquire_unlocked hfree) h

theorem same_locked (s : Session) : Same s (locked s) := ⟨rfl, rfl, rfl, rfl, rfl, rfl, rfl, rfl⟩

theorem meets_sendExtentries {β : Type} {w₁ : World} {extensions : List Extension} {k : Bool → TaskM β}
    {Q : β → World → Prop}
    (h : ∀ sent socket, Meets call (w₁.setSession slot { s with clientSocket := socket }) (k sent) Q R) :
    Meets call (w₁.setSession slot s) (sendExtentries slot extensions >>= k) Q R := by
  induction extensions generalizing s with
  | nil => exact h true s.clientSocket
  | cons extension extensions ih =>
    unfold sendExtentries
    refine meets_assoc (meets_send rfl fun sent socket _ => ?_)
    rcases sent with _ | _
    · exact h false socket
    · exact ih fun sent socket => h sent socket

theorem meets_identify {β : Type} {service : Nat} {cpe : Bool} {k : Unit → TaskM β} {w₁ : World}
    {Q : β → World → Prop}
    (h : ∀ w', Alike w₁ w' → Meets call (w'.setSession slot
      { s with authenticatedService := some service, supportsCpe := cpe }) (k ()) Q R) :
    Meets call (w₁.setSession slot s) (identify slot service cpe >>= k) Q R := by
  refine meets_bind_of_some (a := ()) ?_ (h _ ((Alike.emit (e := .validated slot s.currentGeneration) rfl).trans
    (Alike.emit (e := .identified slot s.currentGeneration cpe) rfl)))
  simp only [identify, Prog.modify, sessionBuffer_setSession, setSession_setSession]
  rfl

theorem meets_readBlock {β : Type} {k : BitVec 16 → TaskM β} {Q : β → World → Prop}
    (hR : ∀ w' : World, w'.halted.isSome = true → R w')
    (h : ∀ block, Meets call (w.setSession slot s) (k block) Q R) :
    Meets call (w.setSession slot s) (readBlock slot >>= k) Q R := by
  unfold readBlock
  refine meets_assoc (meets_read ?_)
  split
  · exact meets_readShort hR fun _ _ _ => h _
  · exact meets_assoc (meets_readByte hR fun _ _ _ => h _)

theorem meets_self (slot : Slot) {p : TaskM Unit} {Q : Unit → World → Prop}
    (h : Meets call (w.setSession slot (w.sessionBuffer slot)) p Q R) : Meets call w p Q R := by
  rwa [World.setSession, Function.update_eq_self] at h

theorem aquire_eq (hlock : s.actionLock = false) :
    tcSessionAquireActionLock slot s.currentGeneration call (w.setSession slot s) =
      (some true, w.setSession slot (locked s)) := by
  have haquire : tcSessionAquireActionLock slot (generation (w.setSession slot s) slot) call
      (w.setSession slot s) = _ := aquire_unlocked (by rw [sessionBuffer_setSession, hlock])
  rwa [generation, sessionBuffer_setSession, setSession_setSession] at haquire

/-- A joinable's task leaves the session with nothing, or with one more task. -/
theorem ends_joined {w₁ : World} {s₁ : Session} {next : Option Func} {tasks : List (Context Func Arg)}
    (hreach : Reaches call.worker slot w w₁ [] tasks) (hchained : Chained slot (generation w slot) next tasks)
    (hpassed : Passed next) (hlost : next = none → Loses call w slot .joinableTask)
    (hsame : Same (w.sessionBuffer slot) s₁) (hlock : s₁.actionLock = false) :
    Ends call slot w .joinableTask (w₁.setSession slot s₁) := by
  have hturn : Turn call w slot (w.sessionBuffer slot) .joinableTask false next s₁ := .joins hsame hpassed hlost
  have hreach' : Reaches call.worker slot w w₁ (finalized false slot (generation w slot)) tasks := hreach
  exact ends_of hreach' hturn hchained fun _ => hlock

variable (hb : Busy w call.worker) (hfree : (w.sessionBuffer slot).actionLock = false)

include hb hfree

/-! ## The negotiation -/

theorem ends_beginCpeNegotiation :
    Makes call slot w .handleBeginCpeNegotiation w
      (handleBeginCpeNegotiation slot priority (generation w slot)) := by
  unfold handleBeginCpeNegotiation
  refine meets_aquire hfree (meets_read (meets_assert stops_of_halted fun _ => ?_))
  refine meets_send rfl fun sent socket _ => ?_
  split
  · refine meets_sendExtentries fun sent socket => ?_
    split
    · exact meets_cleanup hb (reaches_start ..) fun s' hs' =>
        .listens .negotiation (hs'.after ⟨rfl, rfl, rfl, rfl, rfl, rfl, rfl, rfl⟩)
    · exact meets_kickHandler (by decide) (reaches_start ..) rfl
  · exact meets_kickHandler (by decide) (reaches_start ..) rfl

theorem ends_extinfo :
    Makes call slot w .handleCpeExtinfo w (handleCpeExtinfo slot priority (generation w slot)) := by
  unfold handleCpeExtinfo
  refine meets_aquire hfree (meets_read (meets_assert stops_of_halted fun hcpe => meets_read ?_))
  split
  · exact meets_kickHandler (by decide) (reaches_start ..) rfl
  · rename_i hremaining
    refine meets_readString stops_of_halted fun _ _ _ => ?_
    refine meets_readShort stops_of_halted fun packet hpacket _ => meets_write ?_
    refine meets_cleanup hb (reaches_start ..) fun s' hs' => .listens (.extinfo hcpe hpacket ?_) ?_
    · exact Int.not_le.mp hremaining
    · exact hs'.after ⟨rfl, rfl, rfl, rfl, rfl, rfl, rfl, rfl⟩

omit hfree in
/-- The last declared entry has been counted. -/
theorem ends_finishExtentries {packet : List Byte} {i : Nat} {s₁ : Session}
    (hdeclares : Declares (w.sessionBuffer slot) packet i)
    (hlast : (declared (w.sessionBuffer slot) packet i).remainingCpeExtPackets = 0)
    (hsame : Same (declared (w.sessionBuffer slot) packet i) s₁) (hlock : s₁.actionLock = true) :
    Makes call slot w .handleCpeExtentry (w.setSession slot s₁)
      (finishExtentries slot priority (generation w slot)) := by
  have hsupports : supports s₁ customBlocks =
      supports (declared (w.sessionBuffer slot) packet i) customBlocks := supports_congr hsame.versions _
  have hg : s₁.currentGeneration = generation w slot := hsame.generation
  unfold finishExtentries
  refine meets_read ?_
  split
  · rename_i hcustom
    refine meets_send rfl fun sent socket _ => ?_
    split
    · refine meets_cleanup hb (reaches_start ..) fun s' hs' => ?_
      refine .listens (.known hdeclares (.inr (hsupports.symm.trans hcustom))) (hs'.after ?_)
      exact ⟨hsame.generation, hsame.service, hsame.cpe, hsame.versions, hsame.remaining, rfl, rfl, rfl⟩
    · -- the client is kicked, and a task scheduled for it all the same
      refine meets_kick fun w₁ socket₁ hw₁ => ?_
      have hreach := (reaches_start call slot w).alike hw₁
      refine meets_cleanup hb hreach fun s' hs' => ?_
      refine .gone (hs'.generation.trans ?_) (fun h => by cases h) not_finalizing
      show s₁.currentGeneration + 1 = _
      rw [hg]
      rfl
  · rename_i hcustom
    have hplain := hsupports.symm.trans (Bool.not_eq_true _ |>.mp hcustom)
    exact meets_finalize hb (.entry hdeclares hlast hplain) hsame rfl hlock (Reaches.refl ..)

omit hfree in
theorem ends_acceptExtentry {packet : List Byte} {i : Nat}
    (hcpe : (w.sessionBuffer slot).supportsCpe = true)
    (hpacket : (w.sessionBuffer slot).pendingPacketBuffer = some packet)
    (hexpected : (w.sessionBuffer slot).remainingCpeExtPackets ≠ 0) (hindex : entryIndex packet = some i) :
    Makes call slot w .handleCpeExtentry (w.setSession slot (locked (w.sessionBuffer slot)))
      (acceptExtentry slot priority (generation w slot) i) := by
  unfold acceptExtentry
  refine meets_readInt stops_of_halted fun packet' hpacket' _ => ?_
  obtain rfl : packet' = packet := Option.some.inj (hpacket'.symm.trans hpacket)
  dsimp only
  split
  · exact meets_write (meets_kickHandler (by decide) (reaches_start ..) rfl)
  · rename_i hvalid
    have hdeclares : Declares (w.sessionBuffer slot) packet' i := by
      refine ⟨hcpe, hpacket, hexpected, hindex, ?_⟩
      show 1 ≤ (effective (entryVersion packet') i).toInt ∧ (effective (entryVersion packet') i).toInt ≤ 3
      have hbounds : ¬ ((effective (entryVersion packet') i).toInt < 1 ∨
        (effective (entryVersion packet') i).toInt > 3) := hvalid
      omega
    have hsame : Same (declared (w.sessionBuffer slot) packet' i)
        (declared (locked (w.sessionBuffer slot)) packet' i) :=
      ⟨rfl, rfl, rfl, rfl, rfl, rfl, rfl, rfl⟩
    refine meets_write (meets_write (meets_read ?_))
    split
    · rename_i hlast
      exact ends_finishExtentries hb hdeclares hlast hsame rfl
    · rename_i hmore
      refine meets_cleanup hb (reaches_start ..) fun s' hs' => ?_
      exact .listens (.known hdeclares (.inl hmore)) (hs'.after ⟨rfl, rfl, rfl, rfl, rfl, rfl, rfl, rfl⟩)

theorem ends_extentry :
    Makes call slot w .handleCpeExtentry w (handleCpeExtentry slot priority (generation w slot)) := by
  unfold handleCpeExtentry
  refine meets_aquire hfree (meets_read (meets_assert stops_of_halted fun hcpe => meets_read ?_))
  split
  · exact meets_kickHandler (by decide) (reaches_start ..) rfl
  rename_i hexpected
  refine meets_readString stops_of_halted fun packet hpacket _ => ?_
  split
  · rename_i hindex
    refine meets_write (meets_cleanup hb (reaches_start ..) fun s' hs' => ?_)
    exact .listens (.unknown hcpe hpacket hexpected hindex)
      (hs'.after ⟨rfl, rfl, rfl, rfl, rfl, rfl, rfl, rfl⟩)
  · rename_i i hindex
    exact ends_acceptExtentry hb hcpe hpacket hexpected hindex

theorem ends_supportLevel :
    Makes call slot w .handleCpeCustomBlockSupportLevel w
      (handleCpeCustomBlockSupportLevel slot priority (generation w slot)) := by
  unfold handleCpeCustomBlockSupportLevel
  refine meets_aquire hfree (meets_read (meets_assert stops_of_halted fun hcpe => ?_))
  refine meets_readByte stops_of_halted fun _ _ _ => meets_write ?_
  exact meets_finalize hb (.level hcpe) ⟨rfl, rfl, rfl, rfl, rfl, rfl, rfl, rfl⟩ rfl rfl (Reaches.refl ..)

/-! ## Identification -/

theorem ends_identification :
    Makes call slot w .handlePlayerIdentification w
      (handlePlayerIdentification slot priority (generation w slot)) := by
  unfold handlePlayerIdentification
  refine meets_aquire hfree (meets_read ?_)
  split
  · exact meets_kickHandler (by decide) (reaches_start ..) rfl
  rename_i hservice
  have hunknown : (w.sessionBuffer slot).authenticatedService = none := by
    have hnone : ¬ (w.sessionBuffer slot).authenticatedService.isSome = true := hservice
    simpa using hnone
  refine meets_readByte stops_of_halted fun _ _ _ => ?_
  split
  · refine meets_readString stops_of_halted fun _ _ _ => meets_write ?_
    refine meets_readString stops_of_halted fun _ _ _ => meets_ask ?_
    split
    · exact meets_kickHandler (by decide) (reaches_start ..) rfl
    · rename_i service _
      refine meets_readByte stops_of_halted fun packet _ _ => ?_
      refine meets_identify fun w₁ hw₁ => ?_
      have hreach := (reaches_start call slot w).alike hw₁
      split
      · rename_i hcpe
        refine meets_cleanup hb hreach fun s' hs' => ?_
        have hsame : Same (cleaned { w.sessionBuffer slot with
            authenticatedService := some service, supportsCpe := true }) s' :=
          hs'.after ⟨rfl, rfl, decide_eq_true hcpe, rfl, rfl, rfl, rfl, rfl⟩
        exact .negotiates hunknown hsame
      · rename_i hcpe
        have hfinishes : Finishes (w.sessionBuffer slot) .handlePlayerIdentification { w.sessionBuffer slot with
            authenticatedService := some service, supportsCpe := false } := .identification hunknown
        refine meets_finalize hb hfinishes ?_ rfl rfl hreach
        exact ⟨rfl, rfl, decide_eq_false hcpe, rfl, rfl, rfl, rfl, rfl⟩
  · exact meets_kickHandler (by decide) (reaches_start ..) rfl

/-! ## Play -/

omit hfree in
/-- A packet is handed to the joinable, and the client listened to again. -/
theorem ends_hand {handled : Bool} {msg : String} {f : Func} (hf : f ≠ .tcServerClientListenTask)
    (hhandles : Handles (w.sessionBuffer slot) f (w.sessionBuffer slot)) :
    Makes call slot w f (w.setSession slot (locked (w.sessionBuffer slot))) (do
      emit (.handed slot (generation w slot))
      if handled = true then do
        tcServerProtocolHandlerCleanup slot (some .tcServerClientListenTask) priority (generation w slot)
        tcSessionReleaseActionLock slot
      else kickAndRelease slot msg) := by
  have hreach := (reaches_start call slot w).alike (Alike.emit (e := .handed slot (generation w slot)) rfl)
  refine meets_emit ?_
  split
  · exact meets_cleanup hb hreach fun s' hs' =>
      .listens hhandles (hs'.after ⟨rfl, rfl, rfl, rfl, rfl, rfl, rfl, rfl⟩)
  · exact meets_kickHandler hf hreach rfl

theorem ends_setBlock :
    Makes call slot w .handlePlayerSetBlock w (handlePlayerSetBlock slot priority (generation w slot)) := by
  unfold handlePlayerSetBlock
  refine meets_aquire hfree (meets_readShort stops_of_halted fun _ _ _ => ?_)
  refine meets_readShort stops_of_halted fun _ _ _ => meets_readShort stops_of_halted fun _ _ _ => ?_
  refine meets_readByte stops_of_halted fun _ _ _ => meets_readBlock stops_of_halted fun _ => meets_read ?_
  split
  · exact meets_kickHandler (by decide) (reaches_start ..) rfl
  · exact ends_hand hb (by decide) .setBlock

theorem ends_positionUpdate :
    Makes call slot w .handlePlayerPositionAndOrientationUpdate w
      (handlePlayerPositionAndOrientationUpdate slot priority (generation w slot)) := by
  unfold handlePlayerPositionAndOrientationUpdate
  refine meets_aquire hfree (meets_read ?_)
  dsimp only
  refine meets_readShort stops_of_halted fun _ _ _ => meets_readShort stops_of_halted fun _ _ _ => ?_
  refine meets_readShort stops_of_halted fun _ _ _ => meets_readByte stops_of_halted fun _ _ _ => ?_
  refine meets_readByte stops_of_halted fun _ _ _ => meets_read ?_
  split
  · exact meets_kickHandler (by decide) (reaches_start ..) rfl
  · exact ends_hand hb (by decide) .position

/-! ## Kicks and joinables -/

omit hb in
theorem meets_kickLocking {msg : Option String} {f : Func} (hf : f ≠ .tcServerClientListenTask) :
    Makes call slot w f w (tcServerKickSession slot msg (generation w slot) true) := by
  unfold tcServerKickSession
  rw [if_pos rfl]
  have hgone : ∀ w' s', Alike w w' → s'.currentGeneration = generation w slot + 1 →
      Ends call slot w f (w'.setSession slot s') := fun w' s' hw' hg =>
    ends_of_gone ((reaches_start call slot w).alike hw') hg (fun h => absurd h hf)
      not_finalizing
  refine meets_aquire hfree ?_
  rcases msg with _ | msg
  · exact meets_disconnect fun w' hw' => meets_unlock (hgone w' _ hw' rfl)
  · exact meets_assoc (meets_send rfl fun _ socket _ =>
      meets_disconnect fun w' hw' => meets_unlock (hgone w' _ hw' rfl))

omit hb in
theorem ends_shutdownClient :
    Makes call slot w .tcServerShutdownClientTask w (tcServerShutdownClientTask slot (generation w slot)) :=
  meets_kickLocking hfree (by decide)

theorem ends_joining {address : Option String} (haction : call.env.joinable = .join address) :
    Makes call slot w .joinableTask w
      (tcSessionJoin slot address priority (generation w slot) true >>= fun _ => pure ()) := by
  have hreach := (Alike.emit (w := w) (e := .joining slot (generation w slot)) rfl).reaches call.worker slot
  have hloses : tcFindJoinable w.config.joinRouter address = none ∨ Drops call w →
      Loses call w slot .joinableTask := by
    intro h
    simpa only [Loses, haction] using h
  unfold tcSessionJoin
  refine meets_self slot (meets_assoc (meets_emit (meets_assoc (meets_get ?_))))
  rcases hfind : tcFindJoinable w.config.joinRouter address with _ | joinable
  · have hfind' : tcFindJoinable ((w.emit (.joining slot (generation w slot))).setSession slot
        (w.sessionBuffer slot)).config.joinRouter address = none := hfind
    rw [hfind']
    exact meets_pure (ends_joined hreach (chained_none ..) (fun f hf => by cases hf)
      (fun _ => hloses (.inl hfind)) (Same.refl _) hfree)
  · have hfind' : tcFindJoinable ((w.emit (.joining slot (generation w slot))).setSession slot
        (w.sessionBuffer slot)).config.joinRouter address = some joinable := hfind
    rw [hfind']
    refine meets_assoc (meets_bind_of_some (aquire_eq hfree) ?_)
    refine meets_bind (meets_joinFound stops_of_halted (hreach.busy hb)) fun joined w' hjoins => meets_pure ?_
    rcases hjoins with ⟨hreach', hchained, hpassed, hlost, hsame, hlock⟩ | ⟨hreach', hlater, -⟩
    · refine ends_joined (hreach.trans hreach') hchained hpassed (fun hnone => ?_)
        ((same_locked _).trans hsame) ?_
      · exact hloses (.inr ((hlost hnone).of_reaches hreach))
      · rw [hlock, Bool.not_true, Bool.and_false]
    · have hreach₂ : Reaches call.worker slot w _ (finalized false slot (generation w slot)) [] :=
        hreach.trans hreach'
      exact ends_of_gone hreach₂ hlater (fun h => by cases h) not_finalizing

theorem ends_joinableTask :
    Makes call slot w .joinableTask w (joinableTask slot priority (generation w slot)) := by
  unfold joinableTask
  refine meets_ask ?_
  rcases haction : call.env.joinable with _ | shutdown | newPriority | msg | address | _
  · refine meets_self slot (meets_last (meets_scheduleNext stops_of_halted hb fun pool hadds => meets_pure ?_))
    refine ends_joined (reaches_schedule hadds) (chained_continuation rfl) (fun f hf => ?_) (fun hnone => ?_)
      (Same.refl _) hfree
    · rw [after] at hf
      split at hf
      · cases hf
        exact .inr (.inl rfl)
      · cases hf
        exact .inr (.inr rfl)
    · rw [after] at hnone
      split at hnone
      · cases hnone
      · cases hnone
  · refine meets_self slot (meets_last (meets_scheduleNext stops_of_halted hb fun pool hadds => meets_pure ?_))
    refine ends_joined (reaches_schedule hadds) ⟨priority, rfl⟩ passed_continuation (fun hnone => ?_)
      (Same.refl _) hfree
    split at hnone
    · rename_i hshutdown
      rcases shutdown with _ | _ | _
      · simpa only [Loses, haction, and_true] using hshutdown
      · cases hnone
      · cases hnone
    · cases hnone
  · refine meets_self slot (meets_scheduleNew fun scheduled pool hpool => meets_pure ?_)
    have hadds := scheduleNew_adds call.worker w.threadPool
      ⟨newPriority, some .joinableTask, some (.session slot), generation w slot⟩ call.env.pick
    rw [hpool] at hadds
    rcases scheduled with _ | _
    · refine ends_joined (reaches_schedule hadds) (chained_none ..) (fun f hf => by cases hf) (fun _ => ?_)
        (Same.refl _) hfree
      simp only [Loses, haction]
      exact congrArg Prod.fst hpool
    · have hchained : Chained slot (generation w slot) (some .joinableTask)
          [⟨newPriority, some .joinableTask, some (.session slot), generation w slot⟩] := ⟨newPriority, rfl⟩
      refine ends_joined (reaches_schedule hadds) hchained (fun f hf => ?_) (fun hnone => by cases hnone)
        (Same.refl _) hfree
      cases hf
      exact .inl rfl
  · exact meets_kickLocking hfree (by decide)
  · exact ends_joining hb hfree haction
  · refine meets_self slot (meets_pure ?_)
    refine ends_joined (Reaches.refl ..) (chained_none ..) (fun f hf => by cases hf) (fun _ => ?_)
      (Same.refl _) hfree
    simp only [Loses, haction]

end

/-! ## Listening -/

section

variable {call : Call} {slot : Slot} {w : World} {s₁ : Session} {priority : Priority}

/-- A task that listens kicks the client. -/
theorem meets_kickListening {msg : String} (hg : s₁.currentGeneration = generation w slot)
    (hears : HearsOpcode call.env (w.sessionBuffer slot)) :
    Makes call slot w .tcServerClientListenTask (w.setSession slot s₁) (kickAndRelease slot msg) :=
  meets_kickAndRelease (reaches_start ..) hg (fun _ => hears) not_finalizing

theorem heard_data {bytes : List Byte} (hpinged : pinged call.env (w.sessionBuffer slot) = true)
    (hreceive : call.env.receive = .data bytes) :
    heard call.env (w.sessionBuffer slot) = bytes.take (requested (w.sessionBuffer slot)) := by
  rw [heard, if_pos hpinged, hreceive]

theorem heard_other (hreceive : call.env.receive = .wouldBlock ∨ call.env.receive = .failed) :
    heard call.env (w.sessionBuffer slot) = [] := by
  rw [heard]
  rcases hreceive with hreceive | hreceive
  · rw [hreceive]
    exact ite_self _
  · rw [hreceive]
    exact ite_self _

theorem meets_pingClient {k : Bool → TaskM Unit}
    (hthere : ∀ socket, pinged call.env (w.sessionBuffer slot) = true →
      Makes call slot w .tcServerClientListenTask
        (w.setSession slot { locked (w.sessionBuffer slot) with clientSocket := socket }) (k true))
    (hgone : ∀ w', Ends call slot w .tcServerClientListenTask w' →
      Makes call slot w .tcServerClientListenTask w' (k false)) :
    Makes call slot w .tcServerClientListenTask (w.setSession slot (locked (w.sessionBuffer slot)))
      (pingClient slot >>= k) := by
  unfold pingClient
  refine meets_assoc (meets_ask ?_)
  split
  · rename_i hdue
    refine meets_assoc (meets_send rfl fun sent socket hsend => ?_)
    have hsent : (Packet.tcProtocolPing.send (w.sessionBuffer slot).clientSocket).1 = some sent :=
      congrArg Prod.fst hsend
    rcases sent with _ | _
    · refine meets_assoc (meets_disconnect fun w₁ hw₁ => meets_assoc (meets_unlockThen ?_))
      refine hgone _ (ends_of_gone ((reaches_start call slot w).alike hw₁) rfl (fun _ => .inl ?_) not_finalizing)
      rw [heard, if_neg]
      rw [pinged, hsent, hdue]
      decide
    · refine hthere socket ?_
      rw [pinged, hsent]
      exact Bool.or_true _
  · rename_i hdue
    refine hthere _ ?_
    rw [pinged, Bool.not_eq_true _ |>.mp hdue]
    rfl

variable (hb : Busy w call.worker)

include hb

theorem meets_listenAgain
    (hturn : ∀ s', Same s₁ s' → Turn call w slot (w.sessionBuffer slot) .tcServerClientListenTask false
      (after w .tcServerClientListenTask) s') :
    Makes call slot w .tcServerClientListenTask (w.setSession slot s₁)
      (listenAgain slot priority (generation w slot)) :=
  meets_schedule hb (reaches_start ..) hturn

variable (hsame : Same (w.sessionBuffer slot) s₁) (hpinged : pinged call.env (w.sessionBuffer slot) = true)

include hsame

theorem ends_beginPacket {opcode : Byte} (hidle : (w.sessionBuffer slot).pendingPacketOpcode = -1)
    (hears : heard call.env (w.sessionBuffer slot) = [opcode]) :
    Makes call slot w .tcServerClientListenTask (w.setSession slot s₁)
      (beginPacket slot priority (generation w slot) opcode) := by
  have hkick : HearsOpcode call.env (w.sessionBuffer slot) := .inr ⟨hidle, by rw [hears]; rfl⟩
  unfold beginPacket
  refine meets_write ?_
  split
  · exact meets_kickListening hsame.generation hkick
  split
  · exact meets_kickListening hsame.generation hkick
  rename_i hknown
  refine meets_read (meets_ask ?_)
  dsimp only
  split
  · refine meets_write ?_
    split
    · exact meets_kickListening hsame.generation hkick
    · refine meets_listenAgain hb fun s' hs' => ?_
      refine .begins hidle hears ?_ ?_ (hs'.after ⟨hsame.generation, hsame.service, hsame.cpe, hsame.versions,
        hsame.remaining, rfl, rfl, rfl⟩)
      · simpa [Option.isSome_iff_ne_none] using hknown
      · rw [List.length_map, List.length_range]
        exact dataSize_congr hsame.versions _
  · refine meets_write ?_
    split
    · exact meets_kickListening hsame.generation hkick
    · rename_i hnone
      exact absurd rfl hnone

theorem ends_storePayload {bytes : List Byte} (hbusy : (w.sessionBuffer slot).pendingPacketOpcode ≠ -1)
    (hears : heard call.env (w.sessionBuffer slot) = bytes) (hbytes : bytes ≠ []) :
    Makes call slot w .tcServerClientListenTask (w.setSession slot s₁)
      (storePayload slot priority (generation w slot) bytes) := by
  unfold storePayload
  refine meets_read ?_
  dsimp only
  split
  · exact meets_halt stops_of_halted
  rename_i buffer hbuffer
  have hsome : (w.sessionBuffer slot).pendingPacketBuffer = some buffer := hsame.buffer.symm.trans hbuffer
  have hstored : ∀ s' : Session, Same { s₁ with
      pendingPacketBuffer := some (writeAt buffer s₁.pendingPacketBufferSize bytes)
      pendingPacketBufferSize := s₁.pendingPacketBufferSize + bytes.length } s' →
      Same (stored (w.sessionBuffer slot) buffer (heard call.env (w.sessionBuffer slot))) s' := by
    intro s' hs'
    rw [hears]
    refine hs'.after ⟨hsame.generation, hsame.service, hsame.cpe, hsame.versions, hsame.remaining, hsame.opcode,
      ?_, ?_⟩
    · rw [stored, ← hsame.size]
    · rw [stored, ← hsame.size]
  have hsize : tcPacketDataSize s₁.pendingPacketOpcode s₁ =
      tcPacketDataSize (w.sessionBuffer slot).pendingPacketOpcode (w.sessionBuffer slot) := by
    rw [hsame.opcode, dataSize_congr hsame.versions]
  split
  · refine meets_write ?_
    split
    · rename_i hwhole
      split
      · exact meets_halt stops_of_halted
      · rename_i handler hhandler
        have hreach := (reaches_start call slot w).alike (Alike.emit
          (e := .dispatched slot (generation w slot) handler s₁.supportsCpe) rfl)
        refine meets_emit (meets_schedule hb hreach fun s' hs' => ?_)
        refine .dispatches hbusy hsome ?_ ?_ ?_ (hstored s' hs')
        · rwa [hears]
        · rw [hears, ← hsize, ← hsame.size]
          exact hwhole
        · rw [← hsame.opcode]
          exact hhandler
    · rename_i hpart
      refine meets_listenAgain hb fun s' hs' => .stores hbusy hsome ?_ ?_ (hstored s' hs')
      · rwa [hears]
      · rw [hears, ← hsize, ← hsame.size]
        exact hpart
  · exact meets_halt stops_of_halted

include hpinged

theorem ends_receiveOpcode (hidle : (w.sessionBuffer slot).pendingPacketOpcode = -1) :
    Makes call slot w .tcServerClientListenTask (w.setSession slot s₁)
      (receiveOpcode slot priority (generation w slot)) := by
  have hrequested : requested (w.sessionBuffer slot) = 1 := if_pos hidle
  unfold receiveOpcode
  refine meets_ask ?_
  split
  · rename_i hreceive
    refine meets_kickListening hsame.generation (.inl ?_)
    rw [heard_data hpinged hreceive, List.take_nil]
  · rename_i opcode bytes hreceive
    refine ends_beginPacket hb hsame hidle ?_
    rw [heard_data hpinged hreceive, hrequested]
    rfl
  · rename_i hreceive
    exact meets_listenAgain hb fun s' hs' => .waits (heard_other (.inl hreceive)) (hsame.trans hs')
  · rename_i hreceive
    exact meets_kickListening hsame.generation (.inl (heard_other (.inr hreceive)))

theorem ends_receivePayload (hbusy : (w.sessionBuffer slot).pendingPacketOpcode ≠ -1) :
    Makes call slot w .tcServerClientListenTask (w.setSession slot s₁)
      (receivePayload slot priority (generation w slot)) := by
  have hrequested : requested (w.sessionBuffer slot) =
      tcPacketDataSize s₁.pendingPacketOpcode s₁ - s₁.pendingPacketBufferSize := by
    rw [requested, if_neg hbusy, hsame.opcode, dataSize_congr hsame.versions, hsame.size]
  unfold receivePayload
  refine meets_read (meets_ask ?_)
  split
  · rename_i bytes hreceive
    have hears := heard_data hpinged hreceive
    rw [hrequested] at hears
    dsimp only
    split
    · rename_i hempty
      exact meets_kickListening hsame.generation (.inl (hears.trans (List.isEmpty_iff.mp hempty)))
    · rename_i hfull
      exact ends_storePayload hb hsame hbusy hears fun h => hfull (List.isEmpty_iff.mpr h)
  · rename_i hreceive
    exact meets_listenAgain hb fun s' hs' => .waits (heard_other (.inl hreceive)) (hsame.trans hs')
  · rename_i hreceive
    exact meets_listenAgain hb fun s' hs' => .waits (heard_other (.inr hreceive)) (hsame.trans hs')

omit hsame hpinged in
theorem ends_listen (hfree : (w.sessionBuffer slot).actionLock = false) :
    Makes call slot w .tcServerClientListenTask w (tcServerClientListenTask slot priority (generation w slot)) := by
  unfold tcServerClientListenTask
  refine meets_aquire hfree (meets_pingClient (fun socket hpinged => meets_read ?_) fun w' hw' => meets_pure hw')
  have hsame : Same (w.sessionBuffer slot) { locked (w.sessionBuffer slot) with clientSocket := socket } :=
    ⟨rfl, rfl, rfl, rfl, rfl, rfl, rfl, rfl⟩
  split
  · rename_i hidle
    exact ends_receiveOpcode hb hsame hpinged hidle
  · rename_i hbusy
    exact ends_receivePayload hb hsame hpinged hbusy

end

/-! ## Tasks -/

/-- The task of a live session, in its generation, whose lock is free. -/
theorem ends_task {call : Call} {slot : Slot} {w : World} {t : Context Func Arg} {f : Func}
    (hb : Busy w call.worker) (hfree : (w.sessionBuffer slot).actionLock = false) (hfunc : t.func = some f)
    (harg : t.arg = some (.session slot)) (hg : t.sessionGeneration = generation w slot) :
    Makes call slot w f w (runTask t) := by
  rw [runTask, hfunc, harg, hg]
  cases f with
  | listenerWorkerTask => exact meets_halt stops_of_halted
  | tcServerClientListenTask => exact ends_listen hb hfree
  | tcServerShutdownClientTask => exact ends_shutdownClient hfree
  | handleBeginCpeNegotiation => exact ends_beginCpeNegotiation hb hfree
  | handleCpeExtinfo => exact ends_extinfo hb hfree
  | handleCpeExtentry => exact ends_extentry hb hfree
  | handleCpeCustomBlockSupportLevel => exact ends_supportLevel hb hfree
  | handlePlayerIdentification => exact ends_identification hb hfree
  | handlePlayerSetBlock => exact ends_setBlock hb hfree
  | handlePlayerPositionAndOrientationUpdate => exact ends_positionUpdate hb hfree
  | joinableTask => exact ends_joinableTask hb hfree

end TC.Proof.Server
