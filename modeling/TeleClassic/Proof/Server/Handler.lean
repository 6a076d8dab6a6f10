import TeleClassic.Proof.Server.Session

/-!
# The packet handlers

One specification for each packet handler, which runs as the task that was
dispatched for the packet and takes the lock of its session.
-/

namespace TC.Proof.Server

open TC.Impl.Server TC.Impl.ThreadPool TC.Impl.Protocol Prog

variable {call : Call} {w : World} {slot : Slot} {g : Int} {priority : Priority} {offset : Nat}

/-! ## What the handlers share -/

/-- A task that does nothing unless it gets the lock in its generation. -/
theorem does_withLock {p : TaskM Unit} (ha : .accepted slot g ∈ w.trace)
    (hp : ∀ w', Touched slot w w' → Owns w' slot g → Acts call w' p) :
    Acts call w (tcSessionAquireActionLock slot g >>= fun aquired =>
      if aquired = true then p else pure ()) := by
  refine does_bind does_aquire fun aquired w₁ ⟨h₁, hg⟩ => ?_
  split
  · rename_i haq
    exact hp w₁ h₁ ⟨hg haq, h₁.trace ▸ ha⟩
  · exact does_pure trivial

theorem does_withCpe {f : Func} {p : TaskM Unit} (hf : assertsCpe f = true) (ha : .accepted slot g ∈ w.trace)
    (hc : Cause w.trace slot g f)
    (hp : ∀ w', Touched slot w w' → Owns w' slot g → (w'.sessionBuffer slot).supportsCpe = true → Acts call w' p) :
    Acts call w (tcSessionAquireActionLock slot g >>= fun aquired =>
      if aquired = true then session slot >>= fun s => tcAssert s.supportsCpe >>= fun _ => p else pure ()) := by
  refine does_withLock ha fun w₁ h₁ ho₁ => ?_
  apply does_session
  cases hcpe : (w₁.sessionBuffer slot).supportsCpe with
  | true => exact does_bind (does_pure (Q := fun _ w' => w' = w₁) rfl) fun _ _ h => h ▸ hp w₁ h₁ ho₁ hcpe
  | false =>
    obtain ⟨rfl, ha₁⟩ := ho₁
    exact does_bind (does_halt (.assertFails slot f hf ha₁ (h₁.trace ▸ hc) hcpe)) fun _ _ (h : False) => h.elim

theorem does_readBytes {n : Nat} : Does Effect call w (readBytes slot offset n) fun _ w' => w' = w := by
  unfold readBytes
  apply does_session
  split
  · exact does_overrun
  · split
    · exact does_pure rfl
    · exact does_overrun

theorem does_readByte : Does Effect call w (readByte slot offset) fun _ w' => w' = w :=
  does_bind does_readBytes fun _ _ h => does_pure h

theorem does_readShort : Does Effect call w (readShort slot offset) fun _ w' => w' = w :=
  does_bind does_readBytes fun _ _ h => does_pure h

theorem does_readInt : Does Effect call w (readInt slot offset) fun _ w' => w' = w :=
  does_bind does_readBytes fun _ _ h => does_pure h

theorem does_readString : Does Effect call w (readString slot offset) fun _ w' => w' = w :=
  does_bind does_readBytes fun _ _ h => does_pure h

theorem does_sendExtentries (extensions : List Extension) :
    Does Effect call w (sendExtentries slot extensions) fun _ w' => Touched slot w w' := by
  induction extensions generalizing w with
  | nil => exact does_pure (Touched.refl slot w)
  | cons extension extensions ih =>
    unfold sendExtentries
    refine does_bind (does_send rfl) fun sent w₁ h₁ => ?_
    split
    · exact ih.mono fun _ _ h => h₁.trans h
    · exact does_pure h₁

theorem does_kickHandler {msg : String} (ho : Owns w slot g) : Acts call w (kickAndRelease slot msg) :=
  (does_kickAndRelease ho.live).acts

theorem does_countExtPacket : Does Effect call w (countExtPacket slot) fun _ w' => Touched slot w w' :=
  does_touch ⟨rfl, rfl, rfl, rfl⟩

theorem does_finishExtentries (hr : Ready w call.worker priority) (ho : Owns w slot g)
    (hcpe : (w.sessionBuffer slot).supportsCpe = true) :
    Acts call w (finishExtentries slot priority g) := by
  unfold finishExtentries
  apply does_session
  split
  · refine does_bind (does_send rfl) fun sent w₁ h₁ => ?_
    split
    · exact does_continue (h₁.ready hr) (h₁.owns ho).2
    · refine does_bind (does_kickSession (h₁.owns ho).live) fun _ w₂ h₂ => ?_
      exact does_continue (h₂.ready (h₁.ready hr)) (h₂.2 (h₁.owns ho).2)
  · exact does_finalizeAndRelease hr ho (.inl hcpe)

theorem does_acceptExtentry {extensionIndex : Nat} (hr : Ready w call.worker priority)
    (ho : Owns w slot g) (hcpe : (w.sessionBuffer slot).supportsCpe = true) :
    Acts call w (acceptExtentry slot priority g extensionIndex) := by
  unfold acceptExtentry
  refine does_read does_readInt fun clientVersion => ?_
  dsimp only
  split
  · refine does_bind does_countExtPacket fun _ w₂ h₂ => ?_
    exact does_kickHandler (h₂.owns ho)
  · refine does_bind (does_touch ⟨rfl, rfl, rfl, rfl⟩) fun _ w₂ h₂ => ?_
    refine does_bind does_countExtPacket fun _ w₃ h₃ => ?_
    have h := h₂.trans h₃
    apply does_session
    split
    · exact does_finishExtentries (h.ready hr) (h.owns ho) (h.same.cpe.trans hcpe)
    · exact does_continue (h.ready hr) (h.owns ho).2

theorem does_identify {service : Nat} {cpe : Bool} (ho : Owns w slot g)
    (hs : (w.sessionBuffer slot).authenticatedService = none) :
    Does Effect call w (identify slot service cpe) fun _ w' => Quiet w w' ∧ Owns w' slot g ∧
      .identified slot g cpe ∈ w'.trace ∧ (w'.sessionBuffer slot).authenticatedService.isSome = true := by
  obtain ⟨rfl, ha⟩ := ho
  have hsub : w.trace ⊆ w.trace ++ [.validated slot (generation w slot)] ++
      [.identified slot (generation w slot) cpe] :=
    List.Subset.trans (List.subset_append_left ..) (List.subset_append_left ..)
  refine does_modify (.identify slot service cpe ha hs) ⟨⟨rfl, hsub⟩, ⟨?_, hsub ha⟩, ?_, ?_⟩
  · show ((w.setSession slot _).sessionBuffer slot).currentGeneration = _
    rw [sessionBuffer_setSession]
    rfl
  · exact List.mem_append_right _ List.mem_cons_self
  · show ((w.setSession slot _).sessionBuffer slot).authenticatedService.isSome = true
    rw [sessionBuffer_setSession]
    rfl

theorem does_readBlock : Does Effect call w (readBlock slot) fun _ w' => w' = w := by
  unfold readBlock
  apply does_session
  split
  · exact does_readShort
  · exact does_bind does_readByte fun _ _ h => does_pure h

/-- A packet is handed to the joinable, and the client listened to again. -/
theorem does_hand {handled : Bool} {msg : String} (hr : Ready w call.worker priority) (ho : Owns w slot g)
    (hj : ¬ (w.sessionBuffer slot).currentJoinable.isNone = true) :
    Acts call w (do
      emit (.handed slot g)
      if handled = true then do
        tcServerProtocolHandlerCleanup slot (some .tcServerClientListenTask) priority g
        tcSessionReleaseActionLock slot
      else kickAndRelease slot msg) := by
  refine does_bind (does_note ⟨ho.1.symm, ho.live, by simpa [Option.isSome_iff_ne_none] using hj⟩)
    fun _ w₁ h₁ => ?_
  subst h₁
  have ho₁ : Owns (w.emit (.handed slot g)) slot g := ⟨ho.1, List.mem_append_left _ ho.2⟩
  split
  · exact does_continue (w := w.emit _) hr ho₁.2
  · exact does_kickHandler ho₁

/-! ## Handlers -/

variable (hr : Ready w call.worker priority) (ha : .accepted slot g ∈ w.trace)

include hr ha

theorem does_beginCpeNegotiation (hc : Cause w.trace slot g .handleBeginCpeNegotiation) :
    Acts call w (handleBeginCpeNegotiation slot priority g) := by
  unfold handleBeginCpeNegotiation
  refine does_withCpe rfl ha hc fun w₁ h₁ ho₁ _ => ?_
  refine does_bind (does_send rfl) fun sent w₃ h₃ => ?_
  split
  · refine does_bind (does_sendExtentries _) fun sent w₄ h₄ => ?_
    split
    · have h := (h₁.trans h₃).trans h₄
      exact does_continue (h.ready hr) (h.trace ▸ ha)
    · exact does_kickHandler (h₄.owns (h₃.owns ho₁))
  · exact does_kickHandler (h₃.owns ho₁)

theorem does_extinfo (hc : Cause w.trace slot g .handleCpeExtinfo) :
    Acts call w (handleCpeExtinfo slot priority g) := by
  unfold handleCpeExtinfo
  refine does_withCpe rfl ha hc fun w₁ h₁ ho₁ _ => ?_
  apply does_session
  split
  · exact does_kickHandler ho₁
  · refine does_read does_readString fun _ => ?_
    refine does_read does_readShort fun extensionCount => ?_
    refine does_bind (does_touch ⟨rfl, rfl, rfl, rfl⟩) fun _ w₅ h₅ => ?_
    have h := h₁.trans h₅
    exact does_continue (h.ready hr) (h.trace ▸ ha)

theorem does_extentry (hc : Cause w.trace slot g .handleCpeExtentry) :
    Acts call w (handleCpeExtentry slot priority g) := by
  unfold handleCpeExtentry
  refine does_withCpe rfl ha hc fun w₁ h₁ ho₁ hcpe => ?_
  apply does_session
  split
  · exact does_kickHandler ho₁
  · refine does_read does_readString fun extensionName => ?_
    split
    · refine does_bind does_countExtPacket fun _ w₄ h₄ => ?_
      have h := h₁.trans h₄
      exact does_continue (h.ready hr) (h.trace ▸ ha)
    · exact does_acceptExtentry (h₁.ready hr) ho₁ hcpe

theorem does_supportLevel (hc : Cause w.trace slot g .handleCpeCustomBlockSupportLevel) :
    Acts call w (handleCpeCustomBlockSupportLevel slot priority g) := by
  unfold handleCpeCustomBlockSupportLevel
  refine does_withCpe rfl ha hc fun w₁ h₁ ho₁ hcpe => ?_
  refine does_read does_readByte fun level => ?_
  refine does_bind (does_touch ⟨rfl, rfl, rfl, rfl⟩) fun _ w₄ h₄ => ?_
  exact does_finalizeAndRelease ((h₁.trans h₄).ready hr) (h₄.owns ho₁) (.inl (h₄.same.cpe.trans hcpe))

theorem does_identification : Acts call w (handlePlayerIdentification slot priority g) := by
  unfold handlePlayerIdentification
  refine does_withLock ha fun w₁ h₁ ho₁ => ?_
  apply does_session
  split
  · exact does_kickHandler ho₁
  rename_i hservice
  refine does_read does_readByte fun version => ?_
  split
  · refine does_read does_readString fun username => ?_
    refine does_bind (does_touch ⟨rfl, rfl, rfl, rfl⟩) fun _ w₄ h₄ => ?_
    refine does_read does_readString fun key => ?_
    have ho₄ := h₄.owns ho₁
    have hr₄ := (h₁.trans h₄).ready hr
    have hservice₄ : (w₄.sessionBuffer slot).authenticatedService = none := by
      rw [h₄.same.service]
      simpa using hservice
    apply does_ask
    split
    · exact does_kickHandler ho₄
    · rename_i service _
      refine does_read does_readByte fun byte => ?_
      refine does_bind (does_identify ho₄ hservice₄) fun _ w₇ ⟨h₇, ho₇, hi, hs⟩ => ?_
      split
      · rename_i hcpe
        rw [hcpe] at hi
        exact does_bind (does_cleanup (h₇.ready hr₄) ho₇.2 hi) fun _ _ _ =>
          does_unlock.acts
      · exact does_finalizeAndRelease (h₇.ready hr₄) ho₇ (.inr hs)
  · exact does_kickHandler ho₁

theorem does_setBlock : Acts call w (handlePlayerSetBlock slot priority g) := by
  unfold handlePlayerSetBlock
  refine does_withLock ha fun w₁ h₁ ho₁ => ?_
  refine does_read does_readShort fun x => ?_
  refine does_read does_readShort fun y => ?_
  refine does_read does_readShort fun z => ?_
  refine does_read does_readByte fun mode => ?_
  refine does_read does_readBlock fun block => ?_
  apply does_session
  split
  · exact does_kickHandler ho₁
  · exact does_hand (h₁.ready hr) ho₁ (by assumption)

theorem does_positionUpdate : Acts call w (handlePlayerPositionAndOrientationUpdate slot priority g) := by
  unfold handlePlayerPositionAndOrientationUpdate
  refine does_withLock ha fun w₁ h₁ ho₁ => ?_
  apply does_session
  dsimp only
  refine does_read does_readShort fun x => ?_
  refine does_read does_readShort fun y => ?_
  refine does_read does_readShort fun z => ?_
  refine does_read does_readByte fun heading => ?_
  refine does_read does_readByte fun pitch => ?_
  apply does_session
  split
  · exact does_kickHandler ho₁
  · exact does_hand (h₁.ready hr) ho₁ (by assumption)

end TC.Proof.Server
