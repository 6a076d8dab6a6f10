import TeleClassic.Proof.SendMap.Announce

/-!
# The tasks of a map that is sent

Each task, run from a stage, ends in a stage that `Next` allows
(`onMapLoadSuccess_loaded`, `tcSendMapTask2_ready`, `tcSendBufferTask_sending`,
`tcSendBufferHandleFailure_cancelled`). So a call that is made begins in a stage
(`scheduled_stage`), and every step goes from a stage to a stage (`chain_step`).
-/

namespace TC.Proof.SendMap

open TC.Impl.Map TC.Impl.Protocol TC.Impl.TaskBacklog TC.Impl.SendMap
open TC.Impl.ThreadPool (Priority)
open TC.Impl.Server (Session Failure)
open TC.Proof.Protocol (send_eq_sendAll)
open Prog

variable {c : Setup} (env : Env) {a : Around} {n : Int} {d : SendMapData} {m : TcMap} {x : Args}
  (b : Buffers c) {P : Stage c → Prop} {s : Chain} {main : List Byte}

/-! ## Compressing the map -/

/-- In the middle of `on_map_load_success`. -/
def loading (a : Around) (n : Int) (d : SendMapData) : Chain :=
  busy a (n + 1) d false { backlogArgs := true, sendBufferTaskData := false } none

theorem endLoad_loading (hm : d.map = some m) :
    endLoad c env (loading a n d) = (some (), released a n 0 1 Args.none) := by
  have hend : endLoad c env (loading a n d) = (some (), released a (n + 1 - 1) 0 1 Args.none) := by
    rw [endLoad, loading, bind_of_some (handleFailure_busy env hm false)]
    exact pFree_backlogArgs_released env (x := Args.none)
  rw [Int.add_sub_cancel] at hend
  exact hend

theorem meets_endLoad_stop {α : Type} {Q : α → Chain → Prop} (hm : d.map = some m) :
    Meets env (loading a n d) (endLoad c >>= fun _ => stop) Q (· = released a n 0 1 Args.none) :=
  meets_of_none (bind_of_some (endLoad_loading env hm)) rfl

theorem meets_compressOrEnd (hm : d.map = some m) (input : TC.Impl.Nbt.Bytes) :
    Meets env (loading a n d) (compressOrEnd c input)
      (fun bytes s => compress a.session env input = some bytes ∧ s = loading a n d)
      (· = released a n 0 1 Args.none) := by
  refine meets_get (meets_ask ?_)
  split
  · rename_i bytes hbytes
    exact meets_pure ⟨hbytes, rfl⟩
  · exact meets_endLoad_stop env hm

/-- The arrays as they are compressed for a session. -/
structure Compressed (env : Env) (session : Session) (b : Buffers c) : Prop where
  main : compress session env c.map.blocks.blockArray = some b.main
  high : ∀ blockArray2, c.map.blocks.blockArray2 = some blockArray2 → compress session env blockArray2 = b.high

theorem meets_compressHigh (hmain : compress a.session env c.map.blocks.blockArray = some main) :
    Meets env (loading a n { map := some c.map, blockArrayBuffer := some main, blockArray2Buffer := none })
      (compressHigh c c.map) (fun _ s => ∃ b : Buffers c, Compressed env a.session b ∧ s = loading a n b.data)
      (· = released a n 0 1 Args.none) := by
  unfold compressHigh
  cases hhigh : c.map.blocks.blockArray2 with
  | none => exact meets_pure ⟨⟨main, none, by simp [hhigh]⟩, ⟨hmain, by simp [hhigh]⟩, rfl⟩
  | some blockArray2 =>
    refine meets_get ?_
    dsimp only
    split
    · exact meets_bind_of_some (endLoad_loading env rfl) (meets_of_none rfl rfl)
    · refine meets_bind (meets_compressOrEnd env rfl blockArray2) ?_
      rintro high s ⟨hcompress, rfl⟩
      refine meets_of_some rfl ⟨⟨main, some high, by simp [hhigh]⟩, ⟨hmain, fun bytes hbytes => ?_⟩, rfl⟩
      rw [← Option.some.inj (hhigh.symm.trans hbytes)]
      exact hcompress

theorem scheduleTask2_loading :
    tcThreadScheduleNew (c.task .tcSendMapTask2 c.sessionGeneration) env (loading a n d) =
      if a.shutdown ∨ !env.enqueue then (some false, loading a n d)
      else (some true, { loading a n d with task := some (c.task .tcSendMapTask2 c.sessionGeneration) }) := by
  show (if a.shutdown ∨ !env.enqueue then _ else _ : SendM Bool) env (loading a n d) = _
  split <;> rfl

/-- The last part of `on_map_load_success`. -/
theorem meets_scheduleTask2 :
    Meets env (loading a n b.data)
      (do
        let scheduled ← tcThreadScheduleNew (c.task .tcSendMapTask2 c.sessionGeneration)
        if scheduled then pFree .backlogArgs else endLoad c)
      (fun _ s => s = released a n 0 1 Args.none ∨ s = (Stage.ready b).chain a n)
      (· = released a n 0 1 Args.none) := by
  have hnew := scheduleTask2_loading (c := c) env (a := a) (n := n) (d := b.data)
  split at hnew
  · exact meets_bind_of_some hnew (meets_of_some (endLoad_loading env rfl) (.inl rfl))
  · exact meets_bind_of_some hnew (meets_of_some (pFree_backlogArgs_busy env (x := Args.none)) (.inr rfl))

/-- What follows once the array is compressed. -/
theorem meets_compressed (hmain : compress a.session env c.map.blocks.blockArray = some main) :
    Meets env (loading a n { map := some c.map, blockArrayBuffer := none, blockArray2Buffer := none })
      (do
        modify (·.alloc .blockArrayBuffer)
        modifyData ({ · with blockArrayBuffer := some main })
        compressHigh c c.map
        let scheduled ← tcThreadScheduleNew (c.task .tcSendMapTask2 c.sessionGeneration)
        if scheduled then pFree .backlogArgs else endLoad c)
      (fun _ s => s = released a n 0 1 Args.none ∨
        ∃ b : Buffers c, Compressed env a.session b ∧ s = (Stage.ready b).chain a n)
      (· = released a n 0 1 Args.none) := by
  refine meets_bind_of_some rfl (meets_bind_of_some rfl ?_)
  refine meets_bind (meets_compressHigh env hmain) ?_
  rintro _ s ⟨b, hb, rfl⟩
  exact (meets_scheduleTask2 env b).mono fun _ _ h => h.imp_right fun h => ⟨b, hb, h⟩

/-- The chain has failed, or the map is compressed. -/
theorem onMapLoadSuccess_ends
    (hs : s = (onMapLoadSuccess c .blocking c.sessionGeneration env
      { Stage.loaded.chain (c := c) a n with task := none }).2) :
    s = released a n 0 1 Args.none ∨ ∃ b : Buffers c, Compressed env a.session b ∧ s = (Stage.ready b).chain a n := by
  have h : Meets env { Stage.loaded.chain (c := c) a n with task := none }
      (onMapLoadSuccess c .blocking c.sessionGeneration)
      (fun _ s => s = released a n 0 1 Args.none ∨
        ∃ b : Buffers c, Compressed env a.session b ∧ s = (Stage.ready b).chain a n)
      (· = released a n 0 1 Args.none) := by
    -- the map is set, the priority is right, and the reader lock is taken
    refine meets_bind_of_some rfl (meets_bind_of_some rfl (meets_bind_of_some rfl (meets_bind_of_some rfl ?_)))
    refine meets_bind (meets_compressOrEnd env rfl c.map.blocks.blockArray) ?_
    rintro main s ⟨hmain, rfl⟩
    exact meets_compressed env hmain
  subst hs
  exact h.ends (fun _ _ hs => hs) fun _ hs => .inl hs

/-- The task compresses a map without high bytes. -/
theorem loaded_step (hmain : compress a.session env c.map.blocks.blockArray = some main)
    (hhigh : (none : Option (List Byte)).isSome = c.map.blocks.blockArray2.isSome)
    (hpool : a.shutdown = false) (henqueue : env.enqueue = true) :
    chainStep c (Stage.loaded.chain (c := c) a n) (.run env) = some ((Stage.ready ⟨main, none, hhigh⟩).chain a n) := by
  have hcompress (d : SendMapData) :
      compressOrEnd c c.map.blocks.blockArray env (loading a n d) = (some main, loading a n d) := by
    have hsession : compress (loading a n d).session env c.map.blocks.blockArray = some main := hmain
    rw [compressOrEnd, bind_get, bind_ask, hsession]
    rfl
  let b : Buffers c := ⟨main, none, hhigh⟩
  have hnew := scheduleTask2_loading (c := c) env (a := a) (n := n) (d := b.data)
  rw [if_neg (by simp [hpool, henqueue])] at hnew
  have hnone : compressHigh c c.map env (loading a n b.data) = (some (), loading a n b.data) := by
    have hlow : c.map.blocks.blockArray2 = none := by
      rw [← Option.not_isSome_iff_eq_none, ← hhigh]
      exact Bool.false_ne_true
    rw [compressHigh, hlow]
    rfl
  have h : Meets env { Stage.loaded.chain (c := c) a n with task := none }
      (onMapLoadSuccess c .blocking c.sessionGeneration)
      (fun _ s => s = (Stage.ready b).chain a n) (· = (Stage.ready b).chain a n) := by
    refine meets_bind_of_some rfl (meets_bind_of_some rfl (meets_bind_of_some rfl (meets_bind_of_some rfl ?_)))
    refine meets_bind_of_some (hcompress _) (meets_bind_of_some rfl (meets_bind_of_some rfl ?_))
    refine meets_bind_of_some hnone (meets_bind_of_some hnew ?_)
    exact meets_of_some (pFree_backlogArgs_busy env (x := Args.none)) rfl
  exact congrArg some (h.ends (fun _ _ hs => hs) fun _ hs => hs)

theorem onMapLoadSuccess_loaded :
    In a n (Next c env a .loaded)
      (onMapLoadSuccess c .blocking c.sessionGeneration env { Stage.loaded.chain (c := c) a n with task := none }).2 := by
  rcases onMapLoadSuccess_ends (c := c) (a := a) (n := n) env rfl with hs | ⟨b, -, hs⟩
  · exact ⟨a.session, .failed, .notCompressed, hs⟩
  · exact ⟨a.session, .ready b, .compressed b, hs⟩

/-! ## The start of the level -/

theorem tcAssert_true {condition : Bool} (h : condition = true) (s : Chain) :
    tcAssert condition env s = (some (), s) := by
  subst h
  rfl

def Around.lock (a : Around) : Around := { a with session := { a.session with actionLock := true } }

theorem tcSessionAquireActionLock_busy (expectedGeneration : Int) :
    tcSessionAquireActionLock expectedGeneration env (busy a n d false x none) =
      if a.session.currentGeneration ≠ expectedGeneration then (some false, busy a n d false x none)
      else (some true, busy a.lock n d true x none) := by
  show (if a.session.currentGeneration ≠ expectedGeneration then _ else _ : SendM Bool) env (busy a n d false x none) = _
  split <;> rfl

/-- Where the next chunk is sent, or the failure task of a stopped pool is run. -/
def Scheduled (a : Around) (n : Int) (b : Buffers c) (sentCount : Nat) (main : Bool) (s : Chain) : Prop :=
  ∃ session, s = busy { a with session } (n + 1) b.data true sendBufferArgs
    (some (if a.shutdown then c.task .tcSendBufferHandleFailure c.sessionGeneration
      else c.task (.tcSendBufferTask sentCount main) c.sessionGeneration))

theorem startSending_busy (socket : Stream) :
    startSending c c.sessionGeneration env (busy (a.withSocket socket) (n + 1) b.data true Args.none none) =
      if env.alloc then
        (some (), (if a.shutdown then .cancelled b else .sending b 0 true rfl : Stage c).chain (a.withSocket socket) n)
      else (none, Stage.failed.chain (c := c) ((a.withSocket socket).unlock true) n) := by
  have hfail : fail c env (busy (a.withSocket socket) (n + 1) b.data true Args.none none) =
      ((none : Option Unit), released ((a.withSocket socket).unlock true) (n + 1 - 1) 0 1 Args.none) :=
    fail_busy env rfl socket
  rw [Int.add_sub_cancel] at hfail
  show (if !env.alloc then fail c else _ : SendM Unit) env _ = _
  cases env.alloc with
  | false => exact hfail
  | true =>
    obtain ⟨session, shutdown⟩ := a
    obtain ⟨main, _ | high, hhigh⟩ := b <;> cases shutdown <;> rfl

theorem Scheduled.in_ {sentCount : Nat} {main : Bool} (hs : Scheduled a n b sentCount main s)
    (h : (b.selected main).isSome) (hnext : P (.sending b sentCount main h)) (hlast : P (.cancelled b)) :
    In a n P s := by
  obtain ⟨session, rfl⟩ := hs
  split
  · exact ⟨session, _, hlast, rfl⟩
  · exact ⟨session, _, hnext, rfl⟩

theorem equippedEnv_lock : EquippedEnv a.lock.session m ↔ EquippedEnv a.session m :=
  ⟨fun h => ⟨h.aspect, h.appearance, h.weather⟩, fun h => ⟨h.aspect, h.appearance, h.weather⟩⟩

theorem equipped_lock : Equipped a.lock.session m ↔ Equipped a.session m :=
  ⟨fun h => ⟨equippedEnv_lock.mp h.1, h.colors, h.definitions⟩,
    fun h => ⟨equippedEnv_lock.mpr h.1, h.colors, h.definitions⟩⟩

theorem sendable_lock : Sendable a.lock.session m main ↔ Sendable a.session m main :=
  ⟨fun h => ⟨h.size, h.texture, h.version, fun henv => h.colors (equippedEnv_lock.mpr henv)⟩,
    fun h => ⟨h.size, h.texture, h.version, fun henv => h.colors (equippedEnv_lock.mp henv)⟩⟩

/-- How `tc_send_map_task2` ends: the client is gone, the first chunk or the failure
task of a stopped pool is scheduled, the chain has failed, or it has halted. -/
inductive Task2Ends (env : Env) (a : Around) (n : Int) (b : Buffers c) (s : Chain) : Prop
  | gone (hgone : a.session.currentGeneration ≠ c.sessionGeneration) (hs : s = (Stage.lost b).chain a n)
  | announced (hhas : Equipped a.session c.map) (hok : Sendable a.session c.map b.main) (session : Session)
    (hlater : a.session.clientSocket.Later session.clientSocket)
    (hs : s = (if a.shutdown then .cancelled b else .sending b 0 true rfl : Stage c).chain { a with session } n)
  | failed (session : Session)
    (hwhy : a.session.clientSocket.Between Outcome.Accepted session.clientSocket →
      (Equipped a.session c.map → env.alloc = false) ∧ Sendable a.session c.map b.main)
    (hs : s = Stage.failed.chain (c := c) { a with session } n)
  | halted (hok : ¬Sendable a.session c.map b.main) (session : Session) (failure : Failure)
    (hs : s = (Stage.aborted b failure).chain { a with session } n)

theorem task2Ends_startSending (hhas : Equipped a.session c.map) (hok : Sendable a.session c.map b.main)
    {socket : Stream} (hlater : a.session.clientSocket.Later socket) :
    Task2Ends env a n b (startSending c c.sessionGeneration env
      (busy (a.lock.withSocket socket) (n + 1) b.data true Args.none none)).2 := by
  rw [startSending_busy (a := a.lock) env b socket]
  cases halloc : env.alloc with
  | true => exact .announced hhas hok _ hlater rfl
  | false => exact .failed _ (fun _ => ⟨fun _ => halloc, hok⟩) rfl

theorem tcSendMapTask2_ends :
    Task2Ends env a n b
      (tcSendMapTask2 c c.priority c.sessionGeneration env { (Stage.ready b).chain a n with task := none }).2 := by
  have haquire := tcSessionAquireActionLock_busy env (a := a) (n := n + 1) (d := b.data) (x := Args.none)
    c.sessionGeneration
  have hlevel := settles_announceLevel (a := a.lock) (n := n + 1) env b a.session.clientSocket
  rw [equipped_lock, sendable_lock] at hlevel
  have h : Meets env { (Stage.ready b).chain a n with task := none } (tcSendMapTask2 c c.priority c.sessionGeneration)
      (fun _ => Task2Ends env a n b) (Task2Ends env a n b) := by
    refine meets_bind_of_some (tcAssert_true env (decide_eq_true rfl) _) ?_
    split at haquire
    · rename_i hgone
      exact meets_bind_of_some haquire (meets_pure (.gone hgone rfl))
    · refine meets_bind_of_some haquire (meets_bind_of_some rfl (meets_bind (hlevel.imp (fun _ _ hs => hs) ?_) ?_))
      · rintro s (⟨session, hwhy, rfl⟩ | ⟨hok, session, failure, rfl⟩)
        · rw [Int.add_sub_cancel]
          exact .failed session (fun hsent => ⟨fun hhas => absurd hhas (hwhy hsent).1, (hwhy hsent).2⟩) rfl
        · exact .halted hok session failure rfl
      · rintro _ s ⟨hhas, hok, socket, hlater, rfl⟩
        have hstart := task2Ends_startSending (n := n) env b hhas hok hlater
        exact ⟨fun _ _ => hstart, fun _ => hstart⟩
  exact h.ends (fun _ _ h => h) fun _ h => h

theorem tcSendMapTask2_ready :
    In a n (Next c env a (.ready b))
      (tcSendMapTask2 c c.priority c.sessionGeneration env { (Stage.ready b).chain a n with task := none }).2 := by
  cases tcSendMapTask2_ends (a := a) (n := n) env b with
  | gone hgone hs => exact ⟨a.session, .lost b, .gone b hgone, hs⟩
  | announced hhas hok session hlater hs =>
    split at hs
    · exact ⟨session, .cancelled b, .announcedLast b, hs⟩
    · exact ⟨session, .sending b 0 true rfl, .announced b, hs⟩
  | failed session hwhy hs => exact ⟨session, .failed, .notAnnounced b, hs⟩
  | halted hok session failure hs => exact ⟨session, .aborted b failure, .aborted b failure hok, hs⟩

/-! ## Chunks -/

theorem tcSendBufferHandleFailure_sending :
    tcSendBufferHandleFailure c env (busy a (n + 1) b.data true sendBufferArgs none) =
      (some (), Stage.failed.chain (c := c) (a.unlock true) n) := by
  have hend := tcSendBufferHandleFailure_busy (c := c) (a := a) (n := n + 1) (d := b.data) (x := Args.none) env rfl
  rw [Int.add_sub_cancel] at hend
  exact hend

theorem tcSendBufferHandleFailure_cancelled :
    In a n (Next c env a (.cancelled b))
      (tcSendBufferHandleFailure c env { (Stage.cancelled b).chain a n with task := none }).2 :=
  ⟨_, .failed, .cancelled b, congrArg Prod.snd (tcSendBufferHandleFailure_sending env b)⟩

section Chunks

variable {sentCount : Nat} {main : Bool} {bytes : List Byte} {sent : Bool} {socket : Stream}

theorem scheduleChunk_busy :
    scheduleChunk c sentCount main c.sessionGeneration env (busy a (n + 1) b.data true sendBufferArgs none) =
      (some (), busy a (n + 1) b.data true sendBufferArgs
        (some (if a.shutdown then c.task .tcSendBufferHandleFailure c.sessionGeneration
          else c.task (.tcSendBufferTask sentCount main) c.sessionGeneration))) :=
  rfl

theorem outcome_eq_noArgs {o : Dispatch} : a.outcome o = .noArgs ↔ o = .noArgs := by
  unfold Around.outcome
  split
  · rename_i h
    simp [h.2]
  · rfl

theorem handleSuccess_sending :
    (do
      handleSuccess c c.priority
      pFree .sendBufferTaskData) env (busy a (n + 1) b.data true sendBufferArgs none) =
      (some (), handed (a.unlock true) n Args.none (a.outcome env.handler)) := by
  have hsuccess := handleSuccess_busy (c := c) (a := a) (n := n + 1) (x := sendBufferArgs) env (d := b.data) rfl c.priority
  rw [Int.add_sub_cancel] at hsuccess
  refine (bind_of_some hsuccess).trans ?_
  cases a.outcome env.handler with
  | noArgs | refused | accepted => exact pFree_sendBufferTaskData_released env (x := Args.none)

theorem meets_finishSending
    (hnot : ¬(((finalizePacket c.map).send a.session.clientSocket).1 = some true ∧ env.handler ≠ .noArgs) → P .failed)
    (hdone : ((finalizePacket c.map).send a.session.clientSocket).1 = some true ∧ env.handler ≠ .noArgs →
      (a.outcome env.handler = .accepted → P .succeeded) ∧ (a.outcome env.handler = .refused → P .refused)) :
    Meets env (busy a (n + 1) b.data true sendBufferArgs none) (finishSending c c.map c.priority)
      (fun _ => In a n P) (In a n P) := by
  obtain ⟨sent, socket, hsend⟩ := send_of_asserts (p := finalizePacket c.map) rfl a.session.clientSocket
  rw [hsend] at hnot hdone
  refine meets_bind_of_some (send_eq env hsend) ?_
  cases sent with
  | false =>
    exact meets_of_some (tcSendBufferHandleFailure_sending (a := a.withSocket socket) env b)
      ⟨_, .failed, hnot (by simp), rfl⟩
  | true =>
    refine meets_of_some (handleSuccess_sending (a := a.withSocket socket) env b) ?_
    have hargs (ho : (a.withSocket socket).outcome env.handler ≠ .noArgs) := hdone ⟨rfl, mt outcome_eq_noArgs.mpr ho⟩
    cases ho : (a.withSocket socket).outcome env.handler with
    | noArgs => exact ⟨_, .failed, hnot fun h => h.2 (outcome_eq_noArgs.mp ho), rfl⟩
    | refused => exact ⟨_, .refused, (hargs (by simp [ho])).2 ho, rfl⟩
    | accepted => exact ⟨_, .succeeded, (hargs (by simp [ho])).1 ho, rfl⟩

theorem deref_of_some {α : Type} {y : Option α} {v : α} (h : y = some v) (s : Chain) :
    deref y env s = (some v, s) := by
  subst h
  rfl

/-- A chunk that has been sent. -/
theorem meets_chunkSent
    (hsend : (chunkPacket env a.session bytes sentCount main).send a.session.clientSocket = (some true, socket))
    (hnot : ¬Finishes c env a.session bytes sentCount main →
      P .failed ∧ P (.cancelled b) ∧ ∀ sentCount' main' h', P (.sending b sentCount' main' h'))
    (hdone : Finishes c env a.session bytes sentCount main →
      (a.outcome env.handler = .accepted → P .succeeded) ∧ (a.outcome env.handler = .refused → P .refused))
    (hbytes : b.selected main = some bytes) :
    Meets env (busy (a.withSocket socket) (n + 1) b.data true sendBufferArgs none)
      (if sentCount + min 1024 (bytes.length - sentCount) < bytes.length then
        scheduleChunk c (sentCount + min 1024 (bytes.length - sentCount)) main c.sessionGeneration
      else if main ∧ c.map.blocks.blockArray2.isSome then scheduleChunk c 0 false c.sessionGeneration
      else finishSending c c.map c.priority)
      (fun _ => In a n P) (In a n P) := by
  have hchunk {sentCount' : Nat} {main' : Bool} (h' : (b.selected main').isSome) (hP : P (.cancelled b) ∧
      ∀ sentCount' main' h', P (.sending b sentCount' main' h')) :
      Meets env (busy (a.withSocket socket) (n + 1) b.data true sendBufferArgs none)
        (scheduleChunk c sentCount' main' c.sessionGeneration) (fun _ => In a n P) (In a n P) :=
    meets_of_some (scheduleChunk_busy env b)
      (Scheduled.in_ (a := a.withSocket socket) b ⟨_, rfl⟩ h' (hP.2 sentCount' main' h') hP.1)
  split
  · rename_i hlt
    exact hchunk (by simp [hbytes]) (hnot fun hfin => absurd hlt (Nat.not_lt.mpr hfin.last)).2
  · rename_i hle
    split
    · rename_i hhigh
      have hselected : (b.selected false).isSome := b.high_isSome.trans hhigh.2
      exact hchunk hselected (hnot fun hfin => hfin.high hhigh).2
    · rename_i hhigh
      have hsocket : ((chunkPacket env a.session bytes sentCount main).send a.session.clientSocket).2 = socket := by
        rw [hsend]
      subst hsocket
      refine meets_finishSending (a := a.withSocket _) env b (fun h => ?_) fun h => ?_
      · exact (hnot fun hfin => h ⟨hfin.level, hfin.args⟩).1
      · exact hdone ⟨Nat.not_lt.mp hle, hhigh, congrArg Prod.fst hsend, h.1, h.2⟩

/-- The task, once its chunk was offered. -/
theorem tcSendBufferTask_run (hbytes : b.selected main = some bytes)
    (hsend : (chunkPacket env a.session bytes sentCount main).send a.session.clientSocket = (some sent, socket)) :
    tcSendBufferTask c sentCount main c.priority c.sessionGeneration env
        (busy a (n + 1) b.data true sendBufferArgs none) =
      (if !sent then tcSendBufferHandleFailure c
        else if sentCount + min 1024 (bytes.length - sentCount) < bytes.length then
          scheduleChunk c (sentCount + min 1024 (bytes.length - sentCount)) main c.sessionGeneration
        else if main ∧ c.map.blocks.blockArray2.isSome then scheduleChunk c 0 false c.sessionGeneration
        else finishSending c c.map c.priority) env
        (busy (a.withSocket socket) (n + 1) b.data true sendBufferArgs none) := by
  refine Eq.trans (bind_of_some (tcAssert_true env (decide_eq_true rfl) _)) ?_
  refine Eq.trans (bind_of_some rfl) (Eq.trans (bind_of_some (deref_of_some env hbytes _)) ?_)
  refine Eq.trans (bind_of_some rfl) (Eq.trans (bind_of_some rfl) ?_)
  refine Eq.trans (bind_of_some (send_eq env hsend)) ?_
  cases sent with
  | false => rfl
  | true => exact bind_of_some rfl

theorem meets_tcSendBufferTask (hbytes : b.selected main = some bytes)
    (hnot : ¬Finishes c env a.session bytes sentCount main →
      P .failed ∧ P (.cancelled b) ∧ ∀ sentCount' main' h', P (.sending b sentCount' main' h'))
    (hdone : Finishes c env a.session bytes sentCount main →
      (a.outcome env.handler = .accepted → P .succeeded) ∧ (a.outcome env.handler = .refused → P .refused)) :
    Meets env (busy a (n + 1) b.data true sendBufferArgs none)
      (tcSendBufferTask c sentCount main c.priority c.sessionGeneration) (fun _ => In a n P) (In a n P) := by
  obtain ⟨sent, socket, hsend⟩ :=
    send_of_asserts (p := chunkPacket env a.session bytes sentCount main) rfl a.session.clientSocket
  rw [Meets, tcSendBufferTask_run env b hbytes hsend]
  cases sent with
  | false =>
    have hfin : ¬Finishes c env a.session bytes sentCount main := fun hfin => by
      have hchunk := hfin.chunk
      rw [hsend] at hchunk
      cases hchunk
    exact meets_of_some (tcSendBufferHandleFailure_sending (a := a.withSocket socket) env b)
      ⟨_, .failed, (hnot hfin).1, rfl⟩
  | true => exact meets_chunkSent env b hsend hnot hdone hbytes

theorem tcSendBufferTask_sending (h : (b.selected main).isSome) :
    In a n (Next c env a (.sending b sentCount main h))
      (tcSendBufferTask c sentCount main c.priority c.sessionGeneration env
        { (Stage.sending b sentCount main h).chain a n with task := none }).2 :=
  (meets_tcSendBufferTask env b (Option.some_get h).symm
    (fun hnot => ⟨.notSent h hnot, .lastChunk h hnot, fun _ _ h' => .chunk h h' hnot⟩)
    fun hfin => ⟨.succeeded h hfin, .refused h hfin⟩).ends (fun _ _ h => h) fun _ h => h

end Chunks

/-! ## Steps -/

/-- The chain once the call has been made or answered. -/
def unanswered (a : Around) (n : Int) : Chain :=
  { released a n 0 0 Args.none with sendMapData := some emptyData, heap := [.sendMapData] }

/-- A request for a map that is loaded. -/
theorem dispatch_unanswered (continued : Bool) (o : Dispatch) :
    dispatch (loadHandlers c env) loadRequest continued o (unanswered a n) = Stage.loaded.chain (c := c) a n ∨
      dispatch (loadHandlers c env) loadRequest continued o (unanswered a n) = Stage.failed.chain (c := c) a n := by
  cases o with
  | noArgs => exact .inr rfl
  | refused =>
    have hend : dispatch (loadHandlers c env) loadRequest continued .refused (unanswered a n) =
      released a (n + 1 - 1) 0 1 Args.none := rfl
    rw [Int.add_sub_cancel] at hend
    exact .inr hend
  | accepted => exact .inl rfl

theorem answer_waiting (loaded : Bool) :
    ∃ st, Moves c a (.answer loaded env) .waiting st ∧
      answer c loaded env (Stage.waiting.chain (c := c) a n) = st.chain a n := by
  cases loaded with
  | false => exact ⟨.failed, .notLoaded false env, rfl⟩
  | true =>
    rcases dispatch_unanswered (c := c) (a := a) (n := n) env true (a.outcome env.load) with h | h
    · exact ⟨.loaded, .answered env, h⟩
    · exact ⟨.failed, .notLoaded true env, h⟩

theorem scheduled_stage {preLoadedMap : Bool} {currentPriority : Option Priority}
    (h : tcApiScheduleSendMap c preLoadedMap currentPriority env (Chain.idle a.session a.shutdown n) = some s) :
    ∃ st : Stage c, (st = .waiting ∨ st = .loaded ∨ st = .failed) ∧ s = st.chain a n := by
  unfold tcApiScheduleSendMap at h
  split at h
  · cases h
  · cases preLoadedMap with
    | false =>
      cases h
      exact ⟨.waiting, .inl rfl, rfl⟩
    | true =>
      cases h
      rcases dispatch_unanswered (c := c) (a := a) (n := n) env (currentPriority = some loadRequest.priority)
        (a.outcome env.load) with h | h
      · exact ⟨.loaded, .inr (.inl rfl), h⟩
      · exact ⟨.failed, .inr (.inr rfl), h⟩

/-- The task that announces the level waits for the lock. -/
theorem chainStep_ready :
    chainStep c ((Stage.ready b).chain a n) (.run env) = if a.session.actionLock then none
      else some (tcSendMapTask2 c c.priority c.sessionGeneration env { (Stage.ready b).chain a n with task := none }).2 := by
  have hstep : chainStep c ((Stage.ready b).chain a n) (.run env) =
    if Func.tcSendMapTask2 = .tcSendMapTask2 ∧ a.session.actionLock then none
    else some (tcSendMapTask2 c c.priority c.sessionGeneration env { (Stage.ready b).chain a n with task := none }).2 := rfl
  rw [hstep, if_congr (and_iff_right rfl) rfl rfl]

theorem run_stage {st : Stage c} (h : chainStep c (st.chain a n) (.run env) = some s) :
    In a n (Next c env a st) s := by
  cases st with
  | loaded =>
    cases h
    exact onMapLoadSuccess_loaded env
  | ready b =>
    rw [chainStep_ready] at h
    split at h
    · cases h
    · cases h
      exact tcSendMapTask2_ready env b
  | sending b sentCount main hsome =>
    cases h
    exact tcSendBufferTask_sending env b hsome
  | cancelled b =>
    cases h
    exact tcSendBufferHandleFailure_cancelled env b
  | _ => cases h

/-- The step that hands the map over. -/
theorem finish_step (sentCount : Nat) (main : Bool) (h : (b.selected main).isSome)
    (hfin : Finishes c env a.session ((b.selected main).get h) sentCount main) :
    ∃ a', chainStep c ((Stage.sending b sentCount main h).chain a n) (.run env) =
      some ((if a.outcome env.handler = .accepted then Stage.succeeded else Stage.refused : Stage c).chain a' n) := by
  obtain ⟨session, st, hnext, hs⟩ : In a n (Next c env a (.sending b sentCount main h))
      (tcSendBufferTask c sentCount main c.priority c.sessionGeneration env
        { (Stage.sending b sentCount main h).chain a n with task := none }).2 :=
    tcSendBufferTask_sending env b h
  refine ⟨{ a with session }, congrArg some (hs.trans ?_)⟩
  cases hnext with
  | chunk _ _ hnot => exact absurd hfin hnot
  | lastChunk _ hnot => exact absurd hfin hnot
  | notSent _ hnot => exact absurd hfin hnot
  | succeeded _ _ hhandler => rw [if_pos hhandler]
  | refused _ _ hhandler => rw [if_neg (by simp [hhandler])]

/-- A socket that accepts everything. -/
theorem finishes_of_accepts (session : Session) (bytes : List Byte) (sentCount : Nat) (main : Bool)
    (hsocket : session.clientSocket.Accepts)
    (hlast : bytes.length ≤ sentCount + min 1024 (bytes.length - sentCount))
    (hhigh : ¬(main ∧ c.map.blocks.blockArray2.isSome)) (hargs : env.handler ≠ .noArgs) :
    Finishes c env session bytes sentCount main := by
  obtain ⟨hsent, hsocket'⟩ :=
    sendAll_of_accepts (Protocol.Packet.chunks (chunkPacket env session bytes sentCount main)) hsocket
  obtain ⟨hsent', -⟩ := sendAll_of_accepts (Protocol.Packet.chunks (finalizePacket c.map)) hsocket'
  have hchunk := send_eq_sendAll (chunkPacket env session bytes sentCount main) rfl session.clientSocket
  refine ⟨hlast, hhigh, ?_, ?_, hargs⟩
  · rw [hchunk, hsent]
  · rw [hchunk, send_eq_sendAll _ rfl]
    exact congrArg some hsent'

/-- Whatever becomes of the session, the stage is the same. -/
theorem session_step {st : Stage c} {session : Session}
    (h : chainStep c (st.chain a n) (.session session) = some s) : s = st.chain { a with session } n := by
  unfold chainStep at h
  split at h
  · cases h
  · dsimp only at h
    split at h
    · cases h
    · cases h
      cases st <;> rfl

theorem chain_step {st : Stage c} {l : Label} (h : chainStep c (st.chain a n) l = some s) :
    ∃ a' st', Moves c a l st st' ∧ s = st'.chain a' n := by
  cases l with
  | answer loaded env =>
    cases st with
    | waiting =>
      cases h
      obtain ⟨st', hmoves, h⟩ := answer_waiting (c := c) (a := a) (n := n) env loaded
      exact ⟨a, st', hmoves, h⟩
    | _ => cases h
  | doubleFree =>
    cases st with
    | waiting =>
      cases h
      exact ⟨a, .crashed, .doubleFree, rfl⟩
    | _ => cases h
  | run env =>
    obtain ⟨session, st', hnext, hs⟩ := run_stage env h
    exact ⟨_, st', .run hnext, hs⟩
  | session session => exact ⟨{ a with session }, st, .session session st, session_step h⟩
  | stop =>
    refine ⟨{ a with shutdown := true }, st, .stop st, ?_⟩
    cases st <;> cases h <;> rfl

/-- The chain is always in a stage. -/
theorem stage_step (s : Chain) (l : Label) (s' : Chain) (hs : ∃ a, ∃ st : Stage c, s = st.chain a n)
    (h : chainStep c s l = some s') : ∃ a, ∃ st : Stage c, s' = st.chain a n := by
  obtain ⟨a, st, rfl⟩ := hs
  obtain ⟨a', st', -, hs'⟩ := chain_step h
  exact ⟨a', st', hs'⟩

end TC.Proof.SendMap
