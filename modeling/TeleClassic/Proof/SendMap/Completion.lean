import TeleClassic.Proof.Map
import TeleClassic.Proof.SendMap.Tasks
import TeleClassic.Proof.Server.Identity

/-!
# A map is sent exactly once

A chain whose client is still there when `tc_send_map_task2` runs, and that can
be sent to it (`Undisturbed`), never leaves the stages from which it completes
(`Stage.Kept`). So it completes, and exactly once (`completed_once`). If the
client has gone, the task returns without a clean-up (`abandoned`).
-/

namespace TC.Proof.SendMap

open TC.Impl.Map TC.Impl.Protocol TC.Impl.SendMap
open TC.Impl.ThreadPool (Priority)
open TC.Impl.Server (Session)
open TC.Proof.Map (oneBlock)
open TC.Proof.Server (blankSession)

/-- No task of the chain is left. -/
def Ended (s : Chain) : Prop := s.task = none ∧ s.waiting = false

/-- One of the handlers of the caller was used, once, and nothing is held: the
heap is empty, and nothing was freed that was not allocated. -/
structure Completed (s : Chain) : Prop where
  handled : s.succeeded + s.failed = 1
  readers : s.readers = 0
  holdsLock : s.holdsLock = false
  heap : s.heap = []
  halted : s.halted = none

/-- The cache can schedule its load task. When `tc_send_map_task2` runs, the
client is the one of the call, and the map can be sent to it. -/
def Undisturbed (c : Setup) (s : Chain) : Label → Prop
  | .doubleFree => False
  | .run _ => ∀ task, s.task = some task → task.func = .tcSendMapTask2 →
    s.session.currentGeneration = task.sessionGeneration ∧
      ∀ d bytes, s.sendMapData = some d → d.blockArrayBuffer = some bytes → Sendable s.session c.map bytes
  | _ => True

/-- The stages from which a chain completes. -/
def Stage.Kept {c : Setup} : Stage c → Prop
  | .lost _ | .aborted _ _ | .crashed => False
  | _ => True

variable {c : Setup} {a : Around} {n : Int} {st st' : Stage c} {l : Label}

theorem kept_moves (hmoves : Moves c a l st st') (hst : st.Kept) (hl : Undisturbed c (st.chain a n) l) :
    st'.Kept := by
  cases hmoves with
  | doubleFree => exact hl.elim
  | session => exact hst
  | stop => exact hst
  | run hnext =>
    cases hnext with
    | gone b hgone => exact absurd (hl _ rfl rfl).1 hgone
    | aborted b failure hbad => exact absurd ((hl _ rfl rfl).2 _ _ rfl rfl) hbad
    | _ => trivial
  | _ => trivial

theorem Stage.Kept.completed (hst : st.Kept) (hended : Ended (st.chain a n)) : Completed (st.chain a n) := by
  cases st with
  | failed => exact ⟨rfl, rfl, rfl, rfl, rfl⟩
  | succeeded => exact ⟨rfl, rfl, rfl, rfl, rfl⟩
  | refused => exact ⟨rfl, rfl, rfl, rfl, rfl⟩
  | waiting => cases hended.2
  | lost => exact hst.elim
  | aborted => exact hst.elim
  | crashed => exact hst.elim
  | _ => cases hended.1

/-- The chain is in a stage from which it completes. -/
def OnCourse (c : Setup) (n : Int) (s : Chain) : Prop := ∃ a, ∃ st : Stage c, st.Kept ∧ s = st.chain a n

theorem onCourse_step {s s' : Chain} (hl : Undisturbed c s l) (hs : OnCourse c n s) (h : chainStep c s l = some s') :
    OnCourse c n s' := by
  obtain ⟨a, st, hst, rfl⟩ := hs
  obtain ⟨a', st', hmoves, rfl⟩ := chain_step h
  exact ⟨a', st', kept_moves hmoves hst hl, rfl⟩

/-! ## One map and one client -/

def plainMap : TcMap := { oneBlock with envAppearanceExtension := none, envWeatherExtension := none }

/-- A request to send a map. -/
def sending (m : TcMap) : Setup := { map := m, priority := .medium, sessionGeneration := 0 }

def toLobby : Setup := sending plainMap

/-- A client with `FastMap`. -/
def fastSession : Session := { blankSession with extCpeVersions := #v[0, 4, 0] }

/-- The block `1` as a raw stream of zlib. -/
def deflatedBlock : List Byte := [0x63, 0x04, 0x00]

/-- Everything succeeds. The one block is deflated; as gzip it has no room. -/
def lucky : Env where
  deflate input := if input.val = [1] then some deflatedBlock else none
  gzip _ := none
  alloc := true
  enqueue := true
  load := .accepted
  handler := .accepted
  percent _ _ := 0
  scaled _ _ := 0

theorem sendable_plainMap (session : Session) : Sendable session plainMap deflatedBlock where
  size _ := by decide
  texture h := by cases h
  version _ _ h := by cases h
  colors _ _ h := by cases h

theorem toLobby_low : (none : Option (List Byte)).isSome = toLobby.map.blocks.blockArray2.isSome := rfl

/-- The map, compressed. -/
def packed : Buffers toLobby := { main := deflatedBlock, high := none, high_isSome := toLobby_low }

def quiet : Around := { session := fastSession, shutdown := false }

/-- The session once the level is announced. -/
def announced : Around :=
  { quiet with
    session := { fastSession with
      actionLock := true
      clientSocket := ((Packet.tcProtocolSendLevelInitialize2 1).send fastSession.clientSocket).2 } }

/-- Loaded by the cache, compressed and announced. -/
def untilSending : List Label := [.answer true lucky, .run lucky, .run lucky]

theorem run_untilSending :
    run (chainStep toLobby) ((Stage.waiting : Stage toLobby).chain quiet 0) untilSending =
      some ((Stage.sending packed 0 true rfl).chain announced 0) :=
  rfl

theorem announced_accepts : announced.session.clientSocket.Accepts := fun _ => trivial

/-- The last chunk. -/
theorem run_last (env : Env) (hargs : env.handler ≠ .noArgs) :
    ∃ a, run (chainStep toLobby) ((Stage.waiting : Stage toLobby).chain quiet 0) (untilSending ++ [.run env]) =
      some ((if env.handler = .accepted then .succeeded else .refused : Stage toLobby).chain a 0) := by
  have hfin : Finishes toLobby env announced.session packed.main 0 true :=
    finishes_of_accepts env announced.session packed.main 0 true announced_accepts (by decide) (by decide) hargs
  obtain ⟨a, hstep⟩ := finish_step (n := 0) (a := announced) env packed 0 true rfl hfin
  exact ⟨a, run_append.mpr ⟨_, run_untilSending, run_cons.mpr ⟨_, hstep, rfl⟩⟩⟩

theorem undisturbed_run {s : Chain} {task : Queued} (env : Env) (htask : s.task = some task)
    (hfunc : task.func ≠ .tcSendMapTask2) : Undisturbed c s (.run env) := by
  intro task' htask' hfunc'
  cases htask.symm.trans htask'
  exact absurd hfunc' hfunc

theorem undisturbed_last (env : Env) :
    Along (chainStep toLobby) (Undisturbed toLobby) ((Stage.waiting : Stage toLobby).chain quiet 0)
      (untilSending ++ [.run env]) := by
  have hready : Undisturbed toLobby ((Stage.ready packed).chain quiet 0) (.run lucky) := by
    rintro _ ⟨⟩ -
    refine ⟨rfl, ?_⟩
    rintro _ _ ⟨⟩ ⟨⟩
    exact sendable_plainMap _
  have hanswer : chainStep toLobby ((Stage.waiting : Stage toLobby).chain quiet 0) (.answer true lucky) =
    some ((Stage.loaded : Stage toLobby).chain quiet 0) := rfl
  have hload : chainStep toLobby ((Stage.loaded : Stage toLobby).chain quiet 0) (.run lucky) =
    some ((Stage.ready packed).chain quiet 0) := rfl
  have hannounce : chainStep toLobby ((Stage.ready packed).chain quiet 0) (.run lucky) =
    some ((Stage.sending packed 0 true rfl).chain announced 0) := rfl
  refine along_cons trivial hanswer (along_cons (undisturbed_run lucky rfl nofun) hload ?_)
  refine along_cons hready hannounce ?_
  exact ⟨undisturbed_run env rfl nofun, fun _ _ => trivial⟩

/-! ## Completion -/

/-- A chain that is `Undisturbed` has completed, once, when no task of it is
left. -/
theorem completed_once {preLoadedMap : Bool} {currentPriority : Option Priority} {env : Env} {session : Session}
    {shutdown : Bool} {openCount : Int} {s t : Chain} {ls : List Label}
    (hcall : tcApiScheduleSendMap c preLoadedMap currentPriority env (Chain.idle session shutdown openCount) = some s)
    (hls : Along (chainStep c) (Undisturbed c) s ls) (hrun : run (chainStep c) s ls = some t) (hended : Ended t) :
    Completed t := by
  obtain ⟨st, hst, hs⟩ := scheduled_stage (a := ⟨session, shutdown⟩) env hcall
  have hkept : st.Kept := by
    rcases hst with rfl | rfl | rfl <;> trivial
  obtain ⟨a, st', hst', rfl⟩ := run_inv_along (fun _ _ _ => onCourse_step) hls ⟨_, st, hkept, hs⟩ hrun
  exact hst'.completed hended

theorem completed_once_lobby :
    ∃ s t, tcApiScheduleSendMap toLobby false none lucky (Chain.idle fastSession false 0) = some s ∧
      run (chainStep toLobby) s (untilSending ++ [.run lucky]) = some t ∧ t.succeeded = 1 ∧ Completed t := by
  have hcall : tcApiScheduleSendMap toLobby false none lucky (Chain.idle fastSession false 0) =
    some ((Stage.waiting : Stage toLobby).chain quiet 0) := rfl
  obtain ⟨a, hrun⟩ := run_last lucky (by decide)
  exact ⟨_, _, hcall, hrun, rfl, completed_once hcall (undisturbed_last lucky) hrun ⟨rfl, rfl⟩⟩

/-- The client disconnects when the map is compressed. -/
def abandon : List Label :=
  [.answer true lucky, .run lucky, .session { fastSession with currentGeneration := 1 }, .run lucky]

theorem abandoned :
    ∃ s t, tcApiScheduleSendMap toLobby false none lucky (Chain.idle fastSession false 0) = some s ∧
      run (chainStep toLobby) s abandon = some t ∧ Ended t ∧ t.succeeded = 0 ∧ t.failed = 0 ∧ t.readers = 1 ∧
      t.heap = [.sendMapData, .blockArrayBuffer] ∧ t.openCount = 1 ∧ ¬Completed t := by
  refine ⟨(Stage.waiting : Stage toLobby).chain quiet 0, (Stage.lost packed).chain
    { quiet with session := { fastSession with currentGeneration := 1 } } 0, rfl, rfl, ⟨rfl, rfl⟩, rfl, rfl, rfl, rfl,
    rfl, fun h => ?_⟩
  cases h.handled

end TC.Proof.SendMap
