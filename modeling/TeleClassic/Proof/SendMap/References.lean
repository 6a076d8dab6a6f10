import TeleClassic.Proof.SendMap.Completion

/-!
# The reference of a map that is sent

A chain has one reference of the cache entry from the load on. It gives it back
when it fails. When it has sent the map it gives it back as well, although the
success handler has been given the map, and once more if the pool refuses that
handler. So the count is right as long as no map is handed over
(`pinned_iff`): exactly the sends that succeed leave the map unpinned.
-/

namespace TC.Proof.SendMap

open TC.Impl.SendMap
open TC.Impl.ThreadPool (Priority)
open TC.Impl.Server (Session)

/-- The count that the caller relies on, where `n` is the one before the chain. -/
structure Pinned (n : Int) (s : Chain) : Prop where
  succeeded : 0 < s.succeeded → s.openCount = n + 1
  failed : 0 < s.failed → s.openCount = n
  queued : 0 ≤ n → 0 < s.succeeded → 1 ≤ s.openCount
  above : n ≤ s.openCount

/-- The task sends the last chunk and the end of the level, and the arguments of
the success handler can be allocated. -/
def HandsOver (c : Setup) (s : Chain) : Label → Prop
  | .run env => ∃ task d bytes sentCount sendMainBuffer, s.task = some task ∧
    task.func = .tcSendBufferTask sentCount sendMainBuffer ∧ s.sendMapData = some d ∧
    (if sendMainBuffer then d.blockArrayBuffer else d.blockArray2Buffer) = some bytes ∧
    Finishes c env s.session bytes sentCount sendMainBuffer
  | _ => False

/-- The stages in which the map has been handed over. -/
def Stage.Handed {c : Setup} : Stage c → Prop
  | .succeeded | .refused => True
  | _ => False

variable {c : Setup} {a : Around} {n : Int} {st st' : Stage c} {l : Label}

theorem pinned_chain : Pinned n (st.chain a n) ↔ ¬st.Handed := by
  cases st with
  | succeeded =>
    refine iff_of_false (fun h => ?_) fun h => h trivial
    have hcount : n = n + 1 := h.succeeded Nat.one_pos
    omega
  | refused =>
    refine iff_of_false (fun h => ?_) fun h => h trivial
    have hcount : n - 1 = n := h.failed Nat.one_pos
    omega
  | failed => exact iff_of_true ⟨nofun, fun _ => rfl, nofun, Int.le_refl n⟩ id
  | waiting | crashed => exact iff_of_true ⟨nofun, nofun, nofun, Int.le_refl n⟩ id
  | _ => exact iff_of_true ⟨nofun, nofun, nofun, Int.le_of_lt (Int.lt_succ n)⟩ id

theorem handsOver_sending {b : Buffers c} {sentCount : Nat} {main : Bool} {env : Env}
    (h : (b.selected main).isSome) :
    HandsOver c ((Stage.sending b sentCount main h).chain a n) (.run env) ↔
      Finishes c env a.session ((b.selected main).get h) sentCount main := by
  constructor
  · rintro ⟨_, _, bytes, _, _, ⟨⟩, ⟨⟩, ⟨⟩, hbytes, hfin⟩
    have hselected : b.selected main = some bytes := hbytes
    rwa [Option.get_of_eq_some h hselected]
  · intro hfin
    exact ⟨_, _, _, _, _, rfl, rfl, rfl, (Option.some_get h).symm, hfin⟩

theorem not_handsOver {s : Chain} {task : Queued} {env : Env} (htask : s.task = some task)
    (hfunc : ∀ sentCount main, task.func ≠ .tcSendBufferTask sentCount main) : ¬HandsOver c s (.run env) := by
  rintro ⟨task', _, _, sentCount, main, htask', hfunc', -⟩
  cases htask.symm.trans htask'
  exact hfunc sentCount main hfunc'

/-- A task hands the map over if and only if it reaches one of these stages. -/
theorem handed_next {env : Env} (hnext : Next c env a st st') :
    ¬st'.Handed ↔ ¬st.Handed ∧ ¬HandsOver c (st.chain a n) (.run env) := by
  cases hnext with
  | chunk h _ hnot | lastChunk h hnot | notSent h hnot => exact iff_of_true id ⟨id, mt (handsOver_sending h).mp hnot⟩
  | succeeded h hfin | refused h hfin =>
    exact iff_of_false (fun hst => hst trivial) fun hst => hst.2 ((handsOver_sending h).mpr hfin)
  | _ => exact iff_of_true id ⟨id, not_handsOver rfl nofun⟩

theorem handed_moves (hmoves : Moves c a l st st') :
    ¬st'.Handed ↔ ¬st.Handed ∧ ¬HandsOver c (st.chain a n) l := by
  cases hmoves with
  | run hnext => exact handed_next hnext
  | session | stop => exact (and_iff_left id).symm
  | _ => exact iff_of_true id ⟨id, id⟩

theorem pinned_step {s s' : Chain} (hs : ∃ a, ∃ st : Stage c, s = st.chain a n) (h : chainStep c s l = some s') :
    (∃ a, ∃ st : Stage c, s' = st.chain a n) ∧ (Pinned n s' ↔ Pinned n s ∧ ¬HandsOver c s l) := by
  obtain ⟨a, st, rfl⟩ := hs
  obtain ⟨a', st', hmoves, rfl⟩ := chain_step h
  refine ⟨⟨a', st', rfl⟩, ?_⟩
  rw [pinned_chain, pinned_chain, handed_moves hmoves]

/-- In every run of a chain, the count is the one that the caller relies on if
and only if no step has handed the map over. -/
theorem pinned_iff {preLoadedMap : Bool} {currentPriority : Option Priority} {env : Env} {session : Session}
    {shutdown : Bool} {openCount : Int} {s t : Chain} {ls : List Label}
    (hcall : tcApiScheduleSendMap c preLoadedMap currentPriority env (Chain.idle session shutdown openCount) = some s)
    (hrun : run (chainStep c) s ls = some t) :
    Pinned openCount t ↔ Along (chainStep c) (fun s l => ¬HandsOver c s l) s ls := by
  obtain ⟨st, hst, hs⟩ := scheduled_stage (a := ⟨session, shutdown⟩) env hcall
  have hpinned : Pinned openCount s := by
    rw [hs, pinned_chain]
    rcases hst with rfl | rfl | rfl <;> exact id
  rw [run_iff_along (fun _ _ _ => pinned_step) ⟨_, st, hs⟩ hrun]
  exact and_iff_right hpinned

/-- A level that is announced, and not yet sent. -/
theorem pinned_iff_announced :
    ∃ s t, tcApiScheduleSendMap toLobby false none lucky (Chain.idle fastSession false 0) = some s ∧
      run (chainStep toLobby) s untilSending = some t ∧ t.openCount = 1 ∧ Pinned 0 t ∧
      Along (chainStep toLobby) (fun s l => ¬HandsOver toLobby s l) s untilSending := by
  have hcall : tcApiScheduleSendMap toLobby false none lucky (Chain.idle fastSession false 0) =
    some ((Stage.waiting : Stage toLobby).chain quiet 0) := rfl
  have hpinned : Pinned 0 ((Stage.sending packed 0 true rfl).chain announced 0) := pinned_chain.mpr id
  exact ⟨_, _, hcall, run_untilSending, rfl, hpinned, (pinned_iff hcall run_untilSending).mp hpinned⟩

/-- A map that is sent, whose success handler the pool accepts or refuses. -/
theorem handed_unpinned :
    (∃ s t, tcApiScheduleSendMap toLobby false none lucky (Chain.idle fastSession false 0) = some s ∧
      run (chainStep toLobby) s (untilSending ++ [.run lucky]) = some t ∧
      t.succeeded = 1 ∧ t.openCount = 0 ∧ ¬Pinned 0 t) ∧
    ∃ s t, tcApiScheduleSendMap toLobby false none lucky (Chain.idle fastSession false 0) = some s ∧
      run (chainStep toLobby) s (untilSending ++ [.run { lucky with handler := .refused }]) = some t ∧
      t.failed = 1 ∧ t.openCount = -1 ∧ ¬Pinned 0 t := by
  have hcall : tcApiScheduleSendMap toLobby false none lucky (Chain.idle fastSession false 0) =
    some ((Stage.waiting : Stage toLobby).chain quiet 0) := rfl
  obtain ⟨a, hrun⟩ := run_last lucky (by decide)
  obtain ⟨a', hrun'⟩ := run_last { lucky with handler := .refused } (by decide)
  have hsucceeded : ¬Pinned 0 ((Stage.succeeded : Stage toLobby).chain a 0) := fun h => pinned_chain.mp h trivial
  have hrefused : ¬Pinned 0 ((Stage.refused : Stage toLobby).chain a' 0) := fun h => pinned_chain.mp h trivial
  exact ⟨⟨_, _, hcall, hrun, rfl, rfl, hsucceeded⟩, ⟨_, _, hcall, hrun', rfl, rfl, hrefused⟩⟩

end TC.Proof.SendMap
