import TeleClassic.Proof.Server.Chains

/-!
# One continuation for each session

Every live session has exactly one task pending (`one_continuation`) as long as
the joinables pass their sessions on, a default joinable is configured, the
addresses that joinables pass to `tc_session_join` exist, and there is room for
the first task of each new client. `tc_session_join` returns `TRUE` also when it
finds no joinable, so where the default name is not that of a joinable a client
that has identified itself is left with no task at all (`left_behind`).
-/

namespace TC.Proof.Server

open TC.Impl.Server TC.Impl.ThreadPool TC.Proof.ThreadPool Prog

variable {w : World} {call : Call}

/-- The joinables pass on what they are given: an `attempt_join` that succeeds
leaves a task behind also when the pool was stopped, and so does a task of a
joinable, unless it kicks the session. -/
def Obliging (call : Call) (w : World) : Prop :=
  (∀ n, call.env.attemptJoin n ≠ .next .nothing) ∧
    match call.env.joinable with
    | .next shutdown => shutdown ≠ .nothing
    | .new priority => Accepts w.threadPool.pool priority
    | .nothing => False
    | _ => True

/-- What a joinable joins is there. -/
def Found (call : Call) (w : World) : Prop :=
  ∀ address, call.env.joinable = .join address → tcFindJoinable w.config.joinRouter address ≠ none

/-- The first task of a client that is accepted can be scheduled. -/
def Roomy (w : World) : Label → Prop
  | .task call => call.env.accept.isSome = true → Accepts w.threadPool.pool .low
  | _ => True

instance (w : World) : DecidablePred (Roomy w)
  | .task call => inferInstanceAs (Decidable (call.env.accept.isSome = true → Accepts w.threadPool.pool .low))
  | .loop _ | .wakeUp _ | .stop => inferInstanceAs (Decidable True)

/-- Joinables that are obliging, and what they and the clients need. -/
def Attentive (w : World) (l : Label) : Prop :=
  (∀ call, l = .task call → Obliging call w ∧ Found call w) ∧ Roomy w l

theorem not_loses {slot : Slot} {f : Func} (h : Attentive w (.task call))
    (hdefault : w.config.joinRouter.defaultJoinable ≠ none) : ¬ Loses call w slot f := by
  obtain ⟨⟨hadmits, haction⟩, hfinds⟩ := h.1 call rfl
  have hdrops : ¬ Drops call w := fun ⟨_, n, hn⟩ => hadmits n hn
  intro hloses
  cases f with
  | joinableTask =>
    rw [Loses] at hloses
    rcases haction' : call.env.joinable with _ | shutdown | priority | msg | address | _
    · rw [haction'] at hloses
      exact hloses
    · rw [haction'] at hloses haction
      exact haction hloses.2
    · rw [haction'] at hloses haction
      have hscheduled := scheduleNew_of_accepts (s := w.threadPool)
        ⟨priority, some .joinableTask, some (.session slot), generation w slot⟩ haction call.env.pick
      have hfailed := hscheduled.symm.trans hloses
      cases hfailed
    · rw [haction'] at hloses
      exact hloses
    · rw [haction'] at hloses
      exact hloses.elim (hfinds address haction') hdrops
    · rw [haction'] at haction
      exact haction
  | _ => exact hloses.elim hdefault hdrops

/-- A turn of an attended session that stays leaves a task behind. -/
theorem Turn.next_ne_none {slot : Slot} {s s' : Session} {f : Func} {fin : Bool} {next : Option Func}
    (h : Turn call w slot s f fin next s') (hattentive : Attentive w (.task call))
    (hdefault : w.config.joinRouter.defaultJoinable ≠ none)
    (hstays : s'.currentGeneration = s.currentGeneration) : next ≠ none := by
  have hafter : ∀ f, after w f ≠ none := by
    intro f hnone
    rw [after] at hnone
    split at hnone
    · cases hnone
    · cases hnone
  cases h with
  | gone later => omega
  | finalizes _ _ _ lost | joins _ _ lost => exact fun hnone => not_loses hattentive hdefault (lost hnone)
  | waits | begins | stores | dispatches | listens | negotiates => exact hafter _

theorem lawful_continuations (config : Config) (hdefault : config.joinRouter.defaultJoinable ≠ none) :
    Lawful (fun w l => Attentive w l ∧ w.config = config) fun _ next _ => next ≠ none := by
  refine ⟨fun _ _ _ _ => by simp, ?_, ?_⟩
  · intro w call _ _ _ hG came failed _
    have hscheduled := scheduleNew_of_accepts (firstTask w) (hG.1.2 came) call.env.pick
    rw [hscheduled] at failed
    cases failed
  · intro w call slot _ f fin next s' hG _ htook
    exact htook.turn.next_ne_none hG.1 (hG.2 ▸ hdefault) htook.stays

theorem config_effect {w' : World} (h : Effect w w') : w'.config = w.config := by
  cases h with
  | _ => rfl

section

variable {config : Config} {numThreads maxBlockingThreads : Nat}
  {tasks : Priority → Nat → Context Func Arg} {sessions : Slot → Session}

/-- The configuration is that of the start wherever a step happens. -/
theorem along_config (ls : List Label) : Along Impl.Server.step (fun w _ => w.config = config)
    (start config numThreads maxBlockingThreads tasks sessions) ls := by
  have hkeeps : ∀ w l w', Sound w ∧ w.config = config → Impl.Server.step w l = some w' →
      Sound w' ∧ w'.config = config := by
    intro w l w' hw h
    refine inv_of_moves (I := fun w => Sound w ∧ w.config = config) (fun w₁ w₂ he hw₁ => ?_)
      (step_effects hw.1 h) hw
    exact ⟨hw₁.1.effect he, (config_effect he).trans hw₁.2⟩
  exact (along_inv hkeeps ⟨sound_start, rfl⟩).imp fun w l h => h.2

/-- Each live session has one pending task of its generation, and no other. -/
theorem one_continuation (hdefault : config.joinRouter.defaultJoinable ≠ none) {ls : List Label} {w : World}
    (hattentive : Along Impl.Server.step Attentive (start config numThreads maxBlockingThreads tasks sessions) ls)
    (h : run Impl.Server.step (start config numThreads maxBlockingThreads tasks sessions) ls = some w)
    (hh : w.halted = none) {slot : Slot} (hlive : Live w slot) :
    (chain w slot (generation w slot)).card = 1 := by
  obtain ⟨next, tasks', hnext, ⟨priority, htasks⟩, hchain, -⟩ :=
    serving_run (lawful_continuations config hdefault) (hattentive.and (along_config ls)) h hh hlive
  rw [hchain, htasks]
  rcases next with _ | f
  · exact absurd rfl hnext
  · rfl

end

/-! ## A client that talks -/

/-- A joinable that listens to the clients it gets. -/
def listening : Env := { hospitable with joinable := .listen }

/-- The tasks of one worker, one after the other, where the tasks that listen
to the client get what it sends, piece by piece. -/
def drive (env : Env) : World → List (List Byte) → Nat → List Label
  | _, _, 0 => []
  | w, pieces, n + 1 =>
    let listens := (w.threadPool.running? 0).elim false fun (t, _) => t.func = some .tcServerClientListenTask
    let receive := pieces.head?.elim .wouldBlock .data
    let l : Label := .task ⟨0, if listens then { env with receive := receive } else env⟩
    (Impl.Server.step w l).elim [] fun w' => l :: drive env w' (if listens then pieces.tail else pieces) n

/-- A client connects. -/
def connect (env : Env) : List Label := [.loop 0, .task ⟨0, { env with accept := some openSocket }⟩]

/-- A client connects and sends something. -/
def talk (env : Env) (w : World) (pieces : List (List Byte)) (numTasks : Nat) : List Label :=
  connect env ++ (run Impl.Server.step w (connect env)).elim [] fun w' => drive env w' pieces numTasks

/-- A server with one thread, one world, and a default name. -/
def worldWithDefault (name : String) : World :=
  start ⟨[], [], tcJoinRouterInit ["lobby"] name⟩ 1 1 (fun _ _ => .invalid) fun _ => blankSession

theorem mem_drive {env : Env} {pieces : List (List Byte)} {n : Nat} {l : Label}
    (h : l ∈ drive env w pieces n) : ∃ receive, l = .task ⟨0, { env with receive := receive }⟩ := by
  induction n generalizing w pieces with
  | zero => cases h
  | succ n ih =>
    rw [drive] at h
    generalize hl : Label.task _ = l' at h
    rcases hstep : Impl.Server.step w l' with _ | w'
    · rw [hstep] at h
      cases h
    · rw [hstep] at h
      rcases List.mem_cons.mp h with rfl | h
      · subst hl
        split
        · exact ⟨_, rfl⟩
        · exact ⟨env.receive, rfl⟩
      · exact ih h

/-- The joinables of a client that talks are those of its environment. -/
theorem mem_talk {env : Env} {pieces : List (List Byte)} {n : Nat} (h : .task call ∈ talk env w pieces n) :
    call.env.attemptJoin = env.attemptJoin ∧ call.env.joinable = env.joinable := by
  rcases List.mem_append.mp h with h | h
  · have hcall : call = ⟨0, { env with accept := some openSocket }⟩ := by
      simpa [connect] using h
    subst hcall
    exact ⟨rfl, rfl⟩
  · rcases hconnected : run Impl.Server.step w (connect env) with _ | w'
    · rw [hconnected] at h
      cases h
    · rw [hconnected] at h
      obtain ⟨receive, hl⟩ := mem_drive h
      cases hl
      exact ⟨rfl, rfl⟩

theorem obliging_listening (w : World) (hadmits : call.env.attemptJoin = listening.attemptJoin)
    (haction : call.env.joinable = listening.joinable) : Obliging call w := by
  refine ⟨fun n hn => ?_, ?_⟩
  · rw [hadmits] at hn
    cases hn
  · rw [haction]
    trivial

/-- The lobby takes a client that has identified itself, and listens to it. -/
theorem one_continuation_lobby : ∃ w,
    run Impl.Server.step (worldWithDefault "lobby") (talk listening (worldWithDefault "lobby")
      [[0x00], identification 0] 12) = some w ∧
      .joined first 0 0 ∈ w.trace ∧ (chain w first (generation w first)).card = 1 := by
  obtain ⟨w, hw, hjoined, hh, hlive⟩ : ∃ w,
      run Impl.Server.step (worldWithDefault "lobby") (talk listening (worldWithDefault "lobby")
        [[0x00], identification 0] 12) = some w ∧ .joined first 0 0 ∈ w.trace ∧ w.halted = none ∧ Live w first :=
    exists_of_decide (by decide +kernel)
  have hroom : Along Impl.Server.step Roomy (worldWithDefault "lobby") (talk listening (worldWithDefault "lobby")
      [[0x00], identification 0] 12) := by
    decide +kernel
  have hobliging : Along Impl.Server.step (fun w l => ∀ call, l = .task call → Obliging call w ∧ Found call w)
      (worldWithDefault "lobby") (talk listening (worldWithDefault "lobby") [[0x00], identification 0] 12) := by
    refine along_of_forall fun l hl w call hcall => ?_
    obtain ⟨hadmits, haction⟩ := mem_talk (hcall ▸ hl)
    refine ⟨obliging_listening w hadmits haction, fun address haddress => ?_⟩
    cases haction.symm.trans haddress
  exact ⟨w, hw, hjoined, one_continuation (by decide) (hobliging.and hroom) hw hh hlive⟩

/-- The default name is not that of a joinable: a client that has identified
itself stays, and nothing is ever done for it again. -/
theorem left_behind : ∃ ls w, run Impl.Server.step (worldWithDefault "hub") ls = some w ∧
    (∀ call, .task call ∈ ls → ∀ w, Obliging call w) ∧ w.halted = none ∧ Live w first ∧
    chain w first (generation w first) = 0 := by
  obtain ⟨w, hw, hh, hlive, hcard⟩ : ∃ w,
      run Impl.Server.step (worldWithDefault "hub") (talk listening (worldWithDefault "hub")
        [[0x00], identification 0] 12) = some w ∧ w.halted = none ∧ Live w first ∧ (chain w first (generation w first)).card = 0 :=
    exists_of_decide (by decide +kernel)
  refine ⟨_, w, hw, fun call hcall w => ?_, hh, hlive, Multiset.card_eq_zero.mp hcard⟩
  obtain ⟨hadmits, haction⟩ := mem_talk hcall
  exact obliging_listening w hadmits haction

end TC.Proof.Server
