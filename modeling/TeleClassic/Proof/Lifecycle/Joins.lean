import TeleClassic.Impl.Lifecycle
import TeleClassic.Proof.Heartbeat

/-!
# Stopping a server

No other thread writes the flags that the calling thread sets, so what they are in
the end, and at each join, follows from the operations of a life (`finalFlags`).
Each join finds the flags that let the thread return if and only if the life is
`Orderly`: a call of `tc_server_init` fails before the heartbeat thread is created, or
none fails, also in a `tc_server_start` (`joins_ready_iff`). In any other life the calling thread
waits for ever (`joins_never_end`).
-/

namespace TC.Proof.Lifecycle

open TC.Impl.Heartbeat TC.Impl.Lifecycle
open TC.Proof.Heartbeat (zeroHash oneService)

variable {md5 : List Byte → HexDigest} {s s' t : State} {l : Label} {ls : List Label}

/-! ## The flags of the calling thread -/

/-- The flags with which a thread that is joined can return. -/
def Ready : Join → Prop
  | .workers shutdown => shutdown = true
  | .heartbeatThread created started shutdown => created = true ∧ started = true ∧ shutdown = true

def applyAll (ops : List Op) (f : Flags) : Flags := ops.foldl (fun f op => op.apply f) f

/-- The flags when the calling thread is done. -/
def finalFlags (s : State) : Flags := applyAll (if s.joining then s.todo.tail else s.todo) s.flags

/-- What a join records. -/
def joinOf (f : Flags) : Op → Option Join
  | .joinWorkers => some (.workers f.poolShutdown)
  | .joinHeartbeatThread => some (.heartbeatThread f.threadCreated f.managerStarted f.managerShutdown)
  | _ => none

/-- The flags agree with the threads. -/
structure Wf (s : State) : Prop where
  created : s.flags.threadCreated = true → s.worker ≠ .notCreated
  joining : s.joining = true → ∃ op todo j, s.todo = op :: todo ∧ joinOf s.flags op = some j ∧ j ∈ s.flags.joins

theorem wf_start (life : Life) (manager : Manager) : Wf (State.start life manager) :=
  ⟨fun h => absurd h Bool.false_ne_true, fun h => absurd h Bool.false_ne_true⟩

theorem mainStep_cases (h : mainStep s = some s') : ∃ op todo, s.todo = op :: todo ∧
    ((s.joining = true ∧ s.hasReturned op = true ∧ s' = { s with todo := todo, joining := false }) ∨
      (s.joining = false ∧ op.isJoin = true ∧ s' = { s with flags := op.apply s.flags, joining := true }) ∨
      (s.joining = false ∧ op.isJoin = false ∧ s' = { s with
        flags := op.apply s.flags
        todo := todo
        worker := if op = .createHeartbeatThread then .waiting else s.worker })) := by
  unfold mainStep at h
  split at h
  · cases h
  · rename_i op todo htodo
    refine ⟨op, todo, htodo, ?_⟩
    split at h
    · rename_i hjoining
      split at h
      · rename_i hreturned
        exact .inl ⟨hjoining, hreturned, (Option.some.inj h).symm⟩
      · cases h
    · rename_i hjoining
      rw [Bool.not_eq_true] at hjoining
      split at h
      · rename_i hjoin
        exact .inr (.inl ⟨hjoining, hjoin, (Option.some.inj h).symm⟩)
      · rename_i hjoin
        rw [Bool.not_eq_true] at hjoin
        exact .inr (.inr ⟨hjoining, hjoin, (Option.some.inj h).symm⟩)

theorem workerLoop_keeps (rand : Nat → Nat → Nat) (s : State) :
    (workerLoop rand s).flags = s.flags ∧ (workerLoop rand s).todo = s.todo ∧
      (workerLoop rand s).joining = s.joining ∧ (workerLoop rand s).poolReturned = s.poolReturned ∧
      (workerLoop rand s).worker ≠ .notCreated := by
  unfold workerLoop
  split <;> simp

/-- The thread waits on, or checks `shutdown`. -/
theorem workerStep_cases {rand : Nat → Nat → Nat} (h : workerStep rand s = some s') :
    s' = s ∨ s' = workerLoop rand s := by
  unfold workerStep at h
  split at h
  · rw [← Option.some.inj h]
    split
    · exact .inr rfl
    · exact .inl rfl
  · exact .inr (Option.some.inj h).symm
  · cases h

/-- What a call adds to the services that were returned. -/
def newlyAccepted (md5 : List Byte → HexDigest) (s : State) (call : Call) : List Acceptance :=
  (tcHeartbeatManagerValidate md5 call.env s.manager call.username call.key).1.elim [] fun i =>
    if s.manager.services[i]?.any (!·.dummyService) then [⟨i, i ∈ s.salted⟩] else []

theorem clientStep_eq {call : Call} (h : clientStep md5 call s = some s') :
    s' = { s with
      manager := (tcHeartbeatManagerValidate md5 call.env s.manager call.username call.key).2
      accepted := s.accepted ++ newlyAccepted md5 s call } := by
  unfold clientStep at h
  split at h
  · cases h
  · exact (Option.some.inj h).symm

/-- The other threads leave the calling thread alone. -/
theorem other_step (h : step md5 s l = some s') (hl : l ≠ .main) :
    s'.flags = s.flags ∧ s'.todo = s.todo ∧ s'.joining = s.joining ∧
      (s.worker ≠ .notCreated → s'.worker ≠ .notCreated) := by
  cases l with
  | main => exact absurd rfl hl
  | worker rand =>
    obtain ⟨hflags, htodo, hjoining, -, hworker⟩ := workerLoop_keeps rand s
    obtain rfl | rfl := workerStep_cases h
    · exact ⟨rfl, rfl, rfl, id⟩
    · exact ⟨hflags, htodo, hjoining, fun _ => hworker⟩
  | validate call =>
    rw [clientStep_eq h]
    exact ⟨rfl, rfl, rfl, id⟩
  | poolReturns =>
    simp only [step] at h
    split at h
    · cases h
      exact ⟨rfl, rfl, rfl, id⟩
    · cases h

theorem finalFlags_step (h : step md5 s l = some s') : finalFlags s' = finalFlags s := by
  by_cases hl : l = .main
  · subst hl
    obtain ⟨op, todo, htodo, ⟨hjoining, -, rfl⟩ | ⟨hjoining, -, rfl⟩ | ⟨hjoining, -, rfl⟩⟩ := mainStep_cases h
    · simp [finalFlags, hjoining, htodo]
    · simp [finalFlags, hjoining, htodo, applyAll]
    · simp [finalFlags, hjoining, htodo, applyAll]
  · obtain ⟨hflags, htodo, hjoining, -⟩ := other_step h hl
    rw [finalFlags, hflags, htodo, hjoining, finalFlags]

theorem threadCreated_apply {op : Op} (f : Flags) (h : op ≠ .createHeartbeatThread) :
    (op.apply f).threadCreated = f.threadCreated := by
  cases op <;> first | rfl | exact absurd rfl h

theorem joinOf_apply {op : Op} (f : Flags) (h : op.isJoin = true) :
    ∃ j, joinOf (op.apply f) op = some j ∧ (op.apply f).joins = f.joins ++ [j] := by
  cases op with
  | joinWorkers => exact ⟨_, rfl, rfl⟩
  | joinHeartbeatThread => exact ⟨_, rfl, rfl⟩
  | _ => cases h

theorem wf_step (hs : Wf s) (h : step md5 s l = some s') : Wf s' := by
  by_cases hl : l = .main
  · subst hl
    obtain ⟨op, todo, htodo, ⟨-, -, rfl⟩ | ⟨-, hjoin, rfl⟩ | ⟨hjoining, hjoin, rfl⟩⟩ := mainStep_cases h
    · exact ⟨hs.created, fun h => absurd h Bool.false_ne_true⟩
    · obtain ⟨j, hj, hjoins⟩ := joinOf_apply s.flags hjoin
      refine ⟨fun h => hs.created ?_, fun _ => ⟨op, todo, j, htodo, hj, ?_⟩⟩
      · rwa [threadCreated_apply s.flags (by rintro rfl; cases hjoin)] at h
      · rw [hjoins]
        exact List.mem_append_right _ List.mem_cons_self
    · refine ⟨fun h => ?_, fun h => absurd (hjoining.symm.trans h) Bool.false_ne_true⟩
      dsimp only at h ⊢
      split
      · simp
      · rename_i hop
        rw [threadCreated_apply s.flags hop] at h
        exact hs.created h
  · obtain ⟨hflags, htodo, hjoining, hworker⟩ := other_step h hl
    refine ⟨fun h => hworker (hs.created (hflags ▸ h)), fun h => ?_⟩
    rw [hflags, htodo]
    exact hs.joining (hjoining ▸ h)

theorem joins_applyAll (ops : List Op) (f : Flags) : f.joins ⊆ (applyAll ops f).joins := by
  induction ops generalizing f with
  | nil => exact fun _ h => h
  | cons op ops ih =>
    refine fun j hj => ih (op.apply f) ?_
    cases op <;> simp [Op.apply, hj]

theorem wf_run (hs : Wf s) (h : run (step md5) s ls = some t) : Wf t :=
  run_inv (fun _ _ _ hs h => wf_step hs h) hs h

theorem finalFlags_run (h : run (step md5) s ls = some t) : finalFlags t = finalFlags s := by
  have hkept (u : State) (l : Label) (u' : State) (hu : finalFlags u = finalFlags s) (h : step md5 u l = some u') :
      finalFlags u' = finalFlags s :=
    (finalFlags_step h).trans hu
  exact run_inv hkept rfl h

theorem joins_of_run (h : run (step md5) s ls = some t) : t.flags.joins ⊆ (finalFlags s).joins := by
  rw [← finalFlags_run h]
  exact joins_applyAll _ _

/-! ## Joins end -/

/-- What the calling thread has left. -/
def remaining (s : State) : Nat := 2 * s.todo.length - s.joining.toNat

/-- The thread that is joined returns, if the flags let it. -/
theorem join_ends (md5 : List Byte → HexDigest) (hs : Wf s) (hready : ∀ j ∈ s.flags.joins, Ready j) (hjoining : s.joining = true) :
    ∃ ls op todo, s.todo = op :: todo ∧
      ∃ s₁, run (step md5) s ls = some s₁ ∧ s₁.todo = s.todo ∧ s₁.joining = true ∧ s₁.hasReturned op = true := by
  obtain ⟨op, todo, j, htodo, hj, hmem⟩ := hs.joining hjoining
  have hj' := hready j hmem
  cases op with
  | joinWorkers =>
    obtain rfl := Option.some.inj hj
    have hstep : step md5 s .poolReturns = some { s with poolReturned := true } := if_pos hj'
    exact ⟨[.poolReturns], _, todo, htodo, _, run_cons.mpr ⟨_, hstep, rfl⟩, rfl, hjoining, rfl⟩
  | joinHeartbeatThread =>
    obtain rfl := Option.some.inj hj
    obtain ⟨hcreated, hstarted, hshutdown⟩ := hj'
    have hloop : workerLoop (fun _ _ => 0) s = { s with worker := .returned } := if_pos hshutdown
    cases hworker : s.worker with
    | notCreated => exact absurd hworker (hs.created hcreated)
    | waiting =>
      have hstep : step md5 s (.worker fun _ _ => 0) = some { s with worker := .returned } := by
        simp only [step, workerStep, hworker, hstarted, if_true, hloop]
      exact ⟨[.worker fun _ _ => 0], _, todo, htodo, _, run_cons.mpr ⟨_, hstep, rfl⟩, rfl, hjoining, rfl⟩
    | sleeping =>
      have hstep : step md5 s (.worker fun _ _ => 0) = some { s with worker := .returned } := by
        simp only [step, workerStep, hworker, hloop]
      exact ⟨[.worker fun _ _ => 0], _, todo, htodo, _, run_cons.mpr ⟨_, hstep, rfl⟩, rfl, hjoining, rfl⟩
    | returned => exact ⟨[], _, todo, htodo, s, rfl, rfl, hjoining, decide_eq_true hworker⟩
  | _ => cases hj

theorem main_progress (md5 : List Byte → HexDigest) (hs : Wf s) (hready : ∀ j ∈ s.flags.joins, Ready j) (htodo : s.todo ≠ []) :
    ∃ ls s', run (step md5) s ls = some s' ∧ remaining s' < remaining s := by
  cases hjoining : s.joining with
  | true =>
    obtain ⟨ls, op, todo, htodo, s₁, hrun, htodo₁, hjoining₁, hreturned⟩ := join_ends md5 hs hready hjoining
    have hstep : step md5 s₁ .main = some { s₁ with todo := todo, joining := false } := by
      simp only [step, mainStep, htodo₁, htodo, hjoining₁, hreturned, if_true]
    refine ⟨ls ++ [.main], _, run_append.mpr ⟨s₁, hrun, run_cons.mpr ⟨_, hstep, rfl⟩⟩, ?_⟩
    simp only [remaining, htodo, hjoining, List.length_cons, Bool.toNat_true, Bool.toNat_false]
    omega
  | false =>
    obtain ⟨op, todo, htodo⟩ := List.exists_cons_of_ne_nil htodo
    cases hjoin : op.isJoin with
    | true =>
      have hstep : step md5 s .main = some { s with flags := op.apply s.flags, joining := true } := by
        simp [step, mainStep, htodo, hjoining, hjoin]
      refine ⟨[.main], _, run_cons.mpr ⟨_, hstep, rfl⟩, ?_⟩
      simp only [remaining, htodo, hjoining, List.length_cons, Bool.toNat_true, Bool.toNat_false]
      omega
    | false =>
      have hstep : step md5 s .main = some { s with
          flags := op.apply s.flags
          todo := todo
          worker := if op = .createHeartbeatThread then .waiting else s.worker } := by
        simp [step, mainStep, htodo, hjoining, hjoin]
      refine ⟨[.main], _, run_cons.mpr ⟨_, hstep, rfl⟩, ?_⟩
      simp only [remaining, htodo, hjoining, List.length_cons, Bool.toNat_false]
      omega

/-- If every join finds its flags, the calling thread can go on to its end. -/
theorem main_ends (md5 : List Byte → HexDigest) (hs : Wf s) (hall : ∀ ls t, run (step md5) s ls = some t → ∀ j ∈ t.flags.joins, Ready j) :
    ∃ ls t, run (step md5) s ls = some t ∧ t.todo = [] := by
  induction hn : remaining s using Nat.strongRecOn generalizing s with
  | ind n ih =>
    by_cases htodo : s.todo = []
    · exact ⟨[], s, rfl, htodo⟩
    · obtain ⟨ls, s₁, hrun, hlt⟩ := main_progress md5 hs (hall [] s rfl) htodo
      obtain ⟨ls', t, hrun', ht⟩ := ih (remaining s₁) (hn ▸ hlt) (wf_run hs hrun)
        (fun ls' t h => hall (ls ++ ls') t (run_append.mpr ⟨s₁, hrun, h⟩)) rfl
      exact ⟨ls ++ ls', t, run_append.mpr ⟨s₁, hrun, hrun'⟩, ht⟩

/-! ## Lives -/

/-- The calls of `tc_server_init` up to the one that creates the heartbeat thread
succeed. -/
def CreatesThread (env : InitEnv) : Prop :=
  env.address ∧ env.listenerSocket ∧ env.bind ∧ env.threadPool ∧ env.managerLock ∧ env.startCondition ∧ env.authTree ∧
    env.heartbeatThread

/-- The calls after it succeed. -/
def Finishes (env : InitEnv) : Prop := env.mapCache ∧ env.joinRouter ∧ env.lock ∧ env.actionLocks

/-- `tc_server_start` is called, does not find `started` set, and its calls succeed. -/
def Starts (life : Life) : Prop := life.started = false ∧ ∃ env, life.start = some env ∧ env.listen ∧ env.schedule

/-- A call fails before the heartbeat thread is created, or none fails and the server
is started. -/
def Orderly (life : Life) : Prop := ¬CreatesThread life.init ∨ (Finishes life.init ∧ Starts life)

theorem heartbeatManagerInit_eq (env : InitEnv) : heartbeatManagerInit env =
    if env.managerLock ∧ env.startCondition ∧ env.authTree ∧ env.heartbeatThread then
      ⟨[.initManager, .createHeartbeatThread], true⟩ else ⟨[.initManager], false⟩ := by
  unfold heartbeatManagerInit
  repeat' split
  all_goals simp_all

theorem tcServerInit_cases (env : InitEnv) :
    (¬CreatesThread env ∧ (tcServerInit env = ⟨[], false⟩ ∨
      tcServerInit env = ⟨[.initPool, .initManager, .tcThreadPoolStop, .joinWorkers], false⟩)) ∨
      (CreatesThread env ∧ ¬Finishes env ∧
        tcServerInit env = ⟨[.initPool, .initManager, .createHeartbeatThread] ++ giveUp, false⟩) ∨
      (CreatesThread env ∧ Finishes env ∧ tcServerInit env = ⟨[.initPool, .initManager, .createHeartbeatThread], true⟩) := by
  unfold tcServerInit CreatesThread Finishes
  rw [heartbeatManagerInit_eq]
  repeat' split
  all_goals simp_all [tcThreadPoolFinalize]

theorem startReturned_cases (life : Life) :
    (¬Starts life ∧ life.startReturned = ⟨[], false⟩) ∨
      (Starts life ∧ life.startReturned = ⟨[.scheduleListener, .tcHeartbeatManagerStart, .setStarted], true⟩) := by
  unfold Life.startReturned Starts
  cases life.start with
  | none => simp
  | some env =>
    rw [Option.elim, tcServerStart]
    repeat' split
    all_goals simp_all

/-- The joins of a life. -/
theorem final_ready_iff (life : Life) (manager : Manager) :
    (∀ j ∈ (finalFlags (State.start life manager)).joins, Ready j) ↔ Orderly life := by
  have hfinal : finalFlags (State.start life manager) = applyAll life.ops (State.start life manager).flags := rfl
  rw [hfinal, Life.ops, Orderly]
  rcases tcServerInit_cases life.init with ⟨hcreates, hinit | hinit⟩ | ⟨hcreates, hfinishes, hinit⟩ |
    ⟨hcreates, hfinishes, hinit⟩
  · simp [hinit, hcreates, applyAll, State.start]
  · simp [hinit, hcreates, applyAll, State.start, Op.apply, Ready]
  · simp [hinit, hcreates, hfinishes, giveUp, tcThreadPoolFinalize, tcHeartbeatManagerFinalize, applyAll, State.start,
      Op.apply, Ready]
  · rw [hinit]
    rcases startReturned_cases life with ⟨hstarts, hstart⟩ | ⟨hstarts, hstart⟩
    · -- without a start, the heartbeat thread is never told to go on
      cases life.started <;> cases life.stop <;>
        simp [hstart, hstarts, hcreates, tcServerStop, tcServerFinalize, tcThreadPoolFinalize,
          tcHeartbeatManagerFinalize, applyAll, State.start, Op.apply, Ready]
    · cases life.stop <;>
        simp [hstart, hstarts, hstarts.1, hfinishes, tcServerStop, tcServerFinalize, tcThreadPoolFinalize,
          tcHeartbeatManagerFinalize, applyAll, State.start, Op.apply, Ready]

/-- For every life and every interleaving of the threads, each join finds the flags
with which the thread can return, if and only if the life is orderly; and then the
calling thread can always go on to its end. -/
theorem joins_ready_iff (md5 : List Byte → HexDigest) (life : Life) (manager : Manager) :
    ((∀ ls t, run (step md5) (State.start life manager) ls = some t → ∀ j ∈ t.flags.joins, Ready j) ↔ Orderly life) ∧
      (Orderly life → ∀ ls t, run (step md5) (State.start life manager) ls = some t →
        ∃ ls' u, run (step md5) t ls' = some u ∧ u.todo = []) := by
  have hready (h : Orderly life) (ls : List Label) (t : State)
      (hrun : run (step md5) (State.start life manager) ls = some t) : ∀ j ∈ t.flags.joins, Ready j :=
    fun j hj => (final_ready_iff life manager).mpr h j (joins_of_run hrun hj)
  refine ⟨⟨fun h => ?_, hready⟩, fun h ls t hrun => ?_⟩
  · obtain ⟨ls, t, hrun, ht⟩ := main_ends md5 (wf_start life manager) h
    have hfinal : finalFlags t = t.flags := by simp [finalFlags, ht, applyAll]
    rw [← final_ready_iff life manager, ← finalFlags_run hrun, hfinal]
    exact h ls t hrun
  · refine main_ends md5 (wf_run (wf_start life manager) hrun) fun ls' u hu => ?_
    exact hready h (ls ++ ls') u (run_append.mpr ⟨t, hrun, hu⟩)

/-- A join whose thread was not told to return, or not even to start. -/
def Stuck (s : State) : Prop :=
  s.joining = true ∧ ∃ todo,
    (s.todo = .joinWorkers :: todo ∧ s.flags.poolShutdown = false ∧ s.poolReturned = false) ∨
      (s.todo = .joinHeartbeatThread :: todo ∧ s.flags.managerStarted = false ∧ s.worker = .waiting)

theorem stuck_step (hs : Stuck s) (h : step md5 s l = some s') : Stuck s' := by
  obtain ⟨hjoining, todo, ⟨htodo, hflag, hthread⟩ | ⟨htodo, hflag, hthread⟩⟩ := hs
  · cases l with
    | main => simp [step, mainStep, htodo, hjoining, State.hasReturned, hthread] at h
    | poolReturns => simp [step, hflag] at h
    | worker rand =>
      obtain ⟨hflags, htodo', hjoining', hreturned, -⟩ := workerLoop_keeps rand s
      obtain rfl | rfl := workerStep_cases h
      · exact ⟨hjoining, todo, .inl ⟨htodo, hflag, hthread⟩⟩
      · exact ⟨hjoining'.trans hjoining, todo, .inl ⟨htodo'.trans htodo, hflags ▸ hflag, hreturned.trans hthread⟩⟩
    | validate call =>
      rw [clientStep_eq h]
      exact ⟨hjoining, todo, .inl ⟨htodo, hflag, hthread⟩⟩
  · cases l with
    | main => simp [step, mainStep, htodo, hjoining, State.hasReturned, hthread] at h
    | poolReturns =>
      simp only [step] at h
      split at h
      · cases h
        exact ⟨hjoining, todo, .inr ⟨htodo, hflag, hthread⟩⟩
      · cases h
    | worker rand =>
      simp only [step, workerStep, hthread, hflag, Bool.false_eq_true, if_false, Option.some.injEq] at h
      subst h
      exact ⟨hjoining, todo, .inr ⟨htodo, hflag, hthread⟩⟩
    | validate call =>
      rw [clientStep_eq h]
      exact ⟨hjoining, todo, .inr ⟨htodo, hflag, hthread⟩⟩

theorem Stuck.forever (hs : Stuck s) (h : run (step md5) s ls = some t) : t.todo ≠ [] := by
  obtain ⟨-, todo, ⟨htodo, -⟩ | ⟨htodo, -⟩⟩ := run_inv (fun _ _ _ hs h => stuck_step hs h) hs h
  · simp [htodo]
  · simp [htodo]

/-- Everything succeeds. -/
def reliable : InitEnv where
  address := true
  listenerSocket := true
  bind := true
  threadPool := true
  managerLock := true
  startCondition := true
  authTree := true
  heartbeatThread := true
  mapCache := true
  joinRouter := true
  lock := true
  actionLocks := true

/-- `tc_map_cache_init` fails. -/
def withoutCache : Life := { started := false, init := { reliable with mapCache := false }, start := none, stop := false }

/-- The server is never started. -/
def unstarted : Life := { started := false, init := reliable, start := none, stop := false }

/-- A life that fails at the map cache joins a heartbeat thread that waits to be
started, and one without a start joins workers that wait for tasks; neither join
ever ends. -/
theorem joins_never_end (md5 : List Byte → HexDigest) (manager : Manager) :
    (∃ ls t, run (step md5) (State.start withoutCache manager) ls = some t ∧
      .heartbeatThread true false false ∈ t.flags.joins ∧ ∀ ls' u, run (step md5) t ls' = some u → u.todo ≠ []) ∧
      ∃ ls t, run (step md5) (State.start unstarted manager) ls = some t ∧
        .workers false ∈ t.flags.joins ∧ ∀ ls' u, run (step md5) t ls' = some u → u.todo ≠ [] := by
  refine ⟨⟨List.replicate 5 .main ++ [.poolReturns, .main, .main], _, rfl, ?_, fun ls' u h => ?_⟩,
    List.replicate 4 .main, _, rfl, ?_, fun ls' u h => ?_⟩
  · exact List.mem_cons_of_mem _ List.mem_cons_self
  · exact Stuck.forever ⟨rfl, [], .inr ⟨rfl, rfl, rfl⟩⟩ h
  · exact List.mem_cons_self
  · exact Stuck.forever ⟨rfl, [.joinHeartbeatThread], .inl ⟨rfl, rfl, rfl⟩⟩ h

theorem joins_forever :
    (∃ ls t, run (step zeroHash) (State.start withoutCache oneService) ls = some t ∧
      .heartbeatThread true false false ∈ t.flags.joins ∧
        ∀ ls' u, run (step zeroHash) t ls' = some u → u.todo ≠ []) ∧
      ∃ ls t, run (step zeroHash) (State.start unstarted oneService) ls = some t ∧
        .workers false ∈ t.flags.joins ∧ ∀ ls' u, run (step zeroHash) t ls' = some u → u.todo ≠ [] :=
  joins_never_end zeroHash oneService

end TC.Proof.Lifecycle
