import TeleClassic.Impl.BacklogBlocks

/-!
# Going through a backlog

The entries of a backlog are those that were pushed, in that order
(`contents_pushAll`), and the two loops go through them (`visitBlocks_eq`). What
is done for one entry is one of four things (`Part`), and from these, by induction
on the entries, follows what `tc_task_schedule_backlog` does as a whole
(`backlog_dispatched`). On requests it is the function of `TaskBacklog.lean`
(`schedule_refines`).
-/

namespace TC.Proof.Backlog

open TC.Impl
open TC.Impl.TaskBacklog (bufferSize Request Handlers)
open TC.Impl.BacklogBlocks

variable {parts : List (List Event)} {c : Bool} {events : List Event} {es : List Entry} {e : Entry}
  {c' : Bool}

/-! ## The entries -/

def Block.contents (block : Block) : List Entry := block.entries.toList.take block.count

theorem length_blockContents (block : Block) : (Block.contents block).length = block.count := by
  simp [Block.contents, block.count_le]

def contents (backlog : Backlog) : List Entry := backlog.flatMap Block.contents

theorem contents_cons (block : Block) (blocks : Backlog) :
    contents (block :: blocks) = Block.contents block ++ contents blocks := rfl

theorem contents_put (block : Block) (entry : Entry) (h : block.count < bufferSize) :
    Block.contents (block.put entry h) = Block.contents block ++ [entry] := by
  have hlen : block.count < (block.entries.toList.set block.count entry).length := by
    rw [List.length_set, Vector.length_toList]
    exact h
  simp only [Block.contents, Block.put, Vector.toList_set]
  rw [List.take_succ_eq_append_getElem hlen, List.take_set_of_le (Nat.le_refl _), List.getElem_set_self]

theorem contents_first (memory : Slots) (entry : Entry) : Block.contents (Block.first memory entry) = [entry] :=
  contents_put _ entry _

theorem contents_push {entry : Entry} {memory : Option Slots} {backlog backlog' : Backlog}
    (h : tcTaskBacklogPush entry memory backlog = some backlog') : contents backlog' = contents backlog ++ [entry] := by
  induction backlog using tcTaskBacklogPush.induct generalizing backlog' with
  | case1 =>
    obtain ⟨slots, -, rfl⟩ := Option.map_eq_some_iff.mp h
    simp [contents, contents_first]
  | case2 tail hroom =>
    rw [tcTaskBacklogPush, dif_pos hroom] at h
    obtain rfl := Option.some.inj h
    simp [contents, contents_put]
  | case3 tail hfull =>
    rw [tcTaskBacklogPush, dif_neg hfull] at h
    obtain ⟨slots, -, rfl⟩ := Option.map_eq_some_iff.mp h
    simp [contents, contents_first]
  | case4 block next blocks ih =>
    obtain ⟨rest, hrest, rfl⟩ := Option.map_eq_some_iff.mp h
    rw [contents_cons, ih hrest, contents_cons block, List.append_assoc]

/-- A push, and what `p_malloc` gives for it. -/
abbrev Push := Entry × Option Slots

/-- A backlog after a push, with the entries for which it returned `TRUE`. -/
def pushed (s : Backlog × List Entry) (p : Push) : Backlog × List Entry :=
  (tcTaskBacklogPush p.1 p.2 s.1).elim s fun backlog => (backlog, s.2 ++ [p.1])

def pushAll (pushes : List Push) : Backlog × List Entry := pushes.foldl pushed ([], [])

theorem contents_pushed {s : Backlog × List Entry} (h : contents s.1 = s.2) (p : Push) :
    contents (pushed s p).1 = (pushed s p).2 := by
  rw [pushed]
  cases hpush : tcTaskBacklogPush p.1 p.2 s.1 with
  | none => exact h
  | some backlog =>
    show contents backlog = s.2 ++ [p.1]
    rw [contents_push hpush, h]

theorem contents_pushAll (pushes : List Push) : contents (pushAll pushes).1 = (pushAll pushes).2 := by
  have hall (s : Backlog × List Entry) (h : contents s.1 = s.2) :
      contents (pushes.foldl pushed s).1 = (pushes.foldl pushed s).2 := by
    induction pushes generalizing s with
    | nil => exact h
    | cons p pushes ih => exact ih _ (contents_pushed h p)
  exact hall _ rfl

/-! ## The loops -/

variable {call : Call}

theorem visitBlock_eq (block : Block) (i : Nat) (s : State) :
    visitBlock call block i s = ((Block.contents block).drop i).foldl (fun s e => visit call e s) s := by
  have hcount := length_blockContents block
  fun_induction visitBlock call block i s with
  | case1 i s h ih =>
    have hi : i < (Block.contents block).length := hcount ▸ h
    rw [ih, List.drop_eq_getElem_cons hi, List.foldl_cons]
    congr 2
    simp [Block.contents, Vector.get]
  | case2 i s h =>
    rw [List.drop_eq_nil_of_le (by omega)]
    rfl

theorem visitBlocks_eq (backlog : Backlog) (s : State) :
    visitBlocks call backlog s = (contents backlog).foldl (fun s e => visit call e s) s := by
  induction backlog generalizing s with
  | nil => rfl
  | cons block blocks ih =>
    rw [visitBlocks, ih, visitBlock_eq, List.drop_zero, contents_cons, List.foldl_append]

/-! ## One entry -/

/-- What is done for an entry, with `task_chain_continued` before and after. -/
inductive Part (call : Call) (e : Entry) : Bool → Bool → List Event → Prop
  | failed {c : Bool} : Part call e c c [e.fail]
  | refused {c : Bool} {result : Nat} (hresult : call.result = some result) : Part call e c c (call.refused e result)
  | next {result : Nat} (hresult : call.result = some result) (hpriority : e.priority = call.currentPriority) :
    Part call e false true
      (ifGiven call.aquireHandler (.aquire result) ++ [.scheduleNext2 (e.task result call.currentPriority)])
  | new {c : Bool} {result : Nat} (hresult : call.result = some result) :
    Part call e c c (ifGiven call.aquireHandler (.aquire result) ++ [.scheduleNew (e.task result e.priority)])

theorem visit_part (call : Call) (e : Entry) (s : State) :
    ∃ c events, visit call e s = s.after c events ∧ Part call e s.taskChainContinued c events := by
  rw [visit]
  split
  · exact ⟨_, _, rfl, .failed⟩
  rename_i result hresult
  dsimp only
  split
  · exact ⟨_, _, rfl, .failed⟩
  split
  · rename_i hnext
    split
    · exact ⟨_, _, rfl, .refused hresult⟩
    · have hc : s.taskChainContinued = false := by simpa using hnext.2
      rw [hc]
      exact ⟨_, _, rfl, .next hresult hnext.1⟩
  · split
    · exact ⟨_, _, rfl, .refused hresult⟩
    · exact ⟨_, _, rfl, .new hresult⟩

/-- The entries from one on, and what is done for each. -/
inductive Parts (call : Call) : Bool → List Entry → List (List Event) → Prop
  | nil {c : Bool} : Parts call c [] []
  | cons {c c' : Bool} {e : Entry} {es : List Entry} {events : List Event} {parts : List (List Event)}
    (first : Part call e c c' events) (rest : Parts call c' es parts) : Parts call c (e :: es) (events :: parts)

theorem foldl_visit (es : List Entry) (s : State) : ∃ parts,
    (es.foldl (fun s e => visit call e s) s).trace = s.trace ++ parts.flatten ∧
      Parts call s.taskChainContinued es parts := by
  induction es generalizing s with
  | nil => exact ⟨[], (List.append_nil _).symm, .nil⟩
  | cons e es ih =>
    obtain ⟨c, events, hvisit, hpart⟩ := visit_part call e s
    obtain ⟨parts, htrace, hparts⟩ := ih (s.after c events)
    refine ⟨events :: parts, ?_, .cons hpart hparts⟩
    rw [List.foldl_cons, hvisit, htrace, List.flatten_cons, ← List.append_assoc]
    rfl

/-! ## All entries -/

def Event.isAquire : Event → Bool
  | .aquire _ => true
  | _ => false

def Event.isRelease : Event → Bool
  | .release _ => true
  | _ => false

def Event.isNext : Event → Bool
  | .scheduleNext2 _ => true
  | _ => false

/-- A success handler in the pool. -/
def Event.isScheduled : Event → Bool
  | .scheduleNext2 _ => true
  | .scheduleNew _ => true
  | _ => false

def Event.isFailure : Event → Bool
  | .failure _ _ _ => true
  | _ => false

/-- The handlers of an entry that are scheduled or invoked. -/
def handlers (events : List Event) : List Event := events.filter fun x => Event.isScheduled x || Event.isFailure x

/-- Either the success handler of the entry is scheduled once, with its context,
its generation and the result, or its failure handler is invoked once. -/
def Settled (call : Call) (e : Entry) (events : List Event) : Prop :=
  (∃ result, call.result = some result ∧
    (handlers events = [.scheduleNext2 (e.task result e.priority)] ∨
      handlers events = [.scheduleNew (e.task result e.priority)])) ∨
  handlers events = [e.fail]

theorem settled_part (h : Part call e c c' events) : Settled call e events := by
  cases h with
  | failed => exact .inr rfl
  | refused hresult =>
    refine .inr ?_
    rw [Call.refused]
    cases call.aquireHandler <;> cases call.releaseHandler <;> rfl
  | next hresult hpriority =>
    refine .inl ⟨_, hresult, .inl ?_⟩
    rw [hpriority]
    cases call.aquireHandler <;> rfl
  | new hresult =>
    refine .inl ⟨_, hresult, .inr ?_⟩
    cases call.aquireHandler <;> rfl

theorem settled_parts (h : Parts call c es parts) : List.Forall₂ (Settled call) es parts := by
  induction h with
  | nil => exact .nil
  | cons first _ ih => exact .cons (settled_part first) ih

/-- There is no result, or both handlers for it are given. -/
def Counted (call : Call) : Prop := call.result = none ∨ call.aquireHandler = true ∧ call.releaseHandler = true

instance (call : Call) : Decidable (Counted call) := inferInstanceAs (Decidable (_ ∨ _))

theorem aquired_part (hcall : Counted call) (h : Part call e c c' events) :
    events.countP Event.isAquire = events.countP Event.isScheduled + events.countP Event.isRelease := by
  have hgiven {result : Nat} (hresult : call.result = some result) :
      call.aquireHandler = true ∧ call.releaseHandler = true := by
    rcases hcall with hnone | hgiven
    · rw [hnone] at hresult
      cases hresult
    · exact hgiven
  cases h with
  | failed => rfl
  | refused hresult =>
    obtain ⟨ha, hr⟩ := hgiven hresult
    rw [Call.refused, ha, hr]
    rfl
  | next hresult hpriority =>
    rw [(hgiven hresult).1]
    rfl
  | new hresult =>
    rw [(hgiven hresult).1]
    rfl

theorem aquired_parts (hcall : Counted call) (h : Parts call c es parts) :
    parts.flatten.countP Event.isAquire =
      parts.flatten.countP Event.isScheduled + parts.flatten.countP Event.isRelease := by
  induction h with
  | nil => rfl
  | cons first _ ih =>
    have hfirst := aquired_part hcall first
    simp only [List.flatten_cons, List.countP_append]
    omega

/-- A task of the chain sets `task_chain_continued`, which was not set. -/
theorem next_part (h : Part call e c c' events) : events.countP Event.isNext + c.toNat = c'.toNat := by
  cases h with
  | failed => exact Nat.zero_add _
  | refused hresult =>
    rw [Call.refused]
    cases call.aquireHandler <;> cases call.releaseHandler <;> exact Nat.zero_add _
  | next hresult hpriority => cases call.aquireHandler <;> rfl
  | new hresult => cases call.aquireHandler <;> exact Nat.zero_add _

theorem next_parts (h : Parts call c es parts) : parts.flatten.countP Event.isNext + c.toNat ≤ 1 := by
  induction h with
  | @nil c =>
    rw [List.flatten_nil, List.countP_nil, Nat.zero_add]
    exact Bool.toNat_le c
  | cons first _ ih =>
    have hfirst := next_part first
    simp only [List.flatten_cons, List.countP_append]
    omega

theorem priority_part (h : Part call e c c' events) {task : Scheduled} (hmem : .scheduleNext2 task ∈ events) :
    task.priority = call.currentPriority := by
  have hgiven (handler : Bool) (event : Event) (hevent : .scheduleNext2 task ≠ event) :
      .scheduleNext2 task ∉ ifGiven handler event := by
    cases handler <;> simp [ifGiven, hevent]
  cases h with
  | failed => simp [Entry.fail] at hmem
  | refused hresult => simp [Call.refused, Entry.fail, hgiven] at hmem
  | next hresult hpriority =>
    simp only [List.mem_append, List.mem_singleton, Event.scheduleNext2.injEq] at hmem
    rcases hmem with hmem | rfl
    · exact absurd hmem (hgiven _ _ (by simp))
    · rfl
  | new hresult => simp [hgiven] at hmem

theorem priority_parts (h : Parts call c es parts) {task : Scheduled}
    (hmem : .scheduleNext2 task ∈ parts.flatten) : task.priority = call.currentPriority := by
  induction h with
  | nil => cases hmem
  | cons first _ ih =>
    rw [List.flatten_cons, List.mem_append] at hmem
    rcases hmem with hmem | hmem
    · exact priority_part first hmem
    · exact ih hmem

/-- For every sequence of pushes, every result and every pattern of failures: the
entries are gone through in the order they were pushed, each of them is settled in
one way; if the result is counted, it is aquired once more for each success handler
than it is released; and at most one of these continues the chain of the current
task, with its priority. -/
theorem backlog_dispatched (call : Call) (pushes : List Push) : ∃ parts : List (List Event),
    tcTaskScheduleBacklog call (pushAll pushes).1 = parts.flatten ∧
    List.Forall₂ (Settled call) (pushAll pushes).2 parts ∧
    (Counted call → parts.flatten.countP Event.isAquire =
      parts.flatten.countP Event.isScheduled + parts.flatten.countP Event.isRelease) ∧
    parts.flatten.countP Event.isNext ≤ 1 ∧
    ∀ task, .scheduleNext2 task ∈ parts.flatten → task.priority = call.currentPriority := by
  obtain ⟨parts, htrace, hparts⟩ := foldl_visit (contents (pushAll pushes).1) (⟨false, [], 0⟩ : State)
  rw [contents_pushAll] at hparts
  refine ⟨parts, ?_, settled_parts hparts, fun hcall => aquired_parts hcall hparts, next_parts hparts,
    fun task hmem => priority_parts hparts hmem⟩
  rw [tcTaskScheduleBacklog, visitBlocks_eq, htrace]
  rfl

/-- Two entries of the current priority and one of another. -/
def threePushes : List Push :=
  [(⟨1, 2, 10, .high, 0⟩, some (Vector.replicate _ ⟨0, 0, 0, .low, 0⟩)), (⟨3, 4, 11, .low, 5⟩, none),
    (⟨1, 2, 12, .high, 7⟩, none)]

/-- The pool does not accept the first. -/
def firstRefused : Call :=
  ⟨true, true, some 99, .high, fun i => if i = 0 then .refused else .accepted⟩

theorem backlog_dispatched_three : ∃ parts : List (List Event),
    tcTaskScheduleBacklog firstRefused (pushAll threePushes).1 = parts.flatten ∧
    List.Forall₂ (Settled firstRefused) (threePushes.map Prod.fst) parts ∧
    parts.flatten.countP Event.isAquire =
      parts.flatten.countP Event.isScheduled + parts.flatten.countP Event.isRelease := by
  obtain ⟨parts, htrace, hsettled, hcount, -⟩ := backlog_dispatched firstRefused threePushes
  exact ⟨parts, htrace, hsettled, hcount (by decide)⟩

/-- The result is not counted, and the pool accepts every task. -/
def uncounted : Call := ⟨false, false, some 99, .high, fun _ => .accepted⟩

/-- Success handlers get a result that is never aquired. -/
theorem result_uncounted :
    (tcTaskScheduleBacklog uncounted (pushAll threePushes).1).countP Event.isScheduled = 3 ∧
      (tcTaskScheduleBacklog uncounted (pushAll threePushes).1).countP Event.isAquire = 0 ∧
      (tcTaskScheduleBacklog uncounted (pushAll threePushes).1).countP Event.isRelease = 0 := by
  decide +kernel

/-! ## On requests -/

/-- The handlers of the requests that stand for entries, as calls. -/
def recorded (call : Call) (result : Nat) (lookup : Nat → Entry) : Handlers (List Event) where
  success r continued trace :=
    trace ++ [if continued then .scheduleNext2 ((lookup r.id).task result call.currentPriority)
      else .scheduleNew ((lookup r.id).task result (lookup r.id).priority)]
  failure r trace := trace ++ [(lookup r.id).fail]
  aquire trace := trace ++ ifGiven call.aquireHandler (.aquire result)
  release trace := trace ++ ifGiven call.releaseHandler (.release result)

/-- The requests that stand for entries, numbered from `i`. -/
def requests : Nat → List Entry → List Request
  | _, [] => []
  | i, e :: es => ⟨i, e.priority⟩ :: requests (i + 1) es

/-- What `visit` does, in the words of `dispatch`. -/
theorem visit_dispatch {result : Nat} (hresult : call.result = some result) (lookup : Nat → Entry)
    (s : State) : visit call (lookup s.visited) s =
      ⟨s.taskChainContinued || ((lookup s.visited).priority = call.currentPriority && !s.taskChainContinued &&
          call.outcomes s.visited = .accepted),
        TaskBacklog.dispatch (recorded call result lookup) ⟨s.visited, (lookup s.visited).priority⟩
          ((lookup s.visited).priority = call.currentPriority && !s.taskChainContinued) (call.outcomes s.visited) s.trace,
        s.visited + 1⟩ := by
  rw [visit, hresult]
  dsimp only
  cases houtcome : call.outcomes s.visited with
  | noArgs => simp [State.after, TaskBacklog.dispatch, recorded]
  | refused => simp [State.after, TaskBacklog.dispatch, recorded, Call.refused]
  | accepted =>
    by_cases hnext : (lookup s.visited).priority = call.currentPriority ∧ (!s.taskChainContinued) = true
    · simp [State.after, TaskBacklog.dispatch, recorded, hnext]
    · have hnew : (decide ((lookup s.visited).priority = call.currentPriority) && !s.taskChainContinued) = false := by
        simpa using hnext
      rw [if_neg hnext]
      simp [State.after, TaskBacklog.dispatch, recorded, hnew]

theorem foldl_refines (lookup : Nat → Entry) (es : List Entry) (s : State)
    (hlookup : ∀ k (h : k < es.length), lookup (s.visited + k) = es[k]) :
    (es.foldl (fun s e => visit call e s) s).trace =
      TaskBacklog.tcTaskScheduleBacklog (recorded call (call.result.getD 0) lookup) call.result.isSome
        call.currentPriority call.outcomes s.visited s.taskChainContinued (requests s.visited es) s.trace := by
  induction es generalizing s with
  | nil => rfl
  | cons e es ih =>
    have he : lookup s.visited = e := hlookup 0 (by simp)
    have hes (c : Bool) (trace : List Event) :=
      ih ⟨c, trace, s.visited + 1⟩ fun k hk => by
        rw [← List.getElem_cons_succ e es k (by simpa using hk), ← hlookup (k + 1) (by simpa using hk)]
        show lookup (s.visited + 1 + k) = _
        rw [Nat.add_assoc, Nat.add_comm 1]
    rw [List.foldl_cons, requests, TaskBacklog.tcTaskScheduleBacklog]
    cases hresult : call.result with
    | none =>
      have hfail : visit call e s = ⟨s.taskChainContinued, s.trace ++ [e.fail], s.visited + 1⟩ := by
        rw [visit, hresult]
        rfl
      rw [hfail, hes, hresult, ← he]
      rfl
    | some result =>
      have hvisit := visit_dispatch hresult lookup s
      rw [he] at hvisit
      rw [hvisit, hes, hresult]
      rfl

/-- On the requests that stand for the entries, the function of `TaskBacklog.lean`
makes the same calls. -/
theorem schedule_refines (call : Call) (backlog : Backlog) {lookup : Nat → Entry}
    (hlookup : ∀ k (h : k < (contents backlog).length), lookup k = (contents backlog)[k]) :
    tcTaskScheduleBacklog call backlog =
      TaskBacklog.tcTaskScheduleBacklog (recorded call (call.result.getD 0) lookup) call.result.isSome
        call.currentPriority call.outcomes 0 false (requests 0 (contents backlog)) [] := by
  rw [tcTaskScheduleBacklog, visitBlocks_eq]
  refine foldl_refines lookup (contents backlog) ⟨false, [], 0⟩ fun k hk => ?_
  rw [← hlookup k hk]
  exact congrArg lookup (Nat.zero_add k)

end TC.Proof.Backlog
