import TeleClassic.Proof.Cache.Requests

/-!
# The reference counts of the map cache

`open_count` should be the number of success handlers scheduled with the map and
of `tc_map_ref` calls, less the `tc_map_unref` calls. An open of a loaded map
takes one reference with the entry's lock and one more when its handler is
invoked, and when the pool does not take the handler, the release takes a third.
`balance_step` says how far each step lets the two drift apart. They never come
together again, so they are equal in the runs without such steps only
(`open_count_iff`). The dispatch of a backlog is balanced.
-/

namespace TC.Proof.Cache

open TC.Impl.TaskBacklog TC.Impl.MapCache

variable {s : Cache} {e e' : Nat} {sizes : Sizes} {en : Entry}

/-- 1 if the entries are one. -/
def same (e' e : Nat) : Int := if e' = e then 1 else 0

/-- What an event says the count of the entry `e` should change by. -/
def handed (e : Nat) : Event → Int
  | .scheduled _ e' _ _ => same e' e
  | .referenced e' => same e' e
  | .unreferenced e' => -same e' e
  | .failed _ | .wrote _ _ | .evicted _ _ => 0

/-- The success handlers scheduled with the map of `e` and the `tc_map_ref`
calls, less the `tc_map_unref` calls. -/
def references (e : Nat) (s : Cache) : Int := tally (handed e) s.trace

def openCount (e : Nat) (s : Cache) : Int := (s.entries e).elim 0 Entry.openCount

def balance (e : Nat) (s : Cache) : Int := openCount e s - references e s

/-- The entry exists. -/
def Live (e : Nat) (s : Cache) : Prop := (s.entries e).isSome

theorem isSome_store (h : Live e s) : ((store s).entries e).isSome := by
  rw [store, Option.isSome_map]
  exact h

/-! ## Counts -/

theorem same_self (e : Nat) : same e e = 1 := if_pos rfl

theorem same_of_ne (h : e ≠ e') : same e' e = 0 := if_neg h.symm

theorem references_note (e : Nat) (s : Cache) (event : Event) :
    references e (s.note event) = references e s + handed e event := by
  simp [references, Cache.note, tally_append]

theorem balance_note (e : Nat) (s : Cache) (event : Event) :
    balance e (s.note event) = balance e s - handed e event := by
  rw [balance, references_note, balance]
  show openCount e s - _ = _
  omega

theorem openCount_of_live (h : s.entries e = some en) : openCount e s = en.openCount := by
  rw [openCount, h]
  rfl

/-- An entry whose count changes by `d`. -/
theorem balance_setEntry (h : s.entries e' = some en) (en' : Entry) {d : Int}
    (hd : en'.openCount = en.openCount + d) (e : Nat) :
    balance e (s.setEntry e' (some en')) = balance e s + d * same e' e := by
  have hcount : openCount e (s.setEntry e' (some en')) = openCount e s + d * same e' e := by
    by_cases he : e = e'
    · subst he
      rw [openCount, setEntry_self, openCount_of_live h, same_self]
      show en'.openCount = _
      omega
    · rw [openCount, setEntry_of_ne s _ he, same_of_ne he, openCount]
      omega
  rw [balance, hcount, balance]
  show _ - references e s = _
  omega

/-- An entry whose count stays. -/
theorem balance_setEntry_same (h : s.entries e' = some en) (en' : Entry)
    (hcount : en'.openCount = en.openCount) (e : Nat) :
    balance e (s.setEntry e' (some en')) = balance e s := by
  rw [balance_setEntry h en' (d := 0) (by omega) e, Int.zero_mul, Int.add_zero]

theorem live_setEntry (h : s.entries e' = some en) (en' : Entry) (e : Nat) :
    Live e (s.setEntry e' (some en')) ↔ Live e s := by
  by_cases he : e = e'
  · subst he
    rw [Live, Live, setEntry_self, h]
    rfl
  · rw [Live, setEntry_of_ne s _ he, Live]

theorem live_modify (f : Entry → Entry) (h : Live e s) : Live e (s.modify e' f) := by
  by_cases he : e = e'
  · subst he
    rw [Live, Cache.modify, setEntry_self, Option.isSome_map]
    exact h
  · rw [Live, Cache.modify, setEntry_of_ne s _ he]
    exact h

theorem balance_modify {f : Entry → Entry} {d : Int} (hf : ∀ en, (f en).openCount = en.openCount + d)
    (h : Live e s) : balance e (s.modify e' f) = balance e s + d * same e' e := by
  by_cases he : e = e'
  · subst he
    obtain ⟨en, hen⟩ := Option.isSome_iff_exists.mp h
    rw [modify_eq hen]
    exact balance_setEntry hen (f en) (hf en) e
  · rw [balance, openCount, Cache.modify, setEntry_of_ne s _ he, same_of_ne he, Int.mul_zero, Int.add_zero]
    rfl

theorem live_ref (h : Live e s) (e' : Nat) : Live e (tcMapNolockRef e' s) := live_modify _ h

theorem live_unref (h : Live e s) (e' : Nat) : Live e (tcMapNolockUnref e' s) :=
  live_modify _ h

theorem balance_ref (h : Live e s) (e' : Nat) :
    balance e (tcMapNolockRef e' s) = balance e s + same e' e := by
  rw [tcMapNolockRef, balance_modify (fun _ => rfl) h, Int.one_mul]

theorem balance_unref (h : Live e s) (e' : Nat) :
    balance e (tcMapNolockUnref e' s) = balance e s - same e' e := by
  rw [tcMapNolockUnref, balance_modify (fun _ => Int.sub_eq_add_neg) h]
  omega

/-! ## Dispatches -/

/-- How far an open drifts whose handler is dispatched so. -/
def refusedDrift : Dispatch → Int
  | .refused => 2
  | .noArgs | .accepted => 0

section

variable (hlive : Live e s)

include hlive

/-- A handler that is invoked by an open. -/
theorem balance_invokeHandler (c : Invoking) (o : Dispatch) :
    balance e (invokeHandler c o s) = balance e s + refusedDrift o * same c.entry e := by
  cases o with
  | noArgs =>
    show balance e (s.note (.failed c.call.request.id)) = _
    rw [balance_note, handed, refusedDrift]
    omega
  | refused =>
    show balance e (tcMapNolockRef c.entry ((tcMapNolockRef c.entry s).note (.failed c.call.request.id))) = _
    rw [balance_ref (s := (tcMapNolockRef c.entry s).note _) (live_ref hlive c.entry), balance_note,
      balance_ref hlive, handed, refusedDrift]
    omega
  | accepted =>
    show balance e ((tcMapNolockRef c.entry s).note _) = _
    rw [balance_note, balance_ref hlive, handed, refusedDrift]
    omega

/-- A handler that is dispatched by the load task. -/
theorem balance_dispatch (e' : Nat) (q : Request) (continued : Bool) (o : Dispatch) :
    Live e (dispatch (handlers e' (tcMapNolockRef e') (tcMapNolockUnref e')) q continued o s) ∧
      balance e (dispatch (handlers e' (tcMapNolockRef e') (tcMapNolockUnref e')) q continued o s) = balance e s := by
  have hheld := live_ref hlive e'
  cases o with
  | noArgs =>
    refine ⟨hlive, ?_⟩
    show balance e (s.note (.failed q.id)) = _
    rw [balance_note, handed]
    omega
  | refused =>
    refine ⟨live_unref (s := (tcMapNolockRef e' s).note _) hheld e', ?_⟩
    show balance e (tcMapNolockUnref e' ((tcMapNolockRef e' s).note (.failed q.id))) = _
    rw [balance_unref (s := (tcMapNolockRef e' s).note _) hheld, balance_note, balance_ref hlive, handed]
    omega
  | accepted =>
    refine ⟨hheld, ?_⟩
    show balance e ((tcMapNolockRef e' s).note _) = _
    rw [balance_note, balance_ref hlive, handed]
    omega

theorem balance_scheduleBacklog (e' : Nat) (outcomes : Nat → Dispatch) (rs : List Request) :
    balance e (tcTaskScheduleBacklog (handlers e' (tcMapNolockRef e') (tcMapNolockUnref e')) true .blocking outcomes
      0 false rs s) = balance e s := by
  refine (scheduleBacklog_rule (P := fun _ t => Live e t ∧ balance e t = balance e s)
    (fun _ _ _ hresult => absurd hresult Bool.noConfusion) (fun q _ t next o _ ht => ?_) 0 false rs ⟨hlive, rfl⟩).2
  have hdispatch := balance_dispatch ht.1 e' q next o
  exact ⟨hdispatch.1, hdispatch.2.trans ht.2⟩

end

theorem balance_failBacklog (s : Cache) (e' : Nat) (outcomes : Nat → Dispatch) (rs : List Request) (e : Nat) :
    balance e (tcTaskScheduleBacklog (handlers e' id id) false .blocking outcomes 0 false rs s) = balance e s := by
  refine scheduleBacklog_rule (P := fun _ t => balance e t = balance e s)
    (fun q _ t _ ht => ?_) (fun _ _ _ _ _ hresult => absurd hresult Bool.false_ne_true) 0 false rs rfl
  show balance e (t.note (.failed q.id)) = _
  rw [balance_note, ht, handed]
  omega

/-! ## Steps -/

/-- How far the count of the entry `e` drifts in a step. -/
def drift (e : Nat) (s : Cache) : Label → Int
  | .open_ name _ _ _ => if s.idToIndex name = some e ∧ s.isLoaded e = true then 1 else 0
  | .upgrade i _ _ =>
    if (s.upgrading[i]?.bind fun call => s.idToIndex call.name) = some e ∧ s.isLoaded e = true then 1 else 0
  | .invoke i o => if s.invoking[i]?.map Invoking.entry = some e then refusedDrift o else 0
  | .load _ _ _ | .check | .ref _ | .unref _ | .setBlock _ _ => 0

/-- An open of the entry `e'` drifts its count if the map is loaded. -/
theorem balance_opened {call : Open} {writer alloc : Bool} (h : s.entries e' = some en) (e : Nat) :
    balance e (opened call e' en writer alloc s) =
      balance e s + if some e' = some e ∧ s.isLoaded e = true then 1 else 0 := by
  have hset : balance e (opened call e' en writer alloc s) =
      balance e s + (if en.isLoaded = true then 1 else 0) * same e' e := by
    refine balance_setEntry h _ ?_ e
    cases en.isLoaded <;> simp
  rw [hset]
  by_cases he : e = e'
  · subst he
    rw [same_self, isLoaded_of_live h, Int.mul_one]
    simp only [true_and]
  · rw [same_of_ne he, Int.mul_zero, if_neg fun hopen => he (Option.some.inj hopen.1).symm]

/-- The creation of an entry leaves the counts of the others. -/
theorem balance_createEntry (sizes : Sizes) (call : Open) (c : Creation) (he : e ≠ s.nextEntry) :
    balance e (createEntry sizes call c s) = balance e s := by
  cases c with
  | scheduled =>
    show openCount e (s.setEntry s.nextEntry _) - references e s = _
    rw [openCount, setEntry_of_ne s _ he]
    rfl
  | notScheduled => rfl
  | noEntry | noLock | noKey | noArgs | noBlock =>
    show balance e (s.note (.failed call.request.id)) = _
    rw [balance_note, handed, Int.sub_zero]

/-- The entries that exist after a sequence of moves existed before, with the
same balance. -/
theorem balance_evictMoves {s' : Cache} (h : EvictMoves s s') (hlive : Live e s') :
    Live e s ∧ balance e s' = balance e s := by
  induction h with
  | refl => exact ⟨hlive, rfl⟩
  | @tail u u' _ hmove ih =>
    have hback : Live e u ∧ balance e u' = balance e u := by
      cases hmove with
      | @flags e' en isReferenced locked live =>
        refine ⟨(live_setEntry live _ e).mp hlive, ?_⟩
        exact balance_setEntry_same live { en with isReferenced := isReferenced, locked := locked } rfl e
      | hand clockHand => exact ⟨hlive, rfl⟩
      | @drop e' en live =>
        have he : e ≠ e' := by
          rintro rfl
          rw [Live, show (dropEntry e en u).entries e = none from setEntry_self u e none] at hlive
          cases hlive
        have hentry : (dropEntry e' en u).entries e = u.entries e := setEntry_of_ne u none he
        have hreferences : references e (dropEntry e' en u) = references e u := by
          show tally _ (u.trace ++ [_]) = _
          rw [tally_append, references, tally_cons, handed, tally_nil]
          omega
        rw [Live, hentry] at hlive
        refine ⟨hlive, ?_⟩
        rw [balance, hreferences, openCount, hentry]
        rfl
    exact ⟨(ih hback.1).1, hback.2.trans (ih hback.1).2⟩

/-- A step lets the count of an entry that exists before and after drift by
`drift`. -/
theorem balance_step {s' : Cache} {l : Label} (hwf : (store s).Wf) (h : Step sizes s l s')
    (hlive : Live e s) (hlive' : Live e s') : balance e s' = balance e s + drift e s l := by
  cases h with
  | wait absent =>
    rw [drift, absent]
    simp
    rfl
  | @found name priority current alloc e' en at_ live =>
    rw [balance_opened (s := { s with nextRequest := s.nextRequest + 1 }) live, drift, at_]
    rfl
  | @upgraded i c alloc call e' en waiting at_ live =>
    rw [balance_opened (s := { s with upgrading := s.upgrading.eraseIdx i }) live, drift, waiting, Option.bind_some, at_]
    rfl
  | @create i c alloc call waiting absent =>
    have hcreate := balance_createEntry sizes call c (s := { s with upgrading := s.upgrading.eraseIdx i })
      (hwf.ne_nextEntry (isSome_store hlive))
    rw [hcreate, drift, waiting, Option.bind_some, absent, if_neg (by simp), Int.add_zero]
    rfl
  | @invoke i o c waiting =>
    rw [balance_invokeHandler (s := { s with invoking := s.invoking.eraseIdx i }) hlive, drift, waiting,
      Option.map_some, same]
    simp only [Option.some.injEq, mul_ite, Int.mul_one, Int.mul_zero]
    rfl
  | @loadFailed e' outcomes en pending live =>
    rw [balance_failBacklog, drift, Int.add_zero]
    rfl
  | @loaded e' m outcomes en pending live =>
    have hpublished : Live e (published sizes e' en m s) := (live_setEntry live _ e).mpr hlive
    rw [balance_scheduleBacklog hpublished, drift, Int.add_zero]
    exact balance_setEntry_same live { en with
      map := some m, memoryUsage := en.memoryUsage + tcMapGetMemoryUsage sizes m } rfl e
  | check idle moves =>
    rw [drift, Int.add_zero]
    exact (balance_evictMoves moves hlive').2
  | @ref e' en live =>
    rw [balance_note, balance_ref hlive, handed, drift]
    omega
  | @unref e' en live =>
    rw [balance_note, balance_unref hlive, handed, drift]
    omega
  | @write e' w en m m' live =>
    rw [balance_note, balance_setEntry_same live { en with map := some m' } rfl, handed, drift]
    omega

/-! ## Runs -/

/-- The entry `e` existed once. -/
def Store.Gone (e : Nat) (v : Store) : Prop := v.entries e = none ∧ e < v.nextEntry

theorem Store.Gone.performs {v v' : Store} {l : Label} (h : v.Gone e) (hl : Performs sizes v v' l) :
    v'.Gone e := by
  have hother : ∀ {u : Store} {e' : Nat} {x : Stored}, u.Gone e → u.entries e' = some x → e ≠ e' := by
    rintro u e' x hu hx rfl
    rw [hu.1] at hx
    cases hx
  refine hl.keeps h (fun name _ => ⟨?_, Nat.lt_succ_of_lt h.2⟩) (fun _ => h) (fun e' m _ x _ _ hx => ⟨?_, h.2⟩)
    (fun u e' x hu hx _ => ⟨?_, hu.2⟩) (fun e' w x m m' _ hx _ _ => ⟨?_, h.2⟩)
  · exact (set_entries_of_ne v _ (Nat.ne_of_lt h.2)).trans h.1
  · exact (set_entries_of_ne v _ (hother h hx)).trans h.1
  · exact (set_entries_of_ne u _ (hother hu hx)).trans hu.1
  · exact (set_entries_of_ne v _ (hother h hx)).trans h.1

/-- The number of an entry is not used again. -/
theorem live_step {s' t : Cache} {l : Label} {ls : List Label} (hwf : (store s).Wf) (hlive : Live e s)
    (hstep : cacheStep sizes s l = some s') (hrun : run (cacheStep sizes) s' ls = some t)
    (hlive' : Live e t) : Live e s' := by
  have hlinked : e ∈ s.linked := (hwf.linked_iff e).mpr (isSome_store hlive)
  have hold : e < (store s').nextEntry :=
    (store_step (step_of_cacheStep hstep)).keeps (P := fun v => e < v.nextEntry) (hwf.fresh e hlinked)
      (fun _ _ => Nat.lt_succ_of_lt (hwf.fresh e hlinked)) (fun _ => hwf.fresh e hlinked)
      (fun _ _ _ _ _ _ _ => hwf.fresh e hlinked) (fun _ _ _ hu _ _ => hu)
      (fun _ _ _ _ _ _ _ _ _ => hwf.fresh e hlinked)
  by_contra hdead
  have hgone : (store s').Gone e := ⟨Option.map_eq_none_iff.mpr (Option.not_isSome_iff_eq_none.mp hdead), hold⟩
  have hend := (store_inv (P := Store.Gone e) (fun _ _ _ h hl => h.performs hl) hgone hrun).1
  rw [store, Option.map_eq_none_iff] at hend
  rw [Live, hend] at hlive'
  cases hlive'

/-- No open finds the entry `e` loaded, and the handler of none that found it is
refused by the pool. -/
def Balanced (e : Nat) (s : Cache) : Label → Prop
  | .open_ name _ _ _ => s.idToIndex name = some e → s.isLoaded e = false
  | .upgrade i _ _ => ∀ call ∈ s.upgrading[i]?, s.idToIndex call.name = some e → s.isLoaded e = false
  | .invoke i o => ∀ c ∈ s.invoking[i]?, c.entry = e → o ≠ .refused
  | _ => True

theorem drift_bounds (e : Nat) (s : Cache) (l : Label) : 0 ≤ drift e s l ∧ drift e s l ≤ 2 := by
  cases l with
  | open_ | upgrade =>
    rw [drift]
    split <;> decide
  | invoke i o =>
    rw [drift]
    split
    · cases o <;> decide
    · decide
  | load | check | ref | unref | setBlock => exact (by decide : (0 : Int) ≤ 0 ∧ (0 : Int) ≤ 2)

theorem drift_eq_zero_iff (e : Nat) (s : Cache) (l : Label) : drift e s l = 0 ↔ Balanced e s l := by
  cases l with
  | open_ name priority current alloc => simp [drift, Balanced]
  | upgrade i c alloc =>
    cases h : s.upgrading[i]? with
    | none => simp [drift, Balanced, h]
    | some call => simp [drift, Balanced, h]
  | invoke i o =>
    cases h : s.invoking[i]? with
    | none => simp [drift, Balanced, h]
    | some c => cases o <;> simp [drift, Balanced, h, refusedDrift]
  | load | check | ref | unref | setBlock => simp [drift, Balanced]

/-- Along a run the count of an entry drifts one way only. -/
theorem balance_run {t : Cache} {ls : List Label} (hwf : (store s).Wf) (hlive : Live e s)
    (hlive' : Live e t) (hrun : run (cacheStep sizes) s ls = some t) :
    balance e s ≤ balance e t ∧ balance e t ≤ balance e s + 2 * ls.length ∧
      (balance e t = balance e s ↔ Along (cacheStep sizes) (Balanced e) s ls) := by
  induction ls generalizing s with
  | nil =>
    obtain rfl := Option.some.inj hrun
    exact ⟨Int.le_refl _, by simp, iff_of_true rfl trivial⟩
  | cons l ls ih =>
    obtain ⟨s', hstep, hrest⟩ := run_cons.mp hrun
    have hnext := live_step hwf hlive hstep hrest hlive'
    have hbalance := balance_step hwf (step_of_cacheStep hstep) hlive hnext
    obtain ⟨hle, hfar, hiff⟩ := ih (hwf.performs (store_step (step_of_cacheStep hstep))) hnext hrest
    have hdrift := drift_bounds e s l
    rw [List.length_cons]
    refine ⟨by omega, by omega, ?_⟩
    constructor
    · intro heq
      refine along_cons ((drift_eq_zero_iff e s l).mp (by omega)) hstep (hiff.mp (by omega))
    · intro halong
      have hzero := (drift_eq_zero_iff e s l).mpr halong.1
      have hsame := hiff.mpr (halong.2 s' hstep)
      omega

/-- The count of an entry that exists before and after a run, and that was right
before, is right after it if and only if no open of the run finds the entry
loaded and no handler of one is refused. -/
theorem open_count_iff {sizes : Sizes} {s₀ s : Cache} {ls : List Label} {e : Nat} (hwf : (store s₀).Wf)
    (hlive : Live e s₀) (hlive' : Live e s) (hstart : openCount e s₀ = references e s₀)
    (hrun : run (cacheStep sizes) s₀ ls = some s) :
    openCount e s = references e s ↔ Along (cacheStep sizes) (Balanced e) s₀ ls := by
  rw [← (balance_run hwf hlive hlive' hrun).2.2, balance, balance, hstart]
  omega

theorem references_bounds (e : Nat) (s : Cache) : -s.trace.length ≤ references e s ∧ references e s ≤ s.trace.length := by
  rw [references]
  induction s.trace with
  | nil => exact ⟨Int.le_refl 0, Int.le_refl 0⟩
  | cons event trace ih =>
    have hone : -1 ≤ handed e event ∧ handed e event ≤ 1 := by
      cases event with
      | scheduled | referenced | unreferenced =>
        rw [handed, same]
        split <;> decide
      | failed | wrote | evicted => exact (by decide : (-1 : Int) ≤ 0 ∧ (0 : Int) ≤ 1)
    rw [tally_cons, List.length_cons]
    omega

/-- A `pint` holds the count as long as the steps, taken twice, and the events are fewer
than `2 ^ 31`. -/
theorem open_count_held {s₀ : Cache} {ls : List Label} (hwf : (store s₀).Wf) (hlive : Live e s₀)
    (hlive' : Live e s) (hstart : openCount e s₀ = references e s₀)
    (hrun : run (cacheStep sizes) s₀ ls = some s) (hfew : 2 * ls.length + s.trace.length < 2 ^ 31) :
    (BitVec.ofInt 32 (openCount e s)).toInt = openCount e s := by
  obtain ⟨hle, hfar, -⟩ := balance_run hwf hlive hlive' hrun
  have hreferences := references_bounds e s
  rw [balance, balance, hstart] at hle hfar
  exact BitVec.toInt_ofInt_eq_self (by decide) (by omega) (by omega)

/-- An open while the map is loading: the entry's lock section takes no
reference, and the request is counted once for each of its two answers. -/
theorem open_count_iff_loading :
    ∃ s, run (cacheStep someSizes) (lobby none)
        [openLobby, .invoke 0 .accepted, .load 0 (some Map.oneBlock) fun _ => .accepted] = some s ∧
      (openCount 0 s = references 0 s ↔ Along (cacheStep someSizes) (Balanced 0) (lobby none)
        [openLobby, .invoke 0 .accepted, .load 0 (some Map.oneBlock) fun _ => .accepted]) :=
  ⟨_, rfl, open_count_iff (wf_lobby none) rfl rfl rfl rfl⟩

/-- One open of a loaded map: two references if its handler is scheduled, three
if it is refused. -/
theorem open_leaks_references :
    openCount 0 (lobby (some Map.oneBlock)) = 1 ∧ references 0 (lobby (some Map.oneBlock)) = 1 ∧
    (∃ s, run (cacheStep someSizes) (lobby (some Map.oneBlock)) [openLobby, .invoke 0 .accepted] = some s ∧
      openCount 0 s = 3 ∧ references 0 s = 2) ∧
    ∃ s, run (cacheStep someSizes) (lobby (some Map.oneBlock)) [openLobby, .invoke 0 .refused] = some s ∧
      openCount 0 s = 4 ∧ references 0 s = 1 :=
  ⟨rfl, rfl, ⟨_, rfl, rfl, rfl⟩, ⟨_, rfl, rfl, rfl⟩⟩

end TC.Proof.Cache
