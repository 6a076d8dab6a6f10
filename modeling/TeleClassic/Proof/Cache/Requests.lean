import TeleClassic.Framework.Tally
import TeleClassic.Proof.Cache.Index
import TeleClassic.Proof.Map

/-!
# Requests to the map cache are answered

A request that finds an entry is answered at once, loaded or not: while the
entry is still loading the request is also put in its backlog, so it is answered
with a map that is not there and once more after the load (`answered_twice`).
`answered_once` is about the runs in which every request that finds an entry
finds it loaded. There each request is at every time in one place: it waits, in
a call or in the backlog of an entry that is loading, or it is answered, once,
and with a loaded map (`place_step`).
-/

namespace TC.Proof.Cache

open TC.Impl.Map TC.Impl.TaskBacklog TC.Impl.MapCache

variable {s s' : Cache} {e : Nat} {sizes : Sizes} {en : Entry} {l : Label} {n : Nat} {call : Open}

/-! ## Where a request is -/

/-- 1 if this is the request `r`. -/
def hits (r id : Nat) : Nat := if id = r then 1 else 0

def answer (r : Nat) : Event → Nat
  | .scheduled r' _ _ _ => hits r r'
  | .failed r' => hits r r'
  | _ => 0

/-- How often the request `r` was answered. -/
def answers (r : Nat) (s : Cache) : Nat := tally (answer r) s.trace

def backlogOf (s : Cache) (e : Nat) : List Request := (s.entries e).elim [] Entry.backlog

def inBacklog (r : Nat) (backlog : List Request) : Nat := tally (fun q => hits r q.id) backlog

/-- How often it is in a call or in the backlog of an entry that is loading. -/
def waiting (r : Nat) (s : Cache) : Nat :=
  tally (fun c => hits r c.request.id) s.upgrading + tally (fun c => hits r c.call.request.id) s.invoking +
    tally (fun e => inBacklog r (backlogOf s e)) s.pendingLoads

def place (r : Nat) (s : Cache) : Nat := answers r s + waiting r s

/-! ## What a dispatch leaves -/

theorem backlogOf_calm (s : Cache) (e : Nat) : backlogOf (calm s) e = backlogOf s e := by
  simp only [backlogOf, calm]
  cases s.entries e <;> rfl

theorem isLoaded_calm (e : Nat) (s : Cache) : (calm s).isLoaded e = s.isLoaded e := by
  simp only [Cache.isLoaded, calm]
  cases s.entries e <;> rfl

theorem waiting_calm (r : Nat) (s : Cache) : waiting r (calm s) = waiting r s := by
  simp only [waiting, backlogOf_calm]
  rfl

theorem isLoaded_of_calm (h : calm s' = calm s) (e : Nat) : s'.isLoaded e = s.isLoaded e :=
  of_calm (f := (·.isLoaded e)) (isLoaded_calm e) h

theorem invoking_calm (s : Cache) : (calm s).invoking = s.invoking := rfl

theorem nextRequest_calm (s : Cache) : (calm s).nextRequest = s.nextRequest := rfl

/-! ## What a dispatch answers -/

theorem answers_note (r : Nat) (s : Cache) (event : Event) : answers r (s.note event) = answers r s + answer r event := by
  simp [answers, Cache.note, tally_append]

theorem answers_congr (r : Nat) (h : s'.trace = s.trace) : answers r s' = answers r s :=
  congrArg (tally (answer r)) h

section

variable {r : Nat} {aquire release : Cache → Cache} (haquire : Counting aquire) (hrelease : Counting release)

include haquire hrelease

theorem answers_dispatch (q : Request) (continued : Bool) (o : Dispatch) (s : Cache) :
    answers r (dispatch (handlers e aquire release) q continued o s) = answers r s + hits r q.id := by
  cases o with
  | noArgs => exact answers_note r s (.failed q.id)
  | refused =>
    show answers r (release ((aquire s).note (.failed q.id))) = _
    rw [answers_congr r (hrelease.trace _), answers_note, answers_congr r (haquire.trace s)]
    rfl
  | accepted =>
    show answers r ((aquire s).note _) = _
    rw [answers_note, answers_congr r (haquire.trace s)]
    rfl

/-- Every request of the backlog is answered. -/
theorem answers_scheduleBacklog (result : Bool) (outcomes : Nat → Dispatch) (rs : List Request) (s : Cache) :
    answers r (tcTaskScheduleBacklog (handlers e aquire release) result .blocking outcomes 0 false rs s) =
      answers r s + inBacklog r rs := by
  have h : answers r (tcTaskScheduleBacklog (handlers e aquire release) result .blocking outcomes 0 false rs s) +
      inBacklog r [] = answers r s + inBacklog r rs := by
    refine scheduleBacklog_rule (P := fun rs' t => answers r t + inBacklog r rs' = answers r s + inBacklog r rs)
      (fun q rs' t _ h => ?_) (fun q rs' t next o _ h => ?_) 0 false rs rfl
    · show answers r (t.note (.failed q.id)) + inBacklog r rs' = _
      rw [answers_note, ← h, inBacklog, inBacklog, tally_cons]
      exact Nat.add_assoc ..
    · rw [answers_dispatch haquire hrelease, ← h, inBacklog, inBacklog, tally_cons]
      exact Nat.add_assoc ..
  exact h

end

/-! ## Where a request goes -/

/-- A request that finds an entry finds it loaded, and the load of a new entry
can be scheduled. -/
def FindsLoaded (s : Cache) : Label → Prop
  | .open_ name _ _ _ => ∀ e ∈ s.idToIndex name, s.isLoaded e = true
  | .upgrade i c _ => ∀ call ∈ s.upgrading[i]?,
      (∀ e ∈ s.idToIndex call.name, s.isLoaded e = true) ∧ (s.idToIndex call.name = none → c ≠ .notScheduled)
  | _ => True

/-- 1 if the step makes the request `r`. -/
def made (r : Nat) (s : Cache) : Label → Nat
  | .open_ _ _ _ _ => hits r s.nextRequest
  | _ => 0

theorem backlogOf_setEntry (h : s.entries e = some en) (en' : Entry) (hen : en'.backlog = en.backlog)
    (e' : Nat) : backlogOf (s.setEntry e (some en')) e' = backlogOf s e' := by
  by_cases he : e' = e
  · subst he
    rw [backlogOf, backlogOf, setEntry_self, h]
    exact hen
  · rw [backlogOf, backlogOf, setEntry_of_ne s _ he]

theorem waiting_setEntry (h : s.entries e = some en) (en' : Entry) (hen : en'.backlog = en.backlog)
    (r : Nat) : waiting r (s.setEntry e (some en')) = waiting r s := by
  simp only [waiting, backlogOf_setEntry h en' hen]
  rfl

theorem place_setEntry (h : s.entries e = some en) (en' : Entry) (hen : en'.backlog = en.backlog) (r : Nat) :
    place r (s.setEntry e (some en')) = place r s := by
  rw [place, waiting_setEntry h en' hen, place]
  rfl

/-- A call that found its entry loaded. -/
theorem place_opened {writer alloc : Bool} (h : s.entries e = some en) (hloaded : en.isLoaded = true)
    (r : Nat) : place r (opened call e en writer alloc s) = place r s + hits r call.request.id := by
  have hwait : waiting r (opened call e en writer alloc s) = waiting r s + hits r call.request.id := by
    have hset := waiting_setEntry h { en with openCount := en.openCount + 1, isReferenced := true } rfl r
    rw [← hset]
    simp only [opened, hloaded, Bool.not_true, Bool.false_eq_true, if_false, waiting, tally_append, tally_cons,
      tally_nil]
    simp only [Cache.setEntry, backlogOf]
    omega
  rw [place, place, hwait]
  exact (Nat.add_assoc ..).symm

theorem isLoaded_of_live (h : s.entries e = some en) : s.isLoaded e = en.isLoaded := by
  rw [Cache.isLoaded, h]
  rfl

/-- A call leaves `upgrading`. -/
theorem place_erase_upgrading {i : Nat} (h : s.upgrading[i]? = some call) (r : Nat) :
    place r { s with upgrading := s.upgrading.eraseIdx i } + hits r call.request.id = place r s := by
  have hsum := tally_eraseIdx (fun c => hits r c.request.id) h
  simp only [place, waiting, answers, backlogOf] at hsum ⊢
  omega

/-- A call leaves `invoking`. -/
theorem place_erase_invoking {i : Nat} {c : Invoking} (h : s.invoking[i]? = some c) (r : Nat) :
    place r { s with invoking := s.invoking.eraseIdx i } + hits r c.call.request.id = place r s := by
  have hsum := tally_eraseIdx (fun c => hits r c.call.request.id) h
  simp only [place, waiting, answers, backlogOf] at hsum ⊢
  omega

theorem place_note (r : Nat) (s : Cache) (event : Event) : place r (s.note event) = place r s + answer r event := by
  rw [place, answers_note, place]
  show answers r s + answer r event + waiting r s = _
  omega

/-- The request of a call is answered with a failure, or waits for the load of a
new entry. -/
theorem place_createEntry {c : Creation} (hwf : (store s).Wf) (hc : c ≠ .notScheduled) (r : Nat) :
    place r (createEntry sizes call c s) = place r s + hits r call.request.id := by
  cases c with
  | notScheduled => exact absurd rfl hc
  | noEntry | noLock | noKey | noArgs | noBlock => exact place_note r s (.failed call.request.id)
  | scheduled =>
    have hnew : s.nextEntry ∉ s.pendingLoads := hwf.nextEntry_not_mem_pendingLoads
    have hold : tally (fun e => inBacklog r (backlogOf (s.setEntry s.nextEntry (newEntry sizes call)) e))
        s.pendingLoads = tally (fun e => inBacklog r (backlogOf s e)) s.pendingLoads := by
      refine tally_congr fun e he => ?_
      rw [backlogOf, setEntry_of_ne s _ (by rintro rfl; exact hnew he), backlogOf]
    have hentry : backlogOf (s.setEntry s.nextEntry (newEntry sizes call)) s.nextEntry = [call.request] := by
      rw [backlogOf, setEntry_self]
      rfl
    show answers r s + (tally _ s.upgrading + tally _ s.invoking +
      tally (fun e => inBacklog r (backlogOf (s.setEntry s.nextEntry _) e)) (s.pendingLoads ++ [s.nextEntry])) = _
    rw [tally_append, hold, tally_cons, hentry, inBacklog, tally_cons, tally_nil, tally_nil, place, waiting]
    omega

/-- The request of a call is answered. -/
theorem place_invokeHandler (c : Invoking) (o : Dispatch) (s : Cache) (r : Nat) :
    place r (invokeHandler c o s) = place r s + hits r c.call.request.id := by
  have hanswers := answers_dispatch (r := r) (e := c.entry) (counting_ref c.entry) (counting_ref c.entry)
    c.call.request (c.call.current = some c.call.request.priority) o s
  rw [place, of_calm (waiting_calm r) (calm_invokeHandler c o s), place]
  show answers r (dispatch _ _ _ _ _) + _ = _
  rw [hanswers]
  omega

/-- The load of an entry answers what is in its backlog. -/
theorem place_unpend (s' : Cache) (hpending : e ∈ s.pendingLoads) (hcalls : s'.upgrading = s.upgrading)
    (hinvoking : s'.invoking = s.invoking) (hloads : s'.pendingLoads = s.pendingLoads.erase e)
    (hbacklog : ∀ e', backlogOf s' e' = backlogOf s e') (r : Nat) :
    waiting r s' + inBacklog r (backlogOf s e) = waiting r s := by
  have hsum := tally_erase (fun e => inBacklog r (backlogOf s e)) hpending
  simp only [waiting, hcalls, hinvoking, hloads, hbacklog] at hsum ⊢
  omega

theorem backlogOf_of_live (h : s.entries e = some en) : backlogOf s e = en.backlog := by
  rw [backlogOf, h]
  rfl

theorem place_evictMove (hwf : (store s).Wf) (h : EvictMove s s') (r : Nat) : place r s' = place r s := by
  cases h with
  | @flags e en isReferenced locked live =>
    exact place_setEntry live { en with isReferenced := isReferenced, locked := locked } rfl r
  | hand h => rfl
  | @drop e en live loaded =>
    have hne : ∀ e' ∈ s.pendingLoads, e' ≠ e := by
      rintro e' he' rfl
      rw [isLoaded_of_pending hwf he' live] at loaded
      cases loaded
    have hbacklogs : tally (fun e' => inBacklog r (backlogOf (dropEntry e en s) e')) s.pendingLoads =
        tally (fun e' => inBacklog r (backlogOf s e')) s.pendingLoads := by
      refine tally_congr fun e' he' => ?_
      have hentry : (dropEntry e en s).entries e' = s.entries e' := setEntry_of_ne s none (hne e' he')
      rw [backlogOf, hentry, backlogOf]
    have hanswers : answers r (dropEntry e en s) = answers r s := by
      show tally _ (s.trace ++ [_]) = _
      rw [tally_append, answers]
      rfl
    rw [place, hanswers, place, waiting]
    show _ + (_ + _ + tally (fun e' => inBacklog r (backlogOf (dropEntry e en s) e')) s.pendingLoads) = _
    rw [hbacklogs]
    rfl

theorem place_evictMoves (hwf : (store s).Wf) (h : EvictMoves s s') (r : Nat) : place r s' = place r s := by
  induction h with
  | refl => rfl
  | @tail u u' hmoves hmove ih =>
    rw [place_evictMove (hwf.drops (store_evictMoves hmoves)) hmove, ih]

theorem place_scheduleBacklog {aquire release : Cache → Cache} (haquire : Counting aquire)
    (hrelease : Counting release) (result : Bool) (outcomes : Nat → Dispatch) (rs : List Request) (s : Cache) (r : Nat) :
    place r (tcTaskScheduleBacklog (handlers e aquire release) result .blocking outcomes 0 false rs s) =
      place r s + inBacklog r rs := by
  rw [place, of_calm (waiting_calm r) (calm_scheduleBacklog haquire hrelease result outcomes rs s),
    answers_scheduleBacklog haquire hrelease, place]
  omega

/-- A step that meets the condition leaves every request in one place, and puts
a new one somewhere. -/
theorem place_step (hwf : (store s).Wf) (hgood : FindsLoaded s l) (h : Step sizes s l s') (r : Nat) :
    place r s' = place r s + made r s l := by
  cases h with
  | wait absent =>
    simp only [place, waiting, answers, backlogOf, tally_append, tally_cons, tally_nil, made, nextCall]
    omega
  | @found name priority current _ e en at_ live =>
    have hloaded := hgood e at_
    rw [isLoaded_of_live live] at hloaded
    rw [place_opened (s := { s with nextRequest := s.nextRequest + 1 }) live hloaded r]
    rfl
  | @upgraded i c _ call e en waiting at_ live =>
    have hloaded := (hgood call waiting).1 e at_
    rw [isLoaded_of_live live] at hloaded
    rw [place_opened (s := { s with upgrading := s.upgrading.eraseIdx i }) live hloaded r]
    exact place_erase_upgrading waiting r
  | @create i c _ call waiting absent =>
    rw [place_createEntry (s := { s with upgrading := s.upgrading.eraseIdx i }) hwf
      ((hgood call waiting).2 absent) r]
    exact place_erase_upgrading waiting r
  | @invoke i o c waiting =>
    rw [place_invokeHandler c o { s with invoking := s.invoking.eraseIdx i } r]
    exact place_erase_invoking waiting r
  | @loadFailed e outcomes en pending live =>
    have hunpend := place_unpend { s with pendingLoads := s.pendingLoads.erase e } pending rfl rfl rfl (fun _ => rfl) r
    rw [backlogOf_of_live live] at hunpend
    rw [place_scheduleBacklog counting_id counting_id, place, place, ← hunpend]
    exact Nat.add_assoc ..
  | @loaded e m outcomes en pending live =>
    have hbacklog := backlogOf_setEntry live { en with
      map := some m, memoryUsage := en.memoryUsage + tcMapGetMemoryUsage sizes m } rfl
    have hunpend := place_unpend (published sizes e en m s) pending rfl rfl rfl hbacklog r
    rw [backlogOf_of_live live] at hunpend
    rw [place_scheduleBacklog (counting_ref e) (counting_unref e), place, place, ← hunpend]
    exact Nat.add_assoc ..
  | check idle moves =>
    have hmoves := place_evictMoves (s := { s with checking := s.checking - 1 }) hwf moves r
    exact hmoves
  | @ref e en live =>
    rw [place_note, place, of_calm (waiting_calm r) ((counting_ref e).calm s)]
    rfl
  | @unref e en live =>
    rw [place_note, place, of_calm (waiting_calm r) ((counting_unref e).calm s)]
    rfl
  | @write e w en m m' live =>
    rw [place_note, place_setEntry live { en with map := some m' } rfl]
    rfl

/-! ## What it is answered with -/

/-- A request from number `n` on is given a loaded map only. -/
def honest (n : Nat) : Event → Prop
  | .scheduled r _ _ loaded => n ≤ r → loaded = true
  | _ => True

def Honest (n : Nat) (s : Cache) : Prop := ∀ event ∈ s.trace, honest n event

theorem Honest.note (h : Honest n s) {event : Event} (hevent : honest n event) :
    Honest n (s.note event) := by
  intro event' hmem
  obtain hmem | hmem := List.mem_append.mp hmem
  · exact h event' hmem
  · rw [List.mem_singleton.mp hmem]
    exact hevent

section

variable {aquire release : Cache → Cache} (haquire : Counting aquire) (hrelease : Counting release)

include haquire hrelease

theorem Honest.dispatch (h : Honest n s) {q : Request} (hloaded : n ≤ q.id → s.isLoaded e = true)
    (continued : Bool) (o : Dispatch) :
    Honest n (dispatch (handlers e aquire release) q continued o s) := by
  have haquired : Honest n (aquire s) := by
    rw [Honest, haquire.trace]
    exact h
  cases o with
  | noArgs => exact h.note trivial
  | refused =>
    show Honest n (release _)
    rw [Honest, hrelease.trace]
    exact haquired.note trivial
  | accepted =>
    refine haquired.note fun hq => ?_
    exact (isLoaded_of_calm (haquire.calm s) e).trans (hloaded hq)

/-- The backlog of an entry that is loaded, or whose load failed. -/
theorem Honest.scheduleBacklog (h : Honest n s) {result : Bool} (hloaded : result = true → s.isLoaded e = true) (outcomes : Nat → Dispatch) (rs : List Request) :
    Honest n (tcTaskScheduleBacklog (handlers e aquire release) result .blocking outcomes 0 false rs s) := by
  refine (scheduleBacklog_rule (P := fun _ t => Honest n t ∧ calm t = calm s) (fun q _ t _ ht => ?_)
    (fun q _ t next o hresult ht => ?_) 0 false rs ⟨h, rfl⟩).1
  · exact ⟨ht.1.note trivial, (calm_note t rfl).trans ht.2⟩
  · refine ⟨ht.1.dispatch haquire hrelease (fun _ => ?_) next o, ?_⟩
    · rw [isLoaded_of_calm ht.2]
      exact hloaded hresult
    · exact (calm_dispatch haquire hrelease q next o t).trans ht.2

end

theorem Honest.evictMoves (h : Honest n s) (hmoves : EvictMoves s s') : Honest n s' := by
  induction hmoves with
  | refl => exact h
  | tail _ hmove ih =>
    cases hmove with
    | flags isReferenced locked live => exact ih
    | hand clockHand => exact ih
    | @drop e en live =>
      have hevent : honest n (.evicted e (en.map.any TcMap.isDirty)) := trivial
      exact ih.note hevent

/-- A step gives a new request a loaded map only, if the calls that found an
entry found it loaded. -/
theorem Honest.step (h : Honest n s)
    (hcalls : ∀ c ∈ s.invoking, n ≤ c.call.request.id → s.isLoaded c.entry = true)
    (hstep : Step sizes s l s') : Honest n s' := by
  cases hstep with
  | wait | found | upgraded => exact h
  | @create i c _ call waiting absent =>
    cases c with
    | scheduled | notScheduled => exact h
    | noEntry | noLock | noKey | noArgs | noBlock => exact h.note trivial
  | @invoke i o c waiting =>
    refine Honest.dispatch (s := { s with invoking := s.invoking.eraseIdx i }) (counting_ref c.entry)
      (counting_ref c.entry) h ?_ _ o
    exact hcalls c (List.mem_of_getElem? waiting)
  | @loadFailed e outcomes en pending live =>
    exact Honest.scheduleBacklog (s := { s with pendingLoads := s.pendingLoads.erase e }) counting_id
      counting_id h (fun hresult => absurd hresult Bool.false_ne_true) outcomes en.backlog
  | @loaded e m outcomes en pending live =>
    refine Honest.scheduleBacklog (s := published sizes e en m s) (counting_ref e) (counting_unref e) h
      (fun _ => ?_) outcomes en.backlog
    rw [Cache.isLoaded, show (published sizes e en m s).entries e = _ from setEntry_self s e _]
    rfl
  | check idle moves =>
    have hmoved := Honest.evictMoves (s := { s with checking := s.checking - 1 }) h moves
    exact hmoved
  | ref | unref | write => exact h.note trivial

/-! ## Calls that found an entry -/

theorem isLoaded_store (s : Cache) (e : Nat) :
    s.isLoaded e = ((store s).entries e).any fun x => x.map.isSome := by
  rw [Cache.isLoaded, store]
  dsimp only
  cases s.entries e <;> rfl

/-- Only an eviction takes the map of an entry away. -/
theorem isLoaded_step (hwf : (store s).Wf) (hl : l ≠ .check) (h : Step sizes s l s')
    (hs : s.isLoaded e = true) : s'.isLoaded e = true := by
  have hperforms := store_step h
  rw [isLoaded_store] at hs ⊢
  have hset : ∀ e' x, x.map.isSome → (((store s).set e' (some x)).entries e).any (fun x => x.map.isSome) = true := by
    intro e' x hx
    by_cases he : e = e'
    · subst he
      rw [Store.set_entries_self]
      exact hx
    · rw [Store.set_entries_of_ne _ _ he]
      exact hs
  cases l with
  | check => exact absurd rfl hl
  | upgrade i c alloc =>
    obtain hsame | ⟨name, -, -, hlink⟩ := hperforms
    · rw [hsame]
      exact hs
    · have hlive : ((store s).entries e).isSome := by
        cases hx : (store s).entries e with
        | none => simp [hx] at hs
        | some x => rfl
      have he : e ≠ s.nextEntry := hwf.ne_nextEntry hlive
      rw [hlink]
      show (((store s).set s.nextEntry _).entries e).any _ = true
      rw [Store.set_entries_of_ne _ _ he]
      exact hs
  | load e' result outcomes =>
    cases result with
    | none =>
      rw [hperforms.2]
      exact hs
    | some m =>
      obtain ⟨x, -, -, hpublish⟩ := hperforms
      rw [hpublish]
      exact hset e' _ rfl
  | setBlock e' w =>
    obtain ⟨x, m, m', -, -, -, hwrite⟩ := hperforms
    rw [hwrite]
    exact hset e' _ rfl
  | open_ | invoke | ref | unref =>
    rw [show store s' = store s from hperforms]
    exact hs

/-- A call that found its entry in this step found it loaded. -/
theorem mem_invoking_step (hgood : FindsLoaded s l) (h : Step sizes s l s') {c : Invoking}
    (hc : c ∈ s'.invoking) : c ∈ s.invoking ∨ s.isLoaded c.entry = true := by
  cases h with
  | wait | ref | unref | write => exact .inl hc
  | found at_ live =>
    obtain hc | hc := List.mem_append.mp hc
    · exact .inl hc
    · rw [List.mem_singleton.mp hc]
      exact .inr (hgood _ at_)
  | upgraded waiting at_ live =>
    obtain hc | hc := List.mem_append.mp hc
    · exact .inl hc
    · rw [List.mem_singleton.mp hc]
      exact .inr ((hgood _ waiting).1 _ at_)
  | @create i c =>
    cases c <;> exact .inl hc
  | @invoke i o c' waiting =>
    rw [of_calm invoking_calm (calm_invokeHandler c' o _)] at hc
    exact .inl (List.mem_of_mem_eraseIdx hc)
  | loadFailed =>
    rw [of_calm invoking_calm calm_backlogFailed] at hc
    exact .inl hc
  | @loaded e =>
    rw [of_calm invoking_calm calm_backlogLoaded] at hc
    exact .inl hc
  | check idle moves => exact .inl ((calls_of_evictMoves moves).1 ▸ hc)

theorem nextRequest_step (h : Step sizes s l s') (r : Nat) :
    (if r < s'.nextRequest then 1 else 0) = (if r < s.nextRequest then 1 else 0) + made r s l := by
  have hopen : (if r < s.nextRequest + 1 then 1 else 0) = (if r < s.nextRequest then 1 else 0) +
      hits r s.nextRequest := by
    unfold hits
    split <;> split <;> split <;> omega
  have hsame : ∀ n, n = s.nextRequest → (if r < n then 1 else 0) = (if r < s.nextRequest then 1 else 0) + 0 := by
    rintro _ rfl
    rfl
  cases h with
  | wait | found => exact hopen
  | upgraded | ref | unref | write => rfl
  | @create i c => cases c <;> rfl
  | @invoke i o c' waiting => exact hsame _ (.trans (of_calm nextRequest_calm (calm_invokeHandler c' o _)) rfl)
  | loadFailed => exact hsame _ (.trans (of_calm nextRequest_calm calm_backlogFailed) rfl)
  | @loaded e =>
    exact hsame _ (.trans (of_calm nextRequest_calm calm_backlogLoaded) rfl)
  | check idle moves => exact hsame _ (calls_of_evictMoves moves).2

/-! ## Answers -/

/-- What holds along a run from a state in which no request from number `n` on
has been made: each is in one place, and is answered with a loaded map only. -/
structure Answering (n : Nat) (s : Cache) : Prop where
  wf : (store s).Wf
  places : ∀ r, n ≤ r → place r s = if r < s.nextRequest then 1 else 0
  calls : ∀ c ∈ s.invoking, n ≤ c.call.request.id → s.isLoaded c.entry = true
  honest : Honest n s

theorem Answering.step (h : Answering n s) (hgood : FindsLoaded s l) (hstep : Step sizes s l s') :
    Answering n s' where
  wf := h.wf.performs (store_step hstep)
  places := fun r hr => by rw [place_step h.wf hgood hstep, h.places r hr, nextRequest_step hstep]
  calls := by
    intro c hc hr
    by_cases hl : l = .check
    · subst hl
      cases hstep with
      | check idle moves =>
        rw [show _ = s.invoking from (calls_of_evictMoves moves).1, idle] at hc
        cases hc
    · refine isLoaded_step h.wf hl hstep ?_
      obtain hold | hloaded := mem_invoking_step hgood hstep hc
      · exact h.calls c hold hr
      · exact hloaded
  honest := h.honest.step h.calls hstep

/-- No request with a number still to be given is anywhere. -/
def NewRequests (s : Cache) : Prop := ∀ r, s.nextRequest ≤ r → place r s = 0

theorem hits_self (r : Nat) : hits r r = 1 := if_pos rfl

theorem answering_start (hwf : (store s).Wf) (hnew : NewRequests s) : Answering s.nextRequest s where
  wf := hwf
  places := fun r hr => by rw [hnew r hr, if_neg (Nat.not_lt.mpr hr)]
  calls := by
    intro c hc hr
    have hmem := le_tally (fun c' : Invoking => hits c.call.request.id c'.call.request.id) hc
    rw [hits_self] at hmem
    have hnone := hnew c.call.request.id hr
    rw [place, waiting] at hnone
    omega
  honest := by
    intro event hmem
    cases event with
    | scheduled r e continued loaded =>
      intro hr
      have hmem := le_tally (answer r) hmem
      rw [answer, hits_self] at hmem
      have hnone := hnew r hr
      rw [place, answers] at hnone
      omega
    | failed | referenced | unreferenced | wrote | evicted => trivial

/-- From any state, in every run in which each request that finds an entry finds
it loaded, a request is answered at most once, it is answered as soon as it does
not wait any more, and the map it is given is loaded. -/
theorem answered_once {sizes : Sizes} {s₀ s : Cache} {ls : List Label} (hwf : (store s₀).Wf) (hnew : NewRequests s₀)
    (hgood : Along (cacheStep sizes) FindsLoaded s₀ ls) (hrun : run (cacheStep sizes) s₀ ls = some s) {r : Nat}
    (hr₀ : s₀.nextRequest ≤ r) (hr : r < s.nextRequest) :
    answers r s ≤ 1 ∧ (waiting r s = 0 ↔ answers r s = 1) ∧
      ∀ e continued loaded, Event.scheduled r e continued loaded ∈ s.trace → loaded = true := by
  have hstep : ∀ t l t', FindsLoaded t l → Answering s₀.nextRequest t → cacheStep sizes t l = some t' →
      Answering s₀.nextRequest t' := fun _ _ _ hl ht h => ht.step hl (step_of_cacheStep h)
  have hend := run_inv_along hstep hgood (answering_start hwf hnew) hrun
  have hplace := hend.places r hr₀
  rw [if_pos hr, place] at hplace
  refine ⟨by omega, by omega, fun e continued loaded hmem => ?_⟩
  exact hend.honest _ hmem hr₀

/-- A cache with an entry in its index, with or without its map, and a request
that waits for it or was answered. -/
def lobby (map : Option TcMap) : Cache :=
  { tcMapCacheInit 10000 with
    entries := fun e => if e = 0 then some {
      key := "lobby.cw"
      map := map
      backlog := [{ id := 0, priority := .medium }]
      memoryUsage := 640
      openCount := if map.isSome then 1 else 0
      isReferenced := true
      locked := false } else none
    linked := [0]
    idToIndex := fun name => if name = "lobby.cw" then some 0 else none
    numEntries := 1
    memoryUsage := 640
    pendingLoads := if map.isSome then [] else [0]
    nextRequest := 1
    nextEntry := 1
    trace := if map.isSome then [.scheduled 0 0 false true] else [] }

theorem wf_lobby (map : Option TcMap) : (store (lobby map)).Wf where
  nodup := List.nodup_singleton 0
  linked_iff := fun e => by
    show e ∈ [0] ↔ (((lobby map).entries e).map stored).isSome
    by_cases h : e = 0 <;> simp [lobby, h]
  fresh := fun e he => by
    rw [List.mem_singleton.mp he]
    exact Nat.one_pos
  pendingNodup := by cases map <;> simp [store, lobby]
  pending := fun e he => by
    cases map with
    | none => exact ⟨{ key := "lobby.cw", map := none, memoryUsage := 640 }, by simp_all [store, lobby, stored], rfl⟩
    | some m => simp [store, lobby] at he

theorem newRequests_lobby (map : Option TcMap) : NewRequests (lobby map) := by
  intro r hr
  have hne : hits r 0 = 0 := if_neg (Nat.ne_of_lt hr)
  cases map <;> simp [place, answers, waiting, lobby, tcMapCacheInit, answer, inBacklog, backlogOf, hne]

/-- A request for a map that is loaded. -/
theorem answered_once_loaded :
    ∃ s, run (cacheStep someSizes) (lobby (some Map.oneBlock)) [openLobby, .invoke 0 .accepted] = some s ∧
      s.nextRequest = 2 ∧ answers 1 s ≤ 1 ∧ (waiting 1 s = 0 ↔ answers 1 s = 1) ∧
      ∀ e continued loaded, Event.scheduled 1 e continued loaded ∈ s.trace → loaded = true := by
  have hgood : Along (cacheStep someSizes) FindsLoaded (lobby (some Map.oneBlock)) [openLobby, .invoke 0 .accepted] := by
    refine ⟨fun e he => ?_, fun _ _ => ⟨trivial, fun _ _ => trivial⟩⟩
    obtain rfl : 0 = e := Option.some.inj he
    rfl
  exact ⟨_, rfl, rfl, answered_once (wf_lobby _) (newRequests_lobby _) hgood rfl (by decide) (by decide)⟩

/-- A request that comes while the map is loading: it is answered at once, with
a map that is not loaded, and again after the load. -/
theorem answered_twice :
    ∃ s, run (cacheStep someSizes) (lobby none)
        [openLobby, .invoke 0 .accepted, .load 0 (some Map.oneBlock) fun _ => .accepted] = some s ∧
      s.trace = [.scheduled 1 0 false false, .scheduled 0 0 false true, .scheduled 1 0 false true] ∧
      answers 1 s = 2 :=
  ⟨_, rfl, rfl, rfl⟩

end TC.Proof.Cache
