import TeleClassic.Impl.MapCache
import Mathlib.Logic.Relation

/-!
# What a step of the map cache can do

`Step` lists the steps of the cache with what each of them needs and does, and
`step_of_cacheStep` says that there are no others. The branches of the code are
split here only. An eviction is a sequence of moves (`evict_moves`): the flags of
an entry change, the clock hand moves, or a loaded entry that nobody has open is
dropped. A dispatch of the backlog of an entry is a sequence of dispatches
(`scheduleBacklog_rule`).
-/

namespace TC.Proof.Cache

open TC.Impl.Map TC.Impl.TaskBacklog TC.Impl.MapCache
open TC.Impl.ThreadPool (Priority)

variable {e : Nat} {s : Cache}

/-! ## Entries -/

@[simp]
theorem setEntry_self (s : Cache) (e : Nat) (en : Option Entry) : (s.setEntry e en).entries e = en :=
  Function.update_self ..

theorem setEntry_of_ne (s : Cache) {e' : Nat} (en : Option Entry) (h : e' ≠ e) :
    (s.setEntry e en).entries e' = s.entries e' :=
  Function.update_of_ne h ..

theorem modify_eq {en : Entry} (h : s.entries e = some en) (f : Entry → Entry) :
    s.modify e f = s.setEntry e (some (f en)) := by
  rw [Cache.modify, h, Option.map_some]

theorem modify_of_none (h : s.entries e = none) (f : Entry → Entry) : s.modify e f = s := by
  rw [Cache.modify, h, Option.map_none, Cache.setEntry, ← h, Function.update_eq_self]

section

variable {α : Type} {g : Entry → α}

/-- An entry that looks the same through `g`. -/
theorem map_setEntry {en en' : Entry} (h : s.entries e = some en) (hg : g en' = g en) :
    (fun x => ((s.setEntry e (some en')).entries x).map g) = fun x => (s.entries x).map g := by
  funext x
  by_cases hx : x = e
  · subst hx
    rw [setEntry_self, h, Option.map_some, Option.map_some, hg]
  · rw [setEntry_of_ne s _ hx]

theorem map_modify {f : Entry → Entry} (hg : ∀ en, g (f en) = g en) :
    (fun x => ((s.modify e f).entries x).map g) = fun x => (s.entries x).map g := by
  cases h : s.entries e with
  | none => rw [modify_of_none h]
  | some en =>
    rw [modify_eq h]
    exact map_setEntry h (hg en)

end

theorem lockFree_iff : s.lockFree e = true ↔ ∃ en, s.entries e = some en ∧ en.locked = false := by
  rw [Cache.lockFree]
  cases s.entries e <;> simp

/-! ## Evictions -/

inductive EvictMove : Cache → Cache → Prop where
  | flags {s : Cache} {e : Nat} {en : Entry} (isReferenced locked : Bool) (live : s.entries e = some en) :
      EvictMove s (s.setEntry e (some { en with isReferenced := isReferenced, locked := locked }))
  | hand {s : Cache} (h : Option Nat) : EvictMove s { s with clockHand := h }
  | drop {s : Cache} {e : Nat} {en : Entry} (live : s.entries e = some en) (loaded : en.isLoaded = true)
      (closed : en.openCount = 0) (unreferenced : en.isReferenced = false) (free : en.locked = false) :
      EvictMove s (dropEntry e en s)

abbrev EvictMoves : Cache → Cache → Prop := Relation.ReflTransGen EvictMove

theorem EvictMoves.modify (e : Nat) : EvictMoves s (s.modify e fun en => { en with locked := false }) := by
  cases h : s.entries e with
  | none => rw [modify_of_none h]
  | some en =>
    rw [modify_eq h]
    exact .single (.flags en.isReferenced false h)

theorem evictLoop_moves (n : Nat) (current : Option Nat) (s : Cache) :
    EvictMoves s (evictLoop n current s).1 := by
  induction n generalizing current s with
  | zero => exact .refl
  | succ n ih =>
    rw [evictLoop]
    split
    · exact .refl
    rename_i e _
    split
    · exact .refl
    rename_i en hen
    split
    · exact .refl
    rename_i hfree
    split
    · -- not loaded: this lock stays held, the one before is returned
      have hheld : EvictMove s (s.setEntry e (some { en with locked := true })) :=
        .flags en.isReferenced true hen
      dsimp only
      split
      · exact .single hheld
      · rename_i prev _
        exact (Relation.ReflTransGen.single hheld).trans ((EvictMoves.modify prev).trans (ih _ _))
    rename_i hloaded
    split
    · rename_i hclosed
      split
      · exact .head (.flags false true hen) (ih _ _)
      · rename_i hreferenced
        have hdrop : EvictMove s (dropEntry e en s) :=
          .drop hen (by simpa using hloaded) hclosed (by simpa using hreferenced) (by simpa using hfree)
        dsimp only
        split
        · exact .tail (.single hdrop) (.hand _)
        · exact .head hdrop (ih _ _)
    · exact ih _ _

theorem evict_moves (s : Cache) :
    ∃ s' stuck crashed, EvictMoves s s' ∧
      tcMapCacheEvict s = { s' with stuck := stuck, crashed := crashed } := by
  rw [tcMapCacheEvict]
  split
  · exact ⟨s, s.stuck, s.crashed, .refl, rfl⟩
  · rename_i head _ _
    dsimp only
    have hmoves := evictLoop_moves (maxIters s.numEntries) s.linked.getLast? { s with clockHand := s.clockHand <|> some head }
    have hall := Relation.ReflTransGen.head (.hand (s.clockHand <|> some head)) hmoves
    split
    · rename_i s' he
      rw [he] at hall
      exact ⟨s', s'.stuck, s'.crashed, hall, rfl⟩
    · rename_i s' he
      rw [he] at hall
      exact ⟨s', true, s'.crashed, hall, rfl⟩
    · rename_i s' he
      rw [he] at hall
      exact ⟨s', s'.stuck, true, hall, rfl⟩

theorem calls_of_evictMoves {s' : Cache} (h : EvictMoves s s') :
    s'.invoking = s.invoking ∧ s'.nextRequest = s.nextRequest := by
  induction h with
  | refl => exact ⟨rfl, rfl⟩
  | tail _ hmove ih =>
    cases hmove with
    | flags | hand | drop => exact ih

/-! ## Dispatches -/

/-- What each dispatch and each failure keeps, with one request less to go, a
dispatch of the whole backlog keeps. -/
theorem scheduleBacklog_rule {S : Type} {h : Handlers S} {result : Bool} {current : Priority}
    {outcomes : Nat → Dispatch} {P : List Request → S → Prop}
    (hfail : ∀ r rs s, result = false → P (r :: rs) s → P rs (h.failure r s))
    (hdispatch : ∀ r rs s next o, result = true → P (r :: rs) s → P rs (dispatch h r next o s))
    (i : Nat) (continued : Bool) (rs : List Request) {s : S} (hs : P rs s) :
    P [] (tcTaskScheduleBacklog h result current outcomes i continued rs s) := by
  induction rs generalizing i continued s with
  | nil => exact hs
  | cons r rs ih =>
    rw [tcTaskScheduleBacklog]
    cases hr : result with
    | false =>
      subst hr
      exact ih _ _ (hfail r rs s rfl hs)
    | true =>
      subst hr
      exact ih _ _ (hdispatch r rs s _ _ rfl hs)

def isAnswer : Event → Bool
  | .scheduled _ _ _ _ => true
  | .failed _ => true
  | _ => false

def calmEntry (en : Entry) : Entry := { en with openCount := 0, isReferenced := false, locked := false }

/-- A cache less the answers in its trace, and the counts and flags of its entries. -/
def calm (s : Cache) : Cache :=
  { s with entries := fun e => (s.entries e).map calmEntry, trace := s.trace.filter fun event => !isAnswer event }

/-- What does not look at answers, counts and flags. -/
theorem of_calm {X : Type} {f : Cache → X} (hf : ∀ s, f (calm s) = f s) {s s' : Cache} (h : calm s' = calm s) :
    f s' = f s := by
  rw [← hf, h, hf]

theorem calm_note (s : Cache) {event : Event} (h : isAnswer event = true) : calm (s.note event) = calm s := by
  simp [calm, Cache.note, h]

theorem calm_modify {f : Entry → Entry} (hf : ∀ en, calmEntry (f en) = calmEntry en) :
    calm (s.modify e f) = calm s :=
  congrArg (fun entries => { calm s with entries }) (map_modify hf)

/-- It changes nothing but the counts and flags of entries. -/
structure Counting (f : Cache → Cache) : Prop where
  calm : ∀ s, calm (f s) = calm s
  trace : ∀ s, (f s).trace = s.trace

theorem counting_id : Counting id := ⟨fun _ => rfl, fun _ => rfl⟩

theorem counting_ref (e : Nat) : Counting (tcMapNolockRef e) := ⟨fun _ => calm_modify fun _ => rfl, fun _ => rfl⟩

theorem counting_unref (e : Nat) : Counting (tcMapNolockUnref e) :=
  ⟨fun _ => calm_modify fun _ => rfl, fun _ => rfl⟩

section

variable {aquire release : Cache → Cache} (haquire : Counting aquire) (hrelease : Counting release)

include haquire hrelease

theorem calm_dispatch (r : Request) (continued : Bool) (o : Dispatch) (s : Cache) :
    calm (dispatch (handlers e aquire release) r continued o s) = calm s := by
  cases o with
  | noArgs => exact calm_note s rfl
  | refused =>
    show calm (release ((aquire s).note (.failed r.id))) = _
    rw [hrelease.calm, calm_note _ rfl, haquire.calm]
  | accepted =>
    show calm ((aquire s).note _) = _
    rw [calm_note _ rfl, haquire.calm]

theorem calm_scheduleBacklog (result : Bool) (outcomes : Nat → Dispatch) (rs : List Request) (s : Cache) :
    calm (tcTaskScheduleBacklog (handlers e aquire release) result .blocking outcomes 0 false rs s) = calm s :=
  scheduleBacklog_rule (P := fun _ t => calm t = calm s) (fun _ _ t _ h => (calm_note t rfl).trans h)
    (fun r _ t next o _ h => (calm_dispatch haquire hrelease r next o t).trans h) 0 false rs rfl

end

section

variable {outcomes : Nat → Dispatch} {rs : List Request}

theorem calm_invokeHandler (c : Invoking) (o : Dispatch) (s : Cache) : calm (invokeHandler c o s) = calm s :=
  calm_dispatch (counting_ref c.entry) (counting_ref c.entry) c.call.request _ o s

/-- A load that has failed. -/
theorem calm_backlogFailed :
    calm (tcTaskScheduleBacklog (handlers e id id) false .blocking outcomes 0 false rs s) = calm s :=
  calm_scheduleBacklog counting_id counting_id false outcomes rs s

/-- A load that has ended with a map. -/
theorem calm_backlogLoaded : calm (tcTaskScheduleBacklog (handlers e (tcMapNolockRef e) (tcMapNolockUnref e)) true
    .blocking outcomes 0 false rs s) = calm s :=
  calm_scheduleBacklog (counting_ref e) (counting_unref e) true outcomes rs s

end

/-! ## Steps -/

/-- The cache after the section of a call that found the entry `e`. -/
def opened (call : Open) (e : Nat) (en : Entry) (writer alloc : Bool) (s : Cache) : Cache :=
  { s.setEntry e (some (if !en.isLoaded then
      { en with backlog := (tcTaskBacklogPush en.backlog call.request alloc).getD en.backlog }
    else { en with openCount := en.openCount + 1, isReferenced := true })) with
    invoking := s.invoking ++ [{ call, entry := e, writer }] }

/-- The call that makes the next request. -/
def nextCall (s : Cache) (name : String) (priority : Priority) (current : Option Priority) : Open :=
  { request := { id := s.nextRequest, priority }, name, current }

/-- The entry `e` with a map in it, before its backlog is dispatched. -/
def published (sizes : Sizes) (e : Nat) (en : Entry) (m : TcMap) (s : Cache) : Cache :=
  { s.setEntry e (some { en with
      map := some m, memoryUsage := en.memoryUsage + tcMapGetMemoryUsage sizes m }) with
    pendingLoads := s.pendingLoads.erase e
    checking := s.checking + 1 }

inductive Step (sizes : Sizes) : Cache → Label → Cache → Prop where
  /-- A name that is not in the index. -/
  | wait {s : Cache} {name : String} {priority : Priority} {current : Option Priority} {alloc : Bool}
      (absent : s.idToIndex name = none) :
      Step sizes s (.open_ name priority current alloc)
        { s with
          nextRequest := s.nextRequest + 1
          upgrading := s.upgrading ++ [nextCall s name priority current] }
  | found {s : Cache} {name : String} {priority : Priority} {current : Option Priority} {alloc : Bool}
      {e : Nat} {en : Entry} (at_ : s.idToIndex name = some e) (live : s.entries e = some en) :
      Step sizes s (.open_ name priority current alloc)
        (opened (nextCall s name priority current) e en false alloc { s with nextRequest := s.nextRequest + 1 })
  | upgraded {s : Cache} {i : Nat} {c : Creation} {alloc : Bool} {call : Open} {e : Nat} {en : Entry}
      (waiting : s.upgrading[i]? = some call) (at_ : s.idToIndex call.name = some e)
      (live : s.entries e = some en) :
      Step sizes s (.upgrade i c alloc)
        (opened call e en true alloc { s with upgrading := s.upgrading.eraseIdx i })
  | create {s : Cache} {i : Nat} {c : Creation} {alloc : Bool} {call : Open}
      (waiting : s.upgrading[i]? = some call) (absent : s.idToIndex call.name = none) :
      Step sizes s (.upgrade i c alloc)
        (createEntry sizes call c { s with upgrading := s.upgrading.eraseIdx i })
  | invoke {s : Cache} {i : Nat} {o : Dispatch} {c : Invoking} (waiting : s.invoking[i]? = some c) :
      Step sizes s (.invoke i o) (invokeHandler c o { s with invoking := s.invoking.eraseIdx i })
  | loadFailed {s : Cache} {e : Nat} {outcomes : Nat → Dispatch} {en : Entry}
      (pending : e ∈ s.pendingLoads) (live : s.entries e = some en) (free : en.locked = false) :
      Step sizes s (.load e none outcomes)
        (tcTaskScheduleBacklog (handlers e id id) false .blocking outcomes 0 false en.backlog
          { s with pendingLoads := s.pendingLoads.erase e })
  | loaded {s : Cache} {e : Nat} {m : TcMap} {outcomes : Nat → Dispatch} {en : Entry}
      (pending : e ∈ s.pendingLoads) (live : s.entries e = some en) (free : en.locked = false) :
      Step sizes s (.load e (some m) outcomes)
        (tcTaskScheduleBacklog (handlers e (tcMapNolockRef e) (tcMapNolockUnref e)) true .blocking
          outcomes 0 false en.backlog (published sizes e en m s))
  | check {s s' : Cache} {stuck crashed : Bool} (idle : s.invoking = [])
      (moves : EvictMoves { s with checking := s.checking - 1 } s') :
      Step sizes s .check { s' with stuck := stuck, crashed := crashed }
  | ref {s : Cache} {e : Nat} {en : Entry} (live : s.entries e = some en) (free : en.locked = false) :
      Step sizes s (.ref e) ((tcMapNolockRef e s).note (.referenced e))
  | unref {s : Cache} {e : Nat} {en : Entry} (live : s.entries e = some en) (free : en.locked = false) :
      Step sizes s (.unref e) ((tcMapNolockUnref e s).note (.unreferenced e))
  | write {s : Cache} {e : Nat} {w : BlockWrite} {en : Entry} {m m' : TcMap} (live : s.entries e = some en)
      (loaded : en.map = some m) (inside : tcMapSetBlockIndex m w.x w.y w.z w.block = some m') :
      Step sizes s (.setBlock e w)
        ((s.setEntry e (some { en with map := some m' })).note (.wrote en.key w))

theorem openFromEntry_eq {call : Open} {writer alloc : Bool} {s' : Cache}
    (h : tcMapCacheOpenFromEntry call e writer alloc s = some s') :
    ∃ en, s.entries e = some en ∧ s' = opened call e en writer alloc s := by
  rw [tcMapCacheOpenFromEntry] at h
  split at h
  · cases h
  · rename_i en hen
    split at h
    · cases h
    · exact ⟨en, hen, (Option.some.inj h).symm⟩

section

variable {sizes : Sizes} {s' : Cache}

theorem step_of_open {name : String} {priority : Priority} {current : Option Priority} {alloc : Bool}
    (h : tcMapCacheScheduleOpen name priority current alloc s = some s') :
    Step sizes s (.open_ name priority current alloc) s' := by
  simp only [tcMapCacheScheduleOpen] at h
  split at h
  · split at h
    · rename_i e he
      obtain ⟨en, hen, rfl⟩ := openFromEntry_eq h
      exact .found he hen
    · rename_i he
      cases h
      exact .wait he
  · cases h

theorem step_of_upgrade {i : Nat} {c : Creation} {alloc : Bool}
    (h : scheduleOpenUpgraded sizes i c alloc s = some s') : Step sizes s (.upgrade i c alloc) s' := by
  simp only [scheduleOpenUpgraded] at h
  split at h
  · split at h
    · cases h
    · rename_i call hcall
      split at h
      · rename_i e he
        obtain ⟨en, hen, rfl⟩ := openFromEntry_eq h
        exact .upgraded hcall he hen
      · rename_i he
        cases h
        exact .create hcall he
  · cases h

theorem step_of_invoke {i : Nat} {o : Dispatch} (h : invokeAt i o s = some s') : Step sizes s (.invoke i o) s' := by
  simp only [invokeAt] at h
  split at h
  · cases h
  · rename_i c hc
    cases h
    exact .invoke hc

theorem step_of_load {result : Option TcMap} {outcomes : Nat → Dispatch}
    (h : tcMapCacheLoadTask sizes e result outcomes s = some s') :
    Step sizes s (.load e result outcomes) s' := by
  simp only [tcMapCacheLoadTask] at h
  split at h
  · cases h
  · rename_i en hen
    split at h
    · cases h
    · rename_i hcond
      obtain ⟨hlocked, habsent⟩ := not_or.mp hcond
      have hfree : en.locked = false := by simpa using hlocked
      have hpending := Decidable.not_not.mp habsent
      cases result with
      | none =>
        cases h
        exact .loadFailed hpending hen hfree
      | some m =>
        cases h
        exact .loaded hpending hen hfree

theorem invoking_of_writable (h : s.writable = true) : s.invoking = [] := by
  simp only [Cache.writable, Bool.and_eq_true, List.isEmpty_iff] at h
  exact h.2

theorem step_of_check (h : checkEviction s = some s') : Step sizes s .check s' := by
  simp only [checkEviction] at h
  split at h
  · rename_i hcond
    have hidle := invoking_of_writable hcond.1
    cases h
    split
    · obtain ⟨s', stuck, crashed, hmoves, he⟩ := evict_moves { s with checking := s.checking - 1 }
      rw [he]
      exact .check hidle hmoves
    · exact .check hidle .refl
  · cases h

theorem step_of_ref (h : tcMapRef e s = some s') : Step sizes s (.ref e) s' := by
  simp only [tcMapRef] at h
  split at h
  · rename_i hfree
    obtain ⟨en, hen, hfree⟩ := lockFree_iff.mp hfree
    cases h
    exact .ref hen hfree
  · cases h

theorem step_of_unref (h : tcMapUnref e s = some s') : Step sizes s (.unref e) s' := by
  simp only [tcMapUnref] at h
  split at h
  · rename_i hfree
    obtain ⟨en, hen, hfree⟩ := lockFree_iff.mp hfree
    cases h
    exact .unref hen hfree
  · cases h

theorem step_of_setBlock {w : BlockWrite} (h : setBlock e w s = some s') :
    Step sizes s (.setBlock e w) s' := by
  simp only [setBlock, bind, Option.bind_eq_some_iff] at h
  obtain ⟨en, hen, m, hm, m', hm', h⟩ := h
  cases h
  exact .write hen hm hm'

/-- Every step of the cache is one of these. -/
theorem step_of_cacheStep {l : Label} (h : cacheStep sizes s l = some s') : Step sizes s l s' := by
  unfold cacheStep at h
  split at h
  · cases h
  cases l with
  | open_ => exact step_of_open h
  | upgrade => exact step_of_upgrade h
  | invoke => exact step_of_invoke h
  | load => exact step_of_load h
  | check => exact step_of_check h
  | ref => exact step_of_ref h
  | unref => exact step_of_unref h
  | setBlock => exact step_of_setBlock h

end

end TC.Proof.Cache
