import TeleClassic.Proof.Cache.Steps

/-!
# What the cache stores

`Store` is the cache as a store of maps: its entries with their maps and what
they count for, the list and the index, the loads to come, the blocks written
and the maps dropped so far. Requests, references and locks are left out.
`store_step` says what each step does to it: a new entry is linked, a load ends
or publishes its map, a block is written, entries are dropped, and nothing else.
-/

namespace TC.Proof.Cache

open TC.Impl.Map TC.Impl.MapCache

variable {s s' : Cache}

structure Stored where
  key : String
  map : Option TcMap
  memoryUsage : BitVec 64

structure Store where
  entries : Nat → Option Stored
  linked : List Nat
  idToIndex : String → Option Nat
  memoryUsage : BitVec 64
  pendingLoads : List Nat
  nextEntry : Nat
  writes : List (String × BlockWrite)
  /-- For each map that was dropped, whether it was dirty. -/
  dropped : List Bool

def stored (en : Entry) : Stored := { key := en.key, map := en.map, memoryUsage := en.memoryUsage }

def write? : Event → Option (String × BlockWrite)
  | .wrote key w => some (key, w)
  | _ => none

def dropped? : Event → Option Bool
  | .evicted _ dirty => some dirty
  | _ => none

def store (s : Cache) : Store where
  entries e := (s.entries e).map stored
  linked := s.linked
  idToIndex := s.idToIndex
  memoryUsage := s.memoryUsage
  pendingLoads := s.pendingLoads
  nextEntry := s.nextEntry
  writes := s.trace.filterMap write?
  dropped := s.trace.filterMap dropped?

/-! ## What happens to a store -/

namespace Store

def set (v : Store) (e : Nat) (x : Option Stored) : Store := { v with entries := Function.update v.entries e x }

/-- A new entry at the head of the list. -/
def link (sizes : Sizes) (name : String) (v : Store) : Store :=
  { v.set v.nextEntry (some { key := name, map := none, memoryUsage := sizes.mapCacheEntry }) with
    linked := v.nextEntry :: v.linked
    memoryUsage := v.memoryUsage + sizes.mapCacheEntry
    pendingLoads := v.pendingLoads ++ [v.nextEntry]
    nextEntry := v.nextEntry + 1 }

/-- The load of an entry has ended. -/
def unpend (e : Nat) (v : Store) : Store := { v with pendingLoads := v.pendingLoads.erase e }

def publish (sizes : Sizes) (e : Nat) (x : Stored) (m : TcMap) (v : Store) : Store :=
  (v.unpend e).set e (some { x with
    map := some m, memoryUsage := x.memoryUsage + tcMapGetMemoryUsage sizes m })

def write (e : Nat) (x : Stored) (m : TcMap) (w : BlockWrite) (v : Store) : Store :=
  { v.set e (some { x with map := some m }) with writes := v.writes ++ [(x.key, w)] }

def drop (e : Nat) (x : Stored) (v : Store) : Store :=
  { v.set e none with
    linked := v.linked.erase e
    idToIndex := fun name => if name = x.key then none else v.idToIndex name
    memoryUsage := v.memoryUsage - x.memoryUsage
    dropped := v.dropped ++ [x.map.any TcMap.isDirty] }

/-- A loaded entry is dropped. -/
inductive Drops : Store → Store → Prop where
  | drop {v : Store} {e : Nat} {x : Stored} (live : v.entries e = some x) (loaded : x.map.isSome) :
      Drops v (v.drop e x)

/-- What the step with a label does. -/
def Performs (sizes : Sizes) (v v' : Store) : Label → Prop
  | .upgrade _ c _ => v' = v ∨ ∃ name, c = .scheduled ∧ v.idToIndex name = none ∧ v' = v.link sizes name
  | .load e none _ => e ∈ v.pendingLoads ∧ v' = v.unpend e
  | .load e (some m) _ => ∃ x, e ∈ v.pendingLoads ∧ v.entries e = some x ∧ v' = v.publish sizes e x m
  | .check => Relation.ReflTransGen Drops v v'
  | .setBlock e w => ∃ x m m', v.entries e = some x ∧ x.map = some m ∧
      tcMapSetBlockIndex m w.x w.y w.z w.block = some m' ∧ v' = v.write e x m' w
  | _ => v' = v

/-- The step with this label gives a name an entry. -/
def Links : Label → Prop
  | .upgrade _ c _ => c = .scheduled
  | _ => False

/-- To be kept by a step is to be kept by each thing it can do. -/
theorem Performs.keeps {sizes : Sizes} {P : Store → Prop} {v v' : Store} {l : Label}
    (h : Performs sizes v v' l) (hv : P v) (hlink : ∀ name, Links l → P (v.link sizes name))
    (hunpend : ∀ e, P (v.unpend e))
    (hpublish : ∀ e m outcomes x, l = .load e (some m) outcomes → e ∈ v.pendingLoads → v.entries e = some x →
      P (v.publish sizes e x m))
    (hdrop : ∀ u e x, P u → u.entries e = some x → x.map.isSome → P (u.drop e x))
    (hwrite : ∀ e w x m m', l = .setBlock e w → v.entries e = some x → x.map = some m →
      tcMapSetBlockIndex m w.x w.y w.z w.block = some m' → P (v.write e x m' w)) : P v' := by
  cases l with
  | upgrade i c alloc =>
    obtain rfl | ⟨name, hc, -, rfl⟩ := h
    · exact hv
    · exact hlink name hc
  | load e result outcomes =>
    cases result with
    | none =>
      obtain ⟨-, rfl⟩ := h
      exact hunpend e
    | some m =>
      obtain ⟨x, hpending, hx, rfl⟩ := h
      exact hpublish e m outcomes x rfl hpending hx
  | check =>
    refine Relation.ReflTransGen.head_induction_on (motive := fun u _ => P u → P v') h id ?_ hv
    intro u u' hd _ ih hu
    cases hd with
    | drop live loaded => exact ih (hdrop u _ _ hu live loaded)
  | setBlock e w =>
    obtain ⟨x, m, m', hx, hm, hw, rfl⟩ := h
    exact hwrite e w x m m' rfl hx hm hw
  | open_ | invoke | ref | unref =>
    obtain rfl : v' = v := h
    exact hv

end Store

/-! ## Steps that do not change it -/

theorem store_setEntry (s : Cache) (e : Nat) (en : Option Entry) :
    store (s.setEntry e en) = (store s).set e (en.map stored) := by
  have hentries : (fun e' => ((s.setEntry e en).entries e').map stored) =
      Function.update (fun e' => (s.entries e').map stored) e (en.map stored) := by
    funext e'
    by_cases h : e' = e
    · subst h
      rw [setEntry_self, Function.update_self]
    · rw [setEntry_of_ne s en h, Function.update_of_ne h]
  simp only [store, hentries]
  rfl

/-- An entry whose counts and flags change. -/
theorem store_setEntry_of_stored {e : Nat} {en en' : Entry} (h : s.entries e = some en)
    (hstored : stored en' = stored en) : store (s.setEntry e (some en')) = store s :=
  congrArg (fun entries => { store s with entries }) (map_setEntry h hstored)

theorem store_modify {e : Nat} {f : Entry → Entry} (hf : ∀ en, stored (f en) = stored en) :
    store (s.modify e f) = store s :=
  congrArg (fun entries => { store s with entries }) (map_modify hf)

theorem store_note {event : Event} (hw : write? event = none) (hd : dropped? event = none) :
    store (s.note event) = store s := by
  simp [store, Cache.note, hw, hd]

theorem store_calm (s : Cache) : store (calm s) = store s := by
  have hfilter {X : Type} {g : Event → Option X} (hg : ∀ event, isAnswer event = true → g event = none) :
      (s.trace.filter fun event => !isAnswer event).filterMap g = s.trace.filterMap g := by
    rw [List.filterMap_filter]
    refine List.filterMap_congr fun event _ => ?_
    cases h : isAnswer event with
    | false => rfl
    | true => exact (hg event h).symm
  have hwrites := hfilter (g := write?) fun event h => by cases event <;> first | rfl | cases h
  have hdropped := hfilter (g := dropped?) fun event h => by cases event <;> first | rfl | cases h
  simp only [store, calm, Option.map_map, hwrites, hdropped]
  rfl

theorem store_opened {call : Open} {e : Nat} {en : Entry} {writer alloc : Bool} (h : s.entries e = some en) :
    store (opened call e en writer alloc s) = store s := by
  show store (s.setEntry e _) = store s
  refine store_setEntry_of_stored h ?_
  split
  · rfl
  · rfl

/-! ## Steps -/

theorem store_createEntry (sizes : Sizes) (call : Open) (c : Creation) (s : Cache) :
    store (createEntry sizes call c s) = store s ∨
      c = .scheduled ∧ store (createEntry sizes call c s) = (store s).link sizes call.name := by
  cases c with
  | scheduled =>
    refine .inr ⟨rfl, ?_⟩
    have hset := store_setEntry s s.nextEntry (some (newEntry sizes call))
    have hlink : (store s).link sizes call.name = { store (s.setEntry s.nextEntry (newEntry sizes call)) with
        linked := s.nextEntry :: s.linked, memoryUsage := s.memoryUsage + sizes.mapCacheEntry,
        pendingLoads := s.pendingLoads ++ [s.nextEntry], nextEntry := s.nextEntry + 1 } := by
      rw [hset]
      rfl
    rw [hlink]
    rfl
  | notScheduled => exact .inl rfl
  | noEntry | noLock | noKey | noArgs | noBlock => exact .inl (store_note rfl rfl)

theorem store_evictMove (h : EvictMove s s') : store s' = store s ∨ Store.Drops (store s) (store s') := by
  cases h with
  | flags isReferenced locked live => exact .inl (store_setEntry_of_stored live rfl)
  | hand h => exact .inl rfl
  | @drop e en live loaded =>
    refine .inr ?_
    have hset := store_setEntry s e none
    have hdrop : store (dropEntry e en s) = (store s).drop e (stored en) := by
      rw [Store.drop, ← Option.map_none (f := stored), ← hset]
      simp [store, dropEntry, tcMapCacheUnlinkEntry, Cache.note, write?, dropped?, Cache.setEntry, stored]
      rfl
    rw [hdrop]
    exact .drop (by simp [store, live]) loaded

theorem store_evictMoves (h : EvictMoves s s') :
    Relation.ReflTransGen Store.Drops (store s) (store s') := by
  induction h with
  | refl => exact .refl
  | tail _ hmove ih =>
    obtain hsame | hdrop := store_evictMove hmove
    · rw [hsame]
      exact ih
    · exact ih.tail hdrop

/-- What a step does to the store. -/
theorem store_step {sizes : Sizes} {l : Label} (h : Step sizes s l s') :
    Store.Performs sizes (store s) (store s') l := by
  cases h with
  | wait absent => rfl
  | found at_ live => exact store_opened (s := { s with nextRequest := s.nextRequest + 1 }) live
  | @upgraded i _ _ _ _ _ waiting at_ live =>
    exact .inl (store_opened (s := { s with upgrading := s.upgrading.eraseIdx i }) live)
  | @create i c _ call waiting absent =>
    obtain hsame | ⟨hc, hlink⟩ := store_createEntry sizes call c { s with upgrading := s.upgrading.eraseIdx i }
    · exact .inl hsame
    · exact .inr ⟨call.name, hc, absent, hlink⟩
  | @invoke i o c waiting =>
    exact (of_calm store_calm (calm_invokeHandler c o _)).trans rfl
  | @loadFailed e _ _ pending live =>
    refine ⟨pending, ?_⟩
    rw [of_calm store_calm calm_backlogFailed]
    rfl
  | @loaded e m _ en pending live =>
    refine ⟨stored en, pending, by simp [store, live], ?_⟩
    rw [of_calm store_calm calm_backlogLoaded]
    have hset := store_setEntry { s with pendingLoads := s.pendingLoads.erase e } e (some { en with
      map := some m, memoryUsage := en.memoryUsage + tcMapGetMemoryUsage sizes m })
    exact hset
  | check idle moves =>
    have hdrops := store_evictMoves moves
    exact hdrops
  | @ref e => exact (store_note rfl rfl).trans (of_calm store_calm ((counting_ref e).calm s))
  | @unref e => exact (store_note rfl rfl).trans (of_calm store_calm ((counting_unref e).calm s))
  | @write e w en m m' live loaded inside =>
    refine ⟨stored en, m, m', by simp [store, live], loaded, inside, ?_⟩
    have hset := store_setEntry s e (some { en with map := some m' })
    have hwrite : (store s).write e (stored en) m' w = { store (s.setEntry e (some { en with map := some m' })) with
        writes := (store s).writes ++ [(en.key, w)] } := by
      rw [hset]
      rfl
    rw [hwrite]
    simp [store, Cache.note, write?, dropped?, Cache.setEntry]

end TC.Proof.Cache
