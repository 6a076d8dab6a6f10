import TeleClassic.Framework.LinkedList
import TeleClassic.Framework.Prog
import TeleClassic.Impl.MapCache

/-!
# The map cache in memory (`map_cache.c`)

`MapCache.lean` has the entries of the cache as a list. Here they are linked
with each other, as the code has them, and the functions that follow the links
are given once more: `tc_map_cache_link_entry`, `tc_map_cache_unlink_entry`,
`tc_map_cache_evict` and the part of `tc_map_cache_schedule_open` that creates an
entry. The list itself (`Cache.linked`) is only a ghost here: nothing reads it.
So are the `acts`, which are what the last eviction did to the locks of entries.

`tc_map_cache_schedule_open` is a program over the memory that it allocates
(`Heap`): it stops where it uses or frees memory that is not allocated.
-/

namespace TC.Impl.CacheList

open TC.Impl.Map TC.Impl.TaskBacklog TC.Impl.MapCache
open Prog (ask get modify)

inductive Act where
  | lock (entry : Nat)
  | unlock (entry : Nat)
  | free (entry : Nat)
deriving DecidableEq, Repr

/-- `tc_map_cache_t`. -/
structure LinkedCache extends Cache where
  list : LinkedList Nat
  acts : List Act

def tcMapCacheInit (memoryUsageThreshold : BitVec 64) : LinkedCache where
  toCache := MapCache.tcMapCacheInit memoryUsageThreshold
  list := .empty
  acts := []

def LinkedCache.setEntry (s : LinkedCache) (e : Nat) (en : Option Entry) : LinkedCache :=
  { s with toCache := s.toCache.setEntry e en }

def LinkedCache.act (s : LinkedCache) (act : Act) : LinkedCache := { s with acts := s.acts ++ [act] }

/-! ## The list -/

/-- `none` where it follows a link to memory that is not allocated. -/
def tcMapCacheLinkEntry (e : Nat) (s : LinkedCache) : Option LinkedCache := do
  let list ← s.list.pushFront e
  let en ← s.entries e
  return { s with
    list := list
    linked := e :: s.linked
    memoryUsage := s.memoryUsage + en.memoryUsage
    numEntries := s.numEntries + 1 }

/-- The entry is freed. -/
def tcMapCacheUnlinkEntry (e : Nat) (s : LinkedCache) : Option LinkedCache := do
  let list ← s.list.remove e
  let en ← s.entries e
  return { s.setEntry e none with
    list := list
    linked := s.linked.erase e
    memoryUsage := s.memoryUsage - en.memoryUsage
    numEntries := s.numEntries - 1 }

/-! ## Eviction -/

/-- How an eviction ends: it waits for a lock, it uses `NULL`, or it uses an
entry that has been freed. -/
inductive Pass where
  | done
  | blocked
  | null
  | dangling
deriving DecidableEq, Repr

/-- What follows an iteration: the next one, with its `current_entry`, or the
end. -/
inductive Next where
  | go (current : Option Nat)
  | stop (pass : Pass)
deriving DecidableEq, Repr

/-- The branch that evicts a map, after which the threshold is looked at. -/
def dropEntry (e : Nat) (en : Entry) (prev : Option Nat) (s : LinkedCache) : Option LinkedCache := do
  let s ← tcMapCacheUnlinkEntry e
    { s with idToIndex := fun name => if name = en.key then none else s.idToIndex name }
  return { s with
    clockHand := if s.clockHand = some e then prev else s.clockHand
    trace := s.trace ++ [.evicted e (en.map.any TcMap.isDirty)]
    acts := s.acts ++ [.unlock e, .free e] }

/-- One iteration of the loop. -/
def evictIter (current : Option Nat) (s : LinkedCache) : Next × LinkedCache :=
  match current <|> s.list.tail with
  | none => (.stop .null, s)
  | some e =>
    match s.entries e, s.list.cells e with
    | some en, some cell =>
      if en.locked then (.stop .blocked, s)
      else
        let s := (s.setEntry e (some { en with locked := true })).act (.lock e)
        if !en.isLoaded then
          -- it is the lock of the previous entry that is returned
          match cell.prev with
          | none => (.stop .null, s)
          | some prev =>
            match s.entries prev with
            | none => (.stop .dangling, s)
            | some prevEn =>
              (.go (some prev), (s.setEntry prev (some { prevEn with locked := false })).act (.unlock prev))
        else if en.openCount = 0 then
          if en.isReferenced then
            (.go cell.prev, s.setEntry e (some { en with isReferenced := false, locked := true }))
          else
            match dropEntry e en cell.prev s with
            | none => (.stop .dangling, s)
            | some s =>
              if s.memoryUsage < s.memoryUsageThreshold then
                (.stop .done, { s with clockHand := s.clockHand <|> s.list.tail })
              else (.go cell.prev, s)
        else (.go cell.prev, (s.setEntry e (some { en with locked := false })).act (.unlock e))
    | _, _ => (.stop .dangling, s)

/-- The loop, with the number of iterations left and `current_entry`. -/
def evictLoop : Nat → Option Nat → LinkedCache → Pass × LinkedCache
  | 0, _, s => (.done, s)
  | n + 1, current, s =>
    match evictIter current s with
    | (.go current, s) => evictLoop n current s
    | (.stop pass, s) => (pass, s)

def tcMapCacheEvict (s : LinkedCache) : Pass × LinkedCache :=
  let s := { s with acts := [] }
  match s.list.head with
  | none => (.done, s)
  | some head =>
    let s := { s with clockHand := s.clockHand <|> some head }
    evictLoop (maxIters s.numEntries) s.list.tail s

/-- The cache after an eviction that has ended, that waits with the writer lock
held, or that has crashed. -/
def settle : Pass × LinkedCache → LinkedCache
  | (.done, s) => s
  | (.blocked, s) => { s with stuck := true }
  | (_, s) => { s with crashed := true }

/-- The end of `tc_map_cache_load_task`. -/
def checkEviction (s : LinkedCache) : Option LinkedCache :=
  if s.writable ∧ 0 < s.checking then
    let s := { s with checking := s.checking - 1 }
    some (if s.memoryUsage > s.memoryUsageThreshold then settle (tcMapCacheEvict s) else s)
  else none

/-! ## Opening -/

/-- What `tc_map_cache_schedule_open` allocates: an entry with its mutex and its
key, the arguments of the load task, and a block of the entry's backlog. -/
inductive Resource where
  | entry
  | mutex
  | key
  | args
  | block
deriving DecidableEq, Repr

inductive Status where
  | unallocated
  | live
  | freed
deriving DecidableEq, Repr

/-- The lock of the cache. -/
inductive RwLock where
  | free
  | reading
  | writing
deriving DecidableEq, Repr

/-- The cache, and what one call has allocated. -/
structure Heap where
  cache : LinkedCache
  status : Resource → Status
  lock : RwLock

/-- At the start of a call that finds the lock free. -/
def Heap.start (s : LinkedCache) (lock : RwLock) : Heap := { cache := s, status := fun _ => .unallocated, lock }

/-- What the functions return that are called: how far the creation gets,
whether a block of the backlog of another entry can be allocated, and how the
scheduling of the success handler goes. -/
structure Outcomes where
  creation : Creation
  alloc : Bool
  dispatch : Dispatch

abbrev OpenM := Prog Outcomes Heap

/-- What the creation comes to if a resource cannot be allocated. -/
def Resource.failure : Resource → Creation
  | .entry => .noEntry
  | .mutex => .noLock
  | .key => .noKey
  | .args => .noArgs
  | .block => .noBlock

def alloc (r : Resource) : OpenM Bool := fun o h =>
  if o.creation = r.failure then (some false, h)
  else (some true, { h with status := Function.update h.status r .live })

def use (r : Resource) : OpenM Unit := fun _ h => if h.status r = .live then (some (), h) else (none, h)

def free (r : Resource) : OpenM Unit := fun _ h =>
  if h.status r = .live then (some (), { h with status := Function.update h.status r .freed }) else (none, h)

def setLock (lock : RwLock) : OpenM Unit := modify fun h => { h with lock }

/-- A change of the cache. -/
def onCache (f : LinkedCache → Option LinkedCache) : OpenM Unit := fun _ h =>
  match f h.cache with
  | some s => (some (), { h with cache := s })
  | none => (none, h)

/-- `p_mutex_free (new_entry->lock)`. -/
def freeMutex : OpenM Unit := do
  use .entry
  free .mutex

/-- `p_free (new_entry->key)`. -/
def freeKey : OpenM Unit := do
  use .entry
  free .key

/-- `tc_task_backlog_finalize (&new_entry->backlog)`, of a backlog of one block
at most. -/
def finalizeBacklog : OpenM Unit := do
  use .entry
  if (← get).status .block ≠ .unallocated then free .block

/-- `tc_task_backlog_invoke_handler` without a result. -/
def invokeFailure (call : Open) : OpenM Unit :=
  onCache fun s => some { s with trace := s.trace ++ [.failed call.request.id] }

/-- `tc_map_cache_unlink_entry (cache, new_entry)`. -/
def unlinkNewEntry (e : Nat) : OpenM Unit := do
  use .entry
  onCache (tcMapCacheUnlinkEntry e)
  use .mutex
  free .mutex
  free .key
  free .entry

/-- The fields of the new entry are set, and its lock is taken. -/
def initEntry (sizes : Sizes) (call : Open) (e : Nat) (s : LinkedCache) : Option LinkedCache :=
  some { s.setEntry e (some { newEntry sizes call with locked := true }) with list := s.list.alloc e }

/-- `tc_thread_schedule_new` with the load task. -/
def scheduleLoad (e : Nat) : OpenM Bool := fun o h =>
  if o.creation = .notScheduled then (some false, h)
  else
    (some true, { h with cache := { h.cache with
      pendingLoads := h.cache.pendingLoads ++ [e]
      nextEntry := e + 1 } })

/-- The end of `tc_map_cache_schedule_open`, once everything is allocated: the
entry is linked, and its load is scheduled. -/
def publishEntry (sizes : Sizes) (call : Open) (e : Nat) : OpenM Unit := do
  use .entry
  use .mutex
  onCache (initEntry sizes call e)
  onCache (tcMapCacheLinkEntry e)
  if !(← scheduleLoad e) then
    unlinkNewEntry e
    use .entry
    use .mutex
    free .args
    freeMutex
    freeKey
    finalizeBacklog
    free .entry
    setLock .free
    invokeFailure call
    return
  use .entry
  use .mutex
  onCache fun s => some (s.setEntry e (some (newEntry sizes call)))
  setLock .free

/-- The part of `tc_map_cache_schedule_open` that creates an entry. -/
def createEntry (sizes : Sizes) (call : Open) : OpenM Unit := do
  let e := (← get).cache.nextEntry
  if !(← alloc .entry) then
    setLock .free
    invokeFailure call
    return
  use .entry
  if !(← alloc .mutex) then
    free .entry
    setLock .free
    invokeFailure call
    return
  use .entry
  if !(← alloc .key) then
    freeMutex
    free .entry
    setLock .free
    invokeFailure call
    return
  if !(← alloc .args) then
    freeMutex
    freeKey
    free .entry
    setLock .free
    invokeFailure call
    return
  use .args
  use .entry
  if !(← alloc .block) then
    freeMutex
    freeKey
    finalizeBacklog
    free .entry
    setLock .free
    free .args
    invokeFailure call
    return
  publishEntry sizes call e

/-- `tc_map_cache_open_from_entry`. -/
def openFromEntry (call : Open) (e : Nat) (writer : Bool) : OpenM Unit := do
  let o ← ask
  onCache fun s => (tcMapCacheOpenFromEntry call e writer o.alloc s.toCache).map fun t =>
    { s with toCache := invokeHandler { call, entry := e, writer } o.dispatch { t with invoking := s.invoking } }

def tcMapCacheScheduleOpen (sizes : Sizes) (call : Open) : OpenM Unit := do
  setLock .reading
  match (← get).cache.idToIndex call.name with
  | some e =>
    openFromEntry call e false
    setLock .free
  | none =>
    setLock .free
    setLock .writing
    match (← get).cache.idToIndex call.name with
    | some e =>
      openFromEntry call e true
      setLock .free
    | none => createEntry sizes call

/-! ## Steps -/

/-- The cache after a call that has returned or crashed. -/
def afterCall : Option Unit × Heap → LinkedCache
  | (some _, h) => h.cache
  | (none, h) => { h.cache with crashed := true }

/-- `tc_map_cache_schedule_open` with the writer lock. -/
def scheduleOpenUpgraded (sizes : Sizes) (i : Nat) (c : Creation) (alloc : Bool) (s : LinkedCache) :
    Option LinkedCache :=
  if s.writable then
    match s.upgrading[i]? with
    | none => none
    | some call =>
      let s' := { s with upgrading := s.upgrading.eraseIdx i }
      match s.idToIndex call.name with
      | some e => (tcMapCacheOpenFromEntry call e true alloc s'.toCache).map fun t => { s with toCache := t }
      | none => some (afterCall (createEntry sizes call { creation := c, alloc, dispatch := .noArgs } (.start s' .writing)))
  else none

/-- The steps that follow no links are those of the cache with a list. -/
def linkedStep (sizes : Sizes) (s : LinkedCache) (l : Label) : Option LinkedCache :=
  if s.crashed then none
  else
    match l with
    | .upgrade i c alloc => scheduleOpenUpgraded sizes i c alloc s
    | .check => checkEviction s
    | l => (cacheStep sizes s.toCache l).map fun t => { s with toCache := t }

end TC.Impl.CacheList
