import TeleClassic.Impl.MapFile
import TeleClassic.Impl.TaskBacklog

/-!
# The map cache (`map_cache.c`)

Entries in a list, newest first, with an index by name. The cache lock and the
locks of the entries cut its functions into critical sections, and a section is
one step:

* `tc_map_cache_schedule_open` looks a name up with the reader lock, and once
  more with the writer lock if there was nothing (`upgrading` are the calls in
  between); `tc_map_cache_open_from_entry` holds the entry's lock and then, with
  the cache lock still held, invokes the handler (`invoking`);
* `tc_map_cache_load_task` loads a map and dispatches the backlog with the
  entry's lock held (`pendingLoads`), and then checks for an eviction with the
  writer lock (`checking`).

`tc_map_cache_evict` leaves locks held. The lock of such an entry is `locked` for
good, and nothing that takes it can happen any more; an eviction that waits for
it keeps the writer lock (`stuck`). A use of freed memory or of `NULL` ends
everything (`crashed`). `trace` is a ghost: what became of the requests, the
references, the blocks written and the maps dropped.
-/

namespace TC.Impl.MapCache

open TC.Impl.Map TC.Impl.TaskBacklog
open TC.Impl.ThreadPool (Priority)

/-- The `sizeof`s of the structures that `tc_map_get_memory_usage` and the cache
count. -/
structure Sizes where
  map : BitVec 64
  mapCacheEntry : BitVec 64
  customBlocks : BitVec 64
  envColors : BitVec 64
  envAppearance : BitVec 64
  envWeather : BitVec 64
  blockDefinitions : BitVec 64

/-- A `Char` of a string stands for a byte. -/
def strlen (s : String) : BitVec 64 := BitVec.ofNat 64 s.length

def tcMapGetMemoryUsage (sizes : Sizes) (m : TcMap) : BitVec 64 :=
  let blockArraySize := volume m.xSize m.ySize m.zSize
  sizes.map
    + (if m.blocks.blockArray2.isSome then blockArraySize * 10 / 8 else blockArraySize)
    + (if m.customBlocksExtension.isSome then sizes.customBlocks else 0)
    + (if m.envColorsExtension.isSome then sizes.envColors else 0)
    + (if m.envAppearanceExtension.isSome then sizes.envAppearance else 0)
    + (if m.envWeatherExtension.isSome then sizes.envWeather else 0)
    + (if m.blockDefinitionExtensions.isSome then sizes.blockDefinitions else 0)
    + strlen m.name
    + (m.createdByService.elim 0 strlen)
    + (m.createdByUsername.elim 0 strlen)

/-- `tc_map_cache_entry_t`; `is_loaded` is set when the map is there. `open_count`,
a `pint`, is an integer without bound. -/
structure Entry where
  key : String
  map : Option TcMap
  backlog : List Request
  memoryUsage : BitVec 64
  openCount : Int
  isReferenced : Bool
  locked : Bool

def Entry.isLoaded (en : Entry) : Bool := en.map.isSome

/-- A call of `tc_map_cache_schedule_open`. -/
structure Open where
  request : Request
  name : String
  current : Option Priority

/-- A call in `tc_map_cache_open_from_entry` that has returned the entry's
lock; `writer` is the cache lock it holds. -/
structure Invoking where
  call : Open
  entry : Nat
  writer : Bool

inductive Event where
  /-- The success handler of a request was scheduled with the map of an entry. -/
  | scheduled (request entry : Nat) (continued loaded : Bool)
  | failed (request : Nat)
  | referenced (entry : Nat)
  | unreferenced (entry : Nat)
  | wrote (key : String) (w : BlockWrite)
  | evicted (entry : Nat) (dirty : Bool)

structure Cache where
  entries : Nat → Option Entry
  linked : List Nat
  idToIndex : String → Option Nat
  clockHand : Option Nat
  numEntries : Nat
  memoryUsage : BitVec 64
  memoryUsageThreshold : BitVec 64
  upgrading : List Open
  invoking : List Invoking
  pendingLoads : List Nat
  checking : Nat
  stuck : Bool
  crashed : Bool
  nextRequest : Nat
  nextEntry : Nat
  trace : List Event

def tcMapCacheInit (memoryUsageThreshold : BitVec 64) : Cache where
  entries _ := none
  linked := []
  idToIndex _ := none
  clockHand := none
  numEntries := 0
  memoryUsage := 0
  memoryUsageThreshold := memoryUsageThreshold
  upgrading := []
  invoking := []
  pendingLoads := []
  checking := 0
  stuck := false
  crashed := false
  nextRequest := 0
  nextEntry := 0
  trace := []

def Cache.setEntry (s : Cache) (e : Nat) (en : Option Entry) : Cache :=
  { s with entries := Function.update s.entries e en }

def Cache.modify (s : Cache) (e : Nat) (f : Entry → Entry) : Cache := s.setEntry e ((s.entries e).map f)

def Cache.note (s : Cache) (event : Event) : Cache := { s with trace := s.trace ++ [event] }

def Cache.isLoaded (s : Cache) (e : Nat) : Bool := (s.entries e).any Entry.isLoaded

/-- The cache lock can be taken for reading. -/
def Cache.readable (s : Cache) : Bool := !s.stuck && s.invoking.all fun c => !c.writer

/-- The cache lock can be taken for writing. -/
def Cache.writable (s : Cache) : Bool := !s.stuck && s.invoking.isEmpty

/-! ## References -/

def tcMapNolockRef (e : Nat) (s : Cache) : Cache :=
  s.modify e fun en => { en with openCount := en.openCount + 1, isReferenced := true }

def tcMapNolockUnref (e : Nat) (s : Cache) : Cache :=
  s.modify e fun en => { en with openCount := en.openCount - 1 }

def Cache.lockFree (s : Cache) (e : Nat) : Bool := (s.entries e).any fun en => !en.locked

def tcMapRef (e : Nat) (s : Cache) : Option Cache :=
  if s.lockFree e then some ((tcMapNolockRef e s).note (.referenced e)) else none

def tcMapUnref (e : Nat) (s : Cache) : Option Cache :=
  if s.lockFree e then some ((tcMapNolockUnref e s).note (.unreferenced e)) else none

/-! ## Opening -/

/-- The handlers of a request for the map of an entry. -/
def handlers (e : Nat) (aquire release : Cache → Cache) : Handlers Cache where
  success r continued s := s.note (.scheduled r.id e continued (s.isLoaded e))
  failure r s := s.note (.failed r.id)
  aquire := aquire
  release := release

/-- `tc_map_cache_open_from_entry`, as long as it holds the entry's lock. -/
def tcMapCacheOpenFromEntry (call : Open) (e : Nat) (writer alloc : Bool) (s : Cache) : Option Cache :=
  match s.entries e with
  | none => none
  | some en =>
    if en.locked then none
    else
      let en' : Entry :=
        if !en.isLoaded then
          -- that the push can fail is ignored
          { en with backlog := (tcTaskBacklogPush en.backlog call.request alloc).getD en.backlog }
        else { en with openCount := en.openCount + 1, isReferenced := true }
      some { s.setEntry e en' with invoking := s.invoking ++ [{ call, entry := e, writer }] }

/-- The rest of it; the release handler is `tc_map_nolock_ref`, too. -/
def invokeHandler (c : Invoking) (o : Dispatch) (s : Cache) : Cache :=
  tcTaskBacklogInvokeHandler (handlers c.entry (tcMapNolockRef c.entry) (tcMapNolockRef c.entry))
    c.call.request true c.call.current o s

/-- How far the creation of an entry gets. -/
inductive Creation where
  | noEntry
  | noLock
  | noKey
  | noArgs
  | noBlock
  | notScheduled
  | scheduled
deriving DecidableEq, Repr

def tcMapCacheLinkEntry (e : Nat) (en : Entry) (s : Cache) : Cache :=
  { s.setEntry e en with
    linked := e :: s.linked
    memoryUsage := s.memoryUsage + en.memoryUsage
    numEntries := s.numEntries + 1 }

def newEntry (sizes : Sizes) (call : Open) : Entry where
  key := call.name
  map := none
  backlog := [call.request]
  memoryUsage := sizes.mapCacheEntry
  openCount := 0
  isReferenced := true
  locked := false

/-- The part of `tc_map_cache_schedule_open` that creates an entry. -/
def createEntry (sizes : Sizes) (call : Open) (c : Creation) (s : Cache) : Cache :=
  match c with
  | .scheduled =>
    { tcMapCacheLinkEntry s.nextEntry (newEntry sizes call) s with
      pendingLoads := s.pendingLoads ++ [s.nextEntry]
      nextEntry := s.nextEntry + 1 }
  -- the unlinked entry is freed, then unlocked and freed again
  | .notScheduled => { s with crashed := true }
  | _ => s.note (.failed call.request.id)

/-- `tc_map_cache_schedule_open` with the reader lock. -/
def tcMapCacheScheduleOpen (name : String) (priority : Priority) (current : Option Priority) (alloc : Bool)
    (s : Cache) : Option Cache :=
  if s.readable then
    let call : Open := { request := { id := s.nextRequest, priority }, name, current }
    let s' := { s with nextRequest := s.nextRequest + 1 }
    match s.idToIndex name with
    | some e => tcMapCacheOpenFromEntry call e false alloc s'
    | none => some { s' with upgrading := s.upgrading ++ [call] }
  else none

/-- `tc_map_cache_schedule_open` with the writer lock. -/
def scheduleOpenUpgraded (sizes : Sizes) (i : Nat) (c : Creation) (alloc : Bool) (s : Cache) : Option Cache :=
  if s.writable then
    match s.upgrading[i]? with
    | none => none
    | some call =>
      let s' := { s with upgrading := s.upgrading.eraseIdx i }
      match s.idToIndex call.name with
      | some e => tcMapCacheOpenFromEntry call e true alloc s'
      | none => some (createEntry sizes call c s')
  else none

/-! ## Loading -/

/-- `tc_map_cache_load_task`, as long as it holds the entry's lock; `result` is
what `tc_map_load` gives. -/
def tcMapCacheLoadTask (sizes : Sizes) (e : Nat) (result : Option TcMap) (outcomes : Nat → Dispatch)
    (s : Cache) : Option Cache :=
  match s.entries e with
  | none => none
  | some en =>
    if en.locked ∨ e ∉ s.pendingLoads then none
    else
      let s' := { s with pendingLoads := s.pendingLoads.erase e }
      match result with
      | none => some (tcTaskScheduleBacklog (handlers e id id) false .blocking outcomes 0 false en.backlog s')
      | some m =>
        let en' : Entry :=
          { en with map := some m, memoryUsage := en.memoryUsage + tcMapGetMemoryUsage sizes m }
        some (tcTaskScheduleBacklog (handlers e (tcMapNolockRef e) (tcMapNolockUnref e)) true .blocking
          outcomes 0 false en.backlog { s'.setEntry e en' with checking := s.checking + 1 })

/-! ## Eviction -/

/-- `entry->prev`. -/
def prevOf : List Nat → Nat → Option Nat
  | a :: b :: l, e => if b = e then some a else prevOf (b :: l) e
  | _, _ => none

/-- `tc_map_cache_unlink_entry`; the entry is freed. -/
def tcMapCacheUnlinkEntry (e : Nat) (en : Entry) (s : Cache) : Cache :=
  { s.setEntry e none with
    linked := s.linked.erase e
    memoryUsage := s.memoryUsage - en.memoryUsage
    numEntries := s.numEntries - 1 }

/-- The branch that evicts a map. -/
def dropEntry (e : Nat) (en : Entry) (s : Cache) : Cache :=
  let prev := prevOf s.linked e
  let s' := tcMapCacheUnlinkEntry e en
    { s with idToIndex := fun name => if name = en.key then none else s.idToIndex name }
  { s' with clockHand := if s.clockHand = some e then prev else s.clockHand }.note
    (.evicted e (en.map.any TcMap.isDirty))

/-- How an eviction ends: it waits for a lock, or it uses `NULL`. -/
inductive Pass where
  | done
  | blocked
  | crashed
deriving DecidableEq, Repr

/-- The loop, with the number of iterations left and `current_entry`. -/
def evictLoop : Nat → Option Nat → Cache → Cache × Pass
  | 0, _, s => (s, .done)
  | n + 1, current, s =>
    match current <|> s.linked.getLast? with
    | none => (s, .crashed)
    | some e =>
      match s.entries e with
      | none => (s, .crashed)
      | some en =>
        if en.locked then (s, .blocked)
        else if !en.isLoaded then
          -- it is the lock of the previous entry that is returned
          let s := s.setEntry e (some { en with locked := true })
          match prevOf s.linked e with
          | none => (s, .crashed)
          | some prev => evictLoop n (some prev) (s.modify prev fun p => { p with locked := false })
        else if en.openCount = 0 then
          if en.isReferenced then
            evictLoop n (prevOf s.linked e)
              (s.setEntry e (some { en with isReferenced := false, locked := true }))
          else
            let prev := prevOf s.linked e
            let s := dropEntry e en s
            if s.memoryUsage < s.memoryUsageThreshold then
              ({ s with clockHand := s.clockHand <|> s.linked.getLast? }, .done)
            else evictLoop n prev s
        else evictLoop n (prevOf s.linked e) s

/-- `max_iters`: the number of entries as a `pint`. From `2 ^ 31` entries on it
can be negative, and then there is no iteration. -/
def maxIters (numEntries : Nat) : Nat := (BitVec.ofNat 32 numEntries).toInt.toNat

def tcMapCacheEvict (s : Cache) : Cache :=
  match s.linked with
  | [] => s
  | head :: _ =>
    let s := { s with clockHand := s.clockHand <|> some head }
    match evictLoop (maxIters s.numEntries) s.linked.getLast? s with
    | (s, .done) => s
    | (s, .blocked) => { s with stuck := true }
    | (s, .crashed) => { s with crashed := true }

/-- The end of `tc_map_cache_load_task`. -/
def checkEviction (s : Cache) : Option Cache :=
  if s.writable ∧ 0 < s.checking then
    let s := { s with checking := s.checking - 1 }
    some (if s.memoryUsage > s.memoryUsageThreshold then tcMapCacheEvict s else s)
  else none

/-! ## Steps -/

/-- A block of an opened map is written. -/
def setBlock (e : Nat) (w : BlockWrite) (s : Cache) : Option Cache := do
  let en ← s.entries e
  let m ← en.map
  let m' ← tcMapSetBlockIndex m w.x w.y w.z w.block
  return (s.setEntry e (some { en with map := some m' })).note (.wrote en.key w)

inductive Label where
  | open_ (name : String) (priority : Priority) (current : Option Priority) (alloc : Bool)
  | upgrade (i : Nat) (c : Creation) (alloc : Bool)
  | invoke (i : Nat) (o : Dispatch)
  | load (e : Nat) (result : Option TcMap) (outcomes : Nat → Dispatch)
  | check
  | ref (e : Nat)
  | unref (e : Nat)
  | setBlock (e : Nat) (w : BlockWrite)

def invokeAt (i : Nat) (o : Dispatch) (s : Cache) : Option Cache :=
  match s.invoking[i]? with
  | none => none
  | some c => some (invokeHandler c o { s with invoking := s.invoking.eraseIdx i })

def cacheStep (sizes : Sizes) (s : Cache) (l : Label) : Option Cache :=
  if s.crashed then none
  else
    match l with
    | .open_ name priority current alloc => tcMapCacheScheduleOpen name priority current alloc s
    | .upgrade i c alloc => scheduleOpenUpgraded sizes i c alloc s
    | .invoke i o => invokeAt i o s
    | .load e result outcomes => tcMapCacheLoadTask sizes e result outcomes s
    | .check => checkEviction s
    | .ref e => tcMapRef e s
    | .unref e => tcMapUnref e s
    | .setBlock e w => setBlock e w s

end TC.Impl.MapCache
