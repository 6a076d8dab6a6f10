import TeleClassic.Framework.Heap
import TeleClassic.Framework.Prog
import TeleClassic.Impl.Map

/-!
# The memory of a map (`map.c`, `map_cache.c`)

`tc_map_load` and `tc_map_finalize` on the `tc_map_t` as it is in memory, with the
blocks they allocate and free. The values are loaded and checked by the parts of
`Impl.Map`; here an allocation can fail at each point, and what is there already when
a check fails is freed by the finalizer.

A pointer is `NULL` or an address with what is stored there. No two pointers of the
code share a block, except for those that are kept in local variables. Members of the
extensions and definitions that are not pointers are checked but not stored, since the
finalizer does not read them. The tree is one block, which `nbt_free` frees.
-/

namespace TC.Impl.MapMemory

open TC.Impl.Nbt
open TC.Impl.Map (LoadM LoadEnv Clock SpawnPosition extension isBlock)
open TC.Prog

abbrev Address := Nat

abbrev Ptr (α : Type) := Option (Address × α)

/-! ## Structures -/

structure CustomBlocks where
  fallbackBlocks : Ptr (Vector Byte 256)
deriving DecidableEq

structure EnvAppearance where
  textureUrl : Ptr String
deriving DecidableEq

structure BlockDefinition where
  blockName : Ptr String
deriving DecidableEq

/-- A node of a `PList`, and the definition it points to. -/
structure ListNode where
  address : Address
  definition : Address × BlockDefinition
deriving DecidableEq

structure BlockDefinitions where
  blockDefinitions : List ListNode
deriving DecidableEq

/-- `tc_map_t`. -/
structure TcMap where
  uuid : Vector Byte 16
  timeCreated : BitVec 64
  lastAccessed : BitVec 64
  lastModified : BitVec 64
  name : Ptr String
  createdByService : Ptr String
  createdByUsername : Ptr String
  mapGenSoftware : Ptr String
  mapGenName : Ptr String
  blockArray : Ptr (List Byte)
  blockArray2 : Ptr (List Byte)
  blockArrayCount : BitVec 64
  blockArray2Count : BitVec 64
  customBlocksExtension : Ptr CustomBlocks
  envColorsExtension : Ptr Unit
  envAppearanceExtension : Ptr EnvAppearance
  envWeatherExtension : Ptr Unit
  envAspectExtension : Ptr Unit
  blockDefinitionExtensions : Ptr BlockDefinitions
  xSize : BitVec 16
  ySize : BitVec 16
  zSize : BitVec 16
  spawnPosition : SpawnPosition
  formatVersion : BitVec 8
  lock : Ptr Unit
  isDirty : Bool
deriving DecidableEq

/-- What `memset(map, 0, sizeof(tc_map_t))` leaves. -/
def zeroMap : TcMap where
  uuid := Vector.replicate 16 0
  timeCreated := 0
  lastAccessed := 0
  lastModified := 0
  name := none
  createdByService := none
  createdByUsername := none
  mapGenSoftware := none
  mapGenName := none
  blockArray := none
  blockArray2 := none
  blockArrayCount := 0
  blockArray2Count := 0
  customBlocksExtension := none
  envColorsExtension := none
  envAppearanceExtension := none
  envWeatherExtension := none
  envAspectExtension := none
  blockDefinitionExtensions := none
  xSize := 0
  ySize := 0
  zSize := 0
  spawnPosition := { x := 0, y := 0, z := 0, heading := 0, pitch := 0 }
  formatVersion := 0
  lock := none
  isDirty := false

/-! ## Finalizing -/

/-- `p_free`, also for a lock; `NULL` is not freed. A result of `none` is a crash: the
block is not there to be freed. -/
def pFree {α : Type} : Ptr α → BlockHeap → Option BlockHeap
  | none, h => some h
  | some (a, _), h => h.free a

/-- A structure is freed after what its members point to. -/
def pFreeStruct {α : Type} (members : α → BlockHeap → Option BlockHeap) : Ptr α → BlockHeap → Option BlockHeap
  | none, h => some h
  | some (a, e), h => do
    let h ← h.access a
    let h ← members e h
    h.free a

/-- `free_block_definition`. -/
def freeBlockDefinition (definition : Address × BlockDefinition) (h : BlockHeap) : Option BlockHeap := do
  let h ← h.access definition.1
  let h ← pFree definition.2.blockName h
  h.free definition.1

/-- `p_list_foreach` with `free_block_definition`. -/
def freeDefinitions : List ListNode → BlockHeap → Option BlockHeap
  | [], h => some h
  | node :: nodes, h => do
    let h ← h.access node.address
    let h ← freeBlockDefinition node.definition h
    freeDefinitions nodes h

/-- `p_list_free`. -/
def pListFree : List ListNode → BlockHeap → Option BlockHeap
  | [], h => some h
  | node :: nodes, h => do
    let h ← h.free node.address
    pListFree nodes h

def tcMapFinalize (map : TcMap) (h : BlockHeap) : Option BlockHeap := do
  let h ← pFree map.name h
  let h ← pFree map.createdByService h
  let h ← pFree map.createdByUsername h
  let h ← pFree map.mapGenSoftware h
  let h ← pFree map.mapGenName h
  let h ← pFree map.blockArray h
  let h ← pFree map.blockArray2 h
  let h ← pFree map.lock h
  let h ← pFreeStruct (fun cb => pFree cb.fallbackBlocks) map.customBlocksExtension h
  let h ← pFree map.envColorsExtension h
  let h ← pFreeStruct (fun ea => pFree ea.textureUrl) map.envAppearanceExtension h
  let h ← pFree map.envWeatherExtension h
  let h ← pFree map.envAspectExtension h
  pFreeStruct (fun bd h => do
    let h ← freeDefinitions bd.blockDefinitions h
    pListFree bd.blockDefinitions h) map.blockDefinitionExtensions h

/-- An entry of the cache. -/
structure Entry where
  address : Address
  key : Ptr String
  lock : Ptr Unit
  map : TcMap

/-- The loop of `tc_map_cache_finalize`. -/
def tcMapCacheFinalize : List Entry → BlockHeap → Option BlockHeap
  | [], h => some h
  | entry :: entries, h => do
    let h ← h.access entry.address
    let h ← tcMapFinalize entry.map h
    let h ← pFree entry.lock h
    let h ← pFree entry.key h
    let h ← h.free entry.address
    tcMapCacheFinalize entries h

/-! ## Loading -/

/-- What a load depends on, besides the tree: the environment of its values, and whether
its `i`th allocation succeeds. -/
structure Env extends LoadEnv where
  alloc : Nat → Bool

structure Memory where
  heap : BlockHeap
  map : TcMap
  allocations : Nat
  crashed : Bool

/-- A part of the load; it stops where the code goes to `fail`, or crashes. -/
abbrev LoadP := Prog Env Memory

def setMap (f : TcMap → TcMap) : LoadP Unit := modify fun s => { s with map := f s.map }

def crash {α : Type} : LoadP α := fun _ s => (none, { s with crashed := true })

/-- A value of the map is loaded and checked. -/
def value {α : Type} : LoadM α → LoadP α
  | .ok a => pure a
  | .error .fail => stop
  | .error .badRead => crash

/-- `if (c) { goto fail; }` -/
def failIf (c : Bool) : LoadP Unit := if c then stop else pure ()

/-- An allocation, with what is stored in the block. -/
def pNew {α : Type} (v : α) : LoadP (Ptr α) := fun env s =>
  if env.alloc s.allocations then
    (some (some (s.heap.made, v)), { s with heap := s.heap.make, allocations := s.allocations + 1 })
  else (some none, { s with allocations := s.allocations + 1 })

/-- A pointer that is stored and then checked. -/
def assign {α : Type} (v : α) (set : Ptr α → TcMap → TcMap) : LoadP Unit := do
  let p ← pNew v
  setMap (set p)
  failIf p.isNone

/-- A structure that is checked and then stored. -/
def create {α : Type} (v : α) (set : Ptr α → TcMap → TcMap) : LoadP Unit := do
  let p ← pNew v
  failIf p.isNone
  setMap (set p)

/-- What is optional is copied if it is there. -/
def assignSome {α : Type} (o : Option α) (set : Ptr α → TcMap → TcMap) : LoadP Unit :=
  match o with
  | none => pure ()
  | some v => assign v set

/-- A string that is optional and not checked. -/
def loadString (root : Node) (compound tag : String) (set : Ptr String → TcMap → TcMap) : LoadP Unit := do
  let env ← ask
  let v ← value (Map.loadString env.toLoadEnv root compound tag)
  assignSome v set

/-- A time that is optional and not checked. -/
def loadTime (root : Node) (tag : String) (now : Clock → BitVec 64) : LoadP (BitVec 64) := do
  let env ← ask
  value (Map.loadTime env.toLoadEnv root tag now)

def loadName (root : Node) : LoadP Unit := do
  let env ← ask
  let name ← value (Map.loadName env.path root)
  assign name fun p map => { map with name := p }

def loadBlocks (root : Node) (xSize ySize zSize : BitVec 16) : LoadP Unit := do
  let blockArray ← value (Map.loadBlockArray root xSize ySize zSize)
  setMap fun map => { map with blockArrayCount := BitVec.ofNat 64 blockArray.val.val.length }
  assign blockArray.val.val fun p map => { map with blockArray := p }
  let blockArray2 ← value (Map.loadBlockArray2 root blockArray.val.val.length)
  let bytes := blockArray2.val.map Subtype.val
  setMap fun map => { map with blockArray2Count := BitVec.ofNat 64 (bytes.getD []).length }
  assignSome bytes fun p map => { map with blockArray2 := p }

def loadExtension (root : Node) (name : String) (load : Node → LoadP Unit) : LoadP Unit :=
  match extension root name with
  | none => pure ()
  | some ext => load ext

/-- A write to what a pointer points to. -/
def write {α : Type} (f : α → α) (p : Ptr α) : Ptr α := p.map (Prod.map id f)

def loadCustomBlocks (ext : Node) : LoadP Unit := do
  create { fallbackBlocks := none } fun p map => { map with customBlocksExtension := p }
  let loaded ← value (Map.loadCustomBlocks ext)
  assign loaded.fallbackBlocks fun p map =>
    { map with customBlocksExtension := write (fun cb => { cb with fallbackBlocks := p }) map.customBlocksExtension }

/-- An extension whose members are no pointers. -/
def loadStruct {α : Type} (loaded : LoadM α) (set : Ptr Unit → TcMap → TcMap) : LoadP Unit := do
  create () set
  let _ ← value loaded

def loadEnvColors (ext : Node) : LoadP Unit :=
  loadStruct (Map.loadEnvColors ext) fun p map => { map with envColorsExtension := p }

def loadEnvAspect (ext : Node) : LoadP Unit :=
  loadStruct (Map.loadEnvAspect ext) fun p map => { map with envAspectExtension := p }

def loadEnvAppearance (ySize : BitVec 16) (ext : Node) : LoadP Unit := do
  create { textureUrl := none } fun p map => { map with envAppearanceExtension := p }
  let extensionVersion ← value (Map.loadAppearanceVersion ext)
  let textureUrl ← value (Map.loadTextureUrl ext)
  assign textureUrl fun p map =>
    { map with envAppearanceExtension := write (fun ea => { ea with textureUrl := p }) map.envAppearanceExtension }
  let _ ← value (Map.loadLevels ySize ext extensionVersion textureUrl)

def loadEnvWeather (ext : Node) : LoadP Unit :=
  loadStruct (Map.loadEnvWeather ext) fun p map => { map with envWeatherExtension := p }

/-- A write to the list of definitions. -/
def setDefinitions (f : List ListNode → List ListNode) (map : TcMap) : TcMap :=
  let bd := write (fun bd => { bd with blockDefinitions := f bd.blockDefinitions }) map.blockDefinitionExtensions
  { map with blockDefinitionExtensions := bd }

/-- `p_free` during the load. -/
def freeNow (a : Address) : LoadP Unit := fun env s =>
  match s.heap.free a with
  | none => crash env s
  | some h => (some (), { s with heap := h })

/-- A definition is entered at the head of the list; `p_list_prepend` returns the list
as it was if it has no memory for a node. -/
def prependDefinition (definition : Address × BlockDefinition) : LoadP Unit := do
  let node ← pNew ()
  match node with
  | none => do
    freeNow definition.1
    stop
  | some node => setMap (setDefinitions ({ address := node.1, definition := definition } :: ·))

def newDefinition : LoadP Unit := do
  let definition ← pNew { blockName := none }
  match definition with
  | none => stop
  | some definition => prependDefinition definition

/-- The name of the definition at the head of the list. -/
def nameHead (p : Ptr String) : List ListNode → List ListNode
  | [] => []
  | node :: nodes => { node with definition := (node.definition.1, { blockName := p }) } :: nodes

def loadBlockDefinition (child : Node) : LoadP Unit := do
  newDefinition
  let (blockId, blockName) ← value (Map.loadBlockName child)
  assign blockName fun p => setDefinitions (nameHead p)
  let _ ← value (Map.loadBlockFields child blockId blockName)

def loadDefinitions : List Node → LoadP Unit
  | [] => pure ()
  | child :: children =>
    if isBlock child then do
      loadBlockDefinition child
      loadDefinitions children
    else loadDefinitions children

def loadBlockDefinitions (ext : Node) : LoadP Unit := do
  create { blockDefinitions := [] } fun p map => { map with blockDefinitionExtensions := p }
  let (_, entries) ← value (Map.loadEntries ext)
  loadDefinitions entries
  setMap (setDefinitions List.reverse)

/-- The load after `memset`. -/
def loadFields (root : Node) : LoadP Unit := do
  setMap fun map => { map with isDirty := false }
  assign () fun p map => { map with lock := p }
  let formatVersion ← value (Map.loadFormatVersion root)
  setMap fun map => { map with formatVersion := formatVersion }
  loadName root
  let uuid ← value (Map.loadUuid root)
  setMap fun map => { map with uuid := uuid }
  let xSize ← value (Map.loadSize root "X")
  setMap fun map => { map with xSize := xSize }
  let ySize ← value (Map.loadSize root "Y")
  setMap fun map => { map with ySize := ySize }
  let zSize ← value (Map.loadSize root "Z")
  setMap fun map => { map with zSize := zSize }
  loadString root "CreatedBy" "Service" fun p map => { map with createdByService := p }
  loadString root "CreatedBy" "Username" fun p map => { map with createdByUsername := p }
  loadString root "MapGenerator" "Software" fun p map => { map with mapGenSoftware := p }
  loadString root "MapGenerator" "MapGeneratorName" fun p map => { map with mapGenName := p }
  let timeCreated ← loadTime root "TimeCreated" Clock.timeCreated
  setMap fun map => { map with timeCreated := timeCreated }
  let lastAccessed ← loadTime root "LastAccessed" Clock.lastAccessed
  setMap fun map => { map with lastAccessed := lastAccessed }
  let lastModified ← loadTime root "LastModified" Clock.lastModified
  setMap fun map => { map with lastModified := lastModified }
  let spawnPosition ← value (Map.loadSpawn root)
  setMap fun map => { map with spawnPosition := spawnPosition }
  loadBlocks root xSize ySize zSize
  loadExtension root "CustomBlocks" loadCustomBlocks
  loadExtension root "EnvColors" loadEnvColors
  loadExtension root "EnvAspect" loadEnvAspect
  loadExtension root "EnvMapAppearance" (loadEnvAppearance ySize)
  loadExtension root "EnvWeatherType" loadEnvWeather
  loadExtension root "BlockDefinitions" loadBlockDefinitions

/-- The load of a compound. -/
def loadTree (root : Node) : LoadP Unit := do
  setMap fun _ => zeroMap
  loadFields root

/-- `fail:` finalizes the map and clears it. -/
def failed (s : Memory) : Option Memory := do
  let h ← tcMapFinalize s.map s.heap
  return { s with heap := h, map := zeroMap }

/-- `nbt_free(root)` and the value that is returned. -/
def freeTree (tree : Address) (returned : Bool) (s : Memory) : Option (Bool × Memory) := do
  let h ← s.heap.free tree
  return (returned, { s with heap := h })

/-- The end of the load, at its last line or at `fail:`. -/
def endLoad (tree : Address) : Option Unit × Memory → Option (Bool × Memory)
  | (some _, s) => freeTree tree true s
  | (none, s) => if s.crashed then none else (failed s).bind (freeTree tree false)

/-- What `nbt_parse_path` returns, and how many blocks it has made and not freed besides
the tree. A file that inflates to `0A FF FF 00`, for one, is refused with the list of
the compound left. -/
structure Parsed where
  root : Option Node
  leaked : Nat

/-- The memory when `nbt_parse_path` has returned, before the tree. -/
def parse (leaked : Nat) (s : Memory) : Memory := { s with heap := BlockHeap.make^[leaked] s.heap, crashed := false }

/-- `tc_map_load`, `none` if it crashes. -/
def tcMapLoad (parsed : Parsed) (env : Env) (s : Memory) : Option (Bool × Memory) :=
  let s := parse parsed.leaked s
  match parsed.root with
  | none => some (false, s)
  | some root =>
    let withTree := { s with heap := s.heap.make }
    if nodeType root ≠ .compound then freeTree s.heap.made false withTree
    else endLoad s.heap.made (loadTree root env withTree)

end TC.Impl.MapMemory
