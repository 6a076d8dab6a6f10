import TeleClassic.Impl.Blocks

/-!
# A map and its file (`map.c`, `map.h`)

Calls of `tc_map_set_block_index` and `tc_map_save` on a map that was loaded from
a file and is saved to that file. `tc_map_set_block_index` holds the map's writer
lock: it sets `is_dirty` and then writes the block. `tc_map_save` takes no lock:
it clears `is_dirty`, copies the map into a tree and writes the tree, and other
calls may run in between. What it copies besides the blocks does not change.
-/

namespace TC.Impl.Map

open TC.Impl.Nbt

/-- The arguments of `tc_map_set_block_index`. -/
structure BlockWrite where
  x : BitVec 16
  y : BitVec 16
  z : BitVec 16
  block : BitVec 16
deriving DecidableEq

/-- How the steps of a save that can fail end. -/
structure SaveOutcome where
  alloc : Nat → Bool
  fopen : Bool
  dumped : Bool

structure MapFile (File : Type) where
  map : TcMap
  /-- The last complete content of the file. -/
  content : File
  /-- The write of a call that has set `is_dirty`. -/
  setting : Option BlockWrite
  /-- The saves that have cleared `is_dirty`, with the tree if the blocks are
  copied. -/
  saving : List (Option Node)

inductive MapEvent where
  | setBegin (w : BlockWrite)
  | setWrite
  | saveBegin
  | saveCopy (i : Nat)
  | saveEnd (i : Nat) (outcome : SaveOutcome)

variable {File : Type}

def saveEnv (dump : Node → File) (o : SaveOutcome) : SaveEnv File where
  alloc := o.alloc
  fopen := o.fopen
  dump root := if o.dumped then some (dump root) else none

/-- What a save that has built `root` does to the file. -/
def writeTree (env : SaveEnv File) (root : Node) : Written File :=
  if (List.range (allocations root - 1)).any fun i => !env.alloc i then .nothing
  else if !env.fopen then .nothing
  else
    match env.dump root with
    | none => .incomplete
    | some file => .complete file

/-- The content after a save. -/
def Written.over (content : File) : Written File → File
  | .complete file => file
  | _ => content

/-- `map->block_array[index] = ..`, and the same of `block_array2`. -/
def writeBlock (m : TcMap) (w : BlockWrite) : Option TcMap :=
  (m.blocks.set (blockIndex m w.x w.y w.z).toNat w.block).map fun blocks => { m with blocks := blocks }

def mapStep (dump : Node → File) (s : MapFile File) : MapEvent → Option (MapFile File)
  | .setBegin w =>
    if s.setting = none then some { s with map := { s.map with isDirty := true }, setting := some w }
    else none
  | .setWrite => do
    let w ← s.setting
    let map ← writeBlock s.map w
    return { s with map, setting := none }
  | .saveBegin =>
    -- a map that is not dirty is not saved
    if !s.map.isDirty then some s
    else some { s with map := { s.map with isDirty := false }, saving := s.saving ++ [none] }
  | .saveCopy i =>
    match s.saving[i]? with
    | some none => some { s with saving := s.saving.set i (some (saveTree s.map)) }
    | _ => none
  | .saveEnd i o =>
    match s.saving[i]? with
    | some (some root) =>
      some { s with
        content := (writeTree (saveEnv dump o) root).over s.content
        saving := s.saving.eraseIdx i }
    | _ => none

/-- A map that was just loaded from a file. -/
def mapLoaded (file : File) (m : TcMap) : MapFile File where
  map := m
  content := file
  setting := none
  saving := []

end TC.Impl.Map
