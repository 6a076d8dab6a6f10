import TeleClassic.Impl.Map

/-!
# The blocks of a map (`map.h`)

`TELECLASSIC26_MAP_BLOCK_INDEX` and the two functions that read and write a
block. Coordinates and sizes are `pshort`, the index is computed in `int` and
then taken as a `psize`. The arrays are of `pchar`, which is signed, and the bits
of a block are computed in `int`. An access outside of an array is `none`.
-/

namespace TC.Impl.Map

open TC.Impl.Nbt

/-- `TELECLASSIC26_MAP_BLOCK_INDEX`, as a `psize`. -/
def indexIn (xSize zSize x y z : BitVec 16) : BitVec 64 :=
  ((y.signExtend 32 * zSize.signExtend 32 + z.signExtend 32) * xSize.signExtend 32 + x.signExtend 32).signExtend 64

def blockIndex (m : TcMap) (x y z : BitVec 16) : BitVec 64 := indexIn m.xSize m.zSize x y z

/-- `(index % 4) * 2`. -/
def shift (index : Nat) : Nat := index % 4 * 2

/-- `block_array[index] & 0xFF`. -/
def lowBits (low : Byte) : BitVec 16 := (low.signExtend 32 &&& 0xFF).setWidth 16

/-- `((block_array2[index / 4] >> shift) & 0x3) << 8`. -/
def highBits (high : Byte) (index : Nat) : BitVec 16 :=
  ((BitVec.sshiftRight (high.signExtend 32) (shift index) &&& 0x3) <<< 8).setWidth 16

/-- The block at an index: its low byte in `block_array`, the two bits above
in `block_array2`. -/
def Blocks.get {xSize ySize zSize : BitVec 16} (b : Blocks xSize ySize zSize) (index : Nat) :
    Option (BitVec 16) := do
  let low ← b.blockArray.val[index]?
  match b.blockArray2 with
  | none => return lowBits low
  | some blockArray2 =>
    let high ← blockArray2.val[index / 4]?
    return lowBits low ||| highBits high index

/-- The byte of `block_array2` with the bits 8 and 9 of a block in it. -/
def withHighBits (high : Byte) (index : Nat) (block : BitVec 16) : Byte :=
  ((high.signExtend 32 &&& ~~~((0x3 : BitVec 32) <<< shift index)) |||
    ((block.setWidth 32 >>> 8 &&& 0x3) <<< shift index)).setWidth 8

/-- An array with one byte changed. -/
def Bytes.set (bytes : Bytes) (i : Nat) (v : Byte) : Bytes :=
  ⟨bytes.val.set i v, by rw [List.length_set]; exact bytes.property⟩

@[simp] theorem Bytes.length_set (bytes : Bytes) (i : Nat) (v : Byte) :
    (Bytes.set bytes i v).val.length = bytes.val.length :=
  List.length_set

theorem Bytes.set_ne_nil {bytes : Bytes} (h : bytes.val ≠ []) (i : Nat) (v : Byte) :
    (Bytes.set bytes i v).val ≠ [] := by
  rw [← List.length_pos_iff, Bytes.length_set, List.length_pos_iff]
  exact h

/-- `block_array2` with the bits 8 and 9 of a block in it. -/
def setHigh (bytes : Bytes) (index : Nat) (block : BitVec 16) : Bytes :=
  Bytes.set bytes (index / 4) (withHighBits (bytes.val.getD (index / 4) 0) index block)

def Blocks.set {xSize ySize zSize : BitVec 16} (b : Blocks xSize ySize zSize) (index : Nat)
    (block : BitVec 16) : Option (Blocks xSize ySize zSize) :=
  if index < b.blockArray.val.length ∧ ∀ a ∈ b.blockArray2, index / 4 < a.val.length then
    some
      { blockArray := Bytes.set b.blockArray index (block.setWidth 8)
        blockArray2 := b.blockArray2.map (setHigh · index block)
        dimensions := by
          rw [Bytes.length_set]
          exact b.dimensions
        nonempty := Bytes.set_ne_nil b.nonempty _ _
        enough2 := by
          intro a ha
          obtain ⟨a', ha', rfl⟩ := Option.mem_map.mp ha
          rw [Bytes.length_set, setHigh, Bytes.length_set]
          exact b.enough2 a' ha'
        nonempty2 := by
          intro a ha
          obtain ⟨a', ha', rfl⟩ := Option.mem_map.mp ha
          exact Bytes.set_ne_nil (b.nonempty2 a' ha') _ _ }
  else none

def tcMapGetBlockIndex (m : TcMap) (x y z : BitVec 16) : Option (BitVec 16) :=
  m.blocks.get (blockIndex m x y z).toNat

def tcMapSetBlockIndex (m : TcMap) (x y z block : BitVec 16) : Option TcMap :=
  (m.blocks.set (blockIndex m x y z).toNat block).map fun blocks =>
    { m with isDirty := true, blocks := blocks }

end TC.Impl.Map
