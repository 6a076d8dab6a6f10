import TeleClassic.Proof.Map.Blocks
import TeleClassic.Proof.Map.Dimensions

/-!
# The blocks of a map are an array

In a map whose sizes are positive, with a product that fits in an `int`, different
positions have different indices (`blockIndex_inj`), and the index of each is inside
of the arrays. So a block that is set is read back up to the bits that the arrays
keep, and every other one stays (`block_storage`).
-/

namespace TC.Proof.Map

open TC.Impl.Nbt TC.Impl.Map

/-- A position in a map. -/
structure Position where
  x : BitVec 16
  y : BitVec 16
  z : BitVec 16
deriving DecidableEq

def Position.In (p : Position) (m : TcMap) : Prop :=
  (0 ≤ p.x.toInt ∧ p.x.toInt < m.xSize.toInt) ∧ (0 ≤ p.y.toInt ∧ p.y.toInt < m.ySize.toInt) ∧
    (0 ≤ p.z.toInt ∧ p.z.toInt < m.zSize.toInt)

instance (p : Position) (m : TcMap) : Decidable (p.In m) := inferInstanceAs (Decidable (_ ∧ _))

def getBlock (m : TcMap) (p : Position) : Option (BitVec 16) := tcMapGetBlockIndex m p.x p.y p.z

def setBlock (m : TcMap) (p : Position) (block : BitVec 16) : Option TcMap := tcMapSetBlockIndex m p.x p.y p.z block

/-- A quotient and a remainder are determined by their number. -/
theorem digits_inj {X r r' x x' : Int} (hx : 0 ≤ x ∧ x < X) (hx' : 0 ≤ x' ∧ x' < X) (h : r * X + x = r' * X + x') :
    r = r' ∧ x = x' := by
  have hlow : (r * X + x) % X = x := by rw [Int.mul_add_emod_self_right, Int.emod_eq_of_lt hx.1 hx.2]
  have hlow' : (r' * X + x') % X = x' := by rw [Int.mul_add_emod_self_right, Int.emod_eq_of_lt hx'.1 hx'.2]
  have heq : x = x' := by rw [← hlow, h, hlow']
  have hrow : r * X = r' * X := by omega
  exact ⟨Int.eq_of_mul_eq_mul_right (by omega) hrow, heq⟩

section

variable {m : TcMap} (hX : 1 ≤ m.xSize.toInt) (hY : 1 ≤ m.ySize.toInt) (hZ : 1 ≤ m.zSize.toInt)
  (hsmall : m.xSize.toInt * m.ySize.toInt * m.zSize.toInt < 2 ^ 31)

include hX hZ hsmall in
theorem blockIndex_inj {p q : Position} (hp : p.In m) (hq : q.In m)
    (h : blockIndex m p.x p.y p.z = blockIndex m q.x q.y q.z) : p = q := by
  obtain ⟨hpx, hpy, hpz⟩ := hp
  obtain ⟨hqx, hqy, hqz⟩ := hq
  have hindex := blockIndex_exact hX hZ hsmall hpx hpy hpz
  rw [h, blockIndex_exact hX hZ hsmall hqx hqy hqz] at hindex
  obtain ⟨hrow, hx⟩ := digits_inj hqx hpx hindex
  obtain ⟨hy, hz⟩ := digits_inj hqz hpz hrow
  cases p
  cases q
  simp only [Position.mk.injEq]
  exact ⟨BitVec.eq_of_toInt_eq hx.symm, BitVec.eq_of_toInt_eq hy.symm, BitVec.eq_of_toInt_eq hz.symm⟩

include hX hY hZ hsmall

theorem index_inside {p : Position} (hp : p.In m) :
    (blockIndex m p.x p.y p.z).toNat < m.blocks.blockArray.val.length ∧
      ∀ a ∈ m.blocks.blockArray2, (blockIndex m p.x p.y p.z).toNat / 4 < a.val.length := by
  obtain ⟨hinside, hinside2⟩ := (soundDimensions_of_small hX hY hZ hsmall).index p.x p.y p.z hp.1 hp.2.1 hp.2.2
  exact ⟨hinside, fun a ha => hinside2 _ (Option.mem_map_of_mem _ ha)⟩

theorem getBlock_isSome {p : Position} (hp : p.In m) : (getBlock m p).isSome := by
  obtain ⟨hinside, hinside2⟩ := index_inside hX hY hZ hsmall hp
  rw [getBlock, tcMapGetBlockIndex, Blocks.get, List.getElem?_eq_getElem hinside]
  cases hb : m.blocks.blockArray2 with
  | none => rfl
  | some a =>
    simp only [Option.bind_eq_bind, Option.bind_some, List.getElem?_eq_getElem (hinside2 a hb)]
    rfl

theorem exists_setBlock {p : Position} (hp : p.In m) (block : BitVec 16) :
    ∃ blocks, m.blocks.set (blockIndex m p.x p.y p.z).toNat block = some blocks ∧
      setBlock m p block = some { m with isDirty := true, blocks := blocks } := by
  obtain ⟨blocks, hblocks⟩ : ∃ blocks, m.blocks.set (blockIndex m p.x p.y p.z).toNat block = some blocks := by
    rw [Blocks.set, if_pos (index_inside hX hY hZ hsmall hp)]
    exact ⟨_, rfl⟩
  refine ⟨blocks, hblocks, ?_⟩
  rw [setBlock, tcMapSetBlockIndex, hblocks, Option.map_some]

/-- A block that is set at `p` is read there up to its low 10 bits, or its low 8
bits without `block_array2`, and what is read at any other position stays. -/
theorem block_storage (p : Position) (hp : p.In m) (block : BitVec 16) : ∃ m', setBlock m p block = some m' ∧
    getBlock m' p = some (if m.blocks.blockArray2.isSome then block % 1024 else block % 256) ∧
    ∀ q : Position, q.In m → q ≠ p → ∃ old, getBlock m q = some old ∧ getBlock m' q = some old := by
  obtain ⟨blocks, hblocks, hset⟩ := exists_setBlock hX hY hZ hsmall hp block
  refine ⟨_, hset, get_set hblocks, fun q hq hne => ?_⟩
  obtain ⟨old, hold⟩ := Option.isSome_iff_exists.mp (getBlock_isSome hX hY hZ hsmall hq)
  have hindex : (blockIndex m q.x q.y q.z).toNat ≠ (blockIndex m p.x p.y p.z).toNat := fun heq =>
    hne (blockIndex_inj hX hZ hsmall hq hp (BitVec.eq_of_toNat_eq heq))
  refine ⟨old, hold, ?_⟩
  rw [← hold]
  exact get_set_of_ne hblocks hindex

end

/-- `block_array2` of four blocks, with 3, 2, 1 and 0 as the two bits of each. -/
def fourHigh : Bytes := .ofList [0b00011011] (.refl true)

theorem fourHigh_enough : ∀ b ∈ some fourHigh, 4 ≤ b.val.length * 4 := by decide

theorem fourHigh_nonempty : ∀ b ∈ some fourHigh, b.val ≠ [] := by decide

/-- A map of two times two blocks. -/
def fourBlocks : TcMap :=
  { oneBlock with
    xSize := 2
    ySize := 2
    zSize := 1
    blocks := {
      blockArray := .ofList [1, 2, 3, 4] (.refl true)
      blockArray2 := some fourHigh
      dimensions := rfl
      nonempty := List.cons_ne_nil _ _
      enough2 := fourHigh_enough
      nonempty2 := fourHigh_nonempty }
    envAppearanceExtension := none }

/-- The block 514 becomes the block 257, which is what is kept of 1281. The others stay,
with their bits of the byte that the four have in common. -/
theorem block_storage_fourBlocks : getBlock fourBlocks ⟨1, 0, 0⟩ = some 514 ∧
    ∃ m', setBlock fourBlocks ⟨1, 0, 0⟩ 1281 = some m' ∧ getBlock m' ⟨1, 0, 0⟩ = some 257 ∧
      getBlock m' ⟨0, 0, 0⟩ = some 769 ∧ getBlock m' ⟨0, 1, 0⟩ = some 259 ∧ getBlock m' ⟨1, 1, 0⟩ = some 4 := by
  obtain ⟨m', hset, hget, hother⟩ := block_storage (m := fourBlocks) (by decide) (by decide) (by decide) (by decide)
    ⟨1, 0, 0⟩ (by decide) 1281
  have hkept {q : Position} (hq : q.In fourBlocks) (hne : q ≠ ⟨1, 0, 0⟩) : getBlock m' q = getBlock fourBlocks q := by
    obtain ⟨old, hold, hnew⟩ := hother q hq hne
    exact hnew.trans hold.symm
  refine ⟨by decide, m', hset, hget.trans (by decide), ?_, ?_, ?_⟩
  · exact (hkept (by decide) (by decide)).trans (by decide)
  · exact (hkept (by decide) (by decide)).trans (by decide)
  · exact (hkept (by decide) (by decide)).trans (by decide)

end TC.Proof.Map
