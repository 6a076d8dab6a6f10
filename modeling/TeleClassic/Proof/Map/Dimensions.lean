import TeleClassic.Framework.Signed
import TeleClassic.Impl.Blocks
import TeleClassic.Proof.Map

/-!
# The dimensions of a loaded map

`tc_map_load` compares the length of `BlockArray` with the product of the three
sizes in `int`. That the sizes are positive it does not check, and the product
may wrap around. What is accepted is sound if and only if the sizes in the tree
are positive and their product is below `2 ^ 31` (`sound_iff`): then the index of
every block is exact and inside of the arrays.
-/

namespace TC.Proof.Map

open TC.Impl.Nbt TC.Impl.Map

variable {m : TcMap} {root : Node}

/-! ## What a load has found -/

theorem bind_ok {α β : Type} {x : LoadM α} {f : α → LoadM β} {b : β} :
    (x >>= f) = .ok b ↔ ∃ a, x = .ok a ∧ f a = .ok b := by
  cases x with
  | error e => simp [bind, Except.bind]
  | ok a => simp [bind, Except.bind]

theorem need_ok {α : Type} {o : Option α} {a : α} : need o = .ok a ↔ o = some a := by
  cases o with
  | none => simp [need]
  | some a => simp [need]

theorem loadRoot_ok {file : Option Node} :
    loadRoot file = .ok root ↔ file = some root ∧ nodeType root = .compound := by
  rw [loadRoot, need_ok]
  simp [Option.filter_eq_some_iff]

/-- The sizes of a map are those in its tree. -/
theorem sizes_of_load {env : LoadEnv} (h : tcMapLoad env (some root) = .ok m) :
    expect .short root ["ClassicWorld", "X"] = some m.xSize ∧
      expect .short root ["ClassicWorld", "Y"] = some m.ySize ∧
      expect .short root ["ClassicWorld", "Z"] = some m.zSize := by
  simp only [tcMapLoad, bind_ok, loadRoot_ok, loadSize, required_eq, need_ok, Option.some.injEq] at h
  obtain ⟨r, ⟨rfl, -⟩, _, _, _, _, _, _, x, hx, y, hy, z, hz, h⟩ := h
  obtain ⟨_, _, _, _, _, _, _, _, _, _, _, _, _, _, _, _, _, _, h⟩ := h
  obtain ⟨_, _, _, _, _, _, _, _, _, _, _, _, h⟩ := h
  obtain rfl := Except.ok.inj h
  exact ⟨hx, hy, hz⟩

/-! ## Indices -/

/-- The last index of a map of these sizes. -/
theorem index_lt {X Y Z x y z : Int} (hx : x < X) (hy : y < Y) (hz : z < Z) (hX : 0 < X) (hZ : 0 < Z) :
    (y * Z + z) * X + x < X * Y * Z := by
  have hrow : y * Z + z + 1 ≤ Y * Z := by
    have : (y + 1) * Z ≤ Y * Z := Int.mul_le_mul_of_nonneg_right (by omega) (by omega)
    rw [Int.add_mul] at this
    omega
  have hcolumn : (y * Z + z + 1) * X ≤ Y * Z * X := Int.mul_le_mul_of_nonneg_right hrow (by omega)
  have hvolume : X * Y * Z = Y * Z * X := by rw [Int.mul_assoc, Int.mul_comm]
  rw [Int.add_mul] at hcolumn
  omega

section

variable {X Y Z : BitVec 16} (hX : 1 ≤ X.toInt) (hY : 1 ≤ Y.toInt) (hZ : 1 ≤ Z.toInt)
  (hsmall : X.toInt * Y.toInt * Z.toInt < 2 ^ 31)

include hX hY hZ hsmall

theorem volume_exact : ((volume X Y Z).toNat : Int) = X.toInt * Y.toInt * Z.toInt := by
  have hxy : 0 ≤ X.toInt * Y.toInt := Int.mul_nonneg (by omega) (by omega)
  have hxy' := Int.mul_le_mul_of_nonneg_left hZ hxy
  rw [Int.mul_one] at hxy'
  have hprod : (X.signExtend 32 * Y.signExtend 32).toInt = X.toInt * Y.toInt := by
    rw [toInt_mul_of_lt]
    all_goals simp only [BitVec.toInt_signExtend_of_le (show 16 ≤ 32 by decide)]
    all_goals omega
  have hvolume : (X.signExtend 32 * Y.signExtend 32 * Z.signExtend 32).toInt =
      X.toInt * Y.toInt * Z.toInt := by
    rw [toInt_mul_of_lt]
    all_goals simp only [hprod, BitVec.toInt_signExtend_of_le (show 16 ≤ 32 by decide)]
    all_goals omega
  rw [volume, toNat_signExtend_of_nonneg (by decide) (by omega), hvolume]

/-- The array of a map of these sizes has exactly one byte for each block. -/
theorem length_blockArray (b : Blocks X Y Z) :
    (b.blockArray.val.length : Int) = X.toInt * Y.toInt * Z.toInt := by
  have hlen := b.blockArray.property
  have hnat := congrArg BitVec.toNat b.dimensions
  rw [BitVec.toNat_ofNat, Nat.mod_eq_of_lt (by omega)] at hnat
  rw [hnat]
  exact volume_exact hX hY hZ hsmall

end

/-- The index of a block in a map of sound sizes is exact. -/
theorem blockIndex_exact (hX : 1 ≤ m.xSize.toInt) (hZ : 1 ≤ m.zSize.toInt)
    (hsmall : m.xSize.toInt * m.ySize.toInt * m.zSize.toInt < 2 ^ 31) {x y z : BitVec 16}
    (hx : 0 ≤ x.toInt ∧ x.toInt < m.xSize.toInt) (hy : 0 ≤ y.toInt ∧ y.toInt < m.ySize.toInt)
    (hz : 0 ≤ z.toInt ∧ z.toInt < m.zSize.toInt) :
    ((blockIndex m x y z).toNat : Int) = (y.toInt * m.zSize.toInt + z.toInt) * m.xSize.toInt + x.toInt := by
  have hlt := index_lt hx.2 hy.2 hz.2 (by omega) (by omega)
  have hrow : 0 ≤ y.toInt * m.zSize.toInt := Int.mul_nonneg (by omega) (by omega)
  have hplane : 0 ≤ (y.toInt * m.zSize.toInt + z.toInt) * m.xSize.toInt := Int.mul_nonneg (by omega) (by omega)
  have hplane' := Int.mul_le_mul_of_nonneg_left hX (show 0 ≤ y.toInt * m.zSize.toInt + z.toInt by omega)
  rw [Int.mul_one] at hplane'
  have h₁ : (y.signExtend 32 * m.zSize.signExtend 32).toInt = y.toInt * m.zSize.toInt := by
    rw [toInt_mul_of_lt]
    all_goals simp only [BitVec.toInt_signExtend_of_le (show 16 ≤ 32 by decide)]
    all_goals omega
  have h₂ : (y.signExtend 32 * m.zSize.signExtend 32 + z.signExtend 32).toInt =
      y.toInt * m.zSize.toInt + z.toInt := by
    rw [toInt_add_of_lt]
    all_goals simp only [h₁, BitVec.toInt_signExtend_of_le (show 16 ≤ 32 by decide)]
    all_goals omega
  have h₃ : ((y.signExtend 32 * m.zSize.signExtend 32 + z.signExtend 32) * m.xSize.signExtend 32).toInt =
      (y.toInt * m.zSize.toInt + z.toInt) * m.xSize.toInt := by
    rw [toInt_mul_of_lt]
    all_goals simp only [h₂, BitVec.toInt_signExtend_of_le (show 16 ≤ 32 by decide)]
    all_goals omega
  have h₄ : ((y.signExtend 32 * m.zSize.signExtend 32 + z.signExtend 32) * m.xSize.signExtend 32 +
      x.signExtend 32).toInt = (y.toInt * m.zSize.toInt + z.toInt) * m.xSize.toInt + x.toInt := by
    rw [toInt_add_of_lt]
    all_goals simp only [h₃, BitVec.toInt_signExtend_of_le (show 16 ≤ 32 by decide)]
    all_goals omega
  rw [blockIndex, indexIn, toNat_signExtend_of_nonneg (by decide) (by omega), h₄]

/-! ## Sound dimensions -/

/-- The sizes are positive, `block_array` has their product, and the index of
every block is inside of the arrays. -/
structure SoundDimensions (xSize ySize zSize : BitVec 16) (length : Nat) (length2 : Option Nat) : Prop where
  sizes : 1 ≤ xSize.toInt ∧ 1 ≤ ySize.toInt ∧ 1 ≤ zSize.toInt
  count : (length : Int) = xSize.toInt * ySize.toInt * zSize.toInt
  index : ∀ x y z : BitVec 16, 0 ≤ x.toInt ∧ x.toInt < xSize.toInt →
    0 ≤ y.toInt ∧ y.toInt < ySize.toInt → 0 ≤ z.toInt ∧ z.toInt < zSize.toInt →
      (indexIn xSize zSize x y z).toNat < length ∧ ∀ n ∈ length2, (indexIn xSize zSize x y z).toNat / 4 < n

/-- The dimensions of a map are sound. -/
abbrev Sound (m : TcMap) : Prop :=
  SoundDimensions m.xSize m.ySize m.zSize m.blocks.blockArray.val.length (m.blocks.blockArray2.map (·.val.length))

/-- The sizes in a tree are positive, with a product that fits in an `int`. -/
def SmallSizes (root : Node) : Prop :=
  ∃ x y z, expect .short root ["ClassicWorld", "X"] = some x ∧
    expect .short root ["ClassicWorld", "Y"] = some y ∧
    expect .short root ["ClassicWorld", "Z"] = some z ∧
    1 ≤ x.toInt ∧ 1 ≤ y.toInt ∧ 1 ≤ z.toInt ∧ x.toInt * y.toInt * z.toInt < 2 ^ 31

theorem soundDimensions_of_small (hX : 1 ≤ m.xSize.toInt) (hY : 1 ≤ m.ySize.toInt) (hZ : 1 ≤ m.zSize.toInt)
    (hsmall : m.xSize.toInt * m.ySize.toInt * m.zSize.toInt < 2 ^ 31) : Sound m := by
  have hcount := length_blockArray hX hY hZ hsmall m.blocks
  refine ⟨⟨hX, hY, hZ⟩, hcount, fun x y z hx hy hz => ?_⟩
  have hindex := blockIndex_exact hX hZ hsmall hx hy hz
  have hlt := index_lt hx.2 hy.2 hz.2 (by omega) (by omega)
  have hin : (blockIndex m x y z).toNat < m.blocks.blockArray.val.length := by omega
  refine ⟨hin, fun n hn => ?_⟩
  obtain ⟨a, ha, rfl⟩ := Option.map_eq_some_iff.mp hn
  have henough := m.blocks.enough2 a ha
  show (blockIndex m x y z).toNat / 4 < a.val.length
  omega

/-- A map that is made of a tree is sound if and only if the sizes in the tree are
positive and their product fits in an `int`. -/
theorem sound_iff {env : LoadEnv} (h : tcMapLoad env (some root) = .ok m) : Sound m ↔ SmallSizes root := by
  obtain ⟨hx, hy, hz⟩ := sizes_of_load h
  constructor
  · intro hs
    have hlen := m.blocks.blockArray.property
    refine ⟨_, _, _, hx, hy, hz, hs.sizes.1, hs.sizes.2.1, hs.sizes.2.2, ?_⟩
    rw [← hs.count]
    omega
  · rintro ⟨x, y, z, hx', hy', hz', hX, hY, hZ, hsmall⟩
    cases hx.symm.trans hx'
    cases hy.symm.trans hy'
    cases hz.symm.trans hz'
    exact soundDimensions_of_small hX hY hZ hsmall

theorem minusOne_dimensions : BitVec.ofNat 64 [(1 : Byte)].length = volume (-1) (-1) 1 := by decide

/-- A map of one block, of the sizes -1, -1 and 1. -/
def minusOne : TcMap :=
  { oneBlock with
    xSize := -1
    ySize := -1
    blocks := { oneBlock.blocks with dimensions := minusOne_dimensions }
    envAppearanceExtension := none }

end TC.Proof.Map
