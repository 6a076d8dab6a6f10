import TeleClassic.Impl.MapFile

/-!
# Blocks written to a map

A block that was written is read back, up to the bits that the arrays keep, and
the other blocks stay (`get_set`, `get_set_of_ne`). So reading a map after any writes
gives the last one of that block, or what was there before (`getBlock_edited`).
-/

namespace TC.Proof.Map

open TC.Impl.Nbt TC.Impl.Map

/-! ## The two high bits -/

theorem shift_cases (i : Nat) : shift i = 0 ∨ shift i = 2 ∨ shift i = 4 ∨ shift i = 6 := by
  have hmod := Nat.mod_lt i (by decide : 0 < 4)
  simp only [shift]
  omega

theorem shift_ne {i j : Nat} (hdiv : i / 4 = j / 4) (hne : i ≠ j) : shift i ≠ shift j := by
  simp only [shift]
  omega

/-- The bits of the mask `0x3`. -/
theorem getLsbD_three {w k : Nat} : (BitVec.ofNat w 0x3).getLsbD k = (decide (k < w) && decide (k < 2)) := by
  rw [BitVec.getLsbD_ofNat]
  congr 1
  rcases (by omega : k = 0 ∨ k = 1 ∨ 2 ≤ k) with rfl | rfl | hk
  · rfl
  · rfl
  · rw [Nat.testBit_lt_two_pow (Nat.lt_of_lt_of_le (by decide : 3 < 2 ^ 2) (Nat.pow_le_pow_right (by decide) hk))]
    simp only [Bool.false_eq, decide_eq_false_iff_not]
    omega

/-- The sign that a byte is extended with does not reach its own bits. -/
theorem getLsbD_promoted (b : Byte) {k : Nat} (hk : k < 8) : (b.signExtend 32).getLsbD k = b.getLsbD k := by
  rw [BitVec.getLsbD_signExtend, if_pos hk, decide_eq_true (by omega : k < 32), Bool.true_and]

theorem getLsbD_highBits (high : Byte) (i k : Nat) :
    (highBits high i).getLsbD k = (decide (k = 8 ∨ k = 9) && high.getLsbD (shift i + (k - 8))) := by
  have hcases := shift_cases i
  simp only [highBits, BitVec.ofNat_eq_ofNat, BitVec.getLsbD_setWidth, BitVec.getLsbD_shiftLeft, BitVec.getLsbD_and,
    getLsbD_three, BitVec.getLsbD_sshiftRight]
  by_cases hk : k = 8 ∨ k = 9
  · rw [if_pos (show shift i + (k - 8) < 32 by omega), getLsbD_promoted high (by omega)]
    simp [hk, show k < 16 by omega, show k < 32 by omega, show ¬ k < 8 by omega, show ¬ 32 ≤ k - 8 by omega,
      show k - 8 < 32 by omega, show k - 8 < 2 by omega]
  · simp only [hk, decide_false, Bool.false_and]
    simp
    omega

theorem getLsbD_withHighBits (high : Byte) (i : Nat) (block : BitVec 16) {k : Nat} (hk : k < 8) :
    (withHighBits high i block).getLsbD k =
      if k = shift i ∨ k = shift i + 1 then block.getLsbD (8 + (k - shift i)) else high.getLsbD k := by
  simp only [withHighBits, BitVec.ofNat_eq_ofNat, BitVec.getLsbD_setWidth, BitVec.getLsbD_or, BitVec.getLsbD_and,
    BitVec.getLsbD_not, BitVec.getLsbD_shiftLeft, getLsbD_three, BitVec.getLsbD_ushiftRight, getLsbD_promoted high hk]
  by_cases hin : k = shift i ∨ k = shift i + 1
  · simp [hin, hk, show k < 32 by omega, show ¬ k < shift i by omega, show k - shift i < 2 by omega,
      show k - shift i < 32 by omega, show 8 + (k - shift i) < 32 by omega]
  · rcases (by omega : k < shift i ∨ shift i + 1 < k) with hlt | hlt
    · simp [hin, hk, hlt, show k < 32 by omega]
    · simp [hin, hk, show k < 32 by omega, show ¬ k - shift i < 2 by omega]

theorem highBits_self (high : Byte) (i : Nat) (block : BitVec 16) :
    highBits (withHighBits high i block) i = (block >>> 8 &&& 0x3) <<< 8 := by
  refine BitVec.eq_of_getLsbD_eq fun k hk => ?_
  have hcases := shift_cases i
  rw [getLsbD_highBits, BitVec.getLsbD_shiftLeft, BitVec.getLsbD_and, BitVec.getLsbD_ushiftRight,
    BitVec.ofNat_eq_ofNat, getLsbD_three]
  by_cases h : k = 8 ∨ k = 9
  · rw [getLsbD_withHighBits high i block (by omega), if_pos (by omega)]
    simp [h, hk, show ¬ k < 8 by omega, show k - 8 < 16 by omega, show k - 8 < 2 by omega]
  · rcases (by omega : k < 8 ∨ 9 < k) with hlt | hlt
    · simp [h, hlt]
    · simp [h, show ¬ k - 8 < 2 by omega]

theorem highBits_other (high : Byte) {i j : Nat} (h : shift i ≠ shift j) (block : BitVec 16) :
    highBits (withHighBits high i block) j = highBits high j := by
  refine BitVec.eq_of_getLsbD_eq fun k hk => ?_
  have hi := shift_cases i
  have hj := shift_cases j
  rw [getLsbD_highBits, getLsbD_highBits]
  by_cases hk : k = 8 ∨ k = 9
  · rw [getLsbD_withHighBits high i block (by omega), if_neg (by omega)]
  · simp [hk]

theorem lowBits_eq (low : Byte) : lowBits low = low.setWidth 16 := by
  have hall : ∀ b : Fin 256, lowBits (BitVec.ofNat 8 b) = (BitVec.ofNat 8 b).setWidth 16 := by decide +kernel
  simpa using hall low.toFin

theorem lowBits_setWidth (block : BitVec 16) : lowBits (block.setWidth 8) = block % 256 := by
  rw [lowBits_eq]
  refine BitVec.eq_of_toNat_eq ?_
  simp
  omega

/-- The two parts of a block. -/
theorem lowBits_or_high (block : BitVec 16) :
    lowBits (block.setWidth 8) ||| ((block >>> 8 &&& 0x3) <<< 8) = block % 1024 := by
  have hmod : block % 1024 = (block.setWidth 10).setWidth 16 := by
    refine BitVec.eq_of_toNat_eq ?_
    simp
    omega
  rw [lowBits_eq, hmod]
  refine BitVec.eq_of_getLsbD_eq fun k hk => ?_
  rw [BitVec.getLsbD_or, BitVec.getLsbD_shiftLeft, BitVec.getLsbD_and, BitVec.getLsbD_ushiftRight,
    BitVec.ofNat_eq_ofNat, getLsbD_three]
  simp only [BitVec.getLsbD_setWidth]
  rcases (by omega : k < 8 ∨ (8 ≤ k ∧ k < 10) ∨ 10 ≤ k) with h | h | h
  · simp [h, hk, show k < 10 by omega]
  · simp [hk, h.2, show ¬ k < 8 by omega, show k - 8 < 16 by omega, show k - 8 < 2 by omega,
      show 8 + (k - 8) = k by omega]
  · simp [show ¬ k < 8 by omega, show ¬ k < 10 by omega, show ¬ k - 8 < 2 by omega]

/-! ## One block -/

section

variable {xSize ySize zSize : BitVec 16} {b b' : Blocks xSize ySize zSize} {index : Nat} {block : BitVec 16}

theorem set_inside (h : b.set index block = some b') :
    index < b.blockArray.val.length ∧ ∀ a ∈ b.blockArray2, index / 4 < a.val.length := by
  rw [Blocks.set] at h
  split at h
  · assumption
  · cases h

theorem set_arrays (h : b.set index block = some b') :
    b'.blockArray = Bytes.set b.blockArray index (block.setWidth 8) ∧
      b'.blockArray2 = b.blockArray2.map (setHigh · index block) := by
  rw [Blocks.set] at h
  split at h
  · cases h
    exact ⟨rfl, rfl⟩
  · cases h

/-- What the arrays keep of a block. -/
def Blocks.stored (b : Blocks xSize ySize zSize) (block : BitVec 16) : BitVec 16 :=
  if b.blockArray2.isSome then block % 1024 else block % 256

theorem get_set (h : b.set index block = some b') : b'.get index = some (Blocks.stored b block) := by
  obtain ⟨hinside, hinside2⟩ := set_inside h
  obtain ⟨harray, harray2⟩ := set_arrays h
  have hlow : b'.blockArray.val[index]? = some (block.setWidth 8) := by
    rw [harray]
    exact List.getElem?_set_self hinside
  rw [Blocks.get, hlow, harray2, Blocks.stored]
  cases hb : b.blockArray2 with
  | none => exact congrArg some (lowBits_setWidth block)
  | some a =>
    have hhigh : (setHigh a index block).val[index / 4]? =
        some (withHighBits (a.val.getD (index / 4) 0) index block) := List.getElem?_set_self (hinside2 a hb)
    show ((setHigh a index block).val[index / 4]?).bind _ = _
    rw [hhigh, Option.bind_some, highBits_self]
    exact congrArg some (lowBits_or_high block)

/-- The blocks that the arrays can hold. -/
def Blocks.Holds (b : Blocks xSize ySize zSize) (block : BitVec 16) : Prop :=
  block.toNat < if b.blockArray2.isSome then 1024 else 256

instance (b : Blocks xSize ySize zSize) (block : BitVec 16) : Decidable (Blocks.Holds b block) :=
  inferInstanceAs (Decidable (_ < _))

theorem stored_of_holds (hholds : Blocks.Holds b block) : Blocks.stored b block = block := by
  rw [Blocks.Holds] at hholds
  rw [Blocks.stored]
  split
  · rename_i h
    rw [if_pos h] at hholds
    exact BitVec.eq_of_toNat_eq (by simpa using Nat.mod_eq_of_lt hholds)
  · rename_i h
    rw [if_neg h] at hholds
    exact BitVec.eq_of_toNat_eq (by simpa using Nat.mod_eq_of_lt hholds)

theorem get_set_self (h : b.set index block = some b') (hholds : Blocks.Holds b block) :
    b'.get index = some block := by
  rw [get_set h, stored_of_holds hholds]

theorem get_set_of_ne (h : b.set index block = some b') {j : Nat} (hj : j ≠ index) : b'.get j = b.get j := by
  obtain ⟨-, hinside2⟩ := set_inside h
  obtain ⟨harray, harray2⟩ := set_arrays h
  have hlow : b'.blockArray.val[j]? = b.blockArray.val[j]? := by
    rw [harray]
    exact List.getElem?_set_ne hj.symm
  rw [Blocks.get, Blocks.get, hlow, harray2]
  cases hb : b.blockArray2 with
  | none => rfl
  | some a =>
    by_cases hdiv : index / 4 = j / 4
    · -- a byte that the two blocks share
      have hold : a.val[j / 4]? = some (a.val.getD (index / 4) 0) := by
        have hlt := hinside2 a hb
        rw [List.getD_eq_getElem?_getD, ← hdiv, List.getElem?_eq_getElem hlt, Option.getD_some]
      have hnew : (setHigh a index block).val[j / 4]? =
          some (withHighBits (a.val.getD (index / 4) 0) index block) := by
        rw [← hdiv]
        exact List.getElem?_set_self (hinside2 a hb)
      simp only [Option.map_some, hold, hnew, Option.bind_eq_bind, Option.bind_some,
        highBits_other _ (shift_ne hdiv hj.symm)]
    · have hhigh : (setHigh a index block).val[j / 4]? = a.val[j / 4]? := List.getElem?_set_ne hdiv
      simp only [Option.map_some, hhigh]

end

/-! ## Many writes -/

/-- A map after these writes. -/
def edited (m : TcMap) (ws : List BlockWrite) : Option TcMap :=
  ws.foldlM (fun m w => tcMapSetBlockIndex m w.x w.y w.z w.block) m

/-- The last of these writes to a block. -/
def lastWritten (m : TcMap) (ws : List BlockWrite) (x y z : BitVec 16) : Option (BitVec 16) :=
  (ws.reverse.find? fun w => blockIndex m w.x w.y w.z = blockIndex m x y z).map BlockWrite.block

theorem edited_append (m : TcMap) (ws : List BlockWrite) (w : BlockWrite) :
    edited m (ws ++ [w]) = (edited m ws).bind fun m' => tcMapSetBlockIndex m' w.x w.y w.z w.block := by
  simp [edited, List.foldlM_append]

theorem lastWritten_append (m : TcMap) (ws : List BlockWrite) (w : BlockWrite) (x y z : BitVec 16) :
    lastWritten m (ws ++ [w]) x y z =
      if blockIndex m w.x w.y w.z = blockIndex m x y z then some w.block else lastWritten m ws x y z := by
  rw [lastWritten, List.reverse_append, List.reverse_singleton, List.singleton_append, List.find?_cons]
  by_cases h : blockIndex m w.x w.y w.z = blockIndex m x y z
  · simp [h]
  · simp [h, lastWritten]

theorem getBlock_set {m m' : TcMap} {w : BlockWrite} (h : tcMapSetBlockIndex m w.x w.y w.z w.block = some m')
    (hholds : Blocks.Holds m.blocks w.block) (x y z : BitVec 16) :
    tcMapGetBlockIndex m' x y z =
      if blockIndex m w.x w.y w.z = blockIndex m x y z then some w.block else tcMapGetBlockIndex m x y z := by
  obtain ⟨blocks, hblocks, rfl⟩ := Option.map_eq_some_iff.mp h
  show blocks.get (blockIndex m x y z).toNat = _
  by_cases hindex : blockIndex m w.x w.y w.z = blockIndex m x y z
  · rw [if_pos hindex, ← hindex]
    exact get_set_self hblocks hholds
  · rw [if_neg hindex]
    exact get_set_of_ne hblocks fun heq => hindex (BitVec.eq_of_toNat_eq heq.symm)

/-- What a write does not change. -/
theorem set_frame {m m' : TcMap} {w : BlockWrite} (h : tcMapSetBlockIndex m w.x w.y w.z w.block = some m') :
    blockIndex m' = blockIndex m ∧ Blocks.Holds m'.blocks = Blocks.Holds m.blocks := by
  obtain ⟨blocks, hblocks, rfl⟩ := Option.map_eq_some_iff.mp h
  refine ⟨rfl, ?_⟩
  show Blocks.Holds blocks = _
  funext block
  rw [Blocks.Holds, (set_arrays hblocks).2, Option.isSome_map]
  rfl

theorem edited_frame {m m' : TcMap} {ws : List BlockWrite} (h : edited m ws = some m') :
    blockIndex m' = blockIndex m ∧ Blocks.Holds m'.blocks = Blocks.Holds m.blocks := by
  induction ws using List.reverseRecOn generalizing m' with
  | nil =>
    obtain rfl := Option.some.inj h
    exact ⟨rfl, rfl⟩
  | append_singleton ws w ih =>
    rw [edited_append] at h
    obtain ⟨m₁, h₁, hset⟩ := Option.bind_eq_some_iff.mp h
    obtain ⟨hindex, hholds⟩ := set_frame hset
    exact ⟨hindex.trans (ih h₁).1, hholds.trans (ih h₁).2⟩

/-- Reading a block of a map after writes that its arrays can hold. -/
theorem getBlock_edited {m m' : TcMap} {ws : List BlockWrite} (h : edited m ws = some m')
    (hholds : ∀ w ∈ ws, Blocks.Holds m.blocks w.block) (x y z : BitVec 16) :
    tcMapGetBlockIndex m' x y z = (lastWritten m ws x y z <|> tcMapGetBlockIndex m x y z) := by
  induction ws using List.reverseRecOn generalizing m' with
  | nil =>
    obtain rfl := Option.some.inj h
    rfl
  | append_singleton ws w ih =>
    rw [edited_append] at h
    obtain ⟨m₁, h₁, hset⟩ := Option.bind_eq_some_iff.mp h
    obtain ⟨hindex, hfits⟩ := edited_frame h₁
    rw [getBlock_set hset (by rw [hfits]; exact hholds w (by simp)), hindex, lastWritten_append,
      ih h₁ fun w' hw' => hholds w' (by simp [hw'])]
    split <;> rfl

end TC.Proof.Map
