import TeleClassic.Proof.Protocol

/-!
# Integers on the wire

The decoder extends each byte with its sign before it combines them, so a
negative byte sets all the bits above it (`getLsbD_decodeShort`,
`getLsbD_decodeInt`). An integer that was sent is decoded as itself if and only if
the bytes before each negative byte are all ones (`survives_iff`).
-/

namespace TC.Proof.Protocol

open TC.Impl.Protocol

/-! ## Bits -/

theorem getLsbD_sentInt (b0 b1 b2 b3 : Byte) {j : Nat} (h : j < 32) :
    (sentInt b0 b1 b2 b3).getLsbD j =
      if j < 8 then b3.getLsbD j
      else if j < 16 then b2.getLsbD (j - 8)
      else if j < 24 then b1.getLsbD (j - 16)
      else b0.getLsbD (j - 24) := by
  rw [sentInt]
  by_cases h8 : j < 8
  · simp [h8, h, show j < 16 by omega, show j < 24 by omega]
  by_cases h16 : j < 16
  · simp [h8, h16, h, show j < 24 by omega, BitVec.getLsbD_of_ge b3 j (by omega)]
  by_cases h24 : j < 24
  · simp [h8, h16, h24, h, BitVec.getLsbD_of_ge b3 j (by omega), BitVec.getLsbD_of_ge b2 (j - 8) (by omega)]
  · simp [h8, h16, h24, h, BitVec.getLsbD_of_ge b3 j (by omega), BitVec.getLsbD_of_ge b2 (j - 8) (by omega),
      BitVec.getLsbD_of_ge b1 (j - 16) (by omega)]

theorem getLsbD_decodeInt (b0 b1 b2 b3 : Byte) {j : Nat} (h : j < 32) :
    (tcProtocolDecodeInt b0 b1 b2 b3).getLsbD j =
      if j < 8 then b3.getLsbD j
      else if j < 16 then b2.getLsbD (j - 8) || b3.msb
      else if j < 24 then b1.getLsbD (j - 16) || b2.msb || b3.msb
      else b0.getLsbD (j - 24) || b1.msb || b2.msb || b3.msb := by
  rw [tcProtocolDecodeInt]
  simp only [BitVec.getLsbD_or, BitVec.getLsbD_shiftLeft, BitVec.getLsbD_signExtend]
  by_cases h8 : j < 8
  · simp [h8, h, show j < 16 by omega, show j < 24 by omega]
  by_cases h16 : j < 16
  · simp [h8, h16, h, show j < 24 by omega, show j - 8 < 8 by omega, show j - 8 < 32 by omega]
  by_cases h24 : j < 24
  · simp [h8, h16, h24, h, show ¬ j - 8 < 8 by omega, show j - 8 < 32 by omega, show j - 16 < 8 by omega,
      show j - 16 < 32 by omega]
  · simp [h8, h16, h24, h, show ¬ j - 8 < 8 by omega, show j - 8 < 32 by omega, show ¬ j - 16 < 8 by omega,
      show j - 16 < 32 by omega, show j - 24 < 8 by omega, show j - 24 < 32 by omega]

/-- A byte keeps its bits under a sign from below if that is no sign or all of its
bits are set. -/
theorem or_sign_iff {b : Byte} {sign : Bool} :
    (∀ k < 8, (b.getLsbD k || sign) = b.getLsbD k) ↔ (sign = true → b = 0xFF) := by
  have hones : ∀ k < 8, (0xFF : Byte).getLsbD k = true := by decide
  constructor
  · intro h hsign
    refine BitVec.eq_of_getLsbD_eq fun k hk => ?_
    rw [hones k hk, ← h k hk, hsign, Bool.or_true]
  · intro h k hk
    cases sign with
    | false => rw [Bool.or_false]
    | true => rw [h rfl, hones k hk, Bool.or_true]

/-! ## Decoding what was sent -/

theorem decodeShort_eq_iff {b0 b1 : Byte} :
    tcProtocolDecodeShort b0 b1 = sentShort b0 b1 ↔ (b1.msb = true → b0 = 0xFF) := by
  rw [← or_sign_iff]
  constructor
  · intro h k hk
    have hbit : (tcProtocolDecodeShort b0 b1).getLsbD (k + 8) = (sentShort b0 b1).getLsbD (k + 8) := by rw [h]
    rw [getLsbD_decodeShort b0 b1 (by omega), getLsbD_sentShort b0 b1 (by omega)] at hbit
    simpa [show ¬ k + 8 < 8 by omega] using hbit
  · intro h
    refine BitVec.eq_of_getLsbD_eq fun j hj => ?_
    rw [getLsbD_decodeShort b0 b1 hj, getLsbD_sentShort b0 b1 hj]
    split
    · rfl
    · exact h (j - 8) (by omega)

/-- The bytes above each negative byte are all ones. -/
def SignsAgree (b0 b1 b2 b3 : Byte) : Prop :=
  (b1.msb = true → b0 = 0xFF) ∧ (b2.msb = true → b0 = 0xFF ∧ b1 = 0xFF) ∧
    (b3.msb = true → b0 = 0xFF ∧ b1 = 0xFF ∧ b2 = 0xFF)

/-- The same, byte by byte. -/
theorem signsAgree_iff {b0 b1 b2 b3 : Byte} :
    SignsAgree b0 b1 b2 b3 ↔ ((b1.msb || b2.msb || b3.msb) = true → b0 = 0xFF) ∧
      ((b2.msb || b3.msb) = true → b1 = 0xFF) ∧ (b3.msb = true → b2 = 0xFF) := by
  simp only [SignsAgree, Bool.or_eq_true]
  tauto

theorem decodeInt_eq_iff {b0 b1 b2 b3 : Byte} :
    tcProtocolDecodeInt b0 b1 b2 b3 = sentInt b0 b1 b2 b3 ↔ SignsAgree b0 b1 b2 b3 := by
  rw [signsAgree_iff, ← or_sign_iff, ← or_sign_iff, ← or_sign_iff]
  constructor
  · intro h
    have hbit (j : Nat) : (tcProtocolDecodeInt b0 b1 b2 b3).getLsbD j = (sentInt b0 b1 b2 b3).getLsbD j := by rw [h]
    refine ⟨fun k hk => ?_, fun k hk => ?_, fun k hk => ?_⟩
    · have h0 := hbit (k + 24)
      rw [getLsbD_decodeInt b0 b1 b2 b3 (by omega), getLsbD_sentInt b0 b1 b2 b3 (by omega)] at h0
      simpa [Bool.or_assoc, show ¬ k + 24 < 8 by omega, show ¬ k + 24 < 16 by omega,
        show ¬ k + 24 < 24 by omega] using h0
    · have h1 := hbit (k + 16)
      rw [getLsbD_decodeInt b0 b1 b2 b3 (by omega), getLsbD_sentInt b0 b1 b2 b3 (by omega)] at h1
      simpa [Bool.or_assoc, show ¬ k + 16 < 8 by omega, show ¬ k + 16 < 16 by omega,
        show k + 16 < 24 by omega] using h1
    · have h2 := hbit (k + 8)
      rw [getLsbD_decodeInt b0 b1 b2 b3 (by omega), getLsbD_sentInt b0 b1 b2 b3 (by omega)] at h2
      simpa [show ¬ k + 8 < 8 by omega, show k + 8 < 16 by omega] using h2
  · intro h
    obtain ⟨h0, h1, h2⟩ := h
    refine BitVec.eq_of_getLsbD_eq fun j hj => ?_
    rw [getLsbD_decodeInt _ _ _ _ hj, getLsbD_sentInt _ _ _ _ hj]
    split
    · rfl
    split
    · exact h2 (j - 8) (by omega)
    split
    · rw [Bool.or_assoc]
      exact h1 (j - 16) (by omega)
    · rw [Bool.or_assoc, Bool.or_assoc, ← Bool.or_assoc b1.msb]
      exact h0 (j - 24) (by omega)

theorem sentInt_bytes (v : BitVec 32) :
    sentInt (v.extractLsb' 24 8) (v.extractLsb' 16 8) (v.extractLsb' 8 8) (v.extractLsb' 0 8) = v := by
  refine BitVec.eq_of_getLsbD_eq fun j hj => ?_
  rw [getLsbD_sentInt _ _ _ _ hj]
  split
  · rename_i h
    simp [h]
  split
  · simp [show j - 8 < 8 by omega, show 8 + (j - 8) = j by omega]
  split
  · simp [show j - 16 < 8 by omega, show 16 + (j - 16) = j by omega]
  · simp [show j - 24 < 8 by omega, show 24 + (j - 24) = j by omega]

/-! ## Over a socket -/

/-- What a function sends over a socket that takes it. -/
def emitted (send : Stream → Bool × Stream) : List Byte := (send readySocket).2.accepted

theorem emitted_short (v : BitVec 16) :
    emitted (tcProtocolSendShort · v) = [v.extractLsb' 8 8, v.extractLsb' 0 8] := rfl

theorem emitted_int (w : BitVec 32) : emitted (tcProtocolSendInt · w) =
    [w.extractLsb' 24 8, w.extractLsb' 16 8, w.extractLsb' 8 8, w.extractLsb' 0 8] := rfl

/-- An integer that was sent is decoded as itself if and only if all the bytes
before each negative byte are all ones. -/
theorem survives_iff (v : BitVec 16) (w : BitVec 32) :
    (∃ b0 b1, emitted (tcProtocolSendShort · v) = [b0, b1] ∧
      (tcProtocolDecodeShort b0 b1 = v ↔ (b1.msb = true → b0 = 0xFF))) ∧
    ∃ b0 b1 b2 b3, emitted (tcProtocolSendInt · w) = [b0, b1, b2, b3] ∧
      (tcProtocolDecodeInt b0 b1 b2 b3 = w ↔ SignsAgree b0 b1 b2 b3) := by
  refine ⟨⟨_, _, emitted_short v, ?_⟩, _, _, _, _, emitted_int w, ?_⟩
  · rw [← decodeShort_eq_iff, sentShort_bytes]
  · rw [← decodeInt_eq_iff, sentInt_bytes]

/-- 128 comes back as -128, as a short and as an int. -/
theorem sign_leaks :
    (∃ b0 b1, emitted (tcProtocolSendShort · 128) = [b0, b1] ∧ tcProtocolDecodeShort b0 b1 = -128) ∧
    ∃ b0 b1 b2 b3, emitted (tcProtocolSendInt · 128) = [b0, b1, b2, b3] ∧ tcProtocolDecodeInt b0 b1 b2 b3 = -128 :=
  ⟨⟨_, _, rfl, by decide⟩, _, _, _, _, rfl, by decide⟩

end TC.Proof.Protocol
