import TeleClassic.Impl.Compress

/-!
# The room for compressed arrays

Both functions allocate `compressBound` bytes, which is the largest body of a
stream and 6 bytes for the wrapper of zlib's own format. A raw stream has no
wrapper and always fits (`deflate_succeeds`). A gzip stream has one of 18 bytes,
and fits if and only if its body is 5 bytes shorter than the input, not counting
the shifted terms (`compression_fits_iff`); the arrays of less than two blocks never fit
(`gzip_small_fails`).
-/

namespace TC.Proof.Compress

open TC.Impl.Nbt (Bytes)
open TC.Impl.Compress

/-- The largest body of a stream for that many bytes. -/
def bodyBound (sourceLen : Nat) : Nat :=
  sourceLen + (sourceLen >>> 12) + (sourceLen >>> 14) + (sourceLen >>> 25) + 7

/-- The bytes of the wrapper. -/
def gzipWrapper : Nat := 18

/-- A call in which the allocations and `deflateInit2` succeed, over a zlib that
writes `output`: `deflate` ends the stream exactly if the buffer can hold it, and
the streams have their wrapper and a body that is neither empty nor longer than
`bodyBound`. -/
structure Assumed (output : Int → List Byte → List Byte) (z : Zlib) : Prop where
  mallocInput : z.mallocInput = true
  mallocOutput : z.mallocOutput = true
  init : ∀ windowBits, z.deflateInit2 windowBits = true
  bound : z.compressBound = compressBound
  ends : ∀ windowBits input availOut, z.deflate windowBits input availOut =
    if (output windowBits input).length ≤ availOut then some (output windowBits input) else none
  gzip : ∀ input, ∃ body, (output gzipBits input).length = gzipWrapper + body ∧ 1 ≤ body ∧ body ≤ bodyBound input.length
  raw : ∀ input, 1 ≤ (output rawBits input).length ∧ (output rawBits input).length ≤ bodyBound input.length

variable {output : Int → List Byte → List Byte} {z : Zlib}

/-- Nothing overflows for arrays whose length is an `int`. -/
theorem compressBound_eq {n : Nat} (h : n < 2 ^ 31 + 4) :
    compressBound n = n + (n >>> 12) + (n >>> 14) + (n >>> 25) + 13 ∧ compressBound n < 2 ^ 32 := by
  have hle : n >>> 12 + n >>> 14 + n >>> 25 ≤ n := by
    simp only [Nat.shiftRight_eq_div_pow]
    omega
  have hmod : (n + (n >>> 12) + (n >>> 14) + (n >>> 25) + 13) % 2 ^ 64 =
      n + (n >>> 12) + (n >>> 14) + (n >>> 25) + 13 := Nat.mod_eq_of_lt (by omega)
  have heq : compressBound n = n + (n >>> 12) + (n >>> 14) + (n >>> 25) + 13 := by
    rw [compressBound, hmod, if_neg (by omega)]
  refine ⟨heq, ?_⟩
  rw [heq]
  simp only [Nat.shiftRight_eq_div_pow]
  omega

/-- The common part ends the stream if the whole output fits. -/
theorem deflateAll_eq (hz : Assumed output z) {windowBits : Int} {input : List Byte} (h : input.length < 2 ^ 31 + 4) :
    deflateAll z windowBits input =
      if (output windowBits input).length ≤ compressBound input.length then some (output windowBits input) else none := by
  have hbound := (compressBound_eq h).2
  have hinput : input.take (uInt input.length) = input := by
    rw [uInt, Nat.mod_eq_of_lt (by omega), List.take_length]
  rw [deflateAll, hz.init, hz.mallocOutput, hinput, hz.bound, uInt, Nat.mod_eq_of_lt hbound, hz.ends]
  rfl

/-- A raw stream fits. -/
theorem deflate_succeeds (hz : Assumed output z) (input : Bytes) :
    tcDeflateByteArray z input = some (output rawBits input.val) := by
  have hlen := input.property
  have hraw := (hz.raw input.val).2
  rw [tcDeflateByteArray, deflateAll_eq hz (by omega), if_pos]
  rw [(compressBound_eq (by omega)).1]
  exact hraw.trans (by rw [bodyBound]; omega)

theorem length_newInput (input : Bytes) : (newInput input).length = input.val.length + 4 := by
  rw [newInput, List.length_append, writeU32Be, Nat.add_comm]
  rfl

theorem gzip_eq (hz : Assumed output z) (input : Bytes) :
    tcGzipByteArray z input = if (output gzipBits (newInput input)).length ≤ compressBound (input.val.length + 4) then
      some (output gzipBits (newInput input)) else none := by
  have hlen := input.property
  have hnew := length_newInput input
  rw [tcGzipByteArray, hz.mallocInput, ← hnew, ← deflateAll_eq hz (by omega)]
  rfl

/-- With less than two blocks the wrapper leaves no room for a body. -/
theorem gzip_small_fails (hz : Assumed output z) {input : Bytes} (h : input.val.length < 2) :
    tcGzipByteArray z input = none := by
  obtain ⟨body, hbody, hpos, -⟩ := hz.gzip (newInput input)
  rw [gzip_eq hz, if_neg]
  rw [hbody, (compressBound_eq (by omega)).1, gzipWrapper]
  simp only [Nat.shiftRight_eq_div_pow]
  omega

/-- For every array and every zlib as assumed: a raw stream has room, and a gzip
stream of a body of `body` bytes has room if and only if that is at most the number
`m` of input bytes, its shifted terms and 13, less the 18 bytes of the wrapper. -/
theorem compression_fits_iff (hz : Assumed output z) (input : Bytes) (m body : Nat) (hm : m = input.val.length + 4)
    (hbody : (output gzipBits (newInput input)).length = gzipWrapper + body) :
    tcDeflateByteArray z input = some (output rawBits input.val) ∧
      (tcGzipByteArray z input = some (output gzipBits (newInput input)) ↔
        body + 5 ≤ m + (m >>> 12) + (m >>> 14) + (m >>> 25)) := by
  have hlen := input.property
  refine ⟨deflate_succeeds hz input, ?_⟩
  subst hm
  rw [gzip_eq hz, hbody, (compressBound_eq (by omega)).1, gzipWrapper]
  split
  · rename_i hfits
    exact iff_of_true rfl (by omega)
  · rename_i hfull
    exact iff_of_false (fun hnone => by cases hnone) (by omega)

/-- The wrapper of a stream, all zero. -/
def wrapper (windowBits : Int) : List Byte := if windowBits = gzipBits then List.replicate gzipWrapper 0 else []

/-- Streams whose body is one stored block: 5 bytes, and the input. -/
def storedStream (windowBits : Int) (input : List Byte) : List Byte :=
  wrapper windowBits ++ List.replicate 5 0 ++ input

/-- A zlib that does not compress. -/
def storingZlib : Zlib where
  mallocInput := true
  mallocOutput := true
  deflateInit2 _ := true
  compressBound := compressBound
  deflate windowBits input availOut :=
    if (storedStream windowBits input).length ≤ availOut then some (storedStream windowBits input) else none

theorem assumed_storingZlib : Assumed storedStream storingZlib where
  mallocInput := rfl
  mallocOutput := rfl
  init _ := rfl
  bound := rfl
  ends _ _ _ := rfl
  gzip input := by
    refine ⟨5 + input.length, ?_, by omega, by rw [bodyBound]; omega⟩
    simp only [storedStream, wrapper, if_true, List.length_append, List.length_replicate]
    omega
  raw input := by
    have hraw : (storedStream rawBits input).length = 5 + input.length := by
      simp only [storedStream, wrapper, show rawBits ≠ gzipBits by decide, if_false, List.nil_append,
        List.length_append, List.length_replicate]
    rw [hraw, bodyBound]
    omega

/-- One block. -/
def oneByte : Bytes := ⟨[1], by decide⟩

theorem compression_fits_iff_oneByte :
    tcDeflateByteArray storingZlib oneByte = some [0, 0, 0, 0, 0, 1] ∧
      (tcGzipByteArray storingZlib oneByte = some (storedStream gzipBits (newInput oneByte)) ↔ 10 + 5 ≤ 5) :=
  compression_fits_iff assumed_storingZlib oneByte 5 10 rfl rfl

/-- The map of one block is not compressed for gzip, as the wrapper alone takes the
18 bytes that are allocated. -/
theorem gzip_oneByte_fails : tcGzipByteArray storingZlib oneByte = none ∧ compressBound 5 = gzipWrapper :=
  ⟨gzip_small_fails assumed_storingZlib (by decide), by decide⟩

end TC.Proof.Compress
