import TeleClassic.Impl.Nbt

/-!
# Compression (`utils.c`)

The two functions that compress a block array, over zlib: what a call of
`deflateInit2`, `deflate` or `p_malloc` answers is given (`Zlib`). A stream that
`deflate` has not ended counts as nothing.
-/

namespace TC.Impl.Compress

open TC.Impl.Nbt (Bytes)

/-- What one call of the functions below gets from outside. -/
structure Zlib where
  /-- The copy of the input can be allocated. -/
  mallocInput : Bool
  mallocOutput : Bool
  /-- `deflateInit2` returns `Z_OK` for these `windowBits`. -/
  deflateInit2 : Int → Bool
  compressBound : Nat → Nat
  /-- `deflate` with `Z_FINISH`, for `windowBits`, the bytes at `next_in` and
  `avail_out`: what is written if it returns `Z_STREAM_END`. -/
  deflate : Int → List Byte → Nat → Option (List Byte)

/-- `compressBound` of zlib, where `uLong` and `z_size_t` have 64 bits. -/
def compressBound (sourceLen : Nat) : Nat :=
  let bound := (sourceLen + (sourceLen >>> 12) + (sourceLen >>> 14) + (sourceLen >>> 25) + 13) % 2 ^ 64
  if bound < sourceLen then 2 ^ 64 - 1 else bound

/-- A `psize` as a `uInt`. -/
def uInt (n : Nat) : Nat := n % 2 ^ 32

/-- 15 for the window size, 16 for the gzip header. -/
def gzipBits : Int := 15 + 16

/-- -15 for raw deflate. -/
def rawBits : Int := -15

def writeU32Be (v : BitVec 32) : List Byte :=
  [v.extractLsb' 24 8, v.extractLsb' 16 8, v.extractLsb' 8 8, v.extractLsb' 0 8]

/-- The part that is the same in both functions. -/
def deflateAll (z : Zlib) (windowBits : Int) (input : List Byte) : Option (List Byte) :=
  if !z.deflateInit2 windowBits then none
  else if !z.mallocOutput then none
  else z.deflate windowBits (input.take (uInt input.length)) (uInt (z.compressBound input.length))

/-- The array with its length before it. -/
def newInput (input : Bytes) : List Byte := writeU32Be (BitVec.ofNat 32 input.val.length) ++ input.val

def tcGzipByteArray (z : Zlib) (input : Bytes) : Option (List Byte) :=
  if !z.mallocInput then none else deflateAll z gzipBits (newInput input)

def tcDeflateByteArray (z : Zlib) (input : Bytes) : Option (List Byte) := deflateAll z rawBits input.val

end TC.Impl.Compress
