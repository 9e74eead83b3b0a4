import Memcr.DumpFormat

namespace Memcr.BlockFormats

open Memcr.ByteWords
open Memcr.ByteMemory
open Memcr.DumpFormat

/-- A codec that decodes a block whole or copies nothing. -/
def wholeCodec (bound : Nat) (hbound : bound < 2 ^ 31) (encode : List Byte → List Byte)
    (decode : List Byte → Option (List Byte)) (limit : Nat) (hne : ∀ src, encode src ≠ [])
    (hle : ∀ src, src.length ≤ limit → (encode src).length ≤ bound)
    (hback : ∀ src, src.length ≤ limit → decode (encode src) = some src) : Codec where
  bound := bound
  compress src := if src.length ≤ limit then some (encode src) else none
  decompress src cap := (decode src).filter (·.length ≤ cap)
  reach src cap := (((decode src).filter (·.length ≤ cap)).getD []).length
  spoil _ _ buf := buf
  bound_lt := hbound
  compress_nonempty := by
    intro src dst h
    split_ifs at h
    cases h
    exact hne src
  compress_le := by
    intro src dst h
    split_ifs at h with hsrc
    cases h
    exact hle src hsrc
  reach_le := by
    intro src cap
    cases hout : (decode src).filter (·.length ≤ cap) with
    | none => simp
    | some out => simpa using (Option.filter_eq_some_iff.mp hout).2
  le_reach := by
    intro src cap out h
    rw [h]
    rfl
  spoil_outside := by
    intro src cap buf n hn
    rfl
  roundTrip := by
    intro src dst h
    split_ifs at h with hsrc
    cases h
    rw [hback src hsrc]
    simp

/-- What is left of a length behind a field of an LZ4 token that is full: bytes
of 255, and one that is smaller. -/
def lengthBytes (n : Nat) : List Byte :=
  List.replicate (n / 255) 255 ++ [UInt8.ofNat (n % 255)]

/-- A length in bytes of 255 and a last one that is smaller, added to `sum`. -/
def readLength (sum : Nat) : List Byte → Option (Nat × List Byte)
  | [] => none
  | b :: rest => if b = 255 then readLength (sum + 255) rest else some (sum + b.toNat, rest)

/-- An LZ4 block without matches: one token, the rest of the length, and the
literals. -/
def literalBlock (src : List Byte) : List Byte :=
  if src.length < 15 then UInt8.ofNat (src.length * 16) :: src
  else 0xf0 :: (lengthBytes (src.length - 15) ++ src)

/-- The literals of a block whose first sequence is its last one. The lower half
of the token, the length of a match, is not looked at. -/
def literals : List Byte → Option (List Byte)
  | [] => none
  | token :: rest =>
      let start := if token.toNat / 16 < 15 then some (token.toNat / 16, rest)
        else readLength 15 rest
      match start with
      | none => none
      | some (len, rest) => if rest.length = len then some rest else none

theorem readLength_lengthBytes (sum n : Nat) (rest : List Byte) :
    readLength sum (lengthBytes n ++ rest) = some (sum + n, rest) := by
  have hloop : ∀ count sum, readLength sum
      (List.replicate count 255 ++ UInt8.ofNat (n % 255) :: rest) =
        some (sum + count * 255 + n % 255, rest) := by
    intro count
    have hmod : n % 255 < 255 := Nat.mod_lt _ (by decide)
    have hbyte : (UInt8.ofNat (n % 255)).toNat = n % 255 :=
      UInt8.toNat_ofNat_of_lt (show n % 255 < 256 by omega)
    have hne : UInt8.ofNat (n % 255) ≠ 255 := by
      intro h
      have := congrArg UInt8.toNat h
      rw [hbyte] at this
      simp only [UInt8.reduceToNat] at this
      omega
    induction count with
    | zero =>
        intro sum
        simp [readLength, hne, hbyte]
    | succ count ih =>
        intro sum
        rw [List.replicate_succ, List.cons_append, readLength, if_pos rfl, ih]
        congr 2
        ring
  rw [lengthBytes, List.append_assoc, List.singleton_append, hloop]
  congr 2
  omega

theorem literals_literalBlock (src : List Byte) (_ : src.length ≤ maxVmRegionSize) :
    literals (literalBlock src) = some src := by
  rw [literalBlock]
  split_ifs with hshort
  · have hbyte : (UInt8.ofNat (src.length * 16)).toNat = src.length * 16 :=
      UInt8.toNat_ofNat_of_lt (show src.length * 16 < 256 by omega)
    rw [literals, hbyte, Nat.mul_div_cancel _ (by decide), if_pos hshort]
    simp
  · rw [literals]
    have hlen : 15 + (src.length - 15) = src.length := by omega
    have hfull : ¬ (0xf0 : Byte).toNat / 16 < 15 := by decide
    rw [if_neg hfull, readLength_lengthBytes, hlen]
    simp

/-- `LZ4_compressBound(MAX_VM_REGION_SIZE)`. -/
def lz4CompressBound : Nat := 1052704

theorem lz4CompressBound_lt : lz4CompressBound < 2 ^ 31 := by decide

theorem literalBlock_le (src : List Byte) (hle : src.length ≤ maxVmRegionSize) :
    (literalBlock src).length ≤ lz4CompressBound := by
  simp only [maxVmRegionSize] at hle
  rw [lz4CompressBound]
  rw [literalBlock]
  split_ifs
  · rw [List.length_cons]
    omega
  · simp only [lengthBytes, List.length_cons, List.length_append, List.length_replicate,
      List.length_nil]
    omega

theorem literalBlock_ne_nil (src : List Byte) : literalBlock src ≠ [] := by
  rw [literalBlock]
  split_ifs <;> exact List.cons_ne_nil _ _

/-- LZ4 for blocks that are literals only, which is what `LZ4_compress_default`
writes for fewer than 13 bytes. If they do not fit, `LZ4_decompress_safe` copies
none of them. -/
def literalCodec : Codec :=
  wholeCodec lz4CompressBound lz4CompressBound_lt literalBlock literals maxVmRegionSize
    literalBlock_ne_nil literalBlock_le literals_literalBlock

/-- A zstd frame of one raw block, for contents of at most 128 KiB: the magic
number, a header that announces a content size of four bytes, that size, the
header of a last block that is not compressed, and the contents. -/
def rawFrame (src : List Byte) : List Byte :=
  [0x28, 0xb5, 0x2f, 0xfd, 0xa0] ++ toBytes 4 src.length ++ toBytes 3 (src.length * 8 + 1) ++ src

def rawFrameContent (frame : List Byte) : Option (List Byte) :=
  let src := frame.drop 12
  if frame = rawFrame src ∧ src.length ≤ 131072 then some src else none

theorem rawFrame_ne_nil (src : List Byte) : rawFrame src ≠ [] :=
  List.cons_ne_nil _ _

/-- `ZSTD_compressBound(MAX_VM_REGION_SIZE)`. -/
def zstdCompressBound : Nat := 1052672

theorem zstdCompressBound_lt : zstdCompressBound < 2 ^ 31 := by decide

theorem rawFrame_le (src : List Byte) (hle : src.length ≤ 131072) :
    (rawFrame src).length ≤ zstdCompressBound := by
  rw [zstdCompressBound]
  simp only [rawFrame, List.length_append, toBytes_length, List.length_cons, List.length_nil]
  omega

theorem rawFrameContent_rawFrame (src : List Byte) (hle : src.length ≤ 131072) :
    rawFrameContent (rawFrame src) = some src := by
  have hdrop : (rawFrame src).drop 12 = src := List.drop_left' (by simp)
  simp [rawFrameContent, hdrop, hle]

/-- zstd for frames of one raw block. If it does not fit, `ZSTD_decompress` copies
nothing of it. -/
def rawCodec : Codec :=
  wholeCodec zstdCompressBound zstdCompressBound_lt rawFrame rawFrameContent 131072
    rawFrame_ne_nil rawFrame_le rawFrameContent_rawFrame

end Memcr.BlockFormats
