import Memcr.ByteMemory
import Memcr.CallOutcome
import Memcr.FrameStreams

/-!
The dump file: `write_vm_region` and `read_vm_region` of memcr.c over the
three back ends of compress.c. A region is stored as a `struct vm_region`
header followed by its payload, either verbatim or as a length-prefixed
compressed block.
-/

namespace Memcr.DumpFormat

open Memcr.ByteWords
open Memcr.ByteMemory
open Memcr.CallOutcome

/-- `MAX_VM_REGION_SIZE`, the size of the buffers a region is staged in. -/
def maxVmRegionSize : Nat := 1 * 1024 * 1024

/-- `struct vm_region` of an LP64 target. -/
structure VmRegion where
  addr : BitVec 64
  len : BitVec 64
  deriving DecidableEq, Repr

def vmRegionSize : Nat := 16

/-- The `struct vm_region` as it lies in the file. -/
def VmRegion.bytes (vmr : VmRegion) : List Byte :=
  toBytes 8 vmr.addr.toNat ++ toBytes 8 vmr.len.toNat

/-- The `struct vm_region` stored in the first 16 bytes of a buffer. -/
def VmRegion.ofBytes (bytes : List Byte) : VmRegion where
  addr := BitVec.ofNat 64 (ByteWords.ofBytes (bytes.take 8))
  len := BitVec.ofNat 64 (ByteWords.ofBytes ((bytes.drop 8).take 8))

@[simp] theorem VmRegion.bytes_length (vmr : VmRegion) :
    vmr.bytes.length = vmRegionSize := by
  simp [bytes, vmRegionSize]

theorem ofBytes_toBytes_bitVec (x : BitVec 64) :
    BitVec.ofNat 64 (ByteWords.ofBytes (toBytes 8 x.toNat)) = x := by
  rw [ofBytes_toBytes (by have := x.isLt; norm_num at this ⊢; exact this)]
  simp

@[simp] theorem VmRegion.ofBytes_bytes (vmr : VmRegion) :
    VmRegion.ofBytes vmr.bytes = vmr := by
  have htake : (toBytes 8 vmr.addr.toNat ++ toBytes 8 vmr.len.toNat).take 8 =
      toBytes 8 vmr.addr.toNat := List.take_left' (by simp)
  have hdrop : (toBytes 8 vmr.addr.toNat ++ toBytes 8 vmr.len.toNat).drop 8 =
      toBytes 8 vmr.len.toNat := List.drop_left' (by simp)
  have hlen : (toBytes 8 vmr.len.toNat).take 8 = toBytes 8 vmr.len.toNat :=
    List.take_of_length_le (by simp)
  simp only [ofBytes, bytes, htake, hdrop, hlen, ofBytes_toBytes_bitVec]

theorem toBytes_ofBytes_bitVec {bytes : List Byte} (h : bytes.length = 8) :
    toBytes 8 (BitVec.ofNat 64 (ByteWords.ofBytes bytes)).toNat = bytes := by
  have hlt := ofBytes_lt bytes
  rw [h] at hlt
  rw [BitVec.toNat_ofNat, Nat.mod_eq_of_lt (by norm_num at hlt ⊢; exact hlt), ← h,
    toBytes_ofBytes]

theorem VmRegion.bytes_ofBytes {bytes : List Byte} (h : bytes.length = vmRegionSize) :
    (VmRegion.ofBytes bytes).bytes = bytes := by
  simp only [vmRegionSize] at h
  have hlow : (bytes.take 8).length = 8 := by
    rw [List.length_take]
    omega
  have hhigh : (bytes.drop 8).length = 8 := by
    rw [List.length_drop]
    omega
  have hwhole : (bytes.drop 8).take 8 = bytes.drop 8 := List.take_of_length_le hhigh.le
  simp only [VmRegion.ofBytes, VmRegion.bytes, hwhole, toBytes_ofBytes_bitVec hlow,
    toBytes_ofBytes_bitVec hhigh, List.take_append_drop]

/-- A region together with its contents, as long as the header says. -/
structure Region where
  vmr : VmRegion
  data : List Byte
  length_eq : data.length = vmr.len.toNat

@[ext] theorem Region.ext_iff_fields {r r' : Region} (hvmr : r.vmr = r'.vmr)
    (hdata : r.data = r'.data) : r = r' := by
  cases r
  cases r'
  cases hvmr
  cases hdata
  rfl

/-- `vm_region_valid` -/
def vmRegionValid (pageSize : Nat) (vmr : VmRegion) : Bool :=
  vmr.addr.toNat &&& (pageSize - 1) == 0 && vmr.len.toNat % pageSize == 0

/-- A compression library as compress.c uses it, with its documented
behaviour: `bound` is the compress bound of a region buffer, a compressed
block is not empty and fits that bound, decompression stays within the given
capacity, and it undoes compression. A call that fails may have stored into the
buffer all the same. -/
structure Codec where
  bound : Nat
  compress : List Byte → Option (List Byte)
  decompress : List Byte → Nat → Option (List Byte)
  /-- How far into the buffer a call stores, whether it fails or not. -/
  reach : List Byte → Nat → Nat
  /-- What a call that fails leaves in the buffer. -/
  spoil : List Byte → Nat → Memory → Memory
  bound_lt : bound < 2 ^ 31
  compress_nonempty : ∀ {src dst}, compress src = some dst → dst ≠ []
  compress_le : ∀ {src dst}, compress src = some dst → dst.length ≤ bound
  reach_le : ∀ src cap, reach src cap ≤ cap
  le_reach : ∀ {src cap out}, decompress src cap = some out → out.length ≤ reach src cap
  spoil_outside : ∀ src cap buf {n}, reach src cap ≤ n → spoil src cap buf n = buf n
  roundTrip : ∀ {src dst}, compress src = some dst →
    decompress dst src.length = some src

/-- What `select_algorithm` can select. -/
inductive Algorithm where
  | plain
  | lz4
  | zstd
  deriving DecidableEq, Repr

structure Codecs where
  lz4 : Codec
  zstd : Codec

theorem maxVmRegionSize_lt : maxVmRegionSize < 2 ^ 31 := by decide

theorem store_take_of_le (src : List Byte) (cap : Nat) (buf : Memory) {n : Nat}
    (hn : min src.length cap ≤ n) : store buf 0 (src.take cap) n = buf n := by
  apply store_of_not_within
  simp only [Within, List.length_take]
  omega

/-- A codec that stores blocks as they are, and copies what fits of a block that
is too long. -/
def verbatimCodec : Codec where
  bound := maxVmRegionSize
  compress src := if src ≠ [] ∧ src.length ≤ maxVmRegionSize then some src else none
  decompress src cap := if src.length ≤ cap then some src else none
  reach src cap := min src.length cap
  spoil src cap buf := store buf 0 (src.take cap)
  bound_lt := maxVmRegionSize_lt
  compress_nonempty := by
    intro src dst h
    split at h
    · rename_i hsrc
      cases h
      exact hsrc.1
    · cases h
  compress_le := by
    intro src dst h
    split at h
    · rename_i hsrc
      cases h
      exact hsrc.2
    · cases h
  reach_le src cap := min_le_right _ _
  le_reach := by
    intro src cap out h
    split at h
    · rename_i hsrc
      cases h
      exact le_min le_rfl hsrc
    · cases h
  spoil_outside := store_take_of_le
  roundTrip := by
    intro src dst h
    split at h
    · cases h
      simp
    · cases h

/-- `LZ4_decompress_safe` as `lz4_read` calls it: the capacity is an `int`,
and a result that is not positive is an error. -/
def lz4Decompress (codec : Codec) (src : List Byte) (len : Nat) : Option (List Byte) :=
  if toInt32 len < 0 then none
  else
    match codec.decompress src (toInt32 len).toNat with
    | none => none
    | some [] => none
    | some out => some out

/-- `ZSTD_decompress` as `zstd_read` calls it: only an error code is an error. -/
def zstdDecompress (codec : Codec) (src : List Byte) (len : Nat) : Option (List Byte) :=
  codec.decompress src len

theorem lz4Decompress_eq_some {codec : Codec} {src out : List Byte} {len : Nat}
    (h : lz4Decompress codec src len = some out) :
    ¬ toInt32 len < 0 ∧ codec.decompress src (toInt32 len).toNat = some out := by
  simp only [lz4Decompress] at h
  split_ifs at h with hneg
  split at h
  · cases h
  · cases h
  · rename_i hout
    cases h
    exact ⟨hneg, hout⟩

/-- The call of a library that a read of a block ends with, for the length that
the reader passes on. -/
structure Decoder where
  decompress : List Byte → Nat → Option (List Byte)
  reach : List Byte → Nat → Nat
  spoil : List Byte → Nat → Memory → Memory
  reach_le : ∀ src len, reach src len ≤ len
  le_reach : ∀ {src len out}, decompress src len = some out → out.length ≤ reach src len

/-- With a negative capacity `LZ4_decompress_safe` returns at once. -/
def lz4Decoder (codec : Codec) : Decoder where
  decompress := lz4Decompress codec
  reach src len := if toInt32 len < 0 then 0 else codec.reach src (toInt32 len).toNat
  spoil src len := if toInt32 len < 0 then id else codec.spoil src (toInt32 len).toNat
  reach_le := by
    intro src len
    have hle := toInt32_le len
    have hreach := codec.reach_le src (toInt32 len).toNat
    split_ifs <;> omega
  le_reach := by
    intro src len out h
    obtain ⟨hneg, hout⟩ := lz4Decompress_eq_some h
    rw [if_neg hneg]
    exact codec.le_reach hout

/-- What `zstd_read` asks of the library. -/
def zstdDecoder (codec : Codec) : Decoder where
  decompress := zstdDecompress codec
  reach := codec.reach
  spoil := codec.spoil
  reach_le := codec.reach_le
  le_reach := codec.le_reach

/-- The dump while it is written. -/
structure Writer where
  file : List Byte
  dumpedVmSize : Nat
  /-- Input of `md5_checkpoint_ctx`. -/
  hashed : List Byte
  /-- Number of `dump_write` calls so far. -/
  writes : Nat

/-- `dump_write` of the built-in library. An entry `some n` of `io` makes the
corresponding call fail after `n` bytes. -/
def dumpWrite (io : Nat → Option Nat) (bytes : List Byte) (w : Writer) :
    Outcome (Bool × Writer) :=
  if bytes = [] then .aborts
  else
    match io w.writes with
    | none => .returns (true, { w with file := w.file ++ bytes, writes := w.writes + 1 })
    | some n =>
        .returns (false, { w with file := w.file ++ bytes.take n, writes := w.writes + 1 })

/-- `plain_write` -/
def plainWrite (io : Nat → Option Nat) (src : List Byte) (w : Writer) :
    Outcome (Int × Writer) :=
  (dumpWrite io src w).andThen fun (ok, w) =>
    if ok then .returns (toInt32 src.length, w) else .returns (-1, w)

/-- `lz4_write` and `zstd_write` -/
def codecWrite (io : Nat → Option Nat) (codec : Codec) (src : List Byte) (w : Writer) :
    Outcome (Int × Writer) :=
  match codec.compress src with
  | none => .returns (-1, w)
  | some dst =>
      (dumpWrite io (toBytes 4 dst.length) w).andThen fun (ok, w) =>
        if ok then
          (dumpWrite io dst w).andThen fun (ok, w) =>
            if ok then .returns (toInt32 src.length, w) else .returns (-1, w)
        else .returns (-1, w)

/-- `compress_write` -/
def compressWrite (io : Nat → Option Nat) (codecs : Codecs) :
    Algorithm → List Byte → Writer → Outcome (Int × Writer)
  | .plain => plainWrite io
  | .lz4 => codecWrite io codecs.lz4
  | .zstd => codecWrite io codecs.zstd

/-- The options and the platform a dump is written and read with. -/
structure Config where
  pageSize : Nat
  algorithm : Algorithm
  codecs : Codecs
  checksum : Bool

/-- `write_vm_region` -/
def writeVmRegion (cfg : Config) (io : Nat → Option Nat) (region : Region) (w : Writer) :
    Outcome (Int × Writer) :=
  if !vmRegionValid cfg.pageSize region.vmr then .returns (-1, w)
  else
    (dumpWrite io region.vmr.bytes w).andThen fun (ok, w) =>
      if !ok then .returns (-1, w)
      else
        (compressWrite io cfg.codecs cfg.algorithm region.data w).andThen fun (ret, w) =>
          if ret < 0 then .returns (ret, w)
          else
            let w := { w with dumpedVmSize := w.dumpedVmSize + region.vmr.len.toNat }
            if cfg.checksum && decide (0 < ret) then
              .returns (ret, { w with hashed := w.hashed ++ region.vmr.bytes ++ region.data })
            else .returns (ret, w)

/-- The dump while it is read. -/
structure Reader where
  /-- The file from the current offset on. -/
  rest : List Byte
  dumpedVmSize : Nat
  /-- Input of `md5_restore_ctx`. -/
  hashed : List Byte
  /-- Number of `dump_read` calls so far. -/
  reads : Nat

/-- `dump_read` of the built-in library into a buffer of `capacity` bytes: the
result is `count`, or 0 when the file ends first even if some bytes were read,
or negative when the call fails. The bytes are those stored in the buffer. -/
def dumpRead (fails : Nat → Bool) (capacity count : Nat) (r : Reader) :
    Outcome (Int × List Byte × Reader) :=
  if count = 0 then .aborts
  else if fails r.reads then .returns (-1, [], { r with reads := r.reads + 1 })
  else if capacity < min count r.rest.length then .overruns
  else if count ≤ r.rest.length then
    .returns (count, r.rest.take count,
      { r with rest := r.rest.drop count, reads := r.reads + 1 })
  else .returns (0, r.rest, { r with rest := [], reads := r.reads + 1 })

/-- `plain_read` -/
def plainRead (fails : Nat → Bool) (len : Nat) (buf : Memory) (r : Reader) :
    Outcome (Int × Memory × Reader) :=
  (dumpRead fails maxVmRegionSize len r).andThen fun (ret, bytes, r) =>
    if ret ≠ len then .returns (-1, store buf 0 bytes, r)
    else .returns (ret, store buf 0 bytes, r)

/-- The end of `lz4_read` and `zstd_read`: the library decompresses a block into
a buffer of `capacity` bytes. Unless it reports an error, the length is returned
that was asked for. -/
def decodeBlock (decoder : Decoder) (capacity len : Nat) (src : List Byte) (buf : Memory)
    (r : Reader) : Outcome (Int × Memory × Reader) :=
  if capacity < decoder.reach src len then .overruns
  else
    match decoder.decompress src len with
    | none => .returns (-1, decoder.spoil src len buf, r)
    | some out => .returns (toInt32 len, store buf 0 out, r)

/-- `lz4_read` and `zstd_read` into the region buffer. -/
def codecRead (fails : Nat → Bool) (codec : Codec) (decoder : Decoder) (len : Nat)
    (buf : Memory) (r : Reader) : Outcome (Int × Memory × Reader) :=
  (dumpRead fails 4 4 r).andThen fun (ret, word, r) =>
    if ret ≠ 4 then .returns (-1, buf, r)
    else
      let srcLen := ByteWords.ofBytes word
      if codec.bound < srcLen then .returns (-1, buf, r)
      else
        (dumpRead fails codec.bound srcLen r).andThen fun (ret, src, r) =>
          if ret ≠ srcLen then .returns (-1, buf, r)
          else decodeBlock decoder maxVmRegionSize len src buf r

/-- `compress_read` -/
def compressRead (fails : Nat → Bool) (codecs : Codecs) :
    Algorithm → Nat → Memory → Reader → Outcome (Int × Memory × Reader)
  | .plain => plainRead fails
  | .lz4 => codecRead fails codecs.lz4 (lz4Decoder codecs.lz4)
  | .zstd => codecRead fails codecs.zstd (zstdDecoder codecs.zstd)

/-- `read_vm_region`: the header and the buffer are only meaningful when the
result is positive. -/
def readVmRegion (cfg : Config) (fails : Nat → Bool) (buf : Memory) (r : Reader) :
    Outcome (Int × VmRegion × Memory × Reader) :=
  (dumpRead fails vmRegionSize vmRegionSize r).andThen fun (ret, header, r) =>
    let vmr := VmRegion.ofBytes header
    if ret ≠ vmRegionSize then .returns (ret, vmr, buf, r)
    else if r.dumpedVmSize < vmr.len.toNat then .returns (-1, vmr, buf, r)
    else
      let r := { r with dumpedVmSize := r.dumpedVmSize - vmr.len.toNat }
      if !vmRegionValid cfg.pageSize vmr then .returns (-1, vmr, buf, r)
      else
        (compressRead fails cfg.codecs cfg.algorithm vmr.len.toNat buf r).andThen
          fun (ret, buf, r) =>
            if ret < 0 then .returns (ret, vmr, buf, r)
            else if cfg.checksum && decide (0 < ret) then
              if maxVmRegionSize < vmr.len.toNat then .overruns
              else
                .returns (ret, vmr, buf,
                  { r with hashed := r.hashed ++ vmr.bytes ++ slice buf 0 vmr.len.toNat })
            else .returns (ret, vmr, buf, r)

/-- What `compress_write` puts into the file for a payload it accepts. -/
def payload? (codecs : Codecs) : Algorithm → List Byte → Option (List Byte)
  | .plain, data => some data
  | .lz4, data => (codecs.lz4.compress data).map fun dst => toBytes 4 dst.length ++ dst
  | .zstd, data => (codecs.zstd.compress data).map fun dst => toBytes 4 dst.length ++ dst

/-- The bytes of a region in the dump file. -/
def Region.frame (cfg : Config) (region : Region) : List Byte :=
  region.vmr.bytes ++ (payload? cfg.codecs cfg.algorithm region.data).getD []

def Region.bytes (region : Region) : List Byte :=
  region.vmr.bytes ++ region.data

/-- A region that a checkpoint stores: aligned, not empty, no longer than the
region buffer, and accepted by the selected back end. -/
structure Stored (cfg : Config) (region : Region) : Prop where
  valid : vmRegionValid cfg.pageSize region.vmr = true
  len_pos : 0 < region.vmr.len.toNat
  len_le : region.vmr.len.toNat ≤ maxVmRegionSize
  payload : (payload? cfg.codecs cfg.algorithm region.data).isSome

theorem region_bytes_selfDelimiting : FrameStreams.SelfDelimiting Region.bytes where
  nonempty := by
    intro region hempty
    have hlen := congrArg List.length hempty
    simp [Region.bytes, vmRegionSize] at hlen
  split := by
    intro r r' rest rest' h
    simp only [Region.bytes, List.append_assoc] at h
    obtain ⟨hheader, hbody⟩ := List.append_inj h (by simp)
    have hvmr : r.vmr = r'.vmr := by
      rw [← VmRegion.ofBytes_bytes r.vmr, hheader, VmRegion.ofBytes_bytes]
    obtain ⟨hdata, hrest⟩ := List.append_inj hbody (by rw [r.length_eq, r'.length_eq, hvmr])
    exact ⟨Region.ext_iff_fields hvmr hdata, hrest⟩

theorem dumpWrite_true {io : Nat → Option Nat} {bytes : List Byte} {w w' : Writer}
    (h : dumpWrite io bytes w = .returns (true, w')) :
    w' = { w with file := w.file ++ bytes, writes := w.writes + 1 } := by
  simp only [dumpWrite] at h
  split at h
  · cases h
  · split at h
    · cases h
      rfl
    · cases h

theorem plainWrite_nonneg {io : Nat → Option Nat} {src : List Byte} {w w' : Writer}
    {ret : Int} (h : plainWrite io src w = .returns (ret, w')) (hret : 0 ≤ ret) :
    ret = toInt32 src.length ∧
      ∃ writes, w' = { w with file := w.file ++ src, writes := writes } := by
  obtain ⟨⟨ok, w₁⟩, hfirst, hnext⟩ := Outcome.andThen_eq_returns.mp h
  cases ok with
  | false =>
      cases hnext
      omega
  | true =>
      cases hnext
      exact ⟨rfl, _, dumpWrite_true hfirst⟩

theorem codecWrite_nonneg {io : Nat → Option Nat} {codec : Codec} {src : List Byte}
    {w w' : Writer} {ret : Int} (h : codecWrite io codec src w = .returns (ret, w'))
    (hret : 0 ≤ ret) :
    ∃ dst, codec.compress src = some dst ∧ ret = toInt32 src.length ∧
      ∃ writes, w' = { w with
        file := w.file ++ (toBytes 4 dst.length ++ dst), writes := writes } := by
  simp only [codecWrite] at h
  split at h
  · cases h
    omega
  · rename_i dst hdst
    obtain ⟨⟨ok, w₁⟩, hfirst, hnext⟩ := Outcome.andThen_eq_returns.mp h
    cases ok with
    | false =>
        cases hnext
        omega
    | true =>
        obtain ⟨⟨ok, w₂⟩, hsecond, hlast⟩ := Outcome.andThen_eq_returns.mp hnext
        cases ok with
        | false =>
            cases hlast
            omega
        | true =>
            cases hlast
            refine ⟨dst, hdst, rfl, w₁.writes + 1, ?_⟩
            rw [dumpWrite_true hsecond, dumpWrite_true hfirst]
            simp [List.append_assoc]

theorem compressWrite_nonneg {io : Nat → Option Nat} {codecs : Codecs} {alg : Algorithm}
    {src : List Byte} {w w' : Writer} {ret : Int}
    (h : compressWrite io codecs alg src w = .returns (ret, w')) (hret : 0 ≤ ret) :
    ret = toInt32 src.length ∧ ∃ bytes writes, payload? codecs alg src = some bytes ∧
      w' = { w with file := w.file ++ bytes, writes := writes } := by
  cases alg with
  | plain =>
      obtain ⟨hvalue, writes, hw⟩ := plainWrite_nonneg h hret
      exact ⟨hvalue, src, writes, rfl, hw⟩
  | lz4 =>
      obtain ⟨dst, hdst, hvalue, writes, hw⟩ := codecWrite_nonneg h hret
      exact ⟨hvalue, _, writes, by simp [payload?, hdst], hw⟩
  | zstd =>
      obtain ⟨dst, hdst, hvalue, writes, hw⟩ := codecWrite_nonneg h hret
      exact ⟨hvalue, _, writes, by simp [payload?, hdst], hw⟩

theorem writeVmRegion_ret {cfg : Config} {io : Nat → Option Nat} {region : Region}
    {w w' : Writer} {ret : Int} (h : writeVmRegion cfg io region w = .returns (ret, w')) :
    ret < 0 ∨ ret = toInt32 region.vmr.len.toNat := by
  simp only [writeVmRegion] at h
  split at h
  · cases h
    exact Or.inl (by omega)
  · obtain ⟨⟨ok, w₁⟩, -, hnext⟩ := Outcome.andThen_eq_returns.mp h
    simp only at hnext
    split at hnext
    · cases hnext
      exact Or.inl (by omega)
    · obtain ⟨⟨ret₂, w₂⟩, hbody, hlast⟩ := Outcome.andThen_eq_returns.mp hnext
      simp only at hlast
      split at hlast
      · rename_i hneg
        cases hlast
        exact Or.inl hneg
      · rename_i hnonneg
        have hvalue := (compressWrite_nonneg hbody (by omega)).1
        rw [region.length_eq] at hvalue
        split at hlast <;> cases hlast <;> exact Or.inr hvalue

/-- A region reported as written is in the file as one frame, counted in
`dumped_vm_size`, and hashed when checksumming is on. -/
theorem writeVmRegion_pos {cfg : Config} {io : Nat → Option Nat} {region : Region}
    {w w' : Writer} {ret : Int}
    (h : writeVmRegion cfg io region w = .returns (ret, w')) (hret : 0 < ret) :
    vmRegionValid cfg.pageSize region.vmr = true ∧
      (payload? cfg.codecs cfg.algorithm region.data).isSome ∧
      ret = toInt32 region.vmr.len.toNat ∧
      w'.file = w.file ++ region.frame cfg ∧
      w'.dumpedVmSize = w.dumpedVmSize + region.vmr.len.toNat ∧
      w'.hashed = (if cfg.checksum then w.hashed ++ region.bytes else w.hashed) := by
  simp only [writeVmRegion] at h
  split at h
  · cases h
    omega
  · rename_i hvalid
    obtain ⟨⟨ok, w₁⟩, hheader, hnext⟩ := Outcome.andThen_eq_returns.mp h
    cases ok with
    | false =>
        cases hnext
        omega
    | true =>
        simp only [Bool.not_true, Bool.false_eq_true, if_false] at hnext
        obtain ⟨⟨ret₂, w₂⟩, hbody, hlast⟩ := Outcome.andThen_eq_returns.mp hnext
        have hnonneg : 0 ≤ ret₂ := by
          by_contra hneg
          simp only [show ret₂ < 0 by omega, if_true] at hlast
          cases hlast
          omega
        obtain ⟨hvalue, bytes, writes, hbytes, hw₂⟩ := compressWrite_nonneg hbody hnonneg
        have hw₁ := dumpWrite_true hheader
        have hret₂ : ret₂ = ret := by
          simp only [show ¬ ret₂ < 0 by omega, if_false] at hlast
          split at hlast <;> cases hlast <;> rfl
        subst hret₂
        simp only [show ¬ ret₂ < 0 by omega, if_false, hret, decide_true, Bool.and_true] at hlast
        refine ⟨by simpa using hvalid, by simp [hbytes], by rw [hvalue, region.length_eq], ?_⟩
        cases hchecksum : cfg.checksum <;>
          simp only [hchecksum, Bool.false_eq_true, if_false, if_true] at hlast <;>
          cases hlast <;>
          simp [hw₁, hw₂, Region.frame, Region.bytes, hbytes, List.append_assoc]

theorem dumpRead_whole {fails : Nat → Bool} {capacity count : Nat} {r : Reader}
    (bytes tail : List Byte) (hrest : r.rest = bytes ++ tail) (hlen : bytes.length = count)
    (hpos : 0 < count) (hcap : count ≤ capacity) :
    dumpRead fails capacity count r =
      if fails r.reads then .returns (-1, [], { r with reads := r.reads + 1 })
      else .returns (count, bytes, { r with rest := tail, reads := r.reads + 1 }) := by
  have hcount : count ≤ r.rest.length := by
    rw [hrest, List.length_append]
    omega
  have htake : r.rest.take count = bytes := by
    rw [hrest]
    exact List.take_left' hlen
  have hdrop : r.rest.drop count = tail := by
    rw [hrest]
    exact List.drop_left' hlen
  simp only [dumpRead, show ¬ count = 0 by omega, if_false,
    show ¬ capacity < min count r.rest.length by omega, hcount, if_true, htake, hdrop]

theorem dumpRead_short {fails : Nat → Bool} {capacity count : Nat} {r : Reader}
    (hshort : r.rest.length < count) (hcap : count ≤ capacity) :
    dumpRead fails capacity count r =
      if fails r.reads then .returns (-1, [], { r with reads := r.reads + 1 })
      else .returns (0, r.rest, { r with rest := [], reads := r.reads + 1 }) := by
  simp only [dumpRead, show ¬ count = 0 by omega, if_false,
    show ¬ capacity < min count r.rest.length by omega, show ¬ count ≤ r.rest.length by omega]

/-- The outcome of reading back `data`: a failed call, or exactly these bytes
with the file left behind them. -/
def ReadsBack (fails : Nat → Bool) (data tail : List Byte) (r : Reader)
    (outcome : Outcome (Int × Memory × Reader)) : Prop :=
  ∃ ret buf r', outcome = .returns (ret, buf, r') ∧
    ((ret < 0 ∧ ∃ i, fails i = true) ∨
      (ret = data.length ∧ slice buf 0 data.length = data ∧
        ∃ reads, r' = { r with rest := tail, reads := reads }))

theorem plainRead_readsBack {fails : Nat → Bool} {buf : Memory} {r : Reader}
    {data tail : List Byte} (hrest : r.rest = data ++ tail) (hpos : 0 < data.length)
    (hle : data.length ≤ maxVmRegionSize) :
    ReadsBack fails data tail r (plainRead fails data.length buf r) := by
  rw [plainRead, dumpRead_whole _ _ hrest rfl hpos hle]
  cases hfail : fails r.reads with
  | true =>
      have hne : (-1 : Int) ≠ (data.length : Int) := by omega
      simp only [if_true, Outcome.returns_andThen, hne, ne_eq, not_false_eq_true]
      exact ⟨_, _, _, rfl, Or.inl ⟨by omega, r.reads, hfail⟩⟩
  | false =>
      simp only [Bool.false_eq_true, if_false, Outcome.returns_andThen, ne_eq,
        not_true_eq_false]
      exact ⟨_, _, _, rfl, Or.inr ⟨rfl, slice_store_self buf data, _, rfl⟩⟩

theorem decodeBlock_some {decoder : Decoder} {capacity len : Nat} {src out : List Byte}
    (hout : decoder.decompress src len = some out) (hcap : decoder.reach src len ≤ capacity)
    (buf : Memory) (r : Reader) :
    decodeBlock decoder capacity len src buf r = .returns (toInt32 len, store buf 0 out, r) := by
  rw [decodeBlock, if_neg (not_lt.mpr hcap), hout]

theorem decodeBlock_returns {decoder : Decoder} {capacity len : Nat} {src : List Byte}
    {buf buf' : Memory} {r r' : Reader} {ret : Int}
    (h : decodeBlock decoder capacity len src buf r = .returns (ret, buf', r')) :
    ret = -1 ∧ r' = r ∨
      ret = toInt32 len ∧ r' = r ∧ decoder.reach src len ≤ capacity ∧
        ∃ out, decoder.decompress src len = some out ∧ buf' = store buf 0 out := by
  simp only [decodeBlock] at h
  split_ifs at h with hfits
  split at h
  · cases h
    exact Or.inl ⟨rfl, rfl⟩
  · rename_i out hout
    cases h
    exact Or.inr ⟨rfl, rfl, not_lt.mp hfits, out, hout, rfl⟩

theorem codecRead_readsBack {fails : Nat → Bool} {codec : Codec} {buf : Memory} {r : Reader}
    {decoder : Decoder} {data dst tail : List Byte} (hdst : codec.compress data = some dst)
    (hback : decoder.decompress dst data.length = some data)
    (hrest : r.rest = (toBytes 4 dst.length ++ dst) ++ tail)
    (hle : data.length ≤ maxVmRegionSize) :
    ReadsBack fails data tail r (codecRead fails codec decoder data.length buf r) := by
  have hbound := codec.compress_le hdst
  have hdstPos : 0 < dst.length := List.length_pos_of_ne_nil (codec.compress_nonempty hdst)
  have hword : ByteWords.ofBytes (toBytes 4 dst.length) = dst.length :=
    ofBytes_toBytes (by have := codec.bound_lt; norm_num; omega)
  rw [codecRead, dumpRead_whole (toBytes 4 dst.length) (dst ++ tail)
    (by rw [hrest, List.append_assoc]) (by simp) (by omega) le_rfl]
  cases hfail : fails r.reads with
  | true =>
      simp only [if_true, Outcome.returns_andThen]
      exact ⟨_, _, _, rfl, Or.inl ⟨by omega, r.reads, hfail⟩⟩
  | false =>
      simp only [Bool.false_eq_true, if_false, Outcome.returns_andThen, Nat.cast_ofNat,
        ne_eq, not_true_eq_false, hword, show ¬ codec.bound < dst.length by omega]
      rw [dumpRead_whole dst tail rfl rfl hdstPos hbound]
      cases hfail' : fails (r.reads + 1) with
      | true =>
          have hne : (-1 : Int) ≠ (dst.length : Int) := by omega
          simp only [if_true, Outcome.returns_andThen, hne, not_false_eq_true]
          exact ⟨_, _, _, rfl, Or.inl ⟨by omega, _, hfail'⟩⟩
      | false =>
          simp only [Bool.false_eq_true, if_false, Outcome.returns_andThen, not_true_eq_false]
          rw [decodeBlock_some hback ((decoder.reach_le _ _).trans hle)]
          refine ⟨_, _, _, rfl, Or.inr ⟨?_, slice_store_self buf data, _, rfl⟩⟩
          exact toInt32_of_lt (by simp only [maxVmRegionSize] at hle; omega)

theorem lz4Decompress_roundTrip {codec : Codec} {data dst : List Byte}
    (hdst : codec.compress data = some dst) (hpos : 0 < data.length)
    (hle : data.length ≤ maxVmRegionSize) :
    lz4Decompress codec dst data.length = some data := by
  have hlen : toInt32 data.length = data.length :=
    toInt32_of_lt (by simp only [maxVmRegionSize] at hle; omega)
  have hback := codec.roundTrip hdst
  simp only [lz4Decompress, hlen, show ¬ (data.length : Int) < 0 by omega, if_false,
    Int.toNat_natCast, hback]
  rcases data with _ | ⟨b, rest⟩
  · simp at hpos
  · rfl

theorem compressRead_readsBack (fails : Nat → Bool) {codecs : Codecs} {alg : Algorithm}
    (buf : Memory) (r : Reader) {data bytes tail : List Byte}
    (hbytes : payload? codecs alg data = some bytes) (hrest : r.rest = bytes ++ tail)
    (hpos : 0 < data.length) (hle : data.length ≤ maxVmRegionSize) :
    ReadsBack fails data tail r (compressRead fails codecs alg data.length buf r) := by
  cases alg with
  | plain =>
      cases hbytes
      exact plainRead_readsBack hrest hpos hle
  | lz4 =>
      obtain ⟨dst, hdst, rfl⟩ := Option.map_eq_some_iff.mp hbytes
      exact codecRead_readsBack hdst (lz4Decompress_roundTrip hdst hpos hle) hrest hle
  | zstd =>
      obtain ⟨dst, hdst, rfl⟩ := Option.map_eq_some_iff.mp hbytes
      exact codecRead_readsBack hdst (codecs.zstd.roundTrip hdst) hrest hle

theorem plainRead_cut {fails : Nat → Bool} {buf : Memory} {r : Reader} {len : Nat}
    (hshort : r.rest.length < len) (hle : len ≤ maxVmRegionSize) :
    ∃ ret buf' r', plainRead fails len buf r = .returns (ret, buf', r') ∧ ret < 0 := by
  rw [plainRead, dumpRead_short hshort hle]
  cases fails r.reads with
  | true =>
      have hne : (-1 : Int) ≠ (len : Int) := by omega
      simp only [if_true, Outcome.returns_andThen, hne, ne_eq, not_false_eq_true]
      exact ⟨_, _, _, rfl, by omega⟩
  | false =>
      have hne : (0 : Int) ≠ (len : Int) := by omega
      simp only [Bool.false_eq_true, if_false, Outcome.returns_andThen, hne, ne_eq,
        not_false_eq_true, if_true]
      exact ⟨_, _, _, rfl, by omega⟩

theorem codecRead_cut_body {fails : Nat → Bool} {codec : Codec} {buf : Memory} {r : Reader}
    {decoder : Decoder} {len : Nat} {dst more : List Byte}
    (hbound : dst.length ≤ codec.bound)
    (hword : ByteWords.ofBytes (toBytes 4 dst.length) = dst.length)
    (hrest : r.rest = toBytes 4 dst.length ++ more) (hshort : more.length < dst.length) :
    ∃ ret buf' r', codecRead fails codec decoder len buf r = .returns (ret, buf', r') ∧
      ret < 0 := by
  rw [codecRead, dumpRead_whole _ _ hrest (by simp) (by omega) le_rfl]
  cases fails r.reads with
  | true =>
      simp only [if_true, Outcome.returns_andThen]
      exact ⟨_, _, _, rfl, by omega⟩
  | false =>
      simp only [Bool.false_eq_true, if_false, Outcome.returns_andThen, Nat.cast_ofNat,
        ne_eq, not_true_eq_false, hword, show ¬ codec.bound < dst.length by omega]
      rw [dumpRead_short hshort hbound]
      have hne : (-1 : Int) ≠ (dst.length : Int) := by omega
      have hne' : (0 : Int) ≠ (dst.length : Int) := by omega
      cases fails (r.reads + 1) <;>
        simp only [Bool.false_eq_true, if_false, if_true, Outcome.returns_andThen, hne, hne',
          not_false_eq_true] <;>
        exact ⟨_, _, _, rfl, by omega⟩

theorem codecRead_cut {fails : Nat → Bool} {codec : Codec} {buf : Memory} {r : Reader}
    {decoder : Decoder} {len : Nat} {data dst : List Byte}
    (hdst : codec.compress data = some dst)
    (hcut : r.rest <+: toBytes 4 dst.length ++ dst)
    (hstrict : r.rest ≠ toBytes 4 dst.length ++ dst) :
    ∃ ret buf' r', codecRead fails codec decoder len buf r = .returns (ret, buf', r') ∧
      ret < 0 := by
  have hbound := codec.compress_le hdst
  have hword : ByteWords.ofBytes (toBytes 4 dst.length) = dst.length :=
    ofBytes_toBytes (by have := codec.bound_lt; norm_num; omega)
  rcases List.prefix_or_prefix_of_prefix hcut (List.prefix_append _ dst) with
    hword' | ⟨more, hmore⟩
  · by_cases hfour : r.rest.length < 4
    · -- the length word itself is cut
      rw [codecRead, dumpRead_short hfour le_rfl]
      cases fails r.reads <;>
        simp only [Bool.false_eq_true, if_false, if_true, Outcome.returns_andThen] <;>
        exact ⟨_, _, _, rfl, by omega⟩
    · have hwhole : r.rest = toBytes 4 dst.length := by
        apply hword'.eq_of_length
        have := hword'.length_le
        simp only [toBytes_length] at this ⊢
        omega
      have hempty : r.rest = toBytes 4 dst.length ++ [] := by simpa using hwhole
      exact codecRead_cut_body hbound hword hempty
        (List.length_pos_of_ne_nil (codec.compress_nonempty hdst))
  · apply codecRead_cut_body hbound hword hmore.symm
    have hprefix : more <+: dst := by
      rw [← hmore] at hcut
      simpa using hcut
    apply lt_of_le_of_ne hprefix.length_le
    intro hlen
    apply hstrict
    rw [← hmore, hprefix.eq_of_length hlen]

theorem compressRead_cut (fails : Nat → Bool) {codecs : Codecs} {alg : Algorithm}
    (buf : Memory) (r : Reader) {data bytes : List Byte}
    (hbytes : payload? codecs alg data = some bytes) (hcut : r.rest <+: bytes)
    (hstrict : r.rest ≠ bytes) (hle : data.length ≤ maxVmRegionSize) :
    ∃ ret buf' r', compressRead fails codecs alg data.length buf r =
      .returns (ret, buf', r') ∧ ret < 0 := by
  cases alg with
  | plain =>
      cases hbytes
      exact plainRead_cut (lt_of_le_of_ne hcut.length_le fun h => hstrict (hcut.eq_of_length h))
        hle
  | lz4 =>
      obtain ⟨dst, hdst, rfl⟩ := Option.map_eq_some_iff.mp hbytes
      exact codecRead_cut hdst hcut hstrict
  | zstd =>
      obtain ⟨dst, hdst, rfl⟩ := Option.map_eq_some_iff.mp hbytes
      exact codecRead_cut hdst hcut hstrict

/-- The reader after a region: the file behind its frame, the region taken off
`dumped_vm_size`, and hashed when checksumming is on. -/
def Reader.pass (cfg : Config) (region : Region) (tail : List Byte) (reads : Nat)
    (r : Reader) : Reader where
  rest := tail
  dumpedVmSize := r.dumpedVmSize - region.vmr.len.toNat
  hashed := if cfg.checksum then r.hashed ++ region.bytes else r.hashed
  reads := reads

theorem readVmRegion_frame {cfg : Config} (fails : Nat → Bool) (buf : Memory) {r : Reader}
    {region : Region} {tail : List Byte} (hstored : Stored cfg region)
    (hrest : r.rest = region.frame cfg ++ tail)
    (hsize : region.vmr.len.toNat ≤ r.dumpedVmSize) :
    ∃ ret vmr buf' r', readVmRegion cfg fails buf r = .returns (ret, vmr, buf', r') ∧
      ((ret < 0 ∧ ∃ i, fails i = true) ∨
        (ret = region.vmr.len.toNat ∧ vmr = region.vmr ∧
          slice buf' 0 region.vmr.len.toNat = region.data ∧
          ∃ reads, r' = r.pass cfg region tail reads)) := by
  obtain ⟨bytes, hbytes⟩ := Option.isSome_iff_exists.mp hstored.payload
  have hpos := hstored.len_pos
  have hle := hstored.len_le
  have hframe : r.rest = region.vmr.bytes ++ (bytes ++ tail) := by
    rw [hrest, Region.frame, hbytes, Option.getD_some, List.append_assoc]
  rw [readVmRegion, dumpRead_whole _ _ hframe (by simp) (by decide) le_rfl]
  cases hfail : fails r.reads with
  | true =>
      simp only [if_true, Outcome.returns_andThen]
      exact ⟨_, _, _, _, rfl, Or.inl ⟨by omega, r.reads, hfail⟩⟩
  | false =>
      simp only [Bool.false_eq_true, if_false, Outcome.returns_andThen, ne_eq,
        not_true_eq_false, VmRegion.ofBytes_bytes, hstored.valid, Bool.not_true,
        show ¬ r.dumpedVmSize < region.vmr.len.toNat by omega]
      rw [← region.length_eq] at hpos hle ⊢
      obtain ⟨ret, buf', r', hread, hcases⟩ := compressRead_readsBack fails buf
        { rest := bytes ++ tail, dumpedVmSize := r.dumpedVmSize - region.data.length,
          hashed := r.hashed, reads := r.reads + 1 } hbytes rfl hpos hle
      rw [hread]
      simp only [Outcome.returns_andThen]
      rcases hcases with ⟨hneg, hfails⟩ | ⟨hret, hslice, reads, hr'⟩
      · simp only [hneg, if_true]
        exact ⟨_, _, _, _, rfl, Or.inl ⟨hneg, hfails⟩⟩
      · subst hret hr'
        simp only [show ¬ (region.data.length : Int) < 0 by omega, if_false,
          show (0 : Int) < (region.data.length : Int) by omega, decide_true, Bool.and_true,
          show ¬ maxVmRegionSize < region.data.length by omega]
        cases hchecksum : cfg.checksum <;>
          simp only [Bool.false_eq_true, if_false, if_true] <;>
          refine ⟨_, _, _, _, rfl, Or.inr ⟨rfl, rfl, hslice, reads, ?_⟩⟩ <;>
          simp [Reader.pass, hchecksum, Region.bytes, hslice, ← region.length_eq]

/-- A call that reads leaves the checksum input and `dumped_vm_size` alone. -/
structure Keeps (r r' : Reader) : Prop where
  hashed : r'.hashed = r.hashed
  dumpedVmSize : r'.dumpedVmSize = r.dumpedVmSize

theorem Keeps.trans {r r₁ r₂ : Reader} (h₁ : Keeps r r₁) (h₂ : Keeps r₁ r₂) : Keeps r r₂ :=
  ⟨h₂.hashed.trans h₁.hashed, h₂.dumpedVmSize.trans h₁.dumpedVmSize⟩

theorem readVmRegion_cut_header (cfg : Config) (fails : Nat → Bool) (buf : Memory)
    {r : Reader} (hshort : r.rest.length < vmRegionSize) :
    ∃ ret vmr buf' r', readVmRegion cfg fails buf r = .returns (ret, vmr, buf', r') ∧
      ((ret < 0 ∧ ∃ i, fails i = true) ∨ (ret = 0 ∧ Keeps r r')) := by
  rw [readVmRegion, dumpRead_short hshort le_rfl]
  cases hfail : fails r.reads with
  | true =>
      simp only [if_true, Outcome.returns_andThen]
      exact ⟨_, _, _, _, rfl, Or.inl ⟨by omega, r.reads, hfail⟩⟩
  | false =>
      simp only [Bool.false_eq_true, if_false, Outcome.returns_andThen]
      exact ⟨_, _, _, _, rfl, Or.inr ⟨rfl, rfl, rfl⟩⟩

theorem readVmRegion_cut_payload {cfg : Config} (fails : Nat → Bool) (buf : Memory)
    {r : Reader} {region : Region} (hstored : Stored cfg region)
    (hcut : r.rest <+: region.frame cfg) (hstrict : r.rest ≠ region.frame cfg)
    (hheader : vmRegionSize ≤ r.rest.length)
    (hsize : region.vmr.len.toNat ≤ r.dumpedVmSize) :
    ∃ ret vmr buf' r', readVmRegion cfg fails buf r = .returns (ret, vmr, buf', r') ∧
      ret < 0 := by
  obtain ⟨bytes, hbytes⟩ := Option.isSome_iff_exists.mp hstored.payload
  have hframe : region.frame cfg = region.vmr.bytes ++ bytes := by
    rw [Region.frame, hbytes, Option.getD_some]
  rw [hframe] at hcut hstrict
  have hprefix : region.vmr.bytes <+: r.rest :=
    List.prefix_of_prefix_length_le (List.prefix_append _ bytes) hcut (by simpa using hheader)
  obtain ⟨more, hmore⟩ := hprefix
  have hmoreCut : more <+: bytes := by
    rw [← hmore] at hcut
    simpa using hcut
  have hmoreStrict : more ≠ bytes := by
    rintro rfl
    exact hstrict hmore.symm
  rw [readVmRegion, dumpRead_whole _ _ hmore.symm (by simp) (by decide) le_rfl]
  cases fails r.reads with
  | true =>
      simp only [if_true, Outcome.returns_andThen]
      exact ⟨_, _, _, _, rfl, by omega⟩
  | false =>
      have hle := hstored.len_le
      simp only [Bool.false_eq_true, if_false, Outcome.returns_andThen, ne_eq,
        not_true_eq_false, VmRegion.ofBytes_bytes, hstored.valid, Bool.not_true,
        show ¬ r.dumpedVmSize < region.vmr.len.toNat by omega]
      rw [← region.length_eq] at hle ⊢
      obtain ⟨ret, buf', r', hread, hneg⟩ := compressRead_cut fails buf
        { rest := more, dumpedVmSize := r.dumpedVmSize - region.data.length,
          hashed := r.hashed, reads := r.reads + 1 } hbytes hmoreCut hmoreStrict hle
      rw [hread]
      simp only [Outcome.returns_andThen, hneg, if_true]
      exact ⟨_, _, _, _, rfl, hneg⟩

end Memcr.DumpFormat
