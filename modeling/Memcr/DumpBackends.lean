import Memcr.DumpRoundTrip
import Memcr.DumpWriters
import Memcr.SplitReads

namespace Memcr.DumpBackends

open Memcr.ByteMemory
open Memcr.ByteWords
open Memcr.CallOutcome
open Memcr.CipherBlocks
open Memcr.DumpFormat
open Memcr.DumpReaders
open Memcr.DumpRestore
open Memcr.DumpWriters
open Memcr.EncryptedDump

/-- `dump_write`, the function of memcr.c or that of a preloaded library. -/
abbrev DumpWrite := List Byte → Writer → Outcome (Int × Writer)

section Writing

variable (dumpWrite : DumpWrite)

/-- `plain_write` -/
def plainWriteVia (src : List Byte) (w : Writer) : Outcome (Int × Writer) :=
  (dumpWrite src w).andThen fun (ret, w) =>
    if sizeT ret ≠ src.length then .returns (-1, w) else .returns (toInt32 src.length, w)

/-- `lz4_write` and `zstd_write` -/
def codecWriteVia (codec : Codec) (src : List Byte) (w : Writer) : Outcome (Int × Writer) :=
  match codec.compress src with
  | none => .returns (-1, w)
  | some dst =>
      (dumpWrite (toBytes 4 dst.length) w).andThen fun (ret, w) =>
        if ret ≠ 4 then .returns (-1, w)
        else
          (dumpWrite dst w).andThen fun (ret, w) =>
            if ret ≠ dst.length then .returns (-1, w) else .returns (toInt32 src.length, w)

/-- `compress_write` -/
def compressWriteVia (codecs : Codecs) : Algorithm → List Byte → Writer → Outcome (Int × Writer)
  | .plain => plainWriteVia dumpWrite
  | .lz4 => codecWriteVia dumpWrite codecs.lz4
  | .zstd => codecWriteVia dumpWrite codecs.zstd

/-- `write_vm_region` -/
def writeVmRegionVia (cfg : Config) (region : Region) (w : Writer) : Outcome (Int × Writer) :=
  if !vmRegionValid cfg.pageSize region.vmr then .returns (-1, w)
  else
    (dumpWrite region.vmr.bytes w).andThen fun (ret, w) =>
      if ret ≠ vmRegionSize then .returns (-1, w)
      else
        (compressWriteVia dumpWrite cfg.codecs cfg.algorithm region.data w).andThen
          fun (ret, w) =>
            if ret < 0 then .returns (ret, w)
            else
              let w := { w with dumpedVmSize := w.dumpedVmSize + region.vmr.len.toNat }
              if cfg.checksum && decide (0 < ret) then
                .returns (ret, { w with hashed := w.hashed ++ region.vmr.bytes ++ region.data })
              else .returns (ret, w)

end Writing

/-- The padded size of a message is an `int`. -/
def messageLimit : Nat := 2 ^ 31 - 16

/-- A buffer that can be handed to `dump_write`. -/
structure Sendable (bytes : List Byte) : Prop where
  ne_nil : bytes ≠ []
  lt : bytes.length < messageLimit

/-- A `dump_write` and the `dump_read` for what it writes: a buffer that is reported as
written can be read back or is reported as an error, and the end of the file is no buffer. -/
structure Backend where
  dumpWrite : DumpWrite
  dumpRead : DumpRead
  /-- Its system calls read all that is asked for and there. -/
  Calm : Prop
  /-- What a buffer becomes in the file. -/
  encode : List Byte → List Byte
  encode_ne_nil : ∀ {bytes}, bytes ≠ [] → encode bytes ≠ []
  write_whole : ∀ {bytes : List Byte} {w ret w'}, Sendable bytes →
    dumpWrite bytes w = .returns (ret, w') → sizeT ret = bytes.length →
    ∃ writes, w' = { w with file := w.file ++ encode bytes, writes := writes }
  read_message : ∀ {message : List Byte} {capacity tail r}, Sendable message →
    message.length ≤ capacity → r.rest = encode message ++ tail →
    ∃ ret bytes r', dumpRead capacity message.length r = .returns (ret, bytes, r') ∧
      (ret = -1 ∧ ¬ Calm ∨ ret = message.length ∧ bytes = message ∧
        ∃ reads, r' = { r with rest := tail, reads := reads })
  read_end : ∀ {capacity count r}, 0 < count → count < messageLimit → r.rest = [] →
    ∃ ret bytes r', dumpRead capacity count r = .returns (ret, bytes, r') ∧ ret ≤ 0 ∧
      (Calm → ret = 0) ∧ r'.hashed = r.hashed

/-- The buffers that `compress_write` writes. -/
def payloadMessages (codecs : Codecs) : Algorithm → List Byte → List (List Byte)
  | .plain, data => [data]
  | .lz4, data => (codecs.lz4.compress data).elim [] fun dst => [toBytes 4 dst.length, dst]
  | .zstd, data => (codecs.zstd.compress data).elim [] fun dst => [toBytes 4 dst.length, dst]

/-- The buffers that `write_vm_region` writes. -/
def messages (cfg : Config) (region : Region) : List (List Byte) :=
  region.vmr.bytes :: payloadMessages cfg.codecs cfg.algorithm region.data

/-- A region in the file. -/
def Backend.image (backend : Backend) (cfg : Config) (region : Region) : List Byte :=
  (messages cfg region).flatMap backend.encode

/-- Compressed blocks are short enough for the library. -/
structure BlocksFit (codecs : Codecs) : Prop where
  lz4 : codecs.lz4.bound < messageLimit
  zstd : codecs.zstd.bound < messageLimit

theorem vmRegion_sendable (vmr : VmRegion) : Sendable vmr.bytes where
  ne_nil h := absurd (congrArg List.length h) (by simp [vmRegionSize])
  lt := by simp [vmRegionSize, messageLimit]

theorem word_sendable (n : Nat) : Sendable (toBytes 4 n) where
  ne_nil h := absurd (congrArg List.length h) (by simp)
  lt := by simp [messageLimit]

theorem data_sendable {data : List Byte} (hne : data ≠ []) (hle : data.length ≤ maxVmRegionSize) :
    Sendable data :=
  ⟨hne, by simp only [maxVmRegionSize, messageLimit] at *; omega⟩

theorem block_sendable {codec : Codec} {src dst : List Byte} (hbound : codec.bound < messageLimit)
    (h : codec.compress src = some dst) : Sendable dst :=
  ⟨codec.compress_nonempty h, (codec.compress_le h).trans_lt hbound⟩

section WriteRegion

variable {backend : Backend} {cfg : Config} {codec : Codec} {data : List Byte} {region : Region}
  {w w' : Writer} {ret : Int}

theorem Sendable.sizeT_length {bytes : List Byte} (h : Sendable bytes) :
    sizeT bytes.length = bytes.length :=
  sizeT_natCast (h.lt.trans (by decide))

theorem Sendable.sizeT_failed {bytes : List Byte} (h : Sendable bytes) :
    sizeT (-1) ≠ bytes.length := by
  have := h.lt
  simp only [sizeT, messageLimit] at *
  omega

theorem Backend.write_count (backend : Backend) {bytes : List Byte} (hsend : Sendable bytes)
    (h : backend.dumpWrite bytes w = .returns (bytes.length, w')) :
    ∃ writes, w' = { w with file := w.file ++ backend.encode bytes, writes := writes } :=
  backend.write_whole hsend h hsend.sizeT_length

theorem plainWriteVia_nonneg (hsend : Sendable data)
    (h : plainWriteVia backend.dumpWrite data w = .returns (ret, w')) (hret : 0 ≤ ret) :
    ret = toInt32 data.length ∧
      ∃ writes, w' = { w with file := w.file ++ backend.encode data, writes := writes } := by
  obtain ⟨⟨got, w₁⟩, hwrite, hnext⟩ := Outcome.andThen_eq_returns.mp h
  dsimp only at hnext
  split_ifs at hnext with hgot
  · cases hnext
    omega
  · cases hnext
    exact ⟨rfl, backend.write_whole hsend hwrite (not_not.mp hgot)⟩

theorem codecWriteVia_nonneg (hbound : codec.bound < messageLimit)
    (h : codecWriteVia backend.dumpWrite codec data w = .returns (ret, w')) (hret : 0 ≤ ret) :
    ret = toInt32 data.length ∧ ∃ dst writes, codec.compress data = some dst ∧
      w' = { w with
        file := w.file ++ [toBytes 4 dst.length, dst].flatMap backend.encode
        writes := writes } := by
  rw [codecWriteVia] at h
  split at h
  · cases h
    omega
  · rename_i dst hdst
    obtain ⟨⟨got, w₁⟩, hword, h⟩ := Outcome.andThen_eq_returns.mp h
    dsimp only at h
    split_ifs at h with hgot
    · cases h
      omega
    · obtain ⟨⟨got', w₂⟩, hblock, h⟩ := Outcome.andThen_eq_returns.mp h
      dsimp only at h
      split_ifs at h with hgot'
      · cases h
        omega
      · cases h
        rw [not_not] at hgot hgot'
        rw [hgot] at hword
        rw [hgot'] at hblock
        obtain ⟨writes₁, rfl⟩ := backend.write_count (word_sendable dst.length)
          (by simpa using hword)
        obtain ⟨writes₂, rfl⟩ := backend.write_count (block_sendable hbound hdst) hblock
        exact ⟨rfl, dst, writes₂, hdst, by simp [List.append_assoc]⟩

theorem codecWriteVia_ret {dumpWrite : DumpWrite}
    (h : codecWriteVia dumpWrite codec data w = .returns (ret, w')) :
    ret = -1 ∨ ret = toInt32 data.length := by
  rw [codecWriteVia] at h
  split at h
  · cases h
    exact Or.inl rfl
  · obtain ⟨⟨got, w₁⟩, -, h⟩ := Outcome.andThen_eq_returns.mp h
    dsimp only at h
    split_ifs at h
    · cases h
      exact Or.inl rfl
    · obtain ⟨⟨got', w₂⟩, -, h⟩ := Outcome.andThen_eq_returns.mp h
      dsimp only at h
      split_ifs at h <;> cases h <;> simp

theorem compressWriteVia_nonneg (hfit : BlocksFit cfg.codecs) (hsend : Sendable data)
    (h : compressWriteVia backend.dumpWrite cfg.codecs cfg.algorithm data w = .returns (ret, w'))
    (hret : 0 ≤ ret) :
    ret = toInt32 data.length ∧ (payload? cfg.codecs cfg.algorithm data).isSome ∧
      ∃ writes, w' = { w with
        file := w.file ++
          (payloadMessages cfg.codecs cfg.algorithm data).flatMap backend.encode
        writes := writes } := by
  cases halg : cfg.algorithm with
  | plain =>
      rw [halg] at h
      obtain ⟨hlen, writes, rfl⟩ := plainWriteVia_nonneg hsend h hret
      exact ⟨hlen, rfl, writes, by simp [payloadMessages]⟩
  | lz4 =>
      rw [halg] at h
      obtain ⟨hlen, dst, writes, hdst, rfl⟩ := codecWriteVia_nonneg hfit.lz4 h hret
      exact ⟨hlen, by simp [payload?, hdst], writes, by simp [payloadMessages, hdst]⟩
  | zstd =>
      rw [halg] at h
      obtain ⟨hlen, dst, writes, hdst, rfl⟩ := codecWriteVia_nonneg hfit.zstd h hret
      exact ⟨hlen, by simp [payload?, hdst], writes, by simp [payloadMessages, hdst]⟩

theorem compressWriteVia_ret {dumpWrite : DumpWrite} {codecs : Codecs} {alg : Algorithm}
    (h : compressWriteVia dumpWrite codecs alg data w = .returns (ret, w')) :
    ret = -1 ∨ ret = toInt32 data.length := by
  cases alg with
  | plain =>
      obtain ⟨⟨got, w₁⟩, -, h⟩ := Outcome.andThen_eq_returns.mp h
      dsimp only at h
      split_ifs at h <;> cases h <;> simp
  | lz4 => exact codecWriteVia_ret h
  | zstd => exact codecWriteVia_ret h

theorem writeVmRegionVia_ne_zero {dumpWrite : DumpWrite} (hpos : 0 < region.vmr.len.toNat)
    (hle : region.vmr.len.toNat ≤ maxVmRegionSize) :
    writeVmRegionVia dumpWrite cfg region w ≠ .returns (0, w') := by
  intro h
  rw [writeVmRegionVia] at h
  split_ifs at h
  · cases h
  · obtain ⟨⟨got, w₁⟩, -, h⟩ := Outcome.andThen_eq_returns.mp h
    dsimp only at h
    split_ifs at h
    · cases h
    · obtain ⟨⟨ret', w₂⟩, hpayload, h⟩ := Outcome.andThen_eq_returns.mp h
      have hzero : ret' = 0 := by
        dsimp only at h
        split_ifs at h <;> cases h <;> rfl
      rw [hzero] at hpayload
      rcases compressWriteVia_ret hpayload with hfailed | hlen
      · omega
      · rw [region.length_eq, toInt32_of_lt (by simp only [maxVmRegionSize] at hle; omega)] at hlen
        omega

theorem writeVmRegionVia_pos (hfit : BlocksFit cfg.codecs)
    (hle : region.vmr.len.toNat ≤ maxVmRegionSize)
    (h : writeVmRegionVia backend.dumpWrite cfg region w = .returns (ret, w')) (hret : 0 < ret)
    (hpos : 0 < region.vmr.len.toNat) :
    Stored cfg region ∧ ret = region.vmr.len.toNat ∧ ∃ writes, w' =
      { file := w.file ++ backend.image cfg region
        dumpedVmSize := w.dumpedVmSize + region.vmr.len.toNat
        hashed := if cfg.checksum then w.hashed ++ region.bytes else w.hashed
        writes := writes } := by
  have hsend : Sendable region.data :=
    data_sendable (List.ne_nil_of_length_pos (region.length_eq ▸ hpos)) (region.length_eq ▸ hle)
  rw [writeVmRegionVia] at h
  split at h
  · cases h
    omega
  · rename_i hvalid
    obtain ⟨⟨got, w₁⟩, hheader, h⟩ := Outcome.andThen_eq_returns.mp h
    dsimp only at h
    split_ifs at h with hgot
    · cases h
      omega
    · obtain ⟨⟨ret', w₂⟩, hpayload, hlast⟩ := Outcome.andThen_eq_returns.mp h
      dsimp only at hlast
      rw [not_not] at hgot
      rw [hgot] at hheader
      obtain ⟨writes₁, rfl⟩ := backend.write_count (vmRegion_sendable region.vmr)
        (by simpa using hheader)
      split_ifs at hlast with hneg hhash
      · cases hlast
        omega
      all_goals
        cases hlast
        obtain ⟨hlen, hsome, writes₂, rfl⟩ :=
          compressWriteVia_nonneg hfit hsend hpayload (not_lt.mp hneg)
        refine ⟨⟨by simpa using hvalid, hpos, hle, hsome⟩, ?_, writes₂, ?_⟩
        · rw [hlen, region.length_eq, toInt32_of_lt]
          simp only [maxVmRegionSize] at hle
          omega
      · simp only [Bool.and_eq_true, decide_eq_true_eq] at hhash
        simp [Backend.image, messages, hhash.1, Region.bytes]
      · simp only [Bool.and_eq_true, decide_eq_true_eq, not_and, hret, not_true_eq_false,
          imp_false, Bool.not_eq_true] at hhash
        simp [Backend.image, messages, hhash]

end WriteRegion

section ReadRegion

variable {backend : Backend} {cfg : Config} {codec : Codec} {data tail : List Byte}
  {region : Region} {scratch : Scratch} {r : Reader}

/-- The outcome of reading `data` back: an error, or these bytes with the file left behind
them. -/
def ReadBack (backend : Backend) (data tail : List Byte) (r : Reader)
    (outcome : Outcome (Int × Memory × Reader)) : Prop :=
  ∃ ret buf r', outcome = .returns (ret, buf, r') ∧
    (ret = -1 ∧ ¬ backend.Calm ∨ ret = data.length ∧ slice buf 0 data.length = data ∧
      ∃ reads, r' = { r with rest := tail, reads := reads })

theorem plainReadVia_readBack (hsend : Sendable data) {capacity : Nat}
    (hcap : data.length ≤ capacity) (hrest : r.rest = backend.encode data ++ tail) (buf : Memory) :
    ReadBack backend data tail r (plainReadVia backend.dumpRead capacity data.length buf r) := by
  obtain ⟨ret, bytes, r', hread, hcases⟩ := backend.read_message hsend hcap hrest
  rw [plainReadVia, hread, Outcome.returns_andThen]
  rcases hcases with ⟨rfl, hrough⟩ | ⟨rfl, rfl, reads, rfl⟩
  · dsimp only
    rw [if_pos hsend.sizeT_failed]
    exact ⟨_, _, _, rfl, Or.inl ⟨rfl, hrough⟩⟩
  · dsimp only
    rw [if_neg (not_not.mpr hsend.sizeT_length)]
    exact ⟨_, _, _, rfl, Or.inr ⟨rfl, slice_store_self buf bytes, reads, rfl⟩⟩

theorem codecReadVia_readBack {decoder : Decoder} {dst : List Byte}
    (hbound : codec.bound < messageLimit) (hdst : codec.compress data = some dst)
    (hback : decoder.decompress dst data.length = some data) {capacity : Nat}
    (hcap : data.length ≤ capacity) (hlen : data.length < 2 ^ 31)
    (hrest : r.rest = [toBytes 4 dst.length, dst].flatMap backend.encode ++ tail)
    (buf : Memory) :
    ReadBack backend data tail r
      (codecReadVia backend.dumpRead codec decoder scratch capacity data.length buf r) := by
  have hblock := block_sendable hbound hdst
  have hle := codec.compress_le hdst
  have hword : ByteWords.ofBytes (toBytes 4 dst.length) = dst.length :=
    ofBytes_toBytes (by have := codec.bound_lt; norm_num; omega)
  simp only [List.flatMap_cons, List.flatMap_nil, List.append_nil, List.append_assoc] at hrest
  obtain ⟨ret, bytes, r₁, hread, hcases⟩ :=
    backend.read_message (word_sendable dst.length) (toBytes_length 4 dst.length).le hrest
  rw [toBytes_length] at hread hcases
  rw [codecReadVia, hread, Outcome.returns_andThen]
  rcases hcases with ⟨rfl, hrough⟩ | ⟨rfl, rfl, reads, rfl⟩
  · exact ⟨_, _, _, rfl, Or.inl ⟨rfl, hrough⟩⟩
  · have hslice : slice (store scratch.srcLen 0 (toBytes 4 dst.length)) 0 4 =
        toBytes 4 dst.length := by
      simpa using slice_store_self scratch.srcLen (toBytes 4 dst.length)
    simp only [Nat.cast_ofNat, ne_eq, not_true_eq_false, if_false, hslice, hword]
    rw [if_neg (by omega)]
    have hnext : Reader.rest { r with rest := backend.encode dst ++ tail, reads := reads } =
        backend.encode dst ++ tail := rfl
    obtain ⟨ret, bytes, r₂, hread, hcases⟩ := backend.read_message hblock hle hnext
    rw [hread, Outcome.returns_andThen]
    rcases hcases with ⟨rfl, hrough⟩ | ⟨rfl, rfl, reads', rfl⟩
    · dsimp only
      rw [if_pos (by omega)]
      exact ⟨_, _, _, rfl, Or.inl ⟨rfl, hrough⟩⟩
    · simp only [not_true_eq_false, if_false, slice_store_self]
      rw [decodeBlock_some hback ((decoder.reach_le _ _).trans hcap)]
      refine ⟨_, _, _, rfl, Or.inr ⟨toInt32_of_lt hlen, slice_store_self buf data, reads', rfl⟩⟩

theorem compressReadVia_readBack (hfit : BlocksFit cfg.codecs) (hstored : Stored cfg region)
    (scratch : Scratch) (r : Reader)
    (hrest : r.rest = (payloadMessages cfg.codecs cfg.algorithm region.data).flatMap
      backend.encode ++ tail) :
    ReadBack backend region.data tail r
      (compressReadVia backend.dumpRead cfg scratch region.data.length r) := by
  have hpos : 0 < region.data.length := region.length_eq ▸ hstored.len_pos
  have hle : region.data.length ≤ maxVmRegionSize := region.length_eq ▸ hstored.len_le
  have hlt : region.data.length < 2 ^ 31 := by
    simp only [maxVmRegionSize] at hle
    omega
  have hsome := hstored.payload
  unfold compressReadVia
  cases halg : cfg.algorithm with
  | plain =>
      rw [halg] at hrest
      simp only [payloadMessages, List.flatMap_cons, List.flatMap_nil, List.append_nil] at hrest
      exact plainReadVia_readBack (data_sendable (List.ne_nil_of_length_pos hpos) hle) hle hrest _
  | lz4 =>
      rw [halg] at hrest hsome
      simp only [payload?, Option.isSome_map] at hsome
      obtain ⟨dst, hdst⟩ := Option.isSome_iff_exists.mp hsome
      simp only [payloadMessages, hdst, Option.elim_some] at hrest
      exact codecReadVia_readBack hfit.lz4 hdst (lz4Decompress_roundTrip hdst hpos hle) hle hlt
        hrest _
  | zstd =>
      rw [halg] at hrest hsome
      simp only [payload?, Option.isSome_map] at hsome
      obtain ⟨dst, hdst⟩ := Option.isSome_iff_exists.mp hsome
      simp only [payloadMessages, hdst, Option.elim_some] at hrest
      exact codecReadVia_readBack hfit.zstd hdst (cfg.codecs.zstd.roundTrip hdst) hle hlt hrest _

theorem readVmRegionVia_image (hfit : BlocksFit cfg.codecs) (hstored : Stored cfg region)
    (scratch : Scratch)
    (hrest : r.rest = backend.image cfg region ++ tail)
    (hsize : region.vmr.len.toNat ≤ r.dumpedVmSize) :
    ∃ ret vmr buf r', readVmRegionVia backend.dumpRead cfg scratch r =
        .returns (ret, vmr, buf, r') ∧
      (ret = -1 ∧ ¬ backend.Calm ∨ ret = region.vmr.len.toNat ∧ vmr = region.vmr ∧
        slice buf 0 region.vmr.len.toNat = region.data ∧
        ∃ reads, r' = r.pass cfg region tail reads) := by
  rw [Backend.image, messages, List.flatMap_cons, List.append_assoc] at hrest
  obtain ⟨ret, header, r₁, hread, hcases⟩ := backend.read_message
    (vmRegion_sendable region.vmr) (VmRegion.bytes_length region.vmr).le hrest
  rw [VmRegion.bytes_length] at hread hcases
  rw [readVmRegionVia, readHeaderVia, hread, Outcome.returns_andThen]
  rcases hcases with ⟨rfl, hrough⟩ | ⟨rfl, rfl, reads, rfl⟩
  · exact ⟨_, _, _, _, rfl, Or.inl ⟨rfl, hrough⟩⟩
  · have hvmr : VmRegion.ofBytes (slice (store scratch.vmr 0 region.vmr.bytes) 0 vmRegionSize) =
        region.vmr := by
      have hself := slice_store_self scratch.vmr region.vmr.bytes
      rw [VmRegion.bytes_length] at hself
      rw [hself, VmRegion.ofBytes_bytes]
    have hpos := hstored.len_pos
    have hle := hstored.len_le
    simp only [ne_eq, not_true_eq_false, if_false, hvmr, show ¬ r.dumpedVmSize < _ from
      not_lt.mpr hsize, hstored.valid, Bool.not_true, Bool.false_eq_true,
      Outcome.returns_andThen, readContentsVia]
    obtain ⟨ret, buf, r₂, hpayload, hcases⟩ := compressReadVia_readBack hfit hstored scratch
      ⟨_, r.dumpedVmSize - region.vmr.len.toNat, r.hashed, reads⟩ rfl
    rw [region.length_eq] at hpayload hcases
    rw [hpayload, Outcome.returns_andThen]
    rcases hcases with ⟨rfl, hrough⟩ | ⟨rfl, hdata, reads', rfl⟩
    · exact ⟨_, _, _, _, rfl, Or.inl ⟨rfl, hrough⟩⟩
    · dsimp only
      rw [if_neg (by omega)]
      cases hchecksum : cfg.checksum with
      | true =>
          rw [if_pos (by simpa using hpos), if_neg (by omega)]
          refine ⟨_, _, _, _, rfl, Or.inr ⟨rfl, rfl, hdata, reads', ?_⟩⟩
          simp [Reader.pass, hchecksum, hdata, Region.bytes]
      | false =>
          rw [if_neg (by simp)]
          refine ⟨_, _, _, _, rfl, Or.inr ⟨rfl, rfl, hdata, reads', ?_⟩⟩
          simp [Reader.pass, hchecksum]

end ReadRegion

section Upload

variable {backend : Backend} {cfg : Config} {env : LoopEnv} {region : Region}
  {regions : List Region} {tail : List Byte} {st : Upload}

/-- The regions are in the file and in the budget that is left. -/
structure Holds (backend : Backend) (cfg : Config) (regions : List Region) (r : Reader) :
    Prop where
  rest : r.rest = regions.flatMap (backend.image cfg)
  size : (regions.map fun region => region.vmr.len.toNat).sum ≤ r.dumpedVmSize

/-- Every read and every `parasite_write` of the loop works. -/
def Undisturbed (backend : Backend) (env : LoopEnv) : Prop :=
  backend.Calm ∧ ∀ i, env.sendFails i = false

theorem not_undisturbed {i : Nat} (h : env.sendFails i = true) : ¬ Undisturbed backend env :=
  fun hcalm => Bool.false_ne_true ((hcalm.2 i).symm.trans h)

theorem uploadRound_image (henv : env.dumpRead = backend.dumpRead) (hfit : BlocksFit cfg.codecs)
    (hstored : Stored cfg region) (hholds : Holds backend cfg (region :: regions) st.reader) :
    (∃ ret st', uploadRound cfg env st = .returns (.inl (ret, st')) ∧ ret < 0 ∧
      ¬ Undisturbed backend env) ∨
    ∃ st', uploadRound cfg env st = .returns (.inr st') ∧
      st'.uploaded = st.uploaded ++ [region] ∧ Holds backend cfg regions st'.reader ∧
      st'.reader.hashed =
        if cfg.checksum then st.reader.hashed ++ region.bytes else st.reader.hashed := by
  have hsize := hholds.size
  rw [List.map_cons, List.sum_cons] at hsize
  have hrest := hholds.rest
  rw [List.flatMap_cons] at hrest
  obtain ⟨ret, vmr, buf, r', hread, hcases⟩ :=
    readVmRegionVia_image hfit hstored (env.scratch st.sends) hrest (by omega)
  rw [uploadRound, henv, hread, Outcome.returns_andThen, sendRegion]
  rcases hcases with ⟨rfl, hrough⟩ | ⟨rfl, rfl, hdata, reads, rfl⟩
  · exact Or.inl ⟨_, _, rfl, by omega, fun hcalm => hrough hcalm.1⟩
  · have hpos := hstored.len_pos
    have hle := hstored.len_le
    rw [if_neg (by omega)]
    by_cases hfirst : env.sendFails st.sends = true
    · rw [if_pos hfirst]
      exact Or.inl ⟨_, _, rfl, by omega, not_undisturbed hfirst⟩
    · rw [if_neg hfirst, if_neg (by omega), if_neg (by omega)]
      by_cases hsecond : env.sendFails (st.sends + 1) = true
      · rw [if_pos hsecond]
        exact Or.inl ⟨_, _, rfl, by omega, not_undisturbed hsecond⟩
      · rw [if_neg hsecond]
        refine Or.inr ⟨_, rfl, ?_, ⟨rfl, ?_⟩, rfl⟩
        · exact congrArg (st.uploaded ++ [·]) (Region.ext_iff_fields rfl hdata)
        · simp only [Reader.pass]
          omega

theorem uploadRound_end (cfg : Config) (henv : env.dumpRead = backend.dumpRead)
    (hrest : st.reader.rest = []) :
    ∃ ret reader, uploadRound cfg env st = .returns (.inl (ret, { st with reader := reader })) ∧
      ret ≤ 0 ∧ (backend.Calm → ret = 0) ∧ reader.hashed = st.reader.hashed := by
  obtain ⟨ret, bytes, r', hread, hret, hcalm, hhashed⟩ : ∃ ret bytes r',
      backend.dumpRead vmRegionSize vmRegionSize st.reader = .returns (ret, bytes, r') ∧ _ :=
    backend.read_end (by decide) (by decide) hrest
  refine ⟨ret, r', ?_, hret, hcalm, hhashed⟩
  rw [uploadRound, henv, readVmRegionVia, readHeaderVia, hread, Outcome.returns_andThen]
  dsimp only
  rw [if_pos (by simp only [vmRegionSize]; omega), Outcome.returns_andThen,
    Outcome.returns_andThen, sendRegion, if_pos hret]

theorem uploadLoopVia_images (henv : env.dumpRead = backend.dumpRead)
    (hfit : BlocksFit cfg.codecs) (hstored : ∀ region ∈ regions, Stored cfg region)
    {rounds : Nat} (hrounds : regions.length < rounds)
    (hholds : Holds backend cfg regions st.reader) :
    ∃ ret st', uploadLoopVia cfg env rounds st = .returns (ret, st') ∧
      (ret < 0 ∧ ¬ Undisturbed backend env ∨ ret = 0 ∧ st'.uploaded = st.uploaded ++ regions ∧
        (cfg.checksum = true →
          st'.reader.hashed = st.reader.hashed ++ regions.flatMap Region.bytes)) := by
  obtain ⟨more, rfl⟩ := Nat.exists_eq_add_of_lt hrounds
  induction regions generalizing st with
  | nil =>
      obtain ⟨ret, reader, hround, hret, hcalm, hhashed⟩ :=
        uploadRound_end cfg henv hholds.rest
      rw [uploadLoopVia, hround, Outcome.returns_andThen]
      refine ⟨_, _, rfl, (lt_or_eq_of_le hret).imp (fun hneg => ⟨hneg, ?_⟩)
        fun hzero => ⟨hzero, ?_, ?_⟩⟩
      · exact fun hquiet => hneg.ne (hcalm hquiet.1)
      · exact (List.append_nil _).symm
      · intro _
        exact hhashed.trans (List.append_nil _).symm
  | cons region regions ih =>
      rw [show (region :: regions).length + more + 1 = (regions.length + more + 1) + 1 by
        simp only [List.length_cons]; omega, uploadLoopVia]
      rcases uploadRound_image henv hfit (hstored region List.mem_cons_self) hholds with
        ⟨ret, st', hround, hneg⟩ | ⟨st', hround, huploaded, hholds', hhashed⟩
      · rw [hround, Outcome.returns_andThen]
        exact ⟨ret, st', rfl, Or.inl hneg⟩
      · rw [hround, Outcome.returns_andThen]
        obtain ⟨ret, last, hloop, hcases⟩ :=
          ih (fun r hr => hstored r (List.mem_cons_of_mem _ hr)) hholds' (by omega)
        refine ⟨ret, last, hloop, hcases.imp_right ?_⟩
        rintro ⟨hzero, hlast, hsum⟩
        refine ⟨hzero, ?_, ?_⟩
        · rw [hlast, huploaded, List.append_assoc, List.singleton_append]
        · intro hchecksum
          rw [hsum hchecksum, hhashed, if_pos hchecksum, List.flatMap_cons, List.append_assoc]

theorem image_length_pos (backend : Backend) (cfg : Config) (region : Region) :
    0 < (backend.image cfg region).length := by
  rw [Backend.image, messages, List.flatMap_cons, List.length_append]
  have := List.length_pos_of_ne_nil (backend.encode_ne_nil (vmRegion_sendable region.vmr).ne_nil)
  omega

theorem length_le_images (backend : Backend) (cfg : Config) (regions : List Region) :
    regions.length ≤ (regions.flatMap (backend.image cfg)).length := by
  induction regions with
  | nil => simp
  | cons region regions ih =>
      have := image_length_pos backend cfg region
      rw [List.flatMap_cons, List.length_append, List.length_cons]
      omega

end Upload

/-- What `dump_write` and `dump_read` call, and how their system calls end. Only
`lib__write` with a cipher does not notice a short write. -/
inductive Storage where
  | builtin (writes : Nat → WriteCall) (rounds : Nat) (readFails : Nat → Bool)
  /-- The library with its cipher disabled; its reads are not short. -/
  | cipherOff (writes : Nat → WriteCall) (reads : Nat → ReadCall)
      (whole : ∀ i n, reads i ≠ .upTo n)
  | cipherOn (secrets : Secrets) (writes : Nat → WriteCall) (reads : Nat → ReadCall)
      (whole : ∀ i n, writes i ≠ .upTo n)

def Storage.dumpWrite : Storage → DumpWrite
  | .builtin writes rounds _ => DumpWriters.dumpWrite .builtin writes rounds
  | .cipherOff writes _ _ => DumpWriters.dumpWrite .cipherOff writes 0
  | .cipherOn secrets writes _ _ => DumpWriters.dumpWrite (.cipherOn secrets) writes 0

def Storage.dumpRead : Storage → DumpRead
  | .builtin _ _ readFails => DumpFormat.dumpRead readFails
  | .cipherOff _ reads _ => libReadPlain reads
  | .cipherOn secrets _ reads _ => libRead secrets reads

section Storages

variable {secrets : Secrets} {writes : Nat → WriteCall} {reads : Nat → ReadCall}
  {bytes message tail : List Byte} {w w' : Writer} {r : Reader} {ret : Int} {capacity : Nat}

theorem builtinWrite_whole {rounds : Nat} (hsend : Sendable bytes)
    (h : builtinWrite writes rounds bytes w = .returns (ret, w'))
    (hret : sizeT ret = bytes.length) :
    ∃ writes, w' = { w with file := w.file ++ bytes, writes := writes } := by
  rw [builtinWrite, if_neg hsend.ne_nil] at h
  obtain ⟨n, writes, rfl, ⟨-, hn⟩ | rfl⟩ :=
    writeLoop_returns w.file (hsend.lt.trans (by decide)) (Nat.zero_le _) (by simp) h
  · exact ⟨writes, by rw [List.take_of_length_le hn]⟩
  · exact absurd hret hsend.sizeT_failed

theorem libWritePlain_whole (hsend : Sendable bytes)
    (h : libWritePlain writes bytes w = .returns (ret, w')) (hret : sizeT ret = bytes.length) :
    ∃ writes, w' = { w with file := w.file ++ bytes, writes := writes } := by
  rw [libWritePlain] at h
  rcases hwrite : write writes bytes w with ⟨_ | n, next⟩
  · rw [hwrite] at h
    cases h
    exact absurd hret hsend.sizeT_failed
  · rw [hwrite] at h
    cases h
    obtain ⟨hn, rfl⟩ := write_eq_some hwrite
    have hlt := hsend.lt
    rw [toInt32_of_lt (by simp only [messageLimit] at hlt; omega),
      sizeT_natCast (by simp only [messageLimit] at hlt; omega)] at hret
    exact ⟨_, by rw [List.take_of_length_le (by omega)]⟩

theorem writePieces_noShort (hwhole : ∀ i n, writes i ≠ .upTo n) {pieces : List (List Byte)}
    (h : writePieces writes pieces w = (true, w')) :
    w' = { w with file := w.file ++ pieces.flatten, writes := w.writes + pieces.length } := by
  induction pieces generalizing w with
  | nil =>
      cases h
      simp
  | cons piece pieces ih =>
      rw [writePieces] at h
      rcases hcall : writes w.writes with _ | _ | n
      · simp [write, written, hcall] at h
      · simp only [write, written, hcall, List.take_length] at h
        rw [ih h]
        simp only [List.flatten_cons, List.append_assoc, List.length_cons]
        congr 1
        omega
      · exact absurd hcall (hwhole _ n)

theorem libWrite_noShort (hwhole : ∀ i n, writes i ≠ .upTo n) (hsend : Sendable bytes)
    (h : libWrite secrets writes bytes w = .returns (ret, w')) (hret : sizeT ret = bytes.length) :
    ∃ writes, w' = { w with
      file := w.file ++ encryptMessage secrets.cipher secrets.iv bytes, writes := writes } := by
  rw [libWrite_eq] at h
  rcases hpieces : writePieces writes (pieces secrets bytes) w with ⟨_ | _, next⟩
  · rw [hpieces] at h
    cases h
    exact absurd hret hsend.sizeT_failed
  · rw [hpieces] at h
    cases h
    rw [writePieces_noShort hwhole hpieces, pieces_flatten]
    exact ⟨_, rfl⟩

theorem dumpRead_message {fails : Nat → Bool} (hsend : Sendable message)
    (hcap : message.length ≤ capacity) (hrest : r.rest = message ++ tail) :
    ∃ ret bytes r', dumpRead fails capacity message.length r = .returns (ret, bytes, r') ∧
      (ret = -1 ∧ ¬ (∀ i, fails i = false) ∨ ret = message.length ∧ bytes = message ∧
        ∃ reads, r' = { r with rest := tail, reads := reads }) := by
  rw [dumpRead_whole message tail hrest rfl (List.length_pos_of_ne_nil hsend.ne_nil) hcap]
  split_ifs with hfails
  · exact ⟨_, _, _, rfl, Or.inl ⟨rfl, fun hcalm => by simp [hcalm] at hfails⟩⟩
  · exact ⟨_, _, _, rfl, Or.inr ⟨rfl, rfl, _, rfl⟩⟩

theorem libReadPlain_message (hwhole : ∀ i n, reads i ≠ .upTo n) (hsend : Sendable message)
    (hcap : message.length ≤ capacity) (hrest : r.rest = message ++ tail) :
    ∃ ret bytes r', libReadPlain reads capacity message.length r = .returns (ret, bytes, r') ∧
      (ret = -1 ∧ ¬ (∀ i, reads i = .whole) ∨ ret = message.length ∧ bytes = message ∧
        ∃ reads, r' = { r with rest := tail, reads := reads }) := by
  rw [libReadPlain]
  rcases hcall : reads r.reads with _ | _ | n
  · rw [sysRead, if_pos hcall]
    exact ⟨_, _, _, rfl, Or.inl ⟨rfl, fun hcalm => by simp [hcalm] at hcall⟩⟩
  · have hlt := hsend.lt
    rw [sysRead_eq (by rw [hcall]; decide), hcall, ReadCall.limit, hrest, List.take_left',
      List.drop_left' rfl]
    · dsimp only
      rw [if_neg (by omega), toInt32_of_lt (by simp only [messageLimit] at hlt; omega)]
      exact ⟨_, _, _, rfl, Or.inr ⟨rfl, rfl, _, rfl⟩⟩
    · rfl
  · exact absurd hcall (hwhole _ n)

theorem dumpRead_end {fails : Nat → Bool} {count : Nat} (hcount : 0 < count)
    (hrest : r.rest = []) :
    ∃ ret bytes r', dumpRead fails capacity count r = .returns (ret, bytes, r') ∧ ret ≤ 0 ∧
      ((∀ i, fails i = false) → ret = 0) ∧ r'.hashed = r.hashed := by
  simp only [DumpFormat.dumpRead, hrest, List.length_nil, Nat.min_zero, Nat.not_lt_zero, if_false,
    hcount.ne', hcount.not_ge]
  split_ifs with hfails
  · exact ⟨_, _, _, rfl, by decide, fun hcalm => by simp [hcalm] at hfails, rfl⟩
  · exact ⟨_, _, _, rfl, le_rfl, fun _ => rfl, rfl⟩

theorem libReadPlain_end {count : Nat} (hrest : r.rest = []) :
    ∃ ret bytes r', libReadPlain reads capacity count r = .returns (ret, bytes, r') ∧ ret ≤ 0 ∧
      ((∀ i, reads i = .whole) → ret = 0) ∧ r'.hashed = r.hashed := by
  rw [libReadPlain, sysRead_eof hrest]
  by_cases hfails : reads r.reads = .fails
  · rw [if_pos hfails]
    exact ⟨_, _, _, rfl, by decide, fun hcalm => by simp [hcalm] at hfails, rfl⟩
  · rw [if_neg hfails]
    exact ⟨_, _, _, rfl, by decide, fun _ => rfl, rfl⟩

theorem libRead_message_cases (hsend : Sendable message) (hcap : message.length ≤ capacity)
    (hrest : r.rest = encryptMessage secrets.cipher secrets.iv message ++ tail) :
    ∃ ret bytes r', libRead secrets reads capacity message.length r = .returns (ret, bytes, r') ∧
      (ret = -1 ∧ ¬ (∀ i, reads i = .whole) ∨ ret = message.length ∧ bytes = message ∧
        ∃ reads, r' = { r with rest := tail, reads := reads }) := by
  have hpos := List.length_pos_of_ne_nil hsend.ne_nil
  have hlt := hsend.lt
  have hlen : messageSize message.length ≤ r.rest.length := by
    rw [hrest, List.length_append, encryptMessage_length secrets.iv_length]
    exact Nat.le_add_right _ _
  have hend : readEnd (messageSize message.length) r = messageSize message.length :=
    min_eq_left hlen
  have hready : decryptReady (readEnd (messageSize message.length) r) * blockSize ≤ capacity := by
    rw [hend]
    refine le_trans ?_ hcap
    simp only [messageSize, decryptReady, blockSize]
    omega
  obtain ⟨k, -, ⟨bytes, r', hread, hfails, -⟩ | ⟨st, hread, hst, hstop⟩⟩ :=
    @libRead_outcome secrets reads (messageSize message.length) r _ _ (bytesTodo_eq hlt) hready
  · exact ⟨_, _, _, hread, Or.inl ⟨rfl, fun hcalm => by simp [hcalm] at hfails⟩⟩
  · rw [hend] at hst hstop
    rw [hread]
    have hle := @taken_le reads r.reads (messageSize message.length) k
    rcases hle.eq_or_lt with hall | hinside
    · rw [hall] at hst
      rw [libReadFinal_message hrest hst hcap,
        toInt32_of_lt (by simp only [messageLimit] at hlt; omega)]
      exact ⟨_, _, _, rfl, Or.inr ⟨rfl, rfl, _, rfl⟩⟩
    · -- the loop stopped inside the last block, whose end is then missing
      obtain ⟨hdvd, hgt⟩ := dvd_of_enough hpos hle (hstop.resolve_right fun h => hinside.ne h.1)
      have hsize : messageSize message.length = message.length + blockSize := by
        rw [messageSize, Nat.succ_mul, Nat.div_mul_cancel hdvd]
      rw [SplitReads.libReadFinal_inside hdvd hgt (hsize ▸ hinside) (hle.trans hlen) hst]
      refine ⟨_, _, _, rfl, Or.inl ⟨rfl, fun hcalm => ?_⟩⟩
      obtain rfl : reads = fun _ => .whole := funext hcalm
      -- calls that are not short end between two blocks
      have hblocks : blockSize ∣ taken (fun _ => .whole) r.reads (messageSize message.length) k :=
        taken_whole_dvd (Nat.dvd_mul_left _ _) k
      obtain ⟨n, hn⟩ := Nat.dvd_sub hblocks hdvd
      have hblock : blockSize = 16 := rfl
      rw [hblock] at hn hsize
      omega

end Storages

section Backends

/-- What a buffer becomes in the file. -/
def Storage.encode : Storage → List Byte → List Byte
  | .cipherOn secrets _ _ _ => encryptMessage secrets.cipher secrets.iv
  | _ => id

/-- Its system calls read all that is asked for and there. -/
def Storage.Calm : Storage → Prop
  | .builtin _ _ readFails => ∀ i, readFails i = false
  | .cipherOff _ reads _ => ∀ i, reads i = .whole
  | .cipherOn _ _ reads _ => ∀ i, reads i = .whole

variable (storage : Storage) {bytes message tail : List Byte} {capacity : Nat} {r : Reader}

theorem Storage.encode_ne_nil (hne : bytes ≠ []) : storage.encode bytes ≠ [] := by
  cases storage with
  | builtin => exact hne
  | cipherOff => exact hne
  | cipherOn secrets =>
      refine List.ne_nil_of_length_pos ?_
      simp only [Storage.encode, encryptMessage_length secrets.iv_length, blockSize]
      omega

theorem Storage.write_whole {w w' : Writer} {ret : Int} (hsend : Sendable bytes)
    (h : storage.dumpWrite bytes w = .returns (ret, w')) (hret : sizeT ret = bytes.length) :
    ∃ writes, w' = { w with file := w.file ++ storage.encode bytes, writes := writes } := by
  cases storage with
  | builtin => exact builtinWrite_whole hsend h hret
  | cipherOff => exact libWritePlain_whole hsend h hret
  | cipherOn _ _ _ whole => exact libWrite_noShort whole hsend h hret

theorem Storage.read_message (hsend : Sendable message) (hcap : message.length ≤ capacity)
    (hrest : r.rest = storage.encode message ++ tail) :
    ∃ ret bytes r', storage.dumpRead capacity message.length r = .returns (ret, bytes, r') ∧
      (ret = -1 ∧ ¬ storage.Calm ∨ ret = message.length ∧ bytes = message ∧
        ∃ reads, r' = { r with rest := tail, reads := reads }) := by
  cases storage with
  | builtin => exact dumpRead_message hsend hcap hrest
  | cipherOff _ _ whole => exact libReadPlain_message whole hsend hcap hrest
  | cipherOn => exact libRead_message_cases hsend hcap hrest

theorem Storage.read_end {count : Nat} (hcount : 0 < count) (hlt : count < messageLimit)
    (hrest : r.rest = []) :
    ∃ ret bytes r', storage.dumpRead capacity count r = .returns (ret, bytes, r') ∧ ret ≤ 0 ∧
      (storage.Calm → ret = 0) ∧ r'.hashed = r.hashed := by
  cases storage with
  | builtin => exact dumpRead_end hcount hrest
  | cipherOff => exact libReadPlain_end hrest
  | cipherOn secrets _ reads _ =>
      obtain ⟨ret, n, h, hret, hzero⟩ := @libRead_eof secrets r reads capacity count hrest
      have htodo : 0 ≤ bytesTodo count := by
        rw [bytesTodo_eq hlt]
        exact Int.natCast_nonneg _
      exact ⟨_, _, _, h, hret, fun hcalm => hzero htodo (by simp [hcalm _]), rfl⟩

/-- Every storage is a back end. -/
def Storage.backend : Backend where
  dumpWrite := storage.dumpWrite
  dumpRead := storage.dumpRead
  Calm := storage.Calm
  encode := storage.encode
  encode_ne_nil := storage.encode_ne_nil
  write_whole := storage.write_whole
  read_message := storage.read_message
  read_end := storage.read_end

end Backends

end Memcr.DumpBackends
