import Mathlib.Logic.Relation
import Memcr.DumpReaders

namespace Memcr.DumpRecords

open Memcr.ByteWords
open Memcr.ByteMemory
open Memcr.CallOutcome
open Memcr.DumpFormat
open Memcr.DumpReaders
open Memcr.DumpRestore

/-- A compressed block behind its length word, one that fits the compress bound. -/
structure Framed (codec : Codec) (body block : List Byte) : Prop where
  body_eq : body = toBytes 4 block.length ++ block
  nonempty : block ≠ []
  length_le : block.length ≤ codec.bound

/-- A compressed block with its length word, which decodes for `len` bytes. -/
def Block (codec : Codec) (decompress : List Byte → Nat → Option (List Byte)) (len : Nat)
    (body : List Byte) (out : List Byte) : Prop :=
  ∃ block, Framed codec body block ∧ decompress block len = some out

/-- A block that decodes, without storing more than the buffer holds. -/
def DecodesBlock (codec : Codec) (decoder : Decoder) (len : Nat) (body : List Byte) : Prop :=
  ∃ block out, Framed codec body block ∧ decoder.decompress block len = some out ∧
    decoder.reach block len ≤ maxVmRegionSize

/-- Contents of a region of `len` bytes that `compress_read` accepts. -/
def Decodes (cfg : Config) (len : Nat) (body : List Byte) : Prop :=
  match cfg.algorithm with
  | .plain => body.length = len ∧ 0 < len ∧ len ≤ maxVmRegionSize
  | .lz4 => DecodesBlock cfg.codecs.lz4 (lz4Decoder cfg.codecs.lz4) len body
  | .zstd => DecodesBlock cfg.codecs.zstd (zstdDecoder cfg.codecs.zstd) len body

/-- A length word of 0, or a block, one that decodes or not, for which the library
stores more than the buffer holds. -/
def StuckBlock (codec : Codec) (decoder : Decoder) (len : Nat) (more : List Byte) : Prop :=
  (∃ tail, more = toBytes 4 0 ++ tail) ∨
    ∃ body tail block, more = body ++ tail ∧ Framed codec body block ∧
      maxVmRegionSize < decoder.reach block len

/-- Bytes on which `compress_read` for `len` bytes does not return. -/
def Stuck (cfg : Config) (len : Nat) (more : List Byte) : Prop :=
  match cfg.algorithm with
  | .plain => len = 0 ∨ maxVmRegionSize < min len more.length
  | .lz4 => StuckBlock cfg.codecs.lz4 (lz4Decoder cfg.codecs.lz4) len more
  | .zstd => StuckBlock cfg.codecs.zstd (zstdDecoder cfg.codecs.zstd) len more

/-- A place in the dump file, and what is left of `dumped_vm_size` there. -/
structure Cursor where
  rest : List Byte
  budget : Nat

def cursor (r : Reader) : Cursor := ⟨r.rest, r.dumpedVmSize⟩

/-- A header that passes the checks of `read_vm_region`. -/
structure Header (cfg : Config) (c : Cursor) (vmr : VmRegion) (more : List Byte) : Prop where
  rest_eq : c.rest = vmr.bytes ++ more
  len_le : vmr.len.toNat ≤ c.budget
  valid : vmRegionValid cfg.pageSize vmr = true

/-- A region record between two places, one that the loop uploads. -/
structure Record (cfg : Config) (c c' : Cursor) (vmr : VmRegion) (body : List Byte) :
    Prop where
  header : Header cfg c vmr (body ++ c'.rest)
  budget : c'.budget = c.budget - vmr.len.toNat
  len_pos : 0 < vmr.len.toNat
  len_le : vmr.len.toNat ≤ maxVmRegionSize
  decodes : Decodes cfg vmr.len.toNat body

/-- There are only whole records between two places. -/
def Records (cfg : Config) : Cursor → Cursor → Prop :=
  Relation.ReflTransGen fun c c' => ∃ vmr body, Record cfg c c' vmr body

/-- A place where a round does not return: `compress_read` does not, or it
succeeds for a region that is longer than the buffer. -/
def Fatal (cfg : Config) (c : Cursor) : Prop :=
  ∃ vmr more, Header cfg c vmr more ∧
    (Stuck cfg vmr.len.toNat more ∨
      (maxVmRegionSize < vmr.len.toNat ∧ 0 < toInt32 vmr.len.toNat ∧
        ∃ body tail, more = body ++ tail ∧ Decodes cfg vmr.len.toNat body))

/-- No call fails. -/
def quietFails : Nat → Bool := fun _ => false

section Contents

variable {fails : Nat → Bool} {codec : Codec} {decoder : Decoder} {capacity count len : Nat}
  {buf : Memory} {r : Reader}

theorem dumpRead_cases (hpos : 0 < count) :
    (∃ ret bytes r', dumpRead fails capacity count r = .returns (ret, bytes, r') ∧ ret ≤ 0) ∨
      (∃ bytes tail, r.rest = bytes ++ tail ∧ bytes.length = count ∧ count ≤ capacity ∧
        dumpRead fails capacity count r =
          .returns (count, bytes, { r with rest := tail, reads := r.reads + 1 })) ∨
      (dumpRead fails capacity count r = .overruns ∧ capacity < min count r.rest.length) := by
  simp only [dumpRead, hpos.ne', if_false]
  split_ifs with hfail hover hwhole
  · exact Or.inl ⟨_, _, _, rfl, by decide⟩
  · exact Or.inr (Or.inr ⟨rfl, hover⟩)
  · refine Or.inr (Or.inl ⟨_, _, (List.take_append_drop count r.rest).symm,
      List.length_take_of_le hwhole, ?_, rfl⟩)
    omega
  · exact Or.inl ⟨_, _, _, rfl, le_rfl⟩

theorem dumpRead_quiet {bytes tail : List Byte} (hrest : r.rest = bytes ++ tail)
    (hpos : bytes ≠ []) (hcap : bytes.length ≤ capacity) :
    dumpRead quietFails capacity bytes.length r =
      .returns (bytes.length, bytes, { r with rest := tail, reads := r.reads + 1 }) := by
  rw [dumpRead_whole bytes tail hrest rfl (List.length_pos_of_ne_nil hpos) hcap]
  rfl

/-- A call that returns an error, or reads what is accepted and returns the
length, or gets stuck. -/
def ReadCases (accepts : List Byte → Prop) (stuck : Prop) (len : Nat) (r : Reader)
    (outcome : Outcome (Int × Memory × Reader)) : Prop :=
  (∃ ret buf' r', outcome = .returns (ret, buf', r') ∧ ret < 0) ∨
    (∃ body tail buf' reads, r.rest = body ++ tail ∧ accepts body ∧
      outcome = .returns (toInt32 len, buf', { r with rest := tail, reads := reads })) ∨
    ((∀ result, outcome ≠ .returns result) ∧ stuck)

theorem plainRead_cases :
    ReadCases (fun body => body.length = len ∧ 0 < len ∧ len ≤ maxVmRegionSize)
      (len = 0 ∨ maxVmRegionSize < min len r.rest.length) len r
      (plainRead fails len buf r) := by
  rcases Nat.eq_zero_or_pos len with rfl | hpos
  · refine Or.inr (Or.inr ⟨?_, Or.inl rfl⟩)
    intro result h
    cases h
  · simp only [plainRead]
    rcases dumpRead_cases hpos with ⟨ret, bytes, r', hread, hret⟩ |
        ⟨bytes, tail, hrest, hlen, hcap, hread⟩ | ⟨hread, hover⟩ <;>
      rw [hread]
    · have hne : ret ≠ (len : Int) := by omega
      simp only [Outcome.returns_andThen, hne, ne_eq, not_false_eq_true, if_true]
      exact Or.inl ⟨_, _, _, rfl, by decide⟩
    · have hint : toInt32 len = len :=
        toInt32_of_lt (by simp only [maxVmRegionSize] at hcap; omega)
      simp only [Outcome.returns_andThen, ne_eq, not_true_eq_false, if_false]
      rw [← hint]
      exact Or.inr (Or.inl ⟨bytes, tail, _, _, hrest, ⟨hlen, hpos, hcap⟩, rfl⟩)
    · refine Or.inr (Or.inr ⟨?_, Or.inr hover⟩)
      intro result h
      cases h

theorem fetchBlock_cases :
    (∃ r', fetchBlock fails codec r = .returns (none, r')) ∨
      (∃ body tail block reads, r.rest = body ++ tail ∧ Framed codec body block ∧
        fetchBlock fails codec r =
          .returns (some block, { r with rest := tail, reads := reads })) ∨
      (fetchBlock fails codec r = .aborts ∧ ∃ tail, r.rest = toBytes 4 0 ++ tail) := by
  simp only [fetchBlock]
  rcases @dumpRead_cases fails 4 4 r (by decide) with ⟨ret, bytes, r', hread, hret⟩ |
      ⟨word, tail, hrest, hlen, -, hread⟩ | ⟨-, hover⟩
  · have hne : ret ≠ 4 := by omega
    simp only [hread, Outcome.returns_andThen, hne, ne_eq, not_false_eq_true, if_true]
    exact Or.inl ⟨_, rfl⟩
  · have hword : toBytes 4 (ByteWords.ofBytes word) = word := by
      rw [← hlen, toBytes_ofBytes]
    simp only [hread, Outcome.returns_andThen, Nat.cast_ofNat, ne_eq, not_true_eq_false, if_false]
    rcases Nat.eq_zero_or_pos (ByteWords.ofBytes word) with hzero | hpos
    · refine Or.inr (Or.inr ⟨?_, tail, ?_⟩)
      · rw [hzero, if_neg (Nat.not_lt_zero _)]
        rfl
      · rw [hrest, ← hword, hzero]
    · split_ifs with hbound
      · exact Or.inl ⟨_, rfl⟩
      · rcases @dumpRead_cases fails codec.bound _ { r with rest := tail, reads := r.reads + 1 }
            hpos with ⟨ret, bytes, r', hread', hret⟩ |
            ⟨block, tail', hrest', hlen', -, hread'⟩ | ⟨-, hover⟩
        · have hne : ret ≠ (ByteWords.ofBytes word : Int) := by omega
          simp only [hread', Outcome.returns_andThen, hne, not_false_eq_true, if_true]
          exact Or.inl ⟨_, rfl⟩
        · simp only [hread', Outcome.returns_andThen, not_true_eq_false, if_false]
          have hbody : r.rest = (toBytes 4 block.length ++ block) ++ tail' := by
            rw [hrest, show tail = block ++ tail' from hrest', hlen', hword, List.append_assoc]
          have hne : block ≠ [] := List.ne_nil_of_length_pos (by omega)
          exact Or.inr (Or.inl ⟨_, tail', block, _, hbody, ⟨rfl, hne, by omega⟩, rfl⟩)
        · simp only [lt_min_iff] at hover
          omega
  · simp only [lt_min_iff] at hover
    omega

theorem codecRead_cases :
    ReadCases (DecodesBlock codec decoder len) (StuckBlock codec decoder len r.rest) len r
      (codecRead fails codec decoder len buf r) := by
  rw [codecRead_fetch]
  rcases fetchBlock_cases with ⟨r', hfetch⟩ | ⟨body, tail, block, reads, hrest, hframed, hfetch⟩ |
      ⟨hfetch, tail, hrest⟩ <;>
    rw [hfetch]
  · exact Or.inl ⟨_, _, _, rfl, by decide⟩
  · simp only [Outcome.returns_andThen, finishBlock, decodeBlock]
    split_ifs with hlong
    · refine Or.inr (Or.inr ⟨?_, Or.inr ⟨_, _, _, hrest, hframed, hlong⟩⟩)
      intro result h
      cases h
    · split
      · exact Or.inl ⟨_, _, _, rfl, by decide⟩
      · rename_i out hout
        exact Or.inr (Or.inl ⟨_, tail, _, _, hrest,
          ⟨block, out, hframed, hout, not_lt.mp hlong⟩, rfl⟩)
  · refine Or.inr (Or.inr ⟨?_, Or.inl ⟨tail, hrest⟩⟩)
    intro result h
    cases h

theorem compressRead_cases {cfg : Config} :
    ReadCases (Decodes cfg len) (Stuck cfg len r.rest) len r
      (compressRead fails cfg.codecs cfg.algorithm len buf r) := by
  rcases cfg with ⟨pageSize, _ | _ | _, codecs, checksum⟩
  · exact plainRead_cases
  · exact codecRead_cases
  · exact codecRead_cases

theorem fetchBlock_zero_quiet {tail : List Byte} (hrest : r.rest = toBytes 4 0 ++ tail) :
    fetchBlock quietFails codec r = .aborts := by
  simp only [fetchBlock]
  rw [show (4 : Nat) = (toBytes 4 0).length from rfl,
    dumpRead_quiet hrest (by decide) (by decide)]
  rfl

theorem fetchBlock_quiet {body tail block : List Byte} (hrest : r.rest = body ++ tail)
    (hframed : Framed codec body block) :
    fetchBlock quietFails codec r =
      .returns (some block, { r with rest := tail, reads := r.reads + 2 }) := by
  obtain ⟨rfl, hne, hle⟩ := hframed
  have hbound := codec.bound_lt
  have hword : ByteWords.ofBytes (toBytes 4 block.length) = block.length :=
    ofBytes_toBytes (by norm_num; omega)
  rw [List.append_assoc] at hrest
  rw [fetchBlock, dumpRead_whole _ _ hrest (by simp) (by decide) le_rfl]
  simp only [quietFails, Bool.false_eq_true, if_false, Outcome.returns_andThen, Nat.cast_ofNat,
    ne_eq, not_true_eq_false, hword, not_lt.mpr hle]
  rw [dumpRead_whole block tail rfl rfl (List.length_pos_of_ne_nil hne) hle]
  simp only [quietFails, Bool.false_eq_true, if_false, Outcome.returns_andThen, not_true_eq_false]

theorem codecRead_block_quiet {body tail block : List Byte} (hrest : r.rest = body ++ tail)
    (hframed : Framed codec body block) :
    codecRead quietFails codec decoder len buf r =
      decodeBlock decoder maxVmRegionSize len block buf
        { r with rest := tail, reads := r.reads + 2 } := by
  rw [codecRead_fetch, fetchBlock_quiet hrest hframed]
  rfl

theorem codecRead_quiet {body tail : List Byte} (hrest : r.rest = body ++ tail)
    (hdecodes : DecodesBlock codec decoder len body) :
    ∃ buf' reads, codecRead quietFails codec decoder len buf r =
      .returns (toInt32 len, buf', { r with rest := tail, reads := reads }) := by
  obtain ⟨block, out, hframed, hout, hreach⟩ := hdecodes
  exact ⟨_, _, (codecRead_block_quiet hrest hframed).trans (decodeBlock_some hout hreach _ _)⟩

theorem compressRead_quiet {cfg : Config} {body tail : List Byte} (hrest : r.rest = body ++ tail)
    (hdecodes : Decodes cfg len body) :
    ∃ buf' reads, compressRead quietFails cfg.codecs cfg.algorithm len buf r =
      .returns (toInt32 len, buf', { r with rest := tail, reads := reads }) := by
  rcases cfg with ⟨pageSize, _ | _ | _, codecs, checksum⟩
  · obtain ⟨rfl, hpos, hle⟩ := hdecodes
    have hint : toInt32 body.length = body.length :=
      toInt32_of_lt (by simp only [maxVmRegionSize] at hle; omega)
    simp only [compressRead, plainRead, dumpRead_quiet hrest (List.ne_nil_of_length_pos hpos) hle,
      Outcome.returns_andThen, ne_eq, not_true_eq_false, if_false, hint]
    exact ⟨_, _, rfl⟩
  · exact codecRead_quiet hrest hdecodes
  · exact codecRead_quiet hrest hdecodes

theorem codecRead_stuck (hstuck : StuckBlock codec decoder len r.rest) :
    ∀ result, codecRead quietFails codec decoder len buf r ≠ .returns result := by
  intro result h
  rcases hstuck with ⟨tail, hrest⟩ | ⟨body, tail, block, hrest, hframed, hlong⟩
  · rw [codecRead_fetch, fetchBlock_zero_quiet hrest] at h
    cases h
  · rw [codecRead_block_quiet hrest hframed, decodeBlock, if_pos hlong] at h
    cases h

theorem compressRead_stuck {cfg : Config} (hstuck : Stuck cfg len r.rest) :
    ∀ result, compressRead quietFails cfg.codecs cfg.algorithm len buf r ≠ .returns result := by
  rcases cfg with ⟨pageSize, _ | _ | _, codecs, checksum⟩
  · intro result h
    rcases hstuck with rfl | hover
    · cases h
    · have hpos : len ≠ 0 := by
        rintro rfl
        simp at hover
      simp only [compressRead, plainRead, dumpRead, hpos, if_false, quietFails,
        Bool.false_eq_true, hover, if_true] at h
      cases h
  · exact codecRead_stuck hstuck
  · exact codecRead_stuck hstuck

theorem dumpRead_fits (hle : count ≤ capacity) :
    dumpRead fails capacity count r ≠ .overruns := by
  intro h
  simp only [dumpRead] at h
  split_ifs at h with hzero hfail hover
  · simp only [lt_min_iff] at hover
    omega

theorem codecRead_fits (hle : len ≤ maxVmRegionSize) :
    codecRead fails codec decoder len buf r ≠ .overruns := by
  rw [codecRead_fetch]
  intro h
  rcases fetchBlock_cases with ⟨r', hfetch⟩ | ⟨body, tail, block, reads, -, -, hfetch⟩ |
      ⟨hfetch, -⟩ <;>
    rw [hfetch] at h
  · cases h
  · have hreach := decoder.reach_le block len
    simp only [Outcome.returns_andThen, finishBlock, decodeBlock,
      not_lt.mpr (hreach.trans hle), if_false] at h
    split at h <;> cases h
  · cases h

theorem compressRead_fits {codecs : Codecs} {alg : Algorithm} (hle : len ≤ maxVmRegionSize) :
    compressRead fails codecs alg len buf r ≠ .overruns := by
  rcases alg with _ | _ | _
  · intro h
    rcases Outcome.andThen_eq_overruns.mp h with hread | ⟨⟨ret, bytes, r₁⟩, -, hnext⟩
    · exact dumpRead_fits hle hread
    · simp only at hnext
      split_ifs at hnext
  · exact codecRead_fits hle
  · exact codecRead_fits hle

end Contents

/-- The reader behind a header that passes the checks. -/
def behindHeader (vmr : VmRegion) (more : List Byte) (r : Reader) : Reader where
  rest := more
  dumpedVmSize := r.dumpedVmSize - vmr.len.toNat
  hashed := r.hashed
  reads := r.reads + 1

section Rounds

variable {cfg : Config} {fails : Nat → Bool} {scratch : Scratch} {r : Reader}

theorem readHeader_cases (outside : RestoreEnv) (scratch : Nat → Scratch) (n : Nat)
    (r : Reader) :
    (∃ ret vmr r', readHeaderVia (builtIn outside scratch).dumpRead cfg
        ((builtIn outside scratch).scratch n) r = .returns (.inl (ret, vmr, r')) ∧ ret ≤ 0) ∨
      ∃ vmr more, Header cfg (cursor r) vmr more ∧
        readHeaderVia (builtIn outside scratch).dumpRead cfg
          ((builtIn outside scratch).scratch n) r =
            .returns (.inr (vmr, behindHeader vmr more r)) := by
  simp only [readHeaderVia, builtIn]
  rcases @dumpRead_cases outside.readFails vmRegionSize vmRegionSize r (by decide) with
      ⟨ret, bytes, r', hread, hret⟩ | ⟨header, more, hrest, hlen, -, hread⟩ | ⟨-, hover⟩
  · have hne : ret ≠ (vmRegionSize : Int) := by
      simp only [vmRegionSize]
      omega
    simp only [hread, Outcome.returns_andThen, hne, ne_eq, not_false_eq_true, if_true]
    exact Or.inl ⟨_, _, _, rfl, hret⟩
  · have hslice := slice_store_self (scratch n).vmr header
    rw [hlen] at hslice
    simp only [hread, Outcome.returns_andThen, ne_eq, not_true_eq_false, if_false, hslice]
    split_ifs with hbudget hinvalid
    · exact Or.inl ⟨_, _, _, rfl, by decide⟩
    · exact Or.inl ⟨_, _, _, rfl, by decide⟩
    · refine Or.inr ⟨_, more, ⟨?_, not_lt.mp hbudget, by simpa using hinvalid⟩, rfl⟩
      rw [VmRegion.bytes_ofBytes hlen]
      exact hrest
  · simp only [lt_min_iff] at hover
    omega

theorem readHeader_quiet {vmr : VmRegion} {more : List Byte}
    (h : Header cfg (cursor r) vmr more) :
    readHeaderVia (dumpRead quietFails) cfg scratch r =
      .returns (.inr (vmr, behindHeader vmr more r)) := by
  have hbudget : ¬ r.dumpedVmSize < vmr.len.toNat := not_lt.mpr h.len_le
  have hslice := slice_store_self scratch.vmr vmr.bytes
  rw [VmRegion.bytes_length] at hslice
  rw [readHeaderVia, dumpRead_whole _ _ h.rest_eq (VmRegion.bytes_length vmr) (by decide) le_rfl]
  simp only [quietFails, Bool.false_eq_true, if_false, Outcome.returns_andThen, ne_eq,
    not_true_eq_false, hslice, VmRegion.ofBytes_bytes, hbudget, h.valid, Bool.not_true]
  rfl

variable {env : LoopEnv} {st st' : Upload}

theorem uploadRound_header {vmr : VmRegion} {r : Reader}
    (hheader : readHeaderVia env.dumpRead cfg (env.scratch st.sends) st.reader =
      .returns (.inr (vmr, r))) :
    uploadRound cfg env st =
      (readContentsVia env.dumpRead cfg (env.scratch st.sends) vmr r).andThen
        (sendRegion env st) := by
  simp only [uploadRound, readVmRegionVia, hheader, Outcome.returns_andThen]

theorem sendRegion_stops {ret : Int} (hret : ret ≤ 0) (vmr : VmRegion) (buf : Memory)
    (r : Reader) : ∃ result, sendRegion env st (ret, vmr, buf, r) = .returns result := by
  simp only [sendRegion, hret, if_true]
  exact ⟨_, rfl⟩

theorem sendRegion_fits {ret : Int} {vmr : VmRegion} (hpos : 0 < vmr.len.toNat)
    (hle : vmr.len.toNat ≤ maxVmRegionSize) (buf : Memory) (r : Reader) :
    ∃ result, sendRegion env st (ret, vmr, buf, r) = .returns result := by
  simp only [sendRegion, hpos.ne', not_lt.mpr hle, if_false]
  split_ifs <;> exact ⟨_, rfl⟩

theorem readContents_ok {read : DumpRead} {vmr : VmRegion} {r r' : Reader} {ret : Int}
    {buf : Memory}
    (hread : compressReadVia read cfg scratch vmr.len.toNat r = .returns (ret, buf, r'))
    (hle : 0 < ret → vmr.len.toNat ≤ maxVmRegionSize) :
    ∃ r'', readContentsVia read cfg scratch vmr r = .returns (ret, vmr, buf, r'') ∧
      cursor r'' = cursor r' := by
  simp only [readContentsVia, hread, Outcome.returns_andThen]
  split_ifs with hneg hhash hlong
  · exact ⟨_, rfl, rfl⟩
  · have := hle (by simp_all)
    omega
  · exact ⟨_, rfl, rfl⟩
  · exact ⟨_, rfl, rfl⟩

theorem compressRead_builtIn (outside : RestoreEnv) (scratch : Nat → Scratch) (n : Nat)
    (vmr : VmRegion) (r : Reader) :
    compressReadVia (builtIn outside scratch).dumpRead cfg ((builtIn outside scratch).scratch n)
        vmr.len.toNat r =
      compressRead outside.readFails cfg.codecs cfg.algorithm vmr.len.toNat (outside.stale n) r :=
  compressReadVia_builtIn vmr.len.isLt

theorem record_of_goesOn {outside : RestoreEnv} {scratch : Nat → Scratch}
    (hgoes : GoesOn cfg (builtIn outside scratch) st st') :
    ∃ vmr body, Record cfg (cursor st.reader) (cursor st'.reader) vmr body := by
  obtain ⟨⟨ret, vmr', buf, r''⟩, hregion, hsend⟩ := Outcome.andThen_eq_returns.mp hgoes
  obtain ⟨hret, hpos, hle, rfl⟩ := sendRegion_goesOn hsend
  simp only [readVmRegionVia] at hregion
  rcases readHeader_cases outside scratch st.sends st.reader with
      ⟨ret', vmr, r', hheader, hstops⟩ | ⟨vmr, more, hplace, hheader⟩ <;>
    rw [hheader] at hregion
  · cases hregion
    omega
  · obtain ⟨rfl, r', hashed, rfl, hread⟩ := readContentsVia_returns hregion
    rw [compressRead_builtIn] at hread
    rcases @compressRead_cases outside.readFails vmr'.len.toNat (outside.stale st.sends)
        (behindHeader vmr' more st.reader) cfg with
      ⟨ret', buf', r₁, hfails, hneg⟩ | ⟨body, tail, buf', reads, hrest, hdecodes, hok⟩ |
        ⟨hstuck, -⟩
    · cases hread.symm.trans hfails
      omega
    · cases hread.symm.trans hok
      refine ⟨vmr', body, ?_⟩
      exact ⟨⟨hplace.rest_eq.trans (congrArg _ hrest), hplace.len_le, hplace.valid⟩, rfl, hpos,
        hle, hdecodes⟩
    · exact absurd hread (hstuck _)

theorem uploadRound_returns (outside : RestoreEnv) (scratch : Nat → Scratch) (st : Upload) :
    (∃ result, uploadRound cfg (builtIn outside scratch) st = .returns result) ∨
      Fatal cfg (cursor st.reader) := by
  rcases readHeader_cases outside scratch st.sends st.reader with
    ⟨ret, vmr, r', hheader, hret⟩ | ⟨vmr, more, hplace, hheader⟩
  · left
    rw [uploadRound, readVmRegionVia, hheader]
    exact sendRegion_stops hret _ _ _
  · rw [uploadRound_header hheader]
    rcases @compressRead_cases outside.readFails vmr.len.toNat (outside.stale st.sends)
        (behindHeader vmr more st.reader) cfg with
      ⟨ret, buf, r', hread, hret⟩ | ⟨body, tail, buf, reads, hrest, hdecodes, hread⟩ |
        ⟨-, hspot⟩
    · rw [← compressRead_builtIn outside scratch] at hread
      obtain ⟨r'', hcontents, -⟩ := readContents_ok hread fun h => by omega
      rw [hcontents]
      exact Or.inl (sendRegion_stops hret.le _ _ _)
    · rw [← compressRead_builtIn outside scratch] at hread
      rcases lt_or_ge 0 (toInt32 vmr.len.toNat) with hpos | hstops
      · rcases lt_or_ge maxVmRegionSize vmr.len.toNat with hlong | hle
        · exact Or.inr ⟨vmr, more, hplace, Or.inr ⟨hlong, hpos, body, tail, hrest, hdecodes⟩⟩
        · obtain ⟨r', hcontents, -⟩ := readContents_ok hread fun _ => hle
          rw [hcontents]
          exact Or.inl (sendRegion_fits (toInt32_pos hpos) hle buf r')
      · obtain ⟨r', hcontents, -⟩ := readContents_ok hread fun h => by omega
        rw [hcontents]
        exact Or.inl (sendRegion_stops hstops _ _ _)
    · exact Or.inr ⟨vmr, more, hplace, Or.inl hspot⟩

theorem goesOn_quiet (scratch : Nat → Scratch) {c : Cursor} {vmr : VmRegion} {body : List Byte}
    (h : Record cfg (cursor st.reader) c vmr body) :
    ∃ st', GoesOn cfg (builtIn quietEnv scratch) st st' ∧ cursor st'.reader = c := by
  have hheader := @readHeader_quiet cfg ((builtIn quietEnv scratch).scratch st.sends) _ _ _ h.header
  obtain ⟨buf, reads, hread⟩ := @compressRead_quiet _ (quietEnv.stale st.sends)
    (behindHeader vmr (body ++ c.rest) st.reader) _ _ _ rfl h.decodes
  have hint : toInt32 vmr.len.toNat = vmr.len.toNat := by
    have := h.len_le
    exact toInt32_of_lt (by simp only [maxVmRegionSize] at this; omega)
  have hpos := h.len_pos
  have hround := @uploadRound_header cfg (builtIn quietEnv scratch) st _ _ hheader
  obtain ⟨r', hcontents, hcursor⟩ := readContents_ok
    ((compressRead_builtIn quietEnv scratch st.sends vmr _).trans hread) fun _ => h.len_le
  have hgo : ¬ (vmr.len.toNat : Int) ≤ 0 := by omega
  simp only [hcontents, Outcome.returns_andThen, sendRegion, hint, hgo, hpos.ne',
    not_lt.mpr h.len_le, if_false] at hround
  refine ⟨_, hround, ?_⟩
  rw [hcursor]
  exact congrArg (Cursor.mk c.rest) h.budget.symm

theorem uploadRound_fatal (scratch : Nat → Scratch) (h : Fatal cfg (cursor st.reader)) :
    ∀ result, uploadRound cfg (builtIn quietEnv scratch) st ≠ .returns result := by
  intro result hround
  obtain ⟨vmr, more, hplace, hspot⟩ := h
  have hheader := @readHeader_quiet cfg ((builtIn quietEnv scratch).scratch st.sends) _ _ _ hplace
  rw [@uploadRound_header cfg (builtIn quietEnv scratch) st _ _ hheader] at hround
  obtain ⟨⟨ret, vmr', buf, r''⟩, hcontents, hsend⟩ := Outcome.andThen_eq_returns.mp hround
  obtain ⟨rfl, r', -, -, hread⟩ := readContentsVia_returns hcontents
  rw [compressRead_builtIn] at hread
  rcases hspot with hstuck | ⟨hlong, hpos, body, tail, rfl, hdecodes⟩
  · exact compressRead_stuck hstuck _ hread
  · obtain ⟨buf', reads, hok⟩ := @compressRead_quiet _ (quietEnv.stale st.sends)
      (behindHeader vmr' (body ++ tail) st.reader) _ _ _ rfl hdecodes
    cases hread.symm.trans hok
    have hlen := toInt32_pos hpos
    simp only [sendRegion, not_le.mpr hpos, hlen.ne', hlong, if_false, if_true] at hsend
    cases hsend

theorem records_of_reaches {outside : RestoreEnv} {scratch : Nat → Scratch}
    (h : Relation.ReflTransGen (GoesOn cfg (builtIn outside scratch)) st st') :
    Records cfg (cursor st.reader) (cursor st'.reader) := by
  induction h with
  | refl => exact .refl
  | tail _ hgoes ih => exact ih.tail (record_of_goesOn hgoes)

theorem reaches_of_records (scratch : Nat → Scratch) {c : Cursor}
    (h : Records cfg (cursor st.reader) c) :
    ∃ st', Relation.ReflTransGen (GoesOn cfg (builtIn quietEnv scratch)) st st' ∧
      cursor st'.reader = c := by
  induction h with
  | refl => exact ⟨st, .refl, rfl⟩
  | tail _ hrecord ih =>
      obtain ⟨st₁, hreach, rfl⟩ := ih
      obtain ⟨vmr, body, hrecord⟩ := hrecord
      obtain ⟨st₂, hgoes, hcursor⟩ := goesOn_quiet scratch hrecord
      exact ⟨st₂, hreach.tail hgoes, hcursor⟩

theorem goesOn_shorter {outside : RestoreEnv} {scratch : Nat → Scratch}
    (h : GoesOn cfg (builtIn outside scratch) st st') :
    st'.reader.rest.length < st.reader.rest.length := by
  obtain ⟨vmr, body, hrecord⟩ := record_of_goesOn h
  have hlength := congrArg List.length hrecord.header.rest_eq
  simp only [cursor, List.length_append, VmRegion.bytes_length, vmRegionSize] at hlength
  omega

theorem uploadLoop_reaches {outside : RestoreEnv} {scratch : Nat → Scratch} {rounds : Nat}
    (hrounds : st.reader.rest.length < rounds)
    (h : Relation.ReflTransGen (GoesOn cfg (builtIn outside scratch)) st st') :
    ∃ rounds', st'.reader.rest.length < rounds' ∧
      uploadLoopVia cfg (builtIn outside scratch) rounds st =
        uploadLoopVia cfg (builtIn outside scratch) rounds' st' := by
  induction h with
  | refl => exact ⟨rounds, hrounds, rfl⟩
  | tail _ hgoes ih =>
      obtain ⟨rounds₁, hlast, hloop⟩ := ih
      obtain ⟨rounds₂, rfl⟩ : ∃ rounds₂, rounds₁ = rounds₂ + 1 := ⟨rounds₁ - 1, by omega⟩
      have hshorter := goesOn_shorter hgoes
      refine ⟨rounds₂, by omega, ?_⟩
      rw [hloop, uploadLoopVia, show uploadRound cfg _ _ = _ from hgoes]
      rfl

theorem uploadLoop_returns (outside : RestoreEnv) (scratch : Nat → Scratch) {rounds : Nat}
    (hrounds : st.reader.rest.length < rounds)
    (hok : ∀ c, Records cfg (cursor st.reader) c → ¬ Fatal cfg c) :
    ∃ result, uploadLoopVia cfg (builtIn outside scratch) rounds st = .returns result := by
  -- a round that goes on leaves less of the file, so the rounds do not run out
  induction rounds generalizing st with
  | zero => omega
  | succ rounds ih =>
      rcases uploadRound_returns outside scratch st with ⟨result | st', hround⟩ | hfatal
      · exact ⟨result, by rw [uploadLoopVia, hround]; rfl⟩
      · have hshorter := goesOn_shorter hround
        have hnext := record_of_goesOn hround
        rw [uploadLoopVia, hround]
        exact ih (by omega) fun c hc => hok c (hc.head hnext)
      · exact absurd hfatal (hok _ .refl)

end Rounds

/-- Buffers that hold zeroes. -/
def blankScratch (_ : Nat) : Scratch := ⟨fun _ => 0, fun _ => 0, fun _ => 0, fun _ => 0⟩

/-- A restore returns from every file in which no place behind whole records is
fatal, and only from those. -/
theorem targetSetPages_returns_iff (cfg : Config) (file : List Byte) (dumpedVmSize : Nat) :
    (∀ outside scratch, ∃ result, targetSetPagesVia cfg outside (builtIn outside scratch) file
        dumpedVmSize = .returns result) ↔
      ∀ c, Records cfg ⟨file, dumpedVmSize⟩ c → ¬ Fatal cfg c := by
  constructor
  · intro h c hrecords hfatal
    obtain ⟨result, hreturns⟩ := h quietEnv blankScratch
    obtain ⟨st, hreach, rfl⟩ :=
      @reaches_of_records cfg (Upload.start file dumpedVmSize) blankScratch _ hrecords
    obtain ⟨rounds, hlast, hloop⟩ := uploadLoop_reaches (Nat.lt_succ_self _) hreach
    obtain ⟨rounds', rfl⟩ : ∃ rounds', rounds = rounds' + 1 := ⟨rounds - 1, by omega⟩
    rw [show targetSetPagesVia cfg quietEnv _ _ _ = _ from hloop, uploadLoopVia] at hreturns
    obtain ⟨value, hround, -⟩ := Outcome.andThen_eq_returns.mp hreturns
    exact uploadRound_fatal blankScratch hfatal _ hround
  · intro hok outside scratch
    simp only [targetSetPagesVia]
    split_ifs
    · exact ⟨_, rfl⟩
    · exact ⟨_, rfl⟩
    · exact ⟨_, rfl⟩
    · exact uploadLoop_returns outside scratch (Nat.lt_succ_self _) hok

theorem emptyRegion_aborts :
    targetSetPagesVia (plainConfig false) quietEnv (builtIn quietEnv blankScratch)
      (List.replicate 16 0) 0 = .aborts :=
  rfl

/-- The loop calls `compress_read` for `len` bytes, with the given buffers and
with the reader behind a header. -/
def CallsCompressRead (cfg : Config) (env : LoopEnv) (start : Upload) (bufs : Scratch)
    (len : Nat) (r : Reader) : Prop :=
  ∃ st vmr, Relation.ReflTransGen (GoesOn cfg env) start st ∧ bufs = env.scratch st.sends ∧
    len = vmr.len.toNat ∧
    readHeaderVia env.dumpRead cfg bufs st.reader = .returns (.inr (vmr, r))

/-- No call of `compress_read` is for more than the buffer holds or stores more,
exactly when behind whole records no header that passes the checks has a longer
length. -/
theorem compressRead_inside_iff (cfg : Config) (file : List Byte) (dumpedVmSize : Nat) :
    (∀ outside scratch bufs len r,
        CallsCompressRead cfg (builtIn outside scratch) (Upload.start file dumpedVmSize) bufs len
          r →
        len ≤ maxVmRegionSize ∧
          compressReadVia (builtIn outside scratch).dumpRead cfg bufs len r ≠ .overruns) ↔
      ∀ c vmr more, Records cfg ⟨file, dumpedVmSize⟩ c → Header cfg c vmr more →
        vmr.len.toNat ≤ maxVmRegionSize := by
  constructor
  · intro h c vmr more hrecords hplace
    obtain ⟨st, hreach, rfl⟩ :=
      @reaches_of_records cfg (Upload.start file dumpedVmSize) blankScratch _ hrecords
    exact (h quietEnv blankScratch _ _ _
      ⟨st, vmr, hreach, rfl, rfl, readHeader_quiet hplace⟩).1
  · rintro h outside scratch bufs len r ⟨st, vmr, hreach, rfl, rfl, hheader⟩
    have hle : vmr.len.toNat ≤ maxVmRegionSize := by
      rcases readHeader_cases outside scratch st.sends st.reader with
        ⟨ret, vmr', r', hstops, -⟩ | ⟨vmr', more, hplace, hgoes⟩
      · cases hheader.symm.trans hstops
      · cases hheader.symm.trans hgoes
        exact h _ vmr more (records_of_reaches hreach) hplace
    refine ⟨hle, ?_⟩
    rw [compressRead_builtIn]
    exact compressRead_fits hle

theorem plainReadVia_overruns {len : Nat} {dst : Memory} {r : Reader}
    (hlen : maxVmRegionSize < len) (hrest : maxVmRegionSize < r.rest.length) :
    plainReadVia (dumpRead quietFails) maxVmRegionSize len dst r = .overruns := by
  have hpos : len ≠ 0 := by omega
  simp only [plainReadVia, dumpRead, hpos, if_false, quietFails, Bool.false_eq_true,
    lt_min hlen hrest, if_true]
  rfl

/-- Twice as long as the buffer. -/
def longRegion : VmRegion := { addr := 4096, len := 2097152 }

theorem longRegion_read (contents : List Byte) (hcontents : maxVmRegionSize < contents.length) :
    ∃ bufs len r,
      CallsCompressRead (plainConfig false) (builtIn quietEnv blankScratch)
          (Upload.start (longRegion.bytes ++ contents) 2097152) bufs len r ∧
        maxVmRegionSize < len ∧
        compressReadVia (builtIn quietEnv blankScratch).dumpRead (plainConfig false) bufs len r =
          .overruns := by
  have hplace : Header (plainConfig false)
      (cursor (Upload.start (longRegion.bytes ++ contents) 2097152).reader) longRegion contents :=
    ⟨rfl, le_rfl, by decide⟩
  have hlong : maxVmRegionSize < longRegion.len.toNat := by decide
  exact ⟨_, _, _, ⟨_, longRegion, .refl, rfl, rfl, readHeader_quiet hplace⟩, hlong,
    plainReadVia_overruns hlong hcontents⟩

theorem longRegion_overruns :
    ∃ bufs len r,
      CallsCompressRead (plainConfig false) (builtIn quietEnv blankScratch)
          (Upload.start (longRegion.bytes ++ List.replicate 2097152 0) 2097152) bufs len r ∧
        maxVmRegionSize < len ∧
        compressReadVia (builtIn quietEnv blankScratch).dumpRead (plainConfig false) bufs len r =
          .overruns := by
  apply longRegion_read
  rw [List.length_replicate]
  decide

end Memcr.DumpRecords
