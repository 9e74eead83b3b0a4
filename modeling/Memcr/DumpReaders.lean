import Memcr.DumpRestore

/-!
`read_vm_region` and the loop of `target_set_pages` over any `dump_read`. The
program calls it through a pointer: the built-in function, or `lib__read` of a
preloaded library, which may report bytes that it did not deliver. What a call
does not store keeps its old contents, so the buffers on the stack are part of
the state.
-/

namespace Memcr.DumpReaders

open Memcr.ByteWords
open Memcr.ByteMemory
open Memcr.CallOutcome
open Memcr.DumpFormat
open Memcr.DumpRestore

/-- A `dump_read` into a buffer of the given size, for the given count. The bytes
are those stored in the buffer. -/
abbrev DumpRead := Nat → Nat → Reader → Outcome (Int × List Byte × Reader)

/-- What the buffers of a round hold before it stores into them. -/
structure Scratch where
  vmr : Memory
  srcLen : Memory
  src : Memory
  buf : Memory

/-- An `int` compared with a `size_t`. -/
def sizeT (ret : Int) : Int := ret % 2 ^ 64

section Reading

variable (dumpRead : DumpRead)

/-- `plain_read` -/
def plainReadVia (capacity len : Nat) (dst : Memory) (r : Reader) :
    Outcome (Int × Memory × Reader) :=
  (dumpRead capacity len r).andThen fun (ret, bytes, r) =>
    if sizeT ret ≠ len then .returns (-1, store dst 0 bytes, r)
    else .returns (ret, store dst 0 bytes, r)

/-- `lz4_read` and `zstd_read` into a buffer of the given size. -/
def codecReadVia (codec : Codec) (decoder : Decoder) (scratch : Scratch) (capacity len : Nat)
    (dst : Memory) (r : Reader) : Outcome (Int × Memory × Reader) :=
  (dumpRead 4 4 r).andThen fun (ret, word, r) =>
    if ret ≠ 4 then .returns (-1, dst, r)
    else
      let srcLen := ByteWords.ofBytes (slice (store scratch.srcLen 0 word) 0 4)
      if codec.bound < srcLen then .returns (-1, dst, r)
      else
        (dumpRead codec.bound srcLen r).andThen fun (ret, bytes, r) =>
          if ret ≠ srcLen then .returns (-1, dst, r)
          else
            decodeBlock decoder capacity len (slice (store scratch.src 0 bytes) 0 srcLen) dst r

/-- `lz4_read` -/
def lz4ReadVia (codec : Codec) (scratch : Scratch) (capacity len : Nat) (dst : Memory)
    (r : Reader) : Outcome (Int × Memory × Reader) :=
  codecReadVia dumpRead codec (lz4Decoder codec) scratch capacity len dst r

/-- `zstd_read` -/
def zstdReadVia (codec : Codec) (scratch : Scratch) (capacity len : Nat) (dst : Memory)
    (r : Reader) : Outcome (Int × Memory × Reader) :=
  codecReadVia dumpRead codec (zstdDecoder codec) scratch capacity len dst r

/-- `compress_read` into the region buffer. -/
def compressReadVia (cfg : Config) (scratch : Scratch) (len : Nat) (r : Reader) :
    Outcome (Int × Memory × Reader) :=
  match cfg.algorithm with
  | .plain => plainReadVia dumpRead maxVmRegionSize len scratch.buf r
  | .lz4 => lz4ReadVia dumpRead cfg.codecs.lz4 scratch maxVmRegionSize len scratch.buf r
  | .zstd => zstdReadVia dumpRead cfg.codecs.zstd scratch maxVmRegionSize len scratch.buf r

/-- The part of `read_vm_region` up to its call of `compress_read`: either it
returns, or it is about to read the contents of a region. -/
def readHeaderVia (cfg : Config) (scratch : Scratch) (r : Reader) :
    Outcome (Sum (Int × VmRegion × Reader) (VmRegion × Reader)) :=
  (dumpRead vmRegionSize vmRegionSize r).andThen fun (ret, header, r) =>
    let vmr := VmRegion.ofBytes (slice (store scratch.vmr 0 header) 0 vmRegionSize)
    if ret ≠ vmRegionSize then .returns (.inl (ret, vmr, r))
    else if r.dumpedVmSize < vmr.len.toNat then .returns (.inl (-1, vmr, r))
    else
      let r := { r with dumpedVmSize := r.dumpedVmSize - vmr.len.toNat }
      if !vmRegionValid cfg.pageSize vmr then .returns (.inl (-1, vmr, r))
      else .returns (.inr (vmr, r))

/-- The rest of `read_vm_region`. -/
def readContentsVia (cfg : Config) (scratch : Scratch) (vmr : VmRegion) (r : Reader) :
    Outcome (Int × VmRegion × Memory × Reader) :=
  (compressReadVia dumpRead cfg scratch vmr.len.toNat r).andThen fun (ret, buf, r) =>
    if ret < 0 then .returns (ret, vmr, buf, r)
    else if cfg.checksum && decide (0 < ret) then
      if maxVmRegionSize < vmr.len.toNat then .overruns
      else
        .returns (ret, vmr, buf,
          { r with hashed := r.hashed ++ vmr.bytes ++ slice buf 0 vmr.len.toNat })
    else .returns (ret, vmr, buf, r)

/-- `read_vm_region` -/
def readVmRegionVia (cfg : Config) (scratch : Scratch) (r : Reader) :
    Outcome (Int × VmRegion × Memory × Reader) :=
  (readHeaderVia dumpRead cfg scratch r).andThen fun
    | .inl (ret, vmr, r) => .returns (ret, vmr, scratch.buf, r)
    | .inr (vmr, r) => readContentsVia dumpRead cfg scratch vmr r

end Reading

/-- What the loop of `target_set_pages` runs with. -/
structure LoopEnv where
  dumpRead : DumpRead
  /-- Failing `parasite_write` calls. -/
  sendFails : Nat → Bool
  /-- The buffers when a round of the loop begins. -/
  scratch : Nat → Scratch

theorem slice_len_length (buf : Memory) (vmr : VmRegion) :
    (slice buf 0 vmr.len.toNat).length = vmr.len.toNat :=
  slice_length _ _ _

/-- The part of a round behind `read_vm_region`. -/
def sendRegion (env : LoopEnv) (st : Upload) :
    Int × VmRegion × Memory × Reader → Outcome (Sum (Int × Upload) Upload)
  | (ret, vmr, buf, reader) =>
      if ret ≤ 0 then .returns (.inl (ret, { st with reader := reader }))
      else if env.sendFails st.sends then
        .returns (.inl (-1, { st with reader := reader, sends := st.sends + 1 }))
      -- `assert(count != 0)` of `__write`
      else if vmr.len.toNat = 0 then .aborts
      else if maxVmRegionSize < vmr.len.toNat then .overruns
      else if env.sendFails (st.sends + 1) then
        .returns (.inl (-1, { st with reader := reader, sends := st.sends + 2 }))
      else
        .returns (.inr
          { reader := reader
            uploaded := st.uploaded ++
              [⟨vmr, slice buf 0 vmr.len.toNat, slice_len_length buf vmr⟩]
            sends := st.sends + 2 })

/-- One round of the loop: it ends with a result, or goes on. -/
def uploadRound (cfg : Config) (env : LoopEnv) (st : Upload) :
    Outcome (Sum (Int × Upload) Upload) :=
  (readVmRegionVia env.dumpRead cfg (env.scratch st.sends) st.reader).andThen (sendRegion env st)

/-- The loop of `target_set_pages`, with any `dump_read`. -/
def uploadLoopVia (cfg : Config) (env : LoopEnv) : Nat → Upload → Outcome (Int × Upload)
  | 0, _ => .hangs
  | rounds + 1, st =>
      (uploadRound cfg env st).andThen fun
        | .inl result => .returns result
        | .inr st => uploadLoopVia cfg env rounds st

/-- `target_set_pages` -/
def targetSetPagesVia (cfg : Config) (outside : RestoreEnv) (env : LoopEnv) (file : List Byte)
    (dumpedVmSize : Nat) : Outcome (Int × Upload) :=
  let st := Upload.start file dumpedVmSize
  if !outside.dumpOpens then .returns (-1, st)
  else if !outside.parasiteConnects then .returns (-1, st)
  else if !outside.commandSent then .returns (-1, st)
  else uploadLoopVia cfg env (file.length + 1) st

/-- The loop goes on from one state to the next. -/
def GoesOn (cfg : Config) (env : LoopEnv) (st st' : Upload) : Prop :=
  uploadRound cfg env st = .returns (.inr st')

section Rounds

variable {read : DumpRead} {cfg : Config} {scratch : Scratch} {env : LoopEnv} {st st' : Upload}
  {vmr vmr' : VmRegion} {buf : Memory} {r r' : Reader} {ret : Int}

theorem readContentsVia_returns
    (h : readContentsVia read cfg scratch vmr r = .returns (ret, vmr', buf, r')) :
    vmr' = vmr ∧ ∃ r₁ hashed, r' = { r₁ with hashed := hashed } ∧
      compressReadVia read cfg scratch vmr.len.toNat r = .returns (ret, buf, r₁) := by
  obtain ⟨⟨ret', buf', r₁⟩, hread, hnext⟩ := Outcome.andThen_eq_returns.mp h
  simp only at hnext
  split_ifs at hnext
  · cases hnext
    exact ⟨rfl, r', r'.hashed, rfl, hread⟩
  · cases hnext
    exact ⟨rfl, r₁, _, rfl, hread⟩
  · cases hnext
    exact ⟨rfl, r', r'.hashed, rfl, hread⟩

theorem sendRegion_goesOn (h : sendRegion env st (ret, vmr, buf, r) = .returns (.inr st')) :
    0 < ret ∧ 0 < vmr.len.toNat ∧ vmr.len.toNat ≤ maxVmRegionSize ∧
      st' =
        { reader := r
          uploaded := st.uploaded ++
            [⟨vmr, slice buf 0 vmr.len.toNat, slice_len_length buf vmr⟩]
          sends := st.sends + 2 } := by
  simp only [sendRegion] at h
  split_ifs at h
  all_goals cases h
  exact ⟨by omega, by omega, by omega, rfl⟩

end Rounds

section BuiltIn

variable {fails : Nat → Bool} {cfg : Config} {scratch : Scratch} {r : Reader}

/-- The loop with the built-in `dump_read`. -/
def builtIn (env : RestoreEnv) (scratch : Nat → Scratch) : LoopEnv where
  dumpRead := dumpRead env.readFails
  sendFails := env.sendFails
  scratch n := { scratch n with buf := env.stale n }

theorem sizeT_natCast {n : Nat} (hn : n < 2 ^ 64) : sizeT n = n := by
  simp only [sizeT]
  omega

theorem dumpRead_bytes {capacity count : Nat} {ret : Int} {bytes : List Byte} {r' : Reader}
    (h : dumpRead fails capacity count r = .returns (ret, bytes, r')) (hret : ret = count) :
    bytes.length = count ∧ r.rest = bytes ++ r'.rest ∧ 0 < count := by
  simp only [dumpRead] at h
  split_ifs at h with hzero hfail hover hwhole
  · cases h
    omega
  · cases h
    exact ⟨List.length_take_of_le hwhole, (List.take_append_drop count r.rest).symm,
      by omega⟩
  · cases h
    omega

theorem plainReadVia_builtIn {len : Nat} (hlen : len < 2 ^ 64) (dst : Memory) :
    plainReadVia (dumpRead fails) maxVmRegionSize len dst r = plainRead fails len dst r := by
  refine Outcome.andThen_congr ?_
  rintro ⟨ret, bytes, r'⟩ hread
  rcases (dumpRead_returns hread).1 with rfl | rfl | rfl
  · simp only [sizeT_natCast hlen]
  · rfl
  · -- the comparison of an error with the count does not matter
    simp only [ite_self]

/-- A compressed block of the file, if it can be read whole. -/
def fetchBlock (fails : Nat → Bool) (codec : Codec) (r : Reader) :
    Outcome (Option (List Byte) × Reader) :=
  (dumpRead fails 4 4 r).andThen fun (ret, word, r) =>
    if ret ≠ 4 then .returns (none, r)
    else if codec.bound < ByteWords.ofBytes word then .returns (none, r)
    else
      (dumpRead fails codec.bound (ByteWords.ofBytes word) r).andThen fun (ret, src, r) =>
        if ret ≠ ByteWords.ofBytes word then .returns (none, r)
        else .returns (some src, r)

/-- What is returned and stored for a block. -/
def finishBlock (decoder : Decoder) (capacity len : Nat) (dst : Memory) :
    Option (List Byte) × Reader → Outcome (Int × Memory × Reader)
  | (none, r) => .returns (-1, dst, r)
  | (some src, r) => decodeBlock decoder capacity len src dst r

theorem codecReadVia_fetch (codec : Codec) (decoder : Decoder) (capacity len : Nat)
    (dst : Memory) :
    codecReadVia (dumpRead fails) codec decoder scratch capacity len dst r =
      (fetchBlock fails codec r).andThen (finishBlock decoder capacity len dst) := by
  rw [fetchBlock, Outcome.andThen_andThen]
  refine Outcome.andThen_congr ?_
  rintro ⟨ret, word, r₁⟩ hword
  by_cases hfour : ret = 4
  · have hslice := slice_store_self scratch.srcLen word
    rw [(dumpRead_bytes hword hfour).1] at hslice
    simp only [hfour, ne_eq, not_true_eq_false, if_false, hslice]
    split
    · rfl
    · rw [Outcome.andThen_andThen]
      refine Outcome.andThen_congr ?_
      rintro ⟨ret', src, r₂⟩ hsrc
      by_cases hwhole : ret' = ByteWords.ofBytes word
      · have hslice' := slice_store_self scratch.src src
        rw [(dumpRead_bytes hsrc hwhole).1] at hslice'
        simp only [hwhole, not_true_eq_false, if_false, hslice', Outcome.returns_andThen,
          finishBlock]
      · simp only [hwhole, not_false_eq_true, if_true, Outcome.returns_andThen, finishBlock]
  · simp only [ne_eq, hfour, not_false_eq_true, if_true, Outcome.returns_andThen, finishBlock]

theorem codecRead_fetch (codec : Codec) (decoder : Decoder) (len : Nat) (dst : Memory) :
    codecRead fails codec decoder len dst r =
      (fetchBlock fails codec r).andThen (finishBlock decoder maxVmRegionSize len dst) := by
  rw [fetchBlock, Outcome.andThen_andThen]
  refine Outcome.andThen_congr ?_
  rintro ⟨ret, word, r₁⟩ -
  simp only
  split
  · rfl
  · split
    · rfl
    · rw [Outcome.andThen_andThen]
      refine Outcome.andThen_congr ?_
      rintro ⟨ret', src, r₂⟩ -
      simp only
      split
      · rfl
      · rfl

theorem compressReadVia_builtIn {len : Nat} (hlen : len < 2 ^ 64) :
    compressReadVia (dumpRead fails) cfg scratch len r =
      compressRead fails cfg.codecs cfg.algorithm len scratch.buf r := by
  simp only [compressReadVia, compressRead, lz4ReadVia, zstdReadVia]
  rcases cfg.algorithm with _ | _ | _
  · exact plainReadVia_builtIn hlen _
  · exact (codecReadVia_fetch _ _ _ _ _).trans (codecRead_fetch _ _ _ _).symm
  · exact (codecReadVia_fetch _ _ _ _ _).trans (codecRead_fetch _ _ _ _).symm

theorem readVmRegionVia_builtIn :
    readVmRegionVia (dumpRead fails) cfg scratch r = readVmRegion cfg fails scratch.buf r ∨
      ∃ ret vmr vmr' r', ret ≤ 0 ∧
        readVmRegionVia (dumpRead fails) cfg scratch r =
          .returns (ret, vmr, scratch.buf, r') ∧
        readVmRegion cfg fails scratch.buf r = .returns (ret, vmr', scratch.buf, r') := by
  simp only [readVmRegionVia, readHeaderVia, readVmRegion]
  rcases hread : dumpRead fails vmRegionSize vmRegionSize r with ⟨ret, header, r'⟩ | _ | _ | _
  · by_cases hwhole : ret = vmRegionSize
    · left
      have hslice := slice_store_self scratch.vmr header
      rw [(dumpRead_bytes hread hwhole).1] at hslice
      simp only [Outcome.returns_andThen, hwhole, ne_eq, not_true_eq_false, if_false, hslice]
      split
      · rfl
      · split
        · rfl
        · simp only [Outcome.returns_andThen, readContentsVia,
            compressReadVia_builtIn (VmRegion.ofBytes header).len.isLt]
    · right
      simp only [Outcome.returns_andThen, ne_eq, hwhole, not_false_eq_true, if_true]
      refine ⟨ret, _, _, r', ?_, rfl, rfl⟩
      rcases (dumpRead_returns hread).1 with heq | rfl | rfl
      · exact absurd heq hwhole
      · exact le_rfl
      · decide
  · exact Or.inl rfl
  · exact Or.inl rfl
  · exact Or.inl rfl

theorem compressRead_pos {codecs : Codecs} {alg : Algorithm} {len : Nat} {buf buf' : Memory}
    {r' : Reader} {ret : Int}
    (h : compressRead fails codecs alg len buf r = .returns (ret, buf', r')) (hret : 0 < ret) :
    0 < len := by
  have hcodec : ∀ {codec decoder}, codecRead fails codec decoder len buf r =
      .returns (ret, buf', r') → 0 < len := by
    intro codec decoder h
    rw [codecRead_fetch] at h
    obtain ⟨⟨_ | src, r₁⟩, -, hnext⟩ := Outcome.andThen_eq_returns.mp h
    · cases hnext
      omega
    · obtain ⟨rfl, -⟩ | ⟨rfl, -⟩ := decodeBlock_returns hnext
      · omega
      · exact toInt32_pos hret
  rcases alg with _ | _ | _
  · obtain ⟨⟨ret₁, bytes, r₁⟩, hread, hnext⟩ := Outcome.andThen_eq_returns.mp h
    simp only at hnext
    split_ifs at hnext with heq
    · cases hnext
      omega
    · cases hnext
      omega
  · exact hcodec h
  · exact hcodec h

theorem readVmRegion_pos {buf buf' : Memory} {r' : Reader} {vmr : VmRegion} {ret : Int}
    (h : readVmRegion cfg fails buf r = .returns (ret, vmr, buf', r')) (hret : 0 < ret) :
    0 < vmr.len.toNat := by
  obtain ⟨⟨ret₁, header, r₁⟩, hheader, hnext⟩ := Outcome.andThen_eq_returns.mp h
  simp only at hnext
  split at hnext
  · rename_i hshort
    cases hnext
    rcases (dumpRead_returns hheader).1 with heq | rfl | rfl
    · exact absurd heq hshort
    · omega
    · omega
  · split at hnext
    · cases hnext
      omega
    · split at hnext
      · cases hnext
        omega
      · obtain ⟨⟨ret₂, buf₂, r₂⟩, hbody, hlast⟩ := Outcome.andThen_eq_returns.mp hnext
        simp only at hlast
        split_ifs at hlast
        · cases hlast
          omega
        · cases hlast
          exact compressRead_pos hbody hret
        · cases hlast
          exact compressRead_pos hbody hret

/-- With the built-in `dump_read` the loop is that of a restore, whatever its
buffers hold. -/
theorem uploadLoopVia_builtIn (env : RestoreEnv) (scratch : Nat → Scratch) (rounds : Nat)
    (st : Upload) :
    uploadLoopVia cfg (builtIn env scratch) rounds st = uploadLoop cfg env rounds st := by
  induction rounds generalizing st with
  | zero => rfl
  | succ rounds ih =>
      simp only [uploadLoopVia, uploadRound, builtIn, uploadLoop]
      rcases @readVmRegionVia_builtIn env.readFails cfg
          { scratch st.sends with buf := env.stale st.sends } st.reader with
        heq | ⟨ret, vmr, vmr', r', hstops, hvia, hread⟩
      · rw [heq]
        rcases hread : readVmRegion cfg env.readFails (env.stale st.sends) st.reader with
          ⟨ret, vmr, buf, r'⟩ | _ | _ | _
        · simp only [Outcome.returns_andThen, sendRegion]
          rcases lt_or_ge 0 ret with hpos | hstops
          · have hlen := readVmRegion_pos hread hpos
            simp only [hlen.ne', not_le.mpr hpos, if_false]
            rcases env.sendFails st.sends with _ | _
            · rcases lt_or_ge maxVmRegionSize vmr.len.toNat with hover | hfits
              · simp only [hover, if_true, Bool.false_eq_true, if_false]
                rfl
              · simp only [not_lt.mpr hfits, Bool.false_eq_true, if_false]
                by_cases hsend : env.sendFails (st.sends + 1) = true
                · simp only [hsend, if_true]
                  rfl
                · simp only [hsend]
                  exact ih _
            · rfl
          · simp only [hstops, if_true, Outcome.returns_andThen]
        · rfl
        · rfl
        · rfl
      · simp only [hvia, hread, Outcome.returns_andThen, sendRegion, hstops, if_true]

theorem targetSetPagesVia_builtIn (env : RestoreEnv) (scratch : Nat → Scratch)
    (file : List Byte) (dumpedVmSize : Nat) :
    targetSetPagesVia cfg env (builtIn env scratch) file dumpedVmSize =
      targetSetPages cfg env file dumpedVmSize := by
  simp only [targetSetPagesVia, targetSetPages, uploadLoopVia_builtIn]

end BuiltIn

end Memcr.DumpReaders
