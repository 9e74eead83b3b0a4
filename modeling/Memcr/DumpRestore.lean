import Memcr.DumpFormat

namespace Memcr.DumpRestore

open Memcr.ByteWords
open Memcr.ByteMemory
open Memcr.CallOutcome
open Memcr.DumpFormat

/-- What `cmd_restore` finds outside the process. -/
structure RestoreEnv where
  /-- `parasite_status_ok` -/
  parasiteStatusOk : Bool
  dumpOpens : Bool
  parasiteConnects : Bool
  /-- The `CMD_SET_PAGES` byte is sent. -/
  commandSent : Bool
  readFails : Nat → Bool
  /-- Failing `parasite_write` calls of the upload loop. -/
  sendFails : Nat → Bool
  /-- Contents of `buf` when a round of the loop begins. -/
  stale : Nat → Memory
  /-- The digest contexts of checkpoint and restore work. -/
  md5Checkpoint : Bool
  md5Restore : Bool

/-- The state of the loop of `target_set_pages`. -/
structure Upload where
  reader : Reader
  /-- Regions written to the parasite socket, in order. -/
  uploaded : List Region
  /-- Number of `parasite_write` calls so far. -/
  sends : Nat

/-- The loop of `target_set_pages`, for at most the given number of rounds. -/
def uploadLoop (cfg : Config) (env : RestoreEnv) : Nat → Upload → Outcome (Int × Upload)
  | 0, _ => .hangs
  | rounds + 1, st =>
      (readVmRegion cfg env.readFails (env.stale st.sends) st.reader).andThen
        fun (ret, vmr, buf, reader) =>
          if ret ≤ 0 then .returns (ret, { st with reader := reader })
          else if env.sendFails st.sends then
            .returns (-1, { st with reader := reader, sends := st.sends + 1 })
          else if maxVmRegionSize < vmr.len.toNat then .overruns
          else if env.sendFails (st.sends + 1) then
            .returns (-1, { st with reader := reader, sends := st.sends + 2 })
          else
            uploadLoop cfg env rounds
              { reader := reader
                uploaded := st.uploaded ++
                  [⟨vmr, slice buf 0 vmr.len.toNat, slice_length buf 0 vmr.len.toNat⟩]
                sends := st.sends + 2 }

def Upload.start (file : List Byte) (dumpedVmSize : Nat) : Upload where
  reader := { rest := file, dumpedVmSize := dumpedVmSize, hashed := [], reads := 0 }
  uploaded := []
  sends := 0

/-- `target_set_pages`. Every round but the last reads a whole header, so the
loop is given one round more than the file has bytes. -/
def targetSetPages (cfg : Config) (env : RestoreEnv) (file : List Byte)
    (dumpedVmSize : Nat) : Outcome (Int × Upload) :=
  let st := Upload.start file dumpedVmSize
  if !env.dumpOpens then .returns (-1, st)
  else if !env.parasiteConnects then .returns (-1, st)
  else if !env.commandSent then .returns (-1, st)
  else uploadLoop cfg env (file.length + 1) st

/-- `md5_final`: a context that failed yields an empty digest. -/
def md5Final (digest : List Byte → List Byte) (works : Bool) (hashed : List Byte) :
    List Byte :=
  if works then digest hashed else []

/-- `cmd_restore`, given the checksum input of the checkpoint. -/
def cmdRestore (cfg : Config) (env : RestoreEnv) (digest : List Byte → List Byte)
    (checkpointHashed : List Byte) (file : List Byte) (dumpedVmSize : Nat) :
    Outcome (Int × Upload) :=
  if !env.parasiteStatusOk then .returns (1, Upload.start file dumpedVmSize)
  else
    (targetSetPages cfg env file dumpedVmSize).andThen fun (ret, st) =>
      if ret ≠ 0 then .returns (ret, st)
      else if cfg.checksum then
        let checkpointDigest := md5Final digest env.md5Checkpoint checkpointHashed
        let restoreDigest := md5Final digest env.md5Restore st.reader.hashed
        if checkpointDigest.length = 0 ∨ restoreDigest.length = 0 ∨
            checkpointDigest.length ≠ restoreDigest.length ∨
            checkpointDigest ≠ restoreDigest then
          .returns (1, st)
        else .returns (0, st)
      else .returns (0, st)

def Writer.start : Writer where
  file := []
  dumpedVmSize := 0
  hashed := []
  writes := 0

/-- The writer after a checkpoint has written a list of regions, each with a
positive result of `write_vm_region`. -/
def writeRegions (cfg : Config) (io : Nat → Option Nat) : List Region → Writer → Option Writer
  | [], w => some w
  | region :: rest, w =>
      match writeVmRegion cfg io region w with
      | .returns (ret, w') => if 0 < ret then writeRegions cfg io rest w' else none
      | _ => none

theorem writeRegions_eq_some {cfg : Config} {io : Nat → Option Nat} {regions : List Region}
    {w w' : Writer} (h : writeRegions cfg io regions w = some w') :
    (∀ region ∈ regions, vmRegionValid cfg.pageSize region.vmr = true ∧
      (payload? cfg.codecs cfg.algorithm region.data).isSome ∧
      0 < toInt32 region.vmr.len.toNat) ∧
    w'.file = w.file ++ regions.flatMap (Region.frame cfg) ∧
    w'.dumpedVmSize = w.dumpedVmSize + (regions.map fun r => r.vmr.len.toNat).sum ∧
    (cfg.checksum = true → w'.hashed = w.hashed ++ regions.flatMap Region.bytes) := by
  induction regions generalizing w with
  | nil =>
      cases h
      simp
  | cons region rest ih =>
      simp only [writeRegions] at h
      split at h
      · rename_i ret w₁ hwrite
        split at h
        · rename_i hret
          obtain ⟨hvalid, hpayload, hvalue, hfile, hsize, hhashed⟩ :=
            writeVmRegion_pos hwrite hret
          obtain ⟨hall, hfile', hsize', hhashed'⟩ := ih h
          refine ⟨?_, ?_, ?_, ?_⟩
          · intro r hr
            rcases List.mem_cons.mp hr with rfl | hr
            · exact ⟨hvalid, hpayload, hvalue ▸ hret⟩
            · exact hall r hr
          · rw [hfile', hfile, List.flatMap_cons, List.append_assoc]
          · rw [hsize', hsize, List.map_cons, List.sum_cons]
            omega
          · intro hchecksum
            rw [hhashed' hchecksum, hhashed, hchecksum, List.flatMap_cons]
            simp
        · cases h
      · cases h

/-- The regions of a successful checkpoint are exactly those a restore can
read back. -/
theorem stored_of_writeRegions {cfg : Config} {io : Nat → Option Nat}
    {regions : List Region} {w w' : Writer} (h : writeRegions cfg io regions w = some w')
    (hle : ∀ region ∈ regions, region.vmr.len.toNat ≤ maxVmRegionSize) :
    ∀ region ∈ regions, Stored cfg region := by
  intro region hregion
  obtain ⟨hvalid, hpayload, hpos⟩ := (writeRegions_eq_some h).1 region hregion
  refine ⟨hvalid, ?_, hle region hregion, hpayload⟩
  by_contra hzero
  have hlen : region.vmr.len.toNat = 0 := by omega
  rw [hlen] at hpos
  exact absurd hpos (by decide)

theorem dumpRead_returns {fails : Nat → Bool} {capacity count : Nat} {r r' : Reader}
    {ret : Int} {bytes : List Byte}
    (h : dumpRead fails capacity count r = .returns (ret, bytes, r')) :
    (ret = count ∨ ret = 0 ∨ ret = -1) ∧ Keeps r r' := by
  simp only [dumpRead] at h
  split at h
  · cases h
  · split at h
    · cases h
      exact ⟨by simp, rfl, rfl⟩
    · split at h
      · cases h
      · split at h <;> cases h <;> exact ⟨by simp, rfl, rfl⟩

theorem compressRead_keeps {fails : Nat → Bool} {codecs : Codecs} {alg : Algorithm}
    {len : Nat} {buf buf' : Memory} {r r' : Reader} {ret : Int}
    (h : compressRead fails codecs alg len buf r = .returns (ret, buf', r')) :
    Keeps r r' := by
  have hplain : ∀ {ret buf' r'}, plainRead fails len buf r = .returns (ret, buf', r') →
      Keeps r r' := by
    intro ret buf' r' h
    obtain ⟨⟨ret₁, bytes, r₁⟩, hread, hnext⟩ := Outcome.andThen_eq_returns.mp h
    simp only at hnext
    split at hnext <;> cases hnext <;> exact (dumpRead_returns hread).2
  have hcodec : ∀ {codec decoder ret buf' r'},
      codecRead fails codec decoder len buf r = .returns (ret, buf', r') →
      Keeps r r' := by
    intro codec decoder ret buf' r' h
    obtain ⟨⟨ret₁, word, r₁⟩, hword, hnext⟩ := Outcome.andThen_eq_returns.mp h
    simp only at hnext
    split at hnext
    · cases hnext
      exact (dumpRead_returns hword).2
    · split at hnext
      · cases hnext
        exact (dumpRead_returns hword).2
      · obtain ⟨⟨ret₂, src, r₂⟩, hsrc, hlast⟩ := Outcome.andThen_eq_returns.mp hnext
        have hkeeps : Keeps r r₂ := (dumpRead_returns hword).2.trans (dumpRead_returns hsrc).2
        simp only at hlast
        split at hlast
        · cases hlast
          exact hkeeps
        · obtain ⟨-, rfl⟩ | ⟨-, rfl, -⟩ := decodeBlock_returns hlast
          · exact hkeeps
          · exact hkeeps
  cases alg with
  | plain => exact hplain h
  | lz4 => exact hcodec h
  | zstd => exact hcodec h

/-- With checksumming on, a region is hashed exactly when its result is
positive, and what is hashed is what the caller finds in its buffer. -/
theorem readVmRegion_hashed {cfg : Config} {fails : Nat → Bool} {buf buf' : Memory}
    {r r' : Reader} {ret : Int} {vmr : VmRegion} (hchecksum : cfg.checksum = true)
    (h : readVmRegion cfg fails buf r = .returns (ret, vmr, buf', r')) :
    r'.hashed = if 0 < ret then r.hashed ++ vmr.bytes ++ slice buf' 0 vmr.len.toNat
      else r.hashed := by
  obtain ⟨⟨ret₁, header, r₁⟩, hheader, hnext⟩ := Outcome.andThen_eq_returns.mp h
  obtain ⟨hret₁, hkeeps₁⟩ := dumpRead_returns hheader
  have hhashed₁ := hkeeps₁.hashed
  simp only at hnext
  split at hnext
  · rename_i hne
    have hnonpos : ¬ 0 < ret₁ := by
      rcases hret₁ with heq | heq | heq
      · exact absurd heq hne
      · omega
      · omega
    cases hnext
    simp [hnonpos, hhashed₁]
  · split at hnext
    · cases hnext
      simp [hhashed₁]
    · split at hnext
      · cases hnext
        simp [hhashed₁]
      · obtain ⟨⟨ret₂, buf₂, r₂⟩, hbody, hlast⟩ := Outcome.andThen_eq_returns.mp hnext
        have hhashed₂ : r₂.hashed = r.hashed := (compressRead_keeps hbody).hashed.trans hhashed₁
        simp only [hchecksum, Bool.true_and, decide_eq_true_eq] at hlast
        split at hlast
        · rename_i hneg
          cases hlast
          simp [show ¬ 0 < ret by omega, hhashed₂]
        · split at hlast
          · rename_i hpos
            split at hlast
            · cases hlast
            · cases hlast
              simp [hpos, hhashed₂]
          · rename_i hpos
            cases hlast
            simp [hpos, hhashed₂]

theorem uploadLoop_hashed {cfg : Config} {env : RestoreEnv} (hchecksum : cfg.checksum = true)
    {rounds : Nat} {st st' : Upload} (h : uploadLoop cfg env rounds st = .returns (0, st')) :
    ∃ more, st'.uploaded = st.uploaded ++ more ∧
      st'.reader.hashed = st.reader.hashed ++ more.flatMap Region.bytes := by
  induction rounds generalizing st with
  | zero => cases h
  | succ rounds ih =>
      obtain ⟨⟨ret, vmr, buf, reader⟩, hread, hnext⟩ := Outcome.andThen_eq_returns.mp h
      have hhashed := readVmRegion_hashed hchecksum hread
      simp only at hnext
      split at hnext
      · rename_i hstop
        cases hnext
        exact ⟨[], by simp, by simp [hhashed]⟩
      · rename_i hgo
        split at hnext
        · cases hnext
        · split at hnext
          · cases hnext
          · split at hnext
            · cases hnext
            · obtain ⟨more, huploaded, hmore⟩ := ih hnext
              refine ⟨⟨vmr, slice buf 0 vmr.len.toNat, slice_length _ _ _⟩ :: more, ?_, ?_⟩
              · rw [huploaded, List.append_assoc]
                rfl
              · rw [hmore, hhashed, if_pos (by omega), List.flatMap_cons]
                simp [Region.bytes, List.append_assoc]

theorem cmdRestore_zero {cfg : Config} {env : RestoreEnv} {digest : List Byte → List Byte}
    {hashed file : List Byte} {dumpedVmSize : Nat} {st : Upload}
    (h : cmdRestore cfg env digest hashed file dumpedVmSize = .returns (0, st)) :
    uploadLoop cfg env (file.length + 1) (Upload.start file dumpedVmSize) =
        .returns (0, st) ∧
      (cfg.checksum = true → digest hashed = digest st.reader.hashed) := by
  simp only [cmdRestore] at h
  split at h
  · cases h
  · obtain ⟨⟨ret, st₁⟩, hset, hnext⟩ := Outcome.andThen_eq_returns.mp h
    simp only at hnext
    split at hnext
    · rename_i hne
      cases hnext
      exact absurd rfl hne
    · rename_i hret
      have hloop : uploadLoop cfg env (file.length + 1)
          (Upload.start file dumpedVmSize) = .returns (ret, st₁) := by
        simp only [targetSetPages] at hset
        split at hset
        · cases hset
          simp at hret
        · split at hset
          · cases hset
            simp at hret
          · split at hset
            · cases hset
              simp at hret
            · exact hset
      have hzero : ret = 0 := by simpa using hret
      subst hzero
      split at hnext
      · split at hnext
        · cases hnext
        · rename_i hdigest
          cases hnext
          refine ⟨hloop, fun _ => ?_⟩
          push Not at hdigest
          obtain ⟨hlen, hlen', -, heq⟩ := hdigest
          cases hworks : env.md5Checkpoint <;> cases hworks' : env.md5Restore <;>
            simp_all [md5Final]
      · rename_i hoff
        cases hnext
        exact ⟨hloop, fun hon => absurd hon hoff⟩

/-- Checksum soundness: with a collision-free digest, a restore from any file
that succeeds has uploaded the regions of the checkpoint, no more, no fewer and
in the same order. -/
theorem cmdRestore_uploads_dumped (cfg : Config) (hchecksum : cfg.checksum = true)
    (digest : List Byte → List Byte) (hdigest : Function.Injective digest)
    (io : Nat → Option Nat) (regions : List Region) (w : Writer)
    (hwritten : writeRegions cfg io regions Writer.start = some w)
    (env : RestoreEnv) (file : List Byte) (st : Upload)
    (hrestore : cmdRestore cfg env digest w.hashed file w.dumpedVmSize = .returns (0, st)) :
    st.uploaded = regions := by
  obtain ⟨hloop, hequal⟩ := cmdRestore_zero hrestore
  obtain ⟨more, huploaded, hhashed⟩ := uploadLoop_hashed hchecksum hloop
  obtain ⟨-, -, -, hwriter⟩ := writeRegions_eq_some hwritten
  have hstreams : regions.flatMap Region.bytes = more.flatMap Region.bytes := by
    have := hdigest (hequal hchecksum)
    rw [hwriter hchecksum, hhashed] at this
    simpa [Writer.start, Upload.start] using this
  rw [huploaded, region_bytes_selfDelimiting.flatMap_inj hstreams]
  simp [Upload.start]

/-- Some read of the dump or some write to the parasite fails. -/
def SomethingFails (env : RestoreEnv) : Prop :=
  (∃ i, env.readFails i = true) ∨ ∃ i, env.sendFails i = true

theorem uploadLoop_frame {cfg : Config} (env : RestoreEnv) {region : Region}
    (hregion : Stored cfg region) {tail : List Byte} (more : Nat) (st : Upload)
    (hrest : st.reader.rest = region.frame cfg ++ tail)
    (hsize : region.vmr.len.toNat ≤ st.reader.dumpedVmSize) :
    (∃ ret st', uploadLoop cfg env (more + 1) st = .returns (ret, st') ∧
      ret < 0 ∧ SomethingFails env) ∨
    ∃ st', uploadLoop cfg env (more + 1) st = uploadLoop cfg env more st' ∧
      st'.reader.rest = tail ∧ st'.uploaded = st.uploaded ++ [region] ∧
      st'.reader.dumpedVmSize = st.reader.dumpedVmSize - region.vmr.len.toNat ∧
      (cfg.checksum = true → st'.reader.hashed = st.reader.hashed ++ region.bytes) := by
  have hfits := hregion.len_le
  have hpos := hregion.len_pos
  obtain ⟨ret, vmr, buf, reader, hread, hcases⟩ := readVmRegion_frame
    env.readFails (env.stale st.sends) hregion hrest hsize
  rw [uploadLoop, hread]
  simp only [Outcome.returns_andThen]
  rcases hcases with ⟨hneg, hfails⟩ | ⟨rfl, rfl, hslice, reads, rfl⟩
  · simp only [show ret ≤ 0 by omega, if_true]
    exact Or.inl ⟨_, _, rfl, hneg, Or.inl hfails⟩
  · have hupload : (⟨region.vmr, slice buf 0 region.vmr.len.toNat,
        slice_length _ _ _⟩ : Region) = region := Region.ext_iff_fields rfl hslice
    simp only [show ¬ (region.vmr.len.toNat : Int) ≤ 0 by omega, if_false,
      show ¬ maxVmRegionSize < region.vmr.len.toNat by omega, hupload]
    by_cases hsend : env.sendFails st.sends = true
    · simp only [hsend, if_true]
      exact Or.inl ⟨_, _, rfl, by omega, Or.inr ⟨_, hsend⟩⟩
    · by_cases hsend' : env.sendFails (st.sends + 1) = true
      · simp only [hsend, hsend', if_true]
        exact Or.inl ⟨_, _, rfl, by omega, Or.inr ⟨_, hsend'⟩⟩
      · simp only [hsend, hsend']
        exact Or.inr ⟨_, rfl, rfl, rfl, rfl, fun hchecksum => by simp [Reader.pass, hchecksum]⟩

/-- The loop runs through whole frames: it either stops on a failing call, or
goes on behind them with exactly these regions uploaded and hashed. -/
theorem uploadLoop_frames {cfg : Config} (env : RestoreEnv) {before : List Region}
    (hstored : ∀ region ∈ before, Stored cfg region) {tail : List Byte} (more : Nat)
    (st : Upload) (hrest : st.reader.rest = before.flatMap (Region.frame cfg) ++ tail)
    (hsize : (before.map fun r => r.vmr.len.toNat).sum ≤ st.reader.dumpedVmSize) :
    (∃ ret st', uploadLoop cfg env (before.length + more) st = .returns (ret, st') ∧
      ret < 0 ∧ SomethingFails env) ∨
    ∃ st', uploadLoop cfg env (before.length + more) st = uploadLoop cfg env more st' ∧
      st'.reader.rest = tail ∧ st'.uploaded = st.uploaded ++ before ∧
      st'.reader.dumpedVmSize =
        st.reader.dumpedVmSize - (before.map fun r => r.vmr.len.toNat).sum ∧
      (cfg.checksum = true →
        st'.reader.hashed = st.reader.hashed ++ before.flatMap Region.bytes) := by
  induction before generalizing st with
  | nil =>
      exact Or.inr ⟨st, by simp, by simpa using hrest, by simp, by simp, by simp⟩
  | cons region rest ih =>
      simp only [List.map_cons, List.sum_cons] at hsize ⊢
      rw [List.flatMap_cons, List.append_assoc] at hrest
      rw [List.length_cons, Nat.add_right_comm]
      rcases uploadLoop_frame env (hstored region (by simp)) (rest.length + more) st hrest
        (by omega) with hfail | ⟨st₁, hround, hrest₁, huploaded₁, hsize₁, hhashed₁⟩
      · exact Or.inl hfail
      · rw [hround]
        rcases ih (fun r hr => hstored r (by simp [hr])) st₁ hrest₁ (by omega) with
          hfail | ⟨st', hloop, hrest', huploaded, hsize', hhashed⟩
        · exact Or.inl hfail
        · refine Or.inr ⟨st', hloop, hrest', ?_, by omega, ?_⟩
          · simp [huploaded, huploaded₁]
          · intro hchecksum
            simp [hhashed hchecksum, hhashed₁ hchecksum]

theorem length_le_flatMap_frame (cfg : Config) (regions : List Region) :
    regions.length ≤ (regions.flatMap (Region.frame cfg)).length := by
  induction regions with
  | nil => simp
  | cons region rest ih =>
      simp only [List.flatMap_cons, List.length_append, List.length_cons, Region.frame,
        VmRegion.bytes_length, vmRegionSize]
      omega

/-- One page of zeroes at the second page of a 4 KiB-page machine. -/
def zeroPage : Region where
  vmr := { addr := 4096, len := 4096 }
  data := List.replicate 4096 0
  length_eq := List.length_replicate

/-- Two pages of ones behind it, with a page between them. -/
def onesPages : Region where
  vmr := { addr := 12288, len := 8192 }
  data := List.replicate 8192 1
  length_eq := List.length_replicate

def plainConfig (checksum : Bool) : Config where
  pageSize := 4096
  algorithm := .plain
  codecs := { lz4 := verbatimCodec, zstd := verbatimCodec }
  checksum := checksum

def quietEnv : RestoreEnv where
  parasiteStatusOk := true
  dumpOpens := true
  parasiteConnects := true
  commandSent := true
  readFails := fun _ => false
  sendFails := fun _ => false
  stale := fun _ _ => 0
  md5Checkpoint := true
  md5Restore := true

def zeroPageWriter (checksum : Bool) : Writer where
  file := zeroPage.vmr.bytes ++ zeroPage.data
  dumpedVmSize := 4096
  hashed := if checksum then zeroPage.bytes else []
  writes := 2

theorem zeroPage_len_le :
    ∀ region ∈ [zeroPage], region.vmr.len.toNat ≤ maxVmRegionSize := by
  intro region hregion
  rw [List.mem_singleton.mp hregion]
  decide

theorem zeroPage_data_ne_nil : zeroPage.data ≠ [] := by
  simp only [zeroPage, ne_eq, List.replicate_eq_nil_iff]
  decide

theorem writeVmRegion_plain (checksum : Bool) {region : Region}
    (hvalid : vmRegionValid 4096 region.vmr = true) (hpos : 0 < region.vmr.len.toNat)
    (hle : region.vmr.len.toNat ≤ maxVmRegionSize) (w : Writer) :
    writeVmRegion (plainConfig checksum) (fun _ => none) region w =
      .returns (region.vmr.len.toNat,
        { file := w.file ++ region.bytes
          dumpedVmSize := w.dumpedVmSize + region.vmr.len.toNat
          hashed := if checksum then w.hashed ++ region.bytes else w.hashed
          writes := w.writes + 2 }) := by
  have hheader : region.vmr.bytes ≠ [] := by
    intro hnil
    simpa [vmRegionSize, hnil] using VmRegion.bytes_length region.vmr
  have hdata : region.data ≠ [] := List.ne_nil_of_length_pos (region.length_eq ▸ hpos)
  have hlen : toInt32 region.data.length = region.vmr.len.toNat := by
    rw [region.length_eq]
    exact toInt32_of_lt (by simp only [maxVmRegionSize] at hle; omega)
  cases checksum <;>
    simp [writeVmRegion, plainConfig, hvalid, dumpWrite, hheader, compressWrite, plainWrite, hdata,
      hlen, Region.bytes, hpos]

theorem writeRegions_zeroPage (checksum : Bool) :
    writeRegions (plainConfig checksum) (fun _ => none) [zeroPage] Writer.start =
      some (zeroPageWriter checksum) := by
  rw [writeRegions, writeVmRegion_plain checksum (by decide) (by decide) (by decide)]
  rfl

def pagesWriter (checksum : Bool) : Writer where
  file := zeroPage.bytes ++ onesPages.bytes
  dumpedVmSize := 12288
  hashed := if checksum then zeroPage.bytes ++ onesPages.bytes else []
  writes := 4

theorem pages_len_le :
    ∀ region ∈ [zeroPage, onesPages], region.vmr.len.toNat ≤ maxVmRegionSize := by
  simp only [List.forall_mem_cons, List.not_mem_nil, false_implies, implies_true, and_true]
  exact ⟨by decide, by decide⟩

theorem writeRegions_pages (checksum : Bool) :
    writeRegions (plainConfig checksum) (fun _ => none) [zeroPage, onesPages] Writer.start =
      some (pagesWriter checksum) := by
  rw [writeRegions, writeVmRegion_plain checksum (by decide) (by decide) (by decide)]
  dsimp only
  rw [if_pos (by decide), writeRegions,
    writeVmRegion_plain checksum (by decide) (by decide) (by decide)]
  cases checksum <;> rfl

/-- The upload loop on a complete dump: a failing call is an error, and
otherwise every region is uploaded and hashed. -/
theorem uploadLoop_whole {cfg : Config} (env : RestoreEnv) {regions : List Region}
    (hstored : ∀ region ∈ regions, Stored cfg region) {file : List Byte} {dumpedVmSize : Nat}
    (hfile : file = regions.flatMap (Region.frame cfg))
    (hsize : dumpedVmSize = (regions.map fun r => r.vmr.len.toNat).sum) :
    ∃ ret st, uploadLoop cfg env (file.length + 1) (Upload.start file dumpedVmSize) =
        .returns (ret, st) ∧
      ((ret < 0 ∧ SomethingFails env) ∨
        (ret = 0 ∧ st.uploaded = regions ∧
          (cfg.checksum = true → st.reader.hashed = regions.flatMap Region.bytes))) := by
  have hcount : regions.length ≤ file.length := hfile ▸ length_le_flatMap_frame cfg regions
  obtain ⟨more, hmore⟩ : ∃ more, file.length + 1 = regions.length + (more + 1) :=
    ⟨file.length - regions.length, by omega⟩
  have hrest : (Upload.start file dumpedVmSize).reader.rest =
      regions.flatMap (Region.frame cfg) ++ [] := by
    simp [Upload.start, hfile]
  rw [hmore]
  rcases uploadLoop_frames env hstored (more + 1) _ hrest (by simp [Upload.start, hsize]) with
    ⟨ret, st, hloop, hneg, hfails⟩ | ⟨st, hloop, hend, huploaded, -, hhashed⟩
  · exact ⟨ret, st, hloop, Or.inl ⟨hneg, hfails⟩⟩
  · obtain ⟨ret, vmr, buf, reader, hread, hcases⟩ := readVmRegion_cut_header
      cfg env.readFails (env.stale st.sends)
      (show st.reader.rest.length < vmRegionSize by rw [hend]; decide)
    rw [hloop, uploadLoop, hread]
    rcases hcases with ⟨hneg, hfails⟩ | ⟨rfl, ⟨hsame, -⟩⟩
    · simp only [Outcome.returns_andThen, show ret ≤ 0 by omega, if_true]
      exact ⟨_, _, rfl, Or.inl ⟨hneg, Or.inl hfails⟩⟩
    · simp only [Outcome.returns_andThen, le_refl, if_true]
      refine ⟨_, _, rfl, Or.inr ⟨rfl, ?_, fun hchecksum => ?_⟩⟩
      · simp [huploaded, Upload.start]
      · simp [hsame, hhashed hchecksum, Upload.start]

theorem targetSetPages_uploaded {cfg : Config} {env : RestoreEnv} {regions : List Region}
    (hstored : ∀ region ∈ regions, Stored cfg region) {file : List Byte} {dumpedVmSize : Nat}
    (hfile : file = regions.flatMap (Region.frame cfg))
    (hsize : dumpedVmSize = (regions.map fun r => r.vmr.len.toNat).sum) {st : Upload}
    (hset : targetSetPages cfg env file dumpedVmSize = .returns (0, st)) :
    st.uploaded = regions := by
  obtain ⟨ret, st', hloop, hcases⟩ := uploadLoop_whole env hstored hfile hsize
  simp only [targetSetPages, hloop] at hset
  split_ifs at hset
  · cases hset
  · cases hset
  · cases hset
  · cases hset
    rcases hcases with ⟨hneg, -⟩ | ⟨-, huploaded, -⟩
    · omega
    · exact huploaded

theorem cmdRestore_untouched {cfg : Config} (digest : List Byte → List Byte)
    {io : Nat → Option Nat} {regions : List Region}
    (hlen : ∀ region ∈ regions, region.vmr.len.toNat ≤ maxVmRegionSize) {w : Writer}
    (hwritten : writeRegions cfg io regions Writer.start = some w)
    (hdigest : digest w.hashed ≠ []) :
    ∃ st, cmdRestore cfg quietEnv digest w.hashed w.file w.dumpedVmSize = .returns (0, st) ∧
      st.uploaded = regions := by
  obtain ⟨-, hfile, hsize, hhashed⟩ := writeRegions_eq_some hwritten
  simp only [Writer.start, List.nil_append, Nat.zero_add] at hfile hsize hhashed
  obtain ⟨ret, st, hloop, hcases⟩ := uploadLoop_whole quietEnv
    (stored_of_writeRegions hwritten hlen) hfile hsize
  rcases hcases with ⟨-, ⟨i, hi⟩ | ⟨i, hi⟩⟩ | ⟨rfl, huploaded, hst⟩
  · simp [quietEnv] at hi
  · simp [quietEnv] at hi
  · have hset : targetSetPages cfg quietEnv w.file w.dumpedVmSize = .returns (0, st) := hloop
    refine ⟨st, ?_, huploaded⟩
    simp only [cmdRestore, hset, Outcome.returns_andThen]
    cases hchecksum : cfg.checksum with
    | false => simp [quietEnv]
    | true =>
        have hequal : st.reader.hashed = w.hashed := by
          rw [hst hchecksum, hhashed hchecksum]
        simp [quietEnv, md5Final, hequal, hdigest]

theorem cmdRestore_uploads_dumped_pages :
    ∃ st, cmdRestore (plainConfig true) quietEnv (fun bytes => 0 :: bytes)
        (pagesWriter true).hashed (pagesWriter true).file
        (pagesWriter true).dumpedVmSize = .returns (0, st) ∧
      st.uploaded = [zeroPage, onesPages] := by
  obtain ⟨st, hrestore, -⟩ := cmdRestore_untouched (fun bytes => 0 :: bytes)
    pages_len_le (writeRegions_pages true) (by simp)
  exact ⟨st, hrestore, cmdRestore_uploads_dumped (plainConfig true) rfl _
    (List.cons_injective) _ [zeroPage, onesPages] _ (writeRegions_pages true) quietEnv _ st
    hrestore⟩

/-- Where the cut of a dump leaves a complete header without its payload. -/
def CutInPayload (cfg : Config) (regions : List Region) (cut : List Byte) : Prop :=
  ∃ before region after partFrame, regions = before ++ region :: after ∧
    cut = before.flatMap (Region.frame cfg) ++ partFrame ∧
    partFrame <+: region.frame cfg ∧ partFrame ≠ region.frame cfg ∧
    vmRegionSize ≤ partFrame.length

/-- The upload loop on a file that ends inside a region: a failing call or an
incomplete payload is an error, and an incomplete header ends the loop as if
the file were complete. -/
theorem uploadLoop_cut {cfg : Config} (env : RestoreEnv) {before after : List Region}
    {region : Region} {partFrame : List Byte} {dumpedVmSize : Nat}
    (hstored : ∀ r ∈ before ++ region :: after, Stored cfg r)
    (hcut : partFrame <+: region.frame cfg) (hstrict : partFrame ≠ region.frame cfg)
    (hsize : ((before ++ region :: after).map fun r => r.vmr.len.toNat).sum = dumpedVmSize) :
    ∃ ret st, uploadLoop cfg env
        ((before.flatMap (Region.frame cfg) ++ partFrame).length + 1)
        (Upload.start (before.flatMap (Region.frame cfg) ++ partFrame) dumpedVmSize) =
          .returns (ret, st) ∧
      ((ret < 0 ∧ (SomethingFails env ∨ vmRegionSize ≤ partFrame.length)) ∨
        (ret = 0 ∧ partFrame.length < vmRegionSize ∧
          (cfg.checksum = true → st.reader.hashed = before.flatMap Region.bytes))) := by
  have hbefore := length_le_flatMap_frame cfg before
  obtain ⟨more, hmore⟩ : ∃ more,
      (before.flatMap (Region.frame cfg) ++ partFrame).length + 1 =
        before.length + (more + 1) := by
    refine ⟨(before.flatMap (Region.frame cfg) ++ partFrame).length - before.length, ?_⟩
    rw [List.length_append]
    omega
  have hsplit : (before.map fun r => r.vmr.len.toNat).sum + region.vmr.len.toNat ≤
      dumpedVmSize := by
    rw [← hsize, List.map_append, List.sum_append, List.map_cons, List.sum_cons]
    omega
  rw [hmore]
  have hstoredBefore : ∀ r ∈ before, Stored cfg r := fun r hr => hstored r (by simp [hr])
  rcases uploadLoop_frames env hstoredBefore (more + 1)
      (Upload.start (before.flatMap (Region.frame cfg) ++ partFrame) dumpedVmSize)
      rfl (by simp only [Upload.start]; omega) with
    ⟨ret, st, hloop, hneg, hfails⟩ | ⟨st, hloop, hrest, -, hleft, hhashed⟩
  · exact ⟨ret, st, hloop, Or.inl ⟨hneg, Or.inl hfails⟩⟩
  · rw [hloop, uploadLoop]
    by_cases hheader : partFrame.length < vmRegionSize
    · obtain ⟨ret, vmr, buf, reader, hread, hcases⟩ := readVmRegion_cut_header
        cfg env.readFails (env.stale st.sends)
        (show st.reader.rest.length < vmRegionSize by rw [hrest]; exact hheader)
      rw [hread]
      rcases hcases with ⟨hneg, hfails⟩ | ⟨rfl, ⟨hsame, -⟩⟩
      · simp only [Outcome.returns_andThen, show ret ≤ 0 by omega, if_true]
        exact ⟨_, _, rfl, Or.inl ⟨hneg, Or.inl (Or.inl hfails)⟩⟩
      · simp only [Outcome.returns_andThen, le_refl, if_true]
        refine ⟨_, _, rfl, Or.inr ⟨rfl, hheader, fun hchecksum => ?_⟩⟩
        rw [hsame, hhashed hchecksum]
        simp [Upload.start]
    · obtain ⟨ret, vmr, buf, reader, hread, hneg⟩ := readVmRegion_cut_payload
        env.readFails (env.stale st.sends) (hstored region (by simp))
        (show st.reader.rest <+: region.frame cfg by rw [hrest]; exact hcut)
        (by rw [hrest]; exact hstrict)
        (by rw [hrest]; omega) (by rw [hleft]; simp only [Upload.start]; omega)
      rw [hread]
      simp only [Outcome.returns_andThen, show ret ≤ 0 by omega, if_true]
      exact ⟨_, _, rfl, Or.inl ⟨hneg, Or.inr (by omega)⟩⟩

theorem cmdRestore_returns {cfg : Config} {env : RestoreEnv} (digest : List Byte → List Byte)
    (hashed : List Byte) {file : List Byte} {dumpedVmSize : Nat} {result : Int × Upload}
    (hloop : uploadLoop cfg env (file.length + 1) (Upload.start file dumpedVmSize) =
      .returns result) :
    ∃ ret st, cmdRestore cfg env digest hashed file dumpedVmSize = .returns (ret, st) := by
  obtain ⟨ret, st, hset⟩ : ∃ ret st,
      targetSetPages cfg env file dumpedVmSize = .returns (ret, st) := by
    simp only [targetSetPages, hloop]
    split_ifs <;> exact ⟨_, _, rfl⟩
  simp only [cmdRestore, hset, Outcome.returns_andThen]
  split_ifs <;> exact ⟨_, _, rfl⟩

theorem cmdRestore_ne_zero_of_loop {cfg : Config} {env : RestoreEnv}
    {digest : List Byte → List Byte} {hashed file : List Byte} {dumpedVmSize : Nat} {ret : Int}
    {st : Upload}
    (hloop : uploadLoop cfg env (file.length + 1) (Upload.start file dumpedVmSize) =
      .returns (ret, st))
    (hret : ret ≠ 0 ∨ (cfg.checksum = true ∧ digest hashed ≠ digest st.reader.hashed)) :
    ∃ ret st, cmdRestore cfg env digest hashed file dumpedVmSize = .returns (ret, st) ∧
      ret ≠ 0 := by
  obtain ⟨code, st', hrestore⟩ := cmdRestore_returns digest hashed hloop
  refine ⟨code, st', hrestore, ?_⟩
  rintro rfl
  obtain ⟨hloop', hdigest⟩ := cmdRestore_zero hrestore
  rw [hloop] at hloop'
  cases hloop'
  rcases hret with hret | ⟨hchecksum, hne⟩
  · exact hret rfl
  · exact hne (hdigest hchecksum)

section Cuts

variable {cfg : Config} {before after : List Region} {region : Region} {partFrame : List Byte}
  {dumpedVmSize : Nat}

theorem cmdRestore_cut_accepted (digest : List Byte → List Byte) (hashed : List Byte)
    (hoff : cfg.checksum ≠ true) (hstored : ∀ r ∈ before ++ region :: after, Stored cfg r)
    (hcut : partFrame <+: region.frame cfg) (hstrict : partFrame ≠ region.frame cfg)
    (hsize : ((before ++ region :: after).map fun r => r.vmr.len.toNat).sum = dumpedVmSize)
    (hshort : partFrame.length < vmRegionSize) :
    ∃ st, cmdRestore cfg quietEnv digest hashed
      (before.flatMap (Region.frame cfg) ++ partFrame) dumpedVmSize = .returns (0, st) := by
  obtain ⟨ret, st, hloop, hcases⟩ := uploadLoop_cut quietEnv hstored hcut hstrict hsize
  have hzero : ret = 0 := by
    rcases hcases with ⟨-, (⟨i, hi⟩ | ⟨i, hi⟩) | hlong⟩ | ⟨hzero, -, -⟩
    · simp [quietEnv] at hi
    · simp [quietEnv] at hi
    · omega
    · exact hzero
  subst hzero
  have hset : targetSetPages cfg quietEnv
      (before.flatMap (Region.frame cfg) ++ partFrame) dumpedVmSize = .returns (0, st) := hloop
  refine ⟨st, ?_⟩
  simp only [cmdRestore, quietEnv, Bool.not_true, Bool.false_eq_true, if_false]
  change (targetSetPages cfg quietEnv _ _).andThen _ = _
  rw [hset]
  simp [hoff]

theorem cmdRestore_cut_rejected (env : RestoreEnv) (digest : List Byte → List Byte)
    (hashed : List Byte) (hstored : ∀ r ∈ before ++ region :: after, Stored cfg r)
    (hcut : partFrame <+: region.frame cfg) (hstrict : partFrame ≠ region.frame cfg)
    (hsize : ((before ++ region :: after).map fun r => r.vmr.len.toNat).sum = dumpedVmSize)
    (hdetected : vmRegionSize ≤ partFrame.length ∨
      (cfg.checksum = true ∧ digest hashed ≠ digest (before.flatMap Region.bytes))) :
    ∃ ret st, cmdRestore cfg env digest hashed
      (before.flatMap (Region.frame cfg) ++ partFrame) dumpedVmSize = .returns (ret, st) ∧
        ret ≠ 0 := by
  obtain ⟨ret, st, hloop, hcases⟩ := uploadLoop_cut env hstored hcut hstrict hsize
  apply cmdRestore_ne_zero_of_loop hloop
  rcases hcases with ⟨hneg, -⟩ | ⟨-, hshort, hst⟩
  · exact Or.inl (by omega)
  · rcases hdetected with hlong | ⟨hchecksum, hne⟩
    · omega
    · refine Or.inr ⟨hchecksum, ?_⟩
      rwa [hst hchecksum]

end Cuts

/-- Truncation: `cmd_restore` rejects a dump that was cut short, whatever the
environment does, exactly when checksumming is on or the cut leaves a complete
header without its payload. -/
theorem truncated_rejected_iff (cfg : Config) (digest : List Byte → List Byte)
    (hdigest : Function.Injective digest) (io : Nat → Option Nat) (regions : List Region)
    (hlen : ∀ region ∈ regions, region.vmr.len.toNat ≤ maxVmRegionSize) (w : Writer)
    (hwritten : writeRegions cfg io regions Writer.start = some w) (cut : List Byte)
    (hcut : cut <+: w.file) (hstrict : cut ≠ w.file) :
    (∀ env, ∃ ret st, cmdRestore cfg env digest w.hashed cut w.dumpedVmSize =
        .returns (ret, st) ∧ ret ≠ 0) ↔
      cfg.checksum = true ∨ CutInPayload cfg regions cut := by
  have hstored := stored_of_writeRegions hwritten hlen
  obtain ⟨-, hfile, hsize, hhashed⟩ := writeRegions_eq_some hwritten
  simp only [Writer.start, List.nil_append, Nat.zero_add] at hfile hsize hhashed
  constructor
  · intro hall
    by_contra hnot
    push Not at hnot
    obtain ⟨hoff, hpayload⟩ := hnot
    rw [hfile] at hcut hstrict
    obtain ⟨before, region, after, partFrame, rfl, rfl, hpart, hpartNe⟩ :=
      FrameStreams.exists_cut hcut hstrict
    have hshort : partFrame.length < vmRegionSize := by
      by_contra hlong
      exact hpayload ⟨before, region, after, partFrame, rfl, rfl, hpart, hpartNe, by omega⟩
    obtain ⟨st, haccepted⟩ :=
      cmdRestore_cut_accepted digest w.hashed hoff hstored hpart hpartNe hsize.symm hshort
    obtain ⟨code, st', hrestore, hne⟩ := hall quietEnv
    rw [haccepted] at hrestore
    cases hrestore
    exact hne rfl
  · rintro (hchecksum | ⟨before, region, after, partFrame, rfl, rfl, hpart, hpartNe, hlong⟩) env
    · rw [hfile] at hcut hstrict
      obtain ⟨before, region, after, partFrame, rfl, rfl, hpart, hpartNe⟩ :=
        FrameStreams.exists_cut hcut hstrict
      refine cmdRestore_cut_rejected env digest w.hashed hstored hpart hpartNe hsize.symm
        (Or.inr ⟨hchecksum, fun heq => ?_⟩)
      -- equal digests would mean equal lists of regions
      have hstreams := hdigest heq
      rw [hhashed hchecksum] at hstreams
      have hlists := region_bytes_selfDelimiting.flatMap_inj hstreams
      have hlength := congrArg List.length hlists
      simp at hlength
    · exact cmdRestore_cut_rejected env digest w.hashed hstored hpart hpartNe hsize.symm
        (Or.inl hlong)

theorem truncated_rejected_behind_header :
    zeroPage.vmr.bytes <+: (zeroPageWriter false).file ∧
      ∀ env, ∃ ret st, cmdRestore (plainConfig false) env id (zeroPageWriter false).hashed
          zeroPage.vmr.bytes (zeroPageWriter false).dumpedVmSize = .returns (ret, st) ∧
        ret ≠ 0 := by
  have hcut : zeroPage.vmr.bytes <+: (zeroPageWriter false).file := List.prefix_append _ _
  have hstrict : zeroPage.vmr.bytes ≠ (zeroPageWriter false).file := by
    intro heq
    have hlength := congrArg List.length heq
    simp [zeroPageWriter, zeroPage_data_ne_nil] at hlength
  refine ⟨hcut, (truncated_rejected_iff (plainConfig false) id Function.injective_id _ [zeroPage]
    zeroPage_len_le _ (writeRegions_zeroPage false) _ hcut hstrict).mpr
    (Or.inr ⟨[], zeroPage, [], zeroPage.vmr.bytes, rfl, by simp, ?_, ?_, by simp⟩)⟩
  · exact List.prefix_append _ _
  · simpa [zeroPageWriter, Region.frame, plainConfig, payload?] using hstrict

theorem truncated_to_nothing_accepted :
    writeRegions (plainConfig false) (fun _ => none) [zeroPage] Writer.start =
        some (zeroPageWriter false) ∧
      [] <+: (zeroPageWriter false).file ∧ [] ≠ (zeroPageWriter false).file ∧
      ¬ ∀ env, ∃ ret st, cmdRestore (plainConfig false) env id (zeroPageWriter false).hashed
          [] (zeroPageWriter false).dumpedVmSize = .returns (ret, st) ∧ ret ≠ 0 := by
  refine ⟨writeRegions_zeroPage false, List.nil_prefix, ?_, ?_⟩
  · intro heq
    have hlength := congrArg List.length heq
    simp [zeroPageWriter, vmRegionSize] at hlength
    omega
  · intro hall
    obtain ⟨ret, st, hrestore, hne⟩ := hall quietEnv
    have haccepted : cmdRestore (plainConfig false) quietEnv id (zeroPageWriter false).hashed []
        (zeroPageWriter false).dumpedVmSize = .returns (0, { Upload.start [] 4096 with
          reader := { rest := [], dumpedVmSize := 4096, hashed := [], reads := 1 } }) := rfl
    rw [haccepted] at hrestore
    cases hrestore
    exact hne rfl

end Memcr.DumpRestore
