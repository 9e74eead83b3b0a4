import Memcr.BlockFormats
import Memcr.CheckpointMemory
import Memcr.DumpBackends

namespace Memcr.CheckpointStorage

open Memcr.BlockFormats
open Memcr.ByteMemory
open Memcr.ByteWords
open Memcr.CallOutcome
open Memcr.CheckpointMemory
open Memcr.DumpBackends
open Memcr.DumpFormat
open Memcr.DumpReaders
open Memcr.DumpRestore
open Memcr.EncryptedDump
open Memcr.PageSelection

section Checkpoint

variable (dumpWrite : DumpWrite) (cfg : Config) (env : CheckpointEnv)

/-- The last line of `get_vm_region`. -/
def writeDownloadVia (region : Region) (d : Download) : Outcome (Int × Download) :=
  (writeVmRegionVia dumpWrite cfg region d.writer).andThen fun (ret, w) =>
    .returns (ret, { d with writer := w })

/-- `get_vm_region` -/
def getVmRegionVia (addr len : Nat) (d : Download) : Outcome (Int × Download) :=
  fetchVmRegion (writeDownloadVia dumpWrite cfg) cfg env addr len d

/-- What the page loop does with a run of pages, with the dump behind any `dump_write`. -/
def regionOpsVia : RegionOps Download where
  getVmRegion := getVmRegionVia dumpWrite cfg env
  freeVmRegion := freeVmRegion env

/-- `get_target_pages` -/
def getTargetPagesVia (vmas : List (VmArea cfg.pageSize)) (mem : Memory) :
    Outcome (Int × Download) :=
  targetPages (regionOpsVia dumpWrite cfg env) cfg env vmas mem

end Checkpoint

/-- The built-in `dump_write` of DumpFormat, with its result as an `int`. -/
def builtinWrite (io : Nat → Option Nat) : DumpWrite := fun bytes w =>
  (DumpFormat.dumpWrite io bytes w).andThen fun (ok, w) =>
    .returns (if ok then bytes.length else -1, w)

/-- `cmd_restore`, given the checksum input of the checkpoint. -/
def cmdRestoreVia (cfg : Config) (outside : RestoreEnv) (env : LoopEnv)
    (digest : List Byte → List Byte) (checkpointHashed file : List Byte) (dumpedVmSize : Nat) :
    Outcome (Int × Upload) :=
  if !outside.parasiteStatusOk then .returns (1, Upload.start file dumpedVmSize)
  else
    (targetSetPagesVia cfg outside env file dumpedVmSize).andThen fun (ret, st) =>
      if ret ≠ 0 then .returns (ret, st)
      else if cfg.checksum then
        let checkpointDigest := md5Final digest outside.md5Checkpoint checkpointHashed
        let restoreDigest := md5Final digest outside.md5Restore st.reader.hashed
        if checkpointDigest.length = 0 ∨ restoreDigest.length = 0 ∨
            checkpointDigest.length ≠ restoreDigest.length ∨
            checkpointDigest ≠ restoreDigest then
          .returns (1, st)
        else .returns (0, st)
      else .returns (0, st)

section Builtin

variable {cfg : Config} {io : Nat → Option Nat}

theorem builtinWrite_andThen {α : Type} (bytes : List Byte) (w : Writer)
    (next : Int × Writer → Outcome α) :
    (builtinWrite io bytes w).andThen next =
      (DumpFormat.dumpWrite io bytes w).andThen fun (ok, w) =>
        next (if ok then bytes.length else -1, w) := by
  rw [builtinWrite, Outcome.andThen_andThen]
  rfl

theorem compressWriteVia_builtin {codecs : Codecs} {alg : Algorithm} {src : List Byte}
    (hlen : src.length ≤ maxVmRegionSize) (w : Writer) :
    compressWriteVia (builtinWrite io) codecs alg src w = compressWrite io codecs alg src w := by
  have hcodec : ∀ codec,
      codecWriteVia (builtinWrite io) codec src w = codecWrite io codec src w := by
    intro codec
    rw [codecWriteVia, codecWrite]
    rcases codec.compress src with _ | dst
    · rfl
    · simp only [builtinWrite_andThen, toBytes_length]
      refine Outcome.andThen_congr ?_
      rintro ⟨ok, w'⟩ -
      cases ok with
      | false => rfl
      | true =>
          refine Outcome.andThen_congr ?_
          rintro ⟨ok, w''⟩ -
          cases ok with
          | false => exact if_pos (by simp)
          | true => exact if_neg (by simp)
  cases alg with
  | plain =>
      simp only [compressWriteVia, plainWriteVia, builtinWrite_andThen]
      refine Outcome.andThen_congr ?_
      rintro ⟨ok, w'⟩ -
      simp only [maxVmRegionSize] at hlen
      cases ok with
      | false => exact if_pos (by simp only [Bool.false_eq_true, if_false, sizeT]; omega)
      | true => exact if_neg (not_not.mpr (sizeT_natCast (by omega)))
  | lz4 => exact hcodec codecs.lz4
  | zstd => exact hcodec codecs.zstd

theorem writeVmRegionVia_builtin {region : Region}
    (hle : region.vmr.len.toNat ≤ maxVmRegionSize) (w : Writer) :
    writeVmRegionVia (builtinWrite io) cfg region w = writeVmRegion cfg io region w := by
  rw [writeVmRegionVia, writeVmRegion]
  refine if_congr Iff.rfl rfl ?_
  rw [builtinWrite_andThen]
  refine Outcome.andThen_congr ?_
  rintro ⟨ok, w'⟩ -
  cases ok with
  | false => rfl
  | true =>
      simp only [if_true, VmRegion.bytes_length, ne_eq, not_true_eq_false, if_false,
        Bool.not_true, Bool.false_eq_true]
      rw [compressWriteVia_builtin (region.length_eq ▸ hle)]

theorem getVmRegionVia_builtin (env : CheckpointEnv) (addr len : Nat) (d : Download) :
    getVmRegionVia (builtinWrite env.io) cfg env addr len d =
      CheckpointMemory.getVmRegion cfg env addr len d := by
  rw [getVmRegionVia, CheckpointMemory.getVmRegion, fetchVmRegion, fetchVmRegion]
  by_cases hlong : maxVmRegionSize < len
  · simp only [if_pos hlong]
  · have hle : (BitVec.ofNat 64 len).toNat ≤ maxVmRegionSize :=
      (BitVec.toNat_ofNat len 64).trans_le ((Nat.mod_le _ _).trans (not_lt.mp hlong))
    have hwrite : ∀ (mem : Memory) (d : Download),
        writeDownloadVia (builtinWrite env.io) cfg
            (regionAt mem ⟨BitVec.ofNat 64 addr, BitVec.ofNat 64 len⟩) d =
          CheckpointMemory.writeDownload cfg env
            (regionAt mem ⟨BitVec.ofNat 64 addr, BitVec.ofNat 64 len⟩) d := by
      intro mem d
      rw [writeDownloadVia, writeVmRegionVia_builtin hle]
      rfl
    simp only [if_neg hlong, hwrite]

theorem getTargetPagesVia_builtin (env : CheckpointEnv) (vmas : List (VmArea cfg.pageSize))
    (mem : Memory) :
    getTargetPagesVia (builtinWrite env.io) cfg env vmas mem =
      getTargetPages cfg env vmas mem := by
  have hops : regionOpsVia (builtinWrite env.io) cfg env = regionOps cfg env := by
    rw [regionOpsVia, regionOps]
    congr 1
    funext addr len d
    exact getVmRegionVia_builtin env addr len d
  rw [getTargetPagesVia, hops, getTargetPages]

end Builtin

/-- The same download with its regions as they are written by the built-in functions. -/
def plainView (cfg : Config) (regions : List Region) (d : Download) : Download :=
  { d with writer := { d.writer with file := regions.flatMap (Region.frame cfg) } }

/-- The dump holds `regions` as the back end writes them, and otherwise the download is as
a checkpoint leaves it. -/
structure Kept (backend : Backend) (cfg : Config) (table : PageTable) (mem₀ : Memory)
    (future : Nat → Prop) (regions : List Region) (d : Download) : Prop where
  consistent : Consistent cfg table mem₀ future regions (plainView cfg regions d)
  file : d.writer.file = regions.flatMap (backend.image cfg)
  hashed : cfg.checksum = true → d.writer.hashed = regions.flatMap Region.bytes

section Download

variable {backend : Backend} {cfg : Config} {env : CheckpointEnv} {mem₀ : Memory}
  {future : Nat → Prop} {regions : List Region} {d d' : Download}

theorem Kept.carryOut (h : Kept backend cfg env.table mem₀ future regions d) (count : Nat) :
    Kept backend cfg env.table mem₀ future regions
      (CheckpointMemory.carryOut cfg.pageSize env.table count d) :=
  ⟨h.consistent.carryOut count, h.file, h.hashed⟩

theorem Kept.mono {future' : Nat → Prop} (h : Kept backend cfg env.table mem₀ future regions d)
    (hfuture : ∀ a, future' a → future a) :
    Kept backend cfg env.table mem₀ future' regions d :=
  ⟨h.consistent.mono hfuture, h.file, h.hashed⟩

theorem Kept.calls (h : Kept backend cfg env.table mem₀ future regions d) (calls : Nat) :
    Kept backend cfg env.table mem₀ future regions { d with calls := calls } :=
  ⟨h.consistent.calls calls, h.file, h.hashed⟩

theorem Kept.writeDownload {vmr : VmRegion} {outstanding : List VmRegion} {calls : Nat}
    {ret : Int} (hfit : BlocksFit cfg.codecs)
    (h : Kept backend cfg env.table mem₀ future regions d)
    (hpos : 0 < vmr.len.toNat) (hle : vmr.len.toNat ≤ maxVmRegionSize)
    (hvisit : ∀ a, Within vmr.addr.toNat vmr.len.toNat a → future a)
    (houtstanding : ∀ v ∈ outstanding, v ∈ d.outstanding ∨ v = vmr)
    (hwrite : writeDownloadVia backend.dumpWrite cfg (regionAt d.mem vmr)
      { d with outstanding := outstanding, calls := calls } = .returns (ret, d')) :
    ret ≠ 0 ∧ (0 < ret → Kept backend cfg env.table mem₀
      (fun a => future a ∧ ¬ Within vmr.addr.toNat vmr.len.toNat a)
      (regions ++ [regionAt mem₀ vmr]) d') := by
  obtain ⟨⟨code, w⟩, hregion, hnext⟩ := Outcome.andThen_eq_returns.mp hwrite
  cases hnext
  have heq : regionAt d.mem vmr = regionAt mem₀ vmr := h.consistent.regionAt_eq hvisit
  rw [heq] at hregion
  constructor
  · rintro rfl
    exact writeVmRegionVia_ne_zero hpos hle hregion
  · intro hret
    obtain ⟨hstored, -, writes, rfl⟩ := writeVmRegionVia_pos hfit hle hregion hret hpos
    refine ⟨?_, ?_, ?_⟩
    · apply h.consistent.append hstored _ rfl houtstanding
      simp [plainView]
    · simp [h.file]
    · intro hchecksum
      simp [hchecksum, h.hashed hchecksum]

theorem Kept.getVmRegion {addr len : Nat} {ret : Int} (hfit : BlocksFit cfg.codecs)
    (h : Kept backend cfg env.table mem₀ future regions d)
    (hpos : 0 < len) (hle : len ≤ maxVmRegionSize) (hlt : addr + len < 2 ^ 64)
    (hvisit : ∀ a, Within addr len a → future a)
    (hget : getVmRegionVia backend.dumpWrite cfg env addr len d = .returns (ret, d')) :
    ret ≠ 0 ∧ (0 < ret → ∃ regions', Kept backend cfg env.table mem₀
      (fun a => future a ∧ ¬ Within addr len a) regions' d') := by
  have haddr : (BitVec.ofNat 64 addr).toNat = addr := ofNat_toNat_of_lt (by omega)
  have hlen : (BitVec.ofNat 64 len).toNat = len := ofNat_toNat_of_lt (by omega)
  rcases fetchVmRegion_cases hget with rfl | ⟨-, count, outstanding, calls, hout, hwrite⟩
  · exact ⟨by omega, by omega⟩
  · obtain ⟨hne, hstep⟩ := (h.carryOut count).writeDownload hfit (by rwa [hlen]) (by rwa [hlen])
      (by rwa [haddr, hlen]) hout hwrite
    rw [haddr, hlen] at hstep
    exact ⟨hne, fun hret => ⟨_, hstep hret⟩⟩

theorem Kept.freeVmRegion {addr len : Nat}
    (h : Kept backend cfg env.table mem₀ future regions d) (hlt : addr + len < 2 ^ 64)
    (hpages : FilePages cfg.pageSize env.table addr len)
    (hfree : CheckpointMemory.freeVmRegion env addr len d = .returns (0, d')) :
    Kept backend cfg env.table mem₀ future regions d' := by
  have hview : CheckpointMemory.freeVmRegion env addr len (plainView cfg regions d) =
      .returns (0, plainView cfg regions d') ∧ d'.writer = d.writer := by
    simp only [CheckpointMemory.freeVmRegion] at hfree ⊢
    by_cases hfails : env.fails d.calls = true
    · rw [if_pos hfails] at hfree
      cases hfree
    · rw [if_neg hfails] at hfree
      cases hfree
      exact ⟨if_neg hfails, rfl⟩
  obtain ⟨hview, hwriter⟩ := hview
  exact ⟨h.consistent.freeVmRegion hlt hpages hview, hwriter ▸ h.file, hwriter ▸ h.hashed⟩

theorem kept_keeps (hfit : BlocksFit cfg.codecs) :
    Keeps (regionOpsVia backend.dumpWrite cfg env) cfg env fun future d =>
      ∃ regions, Kept backend cfg env.table mem₀ future regions d where
  mono := by
    rintro future future' d ⟨regions, h⟩ hfuture
    exact ⟨regions, h.mono hfuture⟩
  calls := by
    rintro future d ⟨regions, h⟩ calls
    exact ⟨regions, h.calls calls⟩
  carryOut := by
    rintro future d ⟨regions, h⟩ count
    exact ⟨regions, h.carryOut count⟩
  getVmRegion := by
    rintro future addr len ret d d' ⟨regions, h⟩ hpos hle hlt hvisit hget
    exact h.getVmRegion hfit hpos hle hlt hvisit hget
  freeVmRegion := by
    rintro future addr len d d' ⟨regions, h⟩ hlt hpages hfree
    exact ⟨regions, h.freeVmRegion hlt hpages hfree⟩

theorem kept_of_getTargetPagesVia {vmas : List (VmArea cfg.pageSize)}
    (hfit : BlocksFit cfg.codecs) (hreads : ∀ page, env.pagemapReads page = true)
    (hdvd : cfg.pageSize ∣ maxVmRegionSize) (hapart : vmas.Pairwise Apart)
    (hget : getTargetPagesVia backend.dumpWrite cfg env vmas mem₀ = .returns (0, d)) :
    ∃ regions, Kept backend cfg env.table mem₀ (fun _ => False) regions d := by
  refine (kept_keeps hfit).targetPages hreads hdvd hapart ⟨[], ?_, rfl, fun _ => rfl⟩ hget
  constructor <;> simp [Writer.start, Covered, plainView]

/-- `target_set_pages` gets as far as its loop. -/
def Reaches (outside : RestoreEnv) : Prop :=
  outside.dumpOpens = true ∧ outside.parasiteConnects = true ∧ outside.commandSent = true

theorem Kept.targetSetPages (hfit : BlocksFit cfg.codecs)
    (h : Kept backend cfg env.table mem₀ future regions d) (outside : RestoreEnv)
    (loop : LoopEnv) (hloop : loop.dumpRead = backend.dumpRead) :
    ∃ ret st, targetSetPagesVia cfg outside loop d.writer.file d.writer.dumpedVmSize =
        .returns (ret, st) ∧
      (ret < 0 ∧ ¬ (Reaches outside ∧ Undisturbed backend loop) ∨
        ret = 0 ∧ st.uploaded = regions ∧
          (cfg.checksum = true → st.reader.hashed = d.writer.hashed)) := by
  have hholds : Holds backend cfg regions
      (Upload.start d.writer.file d.writer.dumpedVmSize).reader :=
    ⟨h.file, h.consistent.size.ge⟩
  have hrounds : regions.length < d.writer.file.length + 1 := by
    have := length_le_images backend cfg regions
    rw [h.file]
    omega
  rw [targetSetPagesVia]
  split_ifs with hopens hconnects hsent
  · exact ⟨_, _, rfl, Or.inl ⟨by decide, fun h => by simp [h.1.1] at hopens⟩⟩
  · exact ⟨_, _, rfl, Or.inl ⟨by decide, fun h => by simp [h.1.2.1] at hconnects⟩⟩
  · exact ⟨_, _, rfl, Or.inl ⟨by decide, fun h => by simp [h.1.2.2] at hsent⟩⟩
  · obtain ⟨ret, st, hrun, hcases⟩ :=
      uploadLoopVia_images hloop hfit h.consistent.stored hrounds hholds
    refine ⟨ret, st, hrun, hcases.imp (fun h => ⟨h.1, fun hquiet => h.2 hquiet.2⟩) ?_⟩
    rintro ⟨hzero, huploaded, hhashed⟩
    refine ⟨hzero, huploaded, fun hchecksum => ?_⟩
    rw [hhashed hchecksum, h.hashed hchecksum]
    rfl

end Download

theorem digest_missing {digest : List Byte → List Byte} {hashed : List Byte} {works works' : Bool}
    (h : (md5Final digest works hashed).length = 0 ∨ (md5Final digest works' hashed).length = 0 ∨
      (md5Final digest works hashed).length ≠ (md5Final digest works' hashed).length ∨
      md5Final digest works hashed ≠ md5Final digest works' hashed) :
    works = false ∨ works' = false ∨ digest hashed = [] := by
  rcases works with _ | _
  · exact Or.inl rfl
  · rcases works' with _ | _
    · exact Or.inr (Or.inl rfl)
    · simpa [md5Final] using h

/-- Nothing fails that `cmd_restore` relies on, and `hashed` has a digest. -/
structure RestoreWorks (storage : Storage) (cfg : Config) (outside : RestoreEnv)
    (sendFails : Nat → Bool) (digest : List Byte → List Byte) (hashed : List Byte) : Prop where
  parasite : outside.parasiteStatusOk = true
  reaches : Reaches outside
  reads : storage.Calm
  sends : ∀ i, sendFails i = false
  digests : cfg.checksum = true →
    outside.md5Checkpoint = true ∧ outside.md5Restore = true ∧ digest hashed ≠ []

/-- A checkpoint that reports success, with or without compression, encryption and
checksums, can be restored: `cmd_restore` ends, it reports success if nothing fails that it
relies on, and then the memory of the target is what it was. Its result is 1 only if the
parasite is gone or a digest is missing. -/
theorem stored_checkpoint_restores (storage : Storage) (cfg : Config)
    (hdvd : cfg.pageSize ∣ maxVmRegionSize) (hfit : BlocksFit cfg.codecs)
    (vmas : List (VmArea cfg.pageSize)) (hapart : vmas.Pairwise Apart) (env : CheckpointEnv)
    (hreads : ∀ page, env.pagemapReads page = true) (mem₀ : Memory) (d : Download)
    (hget : getTargetPagesVia storage.dumpWrite cfg env vmas mem₀ = .returns (0, d))
    (outside : RestoreEnv) (sendFails : Nat → Bool) (bufs : Nat → Scratch)
    (digest : List Byte → List Byte) :
    ∃ ret st, cmdRestoreVia cfg outside ⟨storage.dumpRead, sendFails, bufs⟩ digest
          d.writer.hashed d.writer.file d.writer.dumpedVmSize = .returns (ret, st) ∧
      (RestoreWorks storage cfg outside sendFails digest d.writer.hashed → ret = 0) ∧
      (ret = 0 → cmdSetPages (memoryAfter cfg.pageSize env.table d) st.uploaded = mem₀) ∧
      (0 < ret → outside.parasiteStatusOk = false ∨ cfg.checksum = true ∧
        (outside.md5Checkpoint = false ∨ outside.md5Restore = false ∨
          digest d.writer.hashed = [])) := by
  obtain ⟨regions, h⟩ : ∃ regions, Kept storage.backend cfg env.table mem₀ _ regions d :=
    kept_of_getTargetPagesVia hfit hreads hdvd hapart hget
  obtain ⟨ret, st, hset, hcases⟩ := h.targetSetPages hfit outside
    ⟨storage.dumpRead, sendFails, bufs⟩ rfl
  rw [cmdRestoreVia]
  by_cases hstatus : outside.parasiteStatusOk = true
  · rw [if_neg (by simpa using hstatus), hset, Outcome.returns_andThen]
    dsimp only
    rcases hcases with ⟨hneg, hdisturbed⟩ | ⟨rfl, huploaded, hhashed⟩
    · rw [if_pos (by omega)]
      refine ⟨_, _, rfl, fun hworks => ?_, by omega, by omega⟩
      exact absurd ⟨hworks.reaches, hworks.reads, hworks.sends⟩ hdisturbed
    · have hmem : cmdSetPages (memoryAfter cfg.pageSize env.table d) st.uploaded = mem₀ := by
        rw [huploaded]
        exact cmdSetPages_eq h.consistent.original
          (h.consistent.carryOut d.outstanding.length).mem
      rw [if_neg (by simp)]
      by_cases hchecksum : cfg.checksum = true
      · rw [if_pos hchecksum, hhashed hchecksum]
        split_ifs with hdigests
        · have hmissing := digest_missing hdigests
          refine ⟨_, _, rfl, fun hworks => ?_, by omega, fun _ => Or.inr ⟨hchecksum, hmissing⟩⟩
          obtain ⟨hcheckpoint, hrestore, hdigest⟩ := hworks.digests hchecksum
          simp [hcheckpoint, hrestore, hdigest] at hmissing
        · exact ⟨_, _, rfl, fun _ => rfl, fun _ => hmem, by omega⟩
      · rw [if_neg hchecksum]
        exact ⟨_, _, rfl, fun _ => rfl, fun _ => hmem, by omega⟩
  · rw [if_pos (by simpa using hstatus)]
    refine ⟨_, _, rfl, fun hworks => absurd hworks.parasite hstatus, by omega, fun _ => ?_⟩
    exact Or.inl (by simpa using hstatus)

/-- Every option at once: an encrypted dump of compressed blocks, with checksums. -/
def sealedConfig : Config where
  pageSize := 4
  algorithm := .lz4
  codecs := { lz4 := literalCodec, zstd := rawCodec }
  checksum := true

theorem wholeWrites (_ n : Nat) : WriteCall.whole ≠ .upTo n := by
  rintro ⟨⟩

def sealedStorage : Storage :=
  .cipherOn plainSecrets (fun _ => .whole) (fun _ => .whole) wholeWrites

def cleanScratch (_ : Nat) : Scratch := ⟨fun _ => 0, fun _ => 0, fun _ => 0, fun _ => 0⟩

/-- The header, the length of the block and the block, each padded to whole blocks. -/
def sealedFile : List Byte :=
  [4, 0, 0, 0, 0, 0, 0, 0, 4, 0, 0, 0, 0, 0, 0, 0, 20, 16, 16, 16, 16, 16, 16, 16, 20, 16, 16, 16,
    16, 16, 16, 16, 5, 0, 0, 0, 12, 12, 12, 12, 12, 12, 12, 12, 12, 12, 12, 12, 64, 4, 5, 6, 7,
    11, 11, 11, 11, 11, 11, 11, 11, 11, 11, 11]

theorem quietEnv_restoreWorks (hashed : List Byte) (hne : hashed ≠ []) :
    RestoreWorks sealedStorage sealedConfig quietEnv (fun _ => false) id hashed where
  parasite := rfl
  reaches := ⟨rfl, rfl, rfl⟩
  reads := fun _ => rfl
  sends := fun _ => rfl
  digests := fun _ => ⟨rfl, rfl, hne⟩

theorem stored_checkpoint_restores_sealed :
    ∃ d st,
      getTargetPagesVia sealedStorage.dumpWrite sealedConfig tinyEnv [tinyArea] UInt8.ofNat =
        .returns (0, d) ∧ d.writer.file = sealedFile ∧
      cmdRestoreVia sealedConfig quietEnv ⟨sealedStorage.dumpRead, fun _ => false, cleanScratch⟩
          id d.writer.hashed d.writer.file d.writer.dumpedVmSize = .returns (0, st) ∧
      cmdSetPages (memoryAfter 4 tinyEnv.table d) st.uploaded = UInt8.ofNat := by
  obtain ⟨d, hget, hfile, hhashed⟩ : ∃ d,
      getTargetPagesVia sealedStorage.dumpWrite sealedConfig tinyEnv [tinyArea] UInt8.ofNat =
        .returns (0, d) ∧ d.writer.file = sealedFile ∧ d.writer.hashed ≠ [] :=
    ⟨_, rfl, by decide +kernel, by decide +kernel⟩
  obtain ⟨ret, st, hrestore, hworks, hmem, -⟩ := stored_checkpoint_restores sealedStorage
    sealedConfig ⟨262144, rfl⟩ ⟨by decide, by decide⟩ [tinyArea] (List.pairwise_singleton _ _)
    tinyEnv (fun _ => rfl) UInt8.ofNat d hget quietEnv (fun _ => false) cleanScratch id
  obtain rfl := hworks (quietEnv_restoreWorks _ hhashed)
  exact ⟨d, st, hget, hfile, hrestore, hmem rfl⟩

end Memcr.CheckpointStorage
