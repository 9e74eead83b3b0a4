import Memcr.InteractiveMode

namespace Memcr.IntResults

open Memcr.ByteMemory
open Memcr.ByteWords
open Memcr.CallOutcome
open Memcr.CallOutcome.Outcome
open Memcr.CheckpointMemory
open Memcr.DumpFormat
open Memcr.DumpRestore
open Memcr.InteractiveMode
open Memcr.PageSelection
open Memcr.Protections (ProtectedArea Protection Connection)
open Memcr.ThreadSeizure (TaskDir SeizeCalls seizeTarget)

variable {α : Type}

/-- No error code is below the values of an `int`. -/
def Above (r : Int × α) : Prop := -2 ^ 31 ≤ r.1

/-- The result is a value of an `int`. -/
def Fits (r : Int × α) : Prop := -2 ^ 31 ≤ r.1 ∧ r.1 < 2 ^ 31

theorem Above.fits {r : Int × α} (h : Above r) (hle : r.1 ≤ 1) : Fits r :=
  ⟨h, by omega⟩

theorem above_of_neg_one_le {ret : Int} {s : α} (h : -1 ≤ ret) : Above (ret, s) := by
  change -2 ^ 31 ≤ ret
  omega

theorem above_toInt32 (n : Nat) (s : α) : Above (toInt32 n, s) :=
  BitVec.le_toInt _

theorem fits_toCInt (ret : BitVec 64) (s : α) : Fits (ParasiteInjection.toCInt ret, s) :=
  ⟨BitVec.le_toInt _, BitVec.toInt_lt⟩

theorem fits_small {ret : Int} (s : α) (hlow : -1 ≤ ret) (hhigh : ret ≤ 1) : Fits (ret, s) := by
  constructor <;> dsimp only <;> omega

theorem yields_failure (s : α) : (returns ((-1 : Int), s)).Yields Above :=
  yields_returns (above_of_neg_one_le le_rfl)

theorem yields_small {ret : Int} (s : α) (hlow : -1 ≤ ret) (hhigh : ret ≤ 1) :
    (returns (ret, s)).Yields Fits :=
  yields_returns (fits_small s hlow hhigh)

theorem Fits.ofInt_eq_zero {r : Int × α} (h : Fits r) : BitVec.ofInt 32 r.1 = 0#32 ↔ r.1 = 0 := by
  constructor
  · intro hzero
    have hround := BitVec.toInt_ofInt_eq_self (w := 32) (by decide) h.1 h.2
    rw [hzero] at hround
    exact hround.symm
  · intro hzero
    rw [hzero]
    rfl

section Regions

variable {cfg : Config}

theorem compressWrite_above (io : Nat → Option Nat) (codecs : Codecs) (algorithm : Algorithm)
    (src : List Byte) (w : Writer) : (compressWrite io codecs algorithm src w).Yields Above := by
  have hcodec : ∀ codec, (codecWrite io codec src w).Yields Above := by
    intro codec
    rw [codecWrite]
    split
    · exact yields_failure _
    · refine yields_andThen ?_
      rintro ⟨ok, w⟩
      dsimp only
      split
      · refine yields_andThen ?_
        rintro ⟨ok, w⟩
        dsimp only
        split
        · exact yields_returns (above_toInt32 _ _)
        · exact yields_failure _
      · exact yields_failure _
  cases algorithm with
  | plain =>
      refine yields_andThen ?_
      rintro ⟨ok, w⟩
      dsimp only
      split
      · exact yields_returns (above_toInt32 _ _)
      · exact yields_failure _
  | lz4 => exact hcodec _
  | zstd => exact hcodec _

theorem writeVmRegion_above (io : Nat → Option Nat) (region : Region) (w : Writer) :
    (writeVmRegion cfg io region w).Yields Above := by
  rw [writeVmRegion]
  split
  · exact yields_failure _
  · refine yields_andThen ?_
    rintro ⟨ok, w⟩
    dsimp only
    split
    · exact yields_failure _
    · refine (compressWrite_above _ _ _ _ _).andThen ?_
      rintro ⟨ret, w⟩ habove
      dsimp only
      split
      · exact yields_returns habove
      · split <;> exact yields_returns habove

theorem writeDownload_above (env : CheckpointEnv) (region : Region) (d : Download) :
    (writeDownload cfg env region d).Yields Above := by
  refine (writeVmRegion_above _ _ _).andThen ?_
  rintro ⟨ret, w⟩ habove
  exact yields_returns habove

theorem getVmRegion_above (env : CheckpointEnv) (addr len : Nat) (d : Download) :
    (getVmRegion cfg env addr len d).Yields Above := by
  rw [getVmRegion, fetchVmRegion]
  split
  · split
    · exact yields_failure _
    · split
      · exact yields_overruns
      · dsimp only
        split
        · exact yields_failure _
        · exact writeDownload_above _ _ _
  · split
    · exact yields_failure _
    · dsimp only
      split
      · exact yields_failure _
      · split
        · exact yields_overruns
        · exact writeDownload_above _ _ _

theorem pageLoop_fits {σ : Type} {ops : RegionOps σ} {visit : Nat → Nat → Nat → Visit}
    (hget : ∀ start length s, (ops.getVmRegion start length s).Yields Above)
    (hfree : ∀ start length s, (ops.freeVmRegion start length s).Yields Fits)
    (left idx start length : Nat) (s : σ) :
    (pageLoop ops visit left idx start length s).Yields Fits := by
  induction left generalizing idx start length s with
  | zero => exact yields_small _ (by decide) (by decide)
  | succ left ih =>
      rw [pageLoop]
      split
      · exact ih _ _ _ _
      · refine (hget _ _ _).andThen ?_
        rintro ⟨ret, s⟩ habove
        dsimp only
        split
        · rename_i hle
          exact yields_returns (habove.fits (hle.trans (by decide)))
        · exact ih _ _ _ _
      · refine (hfree _ _ _).andThen ?_
        rintro ⟨ret, s⟩ hfits
        dsimp only
        split
        · exact yields_returns hfits
        · exact ih _ _ _ _

theorem getVmaPages_fits (env : CheckpointEnv) (vma : VmArea cfg.pageSize) (d : Download) :
    (getVmaPages cfg env vma d).Yields Fits := by
  have hfree : ∀ start length s, ((regionOps cfg env).freeVmRegion start length s).Yields Fits := by
    intro start length s
    change (freeVmRegion env start length s).Yields Fits
    rw [freeVmRegion]
    split
    · exact yields_small _ (by decide) (by decide)
    · exact yields_small _ (by decide) (by decide)
  rw [getVmaPages, vmaPages]
  split
  · split
    · exact yields_small _ (by decide) (by decide)
    · exact pageLoop_fits (getVmRegion_above env) hfree _ _ _ _ _
  · split
    · exact yields_small _ (by decide) (by decide)
    · exact pageLoop_fits (getVmRegion_above env) hfree _ _ _ _ _

theorem getTargetPages_fits (env : CheckpointEnv) (vmas : List (VmArea cfg.pageSize))
    (mem : Memory) : (getTargetPages cfg env vmas mem).Yields Fits := by
  have hloop : ∀ idx d,
      (mappingLoop (getVmaPages cfg env) env.aborted idx vmas d).Yields Fits := by
    induction vmas with
    | nil => exact fun idx d => yields_small _ (by decide) (by decide)
    | cons vma rest ih =>
        intro idx d
        rw [mappingLoop]
        split
        · exact yields_small _ (by decide) (by decide)
        · refine (getVmaPages_fits env vma d).andThen ?_
          rintro ⟨ret, d⟩ hfits
          dsimp only
          split
          · exact yields_returns hfits
          · exact ih _ _
  rw [getTargetPages, targetPages]
  split_ifs
  all_goals first
    | exact hloop _ _
    | exact yields_small _ (by decide) (by decide)

theorem dumpRead_above (fails : Nat → Bool) (capacity count : Nat) (r : Reader) :
    (dumpRead fails capacity count r).Yields Above := by
  rw [dumpRead]
  split_ifs
  · exact yields_aborts
  · exact yields_failure _
  · exact yields_overruns
  · exact yields_returns (above_of_neg_one_le (by omega))
  · exact yields_returns (above_of_neg_one_le (by decide))

theorem compressRead_above (fails : Nat → Bool) (codecs : Codecs) (algorithm : Algorithm)
    (len : Nat) (buf : Memory) (r : Reader) :
    (compressRead fails codecs algorithm len buf r).Yields Above := by
  have hcodec : ∀ codec decoder,
      (codecRead fails codec decoder len buf r).Yields Above := by
    intro codec decoder
    refine yields_andThen ?_
    rintro ⟨ret, word, r⟩
    dsimp only
    split
    · exact yields_failure _
    · split
      · exact yields_failure _
      · refine yields_andThen ?_
        rintro ⟨ret, src, r⟩
        dsimp only
        split
        · exact yields_failure _
        · rw [decodeBlock]
          split
          · exact yields_overruns
          · split
            · exact yields_failure _
            · exact yields_returns (above_toInt32 _ _)
  cases algorithm with
  | plain =>
      refine (dumpRead_above _ _ _ _).andThen ?_
      rintro ⟨ret, bytes, r⟩ habove
      dsimp only
      split
      · exact yields_failure _
      · exact yields_returns habove
  | lz4 => exact hcodec _ _
  | zstd => exact hcodec _ _

theorem readVmRegion_above (fails : Nat → Bool) (buf : Memory) (r : Reader) :
    (readVmRegion cfg fails buf r).Yields Above := by
  refine (dumpRead_above _ _ _ _).andThen ?_
  rintro ⟨ret, header, r⟩ habove
  dsimp only
  split
  · exact yields_returns habove
  · split
    · exact yields_failure _
    · split
      · exact yields_failure _
      · refine (compressRead_above _ _ _ _ _ _).andThen ?_
        rintro ⟨ret, buf, r⟩ habove
        dsimp only
        split
        · exact yields_returns habove
        · split
          · split
            · exact yields_overruns
            · exact yields_returns habove
          · exact yields_returns habove

theorem uploadLoop_fits (env : RestoreEnv) (rounds : Nat) (st : Upload) :
    (uploadLoop cfg env rounds st).Yields Fits := by
  induction rounds generalizing st with
  | zero => exact yields_hangs
  | succ rounds ih =>
      refine (readVmRegion_above _ _ _).andThen ?_
      rintro ⟨ret, vmr, buf, reader⟩ habove
      dsimp only
      split
      · rename_i hle
        exact yields_returns ⟨habove, by dsimp only at hle ⊢; omega⟩
      · split
        · exact yields_small _ (by decide) (by decide)
        · split
          · exact yields_overruns
          · split
            · exact yields_small _ (by decide) (by decide)
            · exact ih _

theorem cmdRestore_fits (env : RestoreEnv) (digest : List Byte → List Byte)
    (hashed file : List Byte) (size : Nat) :
    (DumpRestore.cmdRestore cfg env digest hashed file size).Yields Fits := by
  have hset : (targetSetPages cfg env file size).Yields Fits := by
    rw [targetSetPages]
    split_ifs
    all_goals first
      | exact uploadLoop_fits _ _ _
      | exact yields_small _ (by decide) (by decide)
  rw [DumpRestore.cmdRestore]
  split
  · exact yields_small _ (by decide) (by decide)
  · refine hset.andThen ?_
    rintro ⟨ret, st⟩ hfits
    dsimp only
    split_ifs
    · exact yields_returns hfits
    all_goals exact yields_small _ (by decide) (by decide)

end Regions

section Procedures

variable {cfg : Config} {set : Setting cfg}

theorem iterateLoop_fits {ε σ : Type} {callback : Int → ε → σ → Outcome (Int × σ)}
    (hcallback : ∀ tid calls s, (callback tid calls s).Yields Fits) (pid : Int) (skipSelf : Bool)
    (limit nrThreads : Nat) (entries : List (List Char × ε)) {ret : Int} (s : σ)
    (hlow : -1 ≤ ret) (hhigh : ret ≤ 1) :
    (ThreadSeizure.iterateLoop pid skipSelf limit nrThreads callback entries ret s).Yields
      Fits := by
  induction entries generalizing ret s with
  | nil => exact yields_small _ hlow hhigh
  | cons entry rest ih =>
      obtain ⟨name, calls⟩ := entry
      rw [ThreadSeizure.iterateLoop]
      split
      · exact ih _ (by decide) (by decide)
      · split_ifs
        · exact yields_returns ⟨by simp, by simp⟩
        · exact ih _ (by decide) (by decide)
        · refine (hcallback _ _ _).andThen ?_
          rintro ⟨ret, s⟩ hfits
          dsimp only
          split
          · exact yields_returns hfits
          · rename_i hzero
            rw [not_not.mp hzero]
            exact ih _ (by decide) (by decide)

theorem seizePid_fits (pid : Int) (calls : SeizeCalls) (tids : List Int) :
    (ThreadSeizure.seizePid pid calls tids).Yields Fits := by
  rw [ThreadSeizure.seizePid]
  split
  · exact yields_small _ (by decide) (by decide)
  · exact yields_small _ (by decide) (by decide)
  · split
    · exact yields_hangs
    · rename_i ret hrounds
      split_ifs
      · rcases ThreadSeizure.seizeRounds_eq hrounds with rfl | rfl
        all_goals exact yields_small _ (by decide) (by decide)
      · exact yields_overruns
      · exact yields_small _ (by decide) (by decide)

theorem seizeTarget_fits {dir : TaskDir SeizeCalls}
    (herrno : ∀ err ∈ dir.openError, err < 2 ^ 31) : (seizeTarget dir).Yields Fits := by
  have hiterate : (ThreadSeizure.iteratePstree dir false ThreadSeizure.maxThreads
      ThreadSeizure.seizePid []).Yields Fits := by
    rw [ThreadSeizure.iteratePstree]
    split
    · rename_i err hopen
      have hlt := herrno err hopen
      exact yields_returns ⟨by dsimp only; omega, by dsimp only; omega⟩
    · exact iterateLoop_fits seizePid_fits _ _ _ _ _ _ (by decide) (by decide)
  rw [seizeTarget]
  split
  · exact yields_small _ (by decide) (by decide)
  · refine hiterate.andThen ?_
    rintro ⟨ret, tids⟩ hfits
    dsimp only
    split
    · exact yields_returns hfits
    · exact yields_small _ (by decide) (by decide)

theorem executeParasiteCheckpoint_fits (m : InjectionTrace.Machine) (prot : Protection) :
    (executeParasiteCheckpoint set m prot).Yields Fits := by
  have hinjection : (InjectionTrace.executeParasiteCheckpoint set.kernel set.parts set.injection
      m).Yields Fits := by
    refine yields_andThen fun ctx => yields_andThen ?_
    rintro ⟨ctx, m⟩
    refine yields_andThen ?_
    rintro ⟨ret, m⟩
    dsimp only
    split
    · refine yields_andThen ?_
      rintro ⟨_, m⟩
      exact yields_andThen fun m => yields_small _ (by decide) (by decide)
    · refine yields_andThen fun m => yields_andThen fun m => yields_andThen ?_
      rintro ⟨cloneRet, m⟩
      dsimp only
      split
      · exact yields_aborts
      · have hzero : set.injection.cmdCheckpoint = 0 := rfl
        rw [hzero]
        exact yields_small _ (by decide) (by decide)
  have hcommand : ∀ mem, (Protections.cmdCheckpoint cfg set.checkpointEnv set.scanned set.off
      set.vmas mem prot).Yields Fits := by
    intro mem
    rw [Protections.cmdCheckpoint]
    split
    · exact yields_small _ (by decide) (by decide)
    · refine yields_andThen fun prot => (getTargetPages_fits _ _ _).andThen ?_
      rintro ⟨ret, d⟩ hfits
      dsimp only
      split
      · exact yields_returns hfits
      · exact yields_small _ (by decide) (by decide)
  refine hinjection.andThen ?_
  rintro ⟨ret, ctx, m⟩ hfits
  dsimp only
  split
  · exact yields_returns hfits
  · refine (hcommand _).andThen ?_
    rintro ⟨ret, d, prot⟩ hfits
    exact yields_returns hfits

theorem executeParasiteRestore_fits (ctx : InjectionTrace.Context) (m : InjectionTrace.Machine)
    (prot : Protection) (w : Writer) :
    (executeParasiteRestore set ctx m prot w).Yields Fits := by
  have hinjection : ∀ m, (InjectionTrace.executeParasiteRestore set.kernel set.parts
      set.injection ctx m).Yields Fits := by
    intro m
    rw [InjectionTrace.executeParasiteRestore]
    split_ifs
    · exact absurd rfl ‹set.injection.cmdRestore ≠ 0›
    · exact yields_small _ (by decide) (by decide)
    · refine yields_andThen ?_
      rintro ⟨ret, m⟩
      dsimp only
      split
      · exact yields_returns (fits_toCInt _ _)
      · refine yields_andThen ?_
        rintro ⟨ret, m⟩
        dsimp only
        split
        · exact yields_returns (fits_toCInt _ _)
        · exact yields_andThen fun m => yields_small _ (by decide) (by decide)
  have hcommand : (Protections.cmdRestore cfg set.restoreEnv set.digest set.on set.vmas w
      prot).Yields Fits := by
    refine (cmdRestore_fits _ _ _ _ _).andThen ?_
    rintro ⟨ret, st⟩ hfits
    dsimp only
    split
    · exact yields_returns hfits
    · exact yields_andThen fun prot => yields_small _ (by decide) (by decide)
  refine hcommand.andThen ?_
  rintro ⟨ret, st, prot⟩ hfits
  dsimp only
  split
  · exact yields_returns hfits
  · refine (hinjection _).andThen ?_
    rintro ⟨ret, m⟩ hfits
    exact yields_returns hfits

end Procedures

end Memcr.IntResults
