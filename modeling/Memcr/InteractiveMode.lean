import Memcr.InjectionTrace
import Memcr.Protections
import Memcr.ThreadFreeze

/-!
A whole run of `user_interactive_mode` of memcr.c. The target is seized, the
parasite is injected, the pages go to the dump and come back from it, and the
parasite is removed. The dump is taken while the code of a blob and the words of
the signal mask lie in the memory of the target, so that it is not the dump that
has the memory as it was, but the dump and the saved context together.
-/

namespace Memcr.InteractiveMode

open Memcr.AddressWindows
open Memcr.BlobExecution
open Memcr.ByteMemory
open Memcr.ByteWords
open Memcr.CallOutcome
open Memcr.CheckpointMemory
open Memcr.DumpFormat
open Memcr.DumpRestore
open Memcr.InjectionTrace (Machine Parts Course Context NoTrace Succeeds WindowsApart mmapResult
  pagesOf)
open Memcr.Protections (ProtectedArea Protection Connection)
open Memcr.ThreadSeizure (TaskDir SeizeCalls seizeTarget)

/-- What the run meets: the kernel, the threads, the mappings, and the outcome of every
call of the two commands. -/
structure Setting (cfg : Config) where
  kernel : Kernel
  parts : Parts
  course : Course
  dir : TaskDir SeizeCalls
  scanned : Bool
  vmas : List (ProtectedArea cfg.pageSize)
  checkpointEnv : CheckpointEnv
  restoreEnv : RestoreEnv
  digest : List Byte → List Byte
  off : Connection
  on : Connection

/-- What a run of memcr leaves of the target. -/
structure Target where
  machine : Machine
  prot : Protection
  /-- The threads that memcr traces. -/
  attached : List Int
  killed : Bool

/-- The memory by plain addresses. -/
def natMemory (mem : BitVec 64 → Byte) : Memory := fun a =>
  if a < 2 ^ 64 then mem (BitVec.ofNat 64 a) else 0

def wordMemory (mem : Memory) : BitVec 64 → Byte := fun a => mem a.toNat

section Procedure

variable {cfg : Config} (set : Setting cfg)

/-- The course of the injection, without the two commands. -/
def Setting.injection : Course := { set.course with cmdCheckpoint := 0, cmdRestore := 0 }

/-- `execute_parasite_checkpoint` with `cmd_checkpoint`. -/
def executeParasiteCheckpoint (m : Machine) (prot : Protection) :
    Outcome (Int × Context × Machine × Protection × Writer) :=
  (InjectionTrace.executeParasiteCheckpoint set.kernel set.parts set.injection m).andThen
    fun (ret, ctx, m) =>
      if ret ≠ 0 then .returns (ret, ctx, m, prot, Writer.start)
      else
        (Protections.cmdCheckpoint cfg set.checkpointEnv set.scanned set.off set.vmas
          (natMemory m.mem) prot).andThen fun (ret, d, prot) =>
            let mem := memoryAfter cfg.pageSize set.checkpointEnv.table d
            .returns (ret, ctx, { m with mem := wordMemory mem }, prot, d.writer)

/-- `execute_parasite_restore` with `cmd_restore`. -/
def executeParasiteRestore (ctx : Context) (m : Machine) (prot : Protection) (w : Writer) :
    Outcome (Int × Machine × Protection) :=
  (Protections.cmdRestore cfg set.restoreEnv set.digest set.on set.vmas w prot).andThen
    fun (ret, st, prot) =>
      let m := { m with mem := wordMemory (cmdSetPages (natMemory m.mem) st.uploaded) }
      if ret ≠ 0 then .returns (ret, m, prot)
      else
        (InjectionTrace.executeParasiteRestore set.kernel set.parts set.injection ctx m).andThen
          fun (ret, m) => .returns (ret, m, prot)

/-- The end of `user_interactive_mode`: the target is killed if something failed, and
`unseize_target` lets the recorded threads go. -/
def finish (tids : List Int) (ret : Int) (m : Machine) (prot : Protection) : Int × Target :=
  (ret, ⟨m, prot, (ThreadSeizure.seized set.dir.reached).filter (· ∉ tids), ret ≠ 0⟩)

/-- `user_interactive_mode` -/
def userInteractiveMode (m : Machine) (prot : Protection) : Outcome (Int × Target) :=
  (seizeTarget set.dir).andThen fun (ret, tids) =>
    if ret ≠ 0 then .returns (ret, ⟨m, prot, ThreadSeizure.seized set.dir.reached, false⟩)
    else
      (executeParasiteCheckpoint set m prot).andThen fun (ret, ctx, m, prot, w) =>
        if ret ≠ 0 then .returns (finish set tids ret m prot)
        else
          (executeParasiteRestore set ctx m prot w).andThen fun (ret, m, prot) =>
            .returns (finish set tids ret m prot)

end Procedure

section Injection

variable {kernel : Kernel} {parts : Parts} {course : Course} {ctx : Context} {blob : Blob}
  {arg0 arg1 ret : BitVec 64} {m m' : Machine} {result : Int}

theorem syscall_calls (kernel : Kernel) (pageSize : BitVec 64) (blob : Blob) (m : Machine) :
    (InjectionTrace.syscall kernel pageSize blob m).2.calls = m.calls ++ [blob] := by
  cases blob with
  | sigprocmask | clone => rfl
  | mmap =>
      simp only [InjectionTrace.syscall]
      split <;> rfl
  | munmap =>
      simp only [InjectionTrace.syscall]
      split <;> rfl

theorem syscall_result (kernel : Kernel) (pageSize : BitVec 64) (hblob : blob ≠ .sigprocmask)
    (m : Machine) :
    (InjectionTrace.syscall kernel pageSize blob m).1 = kernel.result blob m.calls.length := by
  cases blob with
  | sigprocmask => exact absurd rfl hblob
  | clone => rfl
  | mmap =>
      simp only [InjectionTrace.syscall]
      split <;> rfl
  | munmap =>
      simp only [InjectionTrace.syscall]
      split <;> rfl

theorem executeBlob_returns
    (h : InjectionTrace.executeBlob kernel parts course blob ctx arg0 arg1 m =
      .returns (ret, m')) :
    m'.calls = m.calls ++ [blob] ∧
      (blob ≠ .sigprocmask → ret = kernel.result blob m.calls.length) := by
  rw [InjectionTrace.executeBlob_eq] at h
  cases h
  constructor
  · exact syscall_calls _ _ _ _
  · intro hblob
    exact syscall_result _ _ hblob _

theorem poke_calls {addr : BitVec 64} {src : List Byte}
    (h : InjectionTrace.poke addr src m = .returns m') : m'.calls = m.calls := by
  rw [InjectionTrace.poke] at h
  split at h
  · cases h
  · cases h
    rfl

theorem signalsBlock_calls {ctx' : Context}
    (h : InjectionTrace.signalsBlock kernel parts course ctx m = .returns (ctx', m')) :
    m'.calls = m.calls ++ [.sigprocmask] := by
  obtain ⟨m₁, hpoke, h⟩ := Outcome.andThen_eq_returns.mp h
  obtain ⟨⟨ret, m₂⟩, hblob, h⟩ := Outcome.andThen_eq_returns.mp h
  obtain ⟨old, -, h⟩ := Outcome.andThen_eq_returns.mp h
  split at h
  · cases h
  · cases h
    rw [(executeBlob_returns hblob).1, poke_calls hpoke]

theorem checkpoint_eq_zero
    (h : InjectionTrace.executeParasiteCheckpoint kernel parts course m = .returns (0, ctx, m')) :
    isErrValue (mmapResult kernel m) = false ∧
      kernel.result .clone (m.calls.length + 2) ≠ 0 ∧ m'.calls.length = m.calls.length + 3 := by
  obtain ⟨ctx₁, -, h⟩ := Outcome.andThen_eq_returns.mp h
  obtain ⟨⟨ctx₂, m₁⟩, hblock, h⟩ := Outcome.andThen_eq_returns.mp h
  obtain ⟨⟨base, m₂⟩, hmmap, h⟩ := Outcome.andThen_eq_returns.mp h
  obtain ⟨hcalls₂, hbase⟩ := executeBlob_returns hmmap
  have hcalls₁ := signalsBlock_calls hblock
  dsimp only at h
  split at h
  · obtain ⟨_, -, h⟩ := Outcome.andThen_eq_returns.mp h
    obtain ⟨_, -, h⟩ := Outcome.andThen_eq_returns.mp h
    cases h
  · rename_i hmaps
    obtain ⟨m₃, hpoke, h⟩ := Outcome.andThen_eq_returns.mp h
    obtain ⟨m₄, hargs, h⟩ := Outcome.andThen_eq_returns.mp h
    obtain ⟨⟨tid, m₅⟩, hclone, h⟩ := Outcome.andThen_eq_returns.mp h
    obtain ⟨hcalls₅, htid⟩ := executeBlob_returns hclone
    have hcalls₄ : m₄.calls.length = m.calls.length + 2 := by
      simp [poke_calls hargs, poke_calls hpoke, hcalls₂, hcalls₁]
    dsimp only at h
    split at h
    · cases h
    · rename_i hcloned
      rw [Outcome.returns.injEq, Prod.mk.injEq, Prod.mk.injEq] at h
      obtain ⟨-, -, rfl⟩ := h
      refine ⟨?_, ?_, ?_⟩
      · rw [mmapResult, ← Bool.not_eq_true]
        rwa [hbase (by decide), hcalls₁, List.length_append] at hmaps
      · rwa [htid (by decide), hcalls₄] at hcloned
      · change m₅.calls.length = _
        rw [hcalls₅, List.length_append, hcalls₄]
        rfl

theorem restore_eq_zero
    (h : InjectionTrace.executeParasiteRestore kernel parts course ctx m = .returns (0, m')) :
    course.cmdRestore = 0 ∧ course.parasiteSignaled = false ∧
      kernel.result .munmap m.calls.length = 0 := by
  simp only [InjectionTrace.executeParasiteRestore] at h
  split at h
  · rename_i hcmd
    rw [Outcome.returns.injEq, Prod.mk.injEq] at h
    exact absurd h.1 hcmd
  · rename_i hcmd
    split at h
    · cases h
    · rename_i hexits
      obtain ⟨⟨ret, m₁⟩, hunmap, h⟩ := Outcome.andThen_eq_returns.mp h
      have hret := (executeBlob_returns hunmap).2 (by decide)
      change ret = kernel.result .munmap m.calls.length at hret
      refine ⟨not_not.mp hcmd, Bool.not_eq_true _ ▸ hexits, ?_⟩
      dsimp only at h
      split at h
      · rename_i hfails
        -- an error code does not become 0 when it is cut to an `int`
        have herr := (kernel.munmap_result m.calls.length).resolve_left (hret ▸ hfails)
        rw [Outcome.returns.injEq, Prod.mk.injEq] at h
        exact absurd h.1 (ParasiteInjection.toCInt_ne_zero (hret ▸ herr))
      · rename_i hworks
        exact hret ▸ not_not.mp hworks

end Injection

section Commands

variable {cfg : Config} {env : CheckpointEnv} {restoreEnv : RestoreEnv}
  {digest : List Byte → List Byte} {vmas : List (ProtectedArea cfg.pageSize)} {scanned : Bool}
  {off on : Connection} {mem : Memory} {prot prot₁ prot₂ : Protection} {w : Writer}
  {d : Download} {st : Upload}

theorem wordMemory_natMemory (mem : BitVec 64 → Byte) : wordMemory (natMemory mem) = mem := by
  funext a
  rw [wordMemory, natMemory, if_pos a.isLt, BitVec.ofNat_toNat, BitVec.setWidth_eq]

theorem natMemory_wordMemory {a : Nat} (ha : a < 2 ^ 64) (mem : Memory) :
    natMemory (wordMemory mem) a = mem a := by
  rw [natMemory, if_pos ha, wordMemory, BitVec.toNat_ofNat, Nat.mod_eq_of_lt ha]

theorem getTargetPages_of_cmdCheckpoint
    (h : Protections.cmdCheckpoint cfg env scanned off vmas mem prot = .returns (0, d, prot₁)) :
    getTargetPages cfg env (vmas.map ProtectedArea.toVmArea) mem = .returns (0, d) := by
  rw [Protections.cmdCheckpoint] at h
  split at h
  · cases h
  · obtain ⟨_, -, hnext⟩ := Outcome.andThen_eq_returns.mp h
    obtain ⟨⟨ret, d'⟩, hget, hlast⟩ := Outcome.andThen_eq_returns.mp hnext
    dsimp only at hlast
    split_ifs at hlast with hret
    · cases hlast
      contradiction
    · cases hlast
      rw [hget, not_not.mp hret]

theorem cmdRestore_of_protections
    (h : Protections.cmdRestore cfg restoreEnv digest on vmas w prot₁ = .returns (0, st, prot₂)) :
    DumpRestore.cmdRestore cfg restoreEnv digest w.hashed w.file w.dumpedVmSize =
      .returns (0, st) := by
  obtain ⟨⟨ret, st'⟩, hcmd, hnext⟩ := Outcome.andThen_eq_returns.mp h
  dsimp only at hnext
  split_ifs at hnext with hret
  · cases hnext
    contradiction
  · obtain ⟨_, -, hlast⟩ := Outcome.andThen_eq_returns.mp hnext
    cases hlast
    rw [hcmd, not_not.mp hret]

theorem commands_keep_memory (hdvd : cfg.pageSize ∣ maxVmRegionSize)
    (hapart : vmas.Pairwise fun v w => Apart v.toVmArea w.toVmArea)
    (hreads : ∀ page, env.pagemapReads page = true) {mem : BitVec 64 → Byte}
    (hcheckpoint : Protections.cmdCheckpoint cfg env scanned off vmas (natMemory mem) prot =
      .returns (0, d, prot₁))
    (hrestore : Protections.cmdRestore cfg restoreEnv digest on vmas d.writer prot₁ =
      .returns (0, st, prot₂)) :
    wordMemory (cmdSetPages
      (natMemory (wordMemory (memoryAfter cfg.pageSize env.table d))) st.uploaded) = mem := by
  obtain ⟨regions, h⟩ := consistent_of_getTargetPages hreads hdvd
    (List.pairwise_map.mpr hapart) (getTargetPages_of_cmdCheckpoint hcheckpoint)
  have hloop := (DumpRestore.cmdRestore_zero (cmdRestore_of_protections hrestore)).1
  obtain ⟨ret, st', hwhole, hcases⟩ := uploadLoop_whole restoreEnv h.stored h.file h.size
  rw [hwhole] at hloop
  cases hloop
  have huploaded : st.uploaded = regions := by
    rcases hcases with ⟨hneg, -⟩ | ⟨-, huploaded, -⟩
    · omega
    · exact huploaded
  rw [huploaded, cmdSetPages_eq h.original, wordMemory_natMemory]
  intro a
  by_cases ha : a < 2 ^ 64
  · rw [natMemory_wordMemory ha]
    exact (h.carryOut d.outstanding.length).mem a
  · rw [natMemory, natMemory, if_neg ha, if_neg ha]
    exact Or.inl rfl

end Commands

section Runs

variable {cfg : Config} {set : Setting cfg} {m : Machine} {prot : Protection} {ret : Int}
  {tids : List Int} {t : Target}

theorem tids_of_seizeTarget {dir : TaskDir SeizeCalls} (h : seizeTarget dir = .returns (0, tids)) :
    tids = ThreadSeizure.seized dir.reached := by
  by_cases hopen : dir.found = true ∧ dir.openError = none
  · have hreached : dir.reached = ThreadSeizure.reached dir.entries := if_pos hopen
    rw [ThreadSeizure.seizeTarget_of_open hopen.1 hopen.2] at h
    split at h
    · cases h
    · split at h
      · cases h
      · rename_i hending
        cases h
        rw [hreached]
        refine (ThreadSeizure.seized_eq_stopped_of_ending hending ?_).symm
        intro thread hmem hseize hrounds
        rw [ThreadSeizure.ending_of_later_failure (-1) hmem hseize hrounds] at hending
        cases hending
  · obtain ⟨-, result, hresult, hreturns⟩ := ThreadSeizure.seizeTarget_of_not_open hopen
    rw [hreturns] at h
    cases h
    contradiction

/-- What the run may take for granted: the two places where memcr puts something do not
overlap, new pages lie where nothing was mapped, the parasite writes to its own memory
apart from the two commands, and the pagemap can be read. -/
structure Regular (set : Setting cfg) (m : Machine) : Prop where
  windows : WindowsApart set.parts set.course.pageSize m
  fresh : ∀ a, InWindow (mmapResult set.kernel m) (pagesOf set.course.pageSize set.parts.size) a →
    m.mapped a = false
  own : ∀ a ∈ set.course.written,
    InWindow (mmapResult set.kernel m) (pagesOf set.course.pageSize set.parts.size) a
  apart : set.vmas.Pairwise fun v w => Apart v.toVmArea w.toVmArea
  divides : cfg.pageSize ∣ maxVmRegionSize
  reads : ∀ page, set.checkpointEnv.pagemapReads page = true

theorem noTrace_of_injection (h : Regular set m) {ctx : Context} {m₁ m₂ : Machine}
    (hcheckpoint : InjectionTrace.executeParasiteCheckpoint set.kernel set.parts set.injection m =
      .returns (0, ctx, m₁))
    (hrestore : InjectionTrace.executeParasiteRestore set.kernel set.parts set.injection ctx m₁ =
      .returns (0, m₂)) : NoTrace [] m m₂ := by
  obtain ⟨hmaps, hclones, hcalls⟩ := checkpoint_eq_zero hcheckpoint
  obtain ⟨hcmd, hexits, hunmaps⟩ := restore_eq_zero hrestore
  rw [hcalls] at hunmaps
  have hsucceeds : Succeeds set.kernel set.parts set.injection m :=
    ⟨hmaps, h.fresh, hclones, hcmd, hexits, hunmaps⟩
  have hwindows : WindowsApart set.parts set.injection.pageSize m := h.windows
  obtain ⟨ctx', m₁', hcheckpoint', hblob, hunder⟩ :=
    InjectionTrace.checkpoint_underway hwindows hsucceeds
  rw [hcheckpoint] at hcheckpoint'
  cases hcheckpoint'
  obtain ⟨m₂', hrestore', htrace⟩ := hunder.restores hblob hsucceeds
  rw [hrestore] at hrestore'
  cases hrestore'
  exact ⟨htrace.regs, htrace.mask, htrace.mapped, fun a ha _ => htrace.mem a ha fun hwritten =>
    Bool.false_ne_true ((h.fresh a (h.own a hwritten)).symm.trans ha)⟩

theorem executeParasiteCheckpoint_zero {ctx : Context} {m₂ : Machine} {prot₁ : Protection}
    {w : Writer}
    (h : executeParasiteCheckpoint set m prot = .returns (0, ctx, m₂, prot₁, w)) :
    ∃ m₁ d, InjectionTrace.executeParasiteCheckpoint set.kernel set.parts set.injection m =
        .returns (0, ctx, m₁) ∧
      Protections.cmdCheckpoint cfg set.checkpointEnv set.scanned set.off set.vmas
        (natMemory m₁.mem) prot = .returns (0, d, prot₁) ∧
      m₂ = { m₁ with mem := wordMemory (memoryAfter cfg.pageSize set.checkpointEnv.table d) } ∧
      w = d.writer := by
  obtain ⟨⟨ret, ctx', m₁⟩, hinject, hnext⟩ := Outcome.andThen_eq_returns.mp h
  dsimp only at hnext
  split_ifs at hnext with hret
  · cases hnext
    contradiction
  · obtain ⟨⟨ret', d, prot'⟩, hcmd, hlast⟩ := Outcome.andThen_eq_returns.mp hnext
    cases hlast
    exact ⟨m₁, d, by rw [hinject, not_not.mp hret], hcmd, rfl, rfl⟩

theorem executeParasiteRestore_zero {ctx : Context} {m₂ : Machine} {prot₁ prot₂ : Protection}
    {w : Writer}
    (h : executeParasiteRestore set ctx m prot₁ w = .returns (0, m₂, prot₂)) :
    ∃ st, Protections.cmdRestore cfg set.restoreEnv set.digest set.on set.vmas w prot₁ =
        .returns (0, st, prot₂) ∧
      InjectionTrace.executeParasiteRestore set.kernel set.parts set.injection ctx
        { m with mem := wordMemory (cmdSetPages (natMemory m.mem) st.uploaded) } =
          .returns (0, m₂) := by
  obtain ⟨⟨ret, st, prot'⟩, hcmd, hnext⟩ := Outcome.andThen_eq_returns.mp h
  dsimp only at hnext
  split_ifs at hnext with hret
  · cases hnext
    contradiction
  · obtain ⟨⟨ret', m'⟩, hinject, hlast⟩ := Outcome.andThen_eq_returns.mp hnext
    cases hlast
    exact ⟨st, by rw [hcmd, not_not.mp hret], hinject⟩

theorem noTrace_of_commands (h : Regular set m) {ctx : Context} {m₁ m₂ : Machine}
    {prot₁ prot₂ : Protection} {w : Writer}
    (hcheckpoint : executeParasiteCheckpoint set m prot = .returns (0, ctx, m₁, prot₁, w))
    (hrestore : executeParasiteRestore set ctx m₁ prot₁ w = .returns (0, m₂, prot₂)) :
    NoTrace [] m m₂ := by
  obtain ⟨m', d, hinject, hcmd, rfl, rfl⟩ := executeParasiteCheckpoint_zero hcheckpoint
  obtain ⟨st, hcmd', hinject'⟩ := executeParasiteRestore_zero hrestore
  rw [commands_keep_memory h.divides h.apart h.reads hcmd hcmd'] at hinject'
  exact noTrace_of_injection h hinject hinject'

theorem protections_of_commands (h : Regular set m)
    (hrecorded : ∀ vma ∈ set.vmas, ∀ a, vma.Has a → prot a = vma.prot) {ctx : Context}
    {m₁ m₂ : Machine} {prot₁ prot₂ : Protection} {w : Writer}
    (hcheckpoint : executeParasiteCheckpoint set m prot = .returns (0, ctx, m₁, prot₁, w))
    (hrestore : executeParasiteRestore set ctx m₁ prot₁ w = .returns (0, m₂, prot₂))
    (hoff : set.off.cut ((Protections.narrow set.vmas).map
      (Protections.request Protections.widen)) = none)
    (hon : set.on.cut ((Protections.narrow set.vmas).map (Protections.request id)) = none)
    (hthrough : set.off.through (Protections.narrow set.vmas).length ≤
      set.on.through (Protections.narrow set.vmas).length) :
    ∀ vma ∈ set.vmas, ∀ a, vma.Has a → prot₂ a = vma.prot := by
  obtain ⟨m', d, -, hcmd, rfl, rfl⟩ := executeParasiteCheckpoint_zero hcheckpoint
  obtain ⟨st, hcmd', -⟩ := executeParasiteRestore_zero hrestore
  exact (Protections.restored_iff_through h.apart hrecorded hcmd hcmd' hoff hon).mpr hthrough

theorem protectTarget_outside {change : BitVec 64 → BitVec 64} {cd : Connection}
    {vmas : List (ProtectedArea cfg.pageSize)} {prot' : Protection}
    (h : Protections.protectTarget cfg.pageSize cd (Protections.sendProtections change cd vmas).2
      prot = .returns prot')
    (hcut : cd.cut ((Protections.narrow vmas).map (Protections.request change)) = none) {a : Nat}
    (houtside : ∀ vma ∈ vmas, ¬ vma.Has a) : prot' a = prot a := by
  rw [Protections.protectTarget_eq, hcut] at h
  cases h
  have hwhole : ∀ vma ∈ cd.arrived vmas, ¬ vma.Has a :=
    fun vma hvma => houtside vma (Protections.arrived_subset cd vma hvma)
  generalize cd.arrived vmas = whole at hwhole ⊢
  change (whole.map _).foldl _ prot a = prot a
  induction whole generalizing prot with
  | nil => rfl
  | cons vma rest ih =>
      rw [List.map_cons, List.foldl_cons, ih fun v hv => hwhole v (List.mem_cons_of_mem _ hv)]
      exact if_neg fun hcovers =>
        hwhole vma List.mem_cons_self (Protections.covers_request.mp hcovers)

/-- Both connections of a checkpoint and its restore end between two requests, and the
restore gets as far as the checkpoint did. -/
structure Connected (set : Setting cfg) : Prop where
  off : set.off.cut ((Protections.narrow set.vmas).map
    (Protections.request Protections.widen)) = none
  on : set.on.cut ((Protections.narrow set.vmas).map (Protections.request id)) = none
  through : set.off.through (Protections.narrow set.vmas).length ≤
    set.on.through (Protections.narrow set.vmas).length

theorem protections_kept (h : Regular set m) (hconnected : Connected set)
    (hrecorded : ∀ vma ∈ set.vmas, ∀ a, vma.Has a → prot a = vma.prot) {ctx : Context}
    {m₁ m₂ : Machine} {prot₁ prot₂ : Protection} {w : Writer}
    (hcheckpoint : executeParasiteCheckpoint set m prot = .returns (0, ctx, m₁, prot₁, w))
    (hrestore : executeParasiteRestore set ctx m₁ prot₁ w = .returns (0, m₂, prot₂)) :
    prot₂ = prot := by
  have hareas := protections_of_commands h hrecorded hcheckpoint hrestore hconnected.off
    hconnected.on hconnected.through
  obtain ⟨m', d, -, hcmd, -, -⟩ := executeParasiteCheckpoint_zero hcheckpoint
  obtain ⟨st, hcmd', -⟩ := executeParasiteRestore_zero hrestore
  funext a
  by_cases harea : ∃ vma ∈ set.vmas, vma.Has a
  · obtain ⟨vma, hvma, ha⟩ := harea
    exact (hareas vma hvma a ha).trans (hrecorded vma hvma a ha).symm
  · have houtside : ∀ vma ∈ set.vmas, ¬ vma.Has a := fun vma hvma ha => harea ⟨vma, hvma, ha⟩
    calc prot₂ a = prot₁ a :=
          protectTarget_outside (Protections.cmdRestore_zero hcmd') hconnected.on houtside
      _ = prot a :=
          protectTarget_outside (Protections.cmdCheckpoint_zero hcmd) hconnected.off houtside

theorem commands_return (h : Regular set m)
    (hsucceeds : Succeeds set.kernel set.parts set.injection m)
    (hcommands : ∀ mem, ∃ d prot₁ st prot₂,
      Protections.cmdCheckpoint cfg set.checkpointEnv set.scanned set.off set.vmas
        (natMemory mem) prot = .returns (0, d, prot₁) ∧
      Protections.cmdRestore cfg set.restoreEnv set.digest set.on set.vmas d.writer prot₁ =
        .returns (0, st, prot₂)) :
    ∃ ctx m₁ prot₁ w m₂ prot₂,
      executeParasiteCheckpoint set m prot = .returns (0, ctx, m₁, prot₁, w) ∧
      executeParasiteRestore set ctx m₁ prot₁ w = .returns (0, m₂, prot₂) := by
  have hwindows : WindowsApart set.parts set.injection.pageSize m := h.windows
  obtain ⟨ctx, m₁, hinject, hblob, hunder⟩ :=
    InjectionTrace.checkpoint_underway hwindows hsucceeds
  obtain ⟨m₂, hinject', -⟩ := hunder.restores hblob hsucceeds
  obtain ⟨d, prot₁, st, prot₂, hcmd, hcmd'⟩ := hcommands m₁.mem
  have hmem := commands_keep_memory h.divides h.apart h.reads hcmd hcmd'
  have hzero : set.injection.cmdCheckpoint = 0 := rfl
  refine ⟨ctx, { m₁ with mem := wordMemory (memoryAfter cfg.pageSize set.checkpointEnv.table d) },
    prot₁, d.writer, m₂, prot₂, ?_, ?_⟩
  · rw [executeParasiteCheckpoint, hinject]
    simp only [hzero, Outcome.returns_andThen, ne_eq, not_true_eq_false, if_false, hcmd]
  · rw [executeParasiteRestore, hcmd']
    simp only [Outcome.returns_andThen, ne_eq, not_true_eq_false, if_false, hmem, hinject']

end Runs

section Instance

/-- A process with one thread and a read-only mapping without pages. -/
def smallSetting : Setting (plainConfig false) where
  kernel := usr1Kernel
  parts := InjectionTrace.smallParts
  course := { InjectionTrace.smallCourse with
    checkpointWrites := [(0x7008, 1)], restoreWrites := [(0x7009, 2)] }
  dir := ThreadFreeze.listing 5 [("5".toList, ⟨.works, [.signal true, .eventStop true]⟩)]
  scanned := true
  vmas := [Protections.readOnlyArea]
  checkpointEnv := absentEnv true
  restoreEnv := quietEnv
  digest := id
  off := Protections.wholeConnection
  on := Protections.wholeConnection

section Small

variable {m : Machine}

theorem smallSetting_regular (hrip : m.regs.rip = InjectionTrace.smallMachine.regs.rip)
    (hrsp : m.regs.rsp = InjectionTrace.smallMachine.regs.rsp)
    (hmapped : m.mapped = InjectionTrace.smallMachine.mapped) : Regular smallSetting m where
  windows := by
    rw [WindowsApart, InjectionTrace.codeStart, InjectionTrace.stackStart, hrip, hrsp]
    exact InjectionTrace.smallMachine_windowsApart
  fresh := by
    rw [hmapped]
    exact InjectionTrace.smallMachine_succeeds.fresh
  own := by
    intro a ha
    have hwritten : a = 0x7008#64 ∨ a = 0x7009#64 := by
      simpa [Course.written, smallSetting] using ha
    change (a - 0x7000#64).toNat < 0x1000
    rcases hwritten with rfl | rfl <;> decide
  apart := List.pairwise_singleton _ _
  divides := ⟨256, rfl⟩
  reads := fun _ => rfl

theorem smallSetting_returns (hrip : m.regs.rip = InjectionTrace.smallMachine.regs.rip)
    (hrsp : m.regs.rsp = InjectionTrace.smallMachine.regs.rsp)
    (hmapped : m.mapped = InjectionTrace.smallMachine.mapped) (prot : Protection) :
    ∃ ctx m₁ prot₁ w m₂ prot₂,
      executeParasiteCheckpoint smallSetting m prot = .returns (0, ctx, m₁, prot₁, w) ∧
      executeParasiteRestore smallSetting ctx m₁ prot₁ w = .returns (0, m₂, prot₂) := by
  have hregular := smallSetting_regular hrip hrsp hmapped
  have hsmall := InjectionTrace.smallMachine_succeeds
  exact commands_return hregular ⟨hsmall.maps, hregular.fresh, hsmall.clones, rfl, rfl,
    hsmall.unmaps⟩ fun _ => ⟨_, _, _, _, rfl, rfl⟩

end Small

theorem smallSetting_recorded : ∀ vma ∈ smallSetting.vmas, ∀ a, vma.Has a →
    (fun _ => Protections.protRead : Protection) a = vma.prot := by
  intro vma hvma a _
  rw [List.mem_singleton.mp hvma]
  rfl

end Instance

end Memcr.InteractiveMode
