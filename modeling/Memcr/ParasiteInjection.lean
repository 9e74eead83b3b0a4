import Memcr.BlobExecution

namespace Memcr.ParasiteInjection

open Memcr.CallOutcome
open Memcr.BlobExecution

/-- The signal can stop a target with the given mask. No mask of the kernel
holds `SIGSTOP`, so that one always can. -/
def MayInterrupt (sig : Nat) (mask : SigMask) : Prop :=
  mask.val.getLsbD (sig - 1) = false

instance (sig : Nat) (mask : SigMask) : Decidable (MayInterrupt sig mask) :=
  inferInstanceAs (Decidable (_ = _))

/-- The fields of `struct target_context` that the blobs depend on. -/
structure Context where
  pc : BitVec 64
  sp : BitVec 64
  /-- The first word of `stack`. -/
  stack : BitVec 64
  sigset : BitVec 64
  blob : BitVec 64

/-- The stops of each blob, and how the rest of the procedure goes. -/
structure Injection where
  pageSize : BitVec 64
  parasiteSize : BitVec 64
  block : List Stop
  mmap : List Stop
  clone : List Stop
  munmap : List Stop
  unblock : List Stop
  cmdCheckpoint : Int
  cmdRestore : Int
  /-- The parasite was terminated by a signal. -/
  parasiteSignaled : Bool

/-- `ctx_save` -/
def ctxSave (inj : Injection) (t : Target) : Context where
  pc := t.regs.rip &&& ~~~(inj.pageSize - 1)
  sp := t.regs.rsp - 128
  stack := t.slot
  sigset := 0
  blob := 0

/-- `ctx_restore` -/
def ctxRestore (ctx : Context) (t : Target) : Target :=
  { t with slot := ctx.stack }

/-- `signals_block` -/
def signalsBlock (kernel : Kernel) (script : List Stop) (ctx : Context) (t : Target) :
    Outcome (Context × Target × List Delivery) :=
  (executeBlob kernel .sigprocmask ctx.pc ctx.sp 0 script
    { t with slot := BitVec.allOnes 64 }).andThen fun (ret, t, deliveries) =>
      if ret ≠ 0#64 then .aborts
      else .returns ({ ctx with sigset := t.slot }, t, deliveries)

/-- `signals_unblock` -/
def signalsUnblock (kernel : Kernel) (script : List Stop) (ctx : Context) (t : Target) :
    Outcome (BitVec 64 × Target × List Delivery) :=
  executeBlob kernel .sigprocmask ctx.pc ctx.sp 0 script { t with slot := ctx.sigset }

/-- An `unsigned long` returned from a function of type `int`. -/
def toCInt (ret : BitVec 64) : Int := (ret.setWidth 32).toInt

/-- `execute_parasite_checkpoint`. With the target gone there is no parasite to
talk to and `cmd_checkpoint` fails. -/
def executeParasiteCheckpoint (kernel : Kernel) (inj : Injection) (t : Target) :
    Outcome (Int × Context × Target × List Delivery) :=
  (signalsBlock kernel inj.block (ctxSave inj t) t).andThen fun (ctx, t, blocking) =>
    (executeBlob kernel .mmap ctx.pc inj.parasiteSize 0 inj.mmap t).andThen
      fun (ret, t, mapping) =>
        if isErrValue ret then
          (signalsUnblock kernel inj.unblock ctx t).andThen fun (_, t, unblocking) =>
            .returns (-1, ctx, ctxRestore ctx t, blocking ++ mapping ++ unblocking)
        else
          (executeBlob kernel .clone ctx.pc ret 0 inj.clone t).andThen
            fun (cloneRet, t, cloning) =>
              if cloneRet = 0#64 then .aborts
              else
                .returns (if t.alive then inj.cmdCheckpoint else 1, { ctx with blob := ret }, t,
                  blocking ++ mapping ++ cloning)

/-- `execute_parasite_restore` -/
def executeParasiteRestore (kernel : Kernel) (inj : Injection) (ctx : Context) (t : Target) :
    Outcome (Int × Target × List Delivery) :=
  if inj.cmdRestore ≠ 0 then .returns (inj.cmdRestore, t, [])
  else if inj.parasiteSignaled then .returns (1, t, [])
  else
    (executeBlob kernel .munmap ctx.pc ctx.blob inj.parasiteSize inj.munmap t).andThen
      fun (ret, t, unmapping) =>
        if ret ≠ 0#64 then .returns (toCInt ret, t, unmapping)
        else
          (signalsUnblock kernel inj.unblock ctx t).andThen fun (ret, t, unblocking) =>
            if ret ≠ 0#64 then .returns (toCInt ret, t, unmapping ++ unblocking)
            else .returns (0, ctxRestore ctx t, unmapping ++ unblocking)

/-- How often a blob's system call runs: once, and once more for every stop
behind it. -/
def executions (script : List Stop) : Nat :=
  1 + (script.filter Stop.afterSyscall).length

/-- The mask in force when the last `rt_sigprocmask` of a script runs, if every
run of it installs `installed`. -/
def maskBefore (kernel : Kernel) (installed : SigMask) : List Stop → SigMask → SigMask
  | [], m => m
  | stop :: rest, m =>
      maskBefore kernel installed rest
        ((stop.signals.filterMap kernel.handler).foldl (· ⊔ ·)
          (if stop.afterSyscall then installed else m))

section Blobs

variable {kernel : Kernel} {pc arg0 arg1 ret stack : BitVec 64} {savedRegs : Registers}
  {script : List Stop} {t u : Target} {deliveries : List Delivery}

theorem blobLoop_calls {blob : Blob} (hblob : blob ≠ .sigprocmask)
    (h : blobLoop kernel blob pc arg0 arg1 savedRegs stack script t = (ret, u, deliveries))
    (halive : u.alive = true) :
    u.calls = t.calls ++ List.replicate (executions script) blob ∧
      ∃ n, ret = kernel.result blob n := by
  have hcall : ∀ t : Target, syscall kernel blob t =
      (kernel.result blob t.calls.length, { t with calls := t.calls ++ [blob] }) := by
    intro t
    cases blob <;> first | exact absurd rfl hblob | rfl
  induction script generalizing t deliveries with
  | nil =>
      simp only [blobLoop, hcall] at h
      cases h
      exact ⟨by simp [executions], _, rfl⟩
  | cons stop rest ih =>
      obtain ⟨v, first, more, hdeliver, hlives, hnext, -⟩ := blobLoop_cons_of_alive h halive
      obtain ⟨hcalls, hret⟩ := ih hnext
      obtain ⟨-, -, -, hv⟩ := deliverSignals_of_alive hdeliver hlives
      refine ⟨?_, hret⟩
      rw [hcalls, hv]
      cases hafter : stop.afterSyscall <;>
        simp [runToStop, hafter, hcall, executions, List.replicate_add, Nat.add_comm]

/-- The `sigprocmask` blob installs the mask in its slot, whatever interrupts
it, and the mask it reports is the one in force before its last run. -/
theorem blobLoop_sigprocmask
    (h : blobLoop kernel .sigprocmask pc arg0 arg1 savedRegs stack script t =
      (ret, u, deliveries)) (halive : u.alive = true) (hslot : t.slot = stack) :
    ret = 0#64 ∧ u.mask = SigMask.ofBits stack ∧
      u.slot = (maskBefore kernel (SigMask.ofBits stack) script t.mask).val ∧
      u.calls = t.calls ++ List.replicate (executions script) .sigprocmask := by
  induction script generalizing t deliveries with
  | nil =>
      cases h
      simp [hslot, maskBefore, executions]
  | cons stop rest ih =>
      obtain ⟨v, first, more, hdeliver, hlives, hnext, -⟩ := blobLoop_cons_of_alive h halive
      obtain ⟨hret, hmask, hreported, hcalls⟩ := ih hnext rfl
      obtain ⟨-, hv, -, hvcalls⟩ := deliverSignals_of_alive hdeliver hlives
      refine ⟨hret, hmask, ?_, ?_⟩
      · rw [hreported, maskBefore, hv]
        cases hafter : stop.afterSyscall <;> simp [runToStop, hafter, syscall, hslot]
      · rw [hcalls, hvcalls]
        cases hafter : stop.afterSyscall <;>
          simp [runToStop, hafter, syscall, executions, List.replicate_add, Nat.add_comm]

theorem blobLoop_dead {blob : Blob}
    (h : blobLoop kernel blob pc arg0 arg1 savedRegs stack script t = (ret, u, deliveries))
    (halive : t.alive = true) (hdead : u.alive = false) : ret = -1#64 := by
  induction script generalizing t deliveries with
  | nil =>
      cases h
      cases blob <;> simp [halive] at hdead
  | cons stop rest ih =>
      simp only [blobLoop] at h
      split at h
      · cases h
        rfl
      · rename_i hlives
        cases h
        exact ih rfl (by simpa using hlives)

theorem executeBlob_eq_returns {blob : Blob}
    (h : executeBlob kernel blob pc arg0 arg1 script t = .returns (ret, u, deliveries)) :
    t.alive = true ∧
      blobLoop kernel blob pc arg0 arg1 t.regs t.slot script t = (ret, u, deliveries) := by
  simp only [executeBlob] at h
  split at h
  · cases h
  · rename_i hlives
    exact ⟨by simpa using hlives, Outcome.returns.inj h⟩

end Blobs

theorem toCInt_ne_zero {ret : BitVec 64} (hret : isErrValue ret = true) : toCInt ret ≠ 0 := by
  simp only [isErrValue, decide_eq_true_eq] at hret
  have hlt := ret.isLt
  intro hzero
  have hbits : (ret.setWidth 32).toNat = 0 := by
    rw [toCInt, ← BitVec.toInt_zero (w := 32)] at hzero
    rw [BitVec.toInt_inj.mp hzero]
    rfl
  rw [BitVec.toNat_setWidth] at hbits
  omega

theorem le_maskBefore (kernel : Kernel) (script : List Stop) (m : SigMask) :
    m ≤ maskBefore kernel SigMask.full script m := by
  induction script generalizing m with
  | nil => exact le_rfl
  | cons stop rest ih =>
      refine le_trans ?_ (ih _)
      refine le_trans ?_ (SigMask.le_foldl_sup _ _)
      split
      · exact m.le_full
      · exact le_rfl

/-- The block of signals reports the mask it found exactly when no stop behind
the system call had already replaced it and no handler had added to it. -/
theorem maskBefore_full_eq_iff (kernel : Kernel) (script : List Stop) (m : SigMask) :
    maskBefore kernel SigMask.full script m = m ↔
      (∀ stop ∈ script, stop.afterSyscall = true → m = SigMask.full) ∧
        ∀ sig ∈ script.flatMap Stop.signals, ∀ added ∈ kernel.handler sig, added ≤ m := by
  induction script generalizing m with
  | nil => simp [maskBefore]
  | cons stop rest ih =>
      rw [maskBefore]
      constructor
      · intro h
        have hgrown : (stop.signals.filterMap kernel.handler).foldl (· ⊔ ·)
            (if stop.afterSyscall = true then SigMask.full else m) = m :=
          le_antisymm (le_trans (le_maskBefore kernel rest _) h.le) (by
            refine le_trans ?_ (SigMask.le_foldl_sup _ _)
            split
            · exact m.le_full
            · exact le_rfl)
        rw [hgrown] at h
        obtain ⟨hafter, hadded⟩ := (ih m).mp h
        have hstop : stop.afterSyscall = true → m = SigMask.full := by
          intro hcalled
          rw [if_pos hcalled] at hgrown
          exact le_antisymm m.le_full (le_trans (SigMask.le_foldl_sup _ _) hgrown.le)
        have hbase : (if stop.afterSyscall = true then SigMask.full else m) = m := by
          split
          · rename_i hcalled
            exact (hstop hcalled).symm
          · rfl
        rw [hbase, SigMask.foldl_sup_eq_iff] at hgrown
        refine ⟨List.forall_mem_cons.mpr ⟨hstop, hafter⟩, ?_⟩
        intro sig hsig added hhandler
        rcases List.mem_append.mp hsig with hsig | hsig
        · exact hgrown added (List.mem_filterMap.mpr ⟨sig, hsig, hhandler⟩)
        · exact hadded sig hsig added hhandler
      · rintro ⟨hafter, hadded⟩
        obtain ⟨hstop, hrest⟩ := List.forall_mem_cons.mp hafter
        have hbase : (if stop.afterSyscall = true then SigMask.full else m) = m := by
          split
          · rename_i hcalled
            exact (hstop hcalled).symm
          · rfl
        have hgrown : (stop.signals.filterMap kernel.handler).foldl (· ⊔ ·) m = m := by
          rw [SigMask.foldl_sup_eq_iff]
          intro added hmem
          obtain ⟨sig, hsig, hhandler⟩ := List.mem_filterMap.mp hmem
          exact hadded sig (List.mem_append_left _ hsig) added hhandler
        rw [hbase, hgrown, ih]
        exact ⟨hrest, fun sig hsig => hadded sig (List.mem_append_right _ hsig)⟩

theorem executeParasiteCheckpoint_zero {kernel : Kernel} {inj : Injection} {t t₁ : Target}
    {ctx : Context} {deliveries : List Delivery}
    (h : executeParasiteCheckpoint kernel inj t = .returns (0, ctx, t₁, deliveries)) :
    ctx.sigset = (maskBefore kernel SigMask.full inj.block t.mask).val ∧
      t₁.calls = t.calls ++ List.replicate (executions inj.block) .sigprocmask ++
        List.replicate (executions inj.mmap) .mmap ++
        List.replicate (executions inj.clone) .clone := by
  obtain ⟨⟨ctx₀, tb, blocking⟩, hblock, h⟩ := Outcome.andThen_eq_returns.mp h
  obtain ⟨⟨code, u, ds⟩, hblob, hnext⟩ := Outcome.andThen_eq_returns.mp hblock
  simp only at h hnext
  split at hnext
  · cases hnext
  · cases hnext
    obtain ⟨⟨ret, tm, mapping⟩, hmmap, h⟩ := Outcome.andThen_eq_returns.mp h
    obtain ⟨htb, hmmap⟩ := executeBlob_eq_returns hmmap
    obtain ⟨-, hblob⟩ := executeBlob_eq_returns hblob
    obtain ⟨-, -, hsigset, hblockCalls⟩ := blobLoop_sigprocmask hblob htb rfl
    simp only at h
    split at h
    · obtain ⟨result, -, hreturns⟩ := Outcome.andThen_eq_returns.mp h
      cases hreturns
    · obtain ⟨⟨cloneRet, tc, cloning⟩, hclone, h⟩ := Outcome.andThen_eq_returns.mp h
      obtain ⟨htm, hclone⟩ := executeBlob_eq_returns hclone
      simp only at h
      split at h
      · cases h
      · simp only [Outcome.returns.injEq, Prod.mk.injEq] at h
        obtain ⟨hret, rfl, rfl, -⟩ := h
        have htc : tc.alive = true := by
          by_contra hdead
          simp [hdead] at hret
        refine ⟨hsigset, ?_⟩
        rw [(blobLoop_calls (by decide) hclone htc).1, (blobLoop_calls (by decide) hmmap htm).1,
          hblockCalls]

theorem executeParasiteRestore_zero {kernel : Kernel} {inj : Injection} {t t₂ : Target}
    {ctx : Context} {deliveries : List Delivery}
    (h : executeParasiteRestore kernel inj ctx t = .returns (0, t₂, deliveries)) :
    t₂.mask = SigMask.ofBits ctx.sigset ∧
      t₂.calls = t.calls ++ List.replicate (executions inj.munmap) .munmap ++
        List.replicate (executions inj.unblock) .sigprocmask := by
  simp only [executeParasiteRestore] at h
  split at h
  · rename_i hfails
    exact absurd (congrArg Prod.fst (Outcome.returns.inj h)) hfails
  · split at h
    · cases h
    · obtain ⟨⟨ret, tu, unmapping⟩, hmunmap, h⟩ := Outcome.andThen_eq_returns.mp h
      obtain ⟨ht, hmunmap⟩ := executeBlob_eq_returns hmunmap
      simp only at h
      split at h
      · rename_i hne
        have herr : isErrValue ret = true := by
          cases htu : tu.alive with
          | false =>
              rw [blobLoop_dead hmunmap ht htu]
              decide
          | true =>
              obtain ⟨-, n, rfl⟩ := blobLoop_calls (by decide) hmunmap htu
              exact (kernel.munmap_result n).resolve_left hne
        exact absurd (congrArg Prod.fst (Outcome.returns.inj h)) (toCInt_ne_zero herr)
      · obtain ⟨⟨code, te, unblocking⟩, hunblock, h⟩ := Outcome.andThen_eq_returns.mp h
        obtain ⟨htu, hunblock⟩ := executeBlob_eq_returns hunblock
        simp only at h
        cases hte : te.alive with
        | false =>
            have hcode : code = -1#64 := blobLoop_dead hunblock htu hte
            rw [if_pos (by rw [hcode]; decide), hcode] at h
            exact absurd (congrArg Prod.fst (Outcome.returns.inj h))
              (toCInt_ne_zero (show isErrValue (-1#64) = true by decide))
        | true =>
            obtain ⟨hcode, hmask, -, hcalls⟩ := blobLoop_sigprocmask hunblock hte rfl
            rw [if_neg (by simp [hcode])] at h
            cases h
            refine ⟨hmask, ?_⟩
            rw [← (blobLoop_calls (by decide) hmunmap htu).1]
            exact hcalls

theorem executions_eq_one_iff (script : List Stop) :
    executions script = 1 ↔ ∀ stop ∈ script, stop.afterSyscall = false := by
  simp [executions, List.filter_eq_nil_iff]

/-- One signal arrives while the target is in the blob that blocks signals,
before its system call. -/
def signalInjection (sig : Nat) : Injection where
  pageSize := 4096
  parasiteSize := 0x3000
  block := [{ sig := sig, afterSyscall := false, more := [] }]
  mmap := []
  clone := []
  munmap := []
  unblock := []
  cmdCheckpoint := 0
  cmdRestore := 0
  parasiteSignaled := false

end Memcr.ParasiteInjection
