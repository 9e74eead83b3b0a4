import Memcr.IntResults
import Memcr.WorkerProcess

namespace Memcr.TargetLife

open Memcr.CallOutcome
open Memcr.DumpFormat
open Memcr.DumpRestore
open Memcr.GuardedRuns
open Memcr.InjectionTrace (Machine Context NoTrace Succeeds)
open Memcr.IntResults
open Memcr.InteractiveMode
open Memcr.Protections (Protection)
open Memcr.ThreadSeizure (seizeTarget)
open Memcr.WorkerProcess (WorkerEnv WorkerAction Response CInt Listening postCheckpointCmd
  readCommand responseOf sendResponseToService setupRestoreSocketWorker memcrRestore
  serviceCommandSize)

/-- A worker and all it meets. The results of the two procedures are those of `set`, not
of `env`. Whoever connects to its restore socket names its target. -/
structure Visit (cfg : Config) where
  dir : Bool
  pid : Int
  set : Setting cfg
  env : WorkerEnv
  named : (postCheckpointCmd env).pid = pid
  errno_lt : ∀ err ∈ set.dir.openError, err < 2 ^ 31

/-- The target while a worker holds it, with what the worker has saved of it. -/
structure Held extends Target where
  tids : List Int
  ctx : Context
  writer : Writer

def noContext : Context := ⟨0, 0, [], [], 0, 0⟩

section Worker

variable {cfg : Config} (v : Visit cfg)

/-- `checkpoint_worker` with what it does to the target. -/
def checkpointWorker (m : Machine) (prot : Protection) :
    Outcome (CInt × List WorkerAction × Held) :=
  (seizeTarget v.set.dir).andThen fun (ret, tids) =>
    let attached := ThreadSeizure.seized v.set.dir.reached
    if ret ≠ 0 then
      .returns (BitVec.ofInt 32 ret, [.kill v.pid, .cleanupPid v.pid],
        ⟨⟨m, prot, attached, true⟩, tids, noContext, Writer.start⟩)
    else
      (executeParasiteCheckpoint v.set m prot).andThen fun (ret, ctx, m, prot, w) =>
        if ret ≠ 0 then
          .returns (BitVec.ofInt 32 ret, [.kill v.pid, .cleanupPid v.pid],
            ⟨⟨m, prot, attached, true⟩, tids, ctx, w⟩)
        else .returns (0#32, [], ⟨⟨m, prot, attached, false⟩, tids, ctx, w⟩)

/-- `unseize_target` -/
def Held.unseizeTarget (held : Held) : Held :=
  { held with attached := held.attached.filter (· ∉ held.tids) }

/-- The end of `restore_worker`. -/
def restoreOut (ret : CInt) (held : Held) : List WorkerAction × Held :=
  ((if ret ≠ 0#32 then [.kill v.pid] else []) ++ [.unseizeTarget, .cleanupPid v.pid],
    { held with killed := held.killed || ret != 0#32 }.unseizeTarget)

/-- `restore_worker` with what it does to the target. -/
def restoreWorker (held : Held) : Outcome (CInt × List WorkerAction × Held) :=
  let readRet := readCommand v.env
  let received := WorkerAction.readCommand (v.env.received.take serviceCommandSize)
  if readRet.toInt < 0 ∨ memcrRestore ≠ (postCheckpointCmd v.env).cmd then
    let (out, held) := restoreOut v readRet held
    .returns (readRet, received :: out, held)
  else
    (executeParasiteRestore v.set held.ctx held.machine held.prot held.writer).andThen
      fun (ret, m, prot) =>
        let ret := BitVec.ofInt 32 ret
        let (out, held) := restoreOut v ret { held with machine := m, prot := prot }
        .returns (ret, received :: .restore v.pid ret :: out, held)

/-- A worker that exits lets go of what it still traces. -/
def Held.exit (held : Held) : Target := { held.toTarget with attached := [] }

/-- `application_worker` and the `exit` that follows it. -/
def applicationWorker (m : Machine) (prot : Protection) : Outcome (List WorkerAction × Target) :=
  let (rsd, setup) := setupRestoreSocketWorker v.dir v.env v.pid
  let sent := v.env.checkpointResponseSent
  if rsd < 0 then
    let ret := BitVec.ofInt 32 rsd
    .returns (setup ++ [.respondCheckpoint (responseOf ret) sent,
      .exit (ret ||| sendResponseToService sent)], ⟨m, prot, [], false⟩)
  else
    (checkpointWorker v m prot).andThen fun (status, actions, held) =>
      let checkpoint := setup ++ actions ++ [.respondCheckpoint (responseOf status) sent]
      let ret := status ||| sendResponseToService sent
      if ret ≠ 0#32 then .returns (checkpoint ++ [.closeRsd, .exit ret], held.exit)
      else if !v.env.accepts then
        .returns (checkpoint ++ [.accept false, .closeRsd, .exit (-1#32)], held.exit)
      else
        (restoreWorker v held).andThen fun (ret, restore, held) =>
          let sent := v.env.restoreResponseSent
          .returns (checkpoint ++ .accept true :: restore ++
            [.respondRestore (responseOf ret) sent, .closeRsd] ++
            (if v.dir then [.removeRestoreSocket v.pid] else []) ++
            [.exit (ret ||| sendResponseToService sent)], held.exit)

end Worker

/-- The result of a procedure as the `int` it returns. -/
def code {α : Type} : Outcome (Int × α) → CInt
  | .returns (ret, _) => BitVec.ofInt 32 ret
  | _ => -1#32

/-- The outcome of every call of the worker, the two procedures included. Whether the
checkpoint drops a page is left open: here the memory itself shows it. -/
def Visit.results {cfg : Config} (v : Visit cfg) (m : Machine) (prot : Protection)
    (dropped : Bool) : WorkerEnv :=
  { v.env with
    seizeTarget := code (seizeTarget v.set.dir)
    executeParasiteCheckpoint := code (executeParasiteCheckpoint v.set m prot)
    pagesDropped := dropped
    executeParasiteRestore := fun _ =>
      code ((executeParasiteCheckpoint v.set m prot).andThen fun (_, ctx, m, prot, w) =>
        executeParasiteRestore v.set ctx m prot w) }

section Refinement

variable {cfg : Config} {v : Visit cfg} {m : Machine} {prot : Protection}

def keeps (pid : Int) (a : WorkerAction) : Bool := a != .dropPages pid

theorem checkpointWorker_refines {status : CInt} {actions : List WorkerAction} {held : Held}
    (h : checkpointWorker v m prot = .returns (status, actions, held)) (dropped : Bool) :
    (WorkerProcess.checkpointWorker (v.results m prot dropped) v.pid).1 = status ∧
      (WorkerProcess.checkpointWorker (v.results m prot dropped) v.pid).2.filter (keeps v.pid) =
        actions := by
  obtain ⟨⟨ret, tids⟩, hseize, hnext⟩ := Outcome.andThen_eq_returns.mp h
  have hfits : Fits (ret, tids) := seizeTarget_fits v.errno_lt _ hseize
  have hcode : (v.results m prot dropped).seizeTarget = BitVec.ofInt 32 ret := by
    simp only [Visit.results, hseize, code]
  dsimp only at hnext
  rw [WorkerProcess.checkpointWorker, hcode]
  split_ifs at hnext with hret
  · cases hnext
    rw [if_pos (hret ∘ hfits.ofInt_eq_zero.mp)]
    exact ⟨rfl, by simp [keeps]⟩
  · rw [if_neg (not_not.mpr (hfits.ofInt_eq_zero.mpr (not_not.mp hret)))]
    obtain ⟨⟨ret', ctx, m', prot', w⟩, hcheckpoint, hnext⟩ := Outcome.andThen_eq_returns.mp hnext
    have hfits' : Fits (ret', ctx, m', prot', w) := executeParasiteCheckpoint_fits _ _ _ hcheckpoint
    have hcode' : (v.results m prot dropped).executeParasiteCheckpoint = BitVec.ofInt 32 ret' := by
      simp only [Visit.results, hcheckpoint, code]
    dsimp only at hnext ⊢
    rw [hcode']
    split_ifs at hnext with hret'
    · cases hnext
      rw [if_pos (hret' ∘ hfits'.ofInt_eq_zero.mp)]
      refine ⟨rfl, ?_⟩
      cases dropped <;> simp [keeps, Visit.results]
    · cases hnext
      rw [if_neg (not_not.mpr (hfits'.ofInt_eq_zero.mpr (not_not.mp hret')))]
      refine ⟨rfl, ?_⟩
      cases dropped <;> simp [keeps, Visit.results]

theorem checkpointWorker_zero {actions : List WorkerAction} {held : Held}
    (h : checkpointWorker v m prot = .returns (0#32, actions, held)) :
    seizeTarget v.set.dir = .returns (0, held.tids) ∧
      executeParasiteCheckpoint v.set m prot =
        .returns (0, held.ctx, held.machine, held.prot, held.writer) ∧
      held.attached = ThreadSeizure.seized v.set.dir.reached ∧ held.killed = false := by
  obtain ⟨⟨ret, tids⟩, hseize, hnext⟩ := Outcome.andThen_eq_returns.mp h
  have hfits : Fits (ret, tids) := seizeTarget_fits v.errno_lt _ hseize
  dsimp only at hnext
  split_ifs at hnext with hret
  · obtain ⟨hzero, -⟩ := Prod.mk.inj (Outcome.returns.inj hnext)
    exact absurd (hfits.ofInt_eq_zero.mp hzero) hret
  · obtain ⟨⟨ret', ctx, m', prot', w⟩, hcheckpoint, hnext⟩ := Outcome.andThen_eq_returns.mp hnext
    have hfits' : Fits (ret', ctx, m', prot', w) := executeParasiteCheckpoint_fits _ _ _ hcheckpoint
    dsimp only at hnext
    split_ifs at hnext with hret'
    · obtain ⟨hzero, -⟩ := Prod.mk.inj (Outcome.returns.inj hnext)
      exact absurd (hfits'.ofInt_eq_zero.mp hzero) hret'
    · cases hnext
      rw [not_not.mp hret] at hseize
      rw [not_not.mp hret'] at hcheckpoint
      exact ⟨hseize, hcheckpoint, rfl, rfl⟩

theorem restoreWorker_refines {held held' : Held} {ret : CInt} {restore : List WorkerAction}
    (hheld : executeParasiteCheckpoint v.set m prot =
      .returns (0, held.ctx, held.machine, held.prot, held.writer))
    (h : restoreWorker v held = .returns (ret, restore, held')) (dropped : Bool) :
    WorkerProcess.restoreWorker (v.results m prot dropped) = (ret, restore) := by
  have hcommand : postCheckpointCmd (v.results m prot dropped) = postCheckpointCmd v.env := rfl
  have hread : readCommand (v.results m prot dropped) = readCommand v.env := rfl
  have hreceived : (v.results m prot dropped).received = v.env.received := rfl
  rw [WorkerProcess.restoreWorker]
  simp only [hcommand, hread, hreceived, v.named]
  rw [restoreWorker] at h
  dsimp only at h
  split_ifs at h with hgives
  · cases h
    rw [if_pos hgives]
    rfl
  · rw [if_neg hgives]
    obtain ⟨⟨ret', m', prot'⟩, hrestore, hnext⟩ := Outcome.andThen_eq_returns.mp h
    have hcode : (v.results m prot dropped).executeParasiteRestore v.pid =
        BitVec.ofInt 32 ret' := by
      simp only [Visit.results, hheld, Outcome.returns_andThen, hrestore, code]
    cases hnext
    rw [hcode]
    rfl

theorem restorePhase_kept (env : WorkerEnv) :
    (WorkerProcess.restorePhase v.dir env v.pid).filter (keeps v.pid) =
      WorkerProcess.restorePhase v.dir env v.pid := by
  refine List.filter_eq_self.mpr fun a ha => bne_iff_ne.mpr ?_
  rintro rfl
  exact WorkerProcess.dropPages_not_mem_restorePhase v.dir env v.pid v.pid ha

end Refinement

/-- A worker with the memory of its target does what the worker of the service does that
only knows the results of its procedures, for every target and all that they meet. -/
theorem worker_refines_process (cfg : Config) (v : Visit cfg) (m : Machine) (prot : Protection)
    (actions : List WorkerAction) (t : Target)
    (h : applicationWorker v m prot = .returns (actions, t)) (dropped : Bool) :
    (WorkerProcess.applicationWorker v.dir (v.results m prot dropped) v.pid).filter
      (keeps v.pid) = actions := by
  have hsetup : setupRestoreSocketWorker v.dir (v.results m prot dropped) v.pid =
      setupRestoreSocketWorker v.dir v.env v.pid := rfl
  have hsent : (v.results m prot dropped).checkpointResponseSent =
      v.env.checkpointResponseSent := rfl
  have haccepts : (v.results m prot dropped).accepts = v.env.accepts := rfl
  rw [applicationWorker] at h
  rw [WorkerProcess.applicationWorker, WorkerProcess.checkpointPhase, hsetup, hsent, haccepts]
  rcases WorkerProcess.setupRestoreSocketWorker_cases v.dir v.env v.pid with
    ⟨-, heq⟩ | ⟨-, bound, hbound, heq⟩
  · have hrsd : ¬ (v.env.rsd : Int) < 0 := by omega
    rw [heq] at h ⊢
    simp only [if_neg hrsd, BitVec.zero_or, if_true] at h ⊢
    obtain ⟨⟨status, checkpoint, held⟩, hworker, hnext⟩ := Outcome.andThen_eq_returns.mp h
    obtain ⟨rfl, rfl⟩ := checkpointWorker_refines hworker dropped
    dsimp only at hnext
    clear h
    split at hnext
    · rename_i hfailed
      cases hnext
      rw [if_pos hfailed]
      simp [List.filter_cons, keeps]
    · rename_i hworks
      rw [if_neg hworks]
      split at hnext
      · rename_i haccept
        cases hnext
        rw [if_pos haccept]
        simp [List.filter_cons, keeps]
      · rename_i haccept
        rw [if_neg haccept]
        obtain ⟨⟨ret, restore, held'⟩, hrestore, hlast⟩ := Outcome.andThen_eq_returns.mp hnext
        have hzero : (WorkerProcess.checkpointWorker (v.results m prot dropped) v.pid).1 =
            0#32 := by
          by_contra hstatus
          exact hworks (WorkerProcess.or_sendResponseToService_ne_zero hstatus _)
        rw [hzero] at hworker
        have hheld := (checkpointWorker_zero hworker).2.1
        cases hlast
        rw [List.filter_append, List.filter_cons_of_pos (by simp [keeps]), restorePhase_kept,
          WorkerProcess.restorePhase, restoreWorker_refines hheld hrestore dropped]
        simp [List.filter_cons, keeps, Visit.results]
  · rw [heq] at h ⊢
    simp only [show (-1 : Int) < 0 by decide, if_true] at h ⊢
    cases h
    rcases hbound with rfl | rfl <;> simp [List.filter_cons, keeps]

/-- What a program can find out about itself. Memory that is not mapped is no part of it. -/
@[ext]
structure View where
  regs : BlobExecution.Registers
  mask : BlobExecution.SigMask
  mapped : BitVec 64 → Bool
  mem : BitVec 64 → ByteWords.Byte
  prot : Protection
  unmapped : ∀ a, mapped a = false → mem a = 0

theorem masked_eq_zero (m : Machine) (a : BitVec 64) (h : m.mapped a = false) :
    (if m.mapped a then m.mem a else 0) = 0 := by
  simp [h]

/-- What the target itself can tell. -/
def view (t : Target) : View where
  regs := t.machine.regs
  mask := t.machine.mask
  mapped := t.machine.mapped
  mem := fun a => if t.machine.mapped a then t.machine.mem a else 0
  prot := t.prot
  unmapped := masked_eq_zero t.machine

/-- The target has run on its own. -/
def become (own : View) (t : Target) : Target :=
  { t with
    machine := ⟨own.regs, own.mask, own.mem, own.mapped, t.machine.calls⟩
    prot := own.prot }

inductive Event (cfg : Config) where
  /-- The target runs. -/
  | own (run : View → View)
  /-- A worker checkpoints it and restores it. -/
  | visit (v : Visit cfg)

/-- A target that is checkpointed and restored any number of times, and runs on its own
between two workers. -/
structure Life where
  target : Target
  /-- What the workers have done. -/
  past : List WorkerAction

/-- The target runs, or a worker checkpoints and restores it. -/
def lifeStep {cfg : Config} (s : Life) : Event cfg → Option Life
  | .own run =>
      if s.target.killed then none
      else some { s with target := become (run (view s.target)) s.target }
  | .visit v =>
      if s.target.killed then none
      else
        match applicationWorker v s.target.machine s.target.prot with
        | .returns (actions, t) => some ⟨t, s.past ++ actions⟩
        | _ => none

/-- The target without memcr. -/
def alone {cfg : Config} (own : View) : Event cfg → View
  | .own run => run own
  | .visit _ => own

/-- A visit that finds what memcr takes for granted, and whose worker is not cut off from
the service before the restore. -/
structure Ready {cfg : Config} (v : Visit cfg) (t : Target) : Prop where
  regular : Regular v.set t.machine
  recorded : ∀ vma ∈ v.set.vmas, ∀ a, vma.Has a → t.prot a = vma.prot
  connected : Connected v.set
  sent : v.env.checkpointResponseSent = true
  accepts : v.env.accepts = true

/-- A worker finds the target as it has to be. -/
def Event.Ready {cfg : Config} (s : Life) : Event cfg → Prop
  | .own _ => True
  | .visit v => TargetLife.Ready v s.target

/-- The service hears of an error. -/
def Complains (actions : List WorkerAction) : Prop :=
  ∃ sent, .respondCheckpoint .errorGeneral sent ∈ actions ∨
    .respondRestore .errorGeneral sent ∈ actions

section Visits

variable {cfg : Config} {v : Visit cfg} {m : Machine} {prot : Protection}

theorem view_become (own : View) (t : Target) : view (become own t) = own := by
  refine View.ext rfl rfl rfl ?_ rfl
  funext a
  change (if own.mapped a then own.mem a else 0) = own.mem a
  cases hmapped : own.mapped a with
  | true => rfl
  | false => exact (own.unmapped a hmapped).symm

theorem view_eq_of_noTrace {t t' : Target} (h : NoTrace [] t.machine t'.machine)
    (hprot : t'.prot = t.prot) : view t' = view t := by
  have hmem : (view t').mem = (view t).mem := by
    funext a
    change (if t'.machine.mapped a then t'.machine.mem a else 0) =
      if t.machine.mapped a then t.machine.mem a else 0
    rw [h.mapped]
    cases hmapped : t.machine.mapped a with
    | true => exact h.mem a hmapped List.not_mem_nil
    | false => rfl
  exact View.ext h.regs h.mask h.mapped hmem hprot

theorem checkpointWorker_killed {status : CInt} {actions : List WorkerAction} {held : Held}
    (h : checkpointWorker v m prot = .returns (status, actions, held)) (hstatus : status ≠ 0#32) :
    held.killed = true := by
  obtain ⟨⟨ret, tids⟩, hseize, hnext⟩ := Outcome.andThen_eq_returns.mp h
  dsimp only at hnext
  split at hnext
  · cases hnext
    rfl
  · obtain ⟨⟨ret', ctx, m', prot', w⟩, hcheckpoint, hnext⟩ := Outcome.andThen_eq_returns.mp hnext
    dsimp only at hnext
    split at hnext
    · cases hnext
      rfl
    · cases hnext
      exact absurd rfl hstatus

theorem readCommand_ne_zero (env : WorkerEnv) : readCommand env ≠ 0#32 := by
  rw [readCommand]
  split <;> decide

theorem restoreWorker_ends {held held' : Held} {ret : CInt} {restore : List WorkerAction}
    (h : restoreWorker v held = .returns (ret, restore, held')) :
    (ret ≠ 0#32 → held'.killed = true) ∧
      (ret = 0#32 → held'.killed = held.killed ∧
        executeParasiteRestore v.set held.ctx held.machine held.prot held.writer =
          .returns (0, held'.machine, held'.prot)) := by
  rw [restoreWorker] at h
  dsimp only at h
  split at h
  · cases h
    have hne := readCommand_ne_zero v.env
    exact ⟨fun _ => by simp [restoreOut, Held.unseizeTarget, hne], fun hzero => absurd hzero hne⟩
  · obtain ⟨⟨ret', m', prot'⟩, hrestore, hnext⟩ := Outcome.andThen_eq_returns.mp h
    have hfits : Fits (ret', m', prot') := executeParasiteRestore_fits _ _ _ _ _ hrestore
    cases hnext
    constructor
    · intro hne
      simp [restoreOut, Held.unseizeTarget, hne]
    · intro hzero
      have hret : ret' = 0 := hfits.ofInt_eq_zero.mp hzero
      subst hret
      exact ⟨by simp [restoreOut, Held.unseizeTarget], hrestore⟩

theorem Ready.visit {t t' : Target} {actions : List WorkerAction} (h : Ready v t)
    (hvisit : applicationWorker v t.machine t.prot = .returns (actions, t')) :
    t'.attached = [] ∧ (t'.killed = true ∧ Complains actions ∨
      t'.killed = false ∧ view t' = view t) := by
  rw [applicationWorker] at hvisit
  dsimp only at hvisit
  split at hvisit
  · -- the worker has not got as far as its target
    cases hvisit
    exact ⟨rfl, Or.inr ⟨rfl, rfl⟩⟩
  · obtain ⟨⟨status, checkpoint, held⟩, hworker, hnext⟩ := Outcome.andThen_eq_returns.mp hvisit
    dsimp only at hnext
    rw [h.sent, h.accepts] at hnext
    split at hnext
    · rename_i hfailed
      have hstatus : status ≠ 0#32 := by
        rintro rfl
        exact hfailed rfl
      cases hnext
      refine ⟨rfl, Or.inl ⟨checkpointWorker_killed hworker hstatus, true, Or.inl ?_⟩⟩
      simp [responseOf, hstatus]
    · rename_i hworks
      have hstatus : status = 0#32 := by
        by_contra hne
        exact hworks (WorkerProcess.or_sendResponseToService_ne_zero hne _)
      subst hstatus
      obtain ⟨-, hcheckpoint, -, halive⟩ := checkpointWorker_zero hworker
      obtain ⟨⟨ret, restore, held'⟩, hrestore, hlast⟩ := Outcome.andThen_eq_returns.mp hnext
      obtain ⟨hkilled, hzero⟩ := restoreWorker_ends hrestore
      cases hlast
      refine ⟨rfl, ?_⟩
      by_cases hret : ret = 0#32
      · obtain ⟨hsame, hexecuted⟩ := hzero hret
        refine Or.inr ⟨hsame.trans halive, view_eq_of_noTrace ?_ ?_⟩
        · exact noTrace_of_commands h.regular hcheckpoint hexecuted
        · exact protections_kept h.regular h.connected h.recorded hcheckpoint hexecuted
      · refine Or.inl ⟨hkilled hret, v.env.restoreResponseSent, Or.inr ?_⟩
        simp [responseOf, hret]

/-- The target is what it would be alone, or a worker has killed it and said so. -/
def Undisturbed (s : Life) (own : View) : Prop :=
  s.target.attached = [] ∧ (s.target.killed = true ∧ Complains s.past ∨
    s.target.killed = false ∧ view s.target = own)

theorem Complains.append {past actions : List WorkerAction} (h : Complains actions) :
    Complains (past ++ actions) := by
  obtain ⟨sent, hmem | hmem⟩ := h
  · exact ⟨sent, Or.inl (List.mem_append_right _ hmem)⟩
  · exact ⟨sent, Or.inr (List.mem_append_right _ hmem)⟩

theorem Undisturbed.step {s s' : Life} {own : View} {event : Event cfg} (h : Undisturbed s own)
    (hready : event.Ready s) (hstep : lifeStep s event = some s') :
    Undisturbed s' (alone own event) := by
  cases event with
  | own run =>
      rw [lifeStep] at hstep
      split at hstep
      · cases hstep
      · rename_i halive
        obtain ⟨hattached, ⟨hkilled, -⟩ | ⟨hkilled, rfl⟩⟩ := h
        · exact absurd hkilled halive
        · cases hstep
          exact ⟨hattached, Or.inr ⟨hkilled, view_become _ _⟩⟩
  | visit v =>
      rw [lifeStep] at hstep
      split at hstep
      · cases hstep
      · rename_i halive
        obtain ⟨-, ⟨hkilled, -⟩ | ⟨-, rfl⟩⟩ := h
        · exact absurd hkilled halive
        · split at hstep
          · rename_i actions t hvisit
            cases hstep
            obtain ⟨hattached, ⟨hkilled, hcomplains⟩ | hwhole⟩ := Ready.visit hready hvisit
            · exact ⟨hattached, Or.inl ⟨hkilled, hcomplains.append⟩⟩
            · exact ⟨hattached, Or.inr hwhole⟩
          · cases hstep

end Visits

section Instance

open Memcr.InjectionTrace (smallMachine)

theorem smallSetting_errno : ∀ err ∈ smallSetting.dir.openError, err < 2 ^ 31 := by
  intro err herr
  cases herr

/-- A worker for the small process, all of whose calls succeed. -/
def smallVisit : Visit (plainConfig false) where
  dir := false
  pid := 5
  set := smallSetting
  env := { WorkerProcess.silentPeer with received := WorkerProcess.restoreFive.bytes }
  named := by decide
  errno_lt := smallSetting_errno

def smallTarget : Target := ⟨smallMachine, fun _ => Protections.protRead, [], false⟩

/-- What a visit of this worker depends on. -/
structure Small (own : View) : Prop where
  rip : own.regs.rip = smallMachine.regs.rip
  rsp : own.regs.rsp = smallMachine.regs.rsp
  mapped : own.mapped = smallMachine.mapped
  prot : own.prot = fun _ => Protections.protRead

theorem Small.ready {t : Target} (h : Small (view t)) : Ready smallVisit t where
  regular := smallSetting_regular h.rip h.rsp h.mapped
  recorded := by
    have hprot : t.prot = fun _ => Protections.protRead := h.prot
    rw [hprot]
    exact smallSetting_recorded
  connected := ⟨rfl, rfl, le_rfl⟩
  sent := rfl
  accepts := rfl

theorem Small.visit {t : Target} (h : Small (view t)) :
    ∃ actions t', applicationWorker smallVisit t.machine t.prot = .returns (actions, t') ∧
      t'.killed = false := by
  obtain ⟨ctx, m₁, prot₁, w, m₂, prot₂, hcheckpoint, hrestore⟩ :=
    smallSetting_returns h.rip h.rsp h.mapped t.prot
  have hworker : checkpointWorker smallVisit t.machine t.prot =
      .returns (0#32, [], ⟨⟨m₁, prot₁, [5], false⟩, [5], ctx, w⟩) := by
    have hseize : seizeTarget smallVisit.set.dir = .returns (0, [5]) := rfl
    have hcheckpoint' : executeParasiteCheckpoint smallVisit.set t.machine t.prot = _ :=
      hcheckpoint
    rw [checkpointWorker, hseize, Outcome.returns_andThen]
    dsimp only
    rw [if_neg (by decide), hcheckpoint']
    rfl
  have hsetup : setupRestoreSocketWorker smallVisit.dir smallVisit.env smallVisit.pid =
      (5, [.bind 5]) := rfl
  rw [applicationWorker, hsetup]
  dsimp only
  rw [if_neg (by decide), hworker, Outcome.returns_andThen]
  dsimp only
  rw [if_neg (by decide), if_neg (by decide), restoreWorker]
  dsimp only
  rw [if_neg (by decide)]
  have hrestore' : executeParasiteRestore smallVisit.set ctx m₁ prot₁ w = _ := hrestore
  rw [hrestore']
  exact ⟨_, _, rfl, rfl⟩

theorem worker_refines_process_small :
    ∃ actions t, applicationWorker smallVisit smallTarget.machine smallTarget.prot =
        .returns (actions, t) ∧
      (WorkerProcess.applicationWorker false
        (smallVisit.results smallTarget.machine smallTarget.prot true) 5).filter (keeps 5) =
        actions := by
  have hsmall : Small (view smallTarget) := ⟨rfl, rfl, rfl, rfl⟩
  obtain ⟨actions, t, hvisit, -⟩ := hsmall.visit
  exact ⟨actions, t, hvisit, worker_refines_process _ smallVisit _ _ actions t hvisit true⟩

/-- The target counts. -/
def tick : Event (plainConfig false) :=
  .own fun own => { own with regs := { own.regs with rax := own.regs.rax + 1 } }

def twoVisits : List (Event (plainConfig false)) :=
  [tick, .visit smallVisit, tick, .visit smallVisit]

theorem Small.tick {own : View} (h : Small own) : Small (alone own tick) :=
  ⟨h.rip, h.rsp, h.mapped, h.prot⟩

theorem Small.lifeStep_visit {s : Life} {own : View} (h : Small own) (hs : Undisturbed s own)
    (halive : s.target.killed = false) :
    (Event.visit smallVisit).Ready s ∧ ∃ s', lifeStep s (.visit smallVisit) = some s' ∧
      Undisturbed s' own ∧ s'.target.killed = false := by
  rcases hs.2 with ⟨hkilled, -⟩ | ⟨-, rfl⟩
  · exact absurd (hkilled.symm.trans halive) (by decide)
  · have hready : (Event.visit smallVisit).Ready s := h.ready
    obtain ⟨actions, t', hvisit, halive'⟩ := h.visit
    have hstep : lifeStep s (.visit smallVisit) = some ⟨t', s.past ++ actions⟩ := by
      rw [lifeStep, halive, hvisit]
      rfl
    exact ⟨hready, _, hstep, Undisturbed.step hs hready hstep, halive'⟩

theorem Undisturbed.lifeStep_tick {s : Life} {own : View} (hs : Undisturbed s own)
    (halive : s.target.killed = false) :
    ∃ s', lifeStep s TargetLife.tick = some s' ∧ Undisturbed s' (alone own TargetLife.tick) ∧
      s'.target.killed = false := by
  have hstep : lifeStep s TargetLife.tick = some _ := if_neg (by simp [halive])
  exact ⟨_, hstep, Undisturbed.step hs trivial hstep, halive⟩

end Instance

end Memcr.TargetLife
