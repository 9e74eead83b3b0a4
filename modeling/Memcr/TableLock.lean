import Memcr.RestorableEntries

/-!
The operations on `checkpoint_service_data` with the mutex they take. Each is a
loop over the slots that may be left early, and every way out either unlocks or
does not. The SIGCHLD handler takes no lock, so it may change the table between
two slots of a loop.
-/

namespace Memcr.ServiceSystem

open Memcr.FirstMatch
open Memcr.GuardedRuns
open Memcr.ServiceTable
open Memcr.WorkerProcess

/-- What an operation does besides changing the table. -/
inductive TableEffect where
  | abort (sd : Int)
  | kill (pid : Int)
  | cleanupPid (pid : Int)
  deriving DecidableEq, Repr

/-- How an operation returns; a void one returns 0. -/
structure TableExit where
  ret : Int
  unlocked : Bool
  deriving DecidableEq, Repr

/-- What the body of a loop makes of a slot, and whether it leaves the loop. -/
structure SlotVisit where
  slot : Slot
  effects : List TableEffect
  leaves : Option TableExit

/-- A loop over the slots, entered with the lock taken. -/
structure TableOp where
  visit : Slot → SlotVisit
  /-- What stands behind the loop. -/
  behind : TableExit

def SlotVisit.pass (slot : Slot) : SlotVisit := ⟨slot, [], none⟩

/-- `init_pid_checkpoint_data` -/
def initPidOp (pid : Int) : TableOp where
  visit slot :=
    if slot.pid == pidInvalid then ⟨slot.assign pid, [], some ⟨0, true⟩⟩ else .pass slot
  behind := ⟨0, true⟩

/-- `cleanup_checkpointed_pids` -/
def cleanupCheckpointedPidsOp : TableOp where
  visit slot :=
    if slot.pid != pidInvalid then
      ⟨slot.assign pidInvalid, [.kill slot.pid, .cleanupPid slot.pid], none⟩
    else .pass slot
  behind := ⟨0, true⟩

/-- `set_pid_checkpointing` -/
def setPidCheckpointingOp (pid cmdSd : Int) : TableOp where
  visit slot :=
    if slot.pid == pid && slot.state == .restored then
      ⟨{ slot with state := .checkpointing, checkpointCmdSd := cmdSd },
        if slot.checkpointAbort then [.abort cmdSd] else [], some ⟨0, true⟩⟩
    else .pass slot
  behind := ⟨0, true⟩

/-- `set_pid_checkpointed` -/
def setPidCheckpointedOp (pid worker : Int) : TableOp where
  visit slot :=
    if slot.pid == pid && slot.state == .checkpointing then
      ⟨{ slot with
        state := .checkpointed, checkpointCmdSd := socketInvalid, worker := worker },
        [], some ⟨0, true⟩⟩
    else .pass slot
  behind := ⟨0, true⟩

/-- `clear_pid_checkpoint_data` -/
def clearPidOp (pid : Int) : TableOp where
  visit slot := if slot.pid == pid then ⟨slot.assign pidInvalid, [], none⟩ else .pass slot
  behind := ⟨0, true⟩

/-- `get_pid_worker` -/
def getPidWorkerOp (pid : Int) : TableOp where
  visit slot := if slot.pid == pid then ⟨slot, [], some ⟨slot.worker, true⟩⟩ else .pass slot
  behind := ⟨pidInvalid, true⟩

/-- `can_checkpoint_pid` -/
def canCheckpointPidOp (pid : Int) : TableOp where
  visit slot := if slot.pid == pid then ⟨slot, [], some ⟨0, true⟩⟩ else .pass slot
  behind := ⟨1, true⟩

/-- `can_restore_pid` -/
def canRestorePidOp (pid : Int) : TableOp where
  visit slot := if slot.pid == pid then ⟨slot, [], some ⟨1, true⟩⟩ else .pass slot
  behind := ⟨0, true⟩

/-- `try_to_abort_checkpoint`, which has no unlock behind its loop. -/
def tryToAbortCheckpointOp (pid : Int) : TableOp where
  visit slot :=
    if slot.pid == pid then
      match slot.state with
      | .restored => ⟨{ slot with checkpointAbort := true }, [], some ⟨0, true⟩⟩
      | .checkpointing => ⟨slot, [.abort slot.checkpointCmdSd], some ⟨0, true⟩⟩
      | .checkpointed => ⟨slot, [], some ⟨0, true⟩⟩
    else .pass slot
  behind := ⟨0, false⟩

/-- A slot after the SIGCHLD handler has reaped these workers. -/
def Slot.reaped (workers : List Int) (slot : Slot) : Slot :=
  workers.foldl
    (fun slot worker => if slot.worker == worker then slot.assign pidInvalid else slot) slot

/-- What an operation leaves and returns. -/
structure TableReturn where
  table : Table
  effects : List TableEffect
  exit : TableExit

/-- The loop has passed the slots `passed` and has `rest` before it, which stand
as they did when it was entered; since then the workers `gone` have been reaped.
Before the next slot the handler reaps `reaps 0`. -/
def TableOp.scan (op : TableOp) :
    (Nat → List Int) → List Int → List Slot → List Slot → TableReturn
  | reaps, _, passed, [] => ⟨passed.map (Slot.reaped (reaps 0)), [], op.behind⟩
  | reaps, gone, passed, slot :: rest =>
      let now := gone ++ reaps 0
      let visit := op.visit (Slot.reaped now slot)
      let passed := passed.map (Slot.reaped (reaps 0)) ++ [visit.slot]
      match visit.leaves with
      | some exit => ⟨passed ++ rest.map (Slot.reaped now), visit.effects, exit⟩
      | none =>
          let next := op.scan (fun i => reaps (i + 1)) now passed rest
          { next with effects := visit.effects ++ next.effects }

/-- The operation on a table, with the workers that the handler reaps before each
slot. -/
def TableOp.call (op : TableOp) (reaps : Nat → List Int) (table : Table) : TableReturn :=
  op.scan reaps [] [] table

/-- The handler stays out of the loop. -/
def undisturbed : Nat → List Int := fun _ => []

/-- The slots as the loop comes to see them. -/
def seen : (Nat → List Int) → List Int → List Slot → List Slot
  | _, _, [] => []
  | reaps, gone, slot :: rest =>
      let now := gone ++ reaps 0
      Slot.reaped now slot :: seen (fun i => reaps (i + 1)) now rest

/-- Every table operation of the service. -/
inductive TableCall where
  | initPid (pid : Int)
  | setPidCheckpointing (pid cmdSd : Int)
  | setPidCheckpointed (pid worker : Int)
  | clearPid (pid : Int)
  | getPidWorker (pid : Int)
  | canCheckpointPid (pid : Int)
  | canRestorePid (pid : Int)
  | tryToAbortCheckpoint (pid : Int)
  | cleanupCheckpointedPids
  deriving DecidableEq, Repr

/-- The loop of the called function. -/
def TableCall.op : TableCall → TableOp
  | .initPid pid => initPidOp pid
  | .setPidCheckpointing pid cmdSd => setPidCheckpointingOp pid cmdSd
  | .setPidCheckpointed pid worker => setPidCheckpointedOp pid worker
  | .clearPid pid => clearPidOp pid
  | .getPidWorker pid => getPidWorkerOp pid
  | .canCheckpointPid pid => canCheckpointPidOp pid
  | .canRestorePid pid => canRestorePidOp pid
  | .tryToAbortCheckpoint pid => tryToAbortCheckpointOp pid
  | .cleanupCheckpointedPids => cleanupCheckpointedPidsOp

/-- The pid that the operation must find to get to an unlock. -/
def TableCall.needs : TableCall → Option Int
  | .tryToAbortCheckpoint pid => some pid
  | _ => none

/-- What the operation does when the handler stays out of it. -/
def TableCall.result : TableCall → Table → TableReturn
  | .initPid pid, table => ⟨initPidCheckpointData pid table, [], ⟨0, true⟩⟩
  | .setPidCheckpointing pid cmdSd, table =>
      let attempt := ServiceTable.setPidCheckpointing pid cmdSd table
      ⟨attempt.table, attempt.sent.toList.map .abort, ⟨0, !attempt.lockLeaked⟩⟩
  | .setPidCheckpointed pid worker, table =>
      ⟨ServiceTable.setPidCheckpointed pid worker table, [], ⟨0, true⟩⟩
  | .clearPid pid, table => ⟨clearPidCheckpointData pid table, [], ⟨0, true⟩⟩
  | .getPidWorker pid, table => ⟨table, [], ⟨ServiceTable.getPidWorker pid table, true⟩⟩
  | .canCheckpointPid pid, table =>
      ⟨table, [], ⟨if ServiceTable.canCheckpointPid pid table then 1 else 0, true⟩⟩
  | .canRestorePid pid, table =>
      ⟨table, [], ⟨if ServiceTable.canRestorePid pid table then 1 else 0, true⟩⟩
  | .tryToAbortCheckpoint pid, table =>
      let attempt := ServiceTable.tryToAbortCheckpoint pid table
      ⟨attempt.table, attempt.sent.toList.map .abort, ⟨0, !attempt.lockLeaked⟩⟩
  | .cleanupCheckpointedPids, table =>
      ⟨table.map fun slot => if slot.pid != pidInvalid then slot.assign pidInvalid else slot,
        table.flatMap fun slot =>
          if slot.pid != pidInvalid then [.kill slot.pid, .cleanupPid slot.pid] else [],
        ⟨0, true⟩⟩

/-- The operation that a step of the main thread or the command thread makes. -/
def Sys.tableCall (s : Sys) : Act → Option TableCall
  | .main =>
      match s.main with
      | .canCheckpoint c => some (.canCheckpointPid c.pid)
      | .initPid c => some (.initPid c.pid)
      | .clearRefused c => some (.clearPid c.pid)
      | .canRestore c => some (.canRestorePid c.pid)
      | .tryAbort c => some (.tryToAbortCheckpoint c.pid)
      | _ => none
  | .cmd .done =>
      match s.cmd with
      | .starting c .clearNoFork => some (.clearPid c.pid)
      | .starting c (.setCheckpointing sd _ _) => some (.setPidCheckpointing c.pid sd)
      | .checkpointing c _ worker _ (.finish .ok) => some (.setPidCheckpointed c.pid worker)
      | .checkpointing c _ _ _ (.finish _) => some (.clearPid c.pid)
      | .getWorker c => some (.getPidWorker c.pid)
      | .restoring c _ .clear => some (.clearPid c.pid)
      | _ => none
  | _ => none

/-- `try_to_abort_checkpoint` finds an entry of its pid. -/
def findsEntry (s : Sys) (act : Act) : Bool :=
  ((s.tableCall act).bind TableCall.needs).all fun pid => canRestorePid pid s.table

variable {dir : Bool} {s t : Sys} {act : Act} {op : TableOp}

@[simp] theorem Slot.reaped_nil (slot : Slot) : Slot.reaped [] slot = slot := rfl

theorem map_reaped_nil (table : Table) : table.map (Slot.reaped []) = table :=
  List.map_id' table

theorem exit_scan (reaps : Nat → List Int) (gone : List Int) (passed table : List Slot) :
    (op.scan reaps gone passed table).exit =
      ((seen reaps gone table).findSome? fun slot => (op.visit slot).leaves).getD op.behind := by
  induction table generalizing reaps gone passed with
  | nil => rfl
  | cons slot rest ih =>
      simp only [TableOp.scan, seen, List.findSome?_cons]
      split
      · rename_i exit hleaves
        simp [hleaves]
      · rename_i hleaves
        simp [hleaves, ih]

theorem seen_undisturbed (table : Table) : seen undisturbed [] table = table := by
  induction table with
  | nil => rfl
  | cons slot rest ih =>
      change Slot.reaped [] slot :: seen undisturbed [] rest = slot :: rest
      rw [ih, Slot.reaped_nil]

theorem unlocked_call {reaps : Nat → List Int} {table : Table}
    (hvisit : ∀ slot exit, (op.visit slot).leaves = some exit → exit.unlocked = true)
    (hbehind : op.behind.unlocked = true) : (op.call reaps table).exit.unlocked = true := by
  rw [TableOp.call, exit_scan]
  cases hfind : (seen reaps [] table).findSome? fun slot => (op.visit slot).leaves with
  | none => exact hbehind
  | some exit =>
      obtain ⟨slot, -, hleaves⟩ := List.exists_of_findSome?_eq_some hfind
      exact hvisit slot exit hleaves

/-- What `try_to_abort_checkpoint` leaves in the slot it finds. -/
def markAbort (slot : Slot) : Slot :=
  match slot.state with
  | .restored => { slot with checkpointAbort := true }
  | _ => slot

def abortsAt (slot : Slot) : List TableEffect :=
  match slot.state with
  | .checkpointing => [.abort slot.checkpointCmdSd]
  | _ => []

theorem visit_tryToAbortCheckpoint (pid : Int) (slot : Slot) :
    (tryToAbortCheckpointOp pid).visit slot =
      if slot.pid == pid then ⟨markAbort slot, abortsAt slot, some ⟨0, true⟩⟩
      else .pass slot := by
  cases hstate : slot.state <;> simp [tryToAbortCheckpointOp, markAbort, abortsAt, hstate]

theorem unlocked_tryToAbortCheckpoint (pid : Int) (reaps : Nat → List Int) (table : Table) :
    ((tryToAbortCheckpointOp pid).call reaps table).exit.unlocked = true ↔
      ∃ slot ∈ seen reaps [] table, slot.pid = pid := by
  have hleaves : ∀ slot, ((tryToAbortCheckpointOp pid).visit slot).leaves =
      if slot.pid = pid then some ⟨0, true⟩ else none := by
    intro slot
    rw [visit_tryToAbortCheckpoint]
    by_cases hpid : slot.pid = pid <;> simp [hpid, SlotVisit.pass]
  rw [TableOp.call, exit_scan]
  cases hfind : (seen reaps [] table).findSome? fun slot =>
      ((tryToAbortCheckpointOp pid).visit slot).leaves with
  | none =>
      simp only [hleaves, List.findSome?_eq_none_iff, ite_eq_right_iff, reduceCtorEq,
        imp_false] at hfind
      simpa [tryToAbortCheckpointOp] using hfind
  | some exit =>
      obtain ⟨slot, hmem, hsome⟩ := List.exists_of_findSome?_eq_some hfind
      obtain ⟨hpid, rfl⟩ : slot.pid = pid ∧ ⟨0, true⟩ = exit := by simpa [hleaves] using hsome
      simpa using ⟨slot, hmem, hpid⟩

/-- Every operation returns with the lock released, but for an abort that finds
no entry. -/
theorem unlocked_iff (call : TableCall) (reaps : Nat → List Int) (table : Table) :
    (call.op.call reaps table).exit.unlocked = true ↔
      ∀ pid, call.needs = some pid → ∃ slot ∈ seen reaps [] table, slot.pid = pid := by
  cases call with
  | tryToAbortCheckpoint pid =>
      simpa [TableCall.needs, TableCall.op] using unlocked_tryToAbortCheckpoint pid reaps table
  | _ =>
      refine iff_of_true (unlocked_call ?_ rfl) (by simp [TableCall.needs])
      intro slot exit hleaves
      simp only [TableCall.op, initPidOp, setPidCheckpointingOp, setPidCheckpointedOp, clearPidOp,
        getPidWorkerOp, canCheckpointPidOp, canRestorePidOp, cleanupCheckpointedPidsOp] at hleaves
      split at hleaves <;> cases hleaves <;> rfl

theorem scan_undisturbed_cons (passed : List Slot) (slot : Slot) (rest : Table) :
    op.scan undisturbed [] passed (slot :: rest) =
      match (op.visit slot).leaves with
      | some exit => ⟨passed ++ (op.visit slot).slot :: rest, (op.visit slot).effects, exit⟩
      | none =>
          let next := op.scan undisturbed [] (passed ++ [(op.visit slot).slot]) rest
          { next with effects := (op.visit slot).effects ++ next.effects } := by
  rw [TableOp.scan, show undisturbed 0 = [] from rfl,
    show (fun i => undisturbed (i + 1)) = undisturbed from rfl]
  simp only [List.append_nil, Slot.reaped_nil, map_reaped_nil, List.append_assoc,
    List.singleton_append]

theorem scan_first {test : Slot → Bool} {f : Slot → Slot} {effects : Slot → List TableEffect}
    {exit : Slot → TableExit}
    (hvisit : ∀ slot, op.visit slot =
      if test slot then ⟨f slot, effects slot, some (exit slot)⟩ else .pass slot)
    (passed table : List Slot) :
    op.scan undisturbed [] passed table =
      ⟨passed ++ updateFirst test f table, ((table.find? test).map effects).getD [],
        ((table.find? test).map exit).getD op.behind⟩ := by
  induction table generalizing passed with
  | nil => simp [TableOp.scan, undisturbed, updateFirst, map_reaped_nil]
  | cons slot rest ih =>
      rw [scan_undisturbed_cons, hvisit slot]
      cases htest : test slot with
      | true => simp [updateFirst, htest]
      | false => simp [SlotVisit.pass, updateFirst, htest, ih]

theorem scan_all (f : Slot → Slot) (effects : Slot → List TableEffect)
    (hvisit : ∀ slot, op.visit slot = ⟨f slot, effects slot, none⟩) (passed table : List Slot) :
    op.scan undisturbed [] passed table =
      ⟨passed ++ table.map f, table.flatMap effects, op.behind⟩ := by
  induction table generalizing passed with
  | nil => simp [TableOp.scan, undisturbed, map_reaped_nil]
  | cons slot rest ih => simp [scan_undisturbed_cons, hvisit slot, ih]

theorem call_tryToAbortCheckpoint (pid : Int) (table : Table) :
    (TableCall.tryToAbortCheckpoint pid).op.call undisturbed table =
      (TableCall.tryToAbortCheckpoint pid).result table := by
  refine (scan_first (visit_tryToAbortCheckpoint pid) [] table).trans ?_
  simp only [TableCall.result, tryToAbortCheckpoint]
  cases hfind : table.find? fun slot => slot.pid == pid with
  | none =>
      have hsame : updateFirst (fun slot : Slot => slot.pid == pid) markAbort table = table :=
        (updateFirst_congr (by simp [hfind])).trans updateFirst_self
      simp [tryToAbortCheckpointOp, hsame]
  | some slot =>
      have hmark {f : Slot → Slot} (h : markAbort slot = f slot) :
          updateFirst (fun slot : Slot => slot.pid == pid) markAbort table =
            updateFirst (fun slot : Slot => slot.pid == pid) f table :=
        updateFirst_congr fun _ hfirst => Option.some.inj (hfind.symm.trans hfirst) ▸ h
      cases hstate : slot.state with
      | restored =>
          have hset := hmark (f := fun slot => { slot with checkpointAbort := true })
            (by simp [markAbort, hstate])
          simp [hset, hstate, abortsAt]
      | checkpointing | checkpointed =>
          have hkeep := hmark (f := fun slot => slot) (by simp [markAbort, hstate])
          simp [hkeep, hstate, abortsAt, updateFirst_self]

theorem call_undisturbed (call : TableCall) (table : Table) :
    call.op.call undisturbed table = call.result table := by
  cases call with
  | initPid pid =>
      refine (scan_first (fun _ => rfl) [] table).trans ?_
      cases table.find? fun slot => slot.pid == pidInvalid <;>
        simp [TableCall.result, TableCall.op, initPidOp, initPidCheckpointData]
  | setPidCheckpointing pid cmdSd =>
      refine (scan_first (fun _ => rfl) [] table).trans ?_
      cases hfind : table.find? fun slot => slot.pid == pid && slot.state == .restored with
      | none =>
          simp [TableCall.result, TableCall.op, setPidCheckpointingOp, setPidCheckpointing, hfind]
      | some slot =>
          cases hflag : slot.checkpointAbort <;>
            simp [TableCall.result, TableCall.op, setPidCheckpointingOp, setPidCheckpointing,
              hfind, hflag]
  | setPidCheckpointed pid worker =>
      refine (scan_first (fun _ => rfl) [] table).trans ?_
      cases table.find? fun slot => slot.pid == pid && slot.state == .checkpointing <;>
        simp [TableCall.result, TableCall.op, setPidCheckpointedOp, setPidCheckpointed]
  | clearPid pid =>
      refine (scan_all (fun slot => if slot.pid == pid then slot.assign pidInvalid else slot)
        (fun _ => []) (fun slot => ?_) [] table).trans ?_
      · simp only [TableCall.op, clearPidOp, SlotVisit.pass]
        split <;> rfl
      · simp [TableCall.result, TableCall.op, clearPidOp, clearPidCheckpointData]
  | getPidWorker pid =>
      refine (scan_first (fun _ => rfl) [] table).trans ?_
      cases hfind : table.find? fun slot => slot.pid == pid <;>
        simp [TableCall.result, TableCall.op, getPidWorkerOp, getPidWorker, hfind, updateFirst_self]
  | canCheckpointPid pid =>
      refine (scan_first (fun _ => rfl) [] table).trans ?_
      simp only [TableCall.result, canCheckpointPid_eq, canRestorePid_eq]
      cases table.find? fun slot => slot.pid == pid <;>
        simp [TableCall.op, canCheckpointPidOp, updateFirst_self]
  | canRestorePid pid =>
      refine (scan_first (fun _ => rfl) [] table).trans ?_
      simp only [TableCall.result, canRestorePid_eq]
      cases table.find? fun slot => slot.pid == pid <;>
        simp [TableCall.op, canRestorePidOp, updateFirst_self]
  | tryToAbortCheckpoint pid => exact call_tryToAbortCheckpoint pid table
  | cleanupCheckpointedPids =>
      refine (scan_all
        (fun slot => if slot.pid != pidInvalid then slot.assign pidInvalid else slot)
        (fun slot =>
          if slot.pid != pidInvalid then [.kill slot.pid, .cleanupPid slot.pid] else [])
        (fun slot => ?_) [] table).trans rfl
      simp only [TableCall.op, cleanupCheckpointedPidsOp, SlotVisit.pass]
      split <;> rfl

/-- A step makes its table operation with the lock free, and leaves the lock as
the operation does. -/
theorem step_tableCall {call : TableCall} (hstep : step dir s act = some t)
    (hcall : s.tableCall act = some call) :
    s.lockHeld = false ∧ t.table = (call.result s.table).table ∧
      t.lockHeld = !(call.result s.table).exit.unlocked := by
  cases act with
  | main =>
      cases mainStep_move hstep with
      | tryAbort s c hlock =>
          cases hcall
          exact ⟨hlock, rfl, (Bool.not_not _).symm⟩
      | mayCheckpoint s c hlock | refuseCheckpoint s c hlock | initPid s c hlock
      | clearRefused s c hlock | mayRestore s c hlock | refuseRestore s c hlock =>
          cases hcall
          exact ⟨hlock, rfl, hlock⟩
      | _ => cases hcall
  | cmd outcome =>
      cases outcome with
      | done =>
          cases cmdStep_move hstep with
          | queue h => cases h <;> cases hcall
          | checkpoint h =>
              cases h with
              | clearNoFork s c hlock | setCheckpointing s c sd worker k hlock
              | setCheckpointed s c sd worker k hlock =>
                  cases hcall
                  exact ⟨hlock, rfl, hlock⟩
              | clearFailed s c sd worker k code hcode hlock =>
                  cases code with
                  | ok => exact absurd rfl hcode
                  | _ =>
                      cases hcall
                      exact ⟨hlock, rfl, hlock⟩
              | _ => cases hcall
          | restore h =>
              cases h with
              | noWorker s c hlock | getWorker s c hlock | clear s c worker hlock =>
                  cases hcall
                  exact ⟨hlock, rfl, hlock⟩
              | _ => cases hcall
      | _ => cases hcall
  | _ => cases hcall

theorem step_lockHeld (hstep : step dir s act = some t) (hcall : s.tableCall act = none) :
    t.lockHeld = s.lockHeld := by
  cases step_move hstep with
  | accept cd command t h => cases h <;> rfl
  | main t h =>
      cases h with
      | tryAbort => cases hcall
      | _ => rfl
  | cmd outcome t h =>
      cases h with
      | queue h => cases h <;> rfl
      | checkpoint h => cases h <;> rfl
      | restore h => cases h <;> rfl
  | worker act t h => cases h <;> rfl

theorem step_unlocked (hguard : findsEntry s act = true) (hstep : step dir s act = some t)
    (hlock : s.lockHeld = false) : t.lockHeld = false := by
  cases hcall : s.tableCall act with
  | none => rw [step_lockHeld hstep hcall, hlock]
  | some call =>
      have hunlocked : (call.op.call undisturbed s.table).exit.unlocked = true := by
        refine (unlocked_iff call undisturbed s.table).mpr fun pid hneeds => ?_
        rw [seen_undisturbed]
        simpa [findsEntry, hcall, hneeds, canRestorePid] using hguard
      rw [(step_tableCall hstep hcall).2.2, ← call_undisturbed, hunlocked]
      rfl

/-- When every `try_to_abort_checkpoint` starts with an entry of its pid in the
table, the lock is free in every state, and every operation called there gives
it back, whatever workers are reaped during its loop, unless it is an abort that
does not come to see an entry of its pid. -/
theorem table_lock_released (dir : Bool) (table : Table) (acts : List Act) (t : Sys)
    (hguard : Guarded (step dir) (fun s act => findsEntry s act = true) (Sys.boot table) acts)
    (hrun : run (step dir) (Sys.boot table) acts = some t) :
    t.lockHeld = false ∧ ∀ (call : TableCall) (reaps : Nat → List Int),
      (call.op.call reaps t.table).exit.unlocked = true ↔
        ∀ pid, call.needs = some pid → ∃ slot ∈ seen reaps [] t.table, slot.pid = pid := by
  have hkeeps (s : Sys) (act : Act) (t : Sys) (hlock : s.lockHeld = false)
      (hguard : findsEntry s act = true) (hstep : step dir s act = some t) : t.lockHeld = false :=
    step_unlocked hguard hstep hlock
  have hlock : t.lockHeld = false :=
    invariant_of_guarded hkeeps rfl hguard hrun
  exact ⟨hlock, fun call reaps => unlocked_iff call reaps t.table⟩

/-- A RESTORE of pid 5 has been let in, and the main thread is about to look for
a checkpoint to abort. -/
def restoreLetIn : List Act :=
  checkpointed ++ [.cmd .done, .cmd .done, .accept 6 (some restoreFive), .main]

theorem restoreLetIn_unlocked :
    ∃ t, run (step false) (Sys.boot Table.zero) (restoreLetIn ++ [.main]) = some t ∧
      t.lockHeld = false := by
  refine ⟨_, rfl, ?_⟩
  exact (table_lock_released false Table.zero (restoreLetIn ++ [.main]) _ (by decide) rfl).1

theorem reapedMeanwhile_lock_leaked :
    ∃ t, run (step false) (Sys.boot Table.zero)
        (restoreLetIn ++ [.workerDies 0, .reap 0, .main, .main,
          .accept 8 (some checkpointSix)]) = some t ∧
      t.lockHeld = true ∧ t.tableCall .main = some (.canCheckpointPid 6) ∧
      step false t .main = none := by
  refine ⟨_, rfl, rfl, by decide, rfl⟩

end Memcr.ServiceSystem
