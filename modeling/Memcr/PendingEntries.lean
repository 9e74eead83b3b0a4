import Memcr.ServiceCommands

namespace Memcr.ServiceSystem

open Memcr.IndexedLists
open Memcr.ServiceTable
open Memcr.WorkerProcess

/-- The command thread is between finding the worker of the pid and clearing
its entry. -/
def CmdPc.restores (pid : Int) : CmdPc → Bool
  | .restoring c _ _ => c.pid == pid
  | _ => false

/-- Clients name processes. A CHECKPOINT is admitted when the table has room,
and not while a RESTORE of the same pid is carried out. -/
def admitsSafely (s : Sys) : Act → Bool
  | .accept _ (some command) => decide (0 < command.pid)
  | .main =>
      match s.main with
      | .initPid c =>
          (s.table.any fun slot => slot.pid == pidInvalid) && !s.cmd.restores c.pid
      | _ => true
  | _ => true

section Pending

/-- CHECKPOINTs of the pid that have an entry and are not decided. -/
def MainPc.pending (pid : Int) : MainPc → Nat
  | .pushCheckpoint c | .clearRefused c => if c.pid = pid then 1 else 0
  | _ => 0

/-- The CHECKPOINTs of the pid in the queue. -/
def queued (pid : Int) (queue : List Ctx) : Nat :=
  queue.countP fun c => c.svcCmd.cmd == memcrCheckpoint && c.pid == pid

/-- Whether the command thread is at a CHECKPOINT of the pid. -/
def CmdPc.pending (pid : Int) : CmdPc → Nat
  | .starting c _ | .checkpointing c _ _ _ _ => if c.pid = pid then 1 else 0
  | _ => 0

/-- The CHECKPOINTs of the pid that are admitted and not yet decided. -/
def pending (pid : Int) (main : MainPc) (queue : List Ctx) (cmd : CmdPc) : Nat :=
  main.pending pid + queued pid queue + cmd.pending pid

/-- How far the entry of a pending CHECKPOINT has come. -/
def CmdPc.entryState (pid : Int) : CmdPc → PidState
  | .checkpointing c _ _ _ _ => if c.pid = pid then .checkpointing else .restored
  | _ => .restored

/-- At most one CHECKPOINT of the pid is pending, and then the only entry of the
pid is its own. -/
def Pending (main : MainPc) (queue : List Ctx) (cmd : CmdPc) (table : Table) (pid : Int) : Prop :=
  pending pid main queue cmd = 0 ∨
    (pending pid main queue cmd = 1 ∧ cmd.restores pid = false ∧
      ∃ slot, entries table pid = [slot] ∧ slot.worker = 0 ∧ slot.state = cmd.entryState pid)

variable {main main' : MainPc} {queue queue' : List Ctx} {cmd cmd' : CmdPc}
  {table table' : Table} {pid : Int}

theorem Pending.le_one (h : Pending main queue cmd table pid) :
    pending pid main queue cmd ≤ 1 := by
  rcases h with h | ⟨h, -⟩ <;> omega

theorem Pending.transfer (h : Pending main queue cmd table pid)
    (hcount : pending pid main' queue' cmd' = pending pid main queue cmd)
    (hrestores : cmd'.restores pid = cmd.restores pid)
    (hentries : entries table' pid = entries table pid)
    (hstate : cmd'.entryState pid = cmd.entryState pid) :
    Pending main' queue' cmd' table' pid := by
  rw [Pending, hcount, hrestores, hentries, hstate]
  exact h

theorem Pending.decided (h : Pending main queue cmd table pid)
    (hcount : pending pid main' queue' cmd' + 1 = pending pid main queue cmd) :
    Pending main' queue' cmd' table' pid := by
  have hle := h.le_one
  exact Or.inl (by omega)

theorem CmdPc.entryState_of_pending (h : cmd.pending pid = 0) :
    cmd.entryState pid = .restored := by
  cases cmd with
  | checkpointing c sd worker k stage =>
      simp only [CmdPc.pending] at h
      simp only [CmdPc.entryState]
      split at h
      · cases h
      · rename_i hne
        rw [if_neg hne]
  | _ => rfl

theorem entryState_ne_checkpointed (cmd : CmdPc) (pid : Int) :
    cmd.entryState pid ≠ .checkpointed := by
  cases cmd with
  | checkpointing c sd worker k stage =>
      simp only [CmdPc.entryState]
      split <;> simp
  | _ => simp [CmdPc.entryState]

end Pending

/-- The entry of a pid belongs to one CHECKPOINT at a time, as long as no CHECKPOINT is
admitted while the command thread still has to clear the entry of a RESTORE of the same
pid. -/
def PendingOwn (s : Sys) : Prop := ∀ pid, 0 < pid → Pending s.main s.queue s.cmd s.table pid

variable {dir : Bool} {s t : Sys}

/-- A CHECKPOINT is decided by the party that holds it, which clears its own
entry or leaves it behind. -/
theorem Pending.close {main main' : MainPc} {queue : List Ctx} {cmd cmd' : CmdPc}
    {table table' : Table} {pid : Int} (h : Pending main queue cmd table pid) (closed : Int)
    (hown : pid = closed → pending pid main' queue cmd' + 1 = pending pid main queue cmd)
    (hother : pid ≠ closed → pending pid main' queue cmd' = pending pid main queue cmd ∧
      cmd'.restores pid = cmd.restores pid ∧ entries table' pid = entries table pid ∧
      cmd'.entryState pid = cmd.entryState pid) :
    Pending main' queue cmd' table' pid := by
  by_cases heq : pid = closed
  · exact h.decided (hown heq)
  · obtain ⟨hcount, hrestores, hentries, hstate⟩ := hother heq
    exact h.transfer hcount hrestores hentries hstate

theorem MainMove.pendingOwn (h : MainMove s t) (hguard : admitsSafely s .main = true)
    (hcommands : Carries (fun command => 0 < command.pid) s) (hadmits : s.main.Admits s.table)
    (hpending : PendingOwn s) : PendingOwn t := by
  cases h with
  | initPid s c =>
      intro pid hpid
      have hold := hpending pid hpid
      by_cases heq : c.pid = pid
      · subst heq
        have hempty : entries s.table c.pid = [] := by
          rw [List.eq_nil_iff_forall_not_mem]
          intro slot hslot
          obtain ⟨hmem, hslot⟩ := mem_entries.mp hslot
          exact hadmits (by omega) slot hmem hslot
        have hzero : pending c.pid (.initPid c) s.queue s.cmd = 0 := by
          rcases hold with hzero | ⟨-, -, slot, hslot, -⟩
          · exact hzero
          · rw [hempty] at hslot
            cases hslot
        simp only [admitsSafely, Bool.and_eq_true, Bool.not_eq_true'] at hguard
        have hfree : ∃ slot ∈ s.table, slot.pid = 0 := by simpa [pidInvalid] using hguard.1
        obtain ⟨slot, -, -, hentries⟩ := entries_init (by omega) hempty hfree
        simp only [pending, MainPc.pending] at hzero
        refine Or.inr ⟨?_, hguard.2, slot.assign c.pid, hentries, rfl, ?_⟩
        · simp only [pending, MainPc.pending, if_true]
          omega
        · have hcmd : s.cmd.pending c.pid = 0 := by omega
          exact (CmdPc.entryState_of_pending hcmd).symm
      · refine hold.transfer ?_ rfl (entries_init_of_ne (by omega) heq) rfl
        simp [pending, MainPc.pending, heq]
  | pushCheckpoint s c =>
      intro pid hpid
      refine (hpending pid hpid).transfer ?_ rfl rfl rfl
      have hcmd : c.svcCmd.cmd = memcrCheckpoint := hcommands.main.2
      by_cases heq : c.pid = pid
      · simp [pending, queued, MainPc.pending, hcmd, heq]
        omega
      · simp [pending, queued, MainPc.pending, heq]
  | clearRefused s c =>
      intro pid hpid
      refine (hpending pid hpid).close c.pid ?_ fun hne => ⟨?_, rfl, ?_, rfl⟩
      · rintro rfl
        simp [pending, MainPc.pending]
        omega
      · simp [pending, MainPc.pending, Ne.symm hne]
      · exact entries_clear_of_ne (by omega) (Ne.symm hne)
  | tryAbort s c =>
      intro pid hpid
      rcases hpending pid hpid with hzero | ⟨hone, hrestores, slot, hentries, hworker, hstate⟩
      · exact Or.inl hzero
      · rcases entries_tryToAbortCheckpoint s.table pid c.pid with hsame | ⟨first, rest, hold, hnew⟩
        · exact Or.inr ⟨hone, hrestores, slot, hsame.trans hentries, hworker, hstate⟩
        · obtain ⟨rfl, rfl⟩ : slot = first ∧ [] = rest := by simpa [hentries] using hold
          exact Or.inr ⟨hone, hrestores, _, hnew, hworker, hstate⟩
  | pushRestore s c =>
      intro pid hpid
      refine (hpending pid hpid).transfer ?_ rfl rfl rfl
      have hcmd : c.svcCmd.cmd = memcrRestore := hcommands.main.2
      simp [pending, queued, MainPc.pending, hcmd, memcrRestore, memcrCheckpoint]
  | _ => exact hpending

theorem QueueMove.pendingOwn (h : QueueMove s t) (hpending : PendingOwn s) : PendingOwn t := by
  cases h with
  | pop s c rest =>
      intro pid hpid
      have hold := hpending pid hpid
      rcases dispatch_cases c with ⟨hcmd, hdispatch⟩ | ⟨hcmd, hdispatch | hdispatch⟩
      · rw [hdispatch]
        refine hold.transfer ?_ rfl rfl rfl
        by_cases heq : c.pid = pid
        · simp [pending, queued, CmdPc.pending, hcmd, heq]
          omega
        · simp [pending, queued, CmdPc.pending, heq]
      · rw [hdispatch]
        refine hold.transfer ?_ rfl rfl rfl
        simp [pending, queued, CmdPc.pending, hcmd]
      · rw [hdispatch]
        refine hold.transfer ?_ rfl rfl rfl
        simp [pending, queued, CmdPc.pending, hcmd]
  | _ => exact hpending

theorem PendingOwn.close_cmd {c : Ctx} {cmd cmd' : CmdPc} {table' : Table}
    (hpending : PendingOwn { s with cmd := cmd })
    (hcmd : ∀ pid, cmd.pending pid = if c.pid = pid then 1 else 0)
    (hrestores : ∀ pid, cmd'.restores pid = cmd.restores pid)
    (hclosed : ∀ pid, cmd'.pending pid = 0)
    (hstate : ∀ pid, c.pid ≠ pid → cmd.entryState pid = .restored)
    (hentries : ∀ pid, 0 < pid → c.pid ≠ pid → entries table' pid = entries s.table pid) :
    PendingOwn { s with cmd := cmd', table := table' } := by
  intro pid hpid
  refine (hpending pid hpid).close c.pid ?_ fun hne => ⟨?_, hrestores pid,
    hentries pid hpid (Ne.symm hne), ?_⟩
  · rintro rfl
    simp [pending, hcmd, hclosed]
  · simp [pending, hcmd, hclosed, Ne.symm hne]
  · rw [hstate pid (Ne.symm hne), CmdPc.entryState_of_pending (hclosed pid)]

theorem CheckpointMove.pendingOwn (h : CheckpointMove dir s t) (hpending : PendingOwn s) :
    PendingOwn t := by
  cases h with
  | noSockets s c =>
      exact hpending.close_cmd (c := c) (fun _ => rfl) (fun _ => rfl) (fun _ => rfl)
        (fun _ _ => rfl) fun _ _ _ => rfl
  | clearNoFork s c =>
      exact hpending.close_cmd (c := c) (fun _ => rfl) (fun _ => rfl) (fun _ => rfl)
        (fun _ _ => rfl) fun pid hpid hne => entries_clear_of_ne (by omega) hne
  | setCheckpointing s c sd worker k =>
      intro pid hpid
      have hold := hpending pid hpid
      by_cases heq : c.pid = pid
      · subst heq
        rcases hold with hzero | ⟨hone, -, slot, hentries, hworker, hstate⟩
        · simp [pending, CmdPc.pending] at hzero
        · exact Or.inr ⟨hone, rfl, _, entries_setPidCheckpointing sd hentries hstate, hworker,
            (if_pos rfl).symm⟩
      · exact hold.transfer rfl rfl (entries_setPidCheckpointing_of_ne sd heq) (if_neg heq)
  | setCheckpointed s c sd worker k =>
      exact hpending.close_cmd (c := c) (fun _ => rfl) (fun _ => rfl) (fun _ => rfl)
        (fun pid hne => if_neg hne) fun pid hpid hne => entries_setPidCheckpointed_of_ne worker hne
  | clearFailed s c =>
      exact hpending.close_cmd (c := c) (fun _ => rfl) (fun _ => rfl) (fun _ => rfl)
        (fun pid hne => if_neg hne) fun pid hpid hne => entries_clear_of_ne (by omega) hne
  | _ => exact hpending

theorem RestoreMove.pendingOwn (h : RestoreMove dir s t) (hpending : PendingOwn s) :
    PendingOwn t := by
  cases h with
  | getWorker s c hlock hworker =>
      intro pid hpid
      have hold := hpending pid hpid
      by_cases heq : c.pid = pid
      · subst heq
        rcases hold with hzero | ⟨-, -, slot, hentries, hslot, -⟩
        · exact Or.inl hzero
        · exact absurd (by simp [getPidWorker_eq, hentries, hslot, pidInvalid]) hworker
      · refine hold.transfer rfl ?_ rfl rfl
        simp [CmdPc.restores, heq]
  | clear s c =>
      intro pid hpid
      have hold := hpending pid hpid
      by_cases heq : c.pid = pid
      · subst heq
        rcases hold with hzero | ⟨-, hrestores, -⟩
        · exact Or.inl hzero
        · simp [CmdPc.restores] at hrestores
      · refine hold.transfer rfl ?_ (entries_clear_of_ne (by omega) heq) rfl
        simp [CmdPc.restores, heq]
  | _ => exact hpending

/-- The handler clears entries that name a worker, and a pending one names
none. -/
theorem WorkerMove.pendingOwn {act : Act} (h : WorkerMove dir s act t)
    (hpos : Indexed (fun _ x => 0 < x.pid) s.procs) (hpending : PendingOwn s) : PendingOwn t := by
  cases h with
  | reap k x hx =>
      intro pid hpid
      rcases hpending pid hpid with hzero | ⟨hone, hrestores, slot, hentries, hworker, hstate⟩
      · exact Or.inl hzero
      · refine Or.inr ⟨hone, hrestores, slot, ?_, hworker, hstate⟩
        have hne : slot.worker ≠ x.pid := by
          have := hpos k x hx
          omega
        change entries (clearPidOnWorkerExit x.pid s.table) pid = [slot]
        rw [entries_clearPidOnWorkerExit (by omega), hentries]
        simp [hne]
  | _ => exact hpending

end Memcr.ServiceSystem
