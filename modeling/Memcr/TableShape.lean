import Memcr.AbortRequests

namespace Memcr.ServiceSystem

open Memcr.FirstMatch
open Memcr.GuardedRuns
open Memcr.ServiceTable
open Memcr.WorkerProcess

/-- The service end of the socketpair that the command thread has open. -/
def CmdPc.openSd : CmdPc → Option Nat
  | .starting _ (.fork sd) => some sd
  | .starting _ (.setCheckpointing sd _ _) => some sd
  | .checkpointing _ sd _ _ _ => some sd
  | .ending _ (.closeSd sd) => some sd
  | _ => none

/-- A pid has one slot at most, the state of a slot decides what its other fields hold,
and the socket of a checkpoint under way is the one the command thread has open, so an
abort goes nowhere else. -/
structure Represents (cmd : CmdPc) (table : Table) : Prop where
  unique : ∀ pid ≠ 0, (entries table pid).length ≤ 1
  one_checkpointing : (ongoing table).length ≤ 1
  checkpointing : ∀ slot ∈ table, slot.state = .checkpointing →
    slot.worker = pidInvalid ∧ ∃ sd : Nat, cmd.openSd = some sd ∧ slot.checkpointCmdSd = sd
  checkpointed : ∀ slot ∈ table, slot.state = .checkpointed →
    0 < slot.worker ∧ slot.checkpointCmdSd = socketInvalid
  restored : ∀ slot ∈ table, slot.state ≠ .checkpointing → slot.state ≠ .checkpointed →
    slot.state = .restored ∧ slot.worker = pidInvalid
  free : ∀ slot ∈ table, slot.pid = pidInvalid →
    slot.state = .restored ∧ slot.worker = pidInvalid

/-- What the state of a slot says about its other fields. -/
def Shaped (slot : Slot) : Prop :=
  match slot.state with
  | .restored => slot.worker = pidInvalid
  | .checkpointing => slot.pid ≠ pidInvalid ∧ slot.worker = pidInvalid
  | .checkpointed =>
      slot.pid ≠ pidInvalid ∧ 0 < slot.worker ∧ slot.checkpointCmdSd = socketInvalid

/-- A pid has one slot at most. -/
def UniqueEntries (table : Table) : Prop := ∀ pid ≠ 0, (entries table pid).length ≤ 1

/-- The shape of the table with what keeps it: the commands, and where the two threads are. -/
structure TableInvariant (s : Sys) : Prop where
  commands : Carries (fun command => command.pid ≠ 0) s
  admits : s.main.Admits s.table
  unique : UniqueEntries s.table
  ongoing : Ongoing s.cmd s.table
  slots : ∀ slot ∈ s.table, Shaped slot
  worker : ∀ worker, s.cmd.worker = some worker → 0 < worker
  aborts : ∀ sd, .abortSent sd none ∉ s.log

variable {dir : Bool} {s t : Sys} {table after : Table} {cmd : CmdPc} {log : List Event}

theorem UniqueEntries.of_sublist (h : UniqueEntries table)
    (hsub : ∀ pid ≠ 0, (entries after pid).Sublist (entries table pid)) : UniqueEntries after :=
  fun pid hpid => (hsub pid hpid).length_le.trans (h pid hpid)

theorem UniqueEntries.updateFirst {test : Slot → Bool} {f : Slot → Slot} (h : UniqueEntries table)
    (hf : ∀ slot, (f slot).pid = slot.pid) : UniqueEntries (updateFirst test f table) := by
  intro pid hpid
  rw [entries, length_filter_updateFirst fun slot _ => by rw [hf]]
  exact h pid hpid

theorem entries_init_full (hfull : ¬ ∃ slot ∈ table, slot.pid = 0) (pid other : Int) :
    entries (initPidCheckpointData other table) pid = entries table pid := by
  have hnone : (table.find? fun slot => slot.pid == pidInvalid) = none := by
    rw [List.find?_eq_none]
    intro slot hmem hslot
    exact hfull ⟨slot, hmem, by simpa [pidInvalid] using hslot⟩
  apply filter_updateFirst_of_not <;> intro slot hfind <;> rw [hnone] at hfind <;> cases hfind

theorem UniqueEntries.init {pid : Int} (h : UniqueEntries table)
    (hnone : pid ≠ 0 → ∀ slot ∈ table, slot.pid ≠ pid) :
    UniqueEntries (initPidCheckpointData pid table) := by
  intro other hother
  by_cases heq : pid = other
  · subst heq
    have hempty : entries table pid = [] := by
      rw [List.eq_nil_iff_forall_not_mem]
      intro slot hslot
      exact hnone hother slot (mem_entries.mp hslot).1 (mem_entries.mp hslot).2
    by_cases hfree : ∃ slot ∈ table, slot.pid = 0
    · obtain ⟨slot, -, -, hone⟩ := entries_init hother hempty hfree
      simp [hone]
    · simp [entries_init_full hfree, hempty]
  · rw [entries_init_of_ne hother heq]
    exact h other hother

theorem UniqueEntries.clear (h : UniqueEntries table) (pid : Int) :
    UniqueEntries (clearPidCheckpointData pid table) := by
  refine h.of_sublist fun other hother => ?_
  have hfilter : entries (clearPidCheckpointData pid table) other = _ :=
    filter_map_assign _ _ _ (assign_pid_ne hother)
  rw [hfilter]
  exact List.filter_sublist

theorem UniqueEntries.clearPidOnWorkerExit (h : UniqueEntries table) (worker : Int) :
    UniqueEntries (clearPidOnWorkerExit worker table) := by
  refine h.of_sublist fun pid hpid => ?_
  rw [entries_clearPidOnWorkerExit hpid]
  exact List.filter_sublist

theorem UniqueEntries.tryToAbortCheckpoint (h : UniqueEntries table) (pid : Int) :
    UniqueEntries (tryToAbortCheckpoint pid table).table := by
  unfold Memcr.ServiceTable.tryToAbortCheckpoint
  split
  · exact h
  · split
    · exact h.updateFirst fun _ => rfl
    · exact h
    · exact h

theorem shaped_assign (slot : Slot) (pid : Int) : Shaped (slot.assign pid) := rfl

theorem Shaped.worker_pos {slot : Slot} (h : Shaped slot) (hworker : slot.worker ≠ pidInvalid) :
    0 < slot.worker := by
  unfold Shaped at h
  split at h
  · exact absurd h hworker
  · exact absurd h.2 hworker
  · exact h.2.1

theorem getPidWorker_pos (hslots : ∀ slot ∈ table, Shaped slot) {pid : Int}
    (hworker : getPidWorker pid table ≠ pidInvalid) : 0 < getPidWorker pid table := by
  unfold getPidWorker at hworker ⊢
  split at hworker
  · rename_i slot hfind
    exact (hslots slot (List.mem_of_find?_eq_some hfind)).worker_pos hworker
  · exact absurd rfl hworker

theorem aborts_cons {e : Event} (he : ∀ sd, e ≠ .abortSent sd none)
    (haborts : ∀ sd, .abortSent sd none ∉ log) : ∀ sd, .abortSent sd none ∉ e :: log :=
  fun sd => List.not_mem_cons_of_ne_of_not_mem (he sd).symm (haborts sd)

theorem AcceptMove.tableInvariant {cd : Nat} {command : Option ServiceCommand}
    (h : AcceptMove cd command s t)
    (hlaw : ∀ received, command = some received → received.pid ≠ 0)
    (hinv : TableInvariant s) : TableInvariant t := by
  have hcommands := h.carries hlaw hinv.commands
  have haborts := hinv.aborts
  cases h <;>
    exact { hinv with
      commands := hcommands, admits := trivial, aborts := aborts_cons (by simp) haborts }

theorem abortEvents_own {pid sd : Int} {cmd : CmdPc} (hsocket : cmd.socket = some (pid, sd))
    (haborts : ∀ sd, .abortSent sd none ∉ log) :
    ∀ other, .abortSent other none ∉ abortEvents cmd (some sd) ++ log := by
  rw [abortEvents_of_socket hsocket]
  intro other
  simpa using haborts other

theorem MainMove.tableInvariant (h : MainMove s t) (hinv : TableInvariant s) :
    TableInvariant t := by
  have hcommands := h.carries hinv.commands
  have hadmits := h.admits
  have haborts := hinv.aborts
  cases h with
  | initPid s c =>
      refine { hinv with
        commands := hcommands
        admits := hadmits
        unique := hinv.unique.init hinv.admits
        ongoing := hinv.ongoing.of_sublist (ongoing_init_sublist c.pid)
        slots := forall_init c.pid hinv.slots fun slot _ => shaped_assign slot c.pid
        aborts := fun sd => ?_ }
      change _ ∉ (if _ then _ else _)
      split
      · simpa using haborts sd
      · exact haborts sd
  | clearRefused s c =>
      exact { hinv with
        commands := hcommands
        admits := hadmits
        unique := hinv.unique.clear c.pid
        ongoing := hinv.ongoing.of_sublist (ongoing_clear_sublist c.pid)
        slots := forall_clear c.pid hinv.slots fun slot _ => shaped_assign slot pidInvalid }
  | tryAbort s c =>
      refine { hinv with
        commands := hcommands
        admits := hadmits
        unique := hinv.unique.tryToAbortCheckpoint c.pid
        ongoing := ?_
        slots := forall_tryToAbortCheckpoint c.pid hinv.slots fun slot hmem _ =>
          hinv.slots slot hmem
        aborts := ?_ }
      · change Ongoing s.cmd (tryToAbortCheckpoint c.pid s.table).table
        rw [Ongoing, ongoing_tryToAbortCheckpoint]
        exact hinv.ongoing
      · change ∀ sd, _ ∉ abortEvents s.cmd (tryToAbortCheckpoint c.pid s.table).sent ++ s.log
        cases hsent : (tryToAbortCheckpoint c.pid s.table).sent with
        | none => exact haborts
        | some sd =>
            obtain ⟨slot, hslot, -, rfl⟩ := sent_tryToAbortCheckpoint hsent
            exact abortEvents_own (hinv.ongoing.socket_eq hslot) haborts
  | respond | close =>
      exact { hinv with
        commands := hcommands, admits := hadmits, aborts := aborts_cons (by simp) haborts }
  | _ => exact { hinv with commands := hcommands, admits := hadmits }

theorem QueueMove.tableInvariant (h : QueueMove s t) (hinv : TableInvariant s) :
    TableInvariant t := by
  have hcommands := h.carries hinv.commands
  have haborts := hinv.aborts
  cases h with
  | pop s c rest =>
      exact { hinv with
        commands := hcommands
        ongoing := hinv.ongoing.dispatch c
        worker := by simp [dispatch_worker] }
  | closeSd =>
      exact { hinv with
        commands := hcommands, ongoing := hinv.ongoing, worker := by simp [CmdPc.worker] }
  | _ =>
      exact { hinv with
        commands := hcommands
        ongoing := hinv.ongoing
        worker := by simp [CmdPc.worker]
        aborts := aborts_cons (by simp) haborts }

theorem CheckpointMove.tableInvariant (h : CheckpointMove dir s t) (hinv : TableInvariant s) :
    TableInvariant t := by
  have hcommands := h.carries hinv.commands
  have hadmits := (CmdMove.checkpoint h).admits hinv.admits
  have haborts := hinv.aborts
  cases h with
  | fork s c sd pid env hfresh =>
      refine { hinv with
        commands := hcommands, admits := hadmits, ongoing := hinv.ongoing, worker := ?_ }
      intro worker hworker
      obtain rfl : pid = worker := Option.some.inj hworker
      exact (Sys.freshPid_iff.mp hfresh).1
  | clearNoFork s c =>
      exact { hinv with
        commands := hcommands
        admits := hadmits
        unique := hinv.unique.clear c.pid
        ongoing := Ongoing.of_sublist hinv.ongoing (ongoing_clear_sublist c.pid)
        slots := forall_clear c.pid hinv.slots fun slot _ => shaped_assign slot pidInvalid
        worker := by simp [CmdPc.worker] }
  | setCheckpointing s c sd worker k =>
      have hpid : c.pid ≠ 0 := hinv.commands.cmd.1
      refine { hinv with
        commands := hcommands
        admits := hadmits
        unique := hinv.unique.updateFirst fun _ => rfl
        ongoing := ?_
        slots := forall_setPidCheckpointing c.pid sd hinv.slots fun slot hmem hslot hstate => ?_
        worker := hinv.worker
        aborts := ?_ }
      · rcases ongoing_setPidCheckpointing c sd (hinv.ongoing.eq_nil rfl) with
          hnil | ⟨slot, hone, hslot, hsd⟩
        · exact Or.inl hnil
        · exact Or.inr ⟨slot, hone, by rw [hslot, hsd]; rfl⟩
      · have hworker := hinv.slots slot hmem
        rw [Shaped, hstate] at hworker
        exact ⟨hslot ▸ hpid, hworker⟩
      · change ∀ sd, _ ∉ abortEvents _ (setPidCheckpointing c.pid _ s.table).sent ++ s.log
        cases hsent : (setPidCheckpointing c.pid sd s.table).sent with
        | none => exact haborts
        | some other =>
            obtain ⟨rfl, -⟩ := sent_setPidCheckpointing hsent
            exact abortEvents_own rfl haborts
  | killTarget | killWorker | respond =>
      exact { hinv with
        commands := hcommands
        admits := hadmits
        ongoing := hinv.ongoing
        worker := hinv.worker
        aborts := aborts_cons (by simp) haborts }
  | setCheckpointed s c sd worker k =>
      have hpid : c.pid ≠ 0 := hinv.commands.cmd.1
      exact { hinv with
        commands := hcommands
        admits := hadmits
        unique := hinv.unique.updateFirst fun _ => rfl
        ongoing := Or.inl (ongoing_setPidCheckpointed hinv.ongoing)
        slots := forall_setPidCheckpointed c.pid worker hinv.slots fun slot _ hslot _ =>
          ⟨hslot ▸ hpid, hinv.worker worker rfl, rfl⟩
        worker := by simp [CmdPc.worker] }
  | clearFailed s c =>
      exact { hinv with
        commands := hcommands
        admits := hadmits
        unique := hinv.unique.clear c.pid
        ongoing := Or.inl (ongoing_clear_own hinv.ongoing)
        slots := forall_clear c.pid hinv.slots fun slot _ => shaped_assign slot pidInvalid
        worker := by simp [CmdPc.worker] }
  | openSockets | noSockets | forkFails =>
      exact { hinv with
        commands := hcommands
        admits := hadmits
        ongoing := hinv.ongoing
        worker := by simp [CmdPc.worker] }
  | _ =>
      exact { hinv with
        commands := hcommands
        admits := hadmits
        ongoing := hinv.ongoing
        worker := hinv.worker }

theorem RestoreMove.tableInvariant (h : RestoreMove dir s t) (hinv : TableInvariant s) :
    TableInvariant t := by
  have hcommands := h.carries hinv.commands
  have hadmits := (CmdMove.restore h).admits hinv.admits
  have haborts := hinv.aborts
  cases h with
  | noWorker =>
      exact { hinv with
        commands := hcommands, ongoing := hinv.ongoing, worker := by simp [CmdPc.worker] }
  | getWorker s c hlock hworker =>
      refine { hinv with commands := hcommands, ongoing := hinv.ongoing, worker := ?_ }
      rintro worker hsome
      obtain rfl : getPidWorker c.pid s.table = worker := Option.some.inj hsome
      exact getPidWorker_pos hinv.slots hworker
  | killTarget | killWorker | respond =>
      exact { hinv with
        commands := hcommands
        ongoing := hinv.ongoing
        worker := hinv.worker
        aborts := aborts_cons (by simp) haborts }
  | clear s c =>
      exact { hinv with
        commands := hcommands
        admits := hadmits
        unique := hinv.unique.clear c.pid
        ongoing := Ongoing.of_sublist hinv.ongoing (ongoing_clear_sublist c.pid)
        slots := forall_clear c.pid hinv.slots fun slot _ => shaped_assign slot pidInvalid
        worker := by simp [CmdPc.worker] }
  | _ =>
      exact { hinv with
        commands := hcommands, ongoing := hinv.ongoing, worker := hinv.worker }

theorem WorkerMove.tableInvariant {act : Act} (h : WorkerMove dir s act t)
    (hinv : TableInvariant s) : TableInvariant t := by
  have hcommands := h.carries hinv.commands
  have hadmits := h.admits hinv.admits
  have haborts := hinv.aborts
  cases h with
  | kill =>
      exact { hinv with
        commands := hcommands, aborts := aborts_cons (by simp) haborts }
  | reap k x =>
      exact { hinv with
        commands := hcommands
        admits := hadmits
        unique := hinv.unique.clearPidOnWorkerExit x.pid
        ongoing := hinv.ongoing.of_sublist (ongoing_clearPidOnWorkerExit_sublist x.pid)
        slots := forall_clearPidOnWorkerExit x.pid hinv.slots
          fun slot _ => shaped_assign slot pidInvalid }
  | _ => exact { hinv with commands := hcommands }

theorem Move.tableInvariant {act : Act} (h : Move dir s act t)
    (hpids : ∀ cd command, act = .accept cd (some command) → command.pid ≠ 0)
    (hinv : TableInvariant s) : TableInvariant t := by
  cases h with
  | accept cd command t hmove =>
      exact hmove.tableInvariant (fun received heq => hpids cd received (heq ▸ rfl)) hinv
  | main t hmove => exact hmove.tableInvariant hinv
  | cmd outcome t hmove =>
      cases hmove with
      | queue hmove => exact hmove.tableInvariant hinv
      | checkpoint hmove => exact hmove.tableInvariant hinv
      | restore hmove => exact hmove.tableInvariant hinv
  | worker act t hmove => exact hmove.tableInvariant hinv

theorem tableInvariant_boot : TableInvariant (Sys.boot Table.zero) where
  commands := carries_boot Table.zero
  admits := trivial
  unique := by
    intro pid hpid
    have hnone : entries Table.zero pid = [] := by
      simpa [entries, Table.zero, checkpointedPidsLimit] using hpid.symm
    simp [Sys.boot, hnone]
  ongoing := Or.inl rfl
  slots := by
    intro slot hslot
    rw [List.eq_of_mem_replicate hslot]
    rfl
  worker := by simp [Sys.boot, CmdPc.worker]
  aborts := by simp [Sys.boot]

theorem CmdPc.openSd_of_socket {pid sd : Int} (h : cmd.socket = some (pid, sd)) :
    ∃ own : Nat, cmd.openSd = some own ∧ sd = own := by
  cases cmd with
  | checkpointing c own worker k stage =>
      exact ⟨own, rfl, (Prod.mk.inj (Option.some.inj h)).2.symm⟩
  | _ => cases h

theorem TableInvariant.represents (hinv : TableInvariant s) : Represents s.cmd s.table where
  unique := hinv.unique
  one_checkpointing := by
    rcases hinv.ongoing with hnil | ⟨slot, hone, -⟩
    · simp [hnil]
    · simp [hone]
  checkpointing := fun slot hmem hstate => by
    have hshaped := hinv.slots slot hmem
    rw [Shaped, hstate] at hshaped
    have hslot : slot ∈ Memcr.ServiceSystem.ongoing s.table := by
      simp [Memcr.ServiceSystem.ongoing, hmem, hstate]
    exact ⟨hshaped.2, CmdPc.openSd_of_socket (hinv.ongoing.socket_eq hslot)⟩
  checkpointed := fun slot hmem hstate => by
    have hshaped := hinv.slots slot hmem
    rw [Shaped, hstate] at hshaped
    exact hshaped.2
  restored := fun slot hmem hcheckpointing hcheckpointed => by
    have hshaped := hinv.slots slot hmem
    cases hstate : slot.state with
    | restored =>
        rw [Shaped, hstate] at hshaped
        exact ⟨rfl, hshaped⟩
    | checkpointing => exact absurd hstate hcheckpointing
    | checkpointed => exact absurd hstate hcheckpointed
  free := fun slot hmem hfree => by
    have hshaped := hinv.slots slot hmem
    unfold Shaped at hshaped
    split at hshaped
    · exact ⟨‹_›, hshaped⟩
    · exact absurd hfree hshaped.1
    · exact absurd hfree hshaped.1

/-- Whatever commands on non-zero pids come in and in whatever order the parties
move, the table is well formed, and no abort goes to a descriptor other than
the one the command thread has open. -/
theorem table_represents (dir : Bool) (acts : List Act) (t : Sys)
    (hpids : ∀ cd command, .accept cd (some command) ∈ acts → command.pid ≠ 0)
    (hrun : run (step dir) (Sys.boot Table.zero) acts = some t) :
    Represents t.cmd t.table ∧ ∀ sd, .abortSent sd none ∉ t.log := by
  have hguard : Guarded (step dir)
      (fun _ act => ∀ cd command, act = .accept cd (some command) → command.pid ≠ 0)
      (Sys.boot Table.zero) acts :=
    guarded_of_forall fun act hact _ cd command heq => hpids cd command (heq ▸ hact)
  have hinv : TableInvariant t :=
    invariant_of_guarded
      (fun _ _ _ hinv hguard hstep => (step_move hstep).tableInvariant hguard hinv)
      tableInvariant_boot hguard hrun
  exact ⟨hinv.represents, hinv.aborts⟩

theorem abortedCheckpoint_represents :
    ∃ t, run (step false) (Sys.boot Table.zero) abortedCheckpoint = some t ∧
      t.cmd.openSd = some 7 ∧ .abortSent 7 (some 5) ∈ t.log ∧
      Represents t.cmd t.table ∧ ∀ sd, .abortSent sd none ∉ t.log := by
  refine ⟨_, rfl, rfl, by decide, ?_⟩
  refine table_represents false abortedCheckpoint _ ?_ rfl
  intro cd command hmem
  simp only [abortedCheckpoint, List.mem_cons, reduceCtorEq, Act.accept.injEq, Option.some.injEq,
    List.not_mem_nil, or_false, false_or] at hmem
  rcases hmem with ⟨-, rfl⟩ | ⟨-, rfl⟩ <;> decide

end Memcr.ServiceSystem
