import Memcr.FirstMatch

namespace Memcr.ServiceTable

open Memcr.FirstMatch

/-- `CHECKPOINTED_PIDS_LIMIT` -/
def checkpointedPidsLimit : Nat := 48

/-- `PID_INVALID`, which marks a free slot. -/
def pidInvalid : Int := 0

def socketInvalid : Int := -1

/-- The states of an entry. -/
inductive PidState where
  | restored
  | checkpointing
  | checkpointed
  deriving DecidableEq, Repr

/-- One entry of `checkpoint_service_data`. -/
structure Slot where
  pid : Int
  worker : Int
  state : PidState
  checkpointAbort : Bool
  checkpointCmdSd : Int
  deriving DecidableEq, Repr

/-- `checkpoint_service_data` -/
abbrev Table := List Slot

/-- The array as static storage starts it. -/
def Table.zero : Table :=
  List.replicate checkpointedPidsLimit ⟨0, 0, .restored, false, 0⟩

/-- What taking and clearing a slot both assign. `checkpoint_abort` is not
among it. -/
def Slot.assign (pid : Int) (slot : Slot) : Slot :=
  { slot with
    pid := pid
    worker := pidInvalid
    checkpointCmdSd := socketInvalid
    state := .restored }

/-- `init_pid_checkpoint_data`; a full table is left as it is. -/
def initPidCheckpointData (pid : Int) (table : Table) : Table :=
  updateFirst (fun slot => slot.pid == pidInvalid) (Slot.assign pid) table

/-- The table after an operation that may send an abort, and the socket the
abort went to. -/
structure AbortAttempt where
  table : Table
  sent : Option Int
  /-- The operation returned without unlocking the table. -/
  lockLeaked : Bool

/-- `set_pid_checkpointing` -/
def setPidCheckpointing (pid cmdSd : Int) (table : Table) : AbortAttempt :=
  let admitted := fun slot : Slot => slot.pid == pid && slot.state == .restored
  { table := updateFirst admitted
      (fun slot => { slot with state := .checkpointing, checkpointCmdSd := cmdSd }) table
    sent := if (table.find? admitted).any Slot.checkpointAbort then some cmdSd else none
    lockLeaked := false }

/-- `set_pid_checkpointed` -/
def setPidCheckpointed (pid worker : Int) (table : Table) : Table :=
  updateFirst (fun slot => slot.pid == pid && slot.state == .checkpointing)
    (fun slot => { slot with
      state := .checkpointed, checkpointCmdSd := socketInvalid, worker := worker }) table

/-- `clear_pid_checkpoint_data` -/
def clearPidCheckpointData (pid : Int) (table : Table) : Table :=
  table.map fun slot => if slot.pid == pid then slot.assign pidInvalid else slot

/-- `clear_pid_on_worker_exit_non_blocking` -/
def clearPidOnWorkerExit (worker : Int) (table : Table) : Table :=
  table.map fun slot => if slot.worker == worker then slot.assign pidInvalid else slot

/-- The pids that `clear_pid_on_worker_exit_non_blocking` hands to
`cleanup_pid`. -/
def pidsOfWorker (worker : Int) (table : Table) : List Int :=
  (table.filter fun slot => slot.worker == worker).map Slot.pid

/-- `get_pid_worker` -/
def getPidWorker (pid : Int) (table : Table) : Int :=
  match table.find? fun slot => slot.pid == pid with
  | some slot => slot.worker
  | none => pidInvalid

/-- `can_restore_pid` -/
def canRestorePid (pid : Int) (table : Table) : Bool :=
  table.any fun slot => slot.pid == pid

/-- `can_checkpoint_pid` -/
def canCheckpointPid (pid : Int) (table : Table) : Bool :=
  !table.any fun slot => slot.pid == pid

/-- `try_to_abort_checkpoint`. When no slot has the pid, the loop runs off the
end of the array and the function returns with the lock held. -/
def tryToAbortCheckpoint (pid : Int) (table : Table) : AbortAttempt :=
  match table.find? fun slot => slot.pid == pid with
  | none => { table := table, sent := none, lockLeaked := true }
  | some slot =>
      match slot.state with
      | .restored =>
          { table := updateFirst (fun slot => slot.pid == pid)
              (fun slot => { slot with checkpointAbort := true }) table
            sent := none
            lockLeaked := false }
      | .checkpointing =>
          { table := table, sent := some slot.checkpointCmdSd, lockLeaked := false }
      | .checkpointed => { table := table, sent := none, lockLeaked := false }

/-- The slots that hold a pid. -/
def entries (table : Table) (pid : Int) : List Slot :=
  table.filter fun slot => slot.pid == pid

theorem mem_entries {table : Table} {pid : Int} {slot : Slot} :
    slot ∈ entries table pid ↔ slot ∈ table ∧ slot.pid = pid := by
  simp [entries]

theorem find?_pid (table : Table) (pid : Int) :
    (table.find? fun slot => slot.pid == pid) = (entries table pid).head? := by
  rw [entries, List.head?_filter]

theorem canCheckpointPid_iff {table : Table} {pid : Int} :
    canCheckpointPid pid table = true ↔ entries table pid = [] := by
  simp [canCheckpointPid, entries, List.filter_eq_nil_iff]

theorem canRestorePid_eq (pid : Int) (table : Table) :
    canRestorePid pid table = (table.find? fun slot => slot.pid == pid).isSome :=
  List.isSome_find?.symm

theorem canCheckpointPid_eq (pid : Int) (table : Table) :
    canCheckpointPid pid table = !canRestorePid pid table := rfl

theorem getPidWorker_eq (table : Table) (pid : Int) :
    getPidWorker pid table = ((entries table pid).head?.map Slot.worker).getD pidInvalid := by
  rw [getPidWorker, find?_pid]
  cases (entries table pid).head? <;> rfl

section Entries

variable {table : Table} {pid other : Int}

theorem entries_init_of_ne (hpid : pid ≠ 0) (hne : other ≠ pid) :
    entries (initPidCheckpointData other table) pid = entries table pid := by
  apply filter_updateFirst_of_not
  · intro slot hfind
    have hfree : slot.pid = 0 := by simpa [pidInvalid] using List.find?_some hfind
    simpa [hfree] using fun h => hpid h.symm
  · intro slot _
    simpa [Slot.assign] using hne

theorem entries_init (hpid : pid ≠ 0) (hempty : entries table pid = [])
    (hfree : ∃ slot ∈ table, slot.pid = 0) :
    ∃ slot ∈ table, slot.pid = 0 ∧
      entries (initPidCheckpointData pid table) pid = [slot.assign pid] := by
  obtain ⟨slot, hmem, htest, hfilter⟩ := filter_updateFirst_of_enters
    (fun slot : Slot => slot.pid == pidInvalid) (fun slot => slot.pid == pid) (Slot.assign pid)
    (by
      intro slot hfree
      have hfree : slot.pid = 0 := by simpa [pidInvalid] using hfree
      simpa [hfree] using fun h => hpid h.symm)
    (by simp [Slot.assign]) hempty (by simpa [pidInvalid] using hfree)
  exact ⟨slot, hmem, by simpa [pidInvalid] using htest, hfilter⟩

theorem filter_map_assign (table : Table) (test keep : Slot → Bool)
    (hassign : ∀ slot, keep (Slot.assign pidInvalid slot) = false) :
    (table.map fun slot => if test slot then slot.assign pidInvalid else slot).filter keep =
      (table.filter keep).filter fun slot => !test slot := by
  induction table with
  | nil => rfl
  | cons slot rest ih =>
      simp only [List.map_cons, List.filter_cons, ih]
      cases htest : test slot <;> cases hkeep : keep slot <;> simp [htest, hkeep, hassign]

theorem assign_pid_ne (hpid : pid ≠ 0) (slot : Slot) :
    ((slot.assign pidInvalid).pid == pid) = false := by
  simpa [Slot.assign, pidInvalid] using hpid.symm

theorem entries_clear_of_ne (hpid : pid ≠ 0) (hne : other ≠ pid) :
    entries (clearPidCheckpointData other table) pid = entries table pid := by
  rw [clearPidCheckpointData, entries, filter_map_assign _ _ _ (assign_pid_ne hpid), ← entries,
    List.filter_eq_self]
  intro slot hslot
  simpa [(mem_entries.mp hslot).2] using fun h => hne h.symm

theorem entries_clearPidOnWorkerExit (hpid : pid ≠ 0) (worker : Int) :
    entries (clearPidOnWorkerExit worker table) pid =
      (entries table pid).filter fun slot => !(slot.worker == worker) :=
  filter_map_assign _ _ _ (assign_pid_ne hpid)

theorem entries_setPidCheckpointing_of_ne (cmdSd : Int) (hne : other ≠ pid) :
    entries (setPidCheckpointing other cmdSd table).table pid = entries table pid := by
  apply filter_updateFirst_of_not <;> intro slot hfind <;> have hslot := List.find?_some hfind <;>
    simp_all

theorem entries_setPidCheckpointing (cmdSd : Int) {slot : Slot}
    (hentries : entries table pid = [slot]) (hstate : slot.state = .restored) :
    entries (setPidCheckpointing pid cmdSd table).table pid =
      [{ slot with state := .checkpointing, checkpointCmdSd := cmdSd }] := by
  have hpid : slot.pid = pid := (mem_entries.mp (by rw [hentries]; simp)).2
  have hfilter : entries (setPidCheckpointing pid cmdSd table).table pid = _ :=
    filter_updateFirst_of_mem (by simp +contextual) (by simp +contextual)
  rw [hfilter, ← entries, hentries]
  simp [updateFirst, hpid, hstate]

theorem entries_setPidCheckpointed_of_ne (worker : Int) (hne : other ≠ pid) :
    entries (setPidCheckpointed other worker table) pid = entries table pid := by
  apply filter_updateFirst_of_not <;> intro slot hfind <;> have hslot := List.find?_some hfind <;>
    simp_all

theorem entries_setPidCheckpointed (worker : Int) {slot : Slot}
    (hentries : entries table pid = [slot]) (hstate : slot.state = .checkpointing) :
    entries (setPidCheckpointed pid worker table) pid =
      [{ slot with
        state := .checkpointed, checkpointCmdSd := socketInvalid, worker := worker }] := by
  have hpid : slot.pid = pid := (mem_entries.mp (by rw [hentries]; simp)).2
  have hfilter : entries (setPidCheckpointed pid worker table) pid = _ :=
    filter_updateFirst_of_mem (by simp +contextual) (by simp +contextual)
  rw [hfilter, ← entries, hentries]
  simp [updateFirst, hpid, hstate]

theorem entries_tryToAbortCheckpoint (table : Table) (pid other : Int) :
    entries (tryToAbortCheckpoint other table).table pid = entries table pid ∨
      ∃ slot rest, entries table pid = slot :: rest ∧
        entries (tryToAbortCheckpoint other table).table pid =
          { slot with checkpointAbort := true } :: rest := by
  rw [tryToAbortCheckpoint, find?_pid]
  split
  · exact Or.inl rfl
  · rename_i slot hhead
    split
    · by_cases heq : other = pid
      · subst heq
        obtain ⟨rest, hrest⟩ := List.head?_eq_some_iff.mp hhead
        have hpid : slot.pid = other := (mem_entries.mp (List.mem_of_head? hhead)).2
        refine Or.inr ⟨slot, rest, hrest, ?_⟩
        change (updateFirst _ _ table).filter _ = _
        rw [filter_updateFirst_of_mem (by simp) (by simp), ← entries, hrest]
        simp [updateFirst, hpid]
      · left
        apply filter_updateFirst_of_not <;> intro slot hfind <;>
          have hslot := List.find?_some hfind <;> simp_all
    · exact Or.inl rfl
    · exact Or.inl rfl

end Entries

section Slots

variable {property : Slot → Prop} {table : Table}

theorem forall_init (pid : Int) (h : ∀ slot ∈ table, property slot)
    (hassign : ∀ slot, (table.find? fun slot => slot.pid == pidInvalid) = some slot →
      property (slot.assign pid)) :
    ∀ slot ∈ initPidCheckpointData pid table, property slot :=
  forall_updateFirst h hassign

theorem forall_clear_of_ne (pid : Int) (h : ∀ slot ∈ table, slot.pid ≠ pid → property slot)
    (hassign : ∀ slot ∈ table, property (slot.assign pidInvalid)) :
    ∀ slot ∈ clearPidCheckpointData pid table, property slot := by
  intro slot hslot
  obtain ⟨old, hold, rfl⟩ := List.mem_map.mp hslot
  split
  · exact hassign old hold
  · rename_i hne
    exact h old hold (by simpa using hne)

theorem forall_clear (pid : Int) (h : ∀ slot ∈ table, property slot)
    (hassign : ∀ slot ∈ table, property (slot.assign pidInvalid)) :
    ∀ slot ∈ clearPidCheckpointData pid table, property slot :=
  forall_clear_of_ne pid (fun slot hmem _ => h slot hmem) hassign

theorem forall_clearPidOnWorkerExit (worker : Int) (h : ∀ slot ∈ table, property slot)
    (hassign : ∀ slot ∈ table, property (slot.assign pidInvalid)) :
    ∀ slot ∈ clearPidOnWorkerExit worker table, property slot := by
  intro slot hslot
  obtain ⟨old, hold, rfl⟩ := List.mem_map.mp hslot
  split
  · exact hassign old hold
  · exact h old hold

theorem forall_setPidCheckpointing (pid cmdSd : Int) (h : ∀ slot ∈ table, property slot)
    (hset : ∀ slot ∈ table, slot.pid = pid → slot.state = .restored →
      property { slot with state := .checkpointing, checkpointCmdSd := cmdSd }) :
    ∀ slot ∈ (setPidCheckpointing pid cmdSd table).table, property slot :=
  forall_updateFirst h fun slot hfind => by
    have htest := List.find?_some hfind
    exact hset slot (List.mem_of_find?_eq_some hfind) (by simp_all) (by simp_all)

theorem forall_setPidCheckpointed (pid worker : Int) (h : ∀ slot ∈ table, property slot)
    (hset : ∀ slot ∈ table, slot.pid = pid → slot.state = .checkpointing →
      property { slot with
        state := .checkpointed, checkpointCmdSd := socketInvalid, worker := worker }) :
    ∀ slot ∈ setPidCheckpointed pid worker table, property slot :=
  forall_updateFirst h fun slot hfind => by
    have htest := List.find?_some hfind
    exact hset slot (List.mem_of_find?_eq_some hfind) (by simp_all) (by simp_all)

theorem forall_tryToAbortCheckpoint (pid : Int) (h : ∀ slot ∈ table, property slot)
    (hset : ∀ slot ∈ table, slot.pid = pid → property { slot with checkpointAbort := true }) :
    ∀ slot ∈ (tryToAbortCheckpoint pid table).table, property slot := by
  unfold tryToAbortCheckpoint
  split
  · exact h
  · split
    · refine forall_updateFirst h fun slot hfind => ?_
      have htest := List.find?_some hfind
      exact hset slot (List.mem_of_find?_eq_some hfind) (by simpa using htest)
    · exact h
    · exact h

end Slots

end Memcr.ServiceTable
