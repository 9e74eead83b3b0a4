import Memcr.CommandQueue
import Memcr.GuardedRuns

namespace Memcr.RejectedCommands

open Memcr.CommandQueue
open Memcr.FirstMatch
open Memcr.GuardedRuns
open Memcr.RingBuffers
open Memcr.ServiceSystem
open Memcr.ServiceTable
open Memcr.WorkerProcess

/-- The table and the queue, which are all that `service_command` acts on. -/
structure Service where
  table : Table
  cmds : ServiceCmds

/-- What `service_command` leaves and answers. -/
structure Handled where
  service : Service
  /-- The response to the client, unless the command is scheduled. -/
  answer : Option Response
  /-- The socket that an abort message was sent to. -/
  sent : Option Int

/-- `service_command`; `reaches` says on which sockets `send_checkpoint_abort` gets
its message through. -/
def serviceCommand (reaches : Int → Bool) (c : Ctx) (s : Service) : Handled :=
  if c.svcCmd.cmd = memcrCheckpoint then
    if !canCheckpointPid c.pid s.table then ⟨s, some .invalidPid, none⟩
    else
      let table := initPidCheckpointData c.pid s.table
      let (ret, cmds) := serviceCmdsPushBack c s.cmds
      if ret = 0 then ⟨⟨table, cmds⟩, none, none⟩
      else ⟨⟨clearPidCheckpointData c.pid table, cmds⟩, some .errorGeneral, none⟩
  else if c.svcCmd.cmd = memcrRestore then
    if !canRestorePid c.pid s.table then ⟨s, some .invalidPid, none⟩
    else
      let attempt := tryToAbortCheckpoint c.pid s.table
      let (ret, cmds) := serviceCmdsPushBack c s.cmds
      ⟨⟨attempt.table, cmds⟩, if ret = 0 then none else some .errorGeneral,
        attempt.sent.filter reaches⟩
  else ⟨s, some .errorGeneral, none⟩

/-- What the slot says of a process, but for the abort flag and the socket. -/
def occupant (slot : Slot) : Option (Int × Int × PidState) :=
  if slot.pid = pidInvalid then none else some (slot.pid, slot.worker, slot.state)

/-- The command has left no trace in the service. -/
structure Unchanged (before : Service) (h : Handled) : Prop where
  cmds : h.service.cmds = before.cmds
  occupants : h.service.table.map occupant = before.table.map occupant
  aborts : h.service.table.map Slot.checkpointAbort = before.table.map Slot.checkpointAbort
  sent : h.sent = none

/-- A request to abort the checkpoint of the pid leaves its mark: a flag that was
not raised yet, or a message. -/
def AbortShows (reaches : Int → Bool) (pid : Int) (table : Table) : Prop :=
  ∃ slot, (table.find? fun slot => slot.pid == pid) = some slot ∧
    (slot.state = .restored ∧ slot.checkpointAbort = false ∨
      slot.state = .checkpointing ∧ reaches slot.checkpointCmdSd = true)

theorem pushBack_of_room {c : Ctx} {q : ServiceCmds} (h : q.ring.size < maxClientConnections) :
    serviceCmdsPushBack c q = (0, { q with ring := q.ring.pushBack maxClientConnections c }) :=
  if_neg (not_le.mpr h)

theorem pushBack_of_full {c : Ctx} {q : ServiceCmds} (h : maxClientConnections ≤ q.ring.size) :
    serviceCmdsPushBack c q = (1, q) :=
  if_pos h

section Tables

variable {table : Table} {pid : Int}

theorem occupant_assign_pidInvalid (slot : Slot) :
    occupant (slot.assign pidInvalid) = none := rfl

theorem occupants_clear_init (hpid : canCheckpointPid pid table = true) :
    (clearPidCheckpointData pid (initPidCheckpointData pid table)).map occupant =
      table.map occupant := by
  have habsent : ∀ slot ∈ table, slot.pid ≠ pid := by
    intro slot hslot heq
    have hentries := canCheckpointPid_iff.mp hpid
    have hmem := mem_entries.mpr ⟨hslot, heq⟩
    rw [hentries] at hmem
    exact List.not_mem_nil hmem
  have hcleared : ∀ slots : Table, (clearPidCheckpointData pid slots).map occupant =
      slots.map fun slot =>
        occupant (if slot.pid == pid then slot.assign pidInvalid else slot) := by
    intro slots
    rw [clearPidCheckpointData, List.map_map]
    rfl
  calc (clearPidCheckpointData pid (initPidCheckpointData pid table)).map occupant
      = table.map fun slot =>
          occupant (if slot.pid == pid then slot.assign pidInvalid else slot) := by
        rw [hcleared, initPidCheckpointData, map_updateFirst_eq_iff]
        intro slot hfree
        have hzero : slot.pid = pidInvalid := by simpa using List.find?_some hfree
        have hassigned : (slot.assign pid).pid = pid := rfl
        rw [hassigned, if_pos (beq_self_eq_true pid), occupant_assign_pidInvalid]
        split_ifs
        · rfl
        · simp [occupant, hzero]
    _ = table.map occupant := by
        apply List.map_congr_left
        intro slot hslot
        rw [if_neg (by simpa using habsent slot hslot)]

theorem aborts_clear_init :
    (clearPidCheckpointData pid (initPidCheckpointData pid table)).map Slot.checkpointAbort =
      table.map Slot.checkpointAbort := by
  rw [clearPidCheckpointData, List.map_map]
  have hkeeps : (Slot.checkpointAbort ∘ fun slot : Slot =>
      if slot.pid == pid then slot.assign pidInvalid else slot) = Slot.checkpointAbort := by
    funext slot
    simp only [Function.comp_apply]
    split_ifs <;> rfl
  rw [hkeeps, initPidCheckpointData, map_updateFirst_eq_iff]
  intro slot _
  rfl

theorem occupants_tryToAbort (pid : Int) (table : Table) :
    (tryToAbortCheckpoint pid table).table.map occupant = table.map occupant := by
  rw [tryToAbortCheckpoint]
  split
  · rfl
  · split
    · rw [map_updateFirst_eq_iff]
      intro slot _
      rfl
    · rfl
    · rfl

theorem abortShows_iff (reaches : Int → Bool) :
    AbortShows reaches pid table ↔
      ¬ ((tryToAbortCheckpoint pid table).table.map Slot.checkpointAbort =
            table.map Slot.checkpointAbort ∧
          (tryToAbortCheckpoint pid table).sent.filter reaches = none) := by
  rw [AbortShows, tryToAbortCheckpoint]
  split
  · rename_i hnone
    simp [hnone]
  · rename_i slot hfind
    simp only [hfind, Option.some.injEq, exists_eq_left']
    split
    · rename_i hstate
      have hflag : ((updateFirst (fun slot => slot.pid == pid)
          (fun slot => { slot with checkpointAbort := true }) table).map Slot.checkpointAbort =
            table.map Slot.checkpointAbort) ↔ slot.checkpointAbort = true := by
        rw [map_updateFirst_eq_iff]
        constructor
        · intro h
          exact (h slot hfind).symm
        · intro h other hother
          obtain rfl : slot = other := Option.some.inj (hfind.symm.trans hother)
          exact h.symm
      simp [hstate, hflag]
    · rename_i hstate
      simp [hstate]
    · rename_i hstate
      simp [hstate]

end Tables

section Alone

variable {dir : Bool} {s t : Sys} {q : ServiceCmds} {c : Ctx} {table : Table} {queue : List Ctx}

/-- Left alone, the main thread finishes its command with this table and queue. -/
def EndsWith (dir : Bool) (s : Sys) (table : Table) (queue : List Ctx) : Prop :=
  ∃ n s', run (step dir) s (List.replicate n .main) = some s' ∧
    s'.main = .idle ∧ s'.table = table ∧ s'.queue = queue

theorem EndsWith.of_step (hstep : mainStep s = some t) (h : EndsWith dir t table queue) :
    EndsWith dir s table queue := by
  obtain ⟨n, s', hrun, hend⟩ := h
  refine ⟨n + 1, s', ?_, hend⟩
  simp only [List.replicate_succ, run, step, hstep]
  exact hrun

theorem endsWith_idle (hmain : s.main = .idle) : EndsWith dir s s.table s.queue :=
  ⟨0, s, rfl, hmain, rfl, rfl⟩

theorem endsWith_respond {code : Response} (hmain : s.main = .respond c code) :
    EndsWith dir s s.table s.queue := by
  refine EndsWith.of_step (t := { s with
    main := .close c, log := .responded c.cd code :: s.log }) (by simp only [mainStep, hmain]) ?_
  exact EndsWith.of_step rfl (endsWith_idle rfl)

/-- The main thread gets to the end of the command with the table and the queue of `h`. -/
def EndsAs (dir : Bool) (s : Sys) (h : Handled) : Prop :=
  ∃ queue, EndsWith dir s h.service.table queue ∧
    Holds maxClientConnections h.service.cmds.ring queue

theorem EndsAs.of_step {h : Handled} (hstep : mainStep s = some t) (hend : EndsAs dir t h) :
    EndsAs dir s h := by
  obtain ⟨queue, hends, hholds⟩ := hend
  exact ⟨queue, hends.of_step hstep, hholds⟩

variable {reaches : Int → Bool}

theorem endsAs_respond {code : Response} {answer : Option Response} {sent : Option Int}
    (hmain : s.main = .respond c code) (hqueue : Holds maxClientConnections q.ring s.queue) :
    EndsAs dir s ⟨⟨s.table, q⟩, answer, sent⟩ :=
  ⟨s.queue, endsWith_respond hmain, hqueue⟩

theorem endsAs_pushed {answer : Option Response} {sent : Option Int}
    (hmain : s.main = .pushCheckpoint c ∨ s.main = .pushRestore c)
    (hqueue : Holds maxClientConnections q.ring s.queue)
    (hroom : s.queue.length < maxClientConnections) :
    EndsAs dir s
      ⟨⟨s.table, { q with ring := q.ring.pushBack maxClientConnections c }⟩, answer, sent⟩ := by
  have hstep : mainStep s = some { s with queue := s.queue ++ [c], main := .idle } := by
    rcases hmain with hmain | hmain <;> simp only [mainStep, hmain, if_pos hroom]
  exact ⟨s.queue ++ [c], EndsWith.of_step hstep (endsWith_idle rfl), hqueue.pushBack hroom c⟩

theorem endsAs_checkpoint (hmain : s.main = .canCheckpoint c) (hlock : s.lockHeld = false)
    (hqueue : Holds maxClientConnections q.ring s.queue)
    (hcmd : c.svcCmd.cmd = memcrCheckpoint) :
    EndsAs dir s (serviceCommand reaches c ⟨s.table, q⟩) := by
  simp only [serviceCommand, if_pos hcmd]
  rcases hcan : canCheckpointPid c.pid s.table with _ | _
  · refine EndsAs.of_step (t := { s with main := .respond c .invalidPid })
      (by simp [mainStep, hmain, Sys.locked, hlock, hcan]) ?_
    exact endsAs_respond rfl hqueue
  · refine EndsAs.of_step (t := { s with main := .initPid c })
      (by simp [mainStep, hmain, Sys.locked, hlock, hcan]) ?_
    refine EndsAs.of_step (by simp only [mainStep, Sys.locked, hlock]; rfl) ?_
    rcases lt_or_ge s.queue.length maxClientConnections with hroom | hfull
    · rw [pushBack_of_room (hqueue.size.trans_lt hroom)]
      exact endsAs_pushed (Or.inl rfl) hqueue hroom
    · rw [pushBack_of_full (hfull.trans hqueue.size.ge)]
      refine EndsAs.of_step (by simp only [mainStep, if_neg (not_lt.mpr hfull)]; rfl) ?_
      refine EndsAs.of_step (by simp only [mainStep, Sys.locked]; rfl) ?_
      exact endsAs_respond rfl hqueue

theorem endsAs_restore (hmain : s.main = .canRestore c) (hlock : s.lockHeld = false)
    (hqueue : Holds maxClientConnections q.ring s.queue) (hcmd : c.svcCmd.cmd = memcrRestore) :
    EndsAs dir s (serviceCommand reaches c ⟨s.table, q⟩) := by
  have hcheckpoint : c.svcCmd.cmd ≠ memcrCheckpoint := by
    rw [hcmd]
    decide
  simp only [serviceCommand, if_neg hcheckpoint, if_pos hcmd]
  rcases hcan : canRestorePid c.pid s.table with _ | _
  · refine EndsAs.of_step (t := { s with main := .respond c .invalidPid })
      (by simp [mainStep, hmain, Sys.locked, hlock, hcan]) ?_
    exact endsAs_respond rfl hqueue
  · refine EndsAs.of_step (t := { s with main := .tryAbort c })
      (by simp [mainStep, hmain, Sys.locked, hlock, hcan]) ?_
    refine EndsAs.of_step (by simp only [mainStep, Sys.locked, hlock]; rfl) ?_
    rcases lt_or_ge s.queue.length maxClientConnections with hroom | hfull
    · rw [pushBack_of_room (hqueue.size.trans_lt hroom)]
      exact endsAs_pushed (Or.inr rfl) hqueue hroom
    · rw [pushBack_of_full (hfull.trans hqueue.size.ge)]
      have hpush : ¬ s.queue.length < maxClientConnections := not_lt.mpr hfull
      refine EndsAs.of_step (by simp only [mainStep, Sys.logAbort, hpush, if_false]; rfl) ?_
      exact endsAs_respond rfl hqueue

/-- The main thread of the service, left alone with a command, does to the table
and the queue what `service_command` does. -/
theorem serviceCommand_alone (hidle : s.main = .idle) (hlock : s.lockHeld = false)
    (hqueue : Holds maxClientConnections q.ring s.queue) (reaches : Int → Bool) (c : Ctx) :
    ∃ t, step dir s (.accept c.cd (some c.svcCmd)) = some t ∧
      EndsAs dir t (serviceCommand reaches c ⟨s.table, q⟩) := by
  simp only [step, acceptStep, hidle]
  refine ⟨_, rfl, ?_⟩
  rcases eq_or_ne c.svcCmd.cmd memcrCheckpoint with hcheckpoint | hcheckpoint
  · exact endsAs_checkpoint (if_pos hcheckpoint) hlock hqueue hcheckpoint
  · rcases eq_or_ne c.svcCmd.cmd memcrRestore with hrestore | hrestore
    · exact endsAs_restore ((if_neg hcheckpoint).trans (if_pos hrestore)) hlock hqueue hrestore
    · simp only [serviceCommand, if_neg hcheckpoint, if_neg hrestore]
      exact endsAs_respond rfl hqueue

end Alone

/-- A command that is answered with an error has changed nothing, except a RESTORE
that finds the queue full after its request to abort has left a mark. -/
theorem rejected_unchanged_iff (reaches : Int → Bool) (c : Ctx) (s : Service) :
    ((serviceCommand reaches c s).answer = some .invalidPid ∨
        (serviceCommand reaches c s).answer = some .errorGeneral →
      Unchanged s (serviceCommand reaches c s)) ↔
    ¬ (c.svcCmd.cmd = memcrRestore ∧ maxClientConnections ≤ s.cmds.ring.size ∧
      AbortShows reaches c.pid s.table) := by
  rcases eq_or_ne c.svcCmd.cmd memcrRestore with hrestore | hother
  · have hcheckpoint : c.svcCmd.cmd ≠ memcrCheckpoint := by
      rw [hrestore]
      decide
    simp only [serviceCommand, if_neg hcheckpoint, if_pos hrestore]
    rcases hfound : canRestorePid c.pid s.table with _ | _
    · -- no slot has the pid, and the command is refused at once
      have hnot : ¬ AbortShows reaches c.pid s.table := by
        rw [canRestorePid_eq] at hfound
        rintro ⟨slot, hslot, -⟩
        simp [hslot] at hfound
      exact iff_of_true (fun _ => ⟨rfl, rfl, rfl, rfl⟩) (fun h => hnot h.2.2)
    · rcases lt_or_ge s.cmds.ring.size maxClientConnections with hroom | hfull
      · refine iff_of_true ?_ (fun h => not_le.mpr hroom h.2.1)
        rw [pushBack_of_room hroom]
        rintro (h | h) <;> cases h
      · rw [pushBack_of_full hfull]
        simp only [hrestore, hfull, true_and, abortShows_iff, not_not]
        constructor
        · intro h
          obtain ⟨-, -, haborts, hsent⟩ := h (Or.inr rfl)
          exact ⟨haborts, hsent⟩
        · rintro ⟨haborts, hsent⟩ -
          exact ⟨rfl, occupants_tryToAbort c.pid s.table, haborts, hsent⟩
  · refine iff_of_true ?_ (fun h => hother h.1)
    simp only [serviceCommand, if_neg hother]
    split
    · split
      · exact fun _ => ⟨rfl, rfl, rfl, rfl⟩
      · rename_i hcan
        rcases lt_or_ge s.cmds.ring.size maxClientConnections with hroom | hfull
        · rw [pushBack_of_room hroom]
          rintro (h | h) <;> cases h
        · rw [pushBack_of_full hfull]
          exact fun _ =>
            ⟨rfl, occupants_clear_init (by simpa using hcan), aborts_clear_init, rfl⟩
    · exact fun _ => ⟨rfl, rfl, rfl, rfl⟩

/-- A checkpoint of process 5 is in progress, and eight RESTOREs of it are in the queue. -/
def busyService : Service where
  table := ⟨5, 0, .checkpointing, false, 7⟩ :: Table.zero.tail
  cmds := ⟨⟨List.replicate 8 ⟨restoreFive, 4⟩, 0, 0, 8⟩, false⟩

theorem refusedRestore_aborts :
    (serviceCommand (fun _ => true) ⟨restoreFive, 9⟩ busyService).answer =
        some .errorGeneral ∧
      (serviceCommand (fun _ => true) ⟨restoreFive, 9⟩ busyService).sent =
        some 7 := by
  decide

end Memcr.RejectedCommands
