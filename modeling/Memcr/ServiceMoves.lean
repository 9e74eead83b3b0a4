import Memcr.ServiceSystem

namespace Memcr.ServiceSystem

open Memcr.ByteWords
open Memcr.ServiceTable
open Memcr.WorkerProcess

theorem Sys.locked_eq_some {s next t : Sys} (h : s.locked next = some t) :
    s.lockHeld = false ∧ t = next := by
  unfold Sys.locked at h
  split at h
  · cases h
  · rename_i hheld
    exact ⟨by simpa using hheld, (Option.some.inj h).symm⟩

theorem exists_of_any {o : Option Proc} {test : Proc → Bool} (h : o.any test = true) :
    ∃ x, o = some x ∧ test x = true := by
  cases o with
  | none => cases h
  | some x => exact ⟨x, rfl, h⟩

/-- A connection is accepted, and the command on it read or not. -/
inductive AcceptMove (cd : Nat) : Option ServiceCommand → Sys → Sys → Prop where
  | unread (s : Sys) :
      AcceptMove cd none { s with main := .idle }
        { s with main := .idle, log := .closed cd :: s.log }
  | checkpoint (s : Sys) (command : ServiceCommand) (hcmd : command.cmd = memcrCheckpoint) :
      AcceptMove cd (some command) { s with main := .idle }
        { s with main := .canCheckpoint ⟨command, cd⟩, log := .received command :: s.log }
  | restore (s : Sys) (command : ServiceCommand) (hcmd : command.cmd = memcrRestore) :
      AcceptMove cd (some command) { s with main := .idle }
        { s with main := .canRestore ⟨command, cd⟩, log := .received command :: s.log }
  | unknown (s : Sys) (command : ServiceCommand) (hcheckpoint : command.cmd ≠ memcrCheckpoint)
      (hrestore : command.cmd ≠ memcrRestore) :
      AcceptMove cd (some command) { s with main := .idle }
        { s with main := .respond ⟨command, cd⟩ .errorGeneral, log := .received command :: s.log }

theorem acceptStep_move {s t : Sys} {cd : Nat} {command : Option ServiceCommand}
    (h : acceptStep s cd command = some t) : AcceptMove cd command s t := by
  obtain ⟨table, lock, queue, main, cmd, procs, sock, log⟩ := s
  unfold acceptStep at h
  split at h
  case h_1 hmain =>
    cases h
    cases hmain
    exact .unread ⟨table, lock, queue, .idle, cmd, procs, sock, log⟩
  case h_2 svcCmd hmain =>
    cases h
    cases hmain
    by_cases hcheckpoint : svcCmd.cmd = memcrCheckpoint
    · rw [if_pos hcheckpoint]
      exact .checkpoint ⟨table, lock, queue, .idle, cmd, procs, sock, log⟩ svcCmd hcheckpoint
    · rw [if_neg hcheckpoint]
      by_cases hrestore : svcCmd.cmd = memcrRestore
      · rw [if_pos hrestore]
        exact .restore ⟨table, lock, queue, .idle, cmd, procs, sock, log⟩ svcCmd hrestore
      · rw [if_neg hrestore]
        exact .unknown ⟨table, lock, queue, .idle, cmd, procs, sock, log⟩ svcCmd hcheckpoint
          hrestore
  case h_3 => cases h

/-- `service_command` goes on by one step. -/
inductive MainMove : Sys → Sys → Prop where
  | mayCheckpoint (s : Sys) (c : Ctx) (hlock : s.lockHeld = false)
      (hfree : canCheckpointPid c.pid s.table = true) :
      MainMove { s with main := .canCheckpoint c } { s with main := .initPid c }
  | refuseCheckpoint (s : Sys) (c : Ctx) (hlock : s.lockHeld = false)
      (hused : canCheckpointPid c.pid s.table = false) :
      MainMove { s with main := .canCheckpoint c } { s with main := .respond c .invalidPid }
  | initPid (s : Sys) (c : Ctx) (hlock : s.lockHeld = false) :
      MainMove { s with main := .initPid c }
        { s with
          table := initPidCheckpointData c.pid s.table
          main := .pushCheckpoint c
          log :=
            if s.table.any fun slot => slot.pid == pidInvalid then .created c.pid :: s.log
            else s.log }
  | pushCheckpoint (s : Sys) (c : Ctx) (hroom : s.queue.length < maxClientConnections) :
      MainMove { s with main := .pushCheckpoint c }
        { s with main := .idle, queue := s.queue ++ [c] }
  | checkpointQueueFull (s : Sys) (c : Ctx) (hfull : ¬ s.queue.length < maxClientConnections) :
      MainMove { s with main := .pushCheckpoint c } { s with main := .clearRefused c }
  | clearRefused (s : Sys) (c : Ctx) (hlock : s.lockHeld = false) :
      MainMove { s with main := .clearRefused c }
        { s with
          table := clearPidCheckpointData c.pid s.table, main := .respond c .errorGeneral }
  | mayRestore (s : Sys) (c : Ctx) (hlock : s.lockHeld = false)
      (hused : canRestorePid c.pid s.table = true) :
      MainMove { s with main := .canRestore c } { s with main := .tryAbort c }
  | refuseRestore (s : Sys) (c : Ctx) (hlock : s.lockHeld = false)
      (hfree : canRestorePid c.pid s.table = false) :
      MainMove { s with main := .canRestore c } { s with main := .respond c .invalidPid }
  | tryAbort (s : Sys) (c : Ctx) (hlock : s.lockHeld = false) :
      MainMove { s with main := .tryAbort c }
        ({ s with
          table := (tryToAbortCheckpoint c.pid s.table).table
          lockHeld := (tryToAbortCheckpoint c.pid s.table).lockLeaked
          main := .pushRestore c }.logAbort (tryToAbortCheckpoint c.pid s.table).sent)
  | pushRestore (s : Sys) (c : Ctx) (hroom : s.queue.length < maxClientConnections) :
      MainMove { s with main := .pushRestore c }
        { s with main := .idle, queue := s.queue ++ [c] }
  | restoreQueueFull (s : Sys) (c : Ctx) (hfull : ¬ s.queue.length < maxClientConnections) :
      MainMove { s with main := .pushRestore c } { s with main := .respond c .errorGeneral }
  | respond (s : Sys) (c : Ctx) (code : Response) :
      MainMove { s with main := .respond c code }
        { s with main := .close c, log := .responded c.cd code :: s.log }
  | close (s : Sys) (c : Ctx) :
      MainMove { s with main := .close c } { s with main := .idle, log := .closed c.cd :: s.log }

theorem mainStep_move {s t : Sys} (h : mainStep s = some t) : MainMove s t := by
  obtain ⟨table, lock, queue, main, cmd, procs, sock, log⟩ := s
  cases main with
  | idle => cases h
  | canCheckpoint c =>
      obtain ⟨hlock, rfl⟩ := Sys.locked_eq_some h
      cases hfree : canCheckpointPid c.pid table with
      | true =>
          exact .mayCheckpoint ⟨table, lock, queue, .idle, cmd, procs, sock, log⟩ c hlock hfree
      | false =>
          exact .refuseCheckpoint ⟨table, lock, queue, .idle, cmd, procs, sock, log⟩ c hlock hfree
  | initPid c =>
      obtain ⟨hlock, rfl⟩ := Sys.locked_eq_some h
      exact .initPid ⟨table, lock, queue, .idle, cmd, procs, sock, log⟩ c hlock
  | pushCheckpoint c =>
      simp only [mainStep] at h
      split at h <;> cases h <;> rename_i hroom
      · exact .pushCheckpoint ⟨table, lock, queue, .idle, cmd, procs, sock, log⟩ c hroom
      · exact .checkpointQueueFull ⟨table, lock, queue, .idle, cmd, procs, sock, log⟩ c hroom
  | clearRefused c =>
      obtain ⟨hlock, rfl⟩ := Sys.locked_eq_some h
      exact .clearRefused ⟨table, lock, queue, .idle, cmd, procs, sock, log⟩ c hlock
  | canRestore c =>
      obtain ⟨hlock, rfl⟩ := Sys.locked_eq_some h
      cases hused : canRestorePid c.pid table with
      | true => exact .mayRestore ⟨table, lock, queue, .idle, cmd, procs, sock, log⟩ c hlock hused
      | false =>
          exact .refuseRestore ⟨table, lock, queue, .idle, cmd, procs, sock, log⟩ c hlock hused
  | tryAbort c =>
      obtain ⟨hlock, rfl⟩ := Sys.locked_eq_some h
      exact .tryAbort ⟨table, lock, queue, .idle, cmd, procs, sock, log⟩ c hlock
  | pushRestore c =>
      simp only [mainStep] at h
      split at h <;> cases h <;> rename_i hroom
      · exact .pushRestore ⟨table, lock, queue, .idle, cmd, procs, sock, log⟩ c hroom
      · exact .restoreQueueFull ⟨table, lock, queue, .idle, cmd, procs, sock, log⟩ c hroom
  | respond c code =>
      cases h
      exact .respond ⟨table, lock, queue, .idle, cmd, procs, sock, log⟩ c code
  | close c =>
      cases h
      exact .close ⟨table, lock, queue, .idle, cmd, procs, sock, log⟩ c

/-- `service_command_thread` goes on by one step of a CHECKPOINT. -/
inductive CheckpointMove (dir : Bool) : Sys → Sys → Prop where
  | openSockets (s : Sys) (c : Ctx) (sd : Nat) :
      CheckpointMove dir { s with cmd := .starting c .socketpair }
        { s with cmd := .starting c (.fork sd) }
  | noSockets (s : Sys) (c : Ctx) :
      CheckpointMove dir { s with cmd := .starting c .socketpair } { s with cmd := .stopped c }
  | fork (s : Sys) (c : Ctx) (sd : Nat) (pid : Int) (env : WorkerEnv)
      (hfresh : s.freshPid pid = true) :
      CheckpointMove dir { s with cmd := .starting c (.fork sd) }
        { s with
          procs := s.procs ++ [⟨pid, c.pid, env, 0, false, false, false, false, none⟩]
          cmd := .starting c (.setCheckpointing sd pid s.procs.length) }
  | forkFails (s : Sys) (c : Ctx) (sd : Nat) :
      CheckpointMove dir { s with cmd := .starting c (.fork sd) }
        { s with cmd := .starting c .clearNoFork }
  | clearNoFork (s : Sys) (c : Ctx) (hlock : s.lockHeld = false) :
      CheckpointMove dir { s with cmd := .starting c .clearNoFork }
        { s with
          table := clearPidCheckpointData c.pid s.table, cmd := .ending c .closeCd }
  | setCheckpointing (s : Sys) (c : Ctx) (sd : Nat) (worker : Int) (k : Nat)
      (hlock : s.lockHeld = false) :
      CheckpointMove dir { s with cmd := .starting c (.setCheckpointing sd worker k) }
        ({ s with
          table := (setPidCheckpointing c.pid sd s.table).table
          cmd := .checkpointing c sd worker k .readResponse }.logAbort
            (setPidCheckpointing c.pid sd s.table).sent)
  | response (s : Sys) (c : Ctx) (sd : Nat) (worker : Int) (k : Nat) (code : Response) (x : Proc)
      (hx : s.procs[k]? = some x) (hcode : .respondCheckpoint code true ∈ x.done dir) :
      CheckpointMove dir { s with cmd := .checkpointing c sd worker k .readResponse }
        { s with cmd := .checkpointing c sd worker k (.respond code) }
  | noResponse (s : Sys) (c : Ctx) (sd : Nat) (worker : Int) (k : Nat) :
      CheckpointMove dir { s with cmd := .checkpointing c sd worker k .readResponse }
        { s with cmd := .checkpointing c sd worker k .killTarget }
  | killTarget (s : Sys) (c : Ctx) (sd : Nat) (worker : Int) (k : Nat) :
      CheckpointMove dir { s with cmd := .checkpointing c sd worker k .killTarget }
        { s.kill c.pid c.pid worker with cmd := .checkpointing c sd worker k .killWorker }
  | killWorker (s : Sys) (c : Ctx) (sd : Nat) (worker : Int) (k : Nat) :
      CheckpointMove dir { s with cmd := .checkpointing c sd worker k .killWorker }
        { s.kill worker c.pid worker with cmd := .checkpointing c sd worker k .cleanup }
  | cleanup (s : Sys) (c : Ctx) (sd : Nat) (worker : Int) (k : Nat) :
      CheckpointMove dir { s with cmd := .checkpointing c sd worker k .cleanup }
        { s.cleanupPid dir c.pid with
          cmd := .checkpointing c sd worker k (.respond .errorGeneral) }
  | respond (s : Sys) (c : Ctx) (sd : Nat) (worker : Int) (k : Nat) (code : Response) :
      CheckpointMove dir { s with cmd := .checkpointing c sd worker k (.respond code) }
        { s with
          cmd := .checkpointing c sd worker k (.finish code)
          log := .responded c.cd code :: s.log }
  | setCheckpointed (s : Sys) (c : Ctx) (sd : Nat) (worker : Int) (k : Nat)
      (hlock : s.lockHeld = false) :
      CheckpointMove dir { s with cmd := .checkpointing c sd worker k (.finish .ok) }
        { s with
          table := setPidCheckpointed c.pid worker s.table
          procs := s.procs.modify k fun x => { x with served := true }
          cmd := .ending c (.closeSd sd) }
  | clearFailed (s : Sys) (c : Ctx) (sd : Nat) (worker : Int) (k : Nat) (code : Response)
      (hcode : code ≠ .ok) (hlock : s.lockHeld = false) :
      CheckpointMove dir { s with cmd := .checkpointing c sd worker k (.finish code) }
        { s with
          table := clearPidCheckpointData c.pid s.table, cmd := .ending c (.closeSd sd) }

/-- `service_command_thread` goes on by one step of a RESTORE. -/
inductive RestoreMove (dir : Bool) : Sys → Sys → Prop where
  | noWorker (s : Sys) (c : Ctx) (hlock : s.lockHeld = false)
      (hworker : getPidWorker c.pid s.table = pidInvalid) :
      RestoreMove dir { s with cmd := .getWorker c } { s with cmd := .ending c .respondNoWorker }
  | getWorker (s : Sys) (c : Ctx) (hlock : s.lockHeld = false)
      (hworker : getPidWorker c.pid s.table ≠ pidInvalid) :
      RestoreMove dir { s with cmd := .getWorker c }
        { s with cmd := .restoring c (getPidWorker c.pid s.table) .connect }
  | connect (s : Sys) (c : Ctx) (worker : Int) (k : Nat)
      (hlistener : s.listener dir c.pid = some k) :
      RestoreMove dir { s with cmd := .restoring c worker .connect }
        { s with
          procs := s.procs.modify k fun x => { x with connected := true }
          cmd := .restoring c worker (.write (some k)) }
  | noConnection (s : Sys) (c : Ctx) (worker : Int) :
      RestoreMove dir { s with cmd := .restoring c worker .connect }
        { s with cmd := .restoring c worker (.write none) }
  | write (s : Sys) (c : Ctx) (worker : Int) (k n : Nat) :
      RestoreMove dir { s with cmd := .restoring c worker (.write (some k)) }
        { s with
          procs := s.procs.modify k (Proc.tell (c.svcCmd.bytes.take n))
          cmd := .restoring c worker
            (.read (if (s.procs[k]?).any fun x => x.inbox.isNone then some k else none)) }
  | noWrite (s : Sys) (c : Ctx) (worker : Int) :
      RestoreMove dir { s with cmd := .restoring c worker (.write none) }
        { s with cmd := .restoring c worker (.read none) }
  | response (s : Sys) (c : Ctx) (worker : Int) (k : Nat) (code : Response) (x : Proc)
      (hx : s.procs[k]? = some x) (hcode : .respondRestore code true ∈ x.done dir) :
      RestoreMove dir { s with cmd := .restoring c worker (.read (some k)) }
        { s with
          cmd := .restoring c worker (.respond (if code = .ok then .ok else .errorGeneral)) }
  | noResponse (s : Sys) (c : Ctx) (worker : Int) (rd : Option Nat) :
      RestoreMove dir { s with cmd := .restoring c worker (.read rd) }
        { s with cmd := .restoring c worker .killTarget }
  | killTarget (s : Sys) (c : Ctx) (worker : Int) :
      RestoreMove dir { s with cmd := .restoring c worker .killTarget }
        { s.kill c.pid c.pid worker with cmd := .restoring c worker .killWorker }
  | killWorker (s : Sys) (c : Ctx) (worker : Int) :
      RestoreMove dir { s with cmd := .restoring c worker .killWorker }
        { s.kill worker c.pid worker with cmd := .restoring c worker .cleanup }
  | cleanup (s : Sys) (c : Ctx) (worker : Int) :
      RestoreMove dir { s with cmd := .restoring c worker .cleanup }
        { s.cleanupPid dir c.pid with cmd := .restoring c worker (.respond .errorGeneral) }
  | respond (s : Sys) (c : Ctx) (worker : Int) (code : Response) :
      RestoreMove dir { s with cmd := .restoring c worker (.respond code) }
        { s with
          cmd := .restoring c worker .clear, log := .responded c.cd code :: s.log }
  | clear (s : Sys) (c : Ctx) (worker : Int) (hlock : s.lockHeld = false) :
      RestoreMove dir { s with cmd := .restoring c worker .clear }
        { s with
          table := clearPidCheckpointData c.pid s.table, cmd := .ending c .closeCd }

/-- `service_command_thread` takes a command or gets done with one. -/
inductive QueueMove : Sys → Sys → Prop where
  | pop (s : Sys) (c : Ctx) (rest : List Ctx) :
      QueueMove { s with cmd := .waiting, queue := c :: rest }
        { s with cmd := dispatch c, queue := rest }
  | closeSd (s : Sys) (c : Ctx) (sd : Nat) :
      QueueMove { s with cmd := .ending c (.closeSd sd) } { s with cmd := .ending c .closeCd }
  | respondNoWorker (s : Sys) (c : Ctx) :
      QueueMove { s with cmd := .ending c .respondNoWorker }
        { s with
          cmd := .ending c .closeNoWorker, log := .responded c.cd .errorGeneral :: s.log }
  | closeNoWorker (s : Sys) (c : Ctx) :
      QueueMove { s with cmd := .ending c .closeNoWorker }
        { s with cmd := .ending c .closeCd, log := .closed c.cd :: s.log }
  | closeCd (s : Sys) (c : Ctx) :
      QueueMove { s with cmd := .ending c .closeCd }
        { s with cmd := .waiting, log := .closed c.cd :: s.log }

section CmdMoves

variable {dir : Bool} {table : Table} {lock : Bool} {queue : List Ctx} {main : MainPc}
  {procs : List Proc} {sock : Int → Option Nat} {log : List Event} {t : Sys} {c : Ctx}
  {outcome : Outcome}

theorem startStep_move {stage : StartStage}
    (h : startStep ⟨table, lock, queue, main, .starting c stage, procs, sock, log⟩ c stage
      outcome = some t) :
    CheckpointMove dir ⟨table, lock, queue, main, .starting c stage, procs, sock, log⟩ t := by
  let s : Sys := ⟨table, lock, queue, main, .waiting, procs, sock, log⟩
  unfold startStep at h
  split at h
  case h_1 sd =>
    cases h
    exact .openSockets s c sd
  case h_2 =>
    cases h
    exact .noSockets s c
  case h_3 sd pid env =>
    split at h
    · rename_i hfresh
      cases h
      exact .fork s c sd pid env hfresh
    · cases h
  case h_4 sd =>
    cases h
    exact .forkFails s c sd
  case h_5 =>
    obtain ⟨hlock, rfl⟩ := Sys.locked_eq_some h
    exact .clearNoFork s c hlock
  case h_6 sd worker k =>
    obtain ⟨hlock, rfl⟩ := Sys.locked_eq_some h
    exact .setCheckpointing s c sd worker k hlock
  case h_7 => cases h

theorem checkpointStep_move {sd : Nat} {worker : Int} {k : Nat} {stage : CheckpointStage}
    (h : checkpointStep dir
      ⟨table, lock, queue, main, .checkpointing c sd worker k stage, procs, sock, log⟩
      c sd worker k stage outcome = some t) :
    CheckpointMove dir
      ⟨table, lock, queue, main, .checkpointing c sd worker k stage, procs, sock, log⟩ t := by
  let s : Sys := ⟨table, lock, queue, main, .waiting, procs, sock, log⟩
  unfold checkpointStep at h
  split at h
  case h_1 code =>
    split at h
    · rename_i hany
      cases h
      obtain ⟨x, hx, hcode⟩ := exists_of_any hany
      exact .response s c sd worker k code x hx (of_decide_eq_true hcode)
    · cases h
  case h_2 =>
    cases h
    exact .noResponse s c sd worker k
  case h_3 =>
    cases h
    exact .killTarget s c sd worker k
  case h_4 =>
    cases h
    exact .killWorker s c sd worker k
  case h_5 =>
    cases h
    exact .cleanup s c sd worker k
  case h_6 code =>
    cases h
    exact .respond s c sd worker k code
  case h_7 =>
    obtain ⟨hlock, rfl⟩ := Sys.locked_eq_some h
    exact .setCheckpointed s c sd worker k hlock
  case h_8 code hcode =>
    obtain ⟨hlock, rfl⟩ := Sys.locked_eq_some h
    exact .clearFailed s c sd worker k code (by simpa using hcode) hlock
  case h_9 => cases h

theorem restoreStep_move {worker : Int} {stage : RestoreStage}
    (h : restoreStep dir
      ⟨table, lock, queue, main, .restoring c worker stage, procs, sock, log⟩
      c worker stage outcome = some t) :
    RestoreMove dir
      ⟨table, lock, queue, main, .restoring c worker stage, procs, sock, log⟩ t := by
  let s : Sys := ⟨table, lock, queue, main, .waiting, procs, sock, log⟩
  unfold restoreStep at h
  split at h
  case h_1 =>
    split at h
    · rename_i k hlistener
      cases h
      exact .connect s c worker k hlistener
    · cases h
  case h_2 =>
    cases h
    exact .noConnection s c worker
  case h_3 k n =>
    cases h
    exact .write s c worker k n
  case h_4 =>
    cases h
    exact .noWrite s c worker
  case h_5 k code =>
    split at h
    · rename_i hany
      cases h
      obtain ⟨x, hx, hcode⟩ := exists_of_any hany
      exact .response s c worker k code x hx (of_decide_eq_true hcode)
    · cases h
  case h_6 rd =>
    cases h
    exact .noResponse s c worker rd
  case h_7 =>
    cases h
    exact .killTarget s c worker
  case h_8 =>
    cases h
    exact .killWorker s c worker
  case h_9 =>
    cases h
    exact .cleanup s c worker
  case h_10 code =>
    cases h
    exact .respond s c worker code
  case h_11 =>
    obtain ⟨hlock, rfl⟩ := Sys.locked_eq_some h
    exact .clear s c worker hlock
  case h_12 => cases h

theorem endStep_move {stage : EndStage}
    (h : endStep ⟨table, lock, queue, main, .ending c stage, procs, sock, log⟩ c stage
      outcome = some t) :
    QueueMove ⟨table, lock, queue, main, .ending c stage, procs, sock, log⟩ t := by
  let s : Sys := ⟨table, lock, queue, main, .waiting, procs, sock, log⟩
  unfold endStep at h
  split at h
  case h_1 sd =>
    cases h
    exact .closeSd s c sd
  case h_2 =>
    cases h
    exact .respondNoWorker s c
  case h_3 =>
    cases h
    exact .closeNoWorker s c
  case h_4 =>
    cases h
    exact .closeCd s c
  case h_5 => cases h

end CmdMoves

/-- Everything `service_command_thread` can do. -/
inductive CmdMove (dir : Bool) (s t : Sys) : Prop where
  | queue (h : QueueMove s t)
  | checkpoint (h : CheckpointMove dir s t)
  | restore (h : RestoreMove dir s t)

theorem cmdStep_move {dir : Bool} {s t : Sys} {outcome : Outcome}
    (h : cmdStep dir s outcome = some t) : CmdMove dir s t := by
  obtain ⟨table, lock, queue, main, cmd, procs, sock, log⟩ := s
  let s : Sys := ⟨table, lock, queue, main, .waiting, procs, sock, log⟩
  unfold cmdStep at h
  split at h
  case h_1 hcmd =>
    cases hcmd
    cases queue with
    | nil => cases h
    | cons c rest =>
        cases h
        exact .queue (.pop s c rest)
  case h_2 c stage hcmd =>
    cases hcmd
    exact .checkpoint (startStep_move h)
  case h_3 c sd worker k stage hcmd =>
    cases hcmd
    exact .checkpoint (checkpointStep_move h)
  case h_4 c hcmd =>
    cases hcmd
    obtain ⟨hlock, rfl⟩ := Sys.locked_eq_some h
    by_cases hworker : getPidWorker c.pid table = pidInvalid
    · simp only [if_pos hworker]
      exact .restore (.noWorker s c hlock hworker)
    · simp only [if_neg hworker]
      exact .restore (.getWorker s c hlock hworker)
  case h_5 c worker stage hcmd =>
    cases hcmd
    exact .restore (restoreStep_move h)
  case h_6 c stage hcmd =>
    cases hcmd
    exact .queue (endStep_move h)
  case h_7 => cases h

/-- A worker that has not exited comes to its next action. -/
structure Proc.AboutTo (dir : Bool) (s : Sys) (k : Nat) (x : Proc) (action : WorkerAction) :
    Prop where
  found : s.procs[k]? = some x
  running : x.exited = false
  next : (x.actions dir)[x.pc]? = some action

/-- The worker has taken its next action. -/
def Sys.advance (s : Sys) (k : Nat) : Sys := s.setProc k fun x => { x with pc := x.pc + 1 }

/-- A worker acts, dies, or is reaped by `sigchld_handler_service`. -/
inductive WorkerMove (dir : Bool) (s : Sys) : Act → Sys → Prop where
  | bind (k : Nat) (x : Proc) (pid : Int) (hnext : x.AboutTo dir s k (.bind pid))
      (hfree : s.nameFree dir pid = true) :
      WorkerMove dir s (.worker k) { s.advance k with
        sock := fun other => if other = pid then some k else s.sock other }
  | kill (k : Nat) (x : Proc) (pid : Int) (hnext : x.AboutTo dir s k (.kill pid)) :
      WorkerMove dir s (.worker k) ((s.advance k).kill pid (x.commandPid dir) x.pid)
  | unlink (k : Nat) (x : Proc) (action : WorkerAction) (pid : Int)
      (haction : action = .cleanupPid pid ∨ action = .removeRestoreSocket pid)
      (hnext : x.AboutTo dir s k action) :
      WorkerMove dir s (.worker k) ((s.advance k).unlinkSock dir [pid])
  | read (k : Nat) (x : Proc) (received : List Byte)
      (hnext : x.AboutTo dir s k (.readCommand received))
      (hreceived : received.isPrefixOf (x.inbox.getD []) = true) :
      WorkerMove dir s (.worker k) (s.advance k)
  | accept (k : Nat) (x : Proc) (hnext : x.AboutTo dir s k (.accept true))
      (hconnected : x.connected = true) :
      WorkerMove dir s (.worker k) (s.advance k)
  | exit (k : Nat) (x : Proc) (code : CInt) (hnext : x.AboutTo dir s k (.exit code)) :
      WorkerMove dir s (.worker k) ((s.advance k).setProc k fun x => { x with exited := true })
  | other (k : Nat) (x : Proc) (action : WorkerAction)
      (haction : ∀ received, action ≠ .readCommand received) (haccept : action ≠ .accept true)
      (hbind : ∀ pid, action ≠ .bind pid) (hnext : x.AboutTo dir s k action) :
      WorkerMove dir s (.worker k) (s.advance k)
  | dies (k : Nat) (x : Proc) (hx : s.procs[k]? = some x) (hlive : x.exited = false) :
      WorkerMove dir s (.workerDies k) (s.setProc k fun x => { x with exited := true })
  | reap (k : Nat) (x : Proc) (hx : s.procs[k]? = some x) (hexited : x.exited = true)
      (hreaped : x.reaped = false) :
      WorkerMove dir s (.reap k)
        { (s.setProc k fun x => { x with reaped := true }).unlinkSock dir
            (pidsOfWorker x.pid s.table) with
          table := clearPidOnWorkerExit x.pid s.table }

theorem perform_move {dir : Bool} {s t : Sys} {k : Nat} {x : Proc} {action : WorkerAction}
    (hnext : x.AboutTo dir s k action) (h : perform dir s k x action = some t) :
    WorkerMove dir s (.worker k) t := by
  unfold perform at h
  split at h
  case h_1 pid =>
    split at h
    · rename_i hfree
      cases h
      exact .bind k x pid hnext hfree
    · cases h
  case h_2 pid =>
    cases h
    exact .kill k x pid hnext
  case h_3 pid =>
    cases h
    exact .unlink k x _ pid (Or.inl rfl) hnext
  case h_4 =>
    split at h
    · rename_i hconnected
      cases h
      exact .accept k x hnext hconnected
    · cases h
  case h_5 received =>
    split at h
    · rename_i hreceived
      cases h
      exact .read k x received hnext hreceived
    · cases h
  case h_6 pid =>
    cases h
    exact .unlink k x _ pid (Or.inr rfl) hnext
  case h_7 code =>
    cases h
    exact .exit k x code hnext
  case h_8 hbind _ _ haccept hread _ _ =>
    cases h
    exact .other k x action (by simpa using hread) (by simpa using haccept) (by simpa using hbind)
      hnext

theorem workerStep_move {dir : Bool} {s t : Sys} {k : Nat} (h : workerStep dir s k = some t) :
    WorkerMove dir s (.worker k) t := by
  unfold workerStep at h
  split at h
  · cases h
  · rename_i x hx
    split at h
    · cases h
    · rename_i hlive
      split at h
      · cases h
      · rename_i action hnext
        exact perform_move ⟨hx, by simpa using hlive, hnext⟩ h

theorem workerDiesStep_move {dir : Bool} {s t : Sys} {k : Nat}
    (h : workerDiesStep s k = some t) : WorkerMove dir s (.workerDies k) t := by
  unfold workerDiesStep at h
  split at h
  · rename_i hany
    obtain ⟨x, hx, hlive⟩ := exists_of_any hany
    cases h
    exact .dies k x hx (by simpa using hlive)
  · cases h

theorem reapStep_move {dir : Bool} {s t : Sys} {k : Nat} (h : reapStep dir s k = some t) :
    WorkerMove dir s (.reap k) t := by
  unfold reapStep at h
  split at h
  · cases h
  · rename_i x hx
    split at h
    · rename_i hreapable
      cases h
      rw [Bool.and_eq_true, Bool.not_eq_true'] at hreapable
      exact .reap k x hx hreapable.1 hreapable.2
    · cases h

theorem Proc.done_advance {dir : Bool} {x : Proc} {action : WorkerAction}
    (hnext : (x.actions dir)[x.pc]? = some action) :
    ({ x with pc := x.pc + 1 } : Proc).done dir = x.done dir ++ [action] := by
  change (x.actions dir).take (x.pc + 1) = (x.actions dir).take x.pc ++ [action]
  rw [List.take_add_one, hnext]
  rfl

theorem Proc.law {dir : Bool} {x : Proc} {action : WorkerAction}
    (hnext : (x.actions dir)[x.pc]? = some action) :
    WorkerLaw x.env x.target (x.done dir) action :=
  (applicationWorker_law dir x.env x.target).next hnext

theorem Proc.killed_induction {property : Proc → Prop} {x : Proc} (pid : Int)
    (hexits : property { x with exited := true }) (hstays : property x) :
    property (x.killed pid) := by
  unfold Proc.killed
  split
  · exact hexits
  · exact hstays

@[simp] theorem Proc.killed_pid (x : Proc) (pid : Int) : (x.killed pid).pid = x.pid := by
  unfold Proc.killed
  split <;> rfl

theorem Proc.exited_killed {x : Proc} (hpos : 0 < x.pid)
    (hreaped : x.reaped = true → x.exited = true) : (x.killed x.pid).exited = true := by
  unfold Proc.killed
  split
  · rfl
  · rename_i hnot
    refine hreaped ?_
    by_contra hlive
    exact hnot ⟨hpos, rfl, by simpa using hlive⟩

theorem Sys.freshPid_iff {s : Sys} {pid : Int} :
    s.freshPid pid = true ↔ 0 < pid ∧ ∀ x ∈ s.procs, x.reaped = true ∨ x.pid ≠ pid := by
  simp [Sys.freshPid]

/-- The pid of the worker that the command thread deals with. -/
def CmdPc.worker : CmdPc → Option Int
  | .starting _ (.setCheckpointing _ worker _) => some worker
  | .checkpointing _ _ worker _ _ => some worker
  | .restoring _ worker _ => some worker
  | _ => none

/-- The worker of the CHECKPOINT that the command thread handles. -/
def CmdPc.current : CmdPc → Option (Ctx × Int × Nat)
  | .starting c (.setCheckpointing _ worker k) => some (c, worker, k)
  | .checkpointing c _ worker k _ => some (c, worker, k)
  | _ => none

theorem dispatch_cases (c : Ctx) :
    (c.svcCmd.cmd = memcrCheckpoint ∧ dispatch c = .starting c .socketpair) ∨
      (c.svcCmd.cmd ≠ memcrCheckpoint ∧
        (dispatch c = .getWorker c ∨ dispatch c = .ending c .closeCd)) := by
  unfold dispatch
  split
  · rename_i hcmd
    exact Or.inl ⟨hcmd, rfl⟩
  · rename_i hcmd
    refine Or.inr ⟨hcmd, ?_⟩
    split
    · exact Or.inl rfl
    · exact Or.inr rfl

theorem dispatch_worker (c : Ctx) : (dispatch c).worker = none := by
  rcases dispatch_cases c with ⟨-, h⟩ | ⟨-, h | h⟩ <;> rw [h] <;> rfl

theorem dispatch_current (c : Ctx) : (dispatch c).current = none := by
  rcases dispatch_cases c with ⟨-, h⟩ | ⟨-, h | h⟩ <;> rw [h] <;> rfl

/-- Everything a step of the service can do. -/
inductive Move (dir : Bool) (s : Sys) : Act → Sys → Prop where
  | accept (cd : Nat) (command : Option ServiceCommand) (t : Sys)
      (h : AcceptMove cd command s t) : Move dir s (.accept cd command) t
  | main (t : Sys) (h : MainMove s t) : Move dir s .main t
  | cmd (outcome : Outcome) (t : Sys) (h : CmdMove dir s t) : Move dir s (.cmd outcome) t
  | worker (act : Act) (t : Sys) (h : WorkerMove dir s act t) : Move dir s act t

theorem step_move {dir : Bool} {s t : Sys} {act : Act} (h : step dir s act = some t) :
    Move dir s act t := by
  cases act with
  | accept cd command => exact .accept cd command t (acceptStep_move h)
  | main => exact .main t (mainStep_move h)
  | cmd outcome => exact .cmd outcome t (cmdStep_move h)
  | worker k => exact .worker _ t (workerStep_move h)
  | workerDies k => exact .worker _ t (workerDiesStep_move h)
  | reap k => exact .worker _ t (reapStep_move h)

end Memcr.ServiceSystem
