import Memcr.ServiceTable
import Memcr.WorkerProcess

/-!
The service of memcr.c at work: the accepting main thread with
`service_command`, the command thread with `service_command_thread`, the
SIGCHLD handler, and every worker forked so far. One choice moves one of them
by one atomic step: a locked table operation, a queue operation, a system call
or a run of the handler. Clients send any commands, and every call may fail.
-/

namespace Memcr.ServiceSystem

open Memcr.ByteWords
open Memcr.ServiceTable
open Memcr.WorkerProcess

/-- `struct service_command_ctx` -/
structure Ctx where
  svcCmd : ServiceCommand
  cd : Nat
  deriving DecidableEq, Repr

/-- The pid the command names. -/
abbrev Ctx.pid (c : Ctx) : Int := c.svcCmd.pid

/-- `MAX_CLIENT_CONNECTIONS` -/
def maxClientConnections : Nat := 8

/-- Where the main thread stands in `service_command`. -/
inductive MainPc where
  | idle
  | canCheckpoint (c : Ctx)
  | initPid (c : Ctx)
  | pushCheckpoint (c : Ctx)
  | clearRefused (c : Ctx)
  | canRestore (c : Ctx)
  | tryAbort (c : Ctx)
  | pushRestore (c : Ctx)
  | respond (c : Ctx) (code : Response)
  | close (c : Ctx)
  deriving DecidableEq, Repr

/-- From the `socketpair` of a CHECKPOINT to the table entry of its worker,
which is process number `k` and has pid `worker`. -/
inductive StartStage where
  | socketpair
  | fork (sd : Nat)
  | clearNoFork
  | setCheckpointing (sd : Nat) (worker : Int) (k : Nat)
  deriving DecidableEq, Repr

/-- `checkpoint_procedure_service` and what its result is used for. -/
inductive CheckpointStage where
  | readResponse
  | killTarget
  | killWorker
  | cleanup
  | respond (code : Response)
  | finish (code : Response)
  deriving DecidableEq, Repr

/-- `restore_procedure_service` and the clearing behind it; `rd` is the process
number of the connected worker. -/
inductive RestoreStage where
  | connect
  | write (rd : Option Nat)
  | read (rd : Option Nat)
  | killTarget
  | killWorker
  | cleanup
  | respond (code : Response)
  | clear
  deriving DecidableEq, Repr

/-- The end of a round of the command thread. -/
inductive EndStage where
  | closeSd (sd : Nat)
  | respondNoWorker
  | closeNoWorker
  | closeCd
  deriving DecidableEq, Repr

/-- Where the command thread stands in `service_command_thread`. -/
inductive CmdPc where
  | waiting
  | stopped (c : Ctx)
  | starting (c : Ctx) (stage : StartStage)
  | checkpointing (c : Ctx) (sd : Nat) (worker : Int) (k : Nat) (stage : CheckpointStage)
  | getWorker (c : Ctx)
  | restoring (c : Ctx) (worker : Int) (stage : RestoreStage)
  | ending (c : Ctx) (stage : EndStage)
  deriving DecidableEq, Repr

/-- A forked worker. Its calls have the outcomes of `env`, and it has done the
first `pc` actions of `application_worker` under them. -/
structure Proc where
  pid : Int
  target : Int
  env : WorkerEnv
  pc : Nat
  exited : Bool
  reaped : Bool
  /-- The command thread has finished the checkpoint with this worker's OK. -/
  served : Bool
  connected : Bool
  /-- What the service wrote to the first connection, once it did. -/
  inbox : Option (List Byte)

/-- What the outside sees, and what the command at hand was when a signal or an
abort went out. -/
inductive Event where
  | received (command : ServiceCommand)
  | created (pid : Int)
  | abortSent (sd : Int) (checkpointed : Option Int)
  | killed (pid named own : Int)
  | responded (cd : Nat) (code : Response)
  | closed (cd : Nat)
  deriving DecidableEq, Repr

/-- The service: its two threads, the table, the queue and every worker. -/
structure Sys where
  table : Table
  lockHeld : Bool
  queue : List Ctx
  main : MainPc
  cmd : CmdPc
  /-- Every worker forked so far, in order. -/
  procs : List Proc
  /-- Which worker a restore socket name is bound to. -/
  sock : Int → Option Nat
  /-- Newest event first. -/
  log : List Event

def Sys.boot (table : Table) : Sys where
  table := table
  lockHeld := false
  queue := []
  main := .idle
  cmd := .waiting
  procs := []
  sock := fun _ => none
  log := []

/-- What the environment answers to a call of the command thread. -/
inductive Outcome where
  | done
  | fails
  | opens (sd : Nat)
  | forks (pid : Int) (env : WorkerEnv)
  | gets (code : Response)
  | writes (n : Nat)

/-- Who moves, and what the calls it makes come to. -/
inductive Act where
  | accept (cd : Nat) (command : Option ServiceCommand)
  | main
  | cmd (outcome : Outcome)
  | worker (k : Nat)
  | workerDies (k : Nat)
  | reap (k : Nat)

section Processes

variable (dir : Bool)

/-- The whole run of the worker. -/
def Proc.actions (x : Proc) : List WorkerAction := applicationWorker dir x.env x.target

def Proc.done (x : Proc) : List WorkerAction := (x.actions dir).take x.pc

/-- The pid in the command that the worker is handling. -/
def Proc.commandPid (x : Proc) : Int :=
  if .accept true ∈ x.done dir then (ServiceCommand.ofBytes (x.inbox.getD [])).pid else x.target

/-- The worker has its restore socket open. -/
def Sys.holdsName (s : Sys) (k : Nat) : Bool :=
  match s.procs[k]? with
  | some x => !x.exited && !decide (.closeRsd ∈ x.done dir)
  | none => false

/-- `bind` finds the name unused. A path stays in use until it is unlinked, an
abstract name until its socket is closed. -/
def Sys.nameFree (s : Sys) (pid : Int) : Bool :=
  match s.sock pid with
  | none => true
  | some k => !dir && !s.holdsName dir k

/-- The worker a `connect` to the restore socket of `pid` reaches. -/
def Sys.listener (s : Sys) (pid : Int) : Option Nat :=
  (s.sock pid).filter fun k => s.holdsName dir k && (s.procs[k]?).any fun x => x.env.listens

def Sys.unlinkSock (s : Sys) (pids : List Int) : Sys :=
  { s with sock := fun pid => if dir = true ∧ pid ∈ pids then none else s.sock pid }

/-- `cleanup_pid`, as far as restore sockets go. -/
def Sys.cleanupPid (s : Sys) (pid : Int) : Sys := s.unlinkSock dir [pid]

def Sys.setProc (s : Sys) (k : Nat) (f : Proc → Proc) : Sys :=
  { s with procs := s.procs.modify k f }

/-- `kill(pid, SIGKILL)`. What else dies of a signal to a group is left to
`Act.workerDies`. -/
def Proc.killed (pid : Int) (x : Proc) : Proc :=
  if 0 < pid ∧ x.pid = pid ∧ x.reaped = false then { x with exited := true } else x

/-- `kill` with SIGKILL -/
def Sys.kill (s : Sys) (pid named own : Int) : Sys :=
  { s with procs := s.procs.map (Proc.killed pid), log := .killed pid named own :: s.log }

end Processes

/-- The abort that a table operation sent, and whom it reached: a socket belongs
to the worker whose checkpoint the command thread is handling. -/
def abortEvents (cmd : CmdPc) : Option Int → List Event
  | none => []
  | some sd =>
      let checkpointed := match cmd with
        | .starting c (.setCheckpointing own _ _) => if sd = own then some c.pid else none
        | .checkpointing c own _ _ _ => if sd = own then some c.pid else none
        | _ => none
      [.abortSent sd checkpointed]

def Sys.logAbort (s : Sys) (sent : Option Int) : Sys :=
  { s with log := abortEvents s.cmd sent ++ s.log }

/-- A step that needs the lock of the table. -/
def Sys.locked (s : Sys) (next : Sys) : Option Sys :=
  if s.lockHeld then none else some next

/-- `read_command` on an accepted connection and the dispatch of
`service_command`. -/
def acceptStep (s : Sys) (cd : Nat) (command : Option ServiceCommand) : Option Sys :=
  match s.main, command with
  | .idle, none => some { s with log := .closed cd :: s.log }
  | .idle, some svcCmd =>
      let c : Ctx := ⟨svcCmd, cd⟩
      some { s with
        main :=
          if svcCmd.cmd = memcrCheckpoint then .canCheckpoint c
          else if svcCmd.cmd = memcrRestore then .canRestore c
          else .respond c .errorGeneral
        log := .received svcCmd :: s.log }
  | _, _ => none

/-- `service_command` -/
def mainStep (s : Sys) : Option Sys :=
  match s.main with
  | .idle => none
  | .canCheckpoint c =>
      s.locked { s with
        main := if canCheckpointPid c.pid s.table then .initPid c else .respond c .invalidPid }
  | .initPid c =>
      s.locked { s with
        table := initPidCheckpointData c.pid s.table
        main := .pushCheckpoint c
        log :=
          if s.table.any fun slot => slot.pid == pidInvalid then .created c.pid :: s.log
          else s.log }
  | .pushCheckpoint c =>
      if s.queue.length < maxClientConnections then
        some { s with queue := s.queue ++ [c], main := .idle }
      else some { s with main := .clearRefused c }
  | .clearRefused c =>
      s.locked { s with
        table := clearPidCheckpointData c.pid s.table, main := .respond c .errorGeneral }
  | .canRestore c =>
      s.locked { s with
        main := if canRestorePid c.pid s.table then .tryAbort c else .respond c .invalidPid }
  | .tryAbort c =>
      let attempt := tryToAbortCheckpoint c.pid s.table
      s.locked ({ s with
        table := attempt.table
        lockHeld := attempt.lockLeaked
        main := .pushRestore c }.logAbort attempt.sent)
  | .pushRestore c =>
      if s.queue.length < maxClientConnections then
        some { s with queue := s.queue ++ [c], main := .idle }
      else some { s with main := .respond c .errorGeneral }
  | .respond c code => some { s with main := .close c, log := .responded c.cd code :: s.log }
  | .close c => some { s with main := .idle, log := .closed c.cd :: s.log }

/-- The switch of `service_command_thread`. -/
def dispatch (c : Ctx) : CmdPc :=
  if c.svcCmd.cmd = memcrCheckpoint then .starting c .socketpair
  else if c.svcCmd.cmd = memcrRestore then .getWorker c
  else .ending c .closeCd

/-- The kernel may give a new process this pid. -/
def Sys.freshPid (s : Sys) (pid : Int) : Bool :=
  decide (0 < pid) && s.procs.all fun x => x.reaped || x.pid != pid

/-- The beginning of a CHECKPOINT in `service_command_thread`, up to the fork of the worker. -/
def startStep (s : Sys) (c : Ctx) : StartStage → Outcome → Option Sys
  | .socketpair, .opens sd => some { s with cmd := .starting c (.fork sd) }
  | .socketpair, .fails => some { s with cmd := .stopped c }
  | .fork sd, .forks pid env =>
      if s.freshPid pid then
        some { s with
          procs := s.procs ++ [⟨pid, c.pid, env, 0, false, false, false, false, none⟩]
          cmd := .starting c (.setCheckpointing sd pid s.procs.length) }
      else none
  | .fork _, .fails => some { s with cmd := .starting c .clearNoFork }
  | .clearNoFork, .done =>
      s.locked { s with
        table := clearPidCheckpointData c.pid s.table, cmd := .ending c .closeCd }
  | .setCheckpointing sd worker k, .done =>
      let attempt := setPidCheckpointing c.pid sd s.table
      s.locked ({ s with
        table := attempt.table
        cmd := .checkpointing c sd worker k .readResponse }.logAbort attempt.sent)
  | _, _ => none

section Steps

variable (dir : Bool)

/-- `checkpoint_procedure_service` for worker `k` with pid `worker`, then
`clear_pid_checkpoint_data` or `set_pid_checkpointed`. -/
def checkpointStep (s : Sys) (c : Ctx) (sd : Nat) (worker : Int) (k : Nat) :
    CheckpointStage → Outcome → Option Sys
  | .readResponse, .gets code =>
      if (s.procs[k]?).any fun x => decide (.respondCheckpoint code true ∈ x.done dir) then
        some { s with cmd := .checkpointing c sd worker k (.respond code) }
      else none
  | .readResponse, .fails => some { s with cmd := .checkpointing c sd worker k .killTarget }
  | .killTarget, .done =>
      some { s.kill c.pid c.pid worker with cmd := .checkpointing c sd worker k .killWorker }
  | .killWorker, .done =>
      some { s.kill worker c.pid worker with cmd := .checkpointing c sd worker k .cleanup }
  | .cleanup, .done =>
      some { s.cleanupPid dir c.pid with
        cmd := .checkpointing c sd worker k (.respond .errorGeneral) }
  | .respond code, .done =>
      some { s with
        cmd := .checkpointing c sd worker k (.finish code)
        log := .responded c.cd code :: s.log }
  | .finish .ok, .done =>
      s.locked { s with
        table := setPidCheckpointed c.pid worker s.table
        procs := s.procs.modify k fun x => { x with served := true }
        cmd := .ending c (.closeSd sd) }
  | .finish _, .done =>
      s.locked { s with
        table := clearPidCheckpointData c.pid s.table, cmd := .ending c (.closeSd sd) }
  | _, _ => none

/-- The worker takes the first connection only; one that comes later stays in
the backlog and nobody answers it. -/
def Proc.tell (bytes : List Byte) (x : Proc) : Proc :=
  { x with inbox := x.inbox.or (some bytes) }

/-- `restore_procedure_service`, then `clear_pid_checkpoint_data`. -/
def restoreStep (s : Sys) (c : Ctx) (worker : Int) : RestoreStage → Outcome → Option Sys
  | .connect, .done =>
      match s.listener dir c.pid with
      | some k =>
          some { s with
            procs := s.procs.modify k fun x => { x with connected := true }
            cmd := .restoring c worker (.write (some k)) }
      | none => none
  | .connect, .fails => some { s with cmd := .restoring c worker (.write none) }
  | .write (some k), .writes n =>
      some { s with
        procs := s.procs.modify k (Proc.tell (c.svcCmd.bytes.take n))
        cmd := .restoring c worker
          (.read (if (s.procs[k]?).any fun x => x.inbox.isNone then some k else none)) }
  | .write none, .fails => some { s with cmd := .restoring c worker (.read none) }
  | .read (some k), .gets code =>
      if (s.procs[k]?).any fun x => decide (.respondRestore code true ∈ x.done dir) then
        some { s with
          cmd := .restoring c worker (.respond (if code = .ok then .ok else .errorGeneral)) }
      else none
  | .read _, .fails => some { s with cmd := .restoring c worker .killTarget }
  | .killTarget, .done =>
      some { s.kill c.pid c.pid worker with cmd := .restoring c worker .killWorker }
  | .killWorker, .done =>
      some { s.kill worker c.pid worker with cmd := .restoring c worker .cleanup }
  | .cleanup, .done =>
      some { s.cleanupPid dir c.pid with cmd := .restoring c worker (.respond .errorGeneral) }
  | .respond code, .done =>
      some { s with
        cmd := .restoring c worker .clear, log := .responded c.cd code :: s.log }
  | .clear, .done =>
      s.locked { s with
        table := clearPidCheckpointData c.pid s.table, cmd := .ending c .closeCd }
  | _, _ => none

/-- The end of a round of `service_command_thread`, where the descriptors are closed. -/
def endStep (s : Sys) (c : Ctx) : EndStage → Outcome → Option Sys
  | .closeSd _, .done => some { s with cmd := .ending c .closeCd }
  | .respondNoWorker, .done =>
      some { s with
        cmd := .ending c .closeNoWorker, log := .responded c.cd .errorGeneral :: s.log }
  | .closeNoWorker, .done =>
      some { s with cmd := .ending c .closeCd, log := .closed c.cd :: s.log }
  | .closeCd, .done => some { s with cmd := .waiting, log := .closed c.cd :: s.log }
  | _, _ => none

/-- `service_command_thread` -/
def cmdStep (s : Sys) (outcome : Outcome) : Option Sys :=
  match s.cmd, outcome with
  | .waiting, .done =>
      match s.queue with
      | c :: rest => some { s with queue := rest, cmd := dispatch c }
      | [] => none
  | .starting c stage, outcome => startStep s c stage outcome
  | .checkpointing c sd worker k stage, outcome => checkpointStep dir s c sd worker k stage outcome
  | .getWorker c, .done =>
      s.locked { s with
        cmd :=
          if getPidWorker c.pid s.table = pidInvalid then .ending c .respondNoWorker
          else .restoring c (getPidWorker c.pid s.table) .connect }
  | .restoring c worker stage, outcome => restoreStep dir s c worker stage outcome
  | .ending c stage, outcome => endStep s c stage outcome
  | _, _ => none

/-- The next action of worker `k`, which is `x`. -/
def perform (s : Sys) (k : Nat) (x : Proc) (action : WorkerAction) : Option Sys :=
  let next := s.setProc k fun x => { x with pc := x.pc + 1 }
  match action with
  | .bind pid =>
      if s.nameFree dir pid then
        some { next with sock := fun other => if other = pid then some k else s.sock other }
      else none
  | .kill pid => some (next.kill pid (x.commandPid dir) x.pid)
  | .cleanupPid pid => some (next.cleanupPid dir pid)
  | .accept true => if x.connected then some next else none
  | .readCommand received =>
      if received.isPrefixOf (x.inbox.getD []) then some next else none
  | .removeRestoreSocket pid => some (next.unlinkSock dir [pid])
  | .exit _ => some (next.setProc k fun x => { x with exited := true })
  | _ => some next

/-- The next action of worker `k`. -/
def workerStep (s : Sys) (k : Nat) : Option Sys :=
  match s.procs[k]? with
  | none => none
  | some x =>
      if x.exited then none
      else
        match (x.actions dir)[x.pc]? with
        | none => none
        | some action => perform dir s k x action

/-- The worker is killed from outside or by `sigchld_handler_worker`. -/
def workerDiesStep (s : Sys) (k : Nat) : Option Sys :=
  if (s.procs[k]?).any fun x => !x.exited then
    some (s.setProc k fun x => { x with exited := true })
  else none

/-- `sigchld_handler_service` for one child; it does not take the lock. -/
def reapStep (s : Sys) (k : Nat) : Option Sys :=
  match s.procs[k]? with
  | none => none
  | some x =>
      if x.exited && !x.reaped then
        some { (s.setProc k fun x => { x with reaped := true }).unlinkSock dir
            (pidsOfWorker x.pid s.table) with
          table := clearPidOnWorkerExit x.pid s.table }
      else none

/-- One atomic step of one of the parties. -/
def step (s : Sys) : Act → Option Sys
  | .accept cd command => acceptStep s cd command
  | .main => mainStep s
  | .cmd outcome => cmdStep dir s outcome
  | .worker k => workerStep dir s k
  | .workerDies k => workerDiesStep s k
  | .reap k => reapStep dir s k

end Steps

end Memcr.ServiceSystem
