import Memcr.ServiceCommands

namespace Memcr.ServiceSystem

open Memcr.ByteWords
open Memcr.GuardedRuns
open Memcr.IndexedLists
open Memcr.ServiceTable
open Memcr.WorkerProcess

/-- A signal goes to one process: the target that the command names, or the
worker that handles it. -/
def Event.AimsWell : Event → Prop
  | .killed pid named own => 0 < pid ∧ (pid = named ∨ pid = own)
  | _ => True

def Sys.nextAction (dir : Bool) (s : Sys) (k : Nat) : Option WorkerAction :=
  (s.procs[k]?).bind fun x => (x.actions dir)[x.pc]?

theorem Proc.AboutTo.nextAction_eq {dir : Bool} {s : Sys} {k : Nat} {x : Proc}
    {action : WorkerAction} (h : x.AboutTo dir s k action) :
    s.nextAction dir k = some action := by
  simp [Sys.nextAction, h.found, h.next]

/-- Clients name processes, and a worker that reads its restore command gets
all of it. -/
def namesProcesses (dir : Bool) (s : Sys) : Act → Bool
  | .accept _ (some command) => decide (0 < command.pid)
  | .worker k =>
      match s.nextAction dir k with
      | some (.readCommand received) => received.length == serviceCommandSize
      | _ => true
  | _ => true

/-- What the worker read is the whole of a command that names a process. -/
def Proc.ReadWhole (dir : Bool) (x : Proc) : Prop :=
  ∀ received, .readCommand received ∈ x.done dir →
    ∃ command : ServiceCommand, 0 < command.pid ∧ received = command.bytes ∧
      x.inbox = some command.bytes

/-- The pids that `kill` may get are all positive. A pid of zero or less signals a group
or everybody, and the pid of a command reaches `kill` unchecked. -/
structure Aimed (dir : Bool) (s : Sys) : Prop where
  commands : Carries (fun command => 0 < command.pid) s
  log : ∀ e ∈ s.log, e.AimsWell
  slots : ∀ slot ∈ s.table, 0 ≤ slot.worker
  worker : ∀ worker, s.cmd.worker = some worker → 0 < worker
  reads : Indexed (fun _ => Proc.ReadWhole dir) s.procs

variable {dir : Bool} {s t : Sys}

/-- A worker kills its target while it checkpoints it, and later the pid in the
command it read. -/
theorem Aimed.kill_aimsWell (h : Aimed dir s) {k : Nat} {x : Proc} {pid : Int}
    (hnext : x.AboutTo dir s k (.kill pid)) :
    (Event.killed pid (x.commandPid dir) x.pid).AimsWell := by
  rcases Proc.law hnext.next with ⟨rfl, hfirst⟩ | ⟨rfl, haccepted, hread⟩
  · obtain ⟨⟨command, hpos, -, htarget⟩, -⟩ := h.commands.procs k x hnext.found
    rw [Proc.commandPid, if_neg hfirst]
    exact ⟨htarget ▸ hpos, Or.inl rfl⟩
  · obtain ⟨command, hpos, hbytes, hinbox⟩ := h.reads k x hnext.found _ hread
    have hbuffer : postCheckpointCmd x.env = command := by
      rw [postCheckpointCmd, hbytes]
      exact ServiceCommand.ofBytes_bytes_append command _
    have hnamed : ServiceCommand.ofBytes command.bytes = command := by
      simpa using ServiceCommand.ofBytes_bytes_append command []
    rw [Proc.commandPid, if_pos haccepted, hinbox, Option.getD_some, hbuffer, hnamed]
    exact ⟨hpos, Or.inl rfl⟩

theorem Proc.ReadWhole.advance {x : Proc} {action : WorkerAction}
    (hnext : (x.actions dir)[x.pc]? = some action)
    (haction : ∀ received, action = .readCommand received →
      ∃ command : ServiceCommand, 0 < command.pid ∧ received = command.bytes ∧
        x.inbox = some command.bytes)
    (h : x.ReadWhole dir) : ({ x with pc := x.pc + 1 } : Proc).ReadWhole dir := by
  intro received hmem
  rw [Proc.done_advance hnext] at hmem
  rcases List.mem_append.mp hmem with hmem | hmem
  · exact h received hmem
  · exact haction received (List.mem_singleton.mp hmem).symm

theorem Proc.ReadWhole.killed {x : Proc} (pid : Int) (h : x.ReadWhole dir) :
    (x.killed pid).ReadWhole dir :=
  Proc.killed_induction pid h h

theorem Event.aimsWell_abortEvents (cmd : CmdPc) (sent : Option Int)
    (h : ∀ other ∈ s.log, other.AimsWell) :
    ∀ other ∈ abortEvents cmd sent ++ s.log, other.AimsWell := by
  cases sent with
  | none => exact h
  | some sd => exact List.forall_mem_cons.mpr ⟨trivial, h⟩

theorem AcceptMove.aimed {cd : Nat} {command : Option ServiceCommand}
    (h : AcceptMove cd command s t) (hcommands : Carries (fun command => 0 < command.pid) t)
    (haimed : Aimed dir s) : Aimed dir t := by
  cases h <;>
    exact { haimed with
      commands := hcommands, log := List.forall_mem_cons.mpr ⟨trivial, haimed.log⟩ }

theorem nonneg_assign (pid : Int) (slot : Slot) : 0 ≤ (slot.assign pid).worker :=
  Int.le_refl 0

theorem MainMove.aimed (h : MainMove s t) (haimed : Aimed dir s) : Aimed dir t := by
  have hcommands := h.carries haimed.commands
  have hlog := haimed.log
  have hslots := haimed.slots
  cases h with
  | initPid s c =>
      refine { haimed with
        commands := hcommands
        log := ?_
        slots := forall_init c.pid hslots fun slot _ => nonneg_assign c.pid slot }
      dsimp only
      split
      · exact List.forall_mem_cons.mpr ⟨trivial, hlog⟩
      · exact hlog
  | clearRefused s c =>
      exact { haimed with
        commands := hcommands
        slots := forall_clear c.pid hslots fun slot _ => nonneg_assign _ slot }
  | tryAbort s c =>
      exact { haimed with
        commands := hcommands
        log := Event.aimsWell_abortEvents _ _ hlog
        slots := forall_tryToAbortCheckpoint c.pid hslots fun slot hmem _ => hslots slot hmem }
  | respond | close =>
      exact { haimed with commands := hcommands, log := List.forall_mem_cons.mpr ⟨trivial, hlog⟩ }
  | _ => exact { haimed with commands := hcommands }

theorem QueueMove.aimed (h : QueueMove s t) (haimed : Aimed dir s) : Aimed dir t := by
  have hcommands := h.carries haimed.commands
  cases h with
  | pop s c rest =>
      exact { haimed with commands := hcommands, worker := by simp [dispatch_worker] }
  | closeSd => exact { haimed with commands := hcommands }
  | _ =>
      exact { haimed with
        commands := hcommands
        log := List.forall_mem_cons.mpr ⟨trivial, haimed.log⟩ }

theorem CheckpointMove.aimed (h : CheckpointMove dir s t) (haimed : Aimed dir s) :
    Aimed dir t := by
  have hcommands := h.carries haimed.commands
  have hslots := haimed.slots
  have hnone : ∀ worker : Int, none = some worker → 0 < worker := by simp
  cases h with
  | fork s c sd pid env hfresh =>
      refine { haimed with
        commands := hcommands
        worker := ?_
        reads := haimed.reads.concat ?_ }
      · rintro worker heq
        exact Option.some.inj heq ▸ (Sys.freshPid_iff.mp hfresh).1
      · intro received hmem
        simp [Proc.done] at hmem
  | clearNoFork s c | clearFailed s c =>
      exact { haimed with
        commands := hcommands
        worker := hnone
        slots := forall_clear c.pid hslots fun slot _ => nonneg_assign _ slot }
  | setCheckpointing s c sd worker k =>
      exact { haimed with
        commands := hcommands
        log := Event.aimsWell_abortEvents _ _ haimed.log
        slots := forall_setPidCheckpointing c.pid sd hslots
          fun slot hmem _ _ => hslots slot hmem }
  | killTarget s c sd worker k =>
      have hpos : 0 < c.pid := haimed.commands.cmd.1
      exact { haimed with
        commands := hcommands
        log := List.forall_mem_cons.mpr ⟨⟨hpos, Or.inl rfl⟩, haimed.log⟩
        reads := haimed.reads.map fun _ _ _ h => h.killed _ }
  | killWorker s c sd worker k =>
      exact { haimed with
        commands := hcommands
        log := List.forall_mem_cons.mpr ⟨⟨haimed.worker worker rfl, Or.inr rfl⟩, haimed.log⟩
        reads := haimed.reads.map fun _ _ _ h => h.killed _ }
  | respond =>
      exact { haimed with
        commands := hcommands
        log := List.forall_mem_cons.mpr ⟨trivial, haimed.log⟩ }
  | setCheckpointed s c sd worker k =>
      have hpos : 0 ≤ worker := Int.le_of_lt (haimed.worker worker rfl)
      exact { haimed with
        commands := hcommands
        worker := hnone
        slots := forall_setPidCheckpointed c.pid worker hslots fun _ _ _ _ => hpos
        reads := haimed.reads.modify fun _ _ h => h }
  | _ => exact { haimed with commands := hcommands }

theorem Proc.ReadWhole.tell {x : Proc} (bytes : List Byte) (h : x.ReadWhole dir) :
    (x.tell bytes).ReadWhole dir := by
  intro received hmem
  obtain ⟨command, hpos, hbytes, hinbox⟩ := h received hmem
  exact ⟨command, hpos, hbytes, by rw [Proc.tell, hinbox]; rfl⟩

theorem RestoreMove.aimed (h : RestoreMove dir s t) (haimed : Aimed dir s) : Aimed dir t := by
  have hcommands := h.carries haimed.commands
  have hslots := haimed.slots
  cases h with
  | getWorker s c hlock hworker =>
      refine { haimed with commands := hcommands, worker := ?_ }
      rintro worker heq
      have hnonneg : 0 ≤ getPidWorker c.pid s.table := by
        unfold getPidWorker
        split
        · rename_i slot hfind
          exact hslots slot (List.mem_of_find?_eq_some hfind)
        · exact Int.le_refl 0
      have hne : getPidWorker c.pid s.table ≠ 0 := hworker
      exact Option.some.inj heq ▸ by omega
  | connect =>
      exact { haimed with commands := hcommands, reads := haimed.reads.modify fun _ _ h => h }
  | write =>
      exact { haimed with
        commands := hcommands
        reads := haimed.reads.modify fun _ _ h => h.tell _ }
  | killTarget s c worker =>
      have hpos : 0 < c.pid := haimed.commands.cmd.1
      exact { haimed with
        commands := hcommands
        log := List.forall_mem_cons.mpr ⟨⟨hpos, Or.inl rfl⟩, haimed.log⟩
        reads := haimed.reads.map fun _ _ _ h => h.killed _ }
  | killWorker s c worker =>
      exact { haimed with
        commands := hcommands
        log := List.forall_mem_cons.mpr ⟨⟨haimed.worker worker rfl, Or.inr rfl⟩, haimed.log⟩
        reads := haimed.reads.map fun _ _ _ h => h.killed _ }
  | respond =>
      exact { haimed with
        commands := hcommands
        log := List.forall_mem_cons.mpr ⟨trivial, haimed.log⟩ }
  | clear s c =>
      exact { haimed with
        commands := hcommands
        worker := by simp [CmdPc.worker]
        slots := forall_clear c.pid hslots fun slot _ => nonneg_assign _ slot }
  | _ => exact { haimed with commands := hcommands }

theorem Aimed.read_whole (h : Aimed dir s) {k : Nat} {x : Proc} {received : List Byte}
    (hnext : x.AboutTo dir s k (.readCommand received))
    (hguard : namesProcesses dir s (.worker k) = true)
    (hreceived : received.isPrefixOf (x.inbox.getD []) = true) :
    ∃ command : ServiceCommand, 0 < command.pid ∧ received = command.bytes ∧
      x.inbox = some command.bytes := by
  have hlen : received.length = serviceCommandSize := by
    simpa [namesProcesses, hnext.nextAction_eq] using hguard
  have hlead : received <+: x.inbox.getD [] := List.isPrefixOf_iff_prefix.mp hreceived
  cases hinbox : x.inbox with
  | none =>
      have hle := hlead.length_le
      simp [hinbox, hlen, serviceCommandSize] at hle
  | some bytes =>
      obtain ⟨command, n, hpos, rfl⟩ := (h.commands.procs k x hnext.found).2 bytes hinbox
      have hwhole : command.bytes.take n = received := by
        rw [hinbox, Option.getD_some] at hlead
        refine (hlead.eq_of_length_le ?_).symm
        rw [hlen, ← command.bytes_length]
        exact List.length_take_le' n _
      have hall : command.bytes.take n = command.bytes := by
        refine (List.take_prefix n _).eq_of_length_le ?_
        rw [hwhole, hlen, command.bytes_length]
      exact ⟨command, hpos, hwhole.symm.trans hall, by rw [hall]⟩

theorem WorkerMove.aimed {act : Act} (h : WorkerMove dir s act t)
    (hguard : namesProcesses dir s act = true) (haimed : Aimed dir s) : Aimed dir t := by
  have hcommands := h.carries haimed.commands
  have hadvance {k : Nat} {x : Proc} {action : WorkerAction} (hnext : x.AboutTo dir s k action)
      (haction : ∀ received, action = .readCommand received →
        ∃ command : ServiceCommand, 0 < command.pid ∧ received = command.bytes ∧
          x.inbox = some command.bytes) :
      Indexed (fun _ => Proc.ReadWhole dir) (s.advance k).procs := by
    refine haimed.reads.modify fun y hy hread => ?_
    obtain rfl : x = y := Option.some.inj (hnext.found.symm.trans hy)
    exact hread.advance hnext.next haction
  cases h with
  | bind k x pid hnext =>
      exact { haimed with commands := hcommands, reads := hadvance hnext (by simp) }
  | kill k x pid hnext =>
      exact { haimed with
        commands := hcommands
        log := List.forall_mem_cons.mpr ⟨haimed.kill_aimsWell hnext, haimed.log⟩
        reads := (hadvance hnext (by simp)).map fun _ _ _ h => h.killed pid }
  | unlink k x action pid haction hnext =>
      exact { haimed with
        commands := hcommands
        reads := hadvance hnext (by rcases haction with rfl | rfl <;> simp) }
  | read k x received hnext hreceived =>
      refine { haimed with commands := hcommands, reads := hadvance hnext ?_ }
      rintro _ ⟨⟩
      exact haimed.read_whole hnext hguard hreceived
  | accept k x hnext =>
      exact { haimed with commands := hcommands, reads := hadvance hnext (by simp) }
  | exit k x code hnext =>
      exact { haimed with
        commands := hcommands
        reads := (hadvance hnext (by simp)).modify fun _ _ h => h }
  | other k x action hread haccept hbind hnext =>
      exact { haimed with
        commands := hcommands
        reads := hadvance hnext fun received heq => absurd heq (hread received) }
  | dies => exact { haimed with commands := hcommands, reads := haimed.reads.modify fun _ _ h => h }
  | reap k x =>
      exact { haimed with
        commands := hcommands
        slots := forall_clearPidOnWorkerExit x.pid haimed.slots fun slot _ => nonneg_assign _ slot
        reads := haimed.reads.modify fun _ _ h => h }

theorem Move.aimed {act : Act} (h : Move dir s act t) (hguard : namesProcesses dir s act = true)
    (haimed : Aimed dir s) : Aimed dir t := by
  cases h with
  | accept cd command t hmove =>
      refine hmove.aimed (hmove.carries ?_ haimed.commands) haimed
      rintro received rfl
      simpa [namesProcesses] using hguard
  | main t hmove => exact hmove.aimed haimed
  | cmd outcome t hmove =>
      cases hmove with
      | queue hmove => exact hmove.aimed haimed
      | checkpoint hmove => exact hmove.aimed haimed
      | restore hmove => exact hmove.aimed haimed
  | worker act t hmove => exact hmove.aimed hguard haimed

theorem aimed_boot {table : Table} (htable : ∀ slot ∈ table, 0 ≤ slot.worker) :
    Aimed dir (Sys.boot table) where
  commands := carries_boot table
  log := by simp [Sys.boot]
  slots := htable
  worker := by simp [Sys.boot, CmdPc.worker]
  reads := indexed_nil

/-- When clients name processes and no restore command is cut short, every
SIGKILL goes to the target that the command at hand names or to its worker. -/
theorem every_kill_aimsWell (dir : Bool) (table : Table)
    (htable : ∀ slot ∈ table, 0 ≤ slot.worker) (acts : List Act) (t : Sys)
    (hguard : Guarded (step dir) (fun s act => namesProcesses dir s act = true)
      (Sys.boot table) acts)
    (hrun : run (step dir) (Sys.boot table) acts = some t) :
    ∀ e ∈ t.log, e.AimsWell := by
  have haimed : Aimed dir t :=
    invariant_of_guarded (fun _ _ _ haimed hguard hstep => (step_move hstep).aimed hguard haimed)
      (aimed_boot htable) hguard hrun
  exact haimed.log

def unseizable : WorkerEnv := { silentPeer with seizeTarget := 1#32 }

/-- A client asks for a checkpoint of a process that cannot be seized, and the
worker does its first two actions. -/
def checkpointOfUnseizable (command : ServiceCommand) : List Act :=
  [.accept 4 (some command), .main, .main, .main, .cmd .done, .cmd (.opens 5),
    .cmd (.forks 1000 unseizable), .worker 0, .worker 0]

theorem kill_of_unseizable_aimsWell :
    ∃ t, run (step false) (Sys.boot Table.zero) (checkpointOfUnseizable checkpointFive) = some t ∧
      .killed 5 5 1000 ∈ t.log ∧ ∀ e ∈ t.log, e.AimsWell := by
  refine ⟨_, rfl, by decide, ?_⟩
  exact every_kill_aimsWell false Table.zero (by decide) (checkpointOfUnseizable checkpointFive) _
    (by decide) rfl

theorem checkpoint_minus_one_kills_everybody :
    ∃ t, run (step false) (Sys.boot Table.zero)
        (checkpointOfUnseizable checkpointMinusOne) = some t ∧
      .killed (-1) (-1) 1000 ∈ t.log ∧ ¬ (Event.killed (-1) (-1) 1000).AimsWell := by
  refine ⟨_, rfl, by decide, ?_⟩
  simp [Event.AimsWell]

end Memcr.ServiceSystem
