import Memcr.IndexedLists
import Memcr.ServiceMoves

namespace Memcr.ServiceSystem

open Memcr.IndexedLists
open Memcr.ServiceTable
open Memcr.WorkerProcess

/-- What the main thread has at hand is lawful, and is where commands of its kind are. -/
def MainPc.Carries (law : ServiceCommand → Prop) : MainPc → Prop
  | .idle => True
  | .canCheckpoint c | .initPid c | .pushCheckpoint c | .clearRefused c =>
      law c.svcCmd ∧ c.svcCmd.cmd = memcrCheckpoint
  | .canRestore c | .tryAbort c | .pushRestore c => law c.svcCmd ∧ c.svcCmd.cmd = memcrRestore
  | .respond c _ | .close c => law c.svcCmd

/-- What the command thread has at hand is lawful, and is where commands of its kind are. -/
def CmdPc.Carries (law : ServiceCommand → Prop) : CmdPc → Prop
  | .waiting => True
  | .starting c _ | .checkpointing c _ _ _ _ => law c.svcCmd ∧ c.svcCmd.cmd = memcrCheckpoint
  | .getWorker c | .restoring c _ _ => law c.svcCmd ∧ c.svcCmd.cmd = memcrRestore
  | .stopped c | .ending c _ => law c.svcCmd

/-- The target and the restore command of a worker come from commands. -/
def Proc.Carries (law : ServiceCommand → Prop) (x : Proc) : Prop :=
  (∃ command, law command ∧ command.cmd = memcrCheckpoint ∧ command.pid = x.target) ∧
    ∀ bytes, x.inbox = some bytes → ∃ command n, law command ∧ bytes = command.bytes.take n

/-- Every command the service is busy with was received from a client, so a law of the
received commands holds of all of them. -/
structure Carries (law : ServiceCommand → Prop) (s : Sys) : Prop where
  main : s.main.Carries law
  queue : ∀ c ∈ s.queue, law c.svcCmd
  cmd : s.cmd.Carries law
  procs : Indexed (fun _ => Proc.Carries law) s.procs

variable {law : ServiceCommand → Prop} {dir : Bool} {s t : Sys}

theorem carries_boot (table : Table) : Carries law (Sys.boot table) where
  main := trivial
  queue := by simp [Sys.boot]
  cmd := trivial
  procs := indexed_nil

theorem AcceptMove.carries {cd : Nat} {command : Option ServiceCommand}
    (h : AcceptMove cd command s t) (hlaw : ∀ received, command = some received → law received)
    (hcarries : Carries law s) : Carries law t := by
  cases h with
  | unread => exact { hcarries with }
  | checkpoint s command hcmd => exact { hcarries with main := ⟨hlaw command rfl, hcmd⟩ }
  | restore s command hcmd => exact { hcarries with main := ⟨hlaw command rfl, hcmd⟩ }
  | unknown s command => exact { hcarries with main := hlaw command rfl }

theorem MainMove.carries (h : MainMove s t) (hcarries : Carries law s) : Carries law t := by
  have hmain := hcarries.main
  have hpush : ∀ c, law c.svcCmd → ∀ other ∈ s.queue ++ [c], law other.svcCmd := by
    intro c hlaw other hmem
    rcases List.mem_append.mp hmem with hmem | hmem
    · exact hcarries.queue other hmem
    · exact List.mem_singleton.mp hmem ▸ hlaw
  cases h with
  | refuseCheckpoint | clearRefused | refuseRestore | restoreQueueFull =>
      exact { hcarries with main := hmain.1 }
  | pushCheckpoint s c | pushRestore s c =>
      exact { hcarries with main := trivial, queue := hpush c hmain.1 }
  | close => exact { hcarries with main := trivial }
  | _ => exact { hcarries with }

theorem dispatch_carries {c : Ctx} (hlaw : law c.svcCmd) : (dispatch c).Carries law := by
  unfold dispatch
  split
  · exact ⟨hlaw, ‹_›⟩
  · split
    · exact ⟨hlaw, ‹_›⟩
    · exact hlaw

theorem QueueMove.carries (h : QueueMove s t) (hcarries : Carries law s) : Carries law t := by
  cases h with
  | pop s c rest =>
      exact { hcarries with
        queue := fun other hmem => hcarries.queue other (List.mem_cons_of_mem _ hmem)
        cmd := dispatch_carries (hcarries.queue c (by simp)) }
  | closeCd => exact { hcarries with cmd := trivial }
  | _ => exact { hcarries with }

theorem Proc.carries_killed {x : Proc} (pid : Int) (h : x.Carries law) :
    (x.killed pid).Carries law :=
  Proc.killed_induction pid h h

theorem CheckpointMove.carries (h : CheckpointMove dir s t) (hcarries : Carries law s) :
    Carries law t := by
  have hcmd := hcarries.cmd
  cases h with
  | noSockets | clearNoFork | clearFailed => exact { hcarries with cmd := hcmd.1 }
  | fork s c sd pid env =>
      exact { hcarries with
        procs := hcarries.procs.concat ⟨⟨c.svcCmd, hcmd.1, hcmd.2, rfl⟩, by simp⟩ }
  | killTarget | killWorker =>
      exact { hcarries with procs := hcarries.procs.map fun _ _ _ h => Proc.carries_killed _ h }
  | setCheckpointed =>
      exact { hcarries with
        cmd := hcmd.1
        procs := hcarries.procs.modify fun _ _ h => h }
  | _ => exact { hcarries with }

theorem RestoreMove.carries (h : RestoreMove dir s t) (hcarries : Carries law s) :
    Carries law t := by
  have hcmd := hcarries.cmd
  cases h with
  | noWorker | clear => exact { hcarries with cmd := hcmd.1 }
  | connect => exact { hcarries with procs := hcarries.procs.modify fun _ _ h => h }
  | write s c worker k n =>
      refine { hcarries with procs := hcarries.procs.modify ?_ }
      rintro x - ⟨htarget, hinbox⟩
      refine ⟨htarget, fun bytes hbytes => ?_⟩
      cases hold : x.inbox with
      | none =>
          rw [Proc.tell, hold] at hbytes
          exact ⟨c.svcCmd, n, hcmd.1, (Option.some.inj hbytes).symm⟩
      | some old =>
          rw [Proc.tell, hold] at hbytes
          exact hinbox bytes (hold.trans hbytes)
  | killTarget | killWorker =>
      exact { hcarries with procs := hcarries.procs.map fun _ _ _ h => Proc.carries_killed _ h }
  | _ => exact { hcarries with }

theorem WorkerMove.carries {act : Act} (h : WorkerMove dir s act t) (hcarries : Carries law s) :
    Carries law t := by
  have hmodify {k : Nat} {f : Proc → Proc} (hf : ∀ x : Proc, x.Carries law → (f x).Carries law) :
      Indexed (fun _ => Proc.Carries law) (s.procs.modify k f) :=
    hcarries.procs.modify fun x _ hx => hf x hx
  cases h with
  | kill k x pid =>
      have hadvance : Indexed (fun _ => Proc.Carries law) (s.advance k).procs :=
        hmodify fun _ h => h
      exact { hcarries with procs := hadvance.map fun _ _ _ h => Proc.carries_killed pid h }
  | exit k x code =>
      have hadvance : Indexed (fun _ => Proc.Carries law) (s.advance k).procs :=
        hmodify fun _ h => h
      exact { hcarries with procs := hadvance.modify fun _ _ h => h }
  | _ => exact { hcarries with procs := hmodify fun _ h => h }

theorem CmdMove.carries (h : CmdMove dir s t) (hcarries : Carries law s) : Carries law t := by
  cases h with
  | queue h => exact h.carries hcarries
  | checkpoint h => exact h.carries hcarries
  | restore h => exact h.carries hcarries

theorem Move.carries {act : Act} (h : Move dir s act t)
    (hlaw : ∀ cd command, act = .accept cd (some command) → law command)
    (hcarries : Carries law s) : Carries law t := by
  cases h with
  | accept cd command t h =>
      exact h.carries (fun received heq => hlaw cd received (heq ▸ rfl)) hcarries
  | main t h => exact h.carries hcarries
  | cmd outcome t h => exact h.carries hcarries
  | worker act t h => exact h.carries hcarries

/-- `init_pid_checkpoint_data` runs for a pid that has no entry: only the main
thread makes entries, and it has just looked. -/
def MainPc.Admits (table : Table) : MainPc → Prop
  | .initPid c => c.pid ≠ 0 → ∀ slot ∈ table, slot.pid ≠ c.pid
  | _ => True

theorem MainPc.Admits.of_table {main : MainPc} {table after : Table} (h : main.Admits table)
    (hafter : ∀ pid ≠ 0, (∀ slot ∈ table, slot.pid ≠ pid) → ∀ slot ∈ after, slot.pid ≠ pid) :
    main.Admits after := by
  cases main with
  | initPid c => exact fun hpid => hafter c.pid hpid (h hpid)
  | _ => trivial

section NoEntry

variable {pid : Int}

theorem CheckpointMove.no_entry (h : CheckpointMove dir s t) (hpid : pid ≠ 0)
    (hnone : ∀ slot ∈ s.table, slot.pid ≠ pid) : ∀ slot ∈ t.table, slot.pid ≠ pid := by
  cases h with
  | clearNoFork s c | clearFailed s c => exact forall_clear c.pid hnone fun _ _ => hpid.symm
  | setCheckpointing s c sd =>
      exact forall_setPidCheckpointing c.pid sd hnone fun slot hmem _ _ => hnone slot hmem
  | setCheckpointed s c sd worker =>
      exact forall_setPidCheckpointed c.pid worker hnone fun slot hmem _ _ => hnone slot hmem
  | _ => exact hnone

theorem RestoreMove.no_entry (h : RestoreMove dir s t) (hpid : pid ≠ 0)
    (hnone : ∀ slot ∈ s.table, slot.pid ≠ pid) : ∀ slot ∈ t.table, slot.pid ≠ pid := by
  cases h with
  | clear s c => exact forall_clear c.pid hnone fun _ _ => hpid.symm
  | _ => exact hnone

theorem CmdMove.no_entry (h : CmdMove dir s t) (hpid : pid ≠ 0)
    (hnone : ∀ slot ∈ s.table, slot.pid ≠ pid) : ∀ slot ∈ t.table, slot.pid ≠ pid := by
  cases h with
  | queue h => cases h <;> exact hnone
  | checkpoint h => exact h.no_entry hpid hnone
  | restore h => exact h.no_entry hpid hnone

theorem WorkerMove.no_entry {act : Act} (h : WorkerMove dir s act t) (hpid : pid ≠ 0)
    (hnone : ∀ slot ∈ s.table, slot.pid ≠ pid) : ∀ slot ∈ t.table, slot.pid ≠ pid := by
  cases h with
  | reap k x => exact forall_clearPidOnWorkerExit x.pid hnone fun _ _ => hpid.symm
  | _ => exact hnone

end NoEntry

theorem CmdMove.main_eq (h : CmdMove dir s t) : t.main = s.main := by
  cases h with
  | queue h => cases h <;> rfl
  | checkpoint h => cases h <;> rfl
  | restore h => cases h <;> rfl

theorem WorkerMove.main_eq {act : Act} (h : WorkerMove dir s act t) : t.main = s.main := by
  cases h <;> rfl

theorem MainMove.admits (h : MainMove s t) : t.main.Admits t.table := by
  cases h with
  | mayCheckpoint s c hlock hfree =>
      intro _ slot hmem hslot
      have hnone := canCheckpointPid_iff.mp hfree
      have hsome := mem_entries.mpr ⟨hmem, hslot⟩
      rw [hnone] at hsome
      cases hsome
  | _ => trivial

theorem CmdMove.admits (h : CmdMove dir s t) (hadmits : s.main.Admits s.table) :
    t.main.Admits t.table := by
  rw [h.main_eq]
  exact hadmits.of_table fun _ => h.no_entry

theorem WorkerMove.admits {act : Act} (h : WorkerMove dir s act t)
    (hadmits : s.main.Admits s.table) : t.main.Admits t.table := by
  rw [h.main_eq]
  exact hadmits.of_table fun _ => h.no_entry

theorem Move.admits {act : Act} (h : Move dir s act t) (hadmits : s.main.Admits s.table) :
    t.main.Admits t.table := by
  cases h with
  | accept cd command t h => cases h <;> trivial
  | main t h => exact h.admits
  | cmd outcome t h => exact h.admits hadmits
  | worker act t h => exact h.admits hadmits

end Memcr.ServiceSystem
