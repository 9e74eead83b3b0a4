import Memcr.ClientConnections
import Memcr.RestorableEntries

/-!
The end of `service_mode`. The main thread leaves its loop, tells the command
thread to stop and joins it, and then `cleanup_checkpointed_pids` kills every
process that has an entry, slot by slot. The lock keeps no one else away from
the table but the SIGCHLD handler, which does not take it.
-/

namespace Memcr.ServiceSystem

open Memcr.GuardedRuns
open Memcr.IndexedLists
open Memcr.ServiceTable
open Memcr.WorkerProcess

/-- What `cleanup_checkpointed_pids` does next with the slot it is at. -/
inductive SlotStage where
  | look
  | kill
  | cleanup
  | assign
  deriving DecidableEq, Repr

/-- Where the main thread stands in `service_mode`. -/
inductive Phase where
  | serving
  | interrupting
  | joining
  | locking
  | cleaning (i : Nat) (stage : SlotStage)
  | ended
  /-- `kill` was called with pid 0, which is the process group of the service. -/
  | groupKilled
  deriving DecidableEq, Repr

/-- The service with the phases of the end of `service_mode`. -/
structure Service where
  sys : Sys
  phase : Phase
  /-- `service_cmds_ctx.interrupt` -/
  interrupt : Bool
  /-- `service_command_thread` has returned. -/
  cmdEnded : Bool
  /-- Whom `cleanup_checkpointed_pids` has sent SIGKILL. -/
  killed : List Int

def Service.boot : Service := ⟨Sys.boot Table.zero, .serving, false, false, []⟩

inductive ServiceAct where
  | serve (act : Act)
  /-- The loop ends: `interrupted` is set, or `select` or `accept` failed. -/
  | leave
  | interrupt
  /-- The command thread returns. -/
  | cmdEnds
  | join
  | lock
  | clean

/-- Who can still move. The command thread does not take a command from the
queue any more once it is interrupted. -/
def Service.serves (s : Service) : Act → Bool
  | .accept _ _ | .main => s.phase == .serving
  | .cmd _ => !s.cmdEnded && !(s.interrupt && s.sys.cmd == .waiting)
  | .worker _ | .workerDies _ | .reap _ => s.phase != .ended && s.phase != .groupKilled

/-- `service_command_thread` returns from here. -/
def CmdPc.returns (interrupt : Bool) : CmdPc → Bool
  | .waiting => interrupt
  | .stopped _ => true
  | _ => false

section Steps

variable (dir : Bool)

/-- The loop of `cleanup_checkpointed_pids`, at slot `i`. -/
def cleanStep (s : Service) (i : Nat) : SlotStage → Option Service
  | .look =>
      match s.sys.table[i]? with
      | none => some { s with sys := { s.sys with lockHeld := false }, phase := .ended }
      | some slot =>
          if slot.pid ≠ pidInvalid then some { s with phase := .cleaning i .kill }
          else some { s with phase := .cleaning (i + 1) .look }
  | .kill =>
      match s.sys.table[i]? with
      | none => none
      | some slot =>
          -- the pid is read again
          if slot.pid = 0 then some { s with phase := .groupKilled }
          else
            some { s with
              sys := s.sys.kill slot.pid slot.pid slot.worker
              phase := .cleaning i .cleanup
              killed := slot.pid :: s.killed }
  | .cleanup =>
      match s.sys.table[i]? with
      | none => none
      | some slot =>
          some { s with sys := s.sys.cleanupPid dir slot.pid, phase := .cleaning i .assign }
  | .assign =>
      some { s with
        sys := { s.sys with table := s.sys.table.modify i (Slot.assign pidInvalid) }
        phase := .cleaning (i + 1) .look }

/-- A step of the service, or of its main thread on its way out. -/
def serviceStep (s : Service) : ServiceAct → Option Service
  | .serve act =>
      if s.serves act then (step dir s.sys act).map fun sys => { s with sys := sys } else none
  | .leave =>
      if s.phase = .serving ∧ s.sys.main = .idle then some { s with phase := .interrupting }
      else none
  | .interrupt =>
      if s.phase = .interrupting then some { s with phase := .joining, interrupt := true }
      else none
  | .cmdEnds =>
      if s.sys.cmd.returns s.interrupt then some { s with cmdEnded := true } else none
  | .join =>
      if s.phase = .joining ∧ s.cmdEnded = true then some { s with phase := .locking } else none
  | .lock =>
      if s.phase = .locking ∧ s.sys.lockHeld = false then
        some { s with
          sys := { s.sys with lockHeld := true }, phase := .cleaning 0 .look }
      else none
  | .clean =>
      match s.phase with
      | .cleaning i stage => cleanStep dir s i stage
      | _ => none

end Steps

/-- The condition under which a held worker stays in the table. -/
def servesSafely (s : Service) : ServiceAct → Bool
  | .serve act => admitsSafely s.sys act
  | _ => true

/-- The worker has reported that its checkpoint failed. It has killed its target
before, or never seized it. -/
def Failed (done : List WorkerAction) : Prop :=
  ∃ code, code ≠ .ok ∧ .respondCheckpoint code true ∈ done

/-- The worker whose checkpoint is neither recorded nor given up. -/
def CmdPc.undecided : CmdPc → Option Nat
  | .starting _ (.setCheckpointing _ _ k) => some k
  | .checkpointing _ _ _ k .readResponse => some k
  | .checkpointing _ _ _ k .killTarget => some k
  | .checkpointing _ _ _ k .killWorker => some k
  | .checkpointing _ _ _ k (.respond .ok) => some k
  | .checkpointing _ _ _ k (.finish .ok) => some k
  | _ => none

/-- A worker is gone, recorded, known to have failed, or being dealt with. -/
def Decided (dir : Bool) (s : Sys) : Prop :=
  Indexed (fun k x => x.exited = true ∨ x.served = true ∨ Failed (x.done dir) ∨
    s.cmd.undecided = some k) s.procs

/-- A client asked for a CHECKPOINT of the pid. -/
def Asked (log : List Event) (pid : Int) : Prop := 0 < pid ∧ .created pid ∈ log

/-- Every entry was made for such a client. -/
def AllAsked (table : Table) (log : List Event) : Prop :=
  ∀ slot ∈ table, slot.pid = 0 ∨ Asked log slot.pid

variable {dir : Bool} {s t : Sys}

/-- What survives any progress of the workers, and what the SIGCHLD handler does to the
table, survives a move of a worker. -/
theorem WorkerMove.rule (property : Sys → Prop) {act : Act} (h : WorkerMove dir s act t)
    (hprogress : ∀ (s : Sys) (after : List Proc) (sock : Int → Option Nat) (log : List Event),
      property s → Related (Proc.Continues dir) s.procs after → (∀ e ∈ s.log, e ∈ log) →
      property { s with procs := after, sock := sock, log := log })
    (hreap : ∀ k x, s.procs[k]? = some x → x.exited = true → x.reaped = false → property s →
      property { s with
        table := clearPidOnWorkerExit x.pid s.table
        procs := s.procs.modify k fun x => { x with reaped := true } })
    (hs : property s) : property t := by
  have hrefl : ∀ x : Proc, x.Continues dir x := fun x => (Proc.Steady.refl x).toContinues
  have hadvance : ∀ {k x action} (sock : Int → Option Nat), Proc.AboutTo dir s k x action →
      property { s.advance k with sock := sock } := by
    intro k x action sock hnext
    refine hprogress s _ sock s.log hs (Related.modify hrefl fun y hy => ?_) fun _ he => he
    obtain rfl : x = y := Option.some.inj (hnext.found.symm.trans hy)
    exact Proc.continues_advance hnext.next
  cases h with
  | bind k x pid hnext => exact hadvance _ hnext
  | kill k x pid hnext =>
      exact hprogress _ _ s.sock _ (hadvance s.sock hnext)
        (Related.map fun y => (y.steady_killed pid).toContinues)
        fun _ he => List.mem_cons_of_mem _ he
  | unlink k x action pid haction hnext => exact hadvance _ hnext
  | read k x received hnext => exact hadvance s.sock hnext
  | accept k x hnext => exact hadvance s.sock hnext
  | exit k x code hnext =>
      exact hprogress _ _ s.sock s.log (hadvance s.sock hnext)
        (Related.modify hrefl fun y _ => y.steady_exit.toContinues) fun _ he => he
  | other k x action _ _ _ hnext => exact hadvance s.sock hnext
  | dies k x =>
      exact hprogress s _ s.sock s.log hs
        (Related.modify hrefl fun y _ => y.steady_exit.toContinues) fun _ he => he
  | reap k x hx hexited hreaped =>
      exact hprogress _ _ _ s.log (hreap k x hx hexited hreaped hs) (Related.refl hrefl)
        fun _ he => he

theorem AcceptMove.cmd_eq {cd : Nat} {command : Option ServiceCommand}
    (h : AcceptMove cd command s t) : t.cmd = s.cmd := by
  cases h <;> rfl

section Decided

theorem Decided.related (h : Decided dir s) {after : List Proc}
    (hrel : Related (Proc.Continues dir) s.procs after) {cmd : CmdPc}
    (hcmd : ∀ k, s.cmd.undecided = some k → cmd.undecided = some k) :
    Indexed (fun k x => x.exited = true ∨ x.served = true ∨ Failed (x.done dir) ∨
      cmd.undecided = some k) after := by
  refine Indexed.related h hrel ?_
  rintro k x y hxy (hexited | hserved | ⟨code, hcode, hdone⟩ | hundecided)
  · exact Or.inl (hxy.exited hexited)
  · exact Or.inr (Or.inl (hxy.served.trans hserved))
  · exact Or.inr (Or.inr (Or.inl ⟨code, hcode, hxy.done _ hdone⟩))
  · exact Or.inr (Or.inr (Or.inr (hcmd k hundecided)))

theorem Decided.of_cmd (h : Decided dir s) {cmd : CmdPc}
    (hcmd : ∀ k, s.cmd.undecided = some k → cmd.undecided = some k) :
    Indexed (fun k x => x.exited = true ∨ x.served = true ∨ Failed (x.done dir) ∨
      cmd.undecided = some k) s.procs :=
  h.related (Related.refl fun x => (Proc.Steady.refl x).toContinues) hcmd

theorem MainMove.decided (h : MainMove s t) (hs : Decided dir s) : Decided dir t := by
  cases h <;> exact hs

theorem QueueMove.decided (h : QueueMove s t) (hs : Decided dir s) : Decided dir t := by
  cases h <;> exact hs.of_cmd nofun

theorem RestoreMove.decided (h : RestoreMove dir s t) (hs : Decided dir s) : Decided dir t := by
  have hrefl : ∀ x : Proc, x.Continues dir x := fun x => (Proc.Steady.refl x).toContinues
  cases h with
  | connect s c worker k =>
      refine hs.related (Related.modify hrefl fun x _ => ?_) nofun
      exact { hrefl x with }
  | write s c worker k n =>
      exact hs.related (Related.modify hrefl fun x _ => (x.steady_tell _).toContinues) nofun
  | killTarget s c worker =>
      exact hs.related (Related.map fun x => (x.steady_killed _).toContinues) nofun
  | killWorker s c worker =>
      exact hs.related (Related.map fun x => (x.steady_killed _).toContinues) nofun
  | _ => exact hs.of_cmd nofun

theorem CheckpointMove.decided (h : CheckpointMove dir s t) (hinv : HeldInvariant dir s)
    (hs : Decided dir s) : Decided dir t := by
  cases h with
  | openSockets s c sd => exact hs.of_cmd nofun
  | noSockets s c => exact hs.of_cmd nofun
  | fork s c sd pid env hfresh =>
      refine Indexed.concat (hs.of_cmd nofun) ?_
      exact Or.inr (Or.inr (Or.inr rfl))
  | forkFails s c sd => exact hs.of_cmd nofun
  | clearNoFork s c hlock => exact hs.of_cmd nofun
  | setCheckpointing s c sd worker k hlock => exact hs
  | response s c sd worker k code x hx hcode =>
      intro j y hy
      rcases hs j y hy with hexited | hserved | hfailed | hundecided
      · exact Or.inl hexited
      · exact Or.inr (Or.inl hserved)
      · exact Or.inr (Or.inr (Or.inl hfailed))
      · obtain rfl : k = j := Option.some.inj hundecided
        obtain rfl : x = y := Option.some.inj (hx.symm.trans hy)
        rcases eq_or_ne code .ok with rfl | hne
        · exact Or.inr (Or.inr (Or.inr rfl))
        · exact Or.inr (Or.inr (Or.inl ⟨code, hne, hcode⟩))
  | noResponse s c sd worker k => exact hs
  | killTarget s c sd worker k =>
      exact hs.related (Related.map fun x => (x.steady_killed _).toContinues) fun _ hk => hk
  | killWorker s c sd worker k =>
      -- the worker that was undecided is the one that is killed
      have hkilled := hinv.kill worker c.pid worker
      intro j y hy
      rcases hs.related (Related.map fun x => (x.steady_killed worker).toContinues)
        (fun _ hk => hk) j y hy with hexited | hserved | hfailed | hundecided
      · exact Or.inl hexited
      · exact Or.inr (Or.inl hserved)
      · exact Or.inr (Or.inr (Or.inl hfailed))
      · obtain rfl : k = j := Option.some.inj hundecided
        obtain ⟨x, hx, hpid, -⟩ := hkilled.current c worker k rfl
        obtain rfl : x = y := Option.some.inj (hx.symm.trans hy)
        exact Or.inl (hinv.exited_of_kill hx hpid)
  | cleanup s c sd worker k => exact hs.of_cmd nofun
  | respond s c sd worker k code =>
      refine hs.of_cmd ?_
      cases code <;> exact fun _ hk => hk
  | setCheckpointed s c sd worker k hlock =>
      intro j y hy
      obtain ⟨x, hx, rfl⟩ := getElem?_modify_eq_some hy
      by_cases hkj : k = j
      · rw [if_pos hkj]
        exact Or.inr (Or.inl rfl)
      · rw [if_neg hkj]
        rcases hs j x hx with hexited | hserved | hfailed | hundecided
        · exact Or.inl hexited
        · exact Or.inr (Or.inl hserved)
        · exact Or.inr (Or.inr (Or.inl hfailed))
        · exact absurd (Option.some.inj hundecided) hkj
  | clearFailed s c sd worker k code hcode hlock =>
      refine hs.of_cmd ?_
      cases code <;> first | exact absurd rfl hcode | exact nofun

theorem Move.decided {act : Act} (h : Move dir s act t) (hinv : HeldInvariant dir s)
    (hs : Decided dir s) : Decided dir t := by
  cases h with
  | accept cd command t hmove => cases hmove <;> exact hs
  | main t hmove => exact hmove.decided hs
  | cmd outcome t hmove =>
      cases hmove with
      | queue hmove => exact hmove.decided hs
      | checkpoint hmove => exact hmove.decided hinv hs
      | restore hmove => exact hmove.decided hs
  | worker act t hmove =>
      refine hmove.rule (Decided dir)
        (fun s after sock log hs hrel _ => hs.related hrel fun _ hk => hk) ?_ hs
      intro k x hx hexited _ hs
      refine hs.related (Related.modify (fun y => (Proc.Steady.refl y).toContinues) fun y hy => ?_)
        fun _ hk => hk
      obtain rfl : x = y := Option.some.inj (hx.symm.trans hy)
      exact (Proc.steady_reap hexited).toContinues

end Decided

section Asked

variable {table : Table} {log log' : List Event}

theorem AllAsked.mono (h : AllAsked table log) (hlog : ∀ e ∈ log, e ∈ log') :
    AllAsked table log' :=
  fun slot hslot => (h slot hslot).imp_right fun hasked => ⟨hasked.1, hlog _ hasked.2⟩

theorem AllAsked.cons (h : AllAsked table log) (e : Event) : AllAsked table (e :: log) :=
  h.mono fun _ he => List.mem_cons_of_mem _ he

theorem AllAsked.logAbort (h : AllAsked table log) (cmd : CmdPc) (sent : Option Int) :
    AllAsked table (abortEvents cmd sent ++ log) :=
  h.mono fun _ he => List.mem_append_right _ he

theorem AllAsked.clear (h : AllAsked table log) (pid : Int) :
    AllAsked (clearPidCheckpointData pid table) log :=
  forall_clear pid h fun _ _ => Or.inl rfl

theorem AllAsked.clearPidOnWorkerExit (h : AllAsked table log) (worker : Int) :
    AllAsked (ServiceTable.clearPidOnWorkerExit worker table) log :=
  forall_clearPidOnWorkerExit worker h fun _ _ => Or.inl rfl

theorem MainMove.asked (h : MainMove s t)
    (hcommands : Carries (fun command => 0 < command.pid) s) (hs : AllAsked s.table s.log) :
    AllAsked t.table t.log := by
  cases h with
  | initPid s c hlock =>
      have hpos : 0 < c.pid := hcommands.main.1
      change AllAsked (initPidCheckpointData c.pid s.table)
        (if s.table.any fun slot => slot.pid == pidInvalid then .created c.pid :: s.log else s.log)
      by_cases hany : (s.table.any fun slot => slot.pid == pidInvalid) = true
      · rw [if_pos hany]
        exact forall_init c.pid (hs.cons _) fun _ _ => Or.inr ⟨hpos, List.mem_cons_self⟩
      · rw [if_neg hany]
        refine forall_init c.pid hs fun slot hfind => absurd (List.any_eq_true.mpr ?_) hany
        have hfree := List.find?_some hfind
        exact ⟨slot, List.mem_of_find?_eq_some hfind, hfree⟩
  | clearRefused s c hlock => exact hs.clear c.pid
  | tryAbort s c hlock =>
      exact AllAsked.logAbort
        (forall_tryToAbortCheckpoint c.pid hs fun slot hslot _ => hs slot hslot)
        _ _
  | respond s c code => exact hs.cons _
  | close s c => exact hs.cons _
  | _ => exact hs

theorem CheckpointMove.asked (h : CheckpointMove dir s t) (hs : AllAsked s.table s.log) :
    AllAsked t.table t.log := by
  cases h with
  | clearNoFork s c hlock => exact hs.clear c.pid
  | setCheckpointing s c sd worker k hlock =>
      exact AllAsked.logAbort
        (forall_setPidCheckpointing c.pid sd hs fun slot hslot _ _ => hs slot hslot) _ _
  | killTarget s c sd worker k => exact hs.cons _
  | killWorker s c sd worker k => exact hs.cons _
  | respond s c sd worker k code => exact hs.cons _
  | setCheckpointed s c sd worker k hlock =>
      exact forall_setPidCheckpointed c.pid worker hs fun slot hslot _ _ => hs slot hslot
  | clearFailed s c sd worker k code hcode hlock => exact hs.clear c.pid
  | _ => exact hs

theorem Move.asked {act : Act} (h : Move dir s act t)
    (hcommands : Carries (fun command => 0 < command.pid) s) (hs : AllAsked s.table s.log) :
    AllAsked t.table t.log := by
  cases h with
  | accept cd command t hmove => cases hmove <;> exact hs.cons _
  | main t hmove => exact hmove.asked hcommands hs
  | cmd outcome t hmove =>
      cases hmove with
      | queue hmove => cases hmove <;> first | exact hs | exact hs.cons _
      | checkpoint hmove => exact hmove.asked hs
      | restore hmove =>
          cases hmove with
          | clear s c worker hlock => exact hs.clear c.pid
          | _ => first | exact hs | exact hs.cons _
  | worker act t hmove =>
      exact hmove.rule (fun s => AllAsked s.table s.log)
        (fun s after sock log hs _ hlog => AllAsked.mono hs hlog)
        (fun k x _ _ _ hs => AllAsked.clearPidOnWorkerExit hs x.pid) hs

end Asked

/-- What holds while the main thread is cleaning up: a worker that keeps its target frozen
still has its entry, unless the target was sent SIGKILL. -/
structure Sweeping (dir : Bool) (killed : List Int) (s : Sys) : Prop where
  sound : Indexed (fun _ => Proc.Sound dir) s.procs
  unique : UniquePids s.procs
  targets : Indexed (fun _ x => 0 < x.target) s.procs
  held : Indexed (fun _ x => x.held = true → x.target ∈ killed ∨
    ∃ slot ∈ s.table, slot.pid = x.target ∧ slot.worker = x.pid) s.procs
  decided : Decided dir s
  asked : AllAsked s.table s.log
  killedAsked : ∀ pid ∈ killed, Asked s.log pid

/-- The slots up to the current one are free, and the current one once its process was
killed belongs to it. -/
structure Swept (table : Table) (killed : List Int) (i : Nat) (stage : SlotStage) : Prop where
  cleared : ∀ j < i, ∀ slot, table[j]? = some slot → slot.pid = 0
  current : stage = .cleanup ∨ stage = .assign → ∀ slot, table[i]? = some slot →
    slot.pid = 0 ∨ slot.pid ∈ killed

section Sweeping

variable {killed : List Int} {i : Nat} {stage : SlotStage}

theorem RestorableInvariant.sweeping (h : RestorableInvariant dir s) (hdecided : Decided dir s)
    (hasked : AllAsked s.table s.log) : Sweeping dir [] s where
  sound := h.workers.sound
  unique := h.workers.unique
  targets _ _ hx := h.settled.target_pos hx
  held k x hx hheld := by
    obtain ⟨⟨slot, hslot, hpid, -, hworker⟩, -⟩ := (h.workers.held k x hx hheld).restorable
    exact Or.inr ⟨slot, hslot, hpid, hworker⟩
  decided := hdecided
  asked := hasked
  killedAsked := by simp

theorem Sweeping.progress (h : Sweeping dir killed s) {after : List Proc}
    (hrel : Related (Proc.Continues dir) s.procs after) (sock : Int → Option Nat)
    {log : List Event} (hlog : ∀ e ∈ s.log, e ∈ log) :
    Sweeping dir killed { s with procs := after, sock := sock, log := log } where
  sound := h.sound.related hrel fun _ _ _ hxy hsound => hsound.continues hxy
  unique := h.unique.related hrel (fun _ _ hxy => hxy.pid) fun _ _ hxy => hxy.reaped
  targets := h.targets.related hrel fun _ _ _ hxy hpos => hxy.target.symm ▸ hpos
  held := h.held.related hrel fun _ x y hxy hheld hy => by
    rw [hxy.target, hxy.pid]
    exact hheld (hxy.held hy)
  decided := h.decided.related hrel fun _ hk => hk
  asked := h.asked.mono hlog
  killedAsked pid hpid := ⟨(h.killedAsked pid hpid).1, hlog _ (h.killedAsked pid hpid).2⟩

theorem Sweeping.reap (h : Sweeping dir killed s) {k : Nat} {x : Proc}
    (hx : s.procs[k]? = some x) (hexited : x.exited = true) (hreaped : x.reaped = false) :
    Sweeping dir killed { s with
      table := clearPidOnWorkerExit x.pid s.table
      procs := s.procs.modify k fun x => { x with reaped := true } } := by
  have hrel : Related (Proc.Continues dir) s.procs
      (s.procs.modify k fun x => { x with reaped := true }) := by
    refine Related.modify (fun y => (Proc.Steady.refl y).toContinues) fun y hy => ?_
    obtain rfl : x = y := Option.some.inj (hx.symm.trans hy)
    exact (Proc.steady_reap hexited).toContinues
  refine { h.progress hrel s.sock (fun _ he => he) with
    held := ?_, asked := h.asked.clearPidOnWorkerExit x.pid }
  intro j y hy hheld
  obtain ⟨z, hz, hzy⟩ := hrel.backward j y hy
  have hzheld := hzy.held hheld
  have hrunning := (Proc.held_iff.mp hzheld).2.1
  rw [hzy.target, hzy.pid]
  refine (h.held j z hz hzheld).imp_right ?_
  rintro ⟨slot, hslot, hpid, hworker⟩
  have hne : z.pid ≠ x.pid := by
    intro heq
    have hzreaped := eq_false_of_imp (h.sound j z hz).exited_of_reaped hrunning
    obtain rfl : k = j := h.unique k j x z hx hz hreaped hzreaped heq.symm
    obtain rfl : x = z := Option.some.inj (hx.symm.trans hz)
    rw [hexited] at hrunning
    cases hrunning
  refine ⟨slot, List.mem_map.mpr ⟨slot, hslot, ?_⟩, hpid, hworker⟩
  rw [if_neg (by simpa [hworker] using hne)]

theorem WorkerMove.sweeping {act : Act} (h : WorkerMove dir s act t)
    (hs : Sweeping dir killed s) : Sweeping dir killed t :=
  h.rule (Sweeping dir killed) (fun _ _ sock _ hs hrel hlog => hs.progress hrel sock hlog)
    (fun _ _ hx hexited hreaped hs => hs.reap hx hexited hreaped) hs

theorem Swept.clear {table : Table} (h : Swept table killed i stage) (worker : Int) :
    Swept (clearPidOnWorkerExit worker table) killed i stage := by
  have hslot : ∀ {j : Nat} {slot : Slot}, (clearPidOnWorkerExit worker table)[j]? = some slot →
      slot.pid = 0 ∨ table[j]? = some slot := by
    intro j slot hslot
    rw [clearPidOnWorkerExit, List.getElem?_map] at hslot
    obtain ⟨old, hold, rfl⟩ := Option.map_eq_some_iff.mp hslot
    split
    · exact Or.inl rfl
    · exact Or.inr hold
  constructor
  · intro j hj slot hget
    exact (hslot hget).elim id (h.cleared j hj slot)
  · intro hstage slot hget
    exact (hslot hget).elim Or.inl (h.current hstage slot)

theorem WorkerMove.swept {act : Act} (h : WorkerMove dir s act t)
    (hs : Swept s.table killed i stage) : Swept t.table killed i stage :=
  h.rule (fun s => Swept s.table killed i stage) (fun _ _ _ _ hs _ _ => hs)
    (fun _ x _ _ _ hs => hs.clear x.pid) hs

theorem Sweeping.kill (h : Sweeping dir killed s) {slot : Slot} (hslot : s.table[i]? = some slot)
    (hpid : slot.pid ≠ 0) :
    Sweeping dir (slot.pid :: killed) (s.kill slot.pid slot.pid slot.worker) := by
  have hafter := h.progress (Related.map fun x => (x.steady_killed slot.pid).toContinues) s.sock
    (fun _ he => List.mem_cons_of_mem (.killed slot.pid slot.pid slot.worker) he)
  refine { hafter with held := ?_, killedAsked := ?_ }
  · intro k x hx hheld
    exact (hafter.held k x hx hheld).imp_left (List.mem_cons_of_mem _)
  · intro pid hmem
    rcases List.mem_cons.mp hmem with rfl | hmem
    · exact (hafter.asked slot (List.mem_of_getElem? hslot)).resolve_left hpid
    · exact hafter.killedAsked pid hmem

theorem Sweeping.assign (h : Sweeping dir killed s) (hswept : Swept s.table killed i .assign) :
    Sweeping dir killed { s with table := s.table.modify i (Slot.assign pidInvalid) } ∧
      Swept (s.table.modify i (Slot.assign pidInvalid)) killed (i + 1) .look := by
  refine ⟨{ h with held := ?_, asked := ?_ }, ?_, nofun⟩
  · intro k x hx hheld
    rcases h.held k x hx hheld with hkilled | ⟨slot, hslot, hpid, hworker⟩
    · exact Or.inl hkilled
    · obtain ⟨j, hj⟩ := List.mem_iff_getElem?.mp hslot
      by_cases hij : i = j
      · -- this entry was the worker's, so its target was killed
        subst hij
        have hpos := h.targets k x hx
        refine Or.inl (hpid ▸ (hswept.current (Or.inr rfl) slot hj).resolve_left ?_)
        omega
      · refine Or.inr ⟨slot, List.mem_of_getElem? (i := j) ?_, hpid, hworker⟩
        simpa [List.getElem?_modify, hij] using hj
  · intro slot hslot
    obtain ⟨j, hj⟩ := List.mem_iff_getElem?.mp hslot
    obtain ⟨old, hold, rfl⟩ := getElem?_modify_eq_some hj
    split
    · exact Or.inl rfl
    · exact h.asked old (List.mem_of_getElem? hold)
  · intro j hj slot hget
    obtain ⟨old, hold, rfl⟩ := getElem?_modify_eq_some hget
    split
    · rfl
    · rename_i hne
      exact hswept.cleared j (by omega) old hold

theorem Sweeping.finish (h : Sweeping dir killed s) (hswept : Swept s.table killed i stage)
    (hi : s.table[i]? = none) :
    (∀ slot ∈ s.table, slot.pid = pidInvalid) ∧
      Indexed (fun _ x => x.held = true → x.target ∈ killed) s.procs := by
  have hfree : ∀ slot ∈ s.table, slot.pid = pidInvalid := by
    intro slot hslot
    obtain ⟨j, hj⟩ := List.mem_iff_getElem?.mp hslot
    have hlt : j < i :=
      (List.getElem?_eq_some_iff.mp hj).1.trans_le (List.getElem?_eq_none_iff.mp hi)
    exact hswept.cleared j hlt slot hj
  refine ⟨hfree, fun k x hx hheld => ?_⟩
  rcases h.held k x hx hheld with hkilled | ⟨slot, hslot, hpid, -⟩
  · exact hkilled
  · have hpos := h.targets k x hx
    have hzero := hfree slot hslot
    simp only [pidInvalid] at hzero
    omega

end Sweeping

/-- The loop of `service_mode` is running, or the command thread is waited for. -/
structure Serving (dir : Bool) (s : Service) : Prop where
  restorable : RestorableInvariant dir s.sys
  decided : Decided dir s.sys
  asked : AllAsked s.sys.table s.sys.log
  killed : s.killed = []
  ended : s.cmdEnded = true → s.sys.cmd.undecided = none

/-- How the service leaves the processes: a worker has exited, was told to restore its
target, has reported its failure, or its target was sent SIGKILL. -/
structure Released (dir : Bool) (s : Service) : Prop where
  table : ∀ slot ∈ s.sys.table, slot.pid = pidInvalid
  workers : ∀ x ∈ s.sys.procs, x.exited = true ∨ x.inbox.isSome = true ∨ Failed (x.done dir) ∨
    x.target ∈ s.killed
  killed : ∀ pid ∈ s.killed, Asked s.sys.log pid

/-- The invariant of each phase: nothing new comes in once the command thread is joined,
and the sweep has dealt with the slots behind it. -/
def ShutdownInvariant (dir : Bool) (s : Service) : Prop :=
  match s.phase with
  | .serving | .interrupting | .joining => Serving dir s
  | .locking => Serving dir s ∧ s.cmdEnded = true
  | .cleaning i stage =>
      s.cmdEnded = true ∧ s.sys.cmd.undecided = none ∧ Sweeping dir s.killed s.sys ∧
        Swept s.sys.table s.killed i stage
  | .ended => s.cmdEnded = true ∧ Released dir s
  | .groupKilled => True

section Runs

variable {s t : Service}

theorem CmdPc.undecided_of_returns {cmd : CmdPc} {interrupt : Bool}
    (h : cmd.returns interrupt = true) : cmd.undecided = none := by
  cases cmd with
  | waiting => rfl
  | stopped => rfl
  | _ => cases h

theorem Serving.serve {act : Act} (h : Serving dir s) (hserves : s.serves act = true)
    (hguard : admitsSafely s.sys act = true) {sys : Sys} (hstep : step dir s.sys act = some sys) :
    Serving dir { s with sys := sys } := by
  have hmove := step_move hstep
  refine ⟨hmove.restorable hguard h.restorable, hmove.decided h.restorable.workers h.decided,
    hmove.asked h.restorable.settled.commands h.asked, h.killed, fun hended => ?_⟩
  have hended : s.cmdEnded = true := hended
  have hcmd : sys.cmd = s.sys.cmd := by
    cases hmove with
    | accept cd command t hmove => exact hmove.cmd_eq
    | main t hmove => exact hmove.cmd_eq
    | cmd outcome t hmove => simp [Service.serves, hended] at hserves
    | worker act t hmove => exact hmove.cmd_eq
  exact (congrArg CmdPc.undecided hcmd).trans (h.ended hended)

/-- Once the command thread is joined, only workers and the handler move beside the main
thread. -/
theorem Service.worker_of_serves {act : Act} (hphase : s.phase ≠ .serving)
    (hended : s.cmdEnded = true) (hserves : s.serves act = true) {sys : Sys}
    (hstep : ServiceSystem.step dir s.sys act = some sys) :
    WorkerMove dir s.sys act sys ∧ s.phase ≠ .ended := by
  cases step_move hstep with
  | accept cd command t hmove => simp [Service.serves, hphase] at hserves
  | main t hmove => simp [Service.serves, hphase] at hserves
  | cmd outcome t hmove => simp [Service.serves, hended] at hserves
  | worker act t hmove =>
      refine ⟨hmove, fun hend => ?_⟩
      cases hmove <;> simp [Service.serves, hend] at hserves

theorem ShutdownInvariant.serve {act : Act} (h : ShutdownInvariant dir s)
    (hserves : s.serves act = true) (hguard : admitsSafely s.sys act = true) {sys : Sys}
    (hstep : ServiceSystem.step dir s.sys act = some sys) :
    ShutdownInvariant dir { s with sys := sys } := by
  obtain ⟨before, phase, interrupt, cmdEnded, killed⟩ := s
  cases phase with
  | serving => exact Serving.serve h hserves hguard hstep
  | interrupting => exact Serving.serve h hserves hguard hstep
  | joining => exact Serving.serve h hserves hguard hstep
  | locking => exact ⟨h.1.serve hserves hguard hstep, h.2⟩
  | cleaning i stage =>
      obtain ⟨hended, hundecided, hsweeping, hswept⟩ := h
      obtain ⟨hmove, -⟩ := Service.worker_of_serves (by simp) hended hserves hstep
      exact ⟨hended, (congrArg CmdPc.undecided hmove.cmd_eq).trans hundecided,
        hmove.sweeping hsweeping, hmove.swept hswept⟩
  | ended =>
      obtain ⟨-, hne⟩ := Service.worker_of_serves (by simp) h.1 hserves hstep
      exact absurd rfl hne
  | groupKilled => trivial

theorem Sweeping.abandoned {i : Nat} {stage : SlotStage} (hsweeping : Sweeping dir s.killed s.sys)
    (hswept : Swept s.sys.table s.killed i stage) (hundecided : s.sys.cmd.undecided = none)
    (hi : s.sys.table[i]? = none) : Released dir s where
  table := (hsweeping.finish hswept hi).1
  workers x hx := by
    obtain ⟨k, hk⟩ := List.mem_iff_getElem?.mp hx
    have hheld := (hsweeping.finish hswept hi).2 k x hk
    rcases hsweeping.decided k x hk with hexited | hserved | hfailed | hcurrent
    · exact Or.inl hexited
    · cases hexited : x.exited with
      | true => exact Or.inl rfl
      | false =>
          cases htold : x.inbox.isSome with
          | true => exact Or.inr (Or.inl rfl)
          | false =>
              exact Or.inr (Or.inr (Or.inr (hheld (Proc.held_iff.mpr ⟨hserved, hexited, htold⟩))))
    · exact Or.inr (Or.inr (Or.inl hfailed))
    · rw [hundecided] at hcurrent
      cases hcurrent
  killed := hsweeping.killedAsked

theorem ShutdownInvariant.clean {i : Nat} {stage : SlotStage} (hphase : s.phase = .cleaning i stage)
    (h : ShutdownInvariant dir s) (hstep : cleanStep dir s i stage = some t) :
    ShutdownInvariant dir t := by
  simp only [ShutdownInvariant, hphase] at h
  obtain ⟨hended, hundecided, hsweeping, hswept⟩ := h
  cases stage with
  | look =>
      rw [cleanStep] at hstep
      split at hstep
      · rename_i hnone
        cases hstep
        exact ⟨hended, { hsweeping.abandoned hswept hundecided hnone with }⟩
      · rename_i slot hslot
        split_ifs at hstep with hpid
        · cases hstep
          exact ⟨hended, hundecided, hsweeping, hswept.cleared, nofun⟩
        · cases hstep
          refine ⟨hended, hundecided, hsweeping, fun j hj other hother => ?_, nofun⟩
          rcases Nat.lt_succ_iff_lt_or_eq.mp hj with hlt | rfl
          · exact hswept.cleared j hlt other hother
          · obtain rfl : slot = other := Option.some.inj (hslot.symm.trans hother)
            exact not_not.mp hpid
  | kill =>
      rw [cleanStep] at hstep
      split at hstep
      · cases hstep
      · rename_i slot hslot
        split_ifs at hstep with hpid
        · cases hstep
          trivial
        · cases hstep
          refine ⟨hended, hundecided, hsweeping.kill hslot hpid, hswept.cleared, ?_⟩
          intro _ other hother
          obtain rfl : slot = other := Option.some.inj (hslot.symm.trans hother)
          exact Or.inr List.mem_cons_self
  | cleanup =>
      rw [cleanStep] at hstep
      split at hstep
      · cases hstep
      · cases hstep
        refine ⟨hended, hundecided, ?_, hswept.cleared, fun _ => hswept.current (Or.inl rfl)⟩
        exact hsweeping.progress (Related.refl fun x => (Proc.Steady.refl x).toContinues) _
          fun _ he => he
  | assign =>
      cases hstep
      exact ⟨hended, hundecided, hsweeping.assign hswept⟩

theorem ShutdownInvariant.step {act : ServiceAct} (h : ShutdownInvariant dir s)
    (hguard : servesSafely s act = true) (hstep : serviceStep dir s act = some t) :
    ShutdownInvariant dir t := by
  cases act with
  | serve act =>
      simp only [serviceStep] at hstep
      split_ifs at hstep with hserves
      obtain ⟨sys, hsys, rfl⟩ := Option.map_eq_some_iff.mp hstep
      exact h.serve hserves hguard hsys
  | leave =>
      simp only [serviceStep] at hstep
      split_ifs at hstep with hphase
      cases hstep
      simp only [ShutdownInvariant, hphase.1] at h
      exact { h with }
  | interrupt =>
      simp only [serviceStep] at hstep
      split_ifs at hstep with hphase
      cases hstep
      simp only [ShutdownInvariant, hphase] at h
      exact { h with }
  | cmdEnds =>
      simp only [serviceStep] at hstep
      split_ifs at hstep with hreturns
      cases hstep
      have hundecided := CmdPc.undecided_of_returns hreturns
      obtain ⟨sys, phase, interrupt, cmdEnded, killed⟩ := s
      cases phase with
      | serving => exact { h with ended := fun _ => hundecided }
      | interrupting => exact { h with ended := fun _ => hundecided }
      | joining => exact { h with ended := fun _ => hundecided }
      | locking => exact ⟨{ h.1 with ended := fun _ => hundecided }, rfl⟩
      | cleaning i stage => exact ⟨rfl, h.2⟩
      | ended => exact ⟨rfl, { h.2 with }⟩
      | groupKilled => trivial
  | join =>
      simp only [serviceStep] at hstep
      split_ifs at hstep with hphase
      cases hstep
      simp only [ShutdownInvariant, hphase.1] at h
      exact ⟨{ h with }, hphase.2⟩
  | lock =>
      simp only [serviceStep] at hstep
      split_ifs at hstep with hphase
      cases hstep
      simp only [ShutdownInvariant, hphase.1] at h
      obtain ⟨hserving, hended⟩ := h
      refine ⟨hended, hserving.ended hended, ?_, nofun, nofun⟩
      dsimp only
      rw [hserving.killed]
      exact { hserving.restorable.sweeping hserving.decided hserving.asked with }
  | clean =>
      simp only [serviceStep] at hstep
      split at hstep
      · rename_i i stage hphase
        exact h.clean hphase hstep
      · cases hstep

theorem shutdownInvariant_boot : ShutdownInvariant dir Service.boot where
  restorable := restorableInvariant_boot
  decided := indexed_nil
  asked slot hslot := Or.inl (by rw [List.eq_of_mem_replicate hslot])
  killed := rfl
  ended := nofun

end Runs

/-- When `service_mode` ends, its table is empty, no worker is left that keeps a process
frozen, and nobody was killed but processes that a client named for a CHECKPOINT. -/
theorem shutdown_abandons_nobody (dir : Bool) (acts : List ServiceAct) (t : Service)
    (hguard : Guarded (serviceStep dir) (fun s act => servesSafely s act = true)
      Service.boot acts)
    (hrun : run (serviceStep dir) Service.boot acts = some t) (hended : t.phase = .ended) :
    Released dir t := by
  have hinv : ShutdownInvariant dir t :=
    invariant_of_guarded (fun _ _ _ hinv hguard hstep => hinv.step hguard hstep)
      shutdownInvariant_boot hguard hrun
  simp only [ShutdownInvariant, hended] at hinv
  exact hinv.2

/-- Pid 5 is checkpointed, and then the service is shut down. -/
def checkpointedShutdown : List ServiceAct :=
  checkpointed.map .serve ++ [.serve (.cmd .done), .serve (.cmd .done)] ++
    [.leave, .interrupt, .cmdEnds, .join, .lock] ++ List.replicate 52 .clean

theorem shutdown_abandons_nobody_five :
    ∃ t, run (serviceStep false) Service.boot checkpointedShutdown = some t ∧
      t.phase = .ended ∧ t.killed = [5] ∧ t.sys.procs.map Proc.held = [true] ∧
      Released false t := by
  have hview : (run (serviceStep false) Service.boot checkpointedShutdown).map
      (fun t => (t.phase, t.killed, t.sys.procs.map Proc.held)) =
        some (.ended, [5], [true]) := by decide +kernel
  obtain ⟨t, hrun, ht⟩ := Option.map_eq_some_iff.mp hview
  simp only [Prod.mk.injEq] at ht
  exact ⟨t, hrun, ht.1, ht.2.1, ht.2.2, shutdown_abandons_nobody false checkpointedShutdown t
    (by decide +kernel) hrun ht.1⟩

end Memcr.ServiceSystem
