import Mathlib.Data.List.Nodup
import Memcr.ServiceCommands

namespace Memcr.ServiceSystem

open Memcr.GuardedRuns
open Memcr.IndexedLists
open Memcr.ServiceTable
open Memcr.WorkerProcess

/-- No slot names a worker that the SIGCHLD handler has reaped. -/
def NoStaleWorker (s : Sys) : Prop :=
  ∀ x ∈ s.procs, x.reaped = true → ∀ slot ∈ s.table, slot.worker ≠ x.pid

/-- No pid of a worker is used a second time, and the worker of a successful
checkpoint has not been reaped when `set_pid_checkpointed` runs. -/
def recordsUnreaped (s : Sys) : Act → Bool
  | .cmd (.forks pid _) => s.procs.all fun x => x.pid != pid
  | .cmd .done =>
      match s.cmd with
      | .checkpointing _ _ _ k (.finish .ok) => (s.procs[k]?).all fun x => !x.reaped
      | _ => true
  | _ => true

/-- What matters of a worker here. -/
def Proc.fate (x : Proc) : Int × Bool := (x.pid, x.reaped)

def fates (procs : List Proc) : List (Int × Bool) := procs.map Proc.fate

/-- No entry names a worker that was reaped. The command thread writes the worker into
the table only after the answer to the client, without a look whether it still lives. -/
structure ReapedInvariant (cmd : CmdPc) (table : Table) (workers : List (Int × Bool)) : Prop where
  stale : ∀ pid, (pid, true) ∈ workers → ∀ slot ∈ table, slot.worker ≠ pid
  pos : ∀ pid reaped, (pid, reaped) ∈ workers → 0 < pid
  distinct : (workers.map Prod.fst).Nodup
  current : ∀ c worker k, cmd.current = some (c, worker, k) →
    ∃ reaped, workers[k]? = some (worker, reaped)

variable {dir : Bool} {s t : Sys} {cmd : CmdPc} {table after : Table}
  {workers : List (Int × Bool)}

theorem fates_modify {procs : List Proc} {k : Nat} {f : Proc → Proc}
    (hf : ∀ x : Proc, (f x).fate = x.fate) : fates (procs.modify k f) = fates procs :=
  map_modify_eq hf

theorem fates_killed (procs : List Proc) (pid : Int) :
    fates (procs.map (Proc.killed pid)) = fates procs := by
  rw [fates, List.map_map]
  refine List.map_congr_left fun x _ => ?_
  simp only [Function.comp_apply, Proc.killed]
  split <;> rfl

theorem fates_reap (procs : List Proc) (k : Nat) :
    fates (procs.modify k fun x => { x with reaped := true }) =
      (fates procs).modify k fun fate => (fate.1, true) := by
  induction procs generalizing k with
  | nil => simp [fates]
  | cons x rest ih =>
      cases k with
      | zero => rfl
      | succ k => simpa [fates] using ih k

theorem ReapedInvariant.of_table (h : ReapedInvariant cmd table workers)
    (hafter : ∀ pid ≠ 0, (∀ slot ∈ table, slot.worker ≠ pid) → ∀ slot ∈ after, slot.worker ≠ pid) :
    ReapedInvariant cmd after workers :=
  { h with
    stale := fun pid hpid => hafter pid (h.pos pid true hpid).ne' (h.stale pid hpid) }

theorem ReapedInvariant.clear (h : ReapedInvariant cmd table workers) (pid : Int) :
    ReapedInvariant cmd (clearPidCheckpointData pid table) workers :=
  h.of_table fun _ hne hnone => forall_clear pid hnone fun _ _ => hne.symm

theorem ReapedInvariant.of_cmd {next : CmdPc} (h : ReapedInvariant cmd table workers)
    (hnext : next.current = none ∨ next.current = cmd.current) :
    ReapedInvariant next table workers := by
  refine { h with current := fun c worker k hcurrent => ?_ }
  rcases hnext with hnone | hsame
  · rw [hnone] at hcurrent
    cases hcurrent
  · exact h.current c worker k (hsame.symm.trans hcurrent)

theorem ReapedInvariant.of_fates {procs : List Proc} (h : ReapedInvariant cmd table workers)
    (hfates : fates procs = workers) : ReapedInvariant cmd table (fates procs) :=
  hfates ▸ h

theorem ReapedInvariant.killed {procs : List Proc} {next : CmdPc}
    (h : ReapedInvariant cmd table (fates procs)) (pid : Int)
    (hnext : next.current = none ∨ next.current = cmd.current) :
    ReapedInvariant next table (fates (procs.map (Proc.killed pid))) :=
  (h.of_cmd hnext).of_fates (fates_killed procs pid)

theorem ReapedInvariant.fork {pid : Int} (c : Ctx) (sd : Nat)
    (h : ReapedInvariant cmd table workers) (hpos : 0 < pid)
    (hunused : ∀ reaped, (pid, reaped) ∉ workers) :
    ReapedInvariant (.starting c (.setCheckpointing sd pid workers.length)) table
      (workers ++ [(pid, false)]) where
  stale := fun other hother => h.stale other (by simpa using hother)
  pos := by
    intro other reaped hother
    rcases List.mem_append.mp hother with hother | hother
    · exact h.pos other reaped hother
    · obtain ⟨rfl, -⟩ := Prod.mk.inj (List.mem_singleton.mp hother)
      exact hpos
  distinct := by
    rw [List.map_append, List.nodup_append]
    refine ⟨h.distinct, by simp, ?_⟩
    rintro other hother used hused rfl
    obtain ⟨⟨worker, reaped⟩, hmem, rfl⟩ := List.mem_map.mp hother
    obtain rfl : worker = pid := by simpa using hused
    exact hunused reaped hmem
  current := by
    intro c worker k hcurrent
    obtain ⟨-, rfl, rfl⟩ : _ ∧ pid = worker ∧ workers.length = k := by
      simpa [CmdPc.current] using hcurrent
    exact ⟨false, by simp⟩

theorem ReapedInvariant.ne_of_unreaped (h : ReapedInvariant cmd table workers) {pid worker : Int}
    {k : Nat} (hworker : workers[k]? = some (worker, false)) (hpid : (pid, true) ∈ workers) :
    worker ≠ pid := by
  rintro rfl
  have hsame := List.inj_on_of_nodup_map h.distinct (List.mem_of_getElem? hworker) hpid rfl
  cases hsame

theorem ReapedInvariant.reap {k : Nat} {pid : Int} {reaped : Bool}
    (h : ReapedInvariant cmd table workers) (hk : workers[k]? = some (pid, reaped)) :
    ReapedInvariant cmd (clearPidOnWorkerExit pid table)
      (workers.modify k fun fate => (fate.1, true)) := by
  have hpids : (workers.modify k fun fate => (fate.1, true)).map Prod.fst = workers.map Prod.fst :=
    map_modify_eq fun _ => rfl
  have hpos := h.pos pid reaped (List.mem_of_getElem? hk)
  have hmem : ∀ other fate, (other, fate) ∈ workers.modify k (fun fate => (fate.1, true)) →
      other = pid ∨ (other, fate) ∈ workers := by
    intro other fate hother
    obtain ⟨j, hj⟩ := List.mem_iff_getElem?.mp hother
    obtain ⟨old, hold, heq⟩ := getElem?_modify_eq_some hj
    split at heq
    · rename_i hkj
      subst hkj
      obtain rfl : (pid, reaped) = old := Option.some.inj (hk.symm.trans hold)
      exact Or.inl (Prod.mk.inj heq).1
    · exact Or.inr (heq ▸ List.mem_of_getElem? hold)
  refine ⟨fun other hother => ?_, fun other fate hother => ?_, hpids ▸ h.distinct,
    fun c worker j hcurrent => ?_⟩
  · rcases hmem other true hother with rfl | hold
    · intro slot hslot
      obtain ⟨old, -, rfl⟩ := List.mem_map.mp hslot
      split
      · exact hpos.ne
      · rename_i hne
        simpa using hne
    · exact forall_clearPidOnWorkerExit pid (h.stale other hold)
        fun _ _ => (h.pos other true hold).ne
  · rcases hmem other fate hother with rfl | hold
    · exact hpos
    · exact h.pos other fate hold
  · obtain ⟨old, hold⟩ := h.current c worker j hcurrent
    refine ⟨if k = j then true else old, ?_⟩
    rw [List.getElem?_modify, hold]
    by_cases hkj : k = j <;> simp [hkj]

/-- The invariant of a state. -/
def Sys.Reaped (s : Sys) : Prop := ReapedInvariant s.cmd s.table (fates s.procs)

theorem MainMove.reaped (h : MainMove s t) (hinv : s.Reaped) : t.Reaped := by
  cases h with
  | initPid s c =>
      exact hinv.of_table fun _ hne hnone => forall_init c.pid hnone fun _ _ => hne.symm
  | clearRefused s c => exact hinv.clear c.pid
  | tryAbort s c =>
      exact hinv.of_table fun _ _ hnone =>
        forall_tryToAbortCheckpoint c.pid hnone fun slot hmem _ => hnone slot hmem
  | _ => exact hinv

theorem QueueMove.reaped (h : QueueMove s t) (hinv : s.Reaped) : t.Reaped := by
  cases h with
  | pop s c => exact hinv.of_cmd (Or.inl (dispatch_current c))
  | _ => exact hinv.of_cmd (Or.inl rfl)

theorem unreaped_of_guard {procs : List Proc} {k : Nat} {worker : Int} {reaped : Bool}
    (hguard : ((procs[k]?).all fun x => !x.reaped) = true)
    (hfate : (fates procs)[k]? = some (worker, reaped)) :
    (fates procs)[k]? = some (worker, false) := by
  rw [fates, List.getElem?_map] at hfate
  obtain ⟨x, hx, hxfate⟩ := Option.map_eq_some_iff.mp hfate
  rw [hx, Option.all_some, Bool.not_eq_true'] at hguard
  rw [fates, List.getElem?_map, hx, Option.map_some, Proc.fate, hguard, (Prod.mk.inj hxfate).1]

theorem cmdStep_forks {c : Ctx} {sd k : Nat} {pid : Int} {outcome : Outcome}
    (hstep : cmdStep dir s outcome = some t) (hs : s.cmd = .starting c (.fork sd))
    (ht : t.cmd = .starting c (.setCheckpointing sd pid k)) : ∃ env, outcome = .forks pid env := by
  rw [cmdStep.eq_def, hs] at hstep
  cases outcome with
  | forks other env =>
      simp only [startStep] at hstep
      split at hstep
      · cases hstep
        obtain ⟨rfl, -⟩ : other = pid ∧ s.procs.length = k := by simpa using ht
        exact ⟨env, rfl⟩
      · cases hstep
  | fails =>
      cases hstep
      cases ht
  | _ => cases hstep

theorem CheckpointMove.reaped {outcome : Outcome} (h : CheckpointMove dir s t)
    (hstep : cmdStep dir s outcome = some t)
    (hguard : recordsUnreaped s (.cmd outcome) = true) (hinv : s.Reaped) : t.Reaped := by
  cases h with
  | openSockets | noSockets | forkFails => exact hinv.of_cmd (Or.inl rfl)
  | fork s c sd pid env hfresh =>
      obtain ⟨env, rfl⟩ := cmdStep_forks hstep rfl rfl
      have hunused : ∀ reaped, (pid, reaped) ∉ fates s.procs := by
        intro reaped hmem
        obtain ⟨x, hx, hfate⟩ := List.mem_map.mp hmem
        have hne : x.pid ≠ pid := by simpa using List.all_eq_true.mp hguard x hx
        exact hne (Prod.mk.inj hfate).1
      have hfork := hinv.fork c sd (Sys.freshPid_iff.mp hfresh).1 hunused
      rw [show (fates s.procs).length = s.procs.length from List.length_map ..] at hfork
      exact hfork.of_fates (by simp [fates, Proc.fate])
  | clearNoFork s c => exact (hinv.clear c.pid).of_cmd (Or.inl rfl)
  | setCheckpointing s c sd =>
      exact (hinv.of_table fun _ _ hnone =>
        forall_setPidCheckpointing c.pid sd hnone fun slot hmem _ _ => hnone slot hmem).of_cmd
          (Or.inr rfl)
  | killTarget s c => exact hinv.killed c.pid (Or.inr rfl)
  | killWorker s c sd worker => exact hinv.killed worker (Or.inr rfl)
  | setCheckpointed s c sd worker k =>
      obtain ⟨reaped, hcurrent⟩ := hinv.current c worker k rfl
      cases outcome with
      | done =>
          have hworker := unreaped_of_guard hguard hcurrent
          have hset : ReapedInvariant (.ending c (.closeSd sd))
              (setPidCheckpointed c.pid worker s.table) (fates s.procs) :=
            { hinv.of_cmd (Or.inl rfl) with
              stale := fun pid hpid =>
                forall_setPidCheckpointed c.pid worker (hinv.stale pid hpid)
                  fun _ _ _ _ => hinv.ne_of_unreaped hworker hpid }
          exact hset.of_fates (fates_modify fun _ => rfl)
      | _ => cases hstep
  | clearFailed s c => exact (hinv.clear c.pid).of_cmd (Or.inl rfl)
  | _ => exact hinv.of_cmd (Or.inr rfl)

theorem RestoreMove.reaped (h : RestoreMove dir s t) (hinv : s.Reaped) : t.Reaped := by
  cases h with
  | connect | write =>
      exact (hinv.of_cmd (Or.inl rfl)).of_fates (fates_modify fun _ => rfl)
  | killTarget s c => exact hinv.killed c.pid (Or.inl rfl)
  | killWorker s c worker => exact hinv.killed worker (Or.inl rfl)
  | clear s c => exact (hinv.clear c.pid).of_cmd (Or.inl rfl)
  | _ => exact hinv.of_cmd (Or.inl rfl)

theorem WorkerMove.reaped {act : Act} (h : WorkerMove dir s act t) (hinv : s.Reaped) :
    t.Reaped := by
  have hadvance {k : Nat} : fates (s.advance k).procs = fates s.procs :=
    fates_modify fun _ => rfl
  cases h with
  | kill k x pid => exact hinv.of_fates ((fates_killed (s.advance k).procs pid).trans hadvance)
  | exit k =>
      have hexit : fates ((s.advance k).setProc k fun x => { x with exited := true }).procs =
          fates (s.advance k).procs := fates_modify fun _ => rfl
      exact hinv.of_fates (hexit.trans hadvance)
  | dies => exact hinv.of_fates (fates_modify fun _ => rfl)
  | reap k x hx =>
      have hk : (fates s.procs)[k]? = some (x.pid, x.reaped) := by
        rw [fates, List.getElem?_map, hx]
        rfl
      exact (hinv.reap hk).of_fates (fates_reap s.procs k)
  | _ => exact hinv.of_fates hadvance

theorem step_reaped {act : Act} (hinv : s.Reaped) (hguard : recordsUnreaped s act = true)
    (hstep : step dir s act = some t) : t.Reaped := by
  cases step_move hstep with
  | accept cd command t h => cases h <;> exact hinv
  | main t h => exact h.reaped hinv
  | cmd outcome t h =>
      cases h with
      | queue h => exact h.reaped hinv
      | checkpoint h => exact h.reaped hstep hguard hinv
      | restore h => exact h.reaped hinv
  | worker act t h => exact h.reaped hinv

theorem reaped_boot (table : Table) : (Sys.boot table).Reaped where
  stale := by simp [Sys.boot, fates]
  pos := by simp [Sys.boot, fates]
  distinct := by simp [Sys.boot, fates]
  current := by simp [Sys.boot, CmdPc.current]

/-- When no pid of a worker is used twice and no worker is reaped between its OK
and `set_pid_checkpointed`, the table never names a reaped worker. -/
theorem no_stale_worker (dir : Bool) (table : Table) (acts : List Act) (t : Sys)
    (hguard : Guarded (step dir) (fun s act => recordsUnreaped s act = true)
      (Sys.boot table) acts)
    (hrun : run (step dir) (Sys.boot table) acts = some t) : NoStaleWorker t := by
  have hinv : t.Reaped :=
    invariant_of_guarded (fun _ _ _ hinv hguard hstep => step_reaped hinv hguard hstep)
      (reaped_boot table) hguard hrun
  intro x hx hreaped
  exact hinv.stale x.pid (List.mem_map.mpr ⟨x, hx, by rw [Proc.fate, hreaped]⟩)

/-- Worker 1000 checkpoints pid 5 and answers OK. -/
def answeredOk : List Act :=
  [.accept 4 (some checkpointFive), .main, .main, .main,
    .cmd .done, .cmd (.opens 7), .cmd (.forks 1000 willing), .cmd .done, .worker 0, .worker 0,
    .cmd (.gets .ok), .cmd .done]

theorem reapedAfterwards_noStaleWorker :
    ∃ t, run (step false) (Sys.boot Table.zero)
        (answeredOk ++ [.cmd .done, .workerDies 0, .reap 0]) = some t ∧
      (∃ x ∈ t.procs, x.reaped = true) ∧ NoStaleWorker t := by
  refine ⟨_, rfl, ⟨_, List.mem_cons_self, rfl⟩, ?_⟩
  exact no_stale_worker false Table.zero
    (answeredOk ++ [.cmd .done, .workerDies 0, .reap 0]) _ (by decide) rfl

theorem reapedBeforehand_staleWorker :
    ∃ t, run (step false) (Sys.boot Table.zero)
        (answeredOk ++ [.workerDies 0, .reap 0, .cmd .done]) = some t ∧
      canCheckpointPid 5 t.table = false ∧ ¬ NoStaleWorker t := by
  refine ⟨_, rfl, by decide, ?_⟩
  intro h
  exact h _ List.mem_cons_self rfl _ List.mem_cons_self rfl

end Memcr.ServiceSystem
