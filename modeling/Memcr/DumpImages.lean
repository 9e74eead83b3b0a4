import Memcr.ToldWorkers

namespace Memcr.ServiceSystem

open Memcr.ByteWords
open Memcr.GuardedRuns
open Memcr.IndexedLists
open Memcr.ServiceTable
open Memcr.WorkerProcess

/-- The files `pages-<pid>.img` beside the state of the service. A worker creates the
file of its target when it checkpoints it, and four places remove files; none of them
asks whose file it is. -/
structure Images where
  sys : Sys
  /-- The worker that created the file of a pid, while there is one. -/
  image : Int → Option Nat
  /-- The workers that have opened their dump. -/
  opened : List Nat

def Images.boot : Images := ⟨Sys.boot Table.zero, fun _ => none, []⟩

inductive ImageAct where
  | serve (act : Act)
  /-- `dump_open` in `get_target_pages`. -/
  | openDump (k : Nat)

section Steps

variable (dir : Bool)

/-- The pids that a step calls `cleanup_pid` for. -/
def Sys.cleanups (s : Sys) : Act → List Int
  | .worker k =>
      match s.nextAction dir k with
      | some (.cleanupPid pid) => [pid]
      | _ => []
  | .cmd _ =>
      match s.cmd with
      | .checkpointing c _ _ _ .cleanup => [c.pid]
      | .restoring c _ .cleanup => [c.pid]
      | _ => []
  | .reap k =>
      match s.procs[k]? with
      | some x => pidsOfWorker x.pid s.table
      | none => []
  | _ => []

/-- The worker has seized its target and is in `execute_parasite_checkpoint`. -/
def Proc.checkpoints (x : Proc) : Bool :=
  !x.exited && x.done dir == [.bind x.target] &&
    decide (0 ≤ (setupRestoreSocketWorker dir x.env x.target).1) && x.env.seizeTarget == 0#32

/-- Without a dump the checkpoint drops no page and does not succeed. -/
def Images.allows (s : Images) : Act → Bool
  | .worker k =>
      match s.sys.nextAction dir k with
      | some (.dropPages _) => s.opened.contains k
      | some (.respondCheckpoint .ok _) => s.opened.contains k
      | _ => true
  | _ => true

/-- A step of the service, which may remove files, or a worker that opens its dump. -/
def imageStep (s : Images) : ImageAct → Option Images
  | .serve act =>
      if s.allows dir act then
        (step dir s.sys act).map fun sys =>
          { s with
            sys := sys
            image := fun pid => if pid ∈ s.sys.cleanups dir act then none else s.image pid }
      else none
  | .openDump k =>
      match s.sys.procs[k]? with
      | some x =>
          if x.checkpoints dir && !s.opened.contains k then
            some { s with
              image := fun pid => if pid = x.target then some k else s.image pid
              opened := k :: s.opened }
          else none
      | none => none

/-- The conditions under which checkpoints are recorded and commands read
whole. -/
def dumpsSafely (s : Images) : ImageAct → Bool
  | .serve act => admitsSafely s.sys act && namesProcesses dir s.sys act
  | .openDump _ => true

end Steps

/-- The worker has not removed the dump of its target, and the command thread has
not given its checkpoint up. -/
structure Proc.Owns (dir : Bool) (s : Sys) (k : Nat) (x : Proc) : Prop where
  running : x.exited = false
  uncleaned : ∀ pid, .cleanupPid pid ∉ x.done dir
  wanted : x.served = true ∨ s.cmd.undecided = some k

/-- How a worker changes by any step that does not record it. -/
structure Proc.Ages (dir : Bool) (x y : Proc) : Prop where
  target : y.target = x.target
  served : y.served = x.served
  exited : x.exited = true → y.exited = true
  done : ∀ action ∈ x.done dir, action ∈ y.done dir

variable {dir : Bool} {s t : Sys}

theorem Proc.Acts.ages {x y : Proc} (h : x.Acts dir y) : x.Ages dir y :=
  ⟨h.target, h.served, h.exited, h.done⟩

theorem Proc.Ages.refl (x : Proc) : x.Ages dir x := ⟨rfl, rfl, id, fun _ h => h⟩

/-- Who owns a dump after a step owned it before, unless the step forked him. -/
def Inherits (dir : Bool) (s t : Sys) : Prop :=
  ∀ (k : Nat) y, k < s.procs.length → t.procs[k]? = some y → y.Owns dir t k →
    ∃ x, s.procs[k]? = some x ∧ x.target = y.target ∧ x.Owns dir s k

theorem inherits_of_ages (hrel : Related (Proc.Ages dir) s.procs t.procs)
    (hcmd : ∀ k, t.cmd.undecided = some k → s.cmd.undecided = some k) : Inherits dir s t := by
  intro k y _ hy howns
  obtain ⟨x, hx, hxy⟩ := hrel.backward k y hy
  refine ⟨x, hx, hxy.target.symm, eq_false_of_imp hxy.exited howns.running, fun pid hmem => ?_, ?_⟩
  · exact howns.uncleaned pid (hxy.done _ hmem)
  · exact howns.wanted.imp (fun hserved => hxy.served ▸ hserved) (hcmd k)

theorem dispatch_undecided (c : Ctx) : (dispatch c).undecided = none := by
  rcases dispatch_cases c with ⟨-, h⟩ | ⟨-, h | h⟩ <;> rw [h] <;> rfl

theorem QueueMove.inherits (h : QueueMove s t) : Inherits dir s t := by
  cases h with
  | pop s c rest => exact inherits_of_ages (.refl .refl) (by simp [dispatch_undecided])
  | _ => exact inherits_of_ages (.refl .refl) (by simp [CmdPc.undecided])

theorem RestoreMove.inherits (h : RestoreMove dir s t) : Inherits dir s t := by
  cases h with
  | connect s c worker k =>
      exact inherits_of_ages (.modify .refl fun x _ => { Proc.Ages.refl x with })
        (by simp [CmdPc.undecided])
  | write s c worker k n =>
      exact inherits_of_ages (.modify .refl fun x _ => { Proc.Ages.refl x with })
        (by simp [CmdPc.undecided])
  | killTarget s c worker =>
      exact inherits_of_ages (.map fun x => (x.acts_killed c.pid).ages)
        (by simp [CmdPc.undecided])
  | killWorker s c worker =>
      exact inherits_of_ages (.map fun x => (x.acts_killed worker).ages)
        (by simp [CmdPc.undecided])
  | _ => exact inherits_of_ages (.refl .refl) (by simp [CmdPc.undecided])

theorem CheckpointMove.inherits (h : CheckpointMove dir s t) : Inherits dir s t := by
  cases h with
  | fork s c sd pid env hfresh =>
      intro k y hk hy howns
      have hk : k < s.procs.length := hk
      have hx : s.procs[k]? = some y := by
        change (s.procs ++ [_])[k]? = some y at hy
        rwa [List.getElem?_append_left hk] at hy
      refine ⟨y, hx, rfl, howns.running, howns.uncleaned, Or.inl ?_⟩
      refine howns.wanted.resolve_right fun hcmd => ?_
      have hlength : s.procs.length = k := Option.some.inj hcmd
      omega
  | setCheckpointed s c sd worker k =>
      intro j y _ hy howns
      obtain ⟨x, hx, rfl⟩ := getElem?_modify_eq_some hy
      by_cases hkj : k = j
      · rw [if_pos hkj] at howns ⊢
        exact ⟨x, hx, rfl, howns.running, howns.uncleaned, Or.inr (congrArg some hkj)⟩
      · rw [if_neg hkj] at howns ⊢
        have hserved := howns.wanted.resolve_right (by simp [CmdPc.undecided])
        exact ⟨x, hx, rfl, howns.running, howns.uncleaned, Or.inl hserved⟩
  | response s c sd worker k code =>
      refine inherits_of_ages (.refl .refl) ?_
      cases code <;> simp [CmdPc.undecided]
  | killTarget s c sd worker k =>
      exact inherits_of_ages (.map fun x => (x.acts_killed c.pid).ages) fun _ hk => hk
  | killWorker s c sd worker k =>
      exact inherits_of_ages (.map fun x => (x.acts_killed worker).ages)
        (by simp [CmdPc.undecided])
  | respond s c sd worker k code =>
      refine inherits_of_ages (.refl .refl) ?_
      cases code <;> exact fun _ hk => hk
  | setCheckpointing | noResponse => exact inherits_of_ages (.refl .refl) fun _ hk => hk
  | _ => exact inherits_of_ages (.refl .refl) (by simp [CmdPc.undecided])

theorem Move.inherits {act : Act} (h : Move dir s act t) : Inherits dir s t := by
  cases h with
  | accept cd command t hmove =>
      cases hmove <;> exact inherits_of_ages (.refl .refl) fun _ hk => hk
  | main t hmove => cases hmove <;> exact inherits_of_ages (.refl .refl) fun _ hk => hk
  | cmd outcome t hmove =>
      cases hmove with
      | queue hmove => exact hmove.inherits
      | checkpoint hmove => exact hmove.inherits
      | restore hmove => exact hmove.inherits
  | worker act t hmove =>
      refine inherits_of_ages (hmove.acts.imp fun _ _ h => h.ages) fun k hk => ?_
      rwa [hmove.cmd_eq] at hk

theorem WorkerMove.aboutTo {k : Nat} (h : WorkerMove dir s (.worker k) t) :
    ∃ x action, Proc.AboutTo dir s k x action := by
  cases h with
  | bind k x pid hnext => exact ⟨x, _, hnext⟩
  | kill k x pid hnext => exact ⟨x, _, hnext⟩
  | unlink k x action pid haction hnext => exact ⟨x, _, hnext⟩
  | read k x received hnext => exact ⟨x, _, hnext⟩
  | accept k x hnext => exact ⟨x, _, hnext⟩
  | exit k x code hnext => exact ⟨x, _, hnext⟩
  | other k x action _ _ _ hnext => exact ⟨x, _, hnext⟩

theorem WorkerMove.mem_done {k : Nat} {x : Proc} {action : WorkerAction}
    (h : WorkerMove dir s (.worker k) t) (hnext : x.AboutTo dir s k action) :
    ∃ y, t.procs[k]? = some y ∧ action ∈ y.done dir := by
  have hadvance : (s.advance k).procs[k]? = some { x with pc := x.pc + 1 } := by
    simp [Sys.advance, Sys.setProc, hnext.found]
  have hdone : action ∈ ({ x with pc := x.pc + 1 } : Proc).done dir := by
    simp [Proc.done_advance hnext.next]
  cases h with
  | kill k z pid =>
      refine ⟨Proc.killed pid { x with pc := x.pc + 1 }, ?_, ?_⟩
      · simp [Sys.kill, hadvance]
      · exact (Proc.acts_killed pid _).done action hdone
  | exit k z code =>
      refine ⟨{ x with pc := x.pc + 1, exited := true }, ?_, hdone⟩
      simp [Sys.setProc, hadvance]
  | _ => exact ⟨_, hadvance, hdone⟩

theorem CmdPc.current_of_undecided {cmd : CmdPc} {k : Nat} (h : cmd.undecided = some k) :
    ∃ c worker, cmd.current = some (c, worker, k) ∧ cmd.pending c.pid = 1 := by
  cases cmd with
  | starting c stage =>
      cases stage with
      | setCheckpointing sd worker j =>
          obtain rfl : j = k := Option.some.inj h
          exact ⟨c, worker, rfl, if_pos rfl⟩
      | _ => cases h
  | checkpointing c sd worker j stage =>
      refine ⟨c, worker, ?_, if_pos rfl⟩
      cases stage with
      | readResponse | killTarget | killWorker =>
          obtain rfl : j = k := Option.some.inj h
          rfl
      | respond code | finish code =>
          cases code with
          | ok =>
              obtain rfl : j = k := Option.some.inj h
              rfl
          | _ => cases h
      | cleanup => cases h
  | _ => cases h

theorem CmdPc.undecided_of_awaited {cmd : CmdPc} {k : Nat} (h : cmd.awaited = some k) :
    cmd.undecided = some k := by
  cases cmd with
  | starting c stage => cases stage <;> exact h
  | checkpointing c sd worker j stage => cases stage <;> first | exact h | cases h
  | _ => cases h

theorem Proc.done_killed (pid : Int) (x : Proc) : (x.killed pid).done dir = x.done dir := by
  unfold Proc.killed
  split <;> rfl

theorem CmdMove.done_origin (h : CmdMove dir s t) {k : Nat} {y : Proc} {action : WorkerAction}
    (hy : t.procs[k]? = some y) (hmem : action ∈ y.done dir) :
    ∃ x, s.procs[k]? = some x ∧ action ∈ x.done dir := by
  have horigin {after : List Proc} (hy : after[k]? = some y)
      (hrel : Related (fun x y => y.done dir = x.done dir) s.procs after) :
      ∃ x, s.procs[k]? = some x ∧ action ∈ x.done dir := by
    obtain ⟨x, hx, hdone⟩ := hrel.backward k y hy
    exact ⟨x, hx, hdone ▸ hmem⟩
  cases h with
  | queue h => cases h <;> exact ⟨y, hy, hmem⟩
  | checkpoint h =>
      cases h with
      | fork s c sd pid env hfresh =>
          rcases getElem?_concat_eq_some hy with hold | ⟨-, rfl⟩
          · exact ⟨y, hold, hmem⟩
          · simp [Proc.done] at hmem
      | killTarget => exact horigin hy (.map fun x => x.done_killed _)
      | killWorker => exact horigin hy (.map fun x => x.done_killed _)
      | setCheckpointed => exact horigin hy (.modify (fun _ => rfl) fun _ _ => rfl)
      | _ => exact ⟨y, hy, hmem⟩
  | restore h =>
      cases h with
      | connect => exact horigin hy (.modify (fun _ => rfl) fun _ _ => rfl)
      | write => exact horigin hy (.modify (fun _ => rfl) fun _ _ => rfl)
      | killTarget => exact horigin hy (.map fun x => x.done_killed _)
      | killWorker => exact horigin hy (.map fun x => x.done_killed _)
      | _ => exact ⟨y, hy, hmem⟩

theorem WorkerMove.done_origin {act : Act} (h : WorkerMove dir s act t) {k : Nat} {y : Proc}
    {action : WorkerAction} (hy : t.procs[k]? = some y) (hmem : action ∈ y.done dir) :
    (∃ x, s.procs[k]? = some x ∧ action ∈ x.done dir) ∨
      (act = .worker k ∧ s.nextAction dir k = some action) := by
  have hstay {after : List Proc} (hy : after[k]? = some y)
      (hrel : Related (fun x y => y.done dir = x.done dir) s.procs after) :
      ∃ x, s.procs[k]? = some x ∧ action ∈ x.done dir := by
    obtain ⟨x, hx, hdone⟩ := hrel.backward k y hy
    exact ⟨x, hx, hdone ▸ hmem⟩
  have hadvance {j : Nat} {x z : Proc} {next : WorkerAction} (hnext : x.AboutTo dir s j next)
      (hz : (s.advance j).procs[k]? = some z) (hmem : action ∈ z.done dir) :
      (∃ x, s.procs[k]? = some x ∧ action ∈ x.done dir) ∨
        (Act.worker j = .worker k ∧ s.nextAction dir k = some action) := by
    obtain ⟨w, hw, rfl⟩ := getElem?_modify_eq_some hz
    by_cases hjk : j = k
    · subst hjk
      obtain rfl : x = w := Option.some.inj (hnext.found.symm.trans hw)
      rw [if_pos rfl, Proc.done_advance hnext.next] at hmem
      rcases List.mem_append.mp hmem with hmem | hmem
      · exact Or.inl ⟨x, hw, hmem⟩
      · rw [List.mem_singleton.mp hmem]
        exact Or.inr ⟨rfl, hnext.nextAction_eq⟩
    · rw [if_neg hjk] at hmem
      exact Or.inl ⟨w, hw, hmem⟩
  cases h with
  | bind j x pid hnext => exact hadvance hnext hy hmem
  | kill j x pid hnext =>
      have hy : ((s.advance j).procs.map (Proc.killed pid))[k]? = some y := hy
      rw [List.getElem?_map] at hy
      obtain ⟨z, hz, rfl⟩ := Option.map_eq_some_iff.mp hy
      exact hadvance hnext hz (z.done_killed pid ▸ hmem)
  | unlink j x next pid haction hnext => exact hadvance hnext hy hmem
  | read j x received hnext => exact hadvance hnext hy hmem
  | accept j x hnext => exact hadvance hnext hy hmem
  | exit j x code hnext =>
      obtain ⟨z, hz, rfl⟩ := getElem?_modify_eq_some hy
      refine hadvance hnext hz ?_
      split at hmem <;> exact hmem
  | other j x next _ _ _ hnext => exact hadvance hnext hy hmem
  | dies j x => exact Or.inl (hstay hy (.modify (fun _ => rfl) fun _ _ => rfl))
  | reap j x => exact Or.inl (hstay hy (.modify (fun _ => rfl) fun _ _ => rfl))

theorem Move.done_origin {act : Act} (h : Move dir s act t) {k : Nat} {y : Proc}
    {action : WorkerAction} (hy : t.procs[k]? = some y) (hmem : action ∈ y.done dir) :
    (∃ x, s.procs[k]? = some x ∧ action ∈ x.done dir) ∨
      (act = .worker k ∧ s.nextAction dir k = some action) := by
  cases h with
  | accept cd command t hmove => exact Or.inl (by cases hmove <;> exact ⟨y, hy, hmem⟩)
  | main t hmove => exact Or.inl (by cases hmove <;> exact ⟨y, hy, hmem⟩)
  | cmd outcome t hmove => exact Or.inl (hmove.done_origin hy hmem)
  | worker act t hmove => exact hmove.done_origin hy hmem

theorem Move.length_le {act : Act} (h : Move dir s act t) :
    s.procs.length ≤ t.procs.length := by
  cases h with
  | accept cd command t hmove => cases hmove <;> exact Nat.le_refl _
  | main t hmove => cases hmove <;> exact Nat.le_refl _
  | cmd outcome t hmove =>
      cases hmove with
      | queue hmove => cases hmove <;> exact Nat.le_refl _
      | checkpoint hmove =>
          cases hmove <;> simp [Sys.kill, Sys.cleanupPid, Sys.unlinkSock, Sys.logAbort]
      | restore hmove => cases hmove <;> simp [Sys.kill, Sys.cleanupPid, Sys.unlinkSock]
  | worker act t hmove =>
      cases hmove <;> simp [Sys.advance, Sys.setProc, Sys.kill, Sys.unlinkSock]

/-- Everything that holds of the service under the conditions of `dumpsSafely`. -/
structure Orderly (dir : Bool) (s : Sys) : Prop where
  restorable : RestorableInvariant dir s
  aimed : Aimed dir s
  decided : Decided dir s
  told : ToldInvariant dir s

theorem Move.orderly {act : Act} (h : Move dir s act t) (hadmits : admitsSafely s act = true)
    (hnames : namesProcesses dir s act = true) (hs : Orderly dir s) : Orderly dir t where
  restorable := h.restorable hadmits hs.restorable
  aimed := h.aimed hnames hs.aimed
  decided := h.decided hs.restorable.workers hs.decided
  told := h.told hs.restorable hs.told

section Orderly

variable {k j : Nat} {x y : Proc}

theorem Proc.Owns.kept (h : x.Owns dir s k) (hserved : x.served = true) : x.Kept dir :=
  ⟨hserved, h.running, h.uncleaned⟩

theorem Orderly.pending_of_undecided (h : Orderly dir s) (hx : s.procs[k]? = some x)
    (hcmd : s.cmd.undecided = some k) : pending x.target s.main s.queue s.cmd ≠ 0 := by
  obtain ⟨c, worker, hcurrent, hpending⟩ := CmdPc.current_of_undecided hcmd
  obtain ⟨z, hz, -, htarget, -⟩ := h.restorable.workers.current c worker k hcurrent
  obtain rfl : x = z := Option.some.inj (hx.symm.trans hz)
  rw [htarget, pending, hpending]
  omega

theorem Orderly.owner_of_unreported (h : Orderly dir s) (hy : s.procs[j]? = some y)
    (hrunning : y.exited = false) (hunreported : ¬ Reported (y.done dir))
    (hx : s.procs[k]? = some x) (howns : x.Owns dir s k) (htarget : x.target = y.target) :
    j = k := by
  have hawaited : s.cmd.awaited = some j := by
    rcases h.restorable.workers.reported j y hy with hexited | hreported | hawaited
    · rw [hrunning] at hexited
      cases hexited
    · exact absurd hreported hunreported
    · exact hawaited
  have hundecided := CmdPc.undecided_of_awaited hawaited
  rcases howns.wanted with hserved | hcmd
  · have hpending := h.pending_of_undecided hy hundecided
    rw [← htarget] at hpending
    exact absurd (h.told.recorded k x hx (howns.kept hserved))
      (h.restorable.settled.not_recorded hx hpending)
  · exact Option.some.inj (hundecided.symm.trans hcmd)

theorem Orderly.restoresBy_of_read (h : Orderly dir s) (hy : s.procs[j]? = some y)
    (hrunning : y.exited = false) (huncleaned : ∀ pid, .cleanupPid pid ∉ y.done dir)
    (hok : .respondCheckpoint .ok true ∈ y.done dir) {received : List Byte}
    (hread : .readCommand received ∈ y.done dir)
    (hreceived : received = y.env.received.take serviceCommandSize) :
    y.Kept dir ∧ s.cmd.RestoresBy j y ∧ (postCheckpointCmd y.env).pid = y.target := by
  obtain ⟨command, -, hbytes, hinbox⟩ := h.aimed.reads j y hy received hread
  have hserved : y.served = true := by
    rcases h.decided j y hy with hexited | hserved | hfailed | hundecided
    · rw [hrunning] at hexited
      cases hexited
    · exact hserved
    · exact absurd hfailed (Proc.not_failed hok)
    · exact absurd hundecided (h.told.untold j y hy (by simp [hinbox]))
  have hkept : y.Kept dir := ⟨hserved, hrunning, huncleaned⟩
  have hrestores := h.told.telling j y hy hkept (by simp [hinbox])
  refine ⟨hkept, hrestores, ?_⟩
  have hbuffer : postCheckpointCmd y.env = command := by
    rw [postCheckpointCmd, ← hreceived, hbytes]
    exact ServiceCommand.ofBytes_bytes_append command _
  cases hcmd : s.cmd with
  | restoring c worker stage =>
      rw [hcmd] at hrestores
      obtain ⟨htarget, -, ⟨n, hsent⟩, -⟩ := hrestores
      have hwhole : command.bytes = c.svcCmd.bytes.take n :=
        Option.some.inj (hinbox.symm.trans hsent)
      have hall : command.bytes = c.svcCmd.bytes := by
        rw [hwhole]
        refine (List.take_prefix n _).eq_of_length_le ?_
        rw [← hwhole, command.bytes_length, c.svcCmd.bytes_length]
      have hsame : command = c.svcCmd := by
        have hfirst := ServiceCommand.ofBytes_bytes_append command []
        rw [hall, ServiceCommand.ofBytes_bytes_append] at hfirst
        exact hfirst.symm
      rw [hbuffer, hsame]
      exact htarget
  | _ =>
      rw [hcmd] at hrestores
      exact hrestores.elim

theorem Orderly.owner_of_restoresBy (h : Orderly dir s) (hy : s.procs[j]? = some y)
    (hkept : y.Kept dir) (hrestores : s.cmd.RestoresBy j y) (hx : s.procs[k]? = some x)
    (howns : x.Owns dir s k) (htarget : x.target = y.target) : j = k := by
  have hworkers := h.restorable.workers
  have hreaped {i : Nat} {z : Proc} : s.procs[i]? = some z → z.exited = false → z.reaped = false :=
    fun hz hrunning => eq_false_of_imp (hworkers.sound _ _ hz).exited_of_reaped hrunning
  have hunique : x.pid = y.pid → j = k := fun hpid =>
    hworkers.unique j k y x hy hx (hreaped hy hkept.running) (hreaped hx howns.running) hpid.symm
  cases hcmd : s.cmd with
  | restoring c worker stage =>
      rw [hcmd] at hrestores
      obtain ⟨hpid, rfl, -, hawaits⟩ := hrestores
      have hserved : x.served = true := by
        refine howns.wanted.resolve_right ?_
        simp [hcmd, CmdPc.undecided]
      cases htold : x.inbox.isSome with
      | true =>
          have hother := h.told.telling k x hx (howns.kept hserved) htold
          rw [hcmd] at hother
          exact hunique hother.2.1.symm
      | false =>
          have hallows := hworkers.tells
          rw [hcmd] at hallows
          have hallows := hallows k x hx ((howns.kept hserved).held htold) (htarget.trans hpid.symm)
          cases stage with
          | read rd =>
              obtain rfl : rd = some j := hawaits
              cases hallows.2
          | killTarget | killWorker => exact hunique hallows
          | _ => exact hawaits.elim
  | _ =>
      rw [hcmd] at hrestores
      exact hrestores.elim

theorem mem_pidsOfWorker {worker pid : Int} {table : Table} :
    pid ∈ pidsOfWorker worker table ↔ ∃ slot ∈ table, slot.worker = worker ∧ slot.pid = pid := by
  simp [pidsOfWorker, and_assoc]

theorem Orderly.not_mem_reaped (h : Orderly dir s) (hy : s.procs[j]? = some y)
    (hexited : y.exited = true) (hreaped : y.reaped = false) (hx : s.procs[k]? = some x)
    (howns : x.Owns dir s k) : x.target ∉ pidsOfWorker y.pid s.table := by
  rw [mem_pidsOfWorker]
  rintro ⟨slot, hmem, hworker, hpid⟩
  have hslot : slot ∈ entries s.table x.target := mem_entries.mpr ⟨hmem, hpid⟩
  rcases howns.wanted with hserved | hcmd
  · obtain ⟨other, hentries, -, hother⟩ := h.told.recorded k x hx (howns.kept hserved)
    obtain rfl : slot = other := by simpa [hentries] using hslot
    exact h.restorable.workers.pid_ne_of_running hy hexited hreaped hx howns.running
      (hother.symm.trans hworker)
  · have hpos := h.restorable.settled.target_pos hx
    rcases h.restorable.settled.own x.target hpos with hzero | ⟨-, -, other, hentries, hother, -⟩
    · exact h.pending_of_undecided hx hcmd hzero
    · obtain rfl : slot = other := by simpa [hentries] using hslot
      have hsound := (h.restorable.workers.sound j y hy).pid_pos
      omega

theorem Orderly.not_mem_cleanups {act : Act} (h : Orderly dir s) (hmove : Move dir s act t)
    (hx : s.procs[k]? = some x) (howns : x.Owns dir s k)
    (hafter : ∀ y, t.procs[k]? = some y → y.Owns dir t k) :
    x.target ∉ s.cleanups dir act := by
  cases hmove with
  | accept cd command t hmove => exact List.not_mem_nil
  | main t hmove => exact List.not_mem_nil
  | cmd outcome t hmove =>
      simp only [Sys.cleanups]
      split
      · rename_i c sd worker i hcmd
        rw [List.mem_singleton]
        intro htarget
        have hserved := howns.wanted.resolve_right (by simp [hcmd, CmdPc.undecided])
        refine h.restorable.settled.not_recorded hx ?_
          (h.told.recorded k x hx (howns.kept hserved))
        simp [hcmd, pending, CmdPc.pending, htarget]
      · rename_i c worker hcmd
        rw [List.mem_singleton]
        intro htarget
        have hkept := howns.kept (howns.wanted.resolve_right (by simp [hcmd, CmdPc.undecided]))
        cases htold : x.inbox.isSome with
        | true =>
            have hrestores := h.told.telling k x hx hkept htold
            rw [hcmd] at hrestores
            exact hrestores.2.2.2
        | false =>
            have htells := h.restorable.workers.tells
            rw [hcmd] at htells
            exact htells k x hx (hkept.held htold) htarget
      · exact List.not_mem_nil
  | worker act t hmove =>
      cases act with
      | worker j =>
          obtain ⟨y, action, hnext⟩ := hmove.aboutTo
          simp only [Sys.cleanups, hnext.nextAction_eq]
          split
          · rename_i pid heq
            obtain rfl : action = .cleanupPid pid := Option.some.inj heq
            rw [List.mem_singleton]
            intro htarget
            have hjk : j = k := by
              obtain ⟨hearlier, ⟨hpid, hunreported⟩ | ⟨hpid, hok, hread⟩⟩ :=
                Proc.dumpLaw hnext.next
              · exact h.owner_of_unreported hnext.found hnext.running hunreported hx howns
                  (htarget.trans hpid)
              · obtain ⟨hkept, hrestores, hown⟩ := h.restoresBy_of_read hnext.found
                  hnext.running hearlier hok hread rfl
                exact h.owner_of_restoresBy hnext.found hkept hrestores hx howns
                  (htarget.trans (hpid.trans hown))
            subst hjk
            obtain ⟨z, hz, hmem⟩ := hmove.mem_done hnext
            exact (hafter z hz).uncleaned pid hmem
          · exact List.not_mem_nil
      | reap j =>
          cases hmove with
          | reap j y hy hexited hreaped =>
              simp only [Sys.cleanups, hy]
              exact h.not_mem_reaped hy hexited hreaped hx howns
      | workerDies j => exact List.not_mem_nil
      | _ => cases hmove

end Orderly

/-- The dump of a checkpointed process is still the one that its worker has opened. -/
structure DumpsKept (dir : Bool) (s : Images) : Prop where
  orderly : Orderly dir s.sys
  opened : ∀ k ∈ s.opened, k < s.sys.procs.length
  complete : Indexed (fun k x => ∀ sent, .respondCheckpoint .ok sent ∈ x.done dir →
    k ∈ s.opened) s.sys.procs
  image : Indexed (fun k x => k ∈ s.opened → x.Owns dir s.sys k → s.image x.target = some k)
    s.sys.procs

variable {i : Images}

theorem DumpsKept.complete_step {act : Act} (h : DumpsKept dir i)
    (hallows : i.allows dir act = true) (hmove : Move dir i.sys act t) :
    Indexed (fun k x => ∀ sent, .respondCheckpoint .ok sent ∈ x.done dir → k ∈ i.opened)
      t.procs := by
  intro k y hy sent hmem
  rcases hmove.done_origin hy hmem with ⟨x, hx, hold⟩ | ⟨rfl, hnext⟩
  · exact h.complete k x hx sent hold
  · simpa [Images.allows, hnext] using hallows

theorem DumpsKept.serve {act : Act} (h : DumpsKept dir i) (hallows : i.allows dir act = true)
    (hadmits : admitsSafely i.sys act = true) (hnames : namesProcesses dir i.sys act = true)
    (hmove : Move dir i.sys act t) :
    DumpsKept dir { i with
      sys := t
      image := fun pid => if pid ∈ i.sys.cleanups dir act then none else i.image pid } where
  orderly := hmove.orderly hadmits hnames h.orderly
  opened := fun k hk => Nat.lt_of_lt_of_le (h.opened k hk) hmove.length_le
  complete := h.complete_step hallows hmove
  image := fun k y hy hopened howns => by
    obtain ⟨x, hx, htarget, hbefore⟩ := hmove.inherits k y (h.opened k hopened) hy howns
    have hmem := h.orderly.not_mem_cleanups hmove hx hbefore fun z hz => by
      obtain rfl : y = z := Option.some.inj (hy.symm.trans hz)
      exact howns
    rw [htarget] at hmem
    simp only [if_neg hmem]
    exact htarget ▸ h.image k x hx hopened hbefore

theorem DumpsKept.openDump {j : Nat} {y : Proc} (h : DumpsKept dir i)
    (hy : i.sys.procs[j]? = some y) (hrunning : y.exited = false)
    (hdone : y.done dir = [.bind y.target]) :
    DumpsKept dir { i with
      image := fun pid => if pid = y.target then some j else i.image pid
      opened := j :: i.opened } where
  orderly := h.orderly
  opened := List.forall_mem_cons.mpr ⟨(List.getElem?_eq_some_iff.mp hy).1, h.opened⟩
  complete := h.complete.mono fun k x _ hold sent hmem => List.mem_cons_of_mem _ (hold sent hmem)
  image := fun k x hx hopened howns => by
    by_cases htarget : x.target = y.target
    · have hunreported : ¬ Reported (y.done dir) := by simp [hdone, Reported]
      rw [h.orderly.owner_of_unreported hy hrunning hunreported hx howns htarget]
      exact if_pos htarget
    · simp only [if_neg htarget]
      refine h.image k x hx ((List.mem_cons.mp hopened).resolve_left ?_) howns
      rintro rfl
      obtain rfl : x = y := Option.some.inj (hx.symm.trans hy)
      exact htarget rfl

theorem DumpsKept.step {act : ImageAct} {after : Images} (h : DumpsKept dir i)
    (hguard : dumpsSafely dir i act = true) (hstep : imageStep dir i act = some after) :
    DumpsKept dir after := by
  cases act with
  | serve act =>
      simp only [imageStep] at hstep
      split at hstep
      · rename_i hallows
        obtain ⟨t, ht, rfl⟩ := Option.map_eq_some_iff.mp hstep
        rw [dumpsSafely, Bool.and_eq_true] at hguard
        exact h.serve hallows hguard.1 hguard.2 (step_move ht)
      · cases hstep
  | openDump k =>
      simp only [imageStep] at hstep
      split at hstep
      · rename_i y hy
        split at hstep
        · rename_i hcan
          cases hstep
          simp only [Proc.checkpoints, Bool.and_eq_true, Bool.not_eq_true', beq_iff_eq] at hcan
          exact h.openDump hy hcan.1.1.1.1 hcan.1.1.1.2
        · cases hstep
      · cases hstep

theorem dumpsKept_boot : DumpsKept dir Images.boot where
  orderly :=
    { restorable := restorableInvariant_boot
      aimed := aimed_boot (by decide)
      decided := indexed_nil
      told := toldInvariant_boot Table.zero }
  opened := by simp [Images.boot]
  complete := indexed_nil
  image := indexed_nil

/-- Pid 5 is checkpointed, and its worker has read the command to restore it. -/
def toldToRestore : List ImageAct :=
  [Act.accept 4 (some checkpointFive), .main, .main, .main, .cmd .done, .cmd (.opens 7),
      .cmd (.forks 1000 willing), .cmd .done, .worker 0].map .serve ++
    .openDump 0 ::
    [Act.worker 0, .cmd (.gets .ok), .cmd .done, .cmd .done, .cmd .done, .cmd .done,
      .accept 6 (some restoreFive), .main, .main, .main, .cmd .done, .cmd .done, .cmd .done,
      .cmd (.writes 8), .worker 0, .worker 0].map .serve

end Memcr.ServiceSystem
