import Memcr.KillTargets
import Memcr.ServiceShutdown

namespace Memcr.ServiceSystem

open Memcr.ByteWords
open Memcr.GuardedRuns
open Memcr.IndexedLists
open Memcr.ServiceTable
open Memcr.WorkerProcess

section Law

/-- What has happened before a worker uses or removes a dump. -/
def DumpLaw (env : WorkerEnv) (pid : Int) (past : List WorkerAction) : WorkerAction → Prop
  | .respondCheckpoint _ _ => ¬ Reported past
  | .restore restored _ =>
      restored = (postCheckpointCmd env).pid ∧ .respondCheckpoint .ok true ∈ past ∧
        .readCommand (env.received.take serviceCommandSize) ∈ past ∧
        ∀ cleaned, .cleanupPid cleaned ∉ past
  | .cleanupPid cleaned =>
      (∀ earlier, .cleanupPid earlier ∉ past) ∧
        ((cleaned = pid ∧ ¬ Reported past) ∨
          (cleaned = (postCheckpointCmd env).pid ∧ .respondCheckpoint .ok true ∈ past ∧
            .readCommand (env.received.take serviceCommandSize) ∈ past))
  | .respondRestore _ _ => ∃ cleaned, .cleanupPid cleaned ∈ past
  | _ => True

theorem restorePhase_dumpLaw (dir : Bool) (env : WorkerEnv) (pid : Int)
    {past : List WorkerAction} (hok : .respondCheckpoint .ok true ∈ past)
    (hnone : ∀ cleaned, .cleanupPid cleaned ∉ past) :
    EachStep (DumpLaw env pid) past (restorePhase dir env pid) := by
  obtain ⟨ret, middle, hrestore, ⟨rfl, rfl⟩ | ⟨hret, rfl | rfl⟩⟩ := restoreWorker_cases env <;>
    rcases dir with _ | _ <;>
      simp [restorePhase, hrestore, eachStep_cons, eachStep_nil, DumpLaw, hok, hnone]

theorem applicationWorker_dumpLaw (dir : Bool) (env : WorkerEnv) (pid : Int) :
    EachStep (DumpLaw env pid) [] (applicationWorker dir env pid) := by
  rcases applicationWorker_cases dir env pid with
    hgivesUp | ⟨-, -, -, dropped, hdropped, hcases⟩
  · generalize applicationWorker dir env pid = actions at hgivesUp
    cases hgivesUp with
    | setup bound sent code hsetup hbound =>
        rcases hbound with rfl | rfl <;>
          simp [eachStep_cons, eachStep_nil, DumpLaw, Reported]
    | checkpoint dropped sent code hsetup hfails hdropped =>
        rcases hdropped with rfl | rfl <;>
          simp [eachStep_cons, eachStep_nil, DumpLaw, Reported]
  · have hdropped : dropped = [] ∨ dropped = [.dropPages pid] := by
      rw [hdropped]
      split <;> simp
    rcases hcases with ⟨-, hworker⟩ | ⟨-, -, hworker⟩ | ⟨-, -, hworker⟩ <;>
      rw [hworker] <;> rcases hdropped with rfl | rfl <;>
        simp [eachStep_cons, eachStep_nil, DumpLaw, Reported, restorePhase_dumpLaw]

variable {dir : Bool} {x : Proc}

theorem Proc.dumpLaw {action : WorkerAction} (hnext : (x.actions dir)[x.pc]? = some action) :
    DumpLaw x.env x.target (x.done dir) action :=
  (applicationWorker_dumpLaw dir x.env x.target).next hnext

theorem Proc.dumpLaw_induction (dir : Bool) (x : Proc) (property : List WorkerAction → Prop)
    (hnil : property [])
    (hstep : ∀ past action, DumpLaw x.env x.target past action → property past →
      property (past ++ [action])) : property (x.done dir) :=
  (applicationWorker_dumpLaw dir x.env x.target).take_induction property hnil hstep x.pc

theorem Proc.not_failed (hok : .respondCheckpoint .ok true ∈ x.done dir) :
    ¬ Failed (x.done dir) := by
  suffices h : ∀ code sent other answered, .respondCheckpoint code sent ∈ x.done dir →
      .respondCheckpoint other answered ∈ x.done dir → code = other by
    rintro ⟨code, hcode, hmem⟩
    exact hcode (h code true .ok true hmem hok)
  refine Proc.dumpLaw_induction dir x
    (fun past => ∀ code sent other answered, .respondCheckpoint code sent ∈ past →
      .respondCheckpoint other answered ∈ past → code = other) (by simp) ?_
  intro past action hlaw ih code sent other answered hcode hother
  rcases List.mem_append.mp hcode with hfirst | hfirst <;>
    rcases List.mem_append.mp hother with hsecond | hsecond
  · exact ih code sent other answered hfirst hsecond
  · obtain rfl := List.mem_singleton.mp hsecond
    exact absurd ⟨code, sent, hfirst⟩ hlaw
  · obtain rfl := List.mem_singleton.mp hfirst
    exact absurd ⟨other, answered, hsecond⟩ hlaw
  · obtain rfl := List.mem_singleton.mp hfirst
    cases List.mem_singleton.mp hsecond
    rfl

theorem Proc.cleaned_of_respondRestore {code : Response} {sent : Bool}
    (h : .respondRestore code sent ∈ x.done dir) : ∃ cleaned, .cleanupPid cleaned ∈ x.done dir := by
  refine Proc.dumpLaw_induction dir x
    (fun past => .respondRestore code sent ∈ past → ∃ cleaned, .cleanupPid cleaned ∈ past)
    (by simp) ?_ h
  intro past action hlaw ih hmem
  rcases List.mem_append.mp hmem with hmem | hmem
  · obtain ⟨cleaned, hcleaned⟩ := ih hmem
    exact ⟨cleaned, List.mem_append_left _ hcleaned⟩
  · obtain rfl := List.mem_singleton.mp hmem
    obtain ⟨cleaned, hcleaned⟩ := hlaw
    exact ⟨cleaned, List.mem_append_left _ hcleaned⟩

end Law

section Definitions

variable (dir : Bool)

/-- The checkpoint is recorded, and nobody has removed what belongs to it. -/
structure Proc.Kept (x : Proc) : Prop where
  served : x.served = true
  running : x.exited = false
  uncleaned : ∀ pid, .cleanupPid pid ∉ x.done dir

/-- What no call of the service changes about a worker but telling it to restore
and recording it. -/
structure Proc.Acts (x y : Proc) : Prop where
  pid : y.pid = x.pid
  target : y.target = x.target
  served : y.served = x.served
  inbox : y.inbox = x.inbox
  exited : x.exited = true → y.exited = true
  done : ∀ action ∈ x.done dir, action ∈ y.done dir

end Definitions

/-- The command thread has told worker `k` and not yet done without it. -/
def RestoreStage.Awaits (k : Nat) : RestoreStage → Prop
  | .read rd => rd = some k
  | .killTarget | .killWorker => True
  | _ => False

/-- The command thread is carrying out the RESTORE that worker `k` was told of. -/
def CmdPc.RestoresBy (k : Nat) (x : Proc) : CmdPc → Prop
  | .restoring c worker stage =>
      c.pid = x.target ∧ worker = x.pid ∧ (∃ n, x.inbox = some (c.svcCmd.bytes.take n)) ∧
        stage.Awaits k
  | _ => False

/-- The process that a connection of the command thread leads to. -/
def CmdPc.Connected (procs : List Proc) : CmdPc → Prop
  | .restoring c _ (.write (some k)) => ∃ x, procs[k]? = some x ∧ x.target = c.pid
  | _ => True

/-- A worker from the end of its checkpoint to the `cleanup_pid` of its restore: the
table records it, and once it is told to restore, the command thread is waiting for it
or about to kill it. -/
structure Told (dir : Bool) (table : Table) (cmd : CmdPc) (procs : List Proc)
    (sock : Int → Option Nat) : Prop where
  bound : ∀ pid k, sock pid = some k → ∃ x, procs[k]? = some x ∧ x.target = pid
  connected : cmd.Connected procs
  untold : Indexed (fun k x => x.inbox.isSome = true → cmd.undecided ≠ some k) procs
  answered : Indexed (fun k x => x.served = true ∨ cmd.succeeded = some k →
    .respondCheckpoint .ok true ∈ x.done dir) procs
  recorded : Indexed (fun _ x => x.Kept dir → Recorded table x) procs
  telling : Indexed (fun k x => x.Kept dir → x.inbox.isSome = true → cmd.RestoresBy k x) procs

def ToldInvariant (dir : Bool) (s : Sys) : Prop := Told dir s.table s.cmd s.procs s.sock

section Acts

variable {dir : Bool} {x y z : Proc}

theorem Proc.Acts.refl (x : Proc) : x.Acts dir x :=
  ⟨rfl, rfl, rfl, rfl, id, fun _ h => h⟩

theorem Proc.Acts.trans (h : x.Acts dir y) (h' : y.Acts dir z) : x.Acts dir z where
  pid := h'.pid.trans h.pid
  target := h'.target.trans h.target
  served := h'.served.trans h.served
  inbox := h'.inbox.trans h.inbox
  exited := h'.exited ∘ h.exited
  done := fun action hmem => h'.done action (h.done action hmem)

theorem Proc.acts_exit (x : Proc) : x.Acts dir { x with exited := true } :=
  { Proc.Acts.refl x with exited := fun _ => rfl }

theorem Proc.acts_killed (pid : Int) (x : Proc) : x.Acts dir (x.killed pid) :=
  Proc.killed_induction pid x.acts_exit (.refl x)

theorem Proc.acts_advance {action : WorkerAction}
    (hnext : (x.actions dir)[x.pc]? = some action) : x.Acts dir { x with pc := x.pc + 1 } :=
  { (Proc.Acts.refl x : x.Acts dir x) with
    done := fun other h => by
      rw [Proc.done_advance hnext]
      exact List.mem_append_left _ h }

theorem Proc.Acts.kept (h : x.Acts dir y) (hkept : y.Kept dir) : x.Kept dir where
  served := h.served.symm.trans hkept.served
  running := eq_false_of_imp h.exited hkept.running
  uncleaned := fun pid hmem => hkept.uncleaned pid (h.done _ hmem)

theorem Proc.Acts.recorded (h : x.Acts dir y) {table : Table} (hrecorded : Recorded table x) :
    Recorded table y := by
  rw [Recorded, h.target, h.pid]
  exact hrecorded

theorem Proc.Acts.restoresBy (h : x.Acts dir y) {cmd : CmdPc} {k : Nat}
    (hcmd : cmd.RestoresBy k x) : cmd.RestoresBy k y := by
  cases cmd with
  | restoring c worker stage =>
      simp only [CmdPc.RestoresBy, h.target, h.pid, h.inbox]
      exact hcmd
  | _ => exact hcmd.elim

theorem CmdPc.Connected.acts {cmd : CmdPc} {procs after : List Proc} (h : cmd.Connected procs)
    (hrel : Related (Proc.Acts dir) procs after) : cmd.Connected after := by
  unfold CmdPc.Connected at h ⊢
  split
  · obtain ⟨x, hx, htarget⟩ := h
    obtain ⟨y, hy, hxy⟩ := hrel.forward _ x hx
    exact ⟨y, hy, hxy.target.trans htarget⟩
  · trivial

variable {s t : Sys}

theorem WorkerMove.acts {act : Act} (h : WorkerMove dir s act t) :
    Related (Proc.Acts dir) s.procs t.procs := by
  have hadvance {k : Nat} {x : Proc} {action : WorkerAction} (hnext : x.AboutTo dir s k action) :
      ∀ y, s.procs[k]? = some y → y.Acts dir { y with pc := y.pc + 1 } := by
    intro y hy
    obtain rfl : x = y := Option.some.inj (hnext.found.symm.trans hy)
    exact Proc.acts_advance hnext.next
  cases h with
  | bind k x pid hnext => exact .modify .refl (hadvance hnext)
  | kill k x pid hnext =>
      exact (Related.modify .refl (hadvance hnext)).trans (.map fun y => y.acts_killed pid)
        fun _ _ _ => .trans
  | unlink k x action pid haction hnext => exact .modify .refl (hadvance hnext)
  | read k x received hnext => exact .modify .refl (hadvance hnext)
  | accept k x hnext => exact .modify .refl (hadvance hnext)
  | exit k x code hnext =>
      exact (Related.modify .refl (hadvance hnext)).trans (.modify .refl fun y _ => y.acts_exit)
        fun _ _ _ => .trans
  | other k x action _ _ _ hnext => exact .modify .refl (hadvance hnext)
  | dies k x => exact .modify .refl fun y _ => y.acts_exit
  | reap k x => exact .modify .refl fun y _ => { Proc.Acts.refl y with }

end Acts

section Told

variable {dir : Bool} {table : Table} {cmd next : CmdPc} {procs after : List Proc}
  {sock : Int → Option Nat}

theorem Told.acts (h : Told dir table cmd procs sock)
    (hrel : Related (Proc.Acts dir) procs after) {names : Int → Option Nat}
    (hnames : ∀ pid k, names pid = some k → sock pid = some k) :
    Told dir table cmd after names where
  bound := fun pid k hk => by
    obtain ⟨x, hx, htarget⟩ := h.bound pid k (hnames pid k hk)
    obtain ⟨y, hy, hxy⟩ := hrel.forward k x hx
    exact ⟨y, hy, hxy.target.trans htarget⟩
  connected := h.connected.acts hrel
  untold := h.untold.related hrel fun k x y hxy hold htold => hold (hxy.inbox ▸ htold)
  answered := h.answered.related hrel fun k x y hxy hold hwho =>
    hxy.done _ (hold (hwho.imp_left fun hserved => hxy.served ▸ hserved))
  recorded := h.recorded.related hrel fun _ _ _ hxy hold hkept =>
    hxy.recorded (hold (hxy.kept hkept))
  telling := h.telling.related hrel fun _ _ _ hxy hold hkept htold =>
    hxy.restoresBy (hold (hxy.kept hkept) (hxy.inbox ▸ htold))

theorem Told.move (h : Told dir table cmd procs sock) (next : CmdPc)
    (hconnected : next.Connected procs)
    (hundecided : ∀ k, next.undecided = some k → cmd.undecided = some k)
    (hsucceeded : ∀ k x, procs[k]? = some x → next.succeeded = some k →
      .respondCheckpoint .ok true ∈ x.done dir)
    (htelling : ∀ k x, procs[k]? = some x → x.Kept dir → cmd.RestoresBy k x →
      next.RestoresBy k x) : Told dir table next procs sock where
  bound := h.bound
  connected := hconnected
  untold := h.untold.mono fun k _ _ hold htold hcmd => hold htold (hundecided k hcmd)
  answered := h.answered.mono fun k x hx hold hwho =>
    hwho.elim (fun hserved => hold (Or.inl hserved)) (hsucceeded k x hx)
  recorded := h.recorded
  telling := h.telling.mono fun k x hx hold hkept htold =>
    htelling k x hx hkept (hold hkept htold)

theorem Told.rest (h : Told dir table cmd procs sock) (next : CmdPc)
    (hnext : next.undecided = none ∧ next.succeeded = none ∧ next.Connected procs)
    (hcmd : ∀ k x, ¬ cmd.RestoresBy k x) : Told dir table next procs sock := by
  obtain ⟨hundecided, hsucceeded, hconnected⟩ := hnext
  refine h.move next hconnected ?_ ?_ fun k x _ _ hrestores => absurd hrestores (hcmd k x)
  · simp [hundecided]
  · simp [hsucceeded]

theorem Told.retable (h : Told dir table cmd procs sock) {table' : Table}
    (hrecorded : ∀ (k : Nat) x, procs[k]? = some x → Recorded table x → Recorded table' x) :
    Told dir table' cmd procs sock :=
  { h with recorded := h.recorded.mono fun k x hx hold hkept => hrecorded k x hx (hold hkept) }

end Told

variable {dir : Bool} {s t : Sys}

theorem Proc.Kept.held {x : Proc} (h : x.Kept dir) (hinbox : x.inbox.isSome = false) :
    x.held = true :=
  Proc.held_iff.mpr ⟨h.served, h.running, hinbox⟩

theorem Sys.sock_of_unlinkSock (s : Sys) (dir : Bool) (pids : List Int) (pid : Int) (k : Nat)
    (h : (s.unlinkSock dir pids).sock pid = some k) : s.sock pid = some k := by
  simp only [Sys.unlinkSock] at h
  split at h
  · cases h
  · exact h

theorem Recorded.clear {k : Nat} {x : Proc} (h : Recorded s.table x) (hsettled : Settled s)
    (hx : s.procs[k]? = some x) {pid : Int} (hpending : pending pid s.main s.queue s.cmd ≠ 0) :
    Recorded (clearPidCheckpointData pid s.table) x := by
  have hpos := hsettled.target_pos hx
  by_cases heq : pid = x.target
  · exact absurd h (hsettled.not_recorded hx (heq ▸ hpending))
  · exact h.of_entries (entries_clear_of_ne (by omega) heq)

theorem MainMove.recorded (h : MainMove s t) (hsettled : Settled s) {k : Nat} {x : Proc}
    (hx : s.procs[k]? = some x) (hrecorded : Recorded s.table x) : Recorded t.table x := by
  cases h with
  | initPid s c =>
      have hpos := hsettled.target_pos hx
      by_cases heq : c.pid = x.target
      · obtain ⟨slot, hentries, -⟩ := hrecorded
        have hslot : slot ∈ entries s.table x.target := by simp [hentries]
        obtain ⟨hmem, hpid⟩ := mem_entries.mp hslot
        exact absurd (hpid.trans heq.symm) (hsettled.admits (by omega) slot hmem)
      · exact hrecorded.of_entries (entries_init_of_ne (by omega) heq)
  | clearRefused s c => exact hrecorded.clear hsettled hx (by simp [pending, MainPc.pending])
  | tryAbort s c =>
      obtain ⟨slot, hentries, hstate, hworker⟩ := hrecorded
      rcases entries_tryToAbortCheckpoint s.table x.target c.pid with
        hsame | ⟨first, rest, hfirst, hnew⟩
      · exact ⟨slot, hsame.trans hentries, hstate, hworker⟩
      · obtain ⟨rfl, rfl⟩ : slot = first ∧ [] = rest := by simpa [hentries] using hfirst
        exact ⟨_, hnew, hstate, hworker⟩
  | _ => exact hrecorded

theorem MainMove.told (h : MainMove s t) (hsettled : Settled s) (hs : ToldInvariant dir s) :
    ToldInvariant dir t := by
  have hafter := hs.retable fun k x hx hrecorded => h.recorded hsettled hx hrecorded
  cases h <;> exact hafter

theorem QueueMove.told (h : QueueMove s t) (hs : ToldInvariant dir s) : ToldInvariant dir t := by
  cases h with
  | pop s c rest =>
      refine Told.rest hs (dispatch c) ?_ fun _ _ => id
      rcases dispatch_cases c with ⟨-, hdispatch⟩ | ⟨-, hdispatch | hdispatch⟩ <;>
        rw [hdispatch] <;> exact ⟨rfl, rfl, trivial⟩
  | closeSd s c sd => exact Told.rest hs (.ending c .closeCd) ⟨rfl, rfl, trivial⟩ fun _ _ => id
  | respondNoWorker s c =>
      exact Told.rest hs (.ending c .closeNoWorker) ⟨rfl, rfl, trivial⟩ fun _ _ => id
  | closeNoWorker s c => exact Told.rest hs (.ending c .closeCd) ⟨rfl, rfl, trivial⟩ fun _ _ => id
  | closeCd s c => exact Told.rest hs .waiting ⟨rfl, rfl, trivial⟩ fun _ _ => id

theorem ToldInvariant.fork {c : Ctx} {sd : Nat} {forked : Int} {env : WorkerEnv}
    (h : ToldInvariant dir { s with cmd := .starting c (.fork sd) }) :
    ToldInvariant dir { s with
      procs := s.procs ++ [⟨forked, c.pid, env, 0, false, false, false, false, none⟩]
      cmd := .starting c (.setCheckpointing sd forked s.procs.length) } where
  bound := fun pid k hk => by
    obtain ⟨x, hx, htarget⟩ := h.bound pid k hk
    have hlt : k < s.procs.length := (List.getElem?_eq_some_iff.mp hx).1
    exact ⟨x, by rw [List.getElem?_append_left hlt]; exact hx, htarget⟩
  connected := trivial
  untold := by
    refine Indexed.concat (h.untold.mono fun k x hx _ _ hcmd => ?_) (by simp)
    have hlt : k < s.procs.length := (List.getElem?_eq_some_iff.mp hx).1
    have hk : s.procs.length = k := Option.some.inj hcmd
    omega
  answered := by
    refine Indexed.concat (h.answered.mono fun k x hx hold hwho => hold (Or.inl ?_)) (by
      simp [CmdPc.succeeded])
    simpa [CmdPc.succeeded] using hwho
  recorded := h.recorded.concat fun hkept => by cases hkept.served
  telling := Indexed.concat (h.telling.mono fun k x _ hold hkept htold => (hold hkept htold).elim)
    fun hkept => by cases hkept.served

theorem ToldInvariant.setCheckpointed {c : Ctx} {sd : Nat} {worker : Int} {k : Nat}
    (hsettled : Settled { s with cmd := .checkpointing c sd worker k (.finish .ok) })
    (hinv : HeldInvariant dir { s with cmd := .checkpointing c sd worker k (.finish .ok) })
    (h : ToldInvariant dir { s with cmd := .checkpointing c sd worker k (.finish .ok) }) :
    ToldInvariant dir { s with
      table := setPidCheckpointed c.pid worker s.table
      procs := s.procs.modify k fun x => { x with served := true }
      cmd := .ending c (.closeSd sd) } := by
  have hafter := hinv.setCheckpointed hsettled
  have huntold : ∀ (j : Nat) y, (s.procs.modify k fun x => { x with served := true })[j]? = some y →
      y.Kept dir → y.inbox.isSome = false := by
    intro j y hy hkept
    obtain ⟨x, hx, rfl⟩ := getElem?_modify_eq_some hy
    by_contra htold
    rw [Bool.not_eq_false] at htold
    by_cases hkj : k = j
    · rw [if_pos hkj] at htold
      exact h.untold j x hx htold (congrArg some hkj)
    · rw [if_neg hkj] at htold hkept
      exact h.telling j x hx hkept htold
  refine {
    bound := fun pid j hj => ?_
    connected := trivial
    untold := fun _ _ _ _ hcmd => by cases hcmd
    answered := fun j y hy hwho => ?_
    recorded := fun j y hy hkept => hafter.held j y hy (hkept.held (huntold j y hy hkept))
    telling := fun j y hy hkept htold => ?_ }
  · obtain ⟨x, hx, htarget⟩ := h.bound pid j hj
    refine ⟨if k = j then { x with served := true } else x, ?_, ?_⟩
    · rw [List.getElem?_modify, hx]
      rfl
    · split <;> exact htarget
  · obtain ⟨x, hx, rfl⟩ := getElem?_modify_eq_some hy
    by_cases hkj : k = j
    · rw [if_pos hkj]
      exact h.answered j x hx (Or.inr (congrArg some hkj))
    · rw [if_neg hkj] at hwho ⊢
      exact h.answered j x hx (hwho.imp_right fun hcmd => by cases hcmd)
  · rw [huntold j y hy hkept] at htold
    cases htold

theorem CheckpointMove.told (h : CheckpointMove dir s t) (hsettled : Settled s)
    (hinv : HeldInvariant dir s) (hs : ToldInvariant dir s) : ToldInvariant dir t := by
  cases h with
  | openSockets s c sd =>
      exact Told.rest hs (.starting c (.fork sd)) ⟨rfl, rfl, trivial⟩ fun _ _ => id
  | noSockets s c => exact Told.rest hs (.stopped c) ⟨rfl, rfl, trivial⟩ fun _ _ => id
  | fork s c sd forked env hfresh => exact hs.fork
  | forkFails s c sd =>
      exact Told.rest hs (.starting c .clearNoFork) ⟨rfl, rfl, trivial⟩ fun _ _ => id
  | clearNoFork s c =>
      refine (Told.rest hs (.ending c .closeCd) ⟨rfl, rfl, trivial⟩ fun _ _ => id).retable ?_
      exact fun k x hx hrecorded =>
        hrecorded.clear hsettled hx (by simp [pending, CmdPc.pending])
  | setCheckpointing s c sd worker k =>
      refine (Told.move hs (.checkpointing c sd worker k .readResponse) trivial (fun _ hk => hk)
        (by simp [CmdPc.succeeded]) fun _ _ _ _ => False.elim).retable fun j x hx hrecorded => ?_
      by_cases heq : c.pid = x.target
      · refine absurd hrecorded (hsettled.not_recorded hx ?_)
        simp [pending, CmdPc.pending, heq]
      · exact hrecorded.of_entries (entries_setPidCheckpointing_of_ne sd heq)
  | response s c sd worker k code x hx hcode =>
      refine Told.move hs _ trivial ?_ ?_ fun _ _ _ _ => False.elim
      · cases code <;> simp [CmdPc.undecided]
      · intro j y hy hcmd
        cases code with
        | ok =>
            obtain rfl : k = j := Option.some.inj hcmd
            obtain rfl : x = y := Option.some.inj (hx.symm.trans hy)
            exact hcode
        | _ => cases hcmd
  | noResponse s c sd worker k =>
      exact Told.move hs (.checkpointing c sd worker k .killTarget) trivial (fun _ hk => hk)
        (by simp [CmdPc.succeeded]) fun _ _ _ _ => False.elim
  | killTarget s c sd worker k =>
      exact (Told.move hs (.checkpointing c sd worker k .killWorker) trivial (fun _ hk => hk)
        (by simp [CmdPc.succeeded]) fun _ _ _ _ => False.elim).acts
        (.map fun x => x.acts_killed c.pid) fun _ _ hk => hk
  | killWorker s c sd worker k =>
      exact (Told.rest hs (.checkpointing c sd worker k .cleanup) ⟨rfl, rfl, trivial⟩
        fun _ _ => id).acts (.map fun x => x.acts_killed worker) fun _ _ hk => hk
  | cleanup s c sd worker k =>
      exact (Told.rest hs (.checkpointing c sd worker k (.respond .errorGeneral))
        ⟨rfl, rfl, trivial⟩ fun _ _ => id).acts (.refl .refl) (s.sock_of_unlinkSock dir [c.pid])
  | respond s c sd worker k code =>
      refine Told.move hs _ trivial ?_ ?_ fun _ _ _ _ => False.elim
      · cases code <;> exact fun _ hk => hk
      · intro j y hy hcmd
        refine hs.answered j y hy (Or.inr ?_)
        cases code <;> exact hcmd
  | setCheckpointed => exact hs.setCheckpointed hsettled hinv
  | clearFailed s c sd worker k code =>
      refine (Told.rest hs (.ending c (.closeSd sd)) ⟨rfl, rfl, trivial⟩ fun _ _ => id).retable ?_
      exact fun k x hx hrecorded =>
        hrecorded.clear hsettled hx (by simp [pending, CmdPc.pending])

/-- The command thread tells the worker it is connected to, which is the one that
the table records. -/
theorem ToldInvariant.write {c : Ctx} {worker : Int} {k : Nat}
    (hinv : HeldInvariant dir { s with cmd := .restoring c worker (.write (some k)) })
    (h : ToldInvariant dir { s with cmd := .restoring c worker (.write (some k)) }) (n : Nat) :
    ToldInvariant dir { s with
      procs := s.procs.modify k (Proc.tell (c.svcCmd.bytes.take n))
      cmd := .restoring c worker
        (.read (if (s.procs[k]?).any fun x => x.inbox.isNone then some k else none)) } where
  bound := fun pid j hj => by
    obtain ⟨x, hx, htarget⟩ := h.bound pid j hj
    refine ⟨if k = j then x.tell (c.svcCmd.bytes.take n) else x, ?_, ?_⟩
    · rw [List.getElem?_modify, hx]
      rfl
    · split <;> exact htarget
  connected := trivial
  untold := fun _ _ _ _ hcmd => by cases hcmd
  answered := by
    refine Indexed.modify (h.answered.mono fun j x _ hold hwho => hold ?_) fun x _ hold => hold
    exact hwho.imp_right fun hcmd => by cases hcmd
  recorded := h.recorded.modify fun x _ hold hkept => hold ⟨hkept.1, hkept.2, hkept.3⟩
  telling := fun j y hy hkept htold => by
    obtain ⟨x, hx, rfl⟩ := getElem?_modify_eq_some hy
    by_cases hkj : k = j
    · subst hkj
      rw [if_pos rfl] at hkept ⊢
      have hkept : x.Kept dir := ⟨hkept.1, hkept.2, hkept.3⟩
      have hx : s.procs[k]? = some x := hx
      cases hinbox : x.inbox with
      | some bytes => exact (h.telling k x hx hkept (by simp [hinbox])).2.2.2.elim
      | none =>
          obtain ⟨z, hz, htarget⟩ := h.connected
          obtain rfl : x = z := Option.some.inj (hx.symm.trans hz)
          have hpid : x.pid = worker :=
            (hinv.tells k x hx (hkept.held (by simp [hinbox])) htarget).1
          refine ⟨htarget.symm, hpid.symm, ⟨n, ?_⟩, ?_⟩
          · simp [Proc.tell, hinbox]
          · simp [RestoreStage.Awaits, hx, hinbox]
    · rw [if_neg hkj] at hkept htold
      exact (h.telling j x hx hkept htold).2.2.2.elim

theorem RestoreMove.told (h : RestoreMove dir s t) (hsettled : Settled s)
    (hinv : HeldInvariant dir s) (hs : ToldInvariant dir s) : ToldInvariant dir t := by
  cases h with
  | noWorker s c =>
      exact Told.rest hs (.ending c .respondNoWorker) ⟨rfl, rfl, trivial⟩ fun _ _ => id
  | getWorker s c => exact Told.rest hs _ ⟨rfl, rfl, trivial⟩ fun _ _ => id
  | connect s c worker k hlistener =>
      have hconnected := hs.bound c.pid k (Sys.sock_of_listener hlistener)
      have hrel : Related (Proc.Acts dir) s.procs
          (s.procs.modify k fun x => { x with connected := true }) :=
        .modify .refl fun x _ => { Proc.Acts.refl x with }
      exact (Told.rest hs (.restoring c worker (.write (some k))) ⟨rfl, rfl, hconnected⟩
        fun _ _ h => h.2.2.2).acts hrel fun _ _ hk => hk
  | noConnection s c worker =>
      exact Told.rest hs (.restoring c worker (.write none)) ⟨rfl, rfl, trivial⟩
        fun _ _ h => h.2.2.2
  | write s c worker k n => exact ToldInvariant.write hinv hs n
  | noWrite s c worker =>
      exact Told.rest hs (.restoring c worker (.read none)) ⟨rfl, rfl, trivial⟩
        fun _ _ h => h.2.2.2
  | response s c worker k code x hx hcode =>
      refine Told.move hs _ trivial (by simp [CmdPc.undecided]) (by simp [CmdPc.succeeded]) ?_
      -- the worker has cleaned up before it answered
      rintro j y hy hkept ⟨-, -, -, hawaits⟩
      obtain rfl : k = j := Option.some.inj hawaits
      obtain rfl : x = y := Option.some.inj (hx.symm.trans hy)
      obtain ⟨cleaned, hcleaned⟩ := Proc.cleaned_of_respondRestore hcode
      exact absurd hcleaned (hkept.uncleaned cleaned)
  | noResponse s c worker rd =>
      refine Told.move hs (.restoring c worker .killTarget) trivial (by simp [CmdPc.undecided])
        (by simp [CmdPc.succeeded]) ?_
      rintro k x - - ⟨hpid, hworker, hinbox, -⟩
      exact ⟨hpid, hworker, hinbox, trivial⟩
  | killTarget s c worker =>
      refine (Told.move hs (.restoring c worker .killWorker) trivial (by simp [CmdPc.undecided])
        (by simp [CmdPc.succeeded]) ?_).acts (.map fun x => x.acts_killed c.pid) fun _ _ hk => hk
      exact fun k x _ _ hrestores => hrestores
  | killWorker s c worker =>
      refine (Told.acts hs (.map fun x => x.acts_killed worker) fun _ _ hk => hk).move
        (.restoring c worker .cleanup) trivial (by simp [CmdPc.undecided])
        (by simp [CmdPc.succeeded]) ?_
      rintro k y hy hkept ⟨-, hworker, -⟩
      have hexited := hinv.exited_of_kill hy hworker.symm
      rw [hkept.running] at hexited
      cases hexited
  | cleanup s c worker =>
      exact (Told.rest hs (.restoring c worker (.respond .errorGeneral)) ⟨rfl, rfl, trivial⟩
        fun _ _ h => h.2.2.2).acts (.refl .refl) (s.sock_of_unlinkSock dir [c.pid])
  | respond s c worker code =>
      exact Told.rest hs (.restoring c worker .clear) ⟨rfl, rfl, trivial⟩ fun _ _ h => h.2.2.2
  | clear s c worker =>
      have hafter := Told.rest hs (.ending c .closeCd) ⟨rfl, rfl, trivial⟩ fun _ _ h => h.2.2.2
      refine { hafter with recorded := hs.recorded.mono fun k x hx hold hkept => ?_ }
      have hpos := hsettled.target_pos hx
      by_cases heq : c.pid = x.target
      · cases htold : x.inbox.isSome with
        | true => exact (hs.telling k x hx hkept htold).2.2.2.elim
        | false => exact (hinv.tells k x hx (hkept.held htold) heq.symm).elim
      · exact (hold hkept).of_entries (entries_clear_of_ne (by omega) heq)

theorem HeldInvariant.pid_ne_of_running (hinv : HeldInvariant dir s) {j k : Nat} {x z : Proc}
    (hx : s.procs[k]? = some x) (hexited : x.exited = true) (hreaped : x.reaped = false)
    (hz : s.procs[j]? = some z) (hrunning : z.exited = false) : z.pid ≠ x.pid := by
  intro hpid
  have hzreaped := eq_false_of_imp (hinv.sound j z hz).exited_of_reaped hrunning
  obtain rfl := hinv.unique k j x z hx hz hreaped hzreaped hpid.symm
  obtain rfl : x = z := Option.some.inj (hx.symm.trans hz)
  rw [hexited] at hrunning
  cases hrunning

theorem Recorded.reap {table : Table} {x z : Proc} (h : Recorded table z) (hpos : 0 < z.target)
    (hne : z.pid ≠ x.pid) : Recorded (clearPidOnWorkerExit x.pid table) z := by
  obtain ⟨slot, hentries, hstate, hworker⟩ := h
  refine ⟨slot, ?_, hstate, hworker⟩
  rw [entries_clearPidOnWorkerExit (by omega)]
  simp [hentries, hworker, hne]

theorem WorkerMove.told {act : Act} (h : WorkerMove dir s act t) (hsettled : Settled s)
    (hinv : HeldInvariant dir s) (hs : ToldInvariant dir s) : ToldInvariant dir t := by
  have hrel := h.acts
  cases h with
  | bind k x pid hnext =>
      refine { Told.acts hs hrel fun _ _ hk => hk with bound := fun other j hj => ?_ }
      by_cases heq : other = pid
      · obtain ⟨rfl, -⟩ : pid = x.target ∧ _ := Proc.law hnext.next
        obtain rfl : k = j := by simpa [heq] using hj
        obtain ⟨y, hy, hxy⟩ := hrel.forward k x hnext.found
        exact ⟨y, hy, hxy.target.trans heq.symm⟩
      · simp only [if_neg heq] at hj
        exact (Told.acts hs hrel fun _ _ hk => hk).bound other j hj
  | unlink k x action pid haction hnext =>
      exact Told.acts hs hrel (s.sock_of_unlinkSock dir [pid])
  | reap k x hx hexited hreaped =>
      have hafter := Told.acts hs hrel (s.sock_of_unlinkSock dir (pidsOfWorker x.pid s.table))
      refine { hafter with recorded := fun j y hy hkept => ?_ }
      obtain ⟨z, hz, hzy⟩ := hrel.backward j y hy
      have hkept := hzy.kept hkept
      have hne := hinv.pid_ne_of_running hx hexited hreaped hz hkept.running
      exact hzy.recorded ((hs.recorded j z hz hkept).reap (hsettled.target_pos hz) hne)
  | _ => exact Told.acts hs hrel fun _ _ hk => hk

theorem Move.told {act : Act} (h : Move dir s act t) (hinv : RestorableInvariant dir s)
    (hs : ToldInvariant dir s) : ToldInvariant dir t := by
  cases h with
  | accept cd command t hmove => cases hmove <;> exact hs
  | main t hmove => exact hmove.told hinv.settled hs
  | cmd outcome t hmove =>
      cases hmove with
      | queue hmove => exact hmove.told hs
      | checkpoint hmove => exact hmove.told hinv.settled hinv.workers hs
      | restore hmove => exact hmove.told hinv.settled hinv.workers hs
  | worker act t hmove => exact hmove.told hinv.settled hinv.workers hs

theorem toldInvariant_boot (table : Table) : ToldInvariant dir (Sys.boot table) where
  bound := by simp [Sys.boot]
  connected := trivial
  untold := indexed_nil
  answered := indexed_nil
  recorded := indexed_nil
  telling := indexed_nil

end Memcr.ServiceSystem
