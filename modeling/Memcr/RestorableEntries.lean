import Memcr.PendingEntries

namespace Memcr.ServiceSystem

open Memcr.ByteWords
open Memcr.GuardedRuns
open Memcr.IndexedLists
open Memcr.ServiceTable
open Memcr.WorkerProcess

/-- The command thread has finished the checkpoint with the worker's OK, and the
worker has neither exited nor been told to restore. -/
def Proc.held (x : Proc) : Bool := x.served && !x.exited && x.inbox.isNone

/-- The table records the worker, and a RESTORE of its target finds it. -/
def Restorable (table : Table) (x : Proc) : Prop :=
  (∃ slot ∈ table, slot.pid = x.target ∧ slot.state = .checkpointed ∧ slot.worker = x.pid) ∧
    canRestorePid x.target table = true ∧ getPidWorker x.target table = x.pid

/-- The table has one entry for the target, and it names the worker. -/
def Recorded (table : Table) (x : Proc) : Prop :=
  ∃ slot, entries table x.target = [slot] ∧ slot.state = .checkpointed ∧ slot.worker = x.pid

theorem Recorded.restorable {table : Table} {x : Proc} (h : Recorded table x) :
    Restorable table x := by
  obtain ⟨slot, hentries, hstate, hworker⟩ := h
  have hslot : slot ∈ entries table x.target := by simp [hentries]
  obtain ⟨hmem, hpid⟩ := mem_entries.mp hslot
  refine ⟨⟨slot, hmem, hpid, hstate, hworker⟩, ?_, ?_⟩
  · simp only [canRestorePid, List.any_eq_true]
    exact ⟨slot, hmem, by simpa using hpid⟩
  · simp [getPidWorker_eq, hentries, hworker]

theorem Recorded.of_entries {table table' : Table} {x : Proc} (h : Recorded table x)
    (heq : entries table' x.target = entries table x.target) : Recorded table' x := by
  rw [Recorded, heq]
  exact h

theorem Pending.not_recorded {main : MainPc} {queue : List Ctx} {cmd : CmdPc} {table : Table}
    {pid : Int} (h : Pending main queue cmd table pid) (hpending : pending pid main queue cmd ≠ 0)
    {x : Proc} (htarget : x.target = pid) : ¬ Recorded table x := by
  rintro ⟨slot, hentries, hstate, -⟩
  rcases h with hzero | ⟨-, -, other, hother, -, hpendingState⟩
  · exact hpending hzero
  · rw [htarget, hother] at hentries
    obtain rfl : other = slot := by simpa using hentries
    exact entryState_ne_checkpointed cmd pid (hpendingState.symm.trans hstate)

section Processes

variable (dir : Bool)

/-- How a worker changes by its own actions, by signals and by messages. -/
structure Proc.Continues (x y : Proc) : Prop where
  pid : y.pid = x.pid
  target : y.target = x.target
  served : y.served = x.served
  exited : x.exited = true → y.exited = true
  reaped : x.reaped = true → y.reaped = true
  reaped_of : y.reaped = true → x.reaped = true ∨ x.exited = true
  told : x.inbox.isSome = true → y.inbox.isSome = true
  done : ∀ action ∈ x.done dir, action ∈ y.done dir

/-- The same without a new name bound. -/
structure Proc.Steady (x y : Proc) : Prop extends Proc.Continues dir x y where
  bound : ∀ pid, .bind pid ∈ y.done dir → .bind pid ∈ x.done dir

structure Proc.Sound (x : Proc) : Prop where
  pid_pos : 0 < x.pid
  exited_of_reaped : x.reaped = true → x.exited = true
  bound_of_served : x.served = true → .bind x.target ∈ x.done dir

/-- Pids are unique among the workers that the kernel still knows. -/
def UniquePids (procs : List Proc) : Prop :=
  ∀ (j k : Nat) (x y : Proc), procs[j]? = some x → procs[k]? = some y → x.reaped = false →
    y.reaped = false → x.pid = y.pid → j = k

end Processes

/-- The worker whose answer the command thread has not got and does not yet do
without. -/
def CmdPc.awaited : CmdPc → Option Nat
  | .starting _ (.setCheckpointing _ _ k) => some k
  | .checkpointing _ _ _ k .readResponse => some k
  | .checkpointing _ _ _ k .killTarget => some k
  | .checkpointing _ _ _ k .killWorker => some k
  | _ => none

/-- The worker that answered OK, until that is recorded. -/
def CmdPc.succeeded : CmdPc → Option Nat
  | .checkpointing _ _ _ k (.respond .ok) => some k
  | .checkpointing _ _ _ k (.finish .ok) => some k
  | _ => none

/-- What is known of a worker that is held while the command thread restores its
target: the RESTORE reaches this worker or kills it, and leaves none behind. -/
def RestoreStage.Allows (worker : Int) (k : Nat) (x : Proc) : RestoreStage → Prop
  | .connect | .killTarget | .killWorker => x.pid = worker
  | .write rd => x.pid = worker ∧ ∀ j, rd = some j → j = k
  | .read rd => x.pid = worker ∧ rd = none
  | .cleanup | .respond _ | .clear => False

/-- The command thread, if it is at a RESTORE of the target of a held worker, has got as
far as its stage allows. -/
def CmdPc.Tells (procs : List Proc) : CmdPc → Prop
  | .restoring c worker stage =>
      Indexed (fun k x => x.held = true → x.target = c.pid → stage.Allows worker k x) procs
  | _ => True

/-- From the end of its checkpoint until its worker exits or is told to restore, the
table has an entry of the process that names the worker. -/
structure HeldInvariant (dir : Bool) (s : Sys) : Prop where
  sound : Indexed (fun _ => Proc.Sound dir) s.procs
  unique : UniquePids s.procs
  held : Indexed (fun _ x => x.held = true → Recorded s.table x) s.procs
  current : ∀ c worker k, s.cmd.current = some (c, worker, k) →
    ∃ x, s.procs[k]? = some x ∧ x.pid = worker ∧ x.target = c.pid ∧ x.served = false
  succeeded : Indexed (fun k x => s.cmd.succeeded = some k → .bind x.target ∈ x.done dir) s.procs
  reported : Indexed (fun k x => x.exited = true ∨ Reported (x.done dir) ∨
    s.cmd.awaited = some k) s.procs
  named : Indexed (fun k x => x.exited = false → .bind x.target ∈ x.done dir →
    (x.held = true ∨ ∃ c worker, s.cmd.current = some (c, worker, k)) →
    s.sock x.target = none ∨ s.sock x.target = some k) s.procs
  tells : s.cmd.Tells s.procs

section Continues

variable {dir : Bool} {x y z : Proc}

theorem eq_false_of_imp {a b : Bool} (h : a = true → b = true) (hb : b = false) : a = false := by
  cases a with
  | false => rfl
  | true => exact hb ▸ (h rfl).symm

theorem Proc.held_iff :
    x.held = true ↔ x.served = true ∧ x.exited = false ∧ x.inbox.isSome = false := by
  simp [Proc.held, and_assoc]

theorem Proc.Steady.refl (x : Proc) : x.Steady dir x where
  pid := rfl
  target := rfl
  served := rfl
  exited := id
  reaped := id
  reaped_of := Or.inl
  told := id
  done := fun _ h => h
  bound := fun _ h => h

theorem Proc.Continues.held (h : x.Continues dir y) (hheld : y.held = true) : x.held = true := by
  obtain ⟨hserved, hexited, hinbox⟩ := Proc.held_iff.mp hheld
  exact Proc.held_iff.mpr ⟨h.served.symm.trans hserved, eq_false_of_imp h.exited hexited,
    eq_false_of_imp h.told hinbox⟩

theorem Proc.continues_advance {action : WorkerAction}
    (hnext : (x.actions dir)[x.pc]? = some action) :
    x.Continues dir { x with pc := x.pc + 1 } :=
  { (Proc.Steady.refl x : x.Steady dir x) with
    done := fun other h => by
      rw [Proc.done_advance hnext]
      exact List.mem_append_left _ h }

theorem Proc.steady_advance {action : WorkerAction}
    (hnext : (x.actions dir)[x.pc]? = some action) (haction : ∀ pid, action ≠ .bind pid) :
    x.Steady dir { x with pc := x.pc + 1 } :=
  { Proc.continues_advance hnext with
    bound := fun pid h => by
      rw [Proc.done_advance hnext] at h
      rcases List.mem_append.mp h with h | h
      · exact h
      · exact absurd (List.mem_singleton.mp h).symm (haction pid) }

theorem Proc.steady_exit (x : Proc) : x.Steady dir { x with exited := true } :=
  { Proc.Steady.refl x with exited := fun _ => rfl }

theorem Proc.steady_killed (pid : Int) (x : Proc) : x.Steady dir (x.killed pid) :=
  Proc.killed_induction pid x.steady_exit (.refl x)

theorem Proc.steady_reap (hexited : x.exited = true) : x.Steady dir { x with reaped := true } :=
  { Proc.Steady.refl x with reaped := fun _ => rfl, reaped_of := fun _ => Or.inr hexited }

theorem Proc.steady_tell (bytes : List Byte) (x : Proc) : x.Steady dir (x.tell bytes) :=
  { Proc.Steady.refl x with told := fun _ => by simp [Proc.tell] }

theorem Proc.Sound.continues (hsound : x.Sound dir) (h : x.Continues dir y) : y.Sound dir where
  pid_pos := h.pid ▸ hsound.pid_pos
  exited_of_reaped := fun hreaped => by
    rcases h.reaped_of hreaped with hold | hexited
    · exact h.exited (hsound.exited_of_reaped hold)
    · exact h.exited hexited
  bound_of_served := fun hserved => by
    rw [h.target]
    exact h.done _ (hsound.bound_of_served (h.served.symm.trans hserved))

theorem UniquePids.related {rel : Proc → Proc → Prop} {procs after : List Proc}
    (h : UniquePids procs) (hrel : Related rel procs after)
    (hpid : ∀ x y, rel x y → y.pid = x.pid)
    (hreaped : ∀ x y, rel x y → x.reaped = true → y.reaped = true) : UniquePids after := by
  intro j k y z hy hz hyreaped hzreaped heq
  obtain ⟨x, hx, hxy⟩ := hrel.backward j y hy
  obtain ⟨w, hw, hwz⟩ := hrel.backward k z hz
  exact h j k x w hx hw (eq_false_of_imp (hreaped x y hxy) hyreaped)
    (eq_false_of_imp (hreaped w z hwz) hzreaped) (by rw [← hpid x y hxy, ← hpid w z hwz, heq])

theorem Recorded.continues {table : Table} (h : x.Continues dir y) (hrecorded : Recorded table x) :
    Recorded table y := by
  rw [Recorded, h.target, h.pid]
  exact hrecorded

theorem reported_continues (h : x.Continues dir y) (hreported : Reported (x.done dir)) :
    Reported (y.done dir) := by
  obtain ⟨code, sent, hmem⟩ := hreported
  exact ⟨code, sent, h.done _ hmem⟩

theorem CmdPc.Tells.related {cmd : CmdPc} {procs after : List Proc} (h : cmd.Tells procs)
    (hrel : Related (Proc.Continues dir) procs after) : cmd.Tells after := by
  cases cmd with
  | restoring c worker stage =>
      refine Indexed.related h hrel fun k x y hxy hold hheld htarget => ?_
      have hallows := hold (hxy.held hheld) (hxy.target.symm.trans htarget)
      cases stage <;> simp only [RestoreStage.Allows, hxy.pid] at hallows ⊢ <;> exact hallows
  | _ => trivial

end Continues

variable {dir : Bool} {s t : Sys}

theorem HeldInvariant.continues (hinv : HeldInvariant dir s) {after : List Proc}
    {sock : Int → Option Nat} (hrel : Related (Proc.Continues dir) s.procs after)
    (hnamed : Indexed (fun k x => x.exited = false → .bind x.target ∈ x.done dir →
      (x.held = true ∨ ∃ c worker, s.cmd.current = some (c, worker, k)) →
      sock x.target = none ∨ sock x.target = some k) after) :
    HeldInvariant dir { s with procs := after, sock := sock } where
  sound := hinv.sound.related hrel fun _ _ _ h hsound => hsound.continues h
  unique := hinv.unique.related hrel (fun _ _ h => h.pid) fun _ _ h => h.reaped
  held := hinv.held.related hrel fun _ _ _ h hold hheld => (hold (h.held hheld)).continues h
  current := fun c worker k hcurrent => by
    obtain ⟨x, hx, hpid, htarget, hserved⟩ := hinv.current c worker k hcurrent
    obtain ⟨y, hy, hxy⟩ := hrel.forward k x hx
    exact ⟨y, hy, hxy.pid.trans hpid, hxy.target.trans htarget, hxy.served.trans hserved⟩
  succeeded := hinv.succeeded.related hrel fun _ _ _ h hold hcmd => by
    rw [h.target]
    exact h.done _ (hold hcmd)
  reported := hinv.reported.related hrel fun _ _ _ h hold => by
    rcases hold with hexited | hreported | hawaited
    · exact Or.inl (h.exited hexited)
    · exact Or.inr (Or.inl (reported_continues h hreported))
    · exact Or.inr (Or.inr hawaited)
  named := hnamed
  tells := hinv.tells.related hrel

theorem HeldInvariant.steady (hinv : HeldInvariant dir s) {after : List Proc}
    {sock : Int → Option Nat} (hrel : Related (Proc.Steady dir) s.procs after)
    (hsock : ∀ pid, sock pid = none ∨ sock pid = s.sock pid) :
    HeldInvariant dir { s with procs := after, sock := sock } := by
  refine hinv.continues (hrel.imp fun _ _ h => h.toContinues)
    (hinv.named.related hrel fun k x y h hold hrunning hbound hwho => ?_)
  rw [h.target] at hbound ⊢
  have hname := hold (eq_false_of_imp h.exited hrunning) (h.bound _ hbound) (hwho.imp_left h.held)
  rcases hsock x.target with hnone | hsame
  · exact Or.inl hnone
  · rw [hsame]
    exact hname

theorem HeldInvariant.kill (hinv : HeldInvariant dir s) (pid named own : Int) :
    HeldInvariant dir (s.kill pid named own) :=
  { hinv.steady (Related.map fun x => x.steady_killed pid) fun _ => Or.inr rfl with }

theorem HeldInvariant.setProc (hinv : HeldInvariant dir s) (k : Nat) (f : Proc → Proc)
    (hf : ∀ x, s.procs[k]? = some x → x.Steady dir (f x)) : HeldInvariant dir (s.setProc k f) :=
  { hinv.steady (Related.modify Proc.Steady.refl hf) fun _ => Or.inr rfl with }

theorem HeldInvariant.unlinkSock (hinv : HeldInvariant dir s) (pids : List Int) :
    HeldInvariant dir (s.unlinkSock dir pids) := by
  have hsame : Related (Proc.Steady dir) s.procs s.procs := by
    simpa using Related.map (l := s.procs) (f := id) fun x => Proc.Steady.refl x
  have hsock : ∀ pid, (s.unlinkSock dir pids).sock pid = none ∨
      (s.unlinkSock dir pids).sock pid = s.sock pid := by
    intro pid
    simp only [Sys.unlinkSock]
    split
    · exact Or.inl rfl
    · exact Or.inr rfl
  exact { hinv.steady hsame hsock with }

theorem HeldInvariant.advance (hinv : HeldInvariant dir s) {k : Nat} {x : Proc}
    {action : WorkerAction} (hnext : x.AboutTo dir s k action)
    (haction : ∀ pid, action ≠ .bind pid) : HeldInvariant dir (s.advance k) := by
  refine hinv.setProc k _ fun y hy => ?_
  obtain rfl : x = y := Option.some.inj (hnext.found.symm.trans hy)
  exact Proc.steady_advance hnext.next haction

/-- What the held workers need to know about the rest of the state. -/
structure Settled (s : Sys) : Prop where
  commands : Carries (fun command => 0 < command.pid) s
  admits : s.main.Admits s.table
  own : PendingOwn s

theorem Settled.target_pos (h : Settled s) {k : Nat} {x : Proc} (hx : s.procs[k]? = some x) :
    0 < x.target := by
  obtain ⟨⟨command, hpos, -, htarget⟩, -⟩ := h.commands.procs k x hx
  exact htarget ▸ hpos

theorem Settled.not_recorded (h : Settled s) {k : Nat} {x : Proc} (hx : s.procs[k]? = some x)
    (hpending : pending x.target s.main s.queue s.cmd ≠ 0) : ¬ Recorded s.table x :=
  (h.own x.target (h.target_pos hx)).not_recorded hpending rfl

theorem HeldInvariant.held_clear (hinv : HeldInvariant dir s) (hsettled : Settled s) {pid : Int}
    (hpending : pending pid s.main s.queue s.cmd ≠ 0) :
    Indexed (fun _ x => x.held = true → Recorded (clearPidCheckpointData pid s.table) x)
      s.procs :=
  hinv.held.mono fun k x hx hold hheld => by
    have hpos := hsettled.target_pos hx
    by_cases heq : pid = x.target
    · exact absurd (hold hheld) (hsettled.not_recorded hx (heq ▸ hpending))
    · exact (hold hheld).of_entries (entries_clear_of_ne (by omega) heq)

theorem MainMove.held (h : MainMove s t) (hsettled : Settled s) (hinv : HeldInvariant dir s) :
    HeldInvariant dir t := by
  cases h with
  | initPid s c =>
      refine { hinv with held := hinv.held.mono fun k x hx hold hheld => ?_ }
      have hpos := hsettled.target_pos hx
      by_cases heq : c.pid = x.target
      · obtain ⟨slot, hentries, -⟩ := hold hheld
        have hslot : slot ∈ entries s.table x.target := by simp [hentries]
        obtain ⟨hmem, hpid⟩ := mem_entries.mp hslot
        exact absurd (hpid.trans heq.symm) (hsettled.admits (by omega) slot hmem)
      · exact (hold hheld).of_entries (entries_init_of_ne (by omega) heq)
  | clearRefused s c =>
      refine { hinv with held := hinv.held_clear hsettled ?_ }
      simp [pending, MainPc.pending]
  | tryAbort s c =>
      refine { hinv with held := hinv.held.mono fun k x hx hold hheld => ?_ }
      obtain ⟨slot, hentries, hstate, hworker⟩ := hold hheld
      rcases entries_tryToAbortCheckpoint s.table x.target c.pid with
        hsame | ⟨first, rest, hfirst, hnew⟩
      · exact ⟨slot, hsame.trans hentries, hstate, hworker⟩
      · obtain ⟨rfl, rfl⟩ : slot = first ∧ [] = rest := by simpa [hentries] using hfirst
        exact ⟨_, hnew, hstate, hworker⟩
  | _ => exact { hinv with }

theorem QueueMove.held (h : QueueMove s t) (hinv : HeldInvariant dir s) : HeldInvariant dir t := by
  cases h with
  | pop s c rest =>
      rcases dispatch_cases c with ⟨-, hdispatch⟩ | ⟨-, hdispatch | hdispatch⟩ <;>
        rw [hdispatch] <;> exact { hinv with }
  | _ => exact { hinv with }

theorem uniquePids_nil : UniquePids [] := by
  intro j k x y hx
  simp at hx

theorem UniquePids.concat {procs : List Proc} {x : Proc} (h : UniquePids procs)
    (hfresh : ∀ y ∈ procs, y.reaped = true ∨ y.pid ≠ x.pid) : UniquePids (procs ++ [x]) := by
  have hclash : ∀ y ∈ procs, y.reaped = false → y.pid ≠ x.pid := by
    intro y hy hreaped
    rcases hfresh y hy with hnot | hne
    · rw [hreaped] at hnot
      cases hnot
    · exact hne
  intro j k y z hy hz hyreaped hzreaped hpid
  rcases getElem?_concat_eq_some hy with hyold | ⟨rfl, rfl⟩
  · rcases getElem?_concat_eq_some hz with hzold | ⟨rfl, rfl⟩
    · exact h j k y z hyold hzold hyreaped hzreaped hpid
    · exact absurd hpid (hclash y (List.mem_of_getElem? hyold) hyreaped)
  · rcases getElem?_concat_eq_some hz with hzold | ⟨rfl, -⟩
    · exact absurd hpid.symm (hclash z (List.mem_of_getElem? hzold) hzreaped)
    · rfl

/-- The command thread moves on; what has to be answered for is the worker it
was waiting for. -/
theorem reported_of_awaited {cmd cmd' : CmdPc} {procs : List Proc}
    (h : Indexed (fun k x => x.exited = true ∨ Reported (x.done dir) ∨ cmd.awaited = some k) procs)
    (hawaited : ∀ k x, procs[k]? = some x → cmd.awaited = some k →
      x.exited = true ∨ Reported (x.done dir) ∨ cmd'.awaited = some k) :
    Indexed (fun k x => x.exited = true ∨ Reported (x.done dir) ∨ cmd'.awaited = some k) procs :=
  h.mono fun k x hx hold => by
    rcases hold with hexited | hreported | hwaiting
    · exact Or.inl hexited
    · exact Or.inr (Or.inl hreported)
    · exact hawaited k x hx hwaiting

theorem HeldInvariant.fork {c : Ctx} {sd : Nat} {forked : Int} {env : WorkerEnv}
    (hinv : HeldInvariant dir { s with cmd := .starting c (.fork sd) })
    (hfresh : s.freshPid forked = true) :
    HeldInvariant dir { s with
      procs := s.procs ++ [⟨forked, c.pid, env, 0, false, false, false, false, none⟩]
      cmd := .starting c (.setCheckpointing sd forked s.procs.length) } := by
  obtain ⟨hpos, hfresh⟩ := Sys.freshPid_iff.mp hfresh
  refine {
    sound := hinv.sound.concat ⟨hpos, by simp, by simp⟩
    unique := hinv.unique.concat hfresh
    held := hinv.held.concat (by simp [Proc.held])
    current := fun c' worker k heq => ?_
    succeeded := fun _ _ _ => by simp [CmdPc.succeeded]
    reported := Indexed.concat (reported_of_awaited hinv.reported (by simp [CmdPc.awaited]))
      (Or.inr (Or.inr rfl))
    named := Indexed.concat (hinv.named.mono fun k x hx hold hrunning hbound hwho => ?_) ?_
    tells := trivial }
  · obtain ⟨rfl, rfl, rfl⟩ : c = c' ∧ forked = worker ∧ s.procs.length = k := by
      simpa [CmdPc.current] using heq
    exact ⟨_, List.getElem?_concat_length, rfl, rfl, rfl⟩
  · refine hold hrunning hbound (hwho.imp_right ?_)
    rintro ⟨c', worker, heq⟩
    have hk : s.procs.length = k := by simp_all [CmdPc.current]
    have hlt := (List.getElem?_eq_some_iff.mp hx).1
    exact absurd hlt (by simp only [← hk]; omega)
  · intro _ hbound
    simp [Proc.done] at hbound

theorem bind_mem_of_succeeded {env : WorkerEnv} {pid : Int} {n : Nat} {sent : Bool}
    (hok : .respondCheckpoint .ok sent ∈ (applicationWorker dir env pid).take n) :
    .bind pid ∈ (applicationWorker dir env pid).take n := by
  refine (applicationWorker_law dir env pid).take_induction
    (fun past => .respondCheckpoint .ok sent ∈ past → .bind pid ∈ past) (by simp) ?_ n hok
  intro past action hlaw ih hmem
  rcases List.mem_append.mp hmem with hmem | hmem
  · exact List.mem_append_left _ (ih hmem)
  · obtain rfl := List.mem_singleton.mp hmem
    exact List.mem_append_left _ (hlaw rfl).1

theorem HeldInvariant.named_of_held (hinv : HeldInvariant dir s) {cmd : CmdPc}
    (hcurrent : cmd.current = none) :
    Indexed (fun k x => x.exited = false → .bind x.target ∈ x.done dir →
      (x.held = true ∨ ∃ c worker, cmd.current = some (c, worker, k)) →
      s.sock x.target = none ∨ s.sock x.target = some k) s.procs :=
  hinv.named.mono fun k x _ hold hrunning hbound hwho => by
    rcases hwho with hheld | ⟨c, worker, heq⟩
    · exact hold hrunning hbound (Or.inl hheld)
    · rw [hcurrent] at heq
      cases heq

theorem HeldInvariant.response {c : Ctx} {sd : Nat} {worker : Int} {k : Nat} {code : Response}
    {x : Proc}
    (hinv : HeldInvariant dir { s with cmd := .checkpointing c sd worker k .readResponse })
    (hx : s.procs[k]? = some x) (hcode : .respondCheckpoint code true ∈ x.done dir) :
    HeldInvariant dir { s with cmd := .checkpointing c sd worker k (.respond code) } := by
  refine { hinv with
    succeeded := fun j y hy heq => ?_
    reported := reported_of_awaited hinv.reported fun j y hy hawaited => ?_ }
  · cases code with
    | ok =>
        obtain rfl : k = j := Option.some.inj heq
        obtain rfl : x = y := Option.some.inj (hx.symm.trans hy)
        exact bind_mem_of_succeeded hcode
    | _ => cases heq
  · obtain rfl : k = j := Option.some.inj hawaited
    obtain rfl : x = y := Option.some.inj (hx.symm.trans hy)
    exact Or.inr (Or.inl ⟨code, true, hcode⟩)

theorem HeldInvariant.exited_of_kill (hinv : HeldInvariant dir s) {pid : Int} {k : Nat} {x : Proc}
    (hx : (s.procs.map (Proc.killed pid))[k]? = some x) (hpid : x.pid = pid) :
    x.exited = true := by
  rw [List.getElem?_map] at hx
  obtain ⟨y, hy, rfl⟩ := Option.map_eq_some_iff.mp hx
  have hsound := hinv.sound k y hy
  rw [← hpid, Proc.killed_pid]
  exact Proc.exited_killed hsound.pid_pos hsound.exited_of_reaped

theorem HeldInvariant.killWorker {c : Ctx} {sd : Nat} {worker : Int} {k : Nat}
    (hinv : HeldInvariant dir { s with cmd := .checkpointing c sd worker k .killWorker }) :
    HeldInvariant dir { s.kill worker c.pid worker with
      cmd := .checkpointing c sd worker k .cleanup } := by
  have hkilled := hinv.kill worker c.pid worker
  refine { hkilled with
    reported := reported_of_awaited hkilled.reported fun j y hy hawaited => ?_ }
  obtain rfl : k = j := Option.some.inj hawaited
  obtain ⟨x, hx, hpid, -⟩ := hkilled.current c worker k rfl
  obtain rfl : x = y := Option.some.inj (hx.symm.trans hy)
  exact Or.inl (hinv.exited_of_kill hx hpid)

theorem HeldInvariant.setCheckpointed {c : Ctx} {sd : Nat} {worker : Int} {k : Nat}
    (hsettled : Settled { s with cmd := .checkpointing c sd worker k (.finish .ok) })
    (hinv : HeldInvariant dir { s with cmd := .checkpointing c sd worker k (.finish .ok) }) :
    HeldInvariant dir { s with
      table := setPidCheckpointed c.pid worker s.table
      procs := s.procs.modify k fun x => { x with served := true }
      cmd := .ending c (.closeSd sd) } := by
  obtain ⟨x, hx, rfl, htarget, -⟩ := hinv.current c worker k rfl
  have hx : s.procs[k]? = some x := hx
  have hpending : pending c.pid s.main s.queue (.checkpointing c sd x.pid k (.finish .ok)) ≠ 0 := by
    simp [pending, CmdPc.pending]
  have hserve : Related (fun y z => z.pid = y.pid ∧ z.reaped = y.reaped) s.procs
      (s.procs.modify k fun x => { x with served := true }) :=
    .modify (fun _ => ⟨rfl, rfl⟩) fun _ _ => ⟨rfl, rfl⟩
  refine {
    sound := hinv.sound.modify fun y hy h => { h with bound_of_served := fun _ => ?_ }
    unique := hinv.unique.related hserve (fun _ _ h => h.1) fun _ _ h hreaped => h.2.trans hreaped
    held := fun j y hy hheld => ?_
    current := by simp [CmdPc.current]
    succeeded := fun _ _ _ => by simp [CmdPc.succeeded]
    reported := hinv.reported.modify fun _ _ h => h
    named := fun j y hy hrunning hbound hwho => ?_
    tells := trivial }
  · exact hinv.succeeded k y hy rfl
  · obtain ⟨z, hz, rfl⟩ := getElem?_modify_eq_some hy
    split
    · rename_i heq
      subst heq
      obtain rfl : x = z := Option.some.inj (hx.symm.trans hz)
      have hpos : 0 < c.pid := htarget ▸ hsettled.target_pos hx
      rcases hsettled.own c.pid hpos with hzero | ⟨-, -, slot, hentries, -, hstate⟩
      · exact absurd hzero hpending
      · have hstate : slot.state = .checkpointing := hstate.trans (if_pos rfl)
        have hnew := entries_setPidCheckpointed x.pid hentries hstate
        refine ⟨_, Eq.trans ?_ hnew, rfl, rfl⟩
        change entries _ x.target = _
        rw [htarget]
    · rename_i hne
      rw [if_neg hne] at hheld
      have hrecorded := hinv.held j z hz hheld
      by_cases heq : c.pid = z.target
      · exact absurd hrecorded (hsettled.not_recorded hz (heq ▸ hpending))
      · exact hrecorded.of_entries (entries_setPidCheckpointed_of_ne x.pid heq)
  · obtain ⟨z, hz, rfl⟩ := getElem?_modify_eq_some hy
    split at hrunning
    · rename_i heq
      subst heq
      rw [if_pos rfl] at hbound ⊢
      exact hinv.named k z hz hrunning hbound (Or.inr ⟨c, x.pid, rfl⟩)
    · rename_i hne
      rw [if_neg hne] at hbound hwho ⊢
      rcases hwho with hheld | ⟨_, _, heq⟩
      · exact hinv.named j z hz hrunning hbound (Or.inl hheld)
      · cases heq

theorem CheckpointMove.held (h : CheckpointMove dir s t) (hsettled : Settled s)
    (hinv : HeldInvariant dir s) : HeldInvariant dir t := by
  cases h with
  | fork s c sd forked env hfresh => exact hinv.fork hfresh
  | clearNoFork s c =>
      refine { hinv with held := hinv.held_clear hsettled ?_ }
      simp [pending, CmdPc.pending]
  | setCheckpointing s c sd worker k =>
      refine { hinv with held := hinv.held.mono fun j x hx hold hheld => ?_ }
      by_cases heq : c.pid = x.target
      · refine absurd (hold hheld) (hsettled.not_recorded hx ?_)
        simp [pending, CmdPc.pending, heq]
      · exact (hold hheld).of_entries (entries_setPidCheckpointing_of_ne sd heq)
  | response s c sd worker k code x hx hcode => exact hinv.response hx hcode
  | killTarget s c sd worker k => exact { hinv.kill c.pid c.pid worker with }
  | killWorker => exact hinv.killWorker
  | cleanup s c => exact { hinv.unlinkSock [c.pid] with }
  | respond s c sd worker k code => cases code <;> exact { hinv with }
  | setCheckpointed => exact hinv.setCheckpointed hsettled
  | clearFailed s c sd worker k code =>
      refine { hinv with
        held := hinv.held_clear hsettled ?_
        current := by simp [CmdPc.current]
        succeeded := fun _ _ _ => by simp [CmdPc.succeeded]
        named := hinv.named_of_held rfl }
      simp [pending, CmdPc.pending]
  | _ => exact { hinv with }

theorem Recorded.getPidWorker_eq {table : Table} {x : Proc} {pid : Int} (h : Recorded table x)
    (htarget : x.target = pid) : x.pid = getPidWorker pid table := by
  rw [← htarget]
  exact h.restorable.2.2.symm

theorem Sys.sock_of_listener {pid : Int} {k : Nat} (h : s.listener dir pid = some k) :
    s.sock pid = some k := by
  simp only [Sys.listener, Option.filter_eq_some_iff] at h
  exact h.1

theorem RestoreMove.held (h : RestoreMove dir s t) (hsettled : Settled s)
    (hinv : HeldInvariant dir s) : HeldInvariant dir t := by
  cases h with
  | getWorker s c =>
      refine { hinv with tells := fun k x hx hheld htarget => ?_ }
      exact (hinv.held k x hx hheld).getPidWorker_eq htarget
  | connect s c worker k hlistener =>
      have hsock := Sys.sock_of_listener hlistener
      have hconnected : HeldInvariant dir { s with
          procs := s.procs.modify k fun x => { x with connected := true }
          cmd := .restoring c worker .connect } :=
        { hinv.setProc k (fun x => { x with connected := true }) fun x _ =>
            { Proc.Steady.refl x with } with }
      refine { hconnected with tells := fun j x hx hheld htarget => ?_ }
      refine ⟨hconnected.tells j x hx hheld htarget, fun i hi => ?_⟩
      obtain rfl : k = i := Option.some.inj hi
      obtain ⟨hserved, hrunning, -⟩ := Proc.held_iff.mp hheld
      have hbound := (hconnected.sound j x hx).bound_of_served hserved
      have hname := hconnected.named j x hx hrunning hbound (Or.inl hheld)
      rw [htarget] at hname
      rcases hname with hnone | hown
      · exact absurd (hsock.symm.trans hnone) (by simp)
      · exact Option.some.inj (hsock.symm.trans hown)
  | noConnection s c worker =>
      exact { hinv with
        tells := fun k x hx hheld htarget => ⟨hinv.tells k x hx hheld htarget, by simp⟩ }
  | write s c worker k n =>
      have htold := hinv.setProc k (Proc.tell (c.svcCmd.bytes.take n)) fun x _ => x.steady_tell _
      refine { htold with tells := fun j x hx hheld htarget => ?_ }
      obtain ⟨hworker, hrd⟩ := htold.tells j x hx hheld htarget
      obtain rfl : k = j := hrd k rfl
      obtain ⟨y, hy, rfl⟩ := getElem?_modify_eq_some hx
      rw [if_pos rfl] at hheld
      have hinbox := (Proc.held_iff.mp hheld).2.2
      simp [Proc.tell] at hinbox
  | noWrite s c worker =>
      exact { hinv with
        tells := fun k x hx hheld htarget => ⟨(hinv.tells k x hx hheld htarget).1, rfl⟩ }
  | response s c worker k code =>
      refine { hinv with tells := fun j x hx hheld htarget => ?_ }
      cases (hinv.tells j x hx hheld htarget).2
  | noResponse s c worker rd =>
      exact { hinv with tells := fun k x hx hheld htarget => (hinv.tells k x hx hheld htarget).1 }
  | killTarget s c worker => exact { hinv.kill c.pid c.pid worker with }
  | killWorker s c worker =>
      have hkilled := hinv.kill worker c.pid worker
      refine { hkilled with tells := fun k x hx hheld htarget => ?_ }
      have hexited := hinv.exited_of_kill hx (hkilled.tells k x hx hheld htarget)
      rw [(Proc.held_iff.mp hheld).2.1] at hexited
      cases hexited
  | cleanup s c worker => exact { hinv.unlinkSock [c.pid] with }
  | clear s c worker =>
      refine { hinv with held := hinv.held.mono fun k x hx hold hheld => ?_, tells := trivial }
      have hpos := hsettled.target_pos hx
      by_cases heq : c.pid = x.target
      · exact (hinv.tells k x hx hheld heq.symm).elim
      · exact (hold hheld).of_entries (entries_clear_of_ne (by omega) heq)
  | _ => exact { hinv with }

theorem CmdPc.current_of_awaited {cmd : CmdPc} {k : Nat} (h : cmd.awaited = some k) :
    ∃ c worker, cmd.current = some (c, worker, k) ∧ cmd.pending c.pid = 1 := by
  cases cmd with
  | starting c stage =>
      cases stage with
      | setCheckpointing sd worker j =>
          obtain rfl : j = k := Option.some.inj h
          exact ⟨c, worker, rfl, if_pos rfl⟩
      | _ => cases h
  | checkpointing c sd worker j stage =>
      cases stage with
      | readResponse | killTarget | killWorker =>
          obtain rfl : j = k := Option.some.inj h
          exact ⟨c, worker, rfl, if_pos rfl⟩
      | _ => cases h
  | _ => cases h

/-- A worker binds its name before it reports, hence as the current one: its
target has a pending CHECKPOINT, and no held worker. -/
theorem HeldInvariant.bind (hinv : HeldInvariant dir s) (hsettled : Settled s) {k : Nat} {x : Proc}
    {pid : Int} (hnext : x.AboutTo dir s k (.bind pid)) :
    HeldInvariant dir { s.advance k with
      sock := fun other => if other = pid then some k else s.sock other } := by
  obtain ⟨rfl, hunreported⟩ : pid = x.target ∧ ¬ Reported (x.done dir) := Proc.law hnext.next
  have hawaited : s.cmd.awaited = some k := by
    rcases hinv.reported k x hnext.found with hexited | hreported | hawaited
    · rw [hnext.running] at hexited
      cases hexited
    · exact absurd hreported hunreported
    · exact hawaited
  obtain ⟨c, worker, hcurrent, hpending⟩ := CmdPc.current_of_awaited hawaited
  have htarget : x.target = c.pid := by
    obtain ⟨y, hy, -, htarget, -⟩ := hinv.current c worker k hcurrent
    obtain rfl : x = y := Option.some.inj (hnext.found.symm.trans hy)
    exact htarget
  have hrel : Related (Proc.Continues dir) s.procs
      (s.procs.modify k fun x => { x with pc := x.pc + 1 }) := by
    refine .modify (fun y => (Proc.Steady.refl y).toContinues) fun y hy => ?_
    obtain rfl : x = y := Option.some.inj (hnext.found.symm.trans hy)
    exact Proc.continues_advance hnext.next
  refine hinv.continues hrel fun j y hy hrunning hbound hwho => ?_
  obtain ⟨z, hz, rfl⟩ := getElem?_modify_eq_some hy
  by_cases hkj : k = j
  · subst hkj
    obtain rfl : x = z := Option.some.inj (hnext.found.symm.trans hz)
    rw [if_pos rfl]
    exact Or.inr (if_pos rfl)
  · rw [if_neg hkj] at hrunning hbound hwho ⊢
    by_cases heq : z.target = x.target
    · exfalso
      rcases hwho with hheld | ⟨c', worker', hother⟩
      · refine hsettled.not_recorded hz ?_ (hinv.held j z hz hheld)
        rw [heq, htarget, pending, hpending]
        omega
      · rw [hcurrent] at hother
        exact hkj (by simpa using congrArg (Option.map fun current => current.2.2) hother)
    · simp only [if_neg heq]
      exact hinv.named j z hz hrunning hbound hwho

theorem HeldInvariant.reap (hinv : HeldInvariant dir s) (hsettled : Settled s) {k : Nat} {x : Proc}
    (hx : s.procs[k]? = some x) (hexited : x.exited = true) (hreaped : x.reaped = false)
    (pids : List Int) :
    HeldInvariant dir { (s.setProc k fun x => { x with reaped := true }).unlinkSock dir pids with
      table := clearPidOnWorkerExit x.pid s.table } := by
  have hafter : HeldInvariant dir (s.setProc k fun x => { x with reaped := true }) := by
    refine hinv.setProc k _ fun y hy => ?_
    obtain rfl : x = y := Option.some.inj (hx.symm.trans hy)
    exact Proc.steady_reap hexited
  refine { hafter.unlinkSock pids with held := fun j y hy hheld => ?_ }
  obtain ⟨slot, hentries, hstate, hworker⟩ := hafter.held j y hy hheld
  have hrunning := (Proc.held_iff.mp hheld).2.1
  obtain ⟨z, hz, rfl⟩ := getElem?_modify_eq_some hy
  have hkj : k ≠ j := by
    rintro rfl
    obtain rfl : x = z := Option.some.inj (hx.symm.trans hz)
    rw [if_pos rfl, hexited] at hrunning
    cases hrunning
  rw [if_neg hkj] at hrunning hentries hworker ⊢
  have hne : z.pid ≠ x.pid := by
    intro hpid
    have hzreaped := eq_false_of_imp (hinv.sound j z hz).exited_of_reaped hrunning
    exact hkj (hinv.unique k j x z hx hz hreaped hzreaped hpid.symm)
  have hpos := hsettled.target_pos hz
  refine ⟨slot, ?_, hstate, hworker⟩
  change entries (clearPidOnWorkerExit x.pid s.table) z.target = [slot]
  rw [entries_clearPidOnWorkerExit (by omega)]
  change entries s.table z.target = [slot] at hentries
  simp [hentries, hworker, hne]

theorem WorkerMove.held {act : Act} (h : WorkerMove dir s act t) (hsettled : Settled s)
    (hinv : HeldInvariant dir s) : HeldInvariant dir t := by
  cases h with
  | bind k x pid hnext => exact hinv.bind hsettled hnext
  | kill k x pid hnext => exact (hinv.advance hnext (by simp)).kill pid (x.commandPid dir) x.pid
  | unlink k x action pid haction hnext =>
      refine (hinv.advance hnext ?_).unlinkSock [pid]
      rcases haction with rfl | rfl <;> simp
  | read k x received hnext => exact hinv.advance hnext (by simp)
  | accept k x hnext => exact hinv.advance hnext (by simp)
  | exit k x code hnext => exact (hinv.advance hnext (by simp)).setProc k _ fun y _ => y.steady_exit
  | other k x action _ _ hbind hnext => exact hinv.advance hnext hbind
  | dies k x => exact hinv.setProc k _ fun y _ => y.steady_exit
  | reap k x hx hexited hreaped => exact hinv.reap hsettled hx hexited hreaped _

structure RestorableInvariant (dir : Bool) (s : Sys) : Prop where
  settled : Settled s
  workers : HeldInvariant dir s

theorem Move.pendingOwn {act : Act} (h : Move dir s act t) (hguard : admitsSafely s act = true)
    (hinv : RestorableInvariant dir s) : PendingOwn t := by
  have hown := hinv.settled.own
  cases h with
  | accept cd command t hmove => cases hmove <;> exact hown
  | main t hmove =>
      exact hmove.pendingOwn hguard hinv.settled.commands hinv.settled.admits hown
  | cmd outcome t hmove =>
      cases hmove with
      | queue hmove => exact hmove.pendingOwn hown
      | checkpoint hmove => exact hmove.pendingOwn hown
      | restore hmove => exact hmove.pendingOwn hown
  | worker act t hmove =>
      exact hmove.pendingOwn (hinv.workers.sound.mono fun _ _ _ hsound => hsound.pid_pos) hown

theorem Move.held {act : Act} (h : Move dir s act t) (hinv : RestorableInvariant dir s) :
    HeldInvariant dir t := by
  have hworkers := hinv.workers
  cases h with
  | accept cd command t hmove => cases hmove <;> exact { hworkers with }
  | main t hmove => exact hmove.held hinv.settled hworkers
  | cmd outcome t hmove =>
      cases hmove with
      | queue hmove => exact hmove.held hworkers
      | checkpoint hmove => exact hmove.held hinv.settled hworkers
      | restore hmove => exact hmove.held hinv.settled hworkers
  | worker act t hmove => exact hmove.held hinv.settled hworkers

theorem Move.restorable {act : Act} (h : Move dir s act t) (hguard : admitsSafely s act = true)
    (hinv : RestorableInvariant dir s) : RestorableInvariant dir t where
  settled :=
    { commands := h.carries (fun cd command hact => by simpa [admitsSafely, hact] using hguard)
        hinv.settled.commands
      admits := h.admits hinv.settled.admits
      own := h.pendingOwn hguard hinv }
  workers := h.held hinv

theorem restorableInvariant_boot : RestorableInvariant dir (Sys.boot Table.zero) where
  settled :=
    { commands := carries_boot Table.zero
      admits := trivial
      own := fun _ _ => Or.inl rfl }
  workers :=
    { sound := indexed_nil
      unique := uniquePids_nil
      held := indexed_nil
      current := by simp [Sys.boot, CmdPc.current]
      succeeded := indexed_nil
      reported := indexed_nil
      named := indexed_nil
      tells := trivial }

/-- When the table has room for every admitted CHECKPOINT and none is admitted
during a RESTORE of the same pid, a RESTORE of a checkpointed process finds its
worker. -/
theorem held_worker_restorable (dir : Bool) (acts : List Act) (t : Sys)
    (hguard : Guarded (step dir) (fun s act => admitsSafely s act = true)
      (Sys.boot Table.zero) acts)
    (hrun : run (step dir) (Sys.boot Table.zero) acts = some t) (k : Nat) (x : Proc)
    (hx : t.procs[k]? = some x) (hheld : x.held = true) : Restorable t.table x := by
  have hinv : RestorableInvariant dir t :=
    invariant_of_guarded (fun _ _ _ hinv hguard hstep => (step_move hstep).restorable hguard hinv)
      restorableInvariant_boot hguard hrun
  exact (hinv.workers.held k x hx hheld).restorable

/-- Pid 5 is checkpointed, and the command thread is done with it. -/
def checkpointed : List Act :=
  [.accept 4 (some checkpointFive), .main, .main, .main,
    .cmd .done, .cmd (.opens 7), .cmd (.forks 1000 willing), .cmd .done, .worker 0, .worker 0,
    .cmd (.gets .ok), .cmd .done, .cmd .done]

theorem checkpointed_restorable :
    ∃ t x, run (step false) (Sys.boot Table.zero) checkpointed = some t ∧
      t.procs[0]? = some x ∧ x.held = true ∧ Restorable t.table x := by
  refine ⟨_, _, rfl, rfl, by decide, ?_⟩
  exact held_worker_restorable false checkpointed _ (by decide) rfl 0 _ rfl (by decide)

/-- Pid 5 is restored up to the answer to the client, and its worker exits and is
reaped. -/
def restoredAndReaped : List Act :=
  [.cmd .done, .cmd .done,
    .accept 6 (some restoreFive), .main, .main, .main,
    .cmd .done, .cmd .done, .cmd .done, .cmd (.writes 8),
    .worker 0, .worker 0, .worker 0, .worker 0, .worker 0, .worker 0,
    .cmd (.gets .ok), .cmd .done, .worker 0, .worker 0, .reap 0]

/-- The client asks for the next checkpoint of pid 5. Its entry is made, and then
cleared by the command thread at the end of the restore. -/
def checkpointedMeanwhile : List Act :=
  [.accept 8 (some checkpointFive), .main, .main, .main,
    .cmd .done, .cmd .done, .cmd .done, .cmd (.opens 7), .cmd (.forks 1001 willing), .cmd .done,
    .worker 1, .worker 1, .cmd (.gets .ok), .cmd .done, .cmd .done]

theorem checkpointedMeanwhile_not_restorable :
    ∃ t x, run (step false) (Sys.boot Table.zero)
        (checkpointed ++ restoredAndReaped ++ checkpointedMeanwhile) = some t ∧
      t.procs[1]? = some x ∧ x.held = true ∧ canRestorePid x.target t.table = false ∧
      ¬ Restorable t.table x := by
  refine ⟨_, _, rfl, rfl, by decide, by decide, ?_⟩
  rintro ⟨-, hfound, -⟩
  revert hfound
  decide

end Memcr.ServiceSystem
