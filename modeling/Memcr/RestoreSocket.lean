import Memcr.ServiceCommands

namespace Memcr.ServiceSystem

open Memcr.GuardedRuns
open Memcr.IndexedLists
open Memcr.ServiceTable
open Memcr.WorkerProcess

/-- The worker has bound its socket and reported success, and has not accepted
a restore connection. -/
def Proc.awaitsRestore (dir : Bool) (x : Proc) : Bool :=
  !x.exited && decide (.bind x.target ∈ x.done dir) &&
    decide (.respondCheckpoint .ok true ∈ x.done dir) && !decide (.accept true ∈ x.done dir)

/-- The actions of a worker that make or unlink the name of a restore socket, or report
that it is there. -/
def concernsSocket : WorkerAction → Bool
  | .bind _ | .respondCheckpoint _ _ | .cleanupPid _ | .removeRestoreSocket _ => true
  | _ => false

/-- The worker does not wait for a connection, and neither binds nor unlinks a
name any more. -/
def Proc.pastSocket (dir : Bool) (x : Proc) : Bool :=
  x.exited || !x.awaitsRestore dir &&
    ((x.actions dir).drop x.pc).all fun action => !concernsSocket action

/-- All commands name `pid`. A worker is forked when every earlier one is past
its use of the socket and no entry of the pid names a worker. -/
def forksPastSockets (pid : Int) (s : Sys) : Act → Bool
  | .accept _ (some command) => command.pid == pid
  | .cmd _ =>
      match s.cmd with
      | .starting c (.fork _) =>
          (s.procs.all fun x => x.pastSocket true) &&
            s.table.all fun slot => slot.pid != c.pid || slot.worker == pidInvalid
      | _ => true
  | _ => true

/-- The name the worker bound has not been given up by the worker itself. -/
structure Proc.OwnsName (x : Proc) : Prop where
  running : x.exited = false
  bound : .bind x.target ∈ x.done true
  waiting : .accept true ∉ x.done true
  kept : ∀ pid, .cleanupPid pid ∉ x.done true

/-- What holds of worker number `k` of `n` when the last one has pid `own`. -/
structure Proc.Ranked (own : Int) (n k : Nat) (x : Proc) : Prop where
  pid_pos : 0 < x.pid
  exited_of_reaped : x.reaped = true → x.exited = true
  past : k + 1 < n → x.pastSocket true = true
  other_pid : k + 1 < n → x.reaped = true ∨ x.pid ≠ own
  newest_pid : k + 1 = n → x.pid = own

def CmdPc.cleansUp : CmdPc → Bool
  | .checkpointing _ _ _ _ .cleanup => true
  | .restoring _ _ .cleanup => true
  | _ => false

/-- With a socket directory the name is a path that depends on the target pid alone.
Only the newest worker of the pid owns it, and nobody else is about to unlink it. -/
structure SocketInvariant (pid own : Int) (n : Nat) (s : Sys) : Prop where
  commands : Carries (fun command => command.pid = pid) s
  count : s.procs.length = n
  ranked : Indexed (Proc.Ranked own n) s.procs
  slots : ∀ slot ∈ s.table, slot.pid = pid → slot.worker ≠ 0 → slot.worker = own
  worker : ∀ worker, s.cmd.worker = some worker → worker = own
  killed : s.cmd.cleansUp = true → Indexed (fun k x => k + 1 = n → x.exited = true) s.procs
  owned : Indexed (fun k x => k + 1 = n → x.OwnsName → s.sock pid = some k) s.procs

def SocketsKept (pid : Int) (s : Sys) : Prop := ∃ own n, SocketInvariant pid own n s

theorem Proc.awaitsRestore_iff {dir : Bool} {x : Proc} :
    x.awaitsRestore dir = true ↔ x.exited = false ∧ .bind x.target ∈ x.done dir ∧
      .respondCheckpoint .ok true ∈ x.done dir ∧ .accept true ∉ x.done dir := by
  simp [Proc.awaitsRestore, and_assoc]

theorem Proc.ownsName_of_awaitsRestore {x : Proc} (h : x.awaitsRestore true = true) :
    x.OwnsName := by
  obtain ⟨hrunning, hbound, hok, hwaiting⟩ := Proc.awaitsRestore_iff.mp h
  exact ⟨hrunning, hbound, hwaiting,
    cleanupPid_not_mem_take true x.env x.target x.pc hok hwaiting⟩

theorem SocketInvariant.sock_eq {pid own : Int} {n : Nat} {s : Sys}
    (h : SocketInvariant pid own n s) {k : Nat} {x : Proc} (hx : s.procs[k]? = some x)
    (hawaits : x.awaitsRestore true = true) :
    s.sock x.target = some k := by
  obtain ⟨⟨command, hcommand, -, htarget⟩, -⟩ := h.commands.procs k x hx
  have hlt : k < n := h.count ▸ (List.getElem?_eq_some_iff.mp hx).1
  have hrunning := (Proc.ownsName_of_awaitsRestore hawaits).running
  rcases Nat.lt_or_eq_of_le hlt with holder | hnewest
  · have hpast := (h.ranked k x hx).past holder
    simp [Proc.pastSocket, hawaits, hrunning] at hpast
  · rw [← htarget, hcommand]
    exact h.owned k x hx hnewest (Proc.ownsName_of_awaitsRestore hawaits)

section Workers

variable {own : Int} {n k : Nat} {x : Proc} {action : WorkerAction}

theorem Proc.pastSocket_iff (hrunning : x.exited = false) :
    x.pastSocket true = true ↔ x.awaitsRestore true = false ∧
      ∀ action ∈ (x.actions true).drop x.pc, concernsSocket action = false := by
  simp [Proc.pastSocket, hrunning]

theorem Proc.concernsSocket_next (h : x.pastSocket true = true) (hrunning : x.exited = false)
    (hnext : (x.actions true)[x.pc]? = some action) : concernsSocket action = false := by
  refine ((Proc.pastSocket_iff hrunning).mp h).2 action ?_
  rw [List.mem_iff_getElem?]
  exact ⟨0, by simpa using hnext⟩

theorem Proc.pastSocket_advance (h : x.pastSocket true = true)
    (hnext : (x.actions true)[x.pc]? = some action) :
    ({ x with pc := x.pc + 1 } : Proc).pastSocket true = true := by
  by_cases hexited : x.exited = true
  · simp [Proc.pastSocket, hexited]
  · have hrunning : x.exited = false := by simpa using hexited
    have hsocket := Proc.concernsSocket_next h hrunning hnext
    obtain ⟨hnot, hrest⟩ := (Proc.pastSocket_iff hrunning).mp h
    refine (Proc.pastSocket_iff (x := { x with pc := x.pc + 1 }) hrunning).mpr
      ⟨?_, fun other hmem => hrest other ?_⟩
    · rw [Bool.eq_false_iff, ne_eq, Proc.awaitsRestore_iff, Proc.done_advance hnext]
      rintro ⟨-, hbound, hok, hwaiting⟩
      have hold : ∀ other, concernsSocket other = true → other ∈ x.done true ++ [action] →
          other ∈ x.done true := by
        intro other hother hmem
        rcases List.mem_append.mp hmem with hmem | hmem
        · exact hmem
        · rw [List.mem_singleton.mp hmem, hsocket] at hother
          cases hother
      exact Bool.eq_false_iff.mp hnot (Proc.awaitsRestore_iff.mpr ⟨hrunning,
        hold _ rfl hbound, hold _ rfl hok, fun hmem => hwaiting (List.mem_append_left _ hmem)⟩)
    · exact List.drop_subset_drop_left _ (Nat.le_succ _) hmem

theorem Proc.Ranked.advance (h : x.Ranked own n k)
    (hnext : (x.actions true)[x.pc]? = some action) :
    ({ x with pc := x.pc + 1 } : Proc).Ranked own n k :=
  { h with past := fun hk => Proc.pastSocket_advance (h.past hk) hnext }

theorem Proc.Ranked.exit (h : x.Ranked own n k) :
    ({ x with exited := true } : Proc).Ranked own n k :=
  { h with exited_of_reaped := fun _ => rfl, past := fun _ => by simp [Proc.pastSocket] }

theorem Proc.Ranked.reap (h : x.Ranked own n k) (hexited : x.exited = true) :
    ({ x with reaped := true } : Proc).Ranked own n k :=
  { h with exited_of_reaped := fun _ => hexited, other_pid := fun _ => Or.inl rfl }

theorem Proc.Ranked.killed (pid : Int) (h : x.Ranked own n k) :
    (x.killed pid).Ranked own n k :=
  Proc.killed_induction pid h.exit h

theorem Proc.Ranked.killed_exited (h : x.Ranked own n k) (hk : k + 1 = n) :
    (x.killed own).exited = true := by
  rw [← h.newest_pid hk]
  exact Proc.exited_killed h.pid_pos h.exited_of_reaped

theorem Proc.OwnsName.of_advance (h : ({ x with pc := x.pc + 1 } : Proc).OwnsName)
    (hnext : (x.actions true)[x.pc]? = some action) (hbind : ∀ pid, action ≠ .bind pid) :
    x.OwnsName := by
  obtain ⟨hrunning, hbound, hwaiting, hkept⟩ := h
  rw [Proc.done_advance hnext] at hbound hwaiting hkept
  refine ⟨hrunning, ?_, fun hmem => hwaiting (List.mem_append_left _ hmem),
    fun pid hmem => hkept pid (List.mem_append_left _ hmem)⟩
  rcases List.mem_append.mp hbound with hmem | hmem
  · exact hmem
  · exact absurd (List.mem_singleton.mp hmem).symm (hbind _)

theorem Proc.OwnsName.of_killed {pid : Int} (h : (x.killed pid).OwnsName) : x.OwnsName := by
  unfold Proc.killed at h
  split at h
  · cases h.running
  · exact h

/-- The worker is not the one that unlinks its name: it would have reported a
failure or accepted a connection. -/
theorem Proc.not_ownsName_of_unlink {pid : Int} (hnext : (x.actions true)[x.pc]? = some action)
    (haction : action = .cleanupPid pid ∨ action = .removeRestoreSocket pid) :
    ¬ ({ x with pc := x.pc + 1 } : Proc).OwnsName := by
  intro h
  rcases haction with rfl | rfl
  · exact h.kept pid (by rw [Proc.done_advance hnext]; simp)
  · have haccepted := (Proc.law hnext).2
    exact h.waiting (by rw [Proc.done_advance hnext]; exact List.mem_append_left _ haccepted)

end Workers

variable {pid own : Int} {n : Nat} {s t : Sys}

theorem AcceptMove.socket {cd : Nat} {command : Option ServiceCommand}
    (h : AcceptMove cd command s t)
    (hlaw : ∀ received, command = some received → received.pid = pid)
    (hinv : SocketInvariant pid own n s) : SocketInvariant pid own n t := by
  have hcommands := h.carries hlaw hinv.commands
  cases h <;> exact { hinv with commands := hcommands }

theorem MainMove.socket (h : MainMove s t) (hinv : SocketInvariant pid own n s) :
    SocketInvariant pid own n t := by
  have hcommands := h.carries hinv.commands
  cases h with
  | initPid s c =>
      exact { hinv with
        commands := hcommands
        slots := forall_init c.pid hinv.slots fun _ _ _ hworker => absurd rfl hworker }
  | clearRefused s c =>
      exact { hinv with
        commands := hcommands
        slots := forall_clear c.pid hinv.slots fun _ _ _ hworker => absurd rfl hworker }
  | tryAbort s c =>
      exact { hinv with
        commands := hcommands
        slots := forall_tryToAbortCheckpoint c.pid hinv.slots fun slot hmem _ =>
          hinv.slots slot hmem }
  | _ => exact { hinv with commands := hcommands }

theorem QueueMove.socket (h : QueueMove s t) (hinv : SocketInvariant pid own n s) :
    SocketInvariant pid own n t := by
  have hcommands := h.carries hinv.commands
  cases h with
  | pop s c rest =>
      have hdispatch : (dispatch c).cleansUp = false := by
        rcases dispatch_cases c with ⟨-, h⟩ | ⟨-, h | h⟩ <;> rw [h] <;> rfl
      exact { hinv with
        commands := hcommands
        worker := by simp [dispatch_worker]
        killed := by simp [hdispatch] }
  | _ => exact { hinv with commands := hcommands }

theorem SocketInvariant.fork {c : Ctx} {sd : Nat} {forked : Int} {env : WorkerEnv}
    (hinv : SocketInvariant pid own n { s with cmd := .starting c (.fork sd) })
    (hguard : forksPastSockets pid { s with cmd := .starting c (.fork sd) } (.cmd .done) = true)
    (hfresh : s.freshPid forked = true)
    (hcommands : Carries (fun command => command.pid = pid)
      { s with
        procs := s.procs ++ [⟨forked, c.pid, env, 0, false, false, false, false, none⟩]
        cmd := .starting c (.setCheckpointing sd forked s.procs.length) }) :
    SocketInvariant pid forked (n + 1)
      { s with
        procs := s.procs ++ [⟨forked, c.pid, env, 0, false, false, false, false, none⟩]
        cmd := .starting c (.setCheckpointing sd forked s.procs.length) } := by
  simp only [forksPastSockets, Bool.and_eq_true, List.all_eq_true] at hguard
  obtain ⟨hpast, hslots⟩ := hguard
  obtain ⟨hpos, hfresh⟩ := Sys.freshPid_iff.mp hfresh
  have hcount : s.procs.length = n := hinv.count
  have hlt : ∀ k x, s.procs[k]? = some x → k + 1 ≠ n + 1 := by
    intro k x hx
    have := (List.getElem?_eq_some_iff.mp hx).1
    omega
  refine {
    commands := hcommands
    count := by simp [hcount]
    ranked := Indexed.concat (hinv.ranked.mono fun k x hx h => ?_) ?_
    slots := fun slot hmem hpid hworker => ?_
    worker := fun worker heq => (Option.some.inj heq).symm
    killed := by simp [CmdPc.cleansUp]
    owned := Indexed.concat (fun k x hx hk => absurd hk (hlt k x hx)) fun _ hown => ?_ }
  · have hmem := List.mem_of_getElem? hx
    exact { h with
      past := fun _ => hpast x hmem
      other_pid := fun _ => hfresh x hmem
      newest_pid := fun hk => absurd hk (hlt k x hx) }
  · exact {
      pid_pos := hpos
      exited_of_reaped := by simp
      past := fun hk => absurd hk (by simp only [hcount]; omega)
      other_pid := fun hk => absurd hk (by simp only [hcount]; omega)
      newest_pid := fun _ => rfl }
  · have hc : c.pid = pid := hinv.commands.cmd.1
    have hslot := hslots slot hmem
    simp [hpid, hc, pidInvalid, hworker] at hslot
  · have hbound := hown.bound
    simp [Proc.done] at hbound

theorem owned_modify {procs : List Proc} {sock : Option Nat} {k : Nat} {f : Proc → Proc}
    (h : Indexed (fun k x => k + 1 = n → x.OwnsName → sock = some k) procs)
    (hf : ∀ x, procs[k]? = some x → (f x).OwnsName → x.OwnsName) :
    Indexed (fun k x => k + 1 = n → x.OwnsName → sock = some k) (procs.modify k f) :=
  h.modify fun x hx hold hk hown => hold hk (hf x hx hown)

theorem owned_killed {procs : List Proc} {sock : Option Nat} (killed : Int)
    (h : Indexed (fun k x => k + 1 = n → x.OwnsName → sock = some k) procs) :
    Indexed (fun k x => k + 1 = n → x.OwnsName → sock = some k) (procs.map (Proc.killed killed)) :=
  h.map fun _ _ _ hold hk hown => hold hk hown.of_killed

theorem SocketInvariant.unlink {pids : List Int} (hinv : SocketInvariant pid own n s)
    (hkilled : Indexed (fun k x => k + 1 = n → x.exited = true) s.procs) :
    Indexed (fun k x => k + 1 = n → x.OwnsName → (s.unlinkSock true pids).sock pid = some k)
      s.procs :=
  hinv.owned.mono fun k x hx _ hk hown => by
    have hexited := hkilled k x hx hk
    rw [hown.running] at hexited
    cases hexited

theorem CheckpointMove.socket (h : CheckpointMove true s t)
    (hguard : forksPastSockets pid s (.cmd .done) = true) (hinv : SocketInvariant pid own n s) :
    SocketsKept pid t := by
  have hcommands := h.carries hinv.commands
  cases h with
  | fork s c sd forked env hfresh =>
      exact ⟨forked, n + 1, hinv.fork hguard hfresh hcommands⟩
  | clearNoFork s c | clearFailed s c =>
      exact ⟨own, n, { hinv with
        commands := hcommands
        slots := forall_clear c.pid hinv.slots fun _ _ _ hworker => absurd rfl hworker
        worker := by simp [CmdPc.worker]
        killed := by simp [CmdPc.cleansUp] }⟩
  | setCheckpointing s c sd =>
      exact ⟨own, n, { hinv with
        commands := hcommands
        slots := forall_setPidCheckpointing c.pid sd hinv.slots fun slot hmem _ _ =>
          hinv.slots slot hmem }⟩
  | killTarget s c =>
      exact ⟨own, n, { hinv with
        commands := hcommands
        count := by simpa [Sys.kill] using hinv.count
        ranked := hinv.ranked.map fun _ _ _ h => h.killed _
        killed := by simp [CmdPc.cleansUp]
        owned := owned_killed c.pid hinv.owned }⟩
  | killWorker s c sd worker =>
      obtain rfl : worker = own := hinv.worker worker rfl
      exact ⟨worker, n, { hinv with
        commands := hcommands
        count := by simpa [Sys.kill] using hinv.count
        ranked := hinv.ranked.map fun _ _ _ h => h.killed _
        killed := fun _ =>
          hinv.ranked.map fun _ _ _ h hk => h.killed_exited hk
        owned := owned_killed worker hinv.owned }⟩
  | cleanup s c =>
      exact ⟨own, n, { hinv with
        commands := hcommands
        killed := by simp [CmdPc.cleansUp]
        owned := hinv.unlink (hinv.killed rfl) }⟩
  | setCheckpointed s c sd worker k =>
      obtain rfl : worker = own := hinv.worker worker rfl
      exact ⟨worker, n, { hinv with
        commands := hcommands
        count := by simpa using hinv.count
        ranked := hinv.ranked.modify fun _ _ h => { h with }
        slots := forall_setPidCheckpointed c.pid worker hinv.slots fun _ _ _ _ _ _ => rfl
        worker := by simp [CmdPc.worker]
        killed := by simp [CmdPc.cleansUp]
        owned := owned_modify hinv.owned fun _ _ h => { h with } }⟩
  | _ => exact ⟨own, n, { hinv with commands := hcommands }⟩

theorem RestoreMove.socket (h : RestoreMove true s t) (hinv : SocketInvariant pid own n s) :
    SocketInvariant pid own n t := by
  have hcommands := h.carries hinv.commands
  cases h with
  | noWorker => exact { hinv with commands := hcommands, worker := by simp [CmdPc.worker] }
  | getWorker s c hlock hworker =>
      refine { hinv with commands := hcommands, worker := fun worker heq => ?_ }
      obtain rfl : getPidWorker c.pid s.table = worker := Option.some.inj heq
      have hc : c.pid = pid := hinv.commands.cmd.1
      unfold getPidWorker at hworker ⊢
      split at hworker
      · rename_i slot hfind
        have hpid : slot.pid = c.pid := by simpa using List.find?_some hfind
        exact hinv.slots slot (List.mem_of_find?_eq_some hfind) (hpid.trans hc) hworker
      · exact absurd rfl hworker
  | connect s c worker k =>
      exact { hinv with
        commands := hcommands
        count := by simpa using hinv.count
        ranked := hinv.ranked.modify fun _ _ h => { h with }
        killed := by simp [CmdPc.cleansUp]
        owned := owned_modify hinv.owned fun _ _ h => { h with } }
  | write s c worker k m =>
      exact { hinv with
        commands := hcommands
        count := by simpa using hinv.count
        ranked := hinv.ranked.modify fun _ _ h => { h with }
        killed := by simp [CmdPc.cleansUp]
        owned := owned_modify hinv.owned fun _ _ h => { h with } }
  | killTarget s c worker =>
      exact { hinv with
        commands := hcommands
        count := by simpa [Sys.kill] using hinv.count
        ranked := hinv.ranked.map fun _ _ _ h => h.killed _
        killed := by simp [CmdPc.cleansUp]
        owned := owned_killed c.pid hinv.owned }
  | killWorker s c worker =>
      obtain rfl : worker = own := hinv.worker worker rfl
      exact { hinv with
        commands := hcommands
        count := by simpa [Sys.kill] using hinv.count
        ranked := hinv.ranked.map fun _ _ _ h => h.killed _
        killed := fun _ => hinv.ranked.map fun _ _ _ h hk => h.killed_exited hk
        owned := owned_killed worker hinv.owned }
  | cleanup s c worker =>
      exact { hinv with
        commands := hcommands
        killed := by simp [CmdPc.cleansUp]
        owned := hinv.unlink (hinv.killed rfl) }
  | clear s c worker =>
      exact { hinv with
        commands := hcommands
        slots := forall_clear c.pid hinv.slots fun _ _ _ hworker => absurd rfl hworker
        worker := by simp [CmdPc.worker] }
  | _ => exact { hinv with commands := hcommands }

theorem SocketInvariant.newest_of_concerns (hinv : SocketInvariant pid own n s) {k : Nat}
    {x : Proc} {action : WorkerAction} (hnext : x.AboutTo true s k action)
    (haction : concernsSocket action = true) : k + 1 = n := by
  have hlt : k < n := hinv.count ▸ (List.getElem?_eq_some_iff.mp hnext.found).1
  rcases Nat.lt_or_eq_of_le hlt with holder | hnewest
  · have hpast := (hinv.ranked k x hnext.found).past holder
    rw [Proc.concernsSocket_next hpast hnext.running hnext.next] at haction
    cases haction
  · exact hnewest

theorem SocketInvariant.advance (hinv : SocketInvariant pid own n s) {k : Nat} {x : Proc}
    {action : WorkerAction} (hnext : x.AboutTo true s k action)
    (hbind : ∀ bound, action ≠ .bind bound)
    (hcommands : Carries (fun command => command.pid = pid) (s.advance k)) :
    SocketInvariant pid own n (s.advance k) := by
  have hadvance : ∀ y, s.procs[k]? = some y → (y.actions true)[y.pc]? = some action := by
    intro y hy
    obtain rfl : x = y := Option.some.inj (hnext.found.symm.trans hy)
    exact hnext.next
  exact { hinv with
    commands := hcommands
    count := by simpa [Sys.advance, Sys.setProc] using hinv.count
    ranked := hinv.ranked.modify fun y hy h => h.advance (hadvance y hy)
    killed := fun hcmd => (hinv.killed hcmd).modify fun _ _ h => h
    owned := owned_modify hinv.owned fun y hy h => h.of_advance (hadvance y hy) hbind }

theorem SocketInvariant.exit (hinv : SocketInvariant pid own n s) (k : Nat)
    (hcommands : Carries (fun command => command.pid = pid)
      (s.setProc k fun x => { x with exited := true })) :
    SocketInvariant pid own n (s.setProc k fun x => { x with exited := true }) :=
  { hinv with
    commands := hcommands
    count := by simpa [Sys.setProc] using hinv.count
    ranked := hinv.ranked.modify fun _ _ h => h.exit
    killed := fun hcmd => (hinv.killed hcmd).modify fun _ _ _ _ => rfl
    owned := owned_modify hinv.owned fun _ _ h => by simpa using h.running }

/-- The handler unlinks no name that a running worker owns: the entries it
clears name the worker it reaps, and the newest worker is another one. -/
theorem SocketInvariant.not_mem_pidsOfWorker (hinv : SocketInvariant pid own n s) {k j : Nat}
    {x y : Proc} (hx : s.procs[k]? = some x) (hexited : x.exited = true)
    (hreaped : x.reaped = false) (hy : s.procs[j]? = some y) (hj : j + 1 = n)
    (hrunning : y.exited = false) : pid ∉ pidsOfWorker x.pid s.table := by
  intro hmem
  obtain ⟨slot, hslot, hpid⟩ := List.mem_map.mp hmem
  obtain ⟨hslot, hworker⟩ := List.mem_filter.mp hslot
  have hworker : slot.worker = x.pid := by simpa using hworker
  have hpos := (hinv.ranked k x hx).pid_pos
  have hown : x.pid = own := hworker ▸ hinv.slots slot hslot hpid (by omega)
  have hlt : k < n := hinv.count ▸ (List.getElem?_eq_some_iff.mp hx).1
  rcases Nat.lt_or_eq_of_le hlt with holder | hnewest
  · rcases (hinv.ranked k x hx).other_pid holder with hreaped' | hne
    · rw [hreaped] at hreaped'
      cases hreaped'
    · exact hne hown
  · obtain rfl : k = j := by omega
    obtain rfl : x = y := Option.some.inj (hx.symm.trans hy)
    rw [hexited] at hrunning
    cases hrunning

theorem WorkerMove.socket {act : Act} (h : WorkerMove true s act t)
    (hinv : SocketInvariant pid own n s) : SocketInvariant pid own n t := by
  have hcommands := h.carries hinv.commands
  cases h with
  | bind k x bound hnext hfree =>
      have hk := hinv.newest_of_concerns hnext rfl
      obtain ⟨⟨command, hcommand, -, htarget⟩, -⟩ := hinv.commands.procs k x hnext.found
      have hbound : bound = pid := (Proc.law hnext.next).1.trans (htarget.symm.trans hcommand)
      exact { hinv with
        commands := hcommands
        count := by simpa [Sys.advance, Sys.setProc] using hinv.count
        ranked := hinv.ranked.modify fun y hy h => by
          obtain rfl : x = y := Option.some.inj (hnext.found.symm.trans hy)
          exact h.advance hnext.next
        killed := fun hcmd => (hinv.killed hcmd).modify fun _ _ h => h
        owned := fun j y _ hj _ => by
          obtain rfl : j = k := by omega
          simp [hbound] }
  | kill k x killed hnext =>
      have hadvance := hinv.advance hnext (by simp) ⟨hcommands.main, hcommands.queue, hcommands.cmd,
        hinv.commands.procs.modify fun _ _ h => h⟩
      exact { hadvance with
        commands := hcommands
        count := by simpa [Sys.kill] using hadvance.count
        ranked := hadvance.ranked.map fun _ _ _ h => h.killed killed
        killed := fun hcmd => (hadvance.killed hcmd).map fun _ _ _ h hk => by
          unfold Proc.killed
          split
          · rfl
          · exact h hk
        owned := owned_killed killed hadvance.owned }
  | unlink k x action unlinked haction hnext =>
      have hk := hinv.newest_of_concerns hnext (by rcases haction with rfl | rfl <;> rfl)
      have hadvance := hinv.advance hnext (by rcases haction with rfl | rfl <;> simp)
        ⟨hcommands.main, hcommands.queue, hcommands.cmd, hcommands.procs⟩
      refine { hadvance with commands := hcommands, owned := fun j y hy hj hown => ?_ }
      obtain rfl : j = k := by omega
      obtain ⟨old, hold, rfl⟩ := getElem?_modify_eq_some hy
      obtain rfl : x = old := Option.some.inj (hnext.found.symm.trans hold)
      rw [if_pos rfl] at hown
      exact absurd hown (Proc.not_ownsName_of_unlink hnext.next haction)
  | read k x received hnext => exact hinv.advance hnext (by simp) hcommands
  | accept k x hnext => exact hinv.advance hnext (by simp) hcommands
  | exit k x code hnext =>
      have hadvance := hinv.advance hnext (by simp) ⟨hcommands.main, hcommands.queue, hcommands.cmd,
        hinv.commands.procs.modify fun _ _ h => h⟩
      exact hadvance.exit k hcommands
  | other k x action hread haccept hbind hnext => exact hinv.advance hnext hbind hcommands
  | dies k x => exact hinv.exit k hcommands
  | reap k x hx hexited hreaped =>
      refine { hinv with
        commands := hcommands
        count := by simpa [Sys.setProc, Sys.unlinkSock] using hinv.count
        ranked := hinv.ranked.modify fun y hy h => ?_
        slots := forall_clearPidOnWorkerExit x.pid hinv.slots
          fun _ _ _ hworker => absurd rfl hworker
        killed := fun hcmd => (hinv.killed hcmd).modify fun _ _ h => h
        owned := fun j y hy hj hown => ?_ }
      · obtain rfl : x = y := Option.some.inj (hx.symm.trans hy)
        exact h.reap hexited
      · obtain ⟨old, hold, rfl⟩ := getElem?_modify_eq_some hy
        have holdown : old.OwnsName := by
          split at hown
          · exact { hown with }
          · exact hown
        have hnot := hinv.not_mem_pidsOfWorker hx hexited hreaped hold hj holdown.running
        change (if _ ∧ pid ∈ pidsOfWorker x.pid s.table then none else s.sock pid) = some j
        rw [if_neg fun h => hnot h.2]
        exact hinv.owned j old hold hj holdown

theorem Move.socket {act : Act} (h : Move true s act t)
    (hguard : forksPastSockets pid s act = true) (hkept : SocketsKept pid s) :
    SocketsKept pid t := by
  obtain ⟨own, n, hinv⟩ := hkept
  cases h with
  | accept cd command t hmove =>
      refine ⟨own, n, hmove.socket ?_ hinv⟩
      rintro received rfl
      simpa [forksPastSockets] using hguard
  | main t hmove => exact ⟨own, n, hmove.socket hinv⟩
  | cmd outcome t hmove =>
      cases hmove with
      | queue hmove => exact ⟨own, n, hmove.socket hinv⟩
      | checkpoint hmove => exact hmove.socket hguard hinv
      | restore hmove => exact ⟨own, n, hmove.socket hinv⟩
  | worker act t hmove => exact ⟨own, n, hmove.socket hinv⟩

theorem socketInvariant_boot : SocketInvariant pid 0 0 (Sys.boot Table.zero) where
  commands := carries_boot Table.zero
  count := rfl
  ranked := indexed_nil
  slots := fun slot hmem _ hworker => by
    obtain ⟨-, rfl⟩ := List.mem_replicate.mp hmem
    exact absurd rfl hworker
  worker := by simp [Sys.boot, CmdPc.worker]
  killed := by simp [Sys.boot, CmdPc.cleansUp]
  owned := indexed_nil

/-- With all commands on one pid, and a worker forked only when every earlier
one is past its use of the socket and no entry of the pid names a worker, a
worker that waits for its restore still has its path. -/
theorem awaited_restoreSocket_kept (pid : Int) (acts : List Act) (t : Sys)
    (hguard : Guarded (step true) (fun s act => forksPastSockets pid s act = true)
      (Sys.boot Table.zero) acts)
    (hrun : run (step true) (Sys.boot Table.zero) acts = some t) (k : Nat) (x : Proc)
    (hx : t.procs[k]? = some x) (hawaits : x.awaitsRestore true = true) :
    t.sock x.target = some k := by
  have hkept : SocketsKept pid t :=
    invariant_of_guarded (fun _ _ _ hkept hguard hstep => (step_move hstep).socket hguard hkept)
      ⟨0, 0, socketInvariant_boot⟩ hguard hrun
  obtain ⟨own, n, hinv⟩ := hkept
  exact hinv.sock_eq hx hawaits

/-- Pid 5 is checkpointed, and restored up to the answer to the client; the
worker has not closed its socket yet. -/
def restoredOnce : List Act :=
  [.accept 4 (some checkpointFive), .main, .main, .main,
    .cmd .done, .cmd (.opens 7), .cmd (.forks 1000 willing), .cmd .done, .worker 0, .worker 0,
    .cmd (.gets .ok), .cmd .done, .cmd .done, .cmd .done, .cmd .done,
    .accept 6 (some restoreFive), .main, .main, .main,
    .cmd .done, .cmd .done, .cmd .done, .cmd (.writes 8),
    .worker 0, .worker 0, .worker 0, .worker 0, .worker 0, .worker 0,
    .cmd (.gets .ok), .cmd .done, .cmd .done, .cmd .done]

def lateCleanup : List Act := [.worker 0, .worker 0]

def checkpointedAgain : List Act :=
  [.accept 8 (some checkpointFive), .main, .main, .main,
    .cmd .done, .cmd (.opens 7), .cmd (.forks 1001 willing), .cmd .done, .worker 1, .worker 1]

theorem restoreSocket_kept_after_cleanup :
    ∃ t x, run (step true) (Sys.boot Table.zero)
        (restoredOnce ++ lateCleanup ++ checkpointedAgain) = some t ∧
      t.procs[1]? = some x ∧ x.awaitsRestore true = true ∧ t.sock x.target = some 1 := by
  refine ⟨_, _, rfl, rfl, by decide, ?_⟩
  exact awaited_restoreSocket_kept 5 (restoredOnce ++ lateCleanup ++ checkpointedAgain) _
    (by decide) rfl 1 _ rfl (by decide)

theorem restoreSocket_removed_by_late_cleanup :
    ∃ t x, run (step true) (Sys.boot Table.zero)
        (restoredOnce ++ checkpointedAgain ++ lateCleanup) = some t ∧
      t.procs[1]? = some x ∧ x.awaitsRestore true = true ∧ t.sock x.target = none := by
  exact ⟨_, _, rfl, rfl, by decide, by decide⟩

end Memcr.ServiceSystem
