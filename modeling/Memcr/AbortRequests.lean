import Memcr.ServiceCommands

namespace Memcr.ServiceSystem

open Memcr.FirstMatch
open Memcr.GuardedRuns
open Memcr.ServiceTable
open Memcr.WorkerProcess

/-- A RESTORE of the pid has been received since its table entry was made. The
CHECKPOINT that made it was received before, and the main thread handles one
command at a time. -/
def requestedSince (pid : Int) : List Event → Bool
  | [] => false
  | .received command :: rest =>
      (command.cmd == memcrRestore && command.pid == pid) || requestedSince pid rest
  | .created other :: rest => other != pid && requestedSince pid rest
  | _ :: rest => requestedSince pid rest

/-- Every abort in the log was asked for by a RESTORE since the CHECKPOINT of the pid
came in. The flag that a RESTORE leaves in a slot is never taken back, so it may pass
from one use of the slot to the next. -/
def AbortsRequested : List Event → Prop
  | [] => True
  | .abortSent _ (some pid) :: rest => requestedSince pid rest = true ∧ AbortsRequested rest
  | _ :: rest => AbortsRequested rest

/-- No client asks for a checkpoint of the pid that marks free slots, and the
slot that a new entry takes has no abort flag left in it. -/
def takesCleanSlots (s : Sys) : Act → Bool
  | .accept _ (some command) => command.cmd != memcrCheckpoint || command.pid != pidInvalid
  | .main =>
      match s.main with
      | .initPid _ =>
          (s.table.find? fun slot => slot.pid == pidInvalid).all fun slot => !slot.checkpointAbort
      | _ => true
  | _ => true

def ongoing (table : Table) : List Slot := table.filter fun slot => slot.state == .checkpointing

/-- The pid whose checkpoint the command thread is waiting for, and the socket
of its worker. -/
def CmdPc.socket : CmdPc → Option (Int × Int)
  | .checkpointing c sd _ _ _ => some (c.pid, sd)
  | _ => none

/-- At most one checkpoint is under way, the one the command thread handles. -/
def Ongoing (cmd : CmdPc) (table : Table) : Prop :=
  ongoing table = [] ∨
    ∃ slot, ongoing table = [slot] ∧ cmd.socket = some (slot.pid, slot.checkpointCmdSd)

/-- The main thread handles a RESTORE that has been received. -/
def MainPc.Requested (log : List Event) : MainPc → Prop
  | .canRestore c | .tryAbort c | .pushRestore c => requestedSince c.pid log = true
  | _ => True

/-- What the log says about the requests that are pending. -/
structure Heard (table : Table) (main : MainPc) (log : List Event) : Prop where
  aborts : AbortsRequested log
  flags : ∀ slot ∈ table, slot.pid ≠ 0 → slot.checkpointAbort = true →
    requestedSince slot.pid log = true
  request : main.Requested log

structure AbortInvariant (s : Sys) : Prop where
  commands : Carries (fun command => command.cmd = memcrCheckpoint → command.pid ≠ 0) s
  admits : s.main.Admits s.table
  ongoing : Ongoing s.cmd s.table
  heard : Heard s.table s.main s.log

variable {dir : Bool} {s t : Sys} {table after : Table} {main : MainPc} {cmd : CmdPc}
  {log : List Event}

theorem Ongoing.of_sublist (h : Ongoing cmd table)
    (hsub : (Memcr.ServiceSystem.ongoing after).Sublist (Memcr.ServiceSystem.ongoing table)) :
    Ongoing cmd after := by
  rcases h with hnil | ⟨slot, hone, hsocket⟩
  · rw [hnil] at hsub
    exact Or.inl (List.sublist_nil.mp hsub)
  · rw [hone] at hsub
    rcases List.sublist_singleton.mp hsub with hnil | hone
    · exact Or.inl hnil
    · exact Or.inr ⟨slot, hone, hsocket⟩

theorem Ongoing.socket_eq (h : Ongoing cmd table) {slot : Slot}
    (hslot : slot ∈ ongoing table) : cmd.socket = some (slot.pid, slot.checkpointCmdSd) := by
  rcases h with hnil | ⟨other, hone, hsocket⟩
  · rw [hnil] at hslot
    cases hslot
  · rw [hone, List.mem_singleton] at hslot
    exact hslot ▸ hsocket

theorem ongoing_init_sublist (pid : Int) :
    (ongoing (initPidCheckpointData pid table)).Sublist (ongoing table) :=
  filter_updateFirst_sublist fun _ _ => rfl

theorem ongoing_clear (pid : Int) :
    ongoing (clearPidCheckpointData pid table) =
      (ongoing table).filter fun slot => !(slot.pid == pid) :=
  filter_map_assign _ _ _ fun _ => rfl

theorem ongoing_clear_sublist (pid : Int) :
    (ongoing (clearPidCheckpointData pid table)).Sublist (ongoing table) := by
  rw [ongoing_clear]
  exact List.filter_sublist

theorem ongoing_clearPidOnWorkerExit_sublist (worker : Int) :
    (ongoing (clearPidOnWorkerExit worker table)).Sublist (ongoing table) := by
  have hfilter : ongoing (clearPidOnWorkerExit worker table) = _ :=
    filter_map_assign table _ _ fun _ => rfl
  rw [hfilter]
  exact List.filter_sublist

theorem ongoing_tryToAbortCheckpoint (pid : Int) :
    ongoing (tryToAbortCheckpoint pid table).table = ongoing table := by
  unfold tryToAbortCheckpoint
  split
  · rfl
  · rename_i slot hfind
    split
    · rename_i hstate
      apply filter_updateFirst_of_not <;> intro found hfound <;>
        obtain rfl : slot = found := Option.some.inj (hfind.symm.trans hfound) <;>
        simp [hstate]
    · rfl
    · rfl

theorem ongoing_setPidCheckpointing (c : Ctx) (sd : Nat) (hnil : ongoing table = []) :
    ongoing (setPidCheckpointing c.pid sd table).table = [] ∨
      ∃ slot, ongoing (setPidCheckpointing c.pid sd table).table = [slot] ∧
        slot.pid = c.pid ∧ slot.checkpointCmdSd = sd := by
  by_cases hsome : ∃ slot ∈ table, (slot.pid == c.pid && slot.state == .restored) = true
  · obtain ⟨slot, -, htest, hfilter⟩ := filter_updateFirst_of_enters
      (fun slot : Slot => slot.pid == c.pid && slot.state == .restored)
      (fun slot => slot.state == .checkpointing)
      (fun slot => { slot with state := .checkpointing, checkpointCmdSd := (sd : Int) })
      (by simp +contextual) (by simp) hnil hsome
    refine Or.inr ⟨_, hfilter, ?_, rfl⟩
    simp_all
  · left
    have hsame : ongoing (setPidCheckpointing c.pid sd table).table = ongoing table := by
      apply filter_updateFirst_of_not <;> intro slot hfind <;>
        have htest := List.find?_some hfind <;>
        exact absurd ⟨slot, List.mem_of_find?_eq_some hfind, htest⟩ hsome
    rw [hsame, hnil]

theorem ongoing_setPidCheckpointed {c : Ctx} {sd : Nat} {worker : Int} {k : Nat}
    {stage : CheckpointStage} (h : Ongoing (.checkpointing c sd worker k stage) table) :
    ongoing (setPidCheckpointed c.pid worker table) = [] := by
  have hfilter : ongoing (setPidCheckpointed c.pid worker table) = (ongoing table).eraseP _ :=
    filter_updateFirst_of_leaves (by simp +contextual) (by simp)
  rw [hfilter]
  rcases h with hnil | ⟨slot, hone, hsocket⟩
  · rw [hnil]
    rfl
  · have hmem : slot ∈ ongoing table := by simp [hone]
    have hstate : slot.state = .checkpointing := by
      simpa [ongoing] using (List.mem_filter.mp hmem).2
    have hpid : slot.pid = c.pid := (Prod.mk.inj (Option.some.inj hsocket)).1.symm
    rw [hone]
    simp [hpid, hstate]

theorem ongoing_clear_own {c : Ctx} {sd : Nat} {worker : Int} {k : Nat}
    {stage : CheckpointStage} (h : Ongoing (.checkpointing c sd worker k stage) table) :
    ongoing (clearPidCheckpointData c.pid table) = [] := by
  rw [ongoing_clear, List.filter_eq_nil_iff]
  intro slot hslot
  have hpid : slot.pid = c.pid :=
    (Prod.mk.inj (Option.some.inj (h.socket_eq hslot))).1.symm
  simp [hpid]

theorem requestedSince_cons {e : Event} {pid : Int} (he : ∀ other, e ≠ .created other)
    (h : requestedSince pid log = true) : requestedSince pid (e :: log) = true := by
  cases e with
  | created other => exact absurd rfl (he other)
  | received command => simp [requestedSince, h]
  | _ => exact h

theorem MainPc.Requested.cons {e : Event} (he : ∀ other, e ≠ .created other)
    (h : main.Requested log) : main.Requested (e :: log) := by
  cases main with
  | canRestore | tryAbort | pushRestore => exact requestedSince_cons he h
  | _ => trivial

theorem AbortsRequested.cons {e : Event} (h : AbortsRequested log)
    (he : ∀ sd pid, e = .abortSent sd (some pid) → requestedSince pid log = true) :
    AbortsRequested (e :: log) := by
  cases e with
  | abortSent sd checkpointed =>
      cases checkpointed with
      | none => exact h
      | some pid => exact ⟨he sd pid rfl, h⟩
  | _ => exact h

theorem Heard.cons {e : Event} (h : Heard table main log) (he : ∀ other, e ≠ .created other)
    (habort : ∀ sd pid, e = .abortSent sd (some pid) → requestedSince pid log = true) :
    Heard table main (e :: log) where
  aborts := h.aborts.cons habort
  flags := fun slot hmem hpid hflag => requestedSince_cons he (h.flags slot hmem hpid hflag)
  request := h.request.cons he

theorem Heard.abortEvents {sent : Option Int} (h : Heard table main log)
    (hsent : ∀ sd pid, sent = some sd → abortEvents cmd sent = [.abortSent sd (some pid)] →
      requestedSince pid log = true) :
    Heard table main (abortEvents cmd sent ++ log) := by
  cases sent with
  | none => exact h
  | some sd =>
      refine h.cons (fun _ => by simp) fun other pid heq => ?_
      obtain rfl : sd = other := (Event.abortSent.inj heq).1
      exact hsent sd pid rfl (congrArg (fun e => [e]) heq)

theorem Heard.clear (h : Heard table main log) (pid : Int) :
    Heard (clearPidCheckpointData pid table) main log :=
  { h with flags := forall_clear pid h.flags fun _ _ hpid => absurd rfl hpid }

theorem AcceptMove.aborts {cd : Nat} {command : Option ServiceCommand}
    (h : AcceptMove cd command s t)
    (hlaw : ∀ received, command = some received →
      received.cmd = memcrCheckpoint → received.pid ≠ 0)
    (hinv : AbortInvariant s) : AbortInvariant t := by
  have hcommands := h.carries hlaw hinv.commands
  have hheard := hinv.heard
  cases h with
  | unread =>
      exact { hinv with
        commands := hcommands
        heard := hheard.cons (fun _ => by simp) (by simp) }
  | restore s command hcmd =>
      have hcons := hheard.cons (e := .received command) (fun _ => by simp) (by simp)
      refine { hinv with
        commands := hcommands, admits := trivial, heard := { hcons with request := ?_ } }
      simp [MainPc.Requested, requestedSince, hcmd]
  | checkpoint s command | unknown s command =>
      have hcons := hheard.cons (e := .received command) (fun _ => by simp) (by simp)
      exact { hinv with
        commands := hcommands, admits := trivial, heard := { hcons with request := trivial } }

/-- A new entry starts without requests: the slot it takes has no flag, and no
other entry has its pid. -/
theorem Heard.init {c : Ctx} (h : Heard table (.initPid c) log)
    (hadmits : ∀ slot ∈ table, slot.pid ≠ c.pid)
    (hclean : (table.find? fun slot => slot.pid == pidInvalid).all
      (fun slot => !slot.checkpointAbort) = true) :
    Heard (initPidCheckpointData c.pid table) (.pushCheckpoint c)
      (if table.any fun slot => slot.pid == pidInvalid then .created c.pid :: log else log) := by
  cases hfree : table.any fun slot => slot.pid == pidInvalid with
  | false =>
      refine { h with flags := forall_init c.pid h.flags fun slot hfind => ?_, request := trivial }
      have hused := List.any_eq_false.mp hfree slot (List.mem_of_find?_eq_some hfind)
      exact absurd (List.find?_some hfind) hused
  | true =>
      refine ⟨h.aborts, forall_init c.pid (fun slot hmem hslot hflag => ?_)
        (fun slot hfind _ hflag => ?_), trivial⟩
      · have hne := hadmits slot hmem
        simpa [requestedSince, hne.symm] using h.flags slot hmem hslot hflag
      · rw [hfind, Option.all_some] at hclean
        simp [show slot.checkpointAbort = true from hflag] at hclean

theorem sent_tryToAbortCheckpoint {pid sd : Int}
    (hsent : (tryToAbortCheckpoint pid table).sent = some sd) :
    ∃ slot ∈ ongoing table, slot.pid = pid ∧ slot.checkpointCmdSd = sd := by
  unfold tryToAbortCheckpoint at hsent
  split at hsent
  · cases hsent
  · rename_i slot hfind
    split at hsent
    · cases hsent
    · rename_i hstate
      have hpid := List.find?_some hfind
      refine ⟨slot, ?_, by simpa using hpid, Option.some.inj hsent⟩
      simp [ongoing, List.mem_of_find?_eq_some hfind, hstate]
    · cases hsent

theorem abortEvents_of_socket {pid sd : Int} (hsocket : cmd.socket = some (pid, sd)) :
    abortEvents cmd (some sd) = [.abortSent sd (some pid)] := by
  cases cmd with
  | checkpointing c own worker k stage =>
      obtain ⟨rfl, rfl⟩ := Prod.mk.inj (Option.some.inj hsocket)
      simp [abortEvents]
  | _ => cases hsocket

theorem MainMove.aborts (h : MainMove s t) (hguard : takesCleanSlots s .main = true)
    (hinv : AbortInvariant s) : AbortInvariant t := by
  have hcommands := h.carries hinv.commands
  have hadmits := h.admits
  have hheard := hinv.heard
  cases h with
  | initPid s c hlock =>
      have hpid : c.pid ≠ 0 := hinv.commands.main.1 hinv.commands.main.2
      exact {
        commands := hcommands
        admits := hadmits
        ongoing := hinv.ongoing.of_sublist (ongoing_init_sublist c.pid)
        heard := hheard.init (hinv.admits hpid) hguard }
  | clearRefused s c =>
      exact {
        commands := hcommands
        admits := hadmits
        ongoing := hinv.ongoing.of_sublist (ongoing_clear_sublist c.pid)
        heard := { hheard.clear c.pid with request := trivial } }
  | tryAbort s c =>
      have hrequest : requestedSince c.pid s.log = true := hheard.request
      have hflags : Heard (tryToAbortCheckpoint c.pid s.table).table (.pushRestore c) s.log :=
        { hheard with
          flags := forall_tryToAbortCheckpoint c.pid hheard.flags
            fun slot _ hslot _ _ => hslot ▸ hrequest }
      refine {
        commands := hcommands
        admits := hadmits
        ongoing := ?_
        heard := hflags.abortEvents fun sd pid hsent hevents => ?_ }
      · change Ongoing s.cmd (tryToAbortCheckpoint c.pid s.table).table
        rw [Ongoing, ongoing_tryToAbortCheckpoint]
        exact hinv.ongoing
      · obtain ⟨slot, hslot, hpid, rfl⟩ := sent_tryToAbortCheckpoint hsent
        have hsocket := hinv.ongoing.socket_eq hslot
        rw [hsent, abortEvents_of_socket hsocket, hpid] at hevents
        obtain rfl : c.pid = pid := by simpa using hevents
        exact hrequest
  | respond | close =>
      exact { hinv with
        commands := hcommands
        admits := hadmits
        heard := { hheard.cons (fun _ => by simp) (by simp) with request := trivial } }
  | mayRestore =>
      exact { hinv with
        commands := hcommands
        admits := hadmits
        heard := { hheard with request := hheard.request } }
  | _ =>
      exact { hinv with
        commands := hcommands, admits := hadmits, heard := { hheard with request := trivial } }

theorem sent_setPidCheckpointing {pid cmdSd sd : Int}
    (hsent : (setPidCheckpointing pid cmdSd table).sent = some sd) :
    cmdSd = sd ∧ ∃ slot ∈ table, slot.pid = pid ∧ slot.checkpointAbort = true := by
  simp only [setPidCheckpointing] at hsent
  split at hsent
  · rename_i hany
    cases hfind : table.find? fun slot => slot.pid == pid && slot.state == .restored with
    | none => simp [hfind] at hany
    | some slot =>
        have htest := List.find?_some hfind
        rw [hfind] at hany
        exact ⟨Option.some.inj hsent, slot, List.mem_of_find?_eq_some hfind, by simp_all, hany⟩
  · cases hsent

theorem Ongoing.dispatch (h : Ongoing .waiting table) (c : Ctx) : Ongoing (dispatch c) table := by
  rcases h with hnil | ⟨slot, -, hsocket⟩
  · exact Or.inl hnil
  · cases hsocket

theorem Ongoing.eq_nil (h : Ongoing cmd table) (hcmd : cmd.socket = none) :
    ongoing table = [] := by
  rcases h with hnil | ⟨slot, -, hsocket⟩
  · exact hnil
  · rw [hcmd] at hsocket
    cases hsocket

theorem QueueMove.aborts (h : QueueMove s t) (hinv : AbortInvariant s) : AbortInvariant t := by
  have hcommands := h.carries hinv.commands
  have hheard := hinv.heard
  cases h with
  | pop s c rest =>
      exact { hinv with commands := hcommands, ongoing := hinv.ongoing.dispatch c }
  | closeSd => exact { hinv with commands := hcommands, ongoing := hinv.ongoing }
  | _ =>
      exact { hinv with
        commands := hcommands
        ongoing := hinv.ongoing
        heard := hheard.cons (fun _ => by simp) (by simp) }

theorem CheckpointMove.aborts (h : CheckpointMove dir s t) (hinv : AbortInvariant s) :
    AbortInvariant t := by
  have hcommands := h.carries hinv.commands
  have hadmits := (CmdMove.checkpoint h).admits hinv.admits
  have hheard := hinv.heard
  cases h with
  | clearNoFork s c =>
      exact {
        commands := hcommands
        admits := hadmits
        ongoing := Ongoing.of_sublist hinv.ongoing (ongoing_clear_sublist c.pid)
        heard := hheard.clear c.pid }
  | setCheckpointing s c sd worker k =>
      have hpid : c.pid ≠ 0 := hinv.commands.cmd.1 hinv.commands.cmd.2
      have hflags : Heard (setPidCheckpointing c.pid sd s.table).table s.main s.log :=
        { hheard with
          flags := forall_setPidCheckpointing c.pid sd hheard.flags
            fun slot hmem _ _ => hheard.flags slot hmem }
      refine {
        commands := hcommands
        admits := hadmits
        ongoing := ?_
        heard := hflags.abortEvents fun other pid hsent hevents => ?_ }
      · rcases ongoing_setPidCheckpointing c sd (hinv.ongoing.eq_nil rfl) with
          hnil | ⟨slot, hone, hslot, hsd⟩
        · exact Or.inl hnil
        · exact Or.inr ⟨slot, hone, by rw [hslot, hsd]; rfl⟩
      · -- the abort answers the flag of the slot that the entry is in
        obtain ⟨rfl, slot, hmem, hslot, hflag⟩ := sent_setPidCheckpointing hsent
        rw [hsent, abortEvents_of_socket rfl] at hevents
        obtain rfl : c.pid = pid := by simpa using hevents
        exact hslot ▸ hheard.flags slot hmem (hslot ▸ hpid) hflag
  | killTarget | killWorker | respond =>
      exact { hinv with
        commands := hcommands
        admits := hadmits
        ongoing := hinv.ongoing
        heard := hheard.cons (fun _ => by simp) (by simp) }
  | setCheckpointed s c sd worker k =>
      exact {
        commands := hcommands
        admits := hadmits
        ongoing := Or.inl (ongoing_setPidCheckpointed hinv.ongoing)
        heard := { hheard with
          flags := forall_setPidCheckpointed c.pid worker hheard.flags
            fun slot hmem _ _ => hheard.flags slot hmem } }
  | clearFailed s c =>
      exact {
        commands := hcommands
        admits := hadmits
        ongoing := Or.inl (ongoing_clear_own hinv.ongoing)
        heard := hheard.clear c.pid }
  | _ => exact { hinv with commands := hcommands, admits := hadmits, ongoing := hinv.ongoing }

theorem RestoreMove.aborts (h : RestoreMove dir s t) (hinv : AbortInvariant s) :
    AbortInvariant t := by
  have hcommands := h.carries hinv.commands
  have hadmits := (CmdMove.restore h).admits hinv.admits
  have hheard := hinv.heard
  cases h with
  | killTarget | killWorker | respond =>
      exact { hinv with
        commands := hcommands
        ongoing := hinv.ongoing
        heard := hheard.cons (fun _ => by simp) (by simp) }
  | clear s c =>
      exact {
        commands := hcommands
        admits := hadmits
        ongoing := Ongoing.of_sublist hinv.ongoing (ongoing_clear_sublist c.pid)
        heard := hheard.clear c.pid }
  | _ => exact { hinv with commands := hcommands, ongoing := hinv.ongoing }

theorem WorkerMove.aborts {act : Act} (h : WorkerMove dir s act t) (hinv : AbortInvariant s) :
    AbortInvariant t := by
  have hcommands := h.carries hinv.commands
  have hadmits := h.admits hinv.admits
  have hheard := hinv.heard
  cases h with
  | kill =>
      exact { hinv with
        commands := hcommands
        heard := hheard.cons (fun _ => by simp) (by simp) }
  | reap k x =>
      exact {
        commands := hcommands
        admits := hadmits
        ongoing := hinv.ongoing.of_sublist (ongoing_clearPidOnWorkerExit_sublist x.pid)
        heard := { hheard with
          flags := forall_clearPidOnWorkerExit x.pid hheard.flags
            fun _ _ hpid => absurd rfl hpid } }
  | _ => exact { hinv with commands := hcommands }

theorem Move.aborts {act : Act} (h : Move dir s act t) (hguard : takesCleanSlots s act = true)
    (hinv : AbortInvariant s) : AbortInvariant t := by
  cases h with
  | accept cd command t hmove =>
      refine hmove.aborts ?_ hinv
      rintro received rfl hcmd
      simpa [takesCleanSlots, hcmd, pidInvalid] using hguard
  | main t hmove => exact hmove.aborts hguard hinv
  | cmd outcome t hmove =>
      cases hmove with
      | queue hmove => exact hmove.aborts hinv
      | checkpoint hmove => exact hmove.aborts hinv
      | restore hmove => exact hmove.aborts hinv
  | worker act t hmove => exact hmove.aborts hinv

theorem abortInvariant_boot : AbortInvariant (Sys.boot Table.zero) where
  commands := carries_boot Table.zero
  admits := trivial
  ongoing := Or.inl rfl
  heard :=
    { aborts := trivial
      flags := by decide
      request := trivial }

/-- When no checkpoint names pid 0 and every new entry takes a slot without an
abort flag, a checkpoint is aborted only on request. -/
theorem every_abort_requested (dir : Bool) (acts : List Act) (t : Sys)
    (hguard : Guarded (step dir) (fun s act => takesCleanSlots s act = true)
      (Sys.boot Table.zero) acts)
    (hrun : run (step dir) (Sys.boot Table.zero) acts = some t) :
    AbortsRequested t.log := by
  have hinv : AbortInvariant t :=
    invariant_of_guarded (fun _ _ _ hinv hguard hstep => (step_move hstep).aborts hguard hinv)
      abortInvariant_boot hguard hrun
  exact hinv.heard.aborts

/-- A RESTORE of pid 5 comes right behind its CHECKPOINT, and the checkpoint is
aborted. -/
def abortedCheckpoint : List Act :=
  [.accept 4 (some checkpointFive), .main, .main, .main,
    .accept 6 (some restoreFive), .main, .main, .main,
    .cmd .done, .cmd (.opens 7), .cmd (.forks 1000 willing), .cmd .done]

/-- The restore of pid 5 then runs to its end, and a client asks for a
checkpoint of pid 6. -/
def nextCheckpoint : List Act :=
  [.worker 0, .worker 0, .cmd (.gets .ok), .cmd .done, .cmd .done, .cmd .done, .cmd .done,
    .cmd .done, .cmd .done, .cmd .done, .cmd (.writes 8),
    .worker 0, .worker 0, .worker 0, .worker 0, .worker 0, .worker 0,
    .cmd (.gets .ok), .cmd .done, .cmd .done, .cmd .done,
    .accept 8 (some checkpointSix), .main, .main, .main,
    .cmd .done, .cmd (.opens 9), .cmd (.forks 1001 willing), .cmd .done]

theorem abortedCheckpoint_requested :
    ∃ t, run (step false) (Sys.boot Table.zero) abortedCheckpoint = some t ∧
      .abortSent 7 (some 5) ∈ t.log ∧ AbortsRequested t.log := by
  refine ⟨_, rfl, by decide, ?_⟩
  exact every_abort_requested false abortedCheckpoint _ (by decide) rfl

theorem nextCheckpoint_aborted_unasked :
    ∃ t, run (step false) (Sys.boot Table.zero) (abortedCheckpoint ++ nextCheckpoint) = some t ∧
      .abortSent 9 (some 6) ∈ t.log ∧ ¬ AbortsRequested t.log := by
  refine ⟨_, rfl, by decide, ?_⟩
  intro h
  exact absurd h.1 (by decide)

end Memcr.ServiceSystem
