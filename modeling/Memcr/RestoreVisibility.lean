import Memcr.PendingEntries
import Memcr.RestorableEntries
import Memcr.TableShape

namespace Memcr.ServiceSystem

open Memcr.FirstMatch
open Memcr.GuardedRuns
open Memcr.ServiceTable
open Memcr.WorkerProcess

/-- The command that the main thread handles, as long as nobody has answered
it. -/
def MainPc.unanswered : MainPc → Option Ctx
  | .idle | .close _ => none
  | .canCheckpoint c | .initPid c | .pushCheckpoint c | .clearRefused c => some c
  | .canRestore c | .tryAbort c | .pushRestore c | .respond c _ => some c

/-- The command that the command thread has at hand and has not answered. -/
def CmdPc.unanswered : CmdPc → Option Ctx
  | .waiting => none
  | .stopped c | .starting c _ | .getWorker c => some c
  | .checkpointing _ _ _ _ (.finish _) => none
  | .checkpointing c _ _ _ _ => some c
  | .restoring _ _ .clear => none
  | .restoring c _ _ => some c
  | .ending c .respondNoWorker => some c
  | .ending _ _ => none

/-- A command for the pid has been read and not been answered. -/
def Sys.outstanding (s : Sys) (pid : Int) : Bool :=
  (s.main.unanswered.any fun c => c.pid == pid) || (s.queue.any fun c => c.pid == pid) ||
    s.cmd.unanswered.any fun c => c.pid == pid

/-- The step sends the answer to a RESTORE of the pid. -/
def Sys.answersRestore (s : Sys) (pid : Int) : Act → Bool
  | .main =>
      match s.main with
      | .respond c _ => c.svcCmd.cmd == memcrRestore && c.pid == pid
      | _ => false
  | .cmd _ =>
      match s.cmd with
      | .restoring c _ (.respond _) => c.pid == pid
      | .ending c .respondNoWorker => c.pid == pid
      | _ => false
  | _ => false

/-- A command for the pid is read. -/
def Act.reads (pid : Int) : Act → Bool
  | .accept _ (some command) => command.pid == pid
  | _ => false

/-- The command thread has answered a RESTORE of the pid and is about to clear
its entry. -/
def CmdPc.clears (pid : Int) : CmdPc → Bool
  | .restoring c _ .clear => c.pid == pid
  | _ => false

/-- The queue has room for a RESTORE of the pid, and the main thread does not test
the entry of the pid between the answer to a RESTORE and the clearing. -/
def testsCleared (pid : Int) (s : Sys) : Act → Bool
  | .main =>
      match s.main with
      | .canCheckpoint c => c.pid != pid || !s.cmd.clears pid
      | .pushRestore c => c.pid != pid || decide (s.queue.length < maxClientConnections)
      | _ => true
  | _ => true

section Law

/-- The command thread has taken a CHECKPOINT of the pid and has not turned to its
entry. -/
def CmdPc.starts (pid : Int) : CmdPc → Bool
  | .starting c _ | .stopped c => c.pid == pid
  | _ => false

/-- The command thread is at a checkpoint of the pid. -/
def CmdPc.checkpoints (pid : Int) : CmdPc → Bool
  | .checkpointing c _ _ _ _ => c.pid == pid
  | _ => false

/-- The command thread has found no worker for a RESTORE of the pid. -/
def CmdPc.misses (pid : Int) : CmdPc → Bool
  | .ending c .respondNoWorker => c.pid == pid
  | _ => false

/-- A CHECKPOINT of the pid has been admitted, and the command thread has not
turned to its entry. -/
def Awaits (pid : Int) (main : MainPc) (queue : List Ctx) (cmd : CmdPc) : Prop :=
  main.pending pid ≠ 0 ∨ queued pid queue ≠ 0 ∨ cmd.starts pid = true

/-- Why an entry of the pid is in its state. -/
def EntryLaw (pid : Int) (main : MainPc) (queue : List Ctx) (cmd : CmdPc) (slot : Slot) : Prop :=
  slot.pid = pid →
    match slot.state with
    | .restored => Awaits pid main queue cmd
    | .checkpointing => cmd.checkpoints pid = true
    | .checkpointed => 0 < slot.worker ∧ cmd.misses pid = false

/-- A RESTORE of the pid that the main thread refuses has no entry. -/
def MainPc.Refuses (pid : Int) (table : Table) : MainPc → Prop
  | .respond c _ => c.svcCmd.cmd = memcrRestore → c.pid = pid → ∀ slot ∈ table, slot.pid ≠ pid
  | _ => True

end Law

/-- The entry of a pid is there as long as a command for it is under way, and is cleared
only behind the answer to a RESTORE. -/
structure EntryInvariant (pid : Int) (s : Sys) : Prop where
  commands : Carries (fun _ => True) s
  admits : s.main.Admits s.table
  unique : UniqueEntries s.table
  worker : ∀ c worker k, s.cmd.current = some (c, worker, k) → 0 < worker
  entries : ∀ slot ∈ s.table, EntryLaw pid s.main s.queue s.cmd slot
  refuses : s.main.Refuses pid s.table

variable {dir : Bool} {s t : Sys} {pid : Int} {table : Table} {main main' : MainPc}
  {queue queue' : List Ctx} {cmd cmd' : CmdPc}

theorem EntryLaw.mono {slot : Slot} (h : EntryLaw pid main queue cmd slot)
    (hawaits : Awaits pid main queue cmd → Awaits pid main' queue' cmd')
    (hcheckpoints : cmd.checkpoints pid = true → cmd'.checkpoints pid = true)
    (hmisses : cmd.misses pid = false → cmd'.misses pid = false) :
    EntryLaw pid main' queue' cmd' slot := by
  intro hslot
  have hold := h hslot
  cases hstate : slot.state with
  | restored =>
      rw [hstate] at hold
      exact hawaits hold
  | checkpointing =>
      rw [hstate] at hold
      exact hcheckpoints hold
  | checkpointed =>
      rw [hstate] at hold
      exact ⟨hold.1, hmisses hold.2⟩

theorem entryLaw_of_ne {slot : Slot} (h : slot.pid ≠ pid) : EntryLaw pid main queue cmd slot :=
  fun hslot => absurd hslot h

theorem entryLaw_assign (hpid : pid ≠ 0) (slot : Slot) :
    EntryLaw pid main queue cmd (slot.assign pidInvalid) :=
  entryLaw_of_ne hpid.symm

theorem entryLaw_clear (hpid : pid ≠ 0) {other : Int}
    (hkeep : other ≠ pid → ∀ slot ∈ table, EntryLaw pid main queue cmd slot) :
    ∀ slot ∈ clearPidCheckpointData other table, EntryLaw pid main queue cmd slot := by
  refine forall_clear_of_ne other (fun slot hmem hne => ?_) fun slot _ => entryLaw_assign hpid slot
  rcases eq_or_ne other pid with rfl | hother
  · exact entryLaw_of_ne hne
  · exact hkeep hother slot hmem

theorem queued_append (h : queued pid queue ≠ 0) (c : Ctx) : queued pid (queue ++ [c]) ≠ 0 := by
  simp only [queued, List.countP_append] at h ⊢
  omega

theorem Awaits.of_not_pending (h : Awaits pid main queue cmd) (hmain : main.pending pid = 0) :
    Awaits pid main' queue cmd := by
  rcases h with hpending | hawaits
  · exact absurd hmain hpending
  · exact Or.inr hawaits

theorem Awaits.push {c : Ctx} (h : Awaits pid main queue cmd)
    (hmain : main.pending pid ≠ 0 → queued pid (queue ++ [c]) ≠ 0) :
    Awaits pid main' (queue ++ [c]) cmd := by
  rcases h with hpending | hqueued | hcmd
  · exact Or.inr (Or.inl (hmain hpending))
  · exact Or.inr (Or.inl (queued_append hqueued c))
  · exact Or.inr (Or.inr hcmd)

theorem setPidCheckpointing_not_restored (hunique : (entries table pid).length ≤ 1) {cmdSd : Int}
    {slot : Slot} (hmem : slot ∈ (setPidCheckpointing pid cmdSd table).table)
    (hslot : slot.pid = pid) : slot.state ≠ .restored := by
  have htest := not_test_of_mem_updateFirst (by simp +contextual) (by simp +contextual) (by simp)
    hunique hmem (by simpa using hslot)
  simpa [hslot] using htest

theorem setPidCheckpointed_not_checkpointing (hunique : (entries table pid).length ≤ 1)
    {worker : Int} {slot : Slot} (hmem : slot ∈ setPidCheckpointed pid worker table)
    (hslot : slot.pid = pid) : slot.state ≠ .checkpointing := by
  have htest := not_test_of_mem_updateFirst (by simp +contextual) (by simp +contextual) (by simp)
    hunique hmem (by simpa using hslot)
  simpa [hslot] using htest

theorem MainPc.Refuses.of_table {after : Table} (h : main.Refuses pid table)
    (hafter : (∀ slot ∈ table, slot.pid ≠ pid) → ∀ slot ∈ after, slot.pid ≠ pid) :
    main.Refuses pid after := by
  cases main with
  | respond c code => exact fun hcmd hc => hafter (h hcmd hc)
  | _ => trivial

theorem AcceptMove.entryInvariant {cd : Nat} {command : Option ServiceCommand}
    (h : AcceptMove cd command s t) (hinv : EntryInvariant pid s) : EntryInvariant pid t := by
  have hcommands := h.carries (fun _ _ => trivial) hinv.commands
  have hentries := hinv.entries
  cases h with
  | unknown s command hcheckpoint hrestore =>
      exact { hinv with
        commands := hcommands
        admits := trivial
        entries := hentries
        refuses := fun hcmd => absurd hcmd hrestore }
  | _ =>
      exact { hinv with
        commands := hcommands, admits := trivial, entries := hentries, refuses := trivial }

theorem checkpoint_ne_restore : memcrCheckpoint ≠ memcrRestore := by decide

theorem MainMove.entryInvariant (h : MainMove s t) (hpid : pid ≠ 0)
    (hguard : testsCleared pid s .main = true) (hinv : EntryInvariant pid s) :
    EntryInvariant pid t := by
  have hcommands := h.carries hinv.commands
  have hadmits := h.admits
  have hentries := hinv.entries
  have hmain := hinv.commands.main
  cases h with
  | mayCheckpoint | mayRestore =>
      exact { hinv with
        commands := hcommands, admits := hadmits, entries := hentries, refuses := trivial }
  | refuseCheckpoint s c =>
      exact { hinv with
        commands := hcommands
        admits := hadmits
        entries := hentries
        refuses := fun hcmd => absurd (hmain.2.symm.trans hcmd) checkpoint_ne_restore }
  | initPid s c =>
      refine { hinv with
        commands := hcommands
        admits := hadmits
        unique := hinv.unique.init hinv.admits
        entries := forall_init c.pid (fun slot hmem => ?_) fun slot _ hslot => ?_
        refuses := trivial }
      · exact (hentries slot hmem).mono (fun hawaits => hawaits.of_not_pending rfl) id id
      · exact Or.inl (by simpa [MainPc.pending, Slot.assign] using hslot)
  | pushCheckpoint s c =>
      refine { hinv with
        commands := hcommands
        admits := hadmits
        entries := fun slot hmem =>
          (hentries slot hmem).mono (fun hawaits => hawaits.push fun hpending => ?_) id id
        refuses := trivial }
      have heq : c.pid = pid := by simpa [MainPc.pending] using hpending
      simp [queued, hmain.2, heq]
  | checkpointQueueFull s c =>
      exact { hinv with
        commands := hcommands, admits := hadmits, entries := hentries, refuses := trivial }
  | clearRefused s c =>
      refine { hinv with
        commands := hcommands
        admits := hadmits
        unique := hinv.unique.clear c.pid
        entries := entryLaw_clear hpid fun hne slot hmem => ?_
        refuses := fun hcmd => absurd (hmain.2.symm.trans hcmd) checkpoint_ne_restore }
      exact (hentries slot hmem).mono (fun hawaits => hawaits.of_not_pending (if_neg hne)) id id
  | refuseRestore s c hlock hfree =>
      refine { hinv with
        commands := hcommands, admits := hadmits, entries := hentries, refuses := ?_ }
      rintro - rfl slot hmem hslot
      have hany := List.any_eq_false.mp hfree slot hmem
      exact hany (by simpa using hslot)
  | tryAbort s c =>
      exact { hinv with
        commands := hcommands
        admits := hadmits
        unique := hinv.unique.tryToAbortCheckpoint c.pid
        entries := forall_tryToAbortCheckpoint c.pid hentries fun slot hmem _ => hentries slot hmem
        refuses := trivial }
  | pushRestore s c =>
      exact { hinv with
        commands := hcommands
        admits := hadmits
        entries := fun slot hmem =>
          (hentries slot hmem).mono (fun hawaits => hawaits.push fun hpending =>
            absurd rfl hpending) id id
        refuses := trivial }
  | restoreQueueFull s c hfull =>
      refine { hinv with
        commands := hcommands, admits := hadmits, entries := hentries, refuses := ?_ }
      rintro - rfl
      simp [testsCleared, hfull] at hguard
  | respond | close =>
      exact { hinv with
        commands := hcommands, admits := hadmits, entries := hentries, refuses := trivial }

theorem EntryLaw.of_cmd {slot : Slot} (h : EntryLaw pid main queue cmd slot)
    (hstarts : cmd.starts pid = true → cmd'.starts pid = true)
    (hcheckpoints : cmd.checkpoints pid = true → cmd'.checkpoints pid = true)
    (hmisses : cmd.misses pid = false → cmd'.misses pid = false) :
    EntryLaw pid main queue cmd' slot :=
  h.mono (Or.imp_right (Or.imp_right hstarts)) hcheckpoints hmisses

theorem dispatch_entryLaw {c : Ctx} {rest : List Ctx} {slot : Slot}
    (h : EntryLaw pid main (c :: rest) .waiting slot) :
    EntryLaw pid main rest (dispatch c) slot := by
  refine h.mono (fun hawaits => ?_) (by simp [CmdPc.checkpoints]) fun _ => ?_
  · rcases hawaits with hmain | hqueued | hcmd
    · exact Or.inl hmain
    · by_cases hc : c.svcCmd.cmd = memcrCheckpoint ∧ c.pid = pid
      · refine Or.inr (Or.inr ?_)
        rw [dispatch, if_pos hc.1]
        simpa [CmdPc.starts] using hc.2
      · refine Or.inr (Or.inl ?_)
        simpa [queued, hc] using hqueued
    · cases hcmd
  · rcases dispatch_cases c with ⟨-, h⟩ | ⟨-, h | h⟩ <;> rw [h] <;> rfl

theorem QueueMove.entryInvariant (h : QueueMove s t) (hinv : EntryInvariant pid s) :
    EntryInvariant pid t := by
  have hcommands := h.carries hinv.commands
  have hentries := hinv.entries
  cases h with
  | pop s c rest =>
      exact { hinv with
        commands := hcommands
        worker := by simp [dispatch_current]
        entries := fun slot hmem => dispatch_entryLaw (hentries slot hmem) }
  | _ =>
      exact { hinv with
        commands := hcommands
        worker := by simp [CmdPc.current]
        entries := fun slot hmem => (hentries slot hmem).of_cmd id id fun _ => rfl }

theorem entryLaw_setPidCheckpointing {c : Ctx} {sd k : Nat} {worker : Int} (hpid : pid ≠ 0)
    (hunique : UniqueEntries table)
    (h : ∀ slot ∈ table,
      EntryLaw pid main queue (.starting c (.setCheckpointing sd worker k)) slot) :
    ∀ slot ∈ (setPidCheckpointing c.pid sd table).table,
      EntryLaw pid main queue (.checkpointing c sd worker k .readResponse) slot := by
  by_cases heq : c.pid = pid
  · subst heq
    intro slot hmem hslot
    have hbefore : ∀ slot ∈ table,
        slot.pid = c.pid → slot.state = .checkpointed → 0 < slot.worker := by
      intro slot hmem hslot hstate
      have hlaw := h slot hmem hslot
      rw [hstate] at hlaw
      exact hlaw.1
    have hworker := forall_setPidCheckpointing c.pid sd hbefore (by simp) slot hmem
    cases hstate : slot.state with
    | restored => exact absurd hstate (setPidCheckpointing_not_restored (hunique _ hpid) hmem hslot)
    | checkpointing => exact beq_self_eq_true _
    | checkpointed => exact ⟨hworker hslot hstate, rfl⟩
  · exact forall_setPidCheckpointing c.pid sd
      (fun slot hmem => (h slot hmem).of_cmd (by simp [CmdPc.starts, heq])
        (by simp [CmdPc.checkpoints]) fun _ => rfl)
      fun slot _ hslot _ => entryLaw_of_ne (by rwa [hslot])

theorem entryLaw_setPidCheckpointed {c : Ctx} {sd k : Nat} {worker : Int} (hpid : pid ≠ 0)
    (hunique : UniqueEntries table) (hworker : 0 < worker)
    (h : ∀ slot ∈ table,
      EntryLaw pid main queue (.checkpointing c sd worker k (.finish .ok)) slot) :
    ∀ slot ∈ setPidCheckpointed c.pid worker table,
      EntryLaw pid main queue (.ending c (.closeSd sd)) slot := by
  by_cases heq : c.pid = pid
  · subst heq
    intro slot hmem hslot
    have hbefore : ∀ slot ∈ table, slot.pid = c.pid → slot.state ≠ .checkpointing →
        EntryLaw c.pid main queue (.ending c (.closeSd sd)) slot := by
      intro slot hmem hslot hstate hentry
      have hlaw := h slot hmem hentry
      cases hkept : slot.state with
      | restored =>
          rw [hkept] at hlaw
          exact hlaw
      | checkpointing => exact absurd hkept hstate
      | checkpointed =>
          rw [hkept] at hlaw
          exact ⟨hlaw.1, rfl⟩
    have hlaw := forall_setPidCheckpointed c.pid worker hbefore
      (fun slot _ _ _ _ _ _ => ⟨hworker, rfl⟩) slot hmem
    exact hlaw hslot (setPidCheckpointed_not_checkpointing (hunique _ hpid) hmem hslot) hslot
  · exact forall_setPidCheckpointed c.pid worker
      (fun slot hmem => (h slot hmem).of_cmd id (by simp [CmdPc.checkpoints, heq]) fun _ => rfl)
      fun slot _ hslot _ => entryLaw_of_ne (by rwa [hslot])

theorem CheckpointMove.entryInvariant (h : CheckpointMove dir s t) (hpid : pid ≠ 0)
    (hinv : EntryInvariant pid s) : EntryInvariant pid t := by
  have hcommands := h.carries hinv.commands
  have hadmits := (CmdMove.checkpoint h).admits hinv.admits
  have hrefuses : t.main.Refuses pid t.table :=
    (CmdMove.checkpoint h).main_eq ▸ hinv.refuses.of_table (h.no_entry hpid)
  have hentries := hinv.entries
  cases h with
  | openSockets | noSockets | forkFails =>
      exact { hinv with
        commands := hcommands
        worker := by simp [CmdPc.current]
        entries := hentries }
  | fork s c sd worker env hfresh =>
      refine { hinv with commands := hcommands, worker := ?_, entries := hentries }
      intro c' worker' k hcurrent
      obtain ⟨-, rfl, -⟩ : c = c' ∧ worker = worker' ∧ s.procs.length = k := by
        simpa [CmdPc.current] using hcurrent
      exact (Sys.freshPid_iff.mp hfresh).1
  | clearNoFork s c =>
      refine { hinv with
        commands := hcommands
        admits := hadmits
        unique := hinv.unique.clear c.pid
        worker := by simp [CmdPc.current]
        entries := entryLaw_clear hpid fun hne slot hmem => ?_
        refuses := hrefuses }
      exact (hentries slot hmem).of_cmd (by simp [CmdPc.starts, hne]) id id
  | setCheckpointing s c sd worker k =>
      exact { hinv with
        commands := hcommands
        admits := hadmits
        unique := hinv.unique.updateFirst fun _ => rfl
        worker := hinv.worker
        entries := entryLaw_setPidCheckpointing hpid hinv.unique hentries
        refuses := hrefuses }
  | setCheckpointed s c sd worker k =>
      exact { hinv with
        commands := hcommands
        admits := hadmits
        unique := hinv.unique.updateFirst fun _ => rfl
        worker := by simp [CmdPc.current]
        entries :=
          entryLaw_setPidCheckpointed hpid hinv.unique (hinv.worker c worker k rfl) hentries
        refuses := hrefuses }
  | clearFailed s c =>
      refine { hinv with
        commands := hcommands
        admits := hadmits
        unique := hinv.unique.clear c.pid
        worker := by simp [CmdPc.current]
        entries := entryLaw_clear hpid fun hne slot hmem => ?_
        refuses := hrefuses }
      exact (hentries slot hmem).of_cmd id (by simp [CmdPc.checkpoints, hne]) id
  | _ =>
      exact { hinv with
        commands := hcommands, worker := hinv.worker, entries := hentries }

theorem RestoreMove.entryInvariant (h : RestoreMove dir s t) (hpid : pid ≠ 0)
    (hinv : EntryInvariant pid s) : EntryInvariant pid t := by
  have hcommands := h.carries hinv.commands
  have hadmits := (CmdMove.restore h).admits hinv.admits
  have hrefuses : t.main.Refuses pid t.table :=
    (CmdMove.restore h).main_eq ▸ hinv.refuses.of_table (h.no_entry hpid)
  have hentries := hinv.entries
  cases h with
  | noWorker s c hlock hworker =>
      refine { hinv with
        commands := hcommands
        worker := by simp [CmdPc.current]
        entries := fun slot hmem hslot => ?_ }
      have hlaw := hentries slot hmem hslot
      cases hstate : slot.state with
      | restored =>
          rw [hstate] at hlaw
          exact hlaw
      | checkpointing =>
          rw [hstate] at hlaw
          exact hlaw
      | checkpointed =>
          rw [hstate] at hlaw
          refine ⟨hlaw.1, beq_eq_false_iff_ne.mpr ?_⟩
          -- the only entry of the pid names a worker, so the worker was found
          rintro rfl
          have hone := hinv.unique c.pid hpid
          have hentry : slot ∈ Memcr.ServiceTable.entries s.table c.pid :=
            mem_entries.mpr ⟨hmem, hslot⟩
          obtain ⟨only, hentries⟩ := List.length_eq_one_iff.mp
            (le_antisymm hone (List.length_pos_of_mem hentry))
          obtain rfl : slot = only := by simpa [hentries] using hentry
          rw [getPidWorker_eq, hentries] at hworker
          exact hlaw.1.ne' hworker
  | clear s c =>
      refine { hinv with
        commands := hcommands
        admits := hadmits
        unique := hinv.unique.clear c.pid
        worker := by simp [CmdPc.current]
        entries := entryLaw_clear hpid fun _ slot hmem => ?_
        refuses := hrefuses }
      exact (hentries slot hmem).of_cmd id id fun _ => rfl
  | _ =>
      exact { hinv with
        commands := hcommands, worker := by simp [CmdPc.current], entries := hentries }

theorem WorkerMove.entryInvariant {act : Act} (h : WorkerMove dir s act t) (hpid : pid ≠ 0)
    (hinv : EntryInvariant pid s) : EntryInvariant pid t := by
  have hcommands := h.carries hinv.commands
  have hadmits := h.admits hinv.admits
  have hrefuses : t.main.Refuses pid t.table :=
    h.main_eq ▸ hinv.refuses.of_table (h.no_entry hpid)
  cases h with
  | reap k x =>
      exact { hinv with
        commands := hcommands
        admits := hadmits
        unique := hinv.unique.clearPidOnWorkerExit x.pid
        entries := forall_clearPidOnWorkerExit x.pid hinv.entries
          fun slot _ => entryLaw_assign hpid slot
        refuses := hrefuses }
  | _ => exact { hinv with commands := hcommands }

theorem step_entryInvariant {act : Act} (hpid : pid ≠ 0) (hinv : EntryInvariant pid s)
    (hguard : testsCleared pid s act = true) (hstep : step dir s act = some t) :
    EntryInvariant pid t := by
  cases step_move hstep with
  | accept cd command t h => exact h.entryInvariant hinv
  | main t h => exact h.entryInvariant hpid hguard hinv
  | cmd outcome t h =>
      cases h with
      | queue h => exact h.entryInvariant hinv
      | checkpoint h => exact h.entryInvariant hpid hinv
      | restore h => exact h.entryInvariant hpid hinv
  | worker act t h => exact h.entryInvariant hpid hinv

/-- Nothing is left to do for the pid, but for the clearing of its entry. -/
structure DoneWith (pid : Int) (s : Sys) : Prop where
  queue : ∀ c ∈ s.queue, c.pid ≠ pid
  cmd : ∀ c, s.cmd.unanswered = some c → c.pid ≠ pid
  entries : s.cmd.clears pid = true ∨ ∀ slot ∈ s.table, slot.pid ≠ pid

/-- The main thread handles no command for the pid. -/
def MainPc.Spares (pid : Int) (main : MainPc) : Prop := ∀ c, main.unanswered = some c → c.pid ≠ pid

theorem dispatch_unanswered {c other : Ctx} (h : (dispatch c).unanswered = some other) :
    other = c := by
  rcases dispatch_cases c with ⟨-, hc⟩ | ⟨-, hc | hc⟩ <;> rw [hc] at h <;> cases h <;> rfl

theorem QueueMove.doneWith (h : QueueMove s t) (hdone : DoneWith pid s) : DoneWith pid t := by
  cases h with
  | pop s c rest =>
      exact {
        queue := fun other hmem => hdone.queue other (List.mem_cons_of_mem c hmem)
        cmd := fun other hother => dispatch_unanswered hother ▸ hdone.queue c List.mem_cons_self
        entries := Or.inr (hdone.entries.resolve_left (by simp [CmdPc.clears])) }
  | _ =>
      exact {
        queue := hdone.queue
        cmd := by simp [CmdPc.unanswered]
        entries := Or.inr (hdone.entries.resolve_left (by simp [CmdPc.clears])) }

theorem CheckpointMove.doneWith (h : CheckpointMove dir s t) (hpid : pid ≠ 0)
    (hdone : DoneWith pid s) : DoneWith pid t := by
  have hclears : s.cmd.clears pid = false := by cases h <;> rfl
  have hnone := hdone.entries.resolve_left (by simp [hclears])
  have hafter := h.no_entry hpid hnone
  have hcmd := hdone.cmd
  cases h with
  | clearNoFork | setCheckpointed | clearFailed | respond =>
      exact {
        queue := hdone.queue, cmd := by simp [CmdPc.unanswered], entries := Or.inr hafter }
  | _ => exact { queue := hdone.queue, cmd := hcmd, entries := Or.inr hafter }

theorem RestoreMove.doneWith (h : RestoreMove dir s t) (hpid : pid ≠ 0)
    (hdone : DoneWith pid s) : DoneWith pid t := by
  have hentries := hdone.entries
  have hcmd := hdone.cmd
  cases h with
  | respond s c worker =>
      exact {
        queue := hdone.queue
        cmd := by simp [CmdPc.unanswered]
        entries := Or.inr (hentries.resolve_left (by simp [CmdPc.clears])) }
  | clear s c worker =>
      refine { queue := hdone.queue, cmd := by simp [CmdPc.unanswered], entries := Or.inr ?_ }
      by_cases heq : c.pid = pid
      · subst heq
        exact forall_clear_of_ne c.pid (fun _ _ hne => hne) fun _ _ => hpid.symm
      · exact forall_clear c.pid (hentries.resolve_left (by simp [CmdPc.clears, heq]))
          fun _ _ => hpid.symm
  | _ =>
      exact {
        queue := hdone.queue
        cmd := hcmd
        entries := Or.inr (hentries.resolve_left (by simp [CmdPc.clears])) }

theorem CmdMove.doneWith (h : CmdMove dir s t) (hpid : pid ≠ 0) (hdone : DoneWith pid s) :
    DoneWith pid t := by
  cases h with
  | queue h => exact h.doneWith hdone
  | checkpoint h => exact h.doneWith hpid hdone
  | restore h => exact h.doneWith hpid hdone

theorem WorkerMove.doneWith {act : Act} (h : WorkerMove dir s act t) (hpid : pid ≠ 0)
    (hdone : DoneWith pid s) : DoneWith pid t := by
  have hafter := hdone.entries.imp_right (h.no_entry hpid)
  cases h <;> exact { queue := hdone.queue, cmd := hdone.cmd, entries := hafter }

theorem MainMove.doneWith (h : MainMove s t) (hpid : pid ≠ 0) (hspares : s.main.Spares pid)
    (hdone : DoneWith pid s) : t.main.Spares pid ∧ DoneWith pid t := by
  have hpush {c : Ctx} (hc : c.pid ≠ pid) : ∀ other ∈ s.queue ++ [c], other.pid ≠ pid := by
    intro other hmem
    rcases List.mem_append.mp hmem with hmem | hmem
    · exact hdone.queue other hmem
    · exact List.mem_singleton.mp hmem ▸ hc
  have hentries := hdone.entries
  cases h with
  | initPid s c =>
      have hc : c.pid ≠ pid := hspares c rfl
      refine ⟨hspares, { queue := hdone.queue, cmd := hdone.cmd, entries := ?_ }⟩
      exact hentries.imp_right fun hnone => forall_init c.pid hnone fun _ _ => hc
  | clearRefused s c =>
      refine ⟨hspares, { queue := hdone.queue, cmd := hdone.cmd, entries := ?_ }⟩
      exact hentries.imp_right fun hnone => forall_clear c.pid hnone fun _ _ => hpid.symm
  | tryAbort s c =>
      refine ⟨hspares, { queue := hdone.queue, cmd := hdone.cmd, entries := ?_ }⟩
      exact hentries.imp_right fun hnone =>
        forall_tryToAbortCheckpoint c.pid hnone fun slot hmem _ => hnone slot hmem
  | pushCheckpoint s c | pushRestore s c =>
      refine ⟨by simp [MainPc.Spares, MainPc.unanswered], ?_⟩
      exact { queue := hpush (hspares c rfl), cmd := hdone.cmd, entries := hentries }
  | respond | close =>
      refine ⟨by simp [MainPc.Spares, MainPc.unanswered], ?_⟩
      exact { queue := hdone.queue, cmd := hdone.cmd, entries := hentries }
  | _ => exact ⟨hspares, { queue := hdone.queue, cmd := hdone.cmd, entries := hentries }⟩

theorem step_doneWith {act : Act} (hpid : pid ≠ 0) (hreads : act.reads pid = false)
    (hstep : step dir s act = some t) (hdone : s.main.Spares pid ∧ DoneWith pid s) :
    t.main.Spares pid ∧ DoneWith pid t := by
  obtain ⟨hspares, hdone⟩ := hdone
  cases step_move hstep with
  | accept cd command t h =>
      have hentries := hdone.entries
      cases h with
      | unread => exact ⟨hspares, ⟨hdone.queue, hdone.cmd, hentries⟩⟩
      | checkpoint s command | restore s command | unknown s command =>
          have hc : command.pid ≠ pid := by simpa [Act.reads] using hreads
          refine ⟨?_, ⟨hdone.queue, hdone.cmd, hentries⟩⟩
          intro c hunanswered
          cases hunanswered
          exact hc
  | main t h => exact h.doneWith hpid hspares hdone
  | cmd outcome t h =>
      rw [h.main_eq]
      exact ⟨hspares, h.doneWith hpid hdone⟩
  | worker act t h =>
      rw [h.main_eq]
      exact ⟨hspares, h.doneWith hpid hdone⟩

theorem step_doneWith_of_ne_main {act : Act} {c : Ctx} (hpid : pid ≠ 0) (hact : act ≠ .main)
    (hstep : step dir s act = some t) (hdone : s.main = .canCheckpoint c ∧ DoneWith pid s) :
    t.main = .canCheckpoint c ∧ DoneWith pid t := by
  obtain ⟨hmain, hdone⟩ := hdone
  cases step_move hstep with
  | accept cd command t h => cases h <;> cases hmain
  | main t h => exact absurd rfl hact
  | cmd outcome t h => exact ⟨h.main_eq.trans hmain, h.doneWith hpid hdone⟩
  | worker act t h => exact ⟨h.main_eq.trans hmain, h.doneWith hpid hdone⟩

theorem entryInvariant_boot (hpid : pid ≠ 0) : EntryInvariant pid (Sys.boot Table.zero) where
  commands := carries_boot Table.zero
  admits := trivial
  unique := tableInvariant_boot.unique
  worker := by simp [Sys.boot, CmdPc.current]
  entries := by
    intro slot hslot
    rw [List.eq_of_mem_replicate hslot]
    exact entryLaw_of_ne hpid.symm
  refuses := trivial

theorem outstanding_eq_false (h : s.outstanding pid = false) :
    s.main.Spares pid ∧ (∀ c ∈ s.queue, c.pid ≠ pid) ∧
      ∀ c, s.cmd.unanswered = some c → c.pid ≠ pid := by
  simp only [Sys.outstanding, Bool.or_eq_false_iff] at h
  obtain ⟨⟨hmain, hqueue⟩, hcmd⟩ := h
  refine ⟨fun c hc => ?_, fun c hc => ?_, fun c hc => ?_⟩
  · simpa [hc] using hmain
  · simpa using List.any_eq_false.mp hqueue c hc
  · simpa [hc] using hcmd

theorem EntryInvariant.no_entry (hinv : EntryInvariant pid s) (hmisses : s.cmd.misses pid = true)
    (hspares : s.main.Spares pid) (hqueue : ∀ c ∈ s.queue, c.pid ≠ pid) :
    ∀ slot ∈ s.table, slot.pid ≠ pid := by
  intro slot hmem hslot
  have hlaw := hinv.entries slot hmem hslot
  obtain ⟨c, hcmd⟩ : ∃ c, s.cmd = .ending c .respondNoWorker := by
    unfold CmdPc.misses at hmisses
    split at hmisses
    · exact ⟨_, ‹_›⟩
    · cases hmisses
  cases hstate : slot.state with
  | restored =>
      rw [hstate] at hlaw
      rcases hlaw with hpending | hqueued | hstarts
      · cases hmain : s.main with
        | pushCheckpoint c | clearRefused c =>
            have hc : c.pid ≠ pid := hspares c (by rw [hmain]; rfl)
            simp [hmain, MainPc.pending, hc] at hpending
        | _ => simp [hmain, MainPc.pending] at hpending
      · refine hqueued (List.countP_eq_zero.mpr fun c hc => ?_)
        simp [hqueue c hc]
      · rw [hcmd] at hstarts
        cases hstarts
  | checkpointing =>
      rw [hstate, hcmd] at hlaw
      cases hlaw
  | checkpointed =>
      rw [hstate] at hlaw
      rw [hlaw.2] at hmisses
      cases hmisses

theorem doneWith_of_answer {act : Act} (hinv : EntryInvariant pid s)
    (hanswers : s.answersRestore pid act = true) (hstep : step dir s act = some t)
    (hout : t.outstanding pid = false) : t.main.Spares pid ∧ DoneWith pid t := by
  obtain ⟨hspares, hqueue, hcmd⟩ := outstanding_eq_false hout
  refine ⟨hspares, hqueue, hcmd, ?_⟩
  cases step_move hstep with
  | main t h =>
      cases h with
      | respond s c code =>
          obtain ⟨hrestore, hc⟩ : c.svcCmd.cmd = memcrRestore ∧ c.pid = pid := by
            simpa [Sys.answersRestore] using hanswers
          exact Or.inr (hinv.refuses hrestore hc)
      | _ => cases hanswers
  | cmd outcome t h =>
      cases h with
      | queue h =>
          cases h with
          | respondNoWorker s c => exact Or.inr (hinv.no_entry hanswers hspares hqueue)
          | _ => cases hanswers
      | checkpoint h => cases h <;> cases hanswers
      | restore h =>
          cases h with
          | respond s c worker code => exact Or.inl hanswers
          | _ => cases hanswers
  | accept cd command t h => cases hanswers
  | worker act t h => cases h <;> cases hanswers

/-- A RESTORE of `pid` is answered with no other command for the pid outstanding,
and the next command read for it is a CHECKPOINT. When the queue has room for
every RESTORE of the pid and the main thread never tests the entry between an
answer and its clearing, the CHECKPOINT is admitted. -/
theorem checkpoint_admitted_after_restore (dir : Bool) (pid : Int) (hpid : pid ≠ 0)
    (before between others : List Act) (act : Act) (c : Ctx) (s t u v w x : Sys)
    (hguard : Guarded (step dir) (fun s act => testsCleared pid s act = true)
      (Sys.boot Table.zero)
      (before ++ act :: (between ++ .accept c.cd (some c.svcCmd) :: (others ++ [.main]))))
    (hbefore : run (step dir) (Sys.boot Table.zero) before = some s)
    (hanswers : s.answersRestore pid act = true) (hanswer : step dir s act = some t)
    (hout : t.outstanding pid = false)
    (hbetween : run (step dir) t between = some u) (hreads : ∀ a ∈ between, a.reads pid = false)
    (hread : step dir u (.accept c.cd (some c.svcCmd)) = some v)
    (hcmd : c.svcCmd.cmd = memcrCheckpoint) (hc : c.pid = pid)
    (hothers : run (step dir) v others = some w) (hmain : ∀ a ∈ others, a ≠ .main)
    (htest : step dir w .main = some x) : x.main = .initPid c := by
  obtain ⟨hfirst, hguard⟩ := guarded_append hguard hbefore
  obtain ⟨-, hguard⟩ := guarded_append (hguard.2 t hanswer) hbetween
  obtain ⟨-, hlast⟩ := guarded_append (hguard.2 v hread) hothers
  have hinv : EntryInvariant pid s :=
    invariant_of_guarded (fun _ _ _ hinv hguard hstep => step_entryInvariant hpid hinv hguard hstep)
      (entryInvariant_boot hpid) hfirst hbefore
  have hkeeps (s : Sys) (a : Act) (t : Sys) (hdone : s.main.Spares pid ∧ DoneWith pid s)
      (hreads : a.reads pid = false) (hstep : step dir s a = some t) :
      t.main.Spares pid ∧ DoneWith pid t :=
    step_doneWith hpid hreads hstep hdone
  have hafter : u.main.Spares pid ∧ DoneWith pid u :=
    invariant_of_guarded hkeeps (doneWith_of_answer hinv hanswers hanswer hout)
      (guarded_of_forall fun a ha _ => hreads a ha) hbetween
  have hwaits : v.main = .canCheckpoint c ∧ DoneWith pid v := by
    have hdone := hafter.2
    cases acceptStep_move hread with
    | checkpoint u => exact ⟨rfl, ⟨hdone.queue, hdone.cmd, hdone.entries⟩⟩
    | restore u command hrestore => exact absurd (hcmd.symm.trans hrestore) checkpoint_ne_restore
    | unknown u command hcheckpoint => exact absurd hcmd hcheckpoint
  have hstays (s : Sys) (a : Act) (t : Sys) (hdone : s.main = .canCheckpoint c ∧ DoneWith pid s)
      (hact : a ≠ .main) (hstep : step dir s a = some t) :
      t.main = .canCheckpoint c ∧ DoneWith pid t :=
    step_doneWith_of_ne_main hpid hact hstep hdone
  obtain ⟨hw, hdone⟩ : w.main = .canCheckpoint c ∧ DoneWith pid w :=
    invariant_of_guarded hstays hwaits (guarded_of_forall fun a ha _ => hmain a ha) hothers
  have hclears : w.cmd.clears pid = false := by
    simpa [testsCleared, hw, hc] using hlast.1
  have hnone := hdone.entries.resolve_left (by simp [hclears])
  have hfree : canCheckpointPid c.pid w.table = true := by
    rw [canCheckpointPid_iff, List.eq_nil_iff_forall_not_mem]
    intro slot hslot
    obtain ⟨hmem, hslot⟩ := mem_entries.mp hslot
    exact hnone slot hmem (hslot.trans hc)
  simp only [step, mainStep, hw, hfree] at htest
  obtain ⟨-, rfl⟩ := Sys.locked_eq_some htest
  rfl

/-- Pid 5 is checkpointed, and a RESTORE of it has come to its answer. -/
def aboutToAnswer : List Act :=
  checkpointed ++ [.cmd .done, .cmd .done, .accept 6 (some restoreFive), .main, .main, .main,
    .cmd .done, .cmd .done, .cmd .done, .cmd (.writes 8),
    .worker 0, .worker 0, .worker 0, .worker 0, .worker 0, .worker 0, .cmd (.gets .ok)]

theorem clearedInTime_admitted :
    ∃ w x, run (step false) (Sys.boot Table.zero)
        (aboutToAnswer ++ [.cmd .done, .cmd .done, .accept 8 (some checkpointFive),
          .cmd .done]) = some w ∧
      step false w .main = some x ∧ x.main = .initPid ⟨checkpointFive, 8⟩ := by
  refine ⟨_, _, rfl, rfl, ?_⟩
  exact checkpoint_admitted_after_restore false 5 (by decide) aboutToAnswer [.cmd .done]
    [.cmd .done] (.cmd .done) ⟨checkpointFive, 8⟩ _ _ _ _ _ _ (by decide) rfl (by decide) rfl
    (by decide) rfl (by decide) rfl (by decide) (by decide) rfl (by simp) rfl

theorem askedAtOnce_refused :
    ∃ s t v x, run (step false) (Sys.boot Table.zero) aboutToAnswer = some s ∧
      s.answersRestore 5 (.cmd .done) = true ∧ step false s (.cmd .done) = some t ∧
      .responded 6 .ok ∈ t.log ∧ t.outstanding 5 = false ∧
      step false t (.accept 8 (some checkpointFive)) = some v ∧ step false v .main = some x ∧
      x.main = .respond ⟨checkpointFive, 8⟩ .invalidPid := by
  exact ⟨_, _, _, _, rfl, by decide, rfl, by decide, by decide, rfl, rfl, by decide⟩

end Memcr.ServiceSystem
