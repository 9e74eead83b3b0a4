import Memcr.ClientConnections

namespace Memcr.ServiceSystem

open Memcr.GuardedRuns
open Memcr.IndexedLists
open Memcr.ServiceTable
open Memcr.WorkerProcess

variable {dir : Bool} {s t : Sys} {d d' : Desk}

/-- How often a connection has been answered when the main thread has it. -/
def MainPc.answered : MainPc → Nat
  | .close _ => 1
  | _ => 0

/-- How often the command thread has called `send_response_to_client` for the command it
has at hand. A worker that could not be started is not answered for. -/
def CmdPc.answered (unstarted : Bool) : CmdPc → Nat
  | .checkpointing _ _ _ _ (.finish _) => 1
  | .restoring _ _ .clear => 1
  | .ending _ .respondNoWorker => 0
  | .ending _ .closeCd => if unstarted then 0 else 1
  | .ending _ _ => 1
  | _ => 0

def Place.answered (unstarted : Bool) : Place → Nat
  | .main pc => pc.answered
  | .queue => 0
  | .cmd pc => pc.answered unstarted
  | .done => if unstarted then 0 else 1

/-- The command thread has just failed to start a worker. -/
def CmdPc.unstarted : CmdPc → Bool
  | .stopped _ | .starting _ .clearNoFork => true
  | _ => false

/-- Where the failure to start a worker leads. -/
def Place.Admits (unstarted : Bool) : Place → Prop
  | .cmd (.starting _ .clearNoFork) => unstarted = true
  | .cmd (.ending _ .closeCd) | .done => True
  | _ => unstarted = false

/-- The answers to a connection are as many as its place says, all on its own descriptor. -/
structure Answered (place : Place) (x : Connection) : Prop where
  count : x.answers.length = place.answered x.unstarted
  admits : place.Admits x.unstarted
  own : ∀ a ∈ x.answers, a.1 = x.cd

/-- What a step of a party adds to the answers of the connection it has. -/
structure Answers (c : Ctx) (s t : Sys) (fails unstarted : Bool) (before after : Place) :
    Prop where
  count : after.answered (unstarted || fails) =
    (answersIn (newEvents s t)).length + before.answered unstarted
  admits : after.Admits (unstarted || fails)
  own : ∀ a ∈ answersIn (newEvents s t), a.1 = c.cd

variable {c : Ctx} {fails : Bool} {before after : Place}

theorem Answered.record {x : Connection} {fds : Nat → Option Nat} (h : Answered before x)
    (hanswers : Answers c s t fails x.unstarted before after) (hcd : x.cd = c.cd) :
    Answered after (x.record fds fails (newEvents s t)) where
  count := by
    rw [Connection.record, List.length_append, hanswers.count, h.count]
  admits := hanswers.admits
  own := by
    intro a ha
    rcases List.mem_append.mp ha with ha | ha
    · exact (hanswers.own a ha).trans hcd.symm
    · exact h.own a ha

theorem answers_silent {unstarted : Bool} (events : List Event) (hlog : t.log = events ++ s.log)
    (hsilent : answersIn events = [])
    (hcount : after.answered (unstarted || fails) = before.answered unstarted)
    (hadmits : after.Admits (unstarted || fails)) :
    Answers c s t fails unstarted before after where
  count := by rw [newEvents_eq events hlog, hsilent, hcount]; simp
  admits := hadmits
  own := by simp [newEvents_eq events hlog, hsilent]

theorem answers_responded {unstarted : Bool} {code : Response}
    (hlog : t.log = .responded c.cd code :: s.log)
    (hcount : after.answered (unstarted || fails) = before.answered unstarted + 1)
    (hadmits : after.Admits (unstarted || fails)) :
    Answers c s t fails unstarted before after where
  count := by
    rw [newEvents_eq [.responded c.cd code] hlog, hcount, answersIn]
    simp [Event.answer, Nat.add_comm]
  admits := hadmits
  own := by
    rw [newEvents_eq [.responded c.cd code] hlog]
    simp [answersIn, Event.answer]

theorem answersIn_abortEvents (cmd : CmdPc) (sent : Option Int) :
    answersIn (abortEvents cmd sent) = [] := by
  cases sent <;> rfl

theorem answers_kept (hqueue : t.queue = s.queue) (hctx : t.main.ctx = some c)
    (h : Answers c s t false false (.main s.main) (.main t.main)) :
    Answers c s t false false (.main s.main) (mainAfter s t) := by
  have hafter : mainAfter s t = .main t.main := by simp [mainAfter, hqueue, hctx]
  exact hafter ▸ h

theorem MainMove.answers (h : MainMove s t) (hctx : s.main.ctx = some c) :
    Answers c s t false false (.main s.main) (mainAfter s t) := by
  cases h with
  | initPid s c =>
      cases hctx
      refine answers_kept rfl rfl ?_
      cases hfree : s.table.any fun slot => slot.pid == pidInvalid with
      | true => exact answers_silent [.created c.pid] rfl rfl rfl rfl
      | false => exact answers_silent [] rfl rfl rfl rfl
  | tryAbort s c =>
      cases hctx
      exact answers_kept rfl rfl (answers_silent _ rfl (answersIn_abortEvents ..) rfl rfl)
  | respond s c code =>
      cases hctx
      exact answers_kept rfl rfl (answers_responded rfl rfl rfl)
  | pushCheckpoint s c | pushRestore s c =>
      exact answers_silent [] rfl rfl (by simp [mainAfter, Place.answered, MainPc.answered])
        (by simp [mainAfter, Place.Admits])
  | close s c =>
      exact answers_silent [.closed c.cd] rfl rfl
        (by simp [mainAfter, MainPc.ctx, Place.answered, MainPc.answered])
        (by simp [mainAfter, MainPc.ctx, Place.Admits])
  | _ =>
      cases hctx
      exact answers_kept rfl rfl (answers_silent [] rfl rfl rfl rfl)

theorem startFails_eq {outcome : Outcome} (hstep : cmdStep dir s outcome = some t) :
    s.startFails (.cmd outcome) = t.cmd.unstarted := by
  cases cmdStep_move hstep with
  | queue h =>
      cases h with
      | pop s c rest =>
          have hdispatch : (dispatch c).unstarted = false := by
            rcases dispatch_cases c with ⟨-, h⟩ | ⟨-, h | h⟩ <;> rw [h] <;> rfl
          rw [hdispatch]
          cases outcome <;> rfl
      | _ => cases outcome <;> rfl
  | checkpoint h =>
      cases h with
      | openSockets | noSockets | fork => cases outcome <;> first | rfl | cases hstep
      | forkFails =>
          cases outcome with
          | forks pid env =>
              simp only [cmdStep, startStep] at hstep
              split at hstep <;> cases hstep
          | fails => rfl
          | _ => cases hstep
      | _ => cases outcome <;> rfl
  | restore h => cases h <;> cases outcome <;> rfl

theorem answers_cmd {unstarted : Bool} (hctx : t.cmd.ctx = some c)
    (h : Answers c s t t.cmd.unstarted unstarted (.cmd s.cmd) (.cmd t.cmd)) :
    Answers c s t t.cmd.unstarted unstarted (.cmd s.cmd) (cmdAfter t) := by
  have hafter : cmdAfter t = .cmd t.cmd := by simp [cmdAfter, hctx]
  exact hafter ▸ h

theorem CheckpointMove.answers {unstarted : Bool} (h : CheckpointMove dir s t)
    (hctx : s.cmd.ctx = some c) (hadmits : (Place.cmd s.cmd).Admits unstarted) :
    Answers c s t t.cmd.unstarted unstarted (.cmd s.cmd) (cmdAfter t) := by
  cases h with
  | clearNoFork s c =>
      obtain rfl : unstarted = true := hadmits
      exact answers_cmd hctx (answers_silent [] rfl rfl rfl trivial)
  | noSockets s c =>
      obtain rfl : unstarted = false := hadmits
      exact answers_silent [] rfl rfl rfl trivial
  | setCheckpointing s c =>
      obtain rfl : unstarted = false := hadmits
      exact answers_cmd hctx (answers_silent _ rfl (answersIn_abortEvents ..) rfl rfl)
  | killTarget s c sd worker =>
      obtain rfl : unstarted = false := hadmits
      exact answers_cmd hctx
        (answers_silent [.killed c.pid c.pid worker] rfl rfl rfl rfl)
  | killWorker s c sd worker =>
      obtain rfl : unstarted = false := hadmits
      exact answers_cmd hctx
        (answers_silent [.killed worker c.pid worker] rfl rfl rfl rfl)
  | respond =>
      cases hctx
      obtain rfl : unstarted = false := hadmits
      exact answers_cmd rfl (answers_responded rfl rfl rfl)
  | _ =>
      obtain rfl : unstarted = false := hadmits
      exact answers_cmd hctx (answers_silent [] rfl rfl rfl rfl)

theorem RestoreMove.answers {unstarted : Bool} (h : RestoreMove dir s t)
    (hctx : s.cmd.ctx = some c) (hadmits : (Place.cmd s.cmd).Admits unstarted) :
    Answers c s t t.cmd.unstarted unstarted (.cmd s.cmd) (cmdAfter t) := by
  obtain rfl : unstarted = false := by cases h <;> exact hadmits
  cases h with
  | killTarget s c worker =>
      exact answers_cmd hctx
        (answers_silent [.killed c.pid c.pid worker] rfl rfl rfl rfl)
  | killWorker s c worker =>
      exact answers_cmd hctx
        (answers_silent [.killed worker c.pid worker] rfl rfl rfl rfl)
  | respond =>
      cases hctx
      exact answers_cmd rfl (answers_responded rfl rfl rfl)
  | clear => exact answers_cmd hctx (answers_silent [] rfl rfl rfl trivial)
  | _ => exact answers_cmd hctx (answers_silent [] rfl rfl rfl rfl)

theorem CmdMove.answers {unstarted : Bool} (h : CmdMove dir s t) (hctx : s.cmd.ctx = some c)
    (hadmits : (Place.cmd s.cmd).Admits unstarted) :
    Answers c s t t.cmd.unstarted unstarted (.cmd s.cmd) (cmdAfter t) := by
  cases h with
  | queue h =>
      cases h with
      | pop => cases hctx
      | closeSd =>
          obtain rfl : unstarted = false := hadmits
          exact answers_cmd hctx (answers_silent [] rfl rfl rfl trivial)
      | closeNoWorker s c =>
          obtain rfl : unstarted = false := hadmits
          exact answers_cmd hctx (answers_silent [.closed c.cd] rfl rfl rfl trivial)
      | respondNoWorker s c =>
          cases hctx
          obtain rfl : unstarted = false := hadmits
          exact answers_cmd rfl (answers_responded rfl rfl rfl)
      | closeCd s c =>
          exact answers_silent [.closed c.cd] rfl rfl (by cases unstarted <;> rfl)
            trivial
  | checkpoint h => exact h.answers hctx hadmits
  | restore h => exact h.answers hctx hadmits

/-- The queue holds CHECKPOINTs and RESTOREs only. -/
structure QueueKinds (s : Sys) : Prop where
  commands : Carries (fun _ => True) s
  queue : ∀ c ∈ s.queue, c.svcCmd.cmd = memcrCheckpoint ∨ c.svcCmd.cmd = memcrRestore

theorem step_queueKinds {act : Act} (h : QueueKinds s) (hstep : step dir s act = some t) :
    QueueKinds t := by
  have hmove := step_move hstep
  refine ⟨hmove.carries (fun _ _ _ => trivial) h.commands, ?_⟩
  have hmain := h.commands.main
  have hpush {c : Ctx} (hc : c.svcCmd.cmd = memcrCheckpoint ∨ c.svcCmd.cmd = memcrRestore) :
      ∀ other ∈ s.queue ++ [c],
        other.svcCmd.cmd = memcrCheckpoint ∨ other.svcCmd.cmd = memcrRestore := by
    intro other hmem
    rcases List.mem_append.mp hmem with hmem | hmem
    · exact h.queue other hmem
    · exact List.mem_singleton.mp hmem ▸ hc
  cases hmove with
  | accept cd command t h' => exact h'.ctx_of.2.2.1 ▸ h.queue
  | main t h' =>
      cases h' with
      | pushCheckpoint s c => exact hpush (Or.inl hmain.2)
      | pushRestore s c => exact hpush (Or.inr hmain.2)
      | _ => exact h.queue
  | cmd outcome t h' =>
      cases h' with
      | queue h' =>
          cases h' with
          | pop s c rest => exact fun other hmem => h.queue other (List.mem_cons_of_mem c hmem)
          | _ => exact h.queue
      | checkpoint h' => cases h' <;> exact h.queue
      | restore h' => cases h' <;> exact h.queue
  | worker act t h' => exact h'.queue_eq ▸ h.queue

structure AnswerInvariant (d : Desk) : Prop where
  sound : d.Sound
  kinds : QueueKinds d.sys
  answered : Indexed (fun k x => x.command.isSome = true → Answered (d.place k) x) d.connections

theorem AcceptMove.answered {cd : Nat} {command : ServiceCommand} {fds : Nat → Option Nat}
    (h : AcceptMove cd (some command) s t) :
    Answered (.main t.main) (Connection.record fds false (newEvents s t)
      ⟨cd, some command, [], [], false⟩) := by
  rw [h.events_eq]
  cases h <;> exact ⟨rfl, rfl, by simp [Connection.record, answersIn, Event.answer]⟩

theorem dispatch_answered {x : Connection}
    (hkind : c.svcCmd.cmd = memcrCheckpoint ∨ c.svcCmd.cmd = memcrRestore)
    (h : Answered .queue x) : Answered (.cmd (dispatch c)) x := by
  have hfalse : x.unstarted = false := h.admits
  by_cases hcheckpoint : c.svcCmd.cmd = memcrCheckpoint
  · rw [dispatch, if_pos hcheckpoint]
    exact ⟨h.count, hfalse, h.own⟩
  · rw [dispatch, if_neg hcheckpoint, if_pos (hkind.resolve_left hcheckpoint)]
    exact ⟨h.count, hfalse, h.own⟩

theorem AnswerInvariant.step {act : Act} (hinv : AnswerInvariant d)
    (hstep : deskStep dir d act = some d') : AnswerInvariant d' := by
  have hmove := deskStep_move hinv.sound hstep
  have hkinds : QueueKinds d'.sys := by
    obtain ⟨t, ht, rfl⟩ := Option.map_eq_some_iff.mp hstep
    rw [Desk.follow_sys]
    exact step_queueKinds hinv.kinds ht
  refine ⟨hmove.sound hinv.sound, hkinds, ?_⟩
  cases hmove with
  | accept cd command t h =>
      obtain ⟨-, hnew, hold⟩ := accept_follow hinv.sound h
      refine Indexed.concat (fun k x hx => ?_) ?_
      · have hk : k < d.connections.length := (List.getElem?_eq_some_iff.mp hx).1
        rw [hold k (Nat.ne_of_lt hk)]
        exact hinv.answered k x hx
      · rw [hnew]
        intro hsome
        cases command with
        | none => cases hsome
        | some command => exact h.answered
  | main id c t h hid hctx hnames =>
      refine (main_follow hinv.sound h hid hctx hnames).2.indexed
        (fun _ place x => x.command.isSome = true → Answered place x) hinv.answered ?_
      intro x hx hfits hsome
      have hbefore := hfits hsome
      rw [place_main hid] at hbefore
      have hfalse : x.unstarted = false := hbefore.admits
      exact hbefore.record (hfalse ▸ h.answers hctx) (hnames.cd_eq hx)
  | pop id rest c queue hwaiting hid hqueue =>
      obtain ⟨-, hnew, hold⟩ := pop_follow hinv.sound hid hwaiting hqueue _ rfl
      intro k x hx
      by_cases hk : k = id
      · subst hk
        rw [hnew]
        intro hsome
        have hbefore := hinv.answered k x hx hsome
        rw [hinv.sound.place_queue (by simp [hid])] at hbefore
        exact dispatch_answered (hinv.kinds.queue c (by simp [hqueue])) hbefore
      · rw [hold k hk]
        exact hinv.answered k x hx
  | cmd id c outcome t h hcmd hid hctx hnames =>
      refine (cmd_follow hinv.sound h hid hctx hnames).2.indexed
        (fun _ place x => x.command.isSome = true → Answered place x) hinv.answered ?_
      intro x hx hfits hsome
      have hbefore := hfits hsome
      rw [hinv.sound.place_cmd hid] at hbefore
      rw [startFails_eq hcmd]
      exact hbefore.record (h.answers hctx hbefore.admits) (hnames.cd_eq hx)
  | worker act t h =>
      intro k x hx
      rw [h.place_eq]
      exact hinv.answered k x hx

theorem answerInvariant_boot (table : Table) : AnswerInvariant (Desk.boot table) where
  sound := sound_boot table
  kinds := ⟨carries_boot table, by simp [Desk.boot, Sys.boot]⟩
  answered := indexed_nil

/-- When the service is done with a command that it has read, it has answered it
exactly once, on the connection it came from, unless `socketpair` or `fork`
failed for it; then it has not answered it at all. -/
theorem command_answered_once_iff (dir : Bool) (table : Table) (acts : List Act) (d : Desk)
    (hrun : run (deskStep dir) (Desk.boot table) acts = some d) (id : Nat) (x : Connection)
    (hx : d.connections[id]? = some x) (hcommand : x.command.isSome = true)
    (hdone : d.place id = .done) :
    (x.answers.length = 1 ∧ ∀ a ∈ x.answers, a.1 = x.cd) ↔ x.unstarted = false := by
  have hinv : AnswerInvariant d :=
    invariant_of_run (fun _ _ _ hinv hstep => hinv.step hstep) (answerInvariant_boot table) hrun
  have hanswered := hinv.answered id x hx hcommand
  rw [hdone] at hanswered
  have hcount := hanswered.count
  cases hunstarted : x.unstarted with
  | false =>
      rw [hunstarted] at hcount
      exact iff_of_true ⟨hcount, hanswered.own⟩ rfl
  | true =>
      rw [hunstarted] at hcount
      refine iff_of_false (fun h => ?_) (by simp)
      rw [show x.answers.length = 0 from hcount] at h
      cases h.1

theorem checkpointed_answered_once :
    ∃ d x, run (deskStep false) (Desk.boot Table.zero)
        (checkpointed ++ [.cmd .done, .cmd .done]) = some d ∧
      d.connections[0]? = some x ∧ x.answers.length = 1 := by
  refine ⟨_, ⟨4, some checkpointFive, [(4, .ok)], [some 0], false⟩, rfl, rfl, ?_⟩
  exact ((command_answered_once_iff false Table.zero (checkpointed ++ [.cmd .done, .cmd .done]) _
    rfl 0 _ rfl rfl rfl).mpr rfl).1

theorem forkFailed_unanswered :
    ∃ d x, run (deskStep false) (Desk.boot Table.zero)
        [.accept 4 (some checkpointFive), .main, .main, .main,
          .cmd .done, .cmd (.opens 7), .cmd .fails, .cmd .done, .cmd .done] = some d ∧
      d.connections[0]? = some x ∧ x.command = some checkpointFive ∧ d.place 0 = .done ∧
      x.answers = [] := by
  exact ⟨_, ⟨4, some checkpointFive, [], [some 0], true⟩, rfl, rfl, rfl, rfl, rfl⟩

end Memcr.ServiceSystem
