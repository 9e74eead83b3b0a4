import Mathlib.Data.List.Forall2
import Mathlib.Data.List.Nodup
import Memcr.RestorableEntries

namespace Memcr.ServiceSystem

open Memcr.GuardedRuns
open Memcr.IndexedLists
open Memcr.ServiceTable
open Memcr.WorkerProcess

/-- What has become of a client connection since it was accepted. -/
structure Connection where
  cd : Nat
  /-- The command read from it, if one was. -/
  command : Option ServiceCommand
  /-- The calls of `send_response_to_client` for it, with their descriptor. -/
  answers : List (Nat × Response)
  /-- For each `close` of its descriptor, the connection that the descriptor
  stood for. -/
  closes : List (Option Nat)
  /-- `socketpair` or `fork` failed for its command. -/
  unstarted : Bool
  deriving DecidableEq, Repr

/-- A connection is known by its position in the list. -/
structure Desk where
  sys : Sys
  connections : List Connection
  main : Option Nat
  queue : List Nat
  cmd : Option Nat
  /-- The open connection that a descriptor number stands for. -/
  fds : Nat → Option Nat

def Desk.boot (table : Table) : Desk where
  sys := Sys.boot table
  connections := []
  main := none
  queue := []
  cmd := none
  fds := fun _ => none

section Events

def Event.answer : Event → Option (Nat × Response)
  | .responded cd code => some (cd, code)
  | _ => none

def Event.close : Event → Option Nat
  | .closed cd => some cd
  | _ => none

def answersIn (events : List Event) : List (Nat × Response) := events.filterMap Event.answer

def closesIn (events : List Event) : List Nat := events.filterMap Event.close

/-- What a step has added to the log. -/
def newEvents (s t : Sys) : List Event := t.log.take (t.log.length - s.log.length)

/-- The connection with the events of a step of the party that has it at hand. -/
def Connection.record (fds : Nat → Option Nat) (fails : Bool) (events : List Event)
    (x : Connection) : Connection :=
  { x with
    answers := answersIn events ++ x.answers
    closes := (closesIn events).map fds ++ x.closes
    unstarted := x.unstarted || fails }

def release (events : List Event) (fds : Nat → Option Nat) : Nat → Option Nat :=
  fun cd => if cd ∈ closesIn events then none else fds cd

end Events

/-- The command that the main thread has at hand. -/
def MainPc.ctx : MainPc → Option Ctx
  | .idle => none
  | .canCheckpoint c | .initPid c | .pushCheckpoint c | .clearRefused c => some c
  | .canRestore c | .tryAbort c | .pushRestore c | .respond c _ | .close c => some c

/-- The command that the command thread has at hand; a thread that has returned
has none. -/
def CmdPc.ctx : CmdPc → Option Ctx
  | .waiting | .stopped _ => none
  | .starting c _ | .checkpointing c _ _ _ _ | .getWorker c | .restoring c _ _ | .ending c _ =>
      some c

/-- `socketpair` or `fork` fails in this step. -/
def Sys.startFails (s : Sys) : Act → Bool
  | .cmd .fails =>
      match s.cmd with
      | .starting _ .socketpair | .starting _ (.fork _) => true
      | _ => false
  | _ => false

/-- The party that has connection `id` at hand did something. -/
def Desk.note (d : Desk) (id : Option Nat) (fails : Bool) (events : List Event) : Desk :=
  { d with
    connections := match id with
      | some id => d.connections.modify id (Connection.record d.fds fails events)
      | none => d.connections
    fds := release events d.fds }

/-- The service goes on to `t`. -/
def Desk.follow (d : Desk) (act : Act) (t : Sys) : Desk :=
  let events := newEvents d.sys t
  match act with
  | .accept cd command =>
      let id := d.connections.length
      let fds := fun n => if n = cd then some id else d.fds n
      { d with
        sys := t
        connections :=
          d.connections ++ [Connection.record fds false events ⟨cd, command, [], [], false⟩]
        main := t.main.ctx.map fun _ => id
        fds := release events fds }
  | .main =>
      { d.note d.main false events with
        sys := t
        main := if t.main.ctx.isSome then d.main else none
        queue := if d.sys.queue.length < t.queue.length then d.queue ++ d.main.toList else d.queue }
  | .cmd _ =>
      if d.sys.cmd = .waiting then
        { d with sys := t, cmd := d.queue.head?, queue := d.queue.tail }
      else
        { d.note d.cmd (d.sys.startFails act) events with
          sys := t
          cmd := if t.cmd.ctx.isSome then d.cmd else none }
  | _ => { d with sys := t }

/-- A step of the service with the record of it. -/
def deskStep (dir : Bool) (d : Desk) (act : Act) : Option Desk :=
  (step dir d.sys act).map (d.follow act)

/-- Where a connection is. -/
inductive Place where
  | main (pc : MainPc)
  | queue
  | cmd (pc : CmdPc)
  | done

/-- Where a connection is. The service hands it from the accept loop to
`service_command`, into the queue and on to the command thread. -/
def Desk.place (d : Desk) (id : Nat) : Place :=
  if d.main = some id then .main d.sys.main
  else if d.cmd = some id then .cmd d.sys.cmd
  else if id ∈ d.queue then .queue
  else .done

/-- Descriptor and command of each connection, which never change. -/
def heads (connections : List Connection) : List (Nat × Option ServiceCommand) :=
  connections.map fun x => (x.cd, x.command)

/-- What a party has at hand is the command of connection `id`. -/
def Names (connections : List Connection) (id : Nat) (c : Ctx) : Prop :=
  (heads connections)[id]? = some (c.cd, some c.svcCmd)

/-- A party has a connection at hand when it has a command at hand, and they
belong together. -/
def Serves (connections : List Connection) : Option Nat → Option Ctx → Prop
  | none, none => True
  | some id, some c => Names connections id c
  | _, _ => False

/-- No connection is in two hands. -/
structure Desk.Sound (d : Desk) : Prop where
  main : Serves d.connections d.main d.sys.main.ctx
  cmd : Serves d.connections d.cmd d.sys.cmd.ctx
  queue : List.Forall₂ (Names d.connections) d.queue d.sys.queue
  main_only : ∀ id, d.main = some id → d.cmd ≠ some id ∧ id ∉ d.queue
  cmd_only : ∀ id, d.cmd = some id → id ∉ d.queue
  queue_nodup : d.queue.Nodup

variable {dir : Bool} {s t : Sys} {d d' : Desk} {connections after : List Connection}

section Ledger

theorem Names.of_heads {id : Nat} {c : Ctx} (h : Names connections id c)
    (hheads : heads after = heads connections) : Names after id c := by
  rw [Names, hheads]
  exact h

theorem Names.concat {id : Nat} {c : Ctx} (x : Connection) (h : Names connections id c) :
    Names (connections ++ [x]) id c := by
  obtain ⟨hlt, -⟩ := List.getElem?_eq_some_iff.mp h
  rw [Names, heads, List.map_append]
  exact (List.getElem?_append_left hlt).trans h

theorem Serves.imp {id : Option Nat} {c : Option Ctx} (h : Serves connections id c)
    (himp : ∀ id c, Names connections id c → Names after id c) : Serves after id c := by
  cases id with
  | none =>
      cases c with
      | none => trivial
      | some c => exact h.elim
  | some id =>
      cases c with
      | none => exact h.elim
      | some c => exact himp id c h

theorem Serves.some_of {id : Option Nat} {c : Ctx} (h : Serves connections id (some c)) :
    ∃ k, id = some k ∧ Names connections k c := by
  cases id with
  | none => exact h.elim
  | some k => exact ⟨k, rfl, h⟩

theorem Serves.eq_none {id : Option Nat} (h : Serves connections id none) : id = none := by
  cases id with
  | none => rfl
  | some k => exact h.elim

theorem heads_record (id : Nat) (fds : Nat → Option Nat) (fails : Bool) (events : List Event) :
    heads (connections.modify id (Connection.record fds fails events)) = heads connections :=
  map_modify_eq fun _ => rfl

theorem newEvents_eq (events : List Event) (h : t.log = events ++ s.log) :
    newEvents s t = events := by
  simp [newEvents, h]

end Ledger

/-- Where the main thread leaves the connection it has at hand. -/
def mainAfter (s t : Sys) : Place :=
  if s.queue.length < t.queue.length then .queue
  else if t.main.ctx.isSome then .main t.main
  else .done

/-- Where the command thread leaves the connection it has at hand. -/
def cmdAfter (t : Sys) : Place := if t.cmd.ctx.isSome then .cmd t.cmd else .done

/-- How the ledger changes in a step. -/
inductive LedgerMove (dir : Bool) (d : Desk) : Act → Desk → Prop where
  | accept (cd : Nat) (command : Option ServiceCommand) (t : Sys)
      (h : AcceptMove cd command d.sys t) :
      LedgerMove dir d (.accept cd command) (d.follow (.accept cd command) t)
  | main (id : Nat) (c : Ctx) (t : Sys) (h : MainMove d.sys t) (hid : d.main = some id)
      (hctx : d.sys.main.ctx = some c) (hnames : Names d.connections id c) :
      LedgerMove dir d .main (d.follow .main t)
  | pop (id : Nat) (rest : List Nat) (c : Ctx) (queue : List Ctx)
      (hwaiting : d.sys.cmd = .waiting) (hid : d.queue = id :: rest)
      (hqueue : d.sys.queue = c :: queue) :
      LedgerMove dir d (.cmd .done) { d with
        sys := { d.sys with cmd := dispatch c, queue := queue }, cmd := some id, queue := rest }
  | cmd (id : Nat) (c : Ctx) (outcome : Outcome) (t : Sys) (h : CmdMove dir d.sys t)
      (hstep : cmdStep dir d.sys outcome = some t) (hid : d.cmd = some id)
      (hctx : d.sys.cmd.ctx = some c) (hnames : Names d.connections id c) :
      LedgerMove dir d (.cmd outcome) (d.follow (.cmd outcome) t)
  | worker (act : Act) (t : Sys) (h : WorkerMove dir d.sys act t) :
      LedgerMove dir d act { d with sys := t }

theorem MainMove.ctx_of (h : MainMove s t) : ∃ c, s.main.ctx = some c := by
  cases h <;> exact ⟨_, rfl⟩

theorem CmdMove.ctx_of (h : CmdMove dir s t) (hbusy : s.cmd ≠ .waiting) :
    ∃ c, s.cmd.ctx = some c := by
  cases h with
  | queue h =>
      cases h with
      | pop => exact absurd rfl hbusy
      | _ => exact ⟨_, rfl⟩
  | checkpoint h => cases h <;> exact ⟨_, rfl⟩
  | restore h => cases h <;> exact ⟨_, rfl⟩

theorem cmdStep_waiting {outcome : Outcome} (hwaiting : s.cmd = .waiting)
    (hstep : cmdStep dir s outcome = some t) :
    outcome = .done ∧ ∃ c rest, s.queue = c :: rest ∧
      t = { s with queue := rest, cmd := dispatch c } := by
  rw [cmdStep.eq_def, hwaiting] at hstep
  cases outcome with
  | done =>
      refine ⟨rfl, ?_⟩
      cases hqueue : s.queue with
      | nil =>
          simp only [hqueue] at hstep
          cases hstep
      | cons c rest =>
          simp only [hqueue] at hstep
          exact ⟨c, rest, rfl, (Option.some.inj hstep).symm⟩
  | _ => cases hstep

theorem deskStep_move {act : Act} (hsound : d.Sound) (hstep : deskStep dir d act = some d') :
    LedgerMove dir d act d' := by
  obtain ⟨t, ht, rfl⟩ := Option.map_eq_some_iff.mp hstep
  cases step_move ht with
  | accept cd command t h => exact .accept cd command t h
  | main t h =>
      obtain ⟨c, hctx⟩ := h.ctx_of
      obtain ⟨id, hid, hnames⟩ := (hctx ▸ hsound.main).some_of
      exact .main id c t h hid hctx hnames
  | cmd outcome t h =>
      by_cases hwaiting : d.sys.cmd = .waiting
      · obtain ⟨rfl, c, queue, hqueue, rfl⟩ := cmdStep_waiting hwaiting ht
        have hids := hsound.queue
        rw [hqueue] at hids
        obtain ⟨id, rest, -, -, hid⟩ := List.forall₂_cons_right_iff.mp hids
        simp only [Desk.follow, if_pos hwaiting, hid, List.head?_cons, List.tail_cons]
        exact .pop id rest c queue hwaiting hid hqueue
      · obtain ⟨c, hctx⟩ := h.ctx_of hwaiting
        obtain ⟨id, hid, hnames⟩ := (hctx ▸ hsound.cmd).some_of
        exact .cmd id c outcome t h ht hid hctx hnames
  | worker act t h =>
      have hfollow : d.follow act t = { d with sys := t } := by cases h <;> rfl
      rw [hfollow]
      exact .worker act t h

/-- A step leaves the connections alone that no party had at hand in it. -/
structure Touches (d d' : Desk) (id : Nat) (fails : Bool) (events : List Event) (place : Place) :
    Prop where
  connections : d'.connections = d.connections.modify id (Connection.record d.fds fails events)
  fds : d'.fds = release events d.fds
  here : d'.place id = place
  elsewhere : ∀ k, k ≠ id → d'.place k = d.place k

theorem Names.lt {id : Nat} {c : Ctx} (h : Names connections id c) : id < connections.length := by
  obtain ⟨hlt, -⟩ := List.getElem?_eq_some_iff.mp h
  simpa [heads] using hlt

theorem MainMove.cmd_eq (h : MainMove s t) : t.cmd = s.cmd := by
  cases h <;> rfl

theorem WorkerMove.cmd_eq {act : Act} (h : WorkerMove dir s act t) : t.cmd = s.cmd := by
  cases h <;> rfl

theorem WorkerMove.queue_eq {act : Act} (h : WorkerMove dir s act t) : t.queue = s.queue := by
  cases h <;> rfl

theorem place_main {id : Nat} (h : d.main = some id) : d.place id = .main d.sys.main := by
  simp [Desk.place, h]

theorem Desk.Sound.place_cmd {id : Nat} (hsound : d.Sound) (h : d.cmd = some id) :
    d.place id = .cmd d.sys.cmd := by
  have hmain : d.main ≠ some id := fun hmain => (hsound.main_only id hmain).1 h
  simp [Desk.place, h, hmain]

/-- The main thread keeps its command, passes it on, or is done with it. -/
inductive MainMove.Passes (c : Ctx) (s t : Sys) : Prop where
  | keeps (hctx : t.main.ctx = some c) (hqueue : t.queue = s.queue)
  | pushes (hctx : t.main = .idle) (hqueue : t.queue = s.queue ++ [c])
  | drops (hctx : t.main = .idle) (hqueue : t.queue = s.queue)

theorem MainMove.passes {c : Ctx} (h : MainMove s t) (hctx : s.main.ctx = some c) :
    MainMove.Passes c s t := by
  cases h with
  | pushCheckpoint | pushRestore =>
      cases hctx
      exact .pushes rfl rfl
  | close => exact .drops rfl rfl
  | _ =>
      cases hctx
      exact .keeps rfl rfl

section Steps

variable {id : Nat} {c : Ctx}

theorem place_of_done (hmain : d.main ≠ some id) (hcmd : d.cmd ≠ some id) (hqueue : id ∉ d.queue) :
    d.place id = .done := by
  simp [Desk.place, hmain, hcmd, hqueue]

theorem place_of_queue (hmain : d.main ≠ some id) (hcmd : d.cmd ≠ some id) (hqueue : id ∈ d.queue) :
    d.place id = .queue := by
  simp [Desk.place, hmain, hcmd, hqueue]

theorem place_congr {k : Nat} (hmain : d'.main = some k ↔ d.main = some k)
    (hcmd : d'.cmd = some k ↔ d.cmd = some k) (hqueue : k ∈ d'.queue ↔ k ∈ d.queue)
    (hmainPc : d.main = some k → d'.sys.main = d.sys.main)
    (hcmdPc : d.cmd = some k → d'.sys.cmd = d.sys.cmd) : d'.place k = d.place k := by
  unfold Desk.place
  by_cases hm : d.main = some k
  · rw [if_pos hm, if_pos (hmain.mpr hm), hmainPc hm]
  · rw [if_neg hm, if_neg (fun h => hm (hmain.mp h))]
    by_cases hc : d.cmd = some k
    · rw [if_pos hc, if_pos (hcmd.mpr hc), hcmdPc hc]
    · rw [if_neg hc, if_neg (fun h => hc (hcmd.mp h))]
      simp only [hqueue]

theorem WorkerMove.place_eq {act : Act} (h : WorkerMove dir d.sys act t) (k : Nat) :
    Desk.place { d with sys := t } k = d.place k :=
  place_congr Iff.rfl Iff.rfl Iff.rfl (fun _ => h.main_eq) fun _ => h.cmd_eq

theorem main_follow (hsound : d.Sound) (h : MainMove d.sys t) (hid : d.main = some id)
    (hctx : d.sys.main.ctx = some c) (hnames : Names d.connections id c) :
    (d.follow .main t).Sound ∧
      Touches d (d.follow .main t) id false (newEvents d.sys t) (mainAfter d.sys t) := by
  have hkeep : ∀ k c, Names d.connections k c →
      Names (d.connections.modify id (Connection.record d.fds false (newEvents d.sys t))) k c :=
    fun k c hk => hk.of_heads (heads_record ..)
  have hcmd := hsound.cmd.imp hkeep
  rw [← h.cmd_eq] at hcmd
  have hqueue := hsound.queue.imp hkeep
  obtain ⟨hnotcmd, hnotqueue⟩ := hsound.main_only id hid
  have hother {k : Nat} (hk : k ≠ id) : d.main ≠ some k :=
    fun hmain => hk (Option.some.inj (hid.symm.trans hmain)).symm
  cases h.passes hctx with
  | keeps hafter hsame =>
      have hfollow : d.follow .main t =
          { d.note (some id) false (newEvents d.sys t) with sys := t, main := some id } := by
        simp [Desk.follow, hid, hafter, hsame, Desk.note]
      have hplace : mainAfter d.sys t = .main t.main := by simp [mainAfter, hsame, hafter]
      rw [hfollow, hplace]
      refine ⟨?_, rfl, rfl, place_main rfl, fun k hk => ?_⟩
      · exact {
          main := hafter ▸ hkeep id c hnames
          cmd := hcmd
          queue := hsame ▸ hqueue
          main_only := fun k hk => Option.some.inj hk ▸ ⟨hnotcmd, hnotqueue⟩
          cmd_only := hsound.cmd_only
          queue_nodup := hsound.queue_nodup }
      · exact place_congr (by simp [hother hk, hk.symm]) Iff.rfl Iff.rfl
          (fun hmain => absurd hmain (hother hk)) fun _ => h.cmd_eq
  | pushes hidle hpushed =>
      have hfollow : d.follow .main t =
          { d.note (some id) false (newEvents d.sys t) with
            sys := t, main := none, queue := d.queue ++ [id] } := by
        simp [Desk.follow, hid, hidle, hpushed, Desk.note, MainPc.ctx]
      have hplace : mainAfter d.sys t = .queue := by simp [mainAfter, hpushed]
      rw [hfollow, hplace]
      refine ⟨?_, rfl, rfl, place_of_queue (by simp) hnotcmd (by simp), fun k hk => ?_⟩
      · exact {
          main := hidle ▸ trivial
          cmd := hcmd
          queue := hpushed ▸ List.rel_append hqueue (.cons (hkeep id c hnames) .nil)
          main_only := by simp
          cmd_only := fun k hk => by
            have hne : k ≠ id := fun heq => hnotcmd (heq ▸ hk)
            simpa [hne] using hsound.cmd_only k hk
          queue_nodup := List.nodup_append.mpr ⟨hsound.queue_nodup, by simp, by
            rintro k hk other hother rfl
            exact hnotqueue (List.mem_singleton.mp hother ▸ hk)⟩ }
      · exact place_congr (by simp [hother hk]) Iff.rfl (by simp [hk])
          (fun hmain => absurd hmain (hother hk)) fun _ => h.cmd_eq
  | drops hidle hsame =>
      have hfollow : d.follow .main t =
          { d.note (some id) false (newEvents d.sys t) with sys := t, main := none } := by
        simp [Desk.follow, hid, hidle, hsame, Desk.note, MainPc.ctx]
      have hplace : mainAfter d.sys t = .done := by simp [mainAfter, hsame, hidle, MainPc.ctx]
      rw [hfollow, hplace]
      refine ⟨?_, rfl, rfl, place_of_done (by simp) hnotcmd hnotqueue, fun k hk => ?_⟩
      · exact {
          main := hidle ▸ trivial
          cmd := hcmd
          queue := hsame ▸ hqueue
          main_only := by simp
          cmd_only := hsound.cmd_only
          queue_nodup := hsound.queue_nodup }
      · exact place_congr (by simp [hother hk]) Iff.rfl Iff.rfl
          (fun hmain => absurd hmain (hother hk)) fun _ => h.cmd_eq

theorem CmdMove.passes (h : CmdMove dir s t) (hctx : s.cmd.ctx = some c) :
    t.queue = s.queue ∧ (t.cmd.ctx = some c ∨ t.cmd.ctx = none) := by
  cases h with
  | queue h =>
      cases h with
      | pop => cases hctx
      | closeCd => exact ⟨rfl, Or.inr rfl⟩
      | _ => exact ⟨rfl, Or.inl hctx⟩
  | checkpoint h =>
      cases h with
      | noSockets => exact ⟨rfl, Or.inr rfl⟩
      | _ => exact ⟨rfl, Or.inl hctx⟩
  | restore h => cases h <;> exact ⟨rfl, Or.inl hctx⟩

theorem cmd_follow {outcome : Outcome} (hsound : d.Sound) (h : CmdMove dir d.sys t)
    (hid : d.cmd = some id) (hctx : d.sys.cmd.ctx = some c) (hnames : Names d.connections id c) :
    (d.follow (.cmd outcome) t).Sound ∧
      Touches d (d.follow (.cmd outcome) t) id (d.sys.startFails (.cmd outcome))
        (newEvents d.sys t) (cmdAfter t) := by
  have hkeep : ∀ k c, Names d.connections k c →
      Names (d.connections.modify id (Connection.record d.fds (d.sys.startFails (.cmd outcome))
        (newEvents d.sys t))) k c :=
    fun k c hk => hk.of_heads (heads_record ..)
  have hbusy : d.sys.cmd ≠ .waiting := fun hwaiting => by simp [hwaiting, CmdPc.ctx] at hctx
  have hmain := hsound.main.imp hkeep
  rw [← h.main_eq] at hmain
  have hqueue := hsound.queue.imp hkeep
  have hnotmain : d.main ≠ some id := fun hmain => (hsound.main_only id hmain).1 hid
  have hnotqueue := hsound.cmd_only id hid
  have hother {k : Nat} (hk : k ≠ id) : d.cmd ≠ some k :=
    fun hcmd => hk (Option.some.inj (hid.symm.trans hcmd)).symm
  obtain ⟨hsame, hafter | hnone⟩ := h.passes hctx
  · have hfollow : d.follow (.cmd outcome) t =
        { d.note (some id) (d.sys.startFails (.cmd outcome)) (newEvents d.sys t) with
          sys := t, cmd := some id } := by
      simp [Desk.follow, hid, hbusy, hafter, Desk.note]
    have hplace : cmdAfter t = .cmd t.cmd := by simp [cmdAfter, hafter]
    rw [hfollow, hplace]
    have hsound' : Desk.Sound
        { d.note (some id) (d.sys.startFails (.cmd outcome)) (newEvents d.sys t) with
          sys := t, cmd := some id } := {
      main := hmain
      cmd := hafter ▸ hkeep id c hnames
      queue := hsame ▸ hqueue
      main_only := fun k hk => ⟨hid ▸ (hsound.main_only k hk).1, (hsound.main_only k hk).2⟩
      cmd_only := fun k hk => Option.some.inj hk ▸ hnotqueue
      queue_nodup := hsound.queue_nodup }
    refine ⟨hsound', rfl, rfl, hsound'.place_cmd rfl, fun k hk => ?_⟩
    exact place_congr Iff.rfl (by simp [hother hk, hk.symm]) Iff.rfl (fun _ => h.main_eq)
      fun hcmd => absurd hcmd (hother hk)
  · have hfollow : d.follow (.cmd outcome) t =
        { d.note (some id) (d.sys.startFails (.cmd outcome)) (newEvents d.sys t) with
          sys := t, cmd := none } := by
      simp [Desk.follow, hid, hbusy, hnone, Desk.note]
    have hplace : cmdAfter t = .done := by simp [cmdAfter, hnone]
    rw [hfollow, hplace]
    refine ⟨?_, rfl, rfl, place_of_done hnotmain (by simp) hnotqueue, fun k hk => ?_⟩
    · exact {
        main := hmain
        cmd := hnone ▸ trivial
        queue := hsame ▸ hqueue
        main_only := fun k hk => ⟨by simp, (hsound.main_only k hk).2⟩
        cmd_only := by simp
        queue_nodup := hsound.queue_nodup }
    · exact place_congr Iff.rfl (by simp [hother hk]) Iff.rfl (fun _ => h.main_eq)
        fun hcmd => absurd hcmd (hother hk)

theorem pop_follow {rest : List Nat} {queue : List Ctx} (hsound : d.Sound)
    (hid : d.queue = id :: rest) (hwaiting : d.sys.cmd = .waiting)
    (hqueue : d.sys.queue = c :: queue)
    (d' : Desk) (hd' : d' = { d with
      sys := { d.sys with cmd := dispatch c, queue := queue }, cmd := some id, queue := rest }) :
    d'.Sound ∧ d'.place id = .cmd (dispatch c) ∧ ∀ k, k ≠ id → d'.place k = d.place k := by
  subst hd'
  have hnone : d.cmd = none := by
    have hcmd := hsound.cmd
    rw [hwaiting] at hcmd
    exact hcmd.eq_none
  have hids := hsound.queue
  rw [hid, hqueue] at hids
  obtain ⟨hnames, hrest⟩ := List.forall₂_cons.mp hids
  have hnodup := hsound.queue_nodup
  rw [hid, List.nodup_cons] at hnodup
  have hctx : (dispatch c).ctx = some c := by
    rcases dispatch_cases c with ⟨-, h⟩ | ⟨-, h | h⟩ <;> rw [h] <;> rfl
  have hsound' : Desk.Sound { d with
      sys := { d.sys with cmd := dispatch c, queue := queue }, cmd := some id, queue := rest } := {
    main := hsound.main
    cmd := hctx ▸ hnames
    queue := hrest
    main_only := fun k hk => by
      have hnot := (hsound.main_only k hk).2
      rw [hid, List.mem_cons, not_or] at hnot
      exact ⟨fun heq => hnot.1 (Option.some.inj heq).symm, hnot.2⟩
    cmd_only := fun k hk => Option.some.inj hk ▸ hnodup.1
    queue_nodup := hnodup.2 }
  refine ⟨hsound', hsound'.place_cmd rfl, fun k hk => ?_⟩
  exact place_congr Iff.rfl (by simp [hnone, hk.symm]) (by simp [hid, hk]) (fun _ => rfl)
    (by simp [hnone])

theorem AcceptMove.ctx_of {cd : Nat} {command : Option ServiceCommand}
    (h : AcceptMove cd command s t) :
    s.main = .idle ∧ t.cmd = s.cmd ∧ t.queue = s.queue ∧
      t.main.ctx = command.map fun command => ⟨command, cd⟩ := by
  cases h <;> exact ⟨rfl, rfl, rfl, rfl⟩

theorem AcceptMove.events_eq {cd : Nat} {command : Option ServiceCommand}
    (h : AcceptMove cd command s t) :
    newEvents s t = [command.elim (.closed cd) Event.received] := by
  cases h <;> exact newEvents_eq [_] rfl

theorem accept_follow {cd : Nat} {command : Option ServiceCommand} (hsound : d.Sound)
    (h : AcceptMove cd command d.sys t) :
    (d.follow (.accept cd command) t).Sound ∧
      (d.follow (.accept cd command) t).place d.connections.length =
        (if command.isSome then .main t.main else .done) ∧
      ∀ k, k ≠ d.connections.length → (d.follow (.accept cd command) t).place k = d.place k := by
  obtain ⟨hidle, hcmd, hqueue, hctx⟩ := h.ctx_of
  have hmain : d.main = none := by
    have hmain := hsound.main
    rw [hidle] at hmain
    exact hmain.eq_none
  have hnotcmd : d.cmd ≠ some d.connections.length := by
    intro heq
    have hserves := hsound.cmd
    rw [heq] at hserves
    cases hctx : d.sys.cmd.ctx with
    | none =>
        rw [hctx] at hserves
        exact hserves.elim
    | some c =>
        rw [hctx] at hserves
        exact absurd hserves.lt (lt_irrefl _)
  have hnotqueue : d.connections.length ∉ d.queue := by
    intro hmem
    obtain ⟨i, hi, hget⟩ := List.getElem_of_mem hmem
    have hnames := (List.forall₂_iff_get.mp hsound.queue).2 i hi
      ((List.forall₂_iff_get.mp hsound.queue).1 ▸ hi)
    simp only [List.get_eq_getElem, hget] at hnames
    exact absurd hnames.lt (lt_irrefl _)
  have hfollow : (d.follow (.accept cd command) t).main =
      command.map fun _ => d.connections.length := by
    simp only [Desk.follow, hctx, Option.map_map]
    rfl
  refine ⟨?_, ?_, fun k hk => ?_⟩
  · refine {
      main := ?_
      cmd := hcmd ▸ hsound.cmd.imp fun _ _ hk => hk.concat _
      queue := hqueue ▸ hsound.queue.imp fun _ _ hk => hk.concat _
      main_only := fun k hk => ?_
      cmd_only := hsound.cmd_only
      queue_nodup := hsound.queue_nodup }
    · rw [hfollow]
      change Serves _ _ t.main.ctx
      rw [hctx]
      cases command with
      | none => trivial
      | some command => simp [Serves, Names, heads, Desk.follow, Connection.record]
    · rw [hfollow] at hk
      cases command with
      | none => cases hk
      | some command => exact Option.some.inj hk ▸ ⟨hnotcmd, hnotqueue⟩
  · cases command with
    | none => exact place_of_done (by rw [hfollow]; simp) hnotcmd hnotqueue
    | some command => exact place_main hfollow
  · refine place_congr ?_ Iff.rfl Iff.rfl (by simp [hmain]) fun _ => hcmd
    rw [hfollow, hmain]
    cases command <;> simp [hk.symm]

end Steps

theorem LedgerMove.sound {act : Act} (h : LedgerMove dir d act d') (hsound : d.Sound) :
    d'.Sound := by
  cases h with
  | accept cd command t h => exact (accept_follow hsound h).1
  | main id c t h hid hctx hnames => exact (main_follow hsound h hid hctx hnames).1
  | pop id rest c queue hwaiting hid hqueue =>
      exact (pop_follow hsound hid hwaiting hqueue _ rfl).1
  | cmd id c outcome t h hstep hid hctx hnames => exact (cmd_follow hsound h hid hctx hnames).1
  | worker act t h =>
      exact {
        main := h.main_eq ▸ hsound.main
        cmd := h.cmd_eq ▸ hsound.cmd
        queue := h.queue_eq ▸ hsound.queue
        main_only := hsound.main_only
        cmd_only := hsound.cmd_only
        queue_nodup := hsound.queue_nodup }

theorem Touches.indexed (fits : Nat → Place → Connection → Prop) {id : Nat} {fails : Bool}
    {events : List Event} {place : Place} (h : Touches d d' id fails events place)
    (hfits : Indexed (fun k x => fits k (d.place k) x) d.connections)
    (hid : ∀ x, d.connections[id]? = some x → fits id (d.place id) x →
      fits id place (x.record d.fds fails events)) :
    Indexed (fun k x => fits k (d'.place k) x) d'.connections := by
  rw [h.connections]
  intro k x hx
  obtain ⟨old, hold, rfl⟩ := getElem?_modify_eq_some hx
  split
  · rename_i heq
    subst heq
    rw [h.here]
    exact hid old hold (hfits id old hold)
  · rename_i hne
    rw [h.elsewhere k (Ne.symm hne)]
    exact hfits k old hold

theorem Names.cd_eq {id : Nat} {c : Ctx} {x : Connection} (h : Names connections id c)
    (hx : connections[id]? = some x) : x.cd = c.cd := by
  rw [Names, heads, List.getElem?_map, hx] at h
  exact (Prod.mk.inj (Option.some.inj h)).1

@[simp] theorem Desk.follow_sys (d : Desk) (act : Act) (t : Sys) : (d.follow act t).sys = t := by
  cases act with
  | cmd outcome =>
      simp only [Desk.follow]
      split <;> rfl
  | _ => rfl

theorem Desk.Sound.place_queue {id : Nat} (hsound : d.Sound) (hmem : id ∈ d.queue) :
    d.place id = .queue :=
  place_of_queue (fun h => (hsound.main_only id h).2 hmem) (fun h => hsound.cmd_only id h hmem) hmem

theorem sound_boot (table : Table) : (Desk.boot table).Sound where
  main := trivial
  cmd := trivial
  queue := .nil
  main_only := by simp [Desk.boot]
  cmd_only := by simp [Desk.boot]
  queue_nodup := List.nodup_nil

theorem run_desk (d : Desk) (acts : List Act) :
    (run (deskStep dir) d acts).map Desk.sys = run (step dir) d.sys acts := by
  refine run_map Desk.sys (fun d act => ?_) d acts
  have hsys : Desk.sys ∘ d.follow act = id := funext (d.follow_sys act)
  rw [deskStep, Option.map_map, hsys, Option.map_id, id]

end Memcr.ServiceSystem
