import Memcr.ClientConnections

namespace Memcr.ServiceSystem

open Memcr.GuardedRuns
open Memcr.IndexedLists
open Memcr.ServiceTable
open Memcr.WorkerProcess

/-- `accept` returns a number that no open connection has. -/
def Desk.acceptsFree (d : Desk) : Act → Bool
  | .accept cd _ => (d.fds cd).isNone
  | _ => true

/-- `socketpair` does not fail, and a RESTORE that is handled finds a worker. -/
def Sys.closesOnce (s : Sys) : Act → Bool
  | .cmd .fails =>
      match s.cmd with
      | .starting _ .socketpair => false
      | _ => true
  | .cmd .done =>
      match s.cmd with
      | .getWorker c => getPidWorker c.pid s.table != pidInvalid
      | _ => true
  | _ => true

/-- The command thread is not on the branch that closes the descriptor by
itself. -/
def CmdPc.closesLast : CmdPc → Prop
  | .ending _ .respondNoWorker | .ending _ .closeNoWorker => False
  | _ => True

/-- What has been closed of connection `id`. -/
def Place.closes (id : Nat) : Place → List (Option Nat)
  | .done => [some id]
  | _ => []

/-- A connection in hand is open under its descriptor; one that the service is
done with has been closed once, and it was itself that was closed. -/
structure ClosedOnce (d : Desk) : Prop where
  closed : Indexed (fun k x => x.closes = (d.place k).closes k) d.connections
  held : ∀ k x, d.connections[k]? = some x → d.place k ≠ .done → d.fds x.cd = some k

/-- A party closes the descriptor of the command it has at hand when it gets done
with it, and no other. -/
inductive Closes (c : Ctx) (s t : Sys) : Place → Prop where
  | keeps {after : Place} (hnone : closesIn (newEvents s t) = []) (hafter : after ≠ .done) :
      Closes c s t after
  | closes (hown : closesIn (newEvents s t) = [c.cd]) : Closes c s t .done

variable {dir : Bool} {s t : Sys} {d d' : Desk} {c : Ctx} {after : Place}

theorem Place.closes_of_ne {id : Nat} {place : Place} (h : place ≠ .done) :
    place.closes id = [] := by
  cases place with
  | done => exact absurd rfl h
  | _ => rfl

theorem keeps_of_log (events : List Event) (hlog : t.log = events ++ s.log)
    (hnone : closesIn events = []) (hafter : after ≠ .done) : Closes c s t after :=
  .keeps (by rw [newEvents_eq events hlog, hnone]) hafter

theorem closes_of_log (hlog : t.log = .closed c.cd :: s.log) : Closes c s t .done :=
  .closes (by rw [newEvents_eq [.closed c.cd] hlog]; rfl)

theorem closesIn_abortEvents (cmd : CmdPc) (sent : Option Int) :
    closesIn (abortEvents cmd sent) = [] := by
  cases sent <;> rfl

theorem MainMove.closes (h : MainMove s t) (hctx : s.main.ctx = some c) :
    Closes c s t (mainAfter s t) := by
  have hkept (hmain : t.main ≠ .idle) : mainAfter s t ≠ .done := by
    unfold mainAfter
    split
    · simp
    · rw [if_pos (by cases hmain' : t.main <;> simp_all [MainPc.ctx])]
      simp
  cases h with
  | initPid s c =>
      cases hfree : s.table.any fun slot => slot.pid == pidInvalid with
      | true => exact keeps_of_log [.created c.pid] rfl rfl (hkept (by simp))
      | false => exact keeps_of_log [] rfl rfl (hkept (by simp))
  | tryAbort s c =>
      exact keeps_of_log _ rfl (closesIn_abortEvents ..) (hkept (by simp [Sys.logAbort]))
  | respond s c code => exact keeps_of_log [.responded c.cd code] rfl rfl (hkept (by simp))
  | pushCheckpoint s c | pushRestore s c => exact keeps_of_log [] rfl rfl (by simp [mainAfter])
  | close s c =>
      cases hctx
      have hafter : mainAfter { s with main := .close c }
          { s with main := .idle, log := .closed c.cd :: s.log } = .done := by
        simp [mainAfter, MainPc.ctx]
      exact hafter ▸ closes_of_log rfl
  | _ => exact keeps_of_log [] rfl rfl (hkept (by simp))

theorem cmdAfter_ne_done (hctx : t.cmd.ctx = some c) : cmdAfter t ≠ .done := by
  simp [cmdAfter, hctx]

theorem CheckpointMove.closes {outcome : Outcome} (h : CheckpointMove dir s t)
    (hstep : cmdStep dir s outcome = some t) (hguard : s.closesOnce (.cmd outcome) = true)
    (hctx : s.cmd.ctx = some c) : Closes c s t (cmdAfter t) := by
  cases h with
  | noSockets s c =>
      cases outcome with
      | fails => cases hguard
      | _ => cases hstep
  | setCheckpointing s c sd =>
      exact keeps_of_log _ rfl (closesIn_abortEvents ..) (cmdAfter_ne_done hctx)
  | killTarget s c sd worker =>
      exact keeps_of_log [.killed c.pid c.pid worker] rfl rfl (cmdAfter_ne_done hctx)
  | killWorker s c sd worker =>
      exact keeps_of_log [.killed worker c.pid worker] rfl rfl (cmdAfter_ne_done hctx)
  | respond s c sd worker k code =>
      exact keeps_of_log [.responded c.cd code] rfl rfl (cmdAfter_ne_done hctx)
  | _ => exact keeps_of_log [] rfl rfl (cmdAfter_ne_done hctx)

theorem RestoreMove.closes (h : RestoreMove dir s t) (hctx : s.cmd.ctx = some c) :
    Closes c s t (cmdAfter t) := by
  cases h with
  | killTarget s c worker =>
      exact keeps_of_log [.killed c.pid c.pid worker] rfl rfl (cmdAfter_ne_done hctx)
  | killWorker s c worker =>
      exact keeps_of_log [.killed worker c.pid worker] rfl rfl (cmdAfter_ne_done hctx)
  | respond s c worker code =>
      exact keeps_of_log [.responded c.cd code] rfl rfl (cmdAfter_ne_done hctx)
  | _ => exact keeps_of_log [] rfl rfl (cmdAfter_ne_done hctx)

theorem CmdMove.closes {outcome : Outcome} (h : CmdMove dir s t)
    (hstep : cmdStep dir s outcome = some t) (hguard : s.closesOnce (.cmd outcome) = true)
    (hlast : s.cmd.closesLast) (hctx : s.cmd.ctx = some c) : Closes c s t (cmdAfter t) := by
  cases h with
  | queue h =>
      cases h with
      | pop => cases hctx
      | closeSd => exact keeps_of_log [] rfl rfl (cmdAfter_ne_done hctx)
      | respondNoWorker | closeNoWorker => exact hlast.elim
      | closeCd s c =>
          cases hctx
          exact closes_of_log rfl
  | checkpoint h => exact h.closes hstep hguard hctx
  | restore h => exact h.closes hctx

theorem dispatch_closesLast (c : Ctx) : (dispatch c).closesLast := by
  rcases dispatch_cases c with ⟨-, h⟩ | ⟨-, h | h⟩ <;> rw [h] <;> trivial

theorem CmdMove.closesLast {outcome : Outcome} (h : CmdMove dir s t)
    (hstep : cmdStep dir s outcome = some t) (hguard : s.closesOnce (.cmd outcome) = true)
    (hlast : s.cmd.closesLast) : t.cmd.closesLast := by
  cases h with
  | queue h =>
      cases h with
      | pop s c => exact dispatch_closesLast c
      | respondNoWorker | closeNoWorker => exact hlast.elim
      | _ => trivial
  | checkpoint h => cases h <;> trivial
  | restore h =>
      cases h with
      | noWorker s c hlock hworker =>
          cases outcome with
          | done => exact absurd hworker (by simpa [Sys.closesOnce] using hguard)
          | _ => cases hstep
      | _ => trivial

theorem ClosedOnce.touches {id : Nat} {fails : Bool} (h : ClosedOnce d)
    (htouches : Touches d d' id fails (newEvents d.sys t) after) (hcloses : Closes c d.sys t after)
    (hnames : Names d.connections id c) (hhere : d.place id ≠ .done) : ClosedOnce d' := by
  have hcd (x : Connection) (hx : d.connections[id]? = some x) : d.fds c.cd = some id :=
    hnames.cd_eq hx ▸ h.held id x hx hhere
  constructor
  · refine htouches.indexed (fun k place x => x.closes = place.closes k) h.closed ?_
    intro x hx hbefore
    rw [Place.closes_of_ne hhere] at hbefore
    cases hcloses with
    | keeps hnone hafter =>
        rw [Place.closes_of_ne hafter, Connection.record, hnone, hbefore]
        rfl
    | closes hown =>
        rw [Connection.record, hown, hbefore, List.map_singleton, hcd x hx]
        rfl
  · intro k x hx hplace
    rw [htouches.connections] at hx
    obtain ⟨old, hold, rfl⟩ := getElem?_modify_eq_some hx
    have hsame :
        (if id = k then old.record d.fds fails (newEvents d.sys t) else old).cd = old.cd := by
      split <;> rfl
    rw [hsame, htouches.fds]
    cases hcloses with
    | keeps hnone hafter =>
        have hbefore : d.place k ≠ .done := by
          by_cases hk : k = id
          · exact hk ▸ hhere
          · rwa [htouches.elsewhere k hk] at hplace
        rw [release, hnone, if_neg List.not_mem_nil]
        exact h.held k old hold hbefore
    | closes hown =>
        have hk : k ≠ id := fun heq => hplace (heq ▸ htouches.here)
        have hheld := h.held k old hold (htouches.elsewhere k hk ▸ hplace)
        obtain ⟨x, hx⟩ : ∃ x, d.connections[id]? = some x := ⟨_, List.getElem?_eq_getElem hnames.lt⟩
        have hne : old.cd ≠ c.cd := by
          intro heq
          rw [heq, hcd x hx] at hheld
          exact hk (Option.some.inj hheld).symm
        rw [release, hown, if_neg (by simpa using hne)]
        exact hheld

theorem ClosedOnce.of_places (h : ClosedOnce d) (hconnections : d'.connections = d.connections)
    (hfds : d'.fds = d.fds) (hplace : ∀ k, d'.place k = .done ↔ d.place k = .done) :
    ClosedOnce d' := by
  have hcloses (k : Nat) : (d'.place k).closes k = (d.place k).closes k := by
    by_cases hdone : d.place k = .done
    · rw [hdone, (hplace k).mpr hdone]
    · rw [Place.closes_of_ne hdone, Place.closes_of_ne fun hafter => hdone ((hplace k).mp hafter)]
  constructor
  · intro k x hx
    rw [hconnections] at hx
    rw [hcloses]
    exact h.closed k x hx
  · intro k x hx hafter
    rw [hconnections] at hx
    rw [hfds]
    exact h.held k x hx fun hdone => hafter ((hplace k).mpr hdone)

theorem ClosedOnce.accept {cd : Nat} {command : Option ServiceCommand} (hsound : d.Sound)
    (h : ClosedOnce d) (hmove : AcceptMove cd command d.sys t) (hfree : d.fds cd = none) :
    ClosedOnce (d.follow (.accept cd command) t) := by
  obtain ⟨-, hnew, hold⟩ := accept_follow hsound hmove
  have hlt {k : Nat} {x : Connection} (hx : d.connections[k]? = some x) :
      k ≠ d.connections.length := Nat.ne_of_lt (List.getElem?_eq_some_iff.mp hx).1
  have hevents := hmove.events_eq
  constructor
  · refine Indexed.concat (fun k x hx => ?_) ?_
    · rw [hold k (hlt hx)]
      exact h.closed k x hx
    · rw [hnew, hevents]
      cases command with
      | none => simp [Connection.record, closesIn, Event.close, Place.closes]
      | some command => simp [Connection.record, closesIn, Event.close, Place.closes]
  · intro k x hx hplace
    rcases getElem?_concat_eq_some hx with hx | ⟨rfl, rfl⟩
    · rw [hold k (hlt hx)] at hplace
      have hheld := h.held k x hx hplace
      have hne : x.cd ≠ cd := by
        intro heq
        rw [heq, hfree] at hheld
        cases hheld
      have hkept : x.cd ∉ closesIn (newEvents d.sys t) := by
        rw [hevents]
        cases command <;> simp [closesIn, Event.close, hne]
      simpa [Desk.follow, release, hkept, hne] using hheld
    · cases command with
      | none => exact absurd hnew hplace
      | some command =>
          simp [Desk.follow, release, hevents, Connection.record, closesIn, Event.close]

/-- A number is free for the next `accept` once it is closed, so every descriptor is
closed once and by the party that has it last. -/
structure CloseInvariant (d : Desk) : Prop where
  sound : d.Sound
  last : d.sys.cmd.closesLast
  once : ClosedOnce d

theorem CloseInvariant.step {act : Act} (hinv : CloseInvariant d)
    (hfree : d.acceptsFree act = true) (hguard : d.sys.closesOnce act = true)
    (hstep : deskStep dir d act = some d') : CloseInvariant d' := by
  have hmove := deskStep_move hinv.sound hstep
  have hsound := hmove.sound hinv.sound
  cases hmove with
  | accept cd command t h =>
      exact ⟨hsound, h.ctx_of.2.1 ▸ hinv.last,
        hinv.once.accept hinv.sound h (Option.isNone_iff_eq_none.mp hfree)⟩
  | main id c t h hid hctx hnames =>
      refine ⟨hsound, h.cmd_eq ▸ hinv.last, ?_⟩
      refine hinv.once.touches (main_follow hinv.sound h hid hctx hnames).2 (h.closes hctx) hnames
        ?_
      rw [place_main hid]
      simp
  | pop id rest c queue hwaiting hid hqueue =>
      obtain ⟨-, hnew, hold⟩ := pop_follow hinv.sound hid hwaiting hqueue _ rfl
      refine ⟨hsound, dispatch_closesLast c, hinv.once.of_places rfl rfl fun k => ?_⟩
      by_cases hk : k = id
      · subst hk
        rw [hnew, hinv.sound.place_queue (by simp [hid])]
        simp
      · rw [hold k hk]
  | cmd id c outcome t h hcmd hid hctx hnames =>
      refine ⟨hsound, ?_, ?_⟩
      · rw [Desk.follow_sys]
        exact h.closesLast hcmd hguard hinv.last
      · refine hinv.once.touches (cmd_follow hinv.sound h hid hctx hnames).2
          (h.closes hcmd hguard hinv.last hctx) hnames ?_
        rw [hinv.sound.place_cmd hid]
        simp
  | worker act t h =>
      refine ⟨hsound, h.cmd_eq ▸ hinv.last, hinv.once.of_places rfl rfl fun k => ?_⟩
      rw [h.place_eq]

theorem closeInvariant_boot (table : Table) : CloseInvariant (Desk.boot table) where
  sound := sound_boot table
  last := trivial
  once := ⟨indexed_nil, by simp [Desk.boot]⟩

/-- In every run in which `socketpair` does not fail and every RESTORE that is
handled finds a worker, a connection is closed once, when the service gets done
with it, and its descriptor then still stands for it. -/
theorem descriptor_closed_once (dir : Bool) (table : Table) (acts : List Act) (d : Desk)
    (hfree : Guarded (deskStep dir) (fun d act => d.acceptsFree act = true) (Desk.boot table) acts)
    (hguard : Guarded (deskStep dir) (fun d act => d.sys.closesOnce act = true)
      (Desk.boot table) acts)
    (hrun : run (deskStep dir) (Desk.boot table) acts = some d) (id : Nat) (x : Connection)
    (hx : d.connections[id]? = some x) :
    x.closes = (d.place id).closes id := by
  have hkeeps (d : Desk) (act : Act) (d' : Desk) (hinv : CloseInvariant d)
      (hboth : d.acceptsFree act = true ∧ d.sys.closesOnce act = true)
      (hstep : deskStep dir d act = some d') : CloseInvariant d' :=
    hinv.step hboth.1 hboth.2 hstep
  have hinv : CloseInvariant d :=
    invariant_of_guarded hkeeps (closeInvariant_boot table) (hfree.and hguard) hrun
  exact hinv.once.closed id x hx

theorem checkpointed_closed_once :
    ∃ d x, run (deskStep false) (Desk.boot Table.zero)
        (checkpointed ++ [.cmd .done, .cmd .done]) = some d ∧
      d.connections[0]? = some x ∧ x.closes = [some 0] := by
  refine ⟨_, ⟨4, some checkpointFive, [(4, .ok)], [some 0], false⟩, rfl, rfl, ?_⟩
  exact descriptor_closed_once false Table.zero (checkpointed ++ [.cmd .done, .cmd .done]) _
    (by decide) (by decide) rfl 0 _ rfl

/-- A RESTORE of pid 0 whose descriptor number is given to another client before it is
closed again. -/
def restoreZero : List Act :=
  [.accept 4 (some { cmd := memcrRestore, pid := pidInvalid, cmd_lt := restoreFive.cmd_lt }),
    .main, .main, .main,
    .cmd .done, .cmd .done, .cmd .done, .cmd .done, .accept 4 (some checkpointFive), .cmd .done]

theorem restoreZero_closes_other :
    ∃ d x, run (deskStep false) (Desk.boot Table.zero) restoreZero = some d ∧
      Guarded (deskStep false) (fun d act => d.acceptsFree act = true) (Desk.boot Table.zero)
        restoreZero ∧
      d.connections[0]? = some x ∧ x.closes = [some 1, some 0] := by
  exact ⟨_, ⟨4, some { cmd := memcrRestore, pid := pidInvalid }, [(4, .errorGeneral)],
    [some 1, some 0], false⟩, rfl, by decide, rfl, rfl⟩

end Memcr.ServiceSystem
