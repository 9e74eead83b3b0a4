import Memcr.RingBuffers
import Memcr.ServiceSystem

namespace Memcr.CommandQueue

open Memcr.RingBuffers
open Memcr.ServiceSystem
open Memcr.WorkerProcess

/-- `service_cmds_ctx` -/
structure ServiceCmds where
  ring : RingBuffer Ctx
  interrupt : Bool

/-- An element of `svc_ctxs` in static storage. -/
def Ctx.zero : Ctx := ⟨ServiceCommand.ofBytes [], 0⟩

def ServiceCmds.start : ServiceCmds where
  ring := ⟨List.replicate maxClientConnections Ctx.zero, 0, 0, 0⟩
  interrupt := false

/-- `service_cmds_push_back` -/
def serviceCmdsPushBack (ctx : Ctx) (q : ServiceCmds) : Int × ServiceCmds :=
  if maxClientConnections ≤ q.ring.size then (1, q)
  else (0, { q with ring := q.ring.pushBack maxClientConnections ctx })

/-- What one turn with the lock comes to: `pthread_cond_wait` gives the lock away again,
or the call returns. -/
inductive PopTurn where
  | waits
  | returns (ret : Int) (ctx : Option Ctx)
  deriving DecidableEq, Repr

/-- A turn of `service_cmds_wait_and_pop_front`; `ret` is 0 at first and then
what `pthread_cond_wait` has returned. -/
def serviceCmdsWaitAndPopFront (ret : Int) (q : ServiceCmds) : PopTurn × ServiceCmds :=
  if q.ring.size = 0 ∧ q.interrupt = false ∧ ret = 0 then (.waits, q)
  else if ret = 0 ∧ 0 < q.ring.size ∧ q.interrupt = false then
    (.returns ret q.ring.front, { q with ring := q.ring.popFront maxClientConnections })
  else if q.interrupt then (.returns 1 none, q)
  else (.returns ret none, q)

/-- `service_cmds_interrupt` -/
def serviceCmdsInterrupt (q : ServiceCmds) : ServiceCmds := { q with interrupt := true }

/-- A turn with the lock of the queue. A call that waits takes one every time it is
woken up. -/
inductive Call where
  | pushBack (ctx : Ctx)
  | popFront (ret : Int)
  | interrupt
  deriving DecidableEq, Repr

inductive Result where
  | pushed (ret : Int)
  | popped (turn : PopTurn)
  | interrupted
  deriving DecidableEq, Repr

/-- The turn on the array of memcr.c. -/
def serviceCall : Call → ServiceCmds → Result × ServiceCmds
  | .pushBack ctx, q => ((serviceCmdsPushBack ctx q).map .pushed id)
  | .popFront ret, q => ((serviceCmdsWaitAndPopFront ret q).map .popped id)
  | .interrupt, q => (.interrupted, serviceCmdsInterrupt q)

/-- What the queue is for: a list of commands, and whether it was interrupted. -/
structure Fifo where
  items : List Ctx
  interrupted : Bool

def Fifo.start : Fifo := ⟨[], false⟩

/-- The turn on the list. -/
def fifoCall : Call → Fifo → Result × Fifo
  | .pushBack ctx, f =>
      if f.items.length = maxClientConnections then (.pushed 1, f)
      else (.pushed 0, { f with items := f.items ++ [ctx] })
  | .popFront ret, f =>
      if f.interrupted then (.popped (.returns 1 none), f)
      else if ret ≠ 0 then (.popped (.returns ret none), f)
      else
        match f.items with
        | [] => (.popped .waits, f)
        | ctx :: rest => (.popped (.returns 0 (some ctx)), { f with items := rest })
  | .interrupt, f => (.interrupted, { f with interrupted := true })

def runCalls {σ : Type} (call : Call → σ → Result × σ) :
    List Call → σ → List (Call × Result) × σ
  | [], s => ([], s)
  | c :: rest, s =>
      let (result, s) := call c s
      let (log, s) := runCalls call rest s
      ((c, result) :: log, s)

def accepted : Call × Result → Option Ctx
  | (.pushBack ctx, .pushed ret) => if ret = 0 then some ctx else none
  | _ => none

def popped : Call × Result → Option Ctx
  | (_, .popped (.returns ret ctx)) => if ret = 0 then ctx else none
  | _ => none

/-- The array holds the list. -/
structure Refines (q : ServiceCmds) (f : Fifo) : Prop where
  holds : Holds maxClientConnections q.ring f.items
  interrupt : q.interrupt = f.interrupted

section Refinement

variable {q : ServiceCmds} {f : Fifo} {ctx : Ctx}

theorem refines_start : Refines ServiceCmds.start Fifo.start where
  holds := holds_empty (by decide : 0 < (List.replicate maxClientConnections Ctx.zero).length)
  interrupt := rfl

theorem Refines.size_full (h : Refines q f) :
    maxClientConnections ≤ q.ring.size ↔ f.items.length = maxClientConnections := by
  rw [h.holds.size]
  exact ⟨fun hfull => le_antisymm h.holds.fits hfull, fun hfull => hfull.ge⟩

theorem Refines.pushBack_fails_iff (h : Refines q f) (ctx : Ctx) :
    (serviceCmdsPushBack ctx q).1 ≠ 0 ↔ f.items.length = maxClientConnections := by
  rw [← h.size_full, serviceCmdsPushBack]
  split_ifs with hfull <;> simp [hfull]

theorem Refines.pushBack_of_full (h : Refines q f) (ctx : Ctx)
    (hfull : f.items.length = maxClientConnections) : (serviceCmdsPushBack ctx q).2 = q := by
  rw [serviceCmdsPushBack, if_pos (h.size_full.mpr hfull)]

theorem Refines.pushBack (h : Refines q f) (ctx : Ctx) :
    (serviceCall (.pushBack ctx) q).1 = (fifoCall (.pushBack ctx) f).1 ∧
      Refines (serviceCall (.pushBack ctx) q).2 (fifoCall (.pushBack ctx) f).2 := by
  simp only [serviceCall, serviceCmdsPushBack, fifoCall, h.size_full]
  split_ifs with hfull
  · exact ⟨rfl, h⟩
  · have hroom : f.items.length < maxClientConnections := lt_of_le_of_ne h.holds.fits hfull
    exact ⟨rfl, h.holds.pushBack hroom ctx, h.interrupt⟩

theorem Refines.popFront (h : Refines q f) (ret : Int) :
    (serviceCall (.popFront ret) q).1 = (fifoCall (.popFront ret) f).1 ∧
      Refines (serviceCall (.popFront ret) q).2 (fifoCall (.popFront ret) f).2 := by
  simp only [serviceCall, serviceCmdsWaitAndPopFront, fifoCall, h.interrupt, h.holds.size]
  rcases f with ⟨items, interrupted⟩
  rcases interrupted with _ | _
  · rcases eq_or_ne ret 0 with rfl | hret
    · rcases items with _ | ⟨ctx, rest⟩
      · simpa using h
      · have hfront := h.holds.front
        simpa [hfront] using ⟨h.holds.popFront, rfl⟩
    · simpa [hret] using h
  · simpa using h

theorem Refines.call (h : Refines q f) (c : Call) :
    (serviceCall c q).1 = (fifoCall c f).1 ∧ Refines (serviceCall c q).2 (fifoCall c f).2 := by
  rcases c with ctx | ret | _
  · exact h.pushBack ctx
  · exact h.popFront ret
  · exact ⟨rfl, h.holds, rfl⟩

theorem Refines.run (h : Refines q f) (calls : List Call) :
    (runCalls serviceCall calls q).1 = (runCalls fifoCall calls f).1 ∧
      Refines (runCalls serviceCall calls q).2 (runCalls fifoCall calls f).2 := by
  induction calls generalizing q f with
  | nil => exact ⟨rfl, h⟩
  | cons c rest ih =>
      obtain ⟨hresult, hnext⟩ := h.call c
      obtain ⟨hlog, hlast⟩ := ih hnext
      refine ⟨?_, hlast⟩
      simp only [runCalls]
      rw [hresult, hlog]

/-- One call moves a command from its caller into the queue, from the queue to
its caller, or not at all. -/
theorem fifoCall_balance (c : Call) (f : Fifo) :
    f.items ++ (accepted (c, (fifoCall c f).1)).toList =
      (popped (c, (fifoCall c f).1)).toList ++ (fifoCall c f).2.items := by
  rcases c with ctx | ret | _
  · simp only [fifoCall]
    split_ifs <;> simp [accepted, popped]
  · simp only [fifoCall]
    split_ifs
    · simp [accepted, popped]
    · simp [accepted, popped]
    · rcases hitems : f.items with _ | ⟨ctx, rest⟩ <;> simp [accepted, popped, hitems]
  · simp [fifoCall, accepted, popped]

theorem runCalls_balance (calls : List Call) (f : Fifo) :
    f.items ++ (runCalls fifoCall calls f).1.filterMap accepted =
      (runCalls fifoCall calls f).1.filterMap popped ++ (runCalls fifoCall calls f).2.items := by
  induction calls generalizing f with
  | nil => simp [runCalls]
  | cons c rest ih =>
      have hfirst := fifoCall_balance c f
      have hrest := ih (fifoCall c f).2
      have hcons : ∀ (g : Call × Result → Option Ctx) (x : Call × Result) log,
          List.filterMap g (x :: log) = (g x).toList ++ log.filterMap g := by
        intro g x log
        rw [List.filterMap_cons]
        cases g x <;> rfl
      simp only [runCalls, hcons]
      rw [← List.append_assoc, hfirst, List.append_assoc, hrest, List.append_assoc]

theorem runCalls_interrupted (calls : List Call) (f : Fifo) :
    (runCalls fifoCall calls f).2.interrupted = true ↔
      f.interrupted = true ∨ .interrupt ∈ calls := by
  induction calls generalizing f with
  | nil => simp [runCalls]
  | cons c rest ih =>
      simp only [runCalls, ih, List.mem_cons]
      rcases c with ctx | ret | _
      · simp only [fifoCall]
        split_ifs <;> simp
      · simp only [fifoCall]
        split_ifs
        · simp
        · simp
        · rcases f.items with _ | ⟨ctx, rest⟩ <;> simp
      · simp [fifoCall]

/-- A pop succeeds exactly when it finds a command and no interrupt, and takes the
command at the front. -/
theorem Refines.popFront_succeeds_iff (h : Refines q f) {ret : Int} {got : Option Ctx} :
    (serviceCmdsWaitAndPopFront ret q).1 = .returns 0 got ↔
      ret = 0 ∧ f.interrupted = false ∧ ∃ ctx rest, f.items = ctx :: rest ∧ got = some ctx := by
  have hturn : Result.popped (serviceCmdsWaitAndPopFront ret q).1 =
      (fifoCall (.popFront ret) f).1 := (h.popFront ret).1
  rw [← Result.popped.injEq, hturn]
  rcases f with ⟨items, interrupted⟩
  rcases interrupted with _ | _
  · rcases eq_or_ne ret 0 with rfl | hret
    · rcases items with _ | ⟨ctx, rest⟩
      · simp [fifoCall]
      · simp [fifoCall, eq_comm]
    · simp [fifoCall, hret]
  · simp [fifoCall]

end Refinement

/-- The main thread puts a command into the array as it does into the queue of
`ServiceSystem`. -/
theorem mainStep_pushBack {s : Sys} {q : ServiceCmds} {c : Ctx}
    (h : Holds maxClientConnections q.ring s.queue)
    (hmain : s.main = .pushCheckpoint c ∨ s.main = .pushRestore c) :
    ∃ s', mainStep s = some s' ∧
      Holds maxClientConnections (serviceCmdsPushBack c q).2.ring s'.queue ∧
      ((serviceCmdsPushBack c q).1 = 0 ↔ s'.main = .idle) := by
  rcases h.fits.eq_or_lt with hfull | hroom
  · have hsize : maxClientConnections ≤ q.ring.size := by
      rw [h.size]
      exact hfull.ge
    rcases hmain with hmain | hmain <;> simp [mainStep, hmain, hfull, serviceCmdsPushBack, hsize, h]
  · have hsize : ¬ maxClientConnections ≤ q.ring.size := by
      rw [h.size]
      exact not_le.mpr hroom
    have hpushed := h.pushBack hroom c
    rcases hmain with hmain | hmain <;>
      simp [mainStep, hmain, hroom, serviceCmdsPushBack, hsize, hpushed]

/-- The command thread takes a command out of the array as it does out of the
queue of `ServiceSystem`. -/
theorem cmdStep_popFront {s : Sys} {q : ServiceCmds} {c : Ctx} (dir : Bool)
    (h : Holds maxClientConnections q.ring s.queue) (hcmd : s.cmd = .waiting)
    (hpop : (serviceCmdsWaitAndPopFront 0 q).1 = .returns 0 (some c)) :
    ∃ s', cmdStep dir s .done = some s' ∧ s'.cmd = dispatch c ∧
      Holds maxClientConnections (serviceCmdsWaitAndPopFront 0 q).2.ring s'.queue := by
  have hrefines : Refines q ⟨s.queue, q.interrupt⟩ := ⟨h, rfl⟩
  obtain ⟨-, hrunning, ctx, rest, hqueue, hctx⟩ := hrefines.popFront_succeeds_iff.mp hpop
  obtain rfl : c = ctx := Option.some.inj hctx
  simp only at hqueue hrunning
  rw [hqueue] at h
  have hsize : 0 < q.ring.size := by
    rw [h.size]
    exact Nat.succ_pos _
  refine ⟨{ s with queue := rest, cmd := dispatch c }, ?_, rfl, ?_⟩
  · rw [cmdStep.eq_def, hcmd]
    simp only [hqueue]
  · simpa [serviceCmdsWaitAndPopFront, hsize, hsize.ne', hrunning] using h.popFront

/-- The array with its three variables is a queue of bounded length: calls have
the results they have on one, commands come out as they went in, one is refused
exactly when the queue is full, and an interrupt ends it all. -/
theorem queue_refines_fifo (calls : List Call) :
    let run := runCalls serviceCall calls ServiceCmds.start
    run.1 = (runCalls fifoCall calls Fifo.start).1 ∧
    run.2.ring.frontIdx < maxClientConnections ∧ run.2.ring.backIdx < maxClientConnections ∧
    ∃ unpopped, run.1.filterMap accepted = run.1.filterMap popped ++ unpopped ∧
      (∀ ctx, (serviceCmdsPushBack ctx run.2).1 ≠ 0 ↔ unpopped.length = maxClientConnections) ∧
      (∀ ctx, unpopped.length = maxClientConnections →
        (serviceCmdsPushBack ctx run.2).2 = run.2) ∧
      ∀ ret got, (serviceCmdsWaitAndPopFront ret run.2).1 = .returns 0 got ↔
        ret = 0 ∧ .interrupt ∉ calls ∧ ∃ ctx rest, unpopped = ctx :: rest ∧ got = some ctx := by
  intro run
  obtain ⟨hlog, hrefines⟩ := refines_start.run calls
  have hbalance := runCalls_balance calls Fifo.start
  rw [Fifo.start, List.nil_append, ← Fifo.start, ← hlog] at hbalance
  refine ⟨hlog, hrefines.holds.front_lt, hrefines.holds.back_lt, _, hbalance,
    hrefines.pushBack_fails_iff, hrefines.pushBack_of_full, ?_⟩
  intro ret got
  have hinterrupted := runCalls_interrupted calls Fifo.start
  rw [hrefines.popFront_succeeds_iff, ← Bool.not_eq_true, hinterrupted]
  simp [Fifo.start]

end Memcr.CommandQueue
