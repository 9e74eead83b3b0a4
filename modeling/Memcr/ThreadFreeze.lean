import Memcr.TaskStream

namespace Memcr.ThreadFreeze

open Memcr.CallOutcome
open Memcr.GuardedRuns
open Memcr.TaskStream
open Memcr.ThreadSeizure

theorem openError_none (err : Nat) (h : err ∈ (none : Option Nat)) : 0 < err := by
  cases h

/-- A task directory that can be read. -/
def listing {ε : Type} (pid : Int) (entries : List (List Char × ε)) : TaskDir ε :=
  ⟨pid, true, none, entries, openError_none⟩

section Log

variable (pid : Int)

/-- What is left of the loop of `iterate_pstree`. -/
def loop (entries : List (List Char × SeizeCalls)) (ret : Int) (tids : List Int) :
    Outcome (Int × List Int) :=
  iterateLoop pid false maxThreads 0 seizePid entries ret tids

/-- The log is what the loop of `iterate_pstree` would have gone through in a directory
that does not change. -/
structure Logged (s : Freeze) : Prop where
  going : s.pc.Goes → ∀ rest, loop pid (s.log ++ rest) (-1) [] = loop pid rest s.ret s.tids
  seize : ∀ name tid, s.pc = .seize name tid → threadId name = some tid
  interrupt : ∀ name tid stops, s.pc = .interrupt name tid stops →
    threadId name = some tid ∧ ∀ more, seizeRounds (stops ++ more) = seizeRounds more
  returned : ∀ ret, s.pc = .returned ret → loop pid s.log (-1) [] = .returns (ret, s.tids)

variable {pid} {s t : Freeze} {name : List Char} {tid : Int} {calls : SeizeCalls}

theorem loop_cons (hname : threadId name = some tid) (rest : List (List Char × SeizeCalls))
    (ret : Int) (tids : List Int) :
    loop pid ((name, calls) :: rest) ret tids = (seizePid tid calls tids).andThen fun next =>
      if next.1 ≠ 0 then .returns next else loop pid rest next.1 next.2 := by
  have hlimit : ¬ maxThreads ≤ 0 := by decide
  simp only [loop, iterateLoop, hname, if_neg hlimit, Bool.false_and, Bool.false_eq_true, if_false]

theorem Logged.goOn (h : Logged pid s) (hgoes : s.pc.Goes) {tids : List Int}
    (hentry : ∀ rest, loop pid ((name, calls) :: rest) s.ret s.tids = loop pid rest 0 tids)
    {threads : List Thread} {buffer : List (List Char)} :
    Logged pid ({ s with threads := threads, buffer := buffer, tids := tids }.goOn
      (name, calls)) where
  going := fun _ rest => by
    rw [Freeze.goOn, List.append_assoc, h.going hgoes]
    exact hentry rest
  seize := by simp [Freeze.goOn]
  interrupt := by simp [Freeze.goOn]
  returned := by simp [Freeze.goOn]

theorem Logged.giveUp (h : Logged pid s) (hgoes : s.pc.Goes) (hname : threadId name = some tid)
    (hentry : seizePid tid calls s.tids = .returns (1, s.tids)) :
    Logged pid (s.giveUp (name, calls)) where
  going := fun hgoes => hgoes.elim
  seize := by simp [Freeze.giveUp]
  interrupt := by simp [Freeze.giveUp]
  returned := by
    intro ret hret
    obtain rfl : 1 = ret := by simpa [Freeze.giveUp] using hret
    rw [Freeze.giveUp, h.going hgoes, loop_cons hname, hentry]
    rfl

theorem Logged.endWalk (h : Logged pid s) (hgoes : s.pc.Goes) : Logged pid s.endWalk := by
  rw [Freeze.endWalk]
  split
  · refine {
      going := fun hgoes => hgoes.elim
      seize := by simp
      interrupt := by simp
      returned := ?_ }
    intro ret hret
    obtain rfl : s.ret = ret := by simpa using hret
    simpa [loop, iterateLoop] using h.going hgoes []
  · exact { h with }

theorem Logged.readdir (h : Logged pid s) (hstep : readdirStep s = some t) : Logged pid t := by
  simp only [readdirStep] at hstep
  split at hstep
  · rename_i name rest hidle hpc hbuffer
    have hgoes : s.pc.Goes := by
      rw [hpc]
      trivial
    split at hstep
    · rename_i hname
      cases hstep
      exact h.goOn hgoes fun rest => by simp only [loop, iterateLoop, hname]
    · rename_i tid hname
      cases hstep
      refine {
        going := fun _ => h.going hgoes
        seize := ?_
        interrupt := by simp
        returned := by simp }
      rintro name' tid' heq
      cases heq
      exact hname
  · cases hstep

theorem Logged.seize_step (h : Logged pid s) {permitted : Bool}
    (hstep : seizeStep s permitted = some t) : Logged pid t := by
  simp only [seizeStep] at hstep
  split at hstep
  · rename_i name tid hpc
    have hname := h.seize name tid hpc
    have hgoes : s.pc.Goes := by
      rw [hpc]
      trivial
    split at hstep
    · cases hstep
      refine h.goOn hgoes fun rest => ?_
      rw [loop_cons hname]
      rfl
    · split at hstep
      · cases hstep
        refine {
          going := fun _ => h.going hgoes
          seize := by simp
          interrupt := ?_
          returned := by simp }
        rintro name' tid' stops heq
        cases heq
        exact ⟨hname, fun more => rfl⟩
      · cases hstep
        exact h.giveUp hgoes hname rfl
  · cases hstep

theorem Logged.round (h : Logged pid s) {stop : Stop} (hstep : roundStep s stop = some t) :
    Logged pid t := by
  simp only [roundStep] at hstep
  split at hstep
  · rename_i name tid stops hpc
    obtain ⟨hname, hrounds⟩ := h.interrupt name tid stops hpc
    have hgoes : s.pc.Goes := by
      rw [hpc]
      trivial
    split at hstep
    · split at hstep
      · cases hstep
        refine {
          going := fun _ => h.going hgoes
          seize := by simp
          interrupt := ?_
          returned := by simp }
        rintro name' tid' stops' heq
        cases heq
        refine ⟨hname, fun more => ?_⟩
        rw [List.append_assoc, hrounds]
        rfl
      · cases hstep
    · split at hstep
      · split at hstep
        · cases hstep
          exact {
            going := fun hgoes => hgoes.elim
            seize := by simp
            interrupt := by simp
            returned := by simp }
        · rename_i hroom
          cases hstep
          refine h.goOn hgoes fun rest => ?_
          have hstop : seizeRounds (stops ++ [.eventStop true]) = some 0 := hrounds _
          rw [loop_cons hname, seizePid_of_stops rfl hstop, if_neg hroom]
          rfl
      · cases hstep
    · rename_i hsignal hevent
      cases hstep
      have hfails : seizeRounds (stops ++ [stop]) = some 1 := by
        rw [hrounds]
        cases stop with
        | signal continued => cases continued <;> first | rfl | exact (hsignal rfl).elim
        | eventStop optionsSet => cases optionsSet <;> first | rfl | exact (hevent rfl).elim
        | _ => rfl
      refine h.giveUp hgoes hname ?_
      simp [seizePid, hfails]
  · cases hstep

theorem Logged.step {act : Act} (h : Logged pid s)
    (hreading : s.walk ≠ .idle → s.pc = .readdir) (hstep : freezeStep s act = some t) :
    Logged pid t := by
  have hgoes (hwalk : s.walk ≠ .idle) : s.pc.Goes := by
    rw [hreading hwalk]
    trivial
  cases act with
  | clone k tid =>
      simp only [freezeStep, cloneStep] at hstep
      split at hstep <;> cases hstep
      exact { h with }
  | exit k =>
      simp only [freezeStep, exitStep] at hstep
      split at hstep
      · cases hstep
      · split_ifs at hstep <;> cases hstep <;> exact { h with }
  | getdents =>
      simp only [freezeStep, getdentsStep] at hstep
      split at hstep <;> cases hstep
      exact { h with }
  | first =>
      simp only [freezeStep, firstStep] at hstep
      split at hstep
      · rename_i hwalk
        split at hstep <;> cases hstep
        · exact Logged.endWalk { h with } (hgoes (by simp [hwalk]))
        · exact { h with }
      · cases hstep
  | emit fits =>
      simp only [freezeStep, emitStep] at hstep
      split at hstep
      · rename_i tid hwalk
        split at hstep
        · cases hstep
          exact Logged.endWalk { h with } (hgoes (by simp [hwalk]))
        · split_ifs at hstep <;> cases hstep <;> exact { h with }
      · cases hstep
  | next =>
      simp only [freezeStep, nextStep] at hstep
      split at hstep
      · rename_i tid hwalk
        split at hstep <;> cases hstep
        · exact Logged.endWalk { h with } (hgoes (by simp [hwalk]))
        · exact { h with }
      · cases hstep
  | readdir => exact h.readdir hstep
  | seize permitted => exact h.seize_step hstep
  | round stop => exact h.round hstep

theorem logged_start (tids : List Nat) : Logged pid (Freeze.start tids) where
  going := fun _ _ => rfl
  seize := by simp [Freeze.start]
  interrupt := by simp [Freeze.start]
  returned := by simp [Freeze.start]

end Log

theorem freezing_of_guarded (pid : Int) {tids : List Nat} (hnodup : tids.Nodup)
    (hrange : ∀ tid ∈ tids, 0 < tid ∧ tid < 2 ^ 31) {acts : List Act} {s : Freeze}
    (hstay : Guarded freezeStep ListedStay (Freeze.start tids) acts)
    (hrun : run freezeStep (Freeze.start tids) acts = some s) : Freezing s ∧ Logged pid s := by
  have hstep : ∀ s act t, Freezing s ∧ Logged pid s → ListedStay s act →
      freezeStep s act = some t → Freezing t ∧ Logged pid t :=
    fun s act t h hstay hstep => ⟨h.1.step hstay hstep, h.2.step h.1.reading hstep⟩
  exact invariant_of_guarded hstep ⟨freezing_start hnodup hrange, logged_start tids⟩ hstay hrun

/-- The threads of a process start others and exit while `seize_target` goes through them.
As long as none exits that the directory stream has come to, they all stand when it
returns 0, and it has recorded them in their order. It returns what it would in a
directory that does not change. -/
theorem seized_target_stands (pid : Int) (tids : List Nat) (hnodup : tids.Nodup)
    (hrange : ∀ tid ∈ tids, 0 < tid ∧ tid < 2 ^ 31) (acts : List Act) (s : Freeze)
    (hstay : Guarded freezeStep ListedStay (Freeze.start tids) acts)
    (hrun : run freezeStep (Freeze.start tids) acts = some s) :
    (s.pc = .returned 0 →
      s.tids = numbers s.threads ∧ ∀ t ∈ s.threads, t.status = .frozen) ∧
    ∀ ret, s.pc = .returned ret → seizeTarget (listing pid s.log) = .returns (ret, s.tids) := by
  obtain ⟨hfreezing, hlogged⟩ := freezing_of_guarded pid hnodup hrange hstay hrun
  refine ⟨hfreezing.stands_eq, fun ret hpc => ?_⟩
  have hloop : iteratePstree (listing pid s.log) false maxThreads seizePid [] =
      .returns (ret, s.tids) := hlogged.returned ret hpc
  rw [seizeTarget, hloop, Outcome.returns_andThen]
  change (if ret ≠ 0 then Outcome.returns (ret, s.tids) else .returns (0, s.tids)) = _
  split
  · rfl
  · rename_i hzero
    rw [not_not.mp hzero]

/-- Thread 7 starts thread 8 while it is being seized, and thread 9, for which there was
no room, exits before the next call. -/
def growingProcess : List Act :=
  [.first, .emit true, .next, .emit false, .readdir, .readdir, .readdir, .clone 0 8,
    .seize true, .round (.signal true), .exit 1, .round (.eventStop true), .getdents, .first,
    .emit true, .next, .readdir, .seize true, .round (.eventStop true), .getdents, .first]

theorem seized_target_stands_growing :
    ∃ s, run freezeStep (Freeze.start [7, 9]) growingProcess = some s ∧ s.pc = .returned 0 ∧
      s.tids = [7, 8] ∧ seizeTarget (listing 7 s.log) = .returns (0, [7, 8]) ∧
      s.tids = numbers s.threads ∧ ∀ t ∈ s.threads, t.status = .frozen := by
  have hmain := seized_target_stands 7 [7, 9] (by decide) (by decide) growingProcess _
    (by decide) rfl
  exact ⟨_, rfl, rfl, rfl, hmain.2 0 rfl, hmain.1 rfl⟩

/-- Threads 7 and 9 are listed, thread 7 starts thread 8, and thread 9 exits. -/
def shrinkingProcess : List Act :=
  [.first, .emit true, .next, .emit true, .next, .readdir, .readdir, .readdir, .clone 0 8,
    .seize true, .round (.eventStop true), .exit 1, .readdir, .seize true, .getdents, .first]

-- the count of the stream has passed two threads, and thread 8 is now the second
example : (run freezeStep (Freeze.start [7, 9]) shrinkingProcess).map
    (fun s => (s.pc, s.tids, s.threads)) =
      some (.returned 0, [7], [⟨7, .frozen⟩, ⟨8, .runs⟩]) := by
  rfl

section Parasite

variable {ε : Type}

/-- `update_parasite_pid` -/
def updateParasitePid (tids : List Int) (pid : Int) (_ : ε) (parasitePid : Int) :
    Outcome (Int × Int) :=
  if pid ∈ tids then .returns (0, parasitePid) else .returns (0, pid)

/-- The threads a directory lists. -/
def listedThreads (entries : List (List Char × ε)) : List Int :=
  entries.filterMap fun entry => threadId entry.1

theorem iterateLoop_updateParasitePid {pid parasite : Int} {tids : List Int}
    {entries : List (List Char × ε)}
    (hentries : ∀ tid ∈ listedThreads entries, tid = parasite ∨ tid ∈ tids)
    (hnew : parasite ∉ tids) (ret before : Int) :
    iterateLoop pid false maxThreads 0 (updateParasitePid tids) entries ret before =
      .returns (if entries = [] then ret else 0,
        if parasite ∈ listedThreads entries then parasite else before) := by
  induction entries generalizing ret before with
  | nil => rfl
  | cons entry rest ih =>
      obtain ⟨name, calls⟩ := entry
      have hlimit : ¬ maxThreads ≤ 0 := by decide
      rw [iterateLoop]
      cases hname : threadId name with
      | none =>
          have hlisted : listedThreads ((name, calls) :: rest) = listedThreads rest := by
            simp [listedThreads, hname]
          rw [hlisted] at hentries ⊢
          simp [ih hentries]
      | some tid =>
          have hlisted : listedThreads ((name, calls) :: rest) = tid :: listedThreads rest := by
            simp [listedThreads, hname]
          rw [hlisted] at hentries ⊢
          have hrest := fun tid htid => hentries tid (List.mem_cons_of_mem _ htid)
          simp only [if_neg hlimit, Bool.false_and, Bool.false_eq_true, if_false]
          rcases hentries tid List.mem_cons_self with rfl | hmem
          · rw [updateParasitePid, if_neg hnew]
            simp [ih hrest]
          · have hne : tid ≠ parasite := fun heq => hnew (heq ▸ hmem)
            rw [updateParasitePid, if_pos hmem]
            simp [ih hrest, hne.symm]

/-- Once the target stands, `execute_parasite_checkpoint` knows the parasite by the number
the tracer sees: it is the one thread of the directory that was not recorded. -/
theorem parasite_found_among_threads (pid : Int) (tids : List Nat) (hnodup : tids.Nodup)
    (hrange : ∀ tid ∈ tids, 0 < tid ∧ tid < 2 ^ 31) (acts : List Act) (s : Freeze)
    (hstay : Guarded freezeStep ListedStay (Freeze.start tids) acts)
    (hrun : run freezeStep (Freeze.start tids) acts = some s) (hpc : s.pc = .returned 0)
    (parasite : Int) (hnew : parasite ∉ numbers s.threads) (entries : List (List Char × ε))
    (hentries : ∀ tid ∈ listedThreads entries, tid = parasite ∨ tid ∈ numbers s.threads)
    (hlisted : parasite ∈ listedThreads entries) (before : Int) :
    iteratePstree (listing pid entries) false maxThreads (updateParasitePid s.tids) before =
      .returns (0, parasite) := by
  have hfreezing := (freezing_of_guarded pid hnodup hrange hstay hrun).1
  have hsome : entries ≠ [] := by
    rintro rfl
    exact absurd hlisted List.not_mem_nil
  rw [← (hfreezing.stands_eq hpc).1] at hnew hentries
  change iterateLoop pid false maxThreads 0 (updateParasitePid s.tids) entries (-1) before = _
  rw [iterateLoop_updateParasitePid hentries hnew, if_neg hsome, if_pos hlisted]

theorem parasite_found_among_growing :
    ∃ s, run freezeStep (Freeze.start [7, 9]) growingProcess = some s ∧
      iteratePstree (listing 7 [(".".toList, ()), ("7".toList, ()), ("8".toList, ()),
        ("12".toList, ())]) false maxThreads (updateParasitePid s.tids) 0 =
        .returns (0, 12) :=
  ⟨_, rfl, parasite_found_among_threads 7 [7, 9] (by decide) (by decide) growingProcess _
    (by decide) rfl rfl 12 (by decide) _ (by decide) (by decide) 0⟩

end Parasite

end Memcr.ThreadFreeze
