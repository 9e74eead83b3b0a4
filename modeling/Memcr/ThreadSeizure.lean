import Memcr.CallOutcome
import Memcr.NumberText

namespace Memcr.ThreadSeizure

open Memcr.CallOutcome
open Memcr.NumberText

/-- `MAX_THREADS` -/
def maxThreads : Nat := 1024

/-- How `PTRACE_SEIZE` ends. -/
inductive SeizeCall where
  | works
  | esrch
  | fails
  deriving DecidableEq, Repr

/-- What a round of `seize_pid` behind `try_again` meets. -/
inductive Stop where
  | interruptFails
  | waitFails
  | otherPid
  | notStopped
  | siginfoFails
  /-- A signal, which `PTRACE_CONT` hands on or not. -/
  | signal (continued : Bool)
  /-- `PTRACE_EVENT_STOP`, and whether `PTRACE_SETOPTIONS` works. -/
  | eventStop (optionsSet : Bool)
  deriving DecidableEq, Repr

/-- The calls of `seize_pid` for one thread. -/
structure SeizeCalls where
  seize : SeizeCall
  stops : List Stop
  deriving DecidableEq, Repr

/-- The rounds of `seize_pid`, with its result; `none` if they go on for ever. -/
def seizeRounds : List Stop → Option Int
  | [] => none
  | .signal true :: rest => seizeRounds rest
  | .eventStop true :: _ => some 0
  | _ :: _ => some 1

/-- `seize_pid`, which adds to `tids`; their number is `nr_threads`. -/
def seizePid (pid : Int) (calls : SeizeCalls) (tids : List Int) : Outcome (Int × List Int) :=
  match calls.seize with
  | .esrch => .returns (0, tids)
  | .fails => .returns (1, tids)
  | .works =>
      match seizeRounds calls.stops with
      | none => .hangs
      | some ret =>
          if ret ≠ 0 then .returns (ret, tids)
          else if maxThreads ≤ tids.length then .overruns
          else .returns (0, tids ++ [pid])

/-- The thread that a name in the task directory stands for: nothing of the name may
be left over by `strtoul`. -/
def threadId (name : List Char) : Option Int :=
  match readNumber 0 name with
  | some (n, rest) => if rest = [] then some (BitVec.ofNat 32 n).toInt else none
  | none => if name = [] then some 0 else none

section Iteration

variable {ε σ : Type}

/-- The loop of `iterate_pstree`, with its local `nr_threads`. -/
def iterateLoop (pid : Int) (skipSelf : Bool) (limit nrThreads : Nat)
    (callback : Int → ε → σ → Outcome (Int × σ)) :
    List (List Char × ε) → Int → σ → Outcome (Int × σ)
  | [], ret, s => .returns (ret, s)
  | (name, calls) :: rest, _, s =>
      match threadId name with
      | none => iterateLoop pid skipSelf limit nrThreads callback rest 0 s
      | some tid =>
          -- `-EINVAL`
          if limit ≤ nrThreads then .returns (-22, s)
          else if skipSelf && tid == pid then
            iterateLoop pid skipSelf limit nrThreads callback rest 0 s
          else
            (callback tid calls s).andThen fun (ret, s) =>
              if ret ≠ 0 then .returns (ret, s)
              else iterateLoop pid skipSelf limit nrThreads callback rest ret s

/-- `/proc/<pid>/task` as `iterate_pstree` reads it. -/
structure TaskDir (ε : Type) where
  pid : Int
  /-- `/proc/<pid>` exists. -/
  found : Bool
  /-- The error of `opendir`, if it fails. -/
  openError : Option Nat
  /-- The names in the directory, with what happens to the thread of each. -/
  entries : List (List Char × ε)
  openError_pos : ∀ err ∈ openError, 0 < err

/-- `iterate_pstree`. It compares the limit with a variable of its own, not with the
global count of the same name that `seize_pid` keeps. -/
def iteratePstree (dir : TaskDir ε) (skipSelf : Bool) (limit : Nat)
    (callback : Int → ε → σ → Outcome (Int × σ)) (s : σ) : Outcome (Int × σ) :=
  match dir.openError with
  | some err => .returns (-err, s)
  | none => iterateLoop dir.pid skipSelf limit 0 callback dir.entries (-1) s

end Iteration

/-- `seize_target`, with the result and the threads in `tids`. -/
def seizeTarget (dir : TaskDir SeizeCalls) : Outcome (Int × List Int) :=
  if !dir.found then .returns (1, [])
  else
    (iteratePstree dir false maxThreads seizePid []).andThen fun (ret, tids) =>
      if ret ≠ 0 then .returns (ret, tids) else .returns (0, tids)

/-- What `seize_pid` returns, if it has room for the thread. -/
def SeizeCalls.result (calls : SeizeCalls) : Option Int :=
  match calls.seize with
  | .esrch => some 0
  | .fails => some 1
  | .works => seizeRounds calls.stops

/-- The threads that `seize_pid` is called for. -/
def reached : List (List Char × SeizeCalls) → List (Int × SeizeCalls)
  | [] => []
  | (name, calls) :: rest =>
      match threadId name with
      | none => reached rest
      | some tid => (tid, calls) :: if calls.result = some 0 then reached rest else []

/-- What the iteration returns, `ret` being its result so far. -/
def ending : List (List Char × SeizeCalls) → Int → Option Int
  | [], ret => some ret
  | (name, calls) :: rest, _ =>
      match threadId name with
      | none => ending rest 0
      | some _ => if calls.result = some 0 then ending rest 0 else calls.result

def seized (threads : List (Int × SeizeCalls)) : List Int :=
  (threads.filter fun thread => thread.2.seize == .works).map Prod.fst

/-- The seized threads that came to a stop. -/
def stopped (threads : List (Int × SeizeCalls)) : List Int :=
  (threads.filter fun thread =>
    thread.2.seize == .works && seizeRounds thread.2.stops == some 0).map Prod.fst

/-- The threads of the directory that are still there when memcr gets to them. -/
def threadsToSeize (entries : List (List Char × SeizeCalls)) : List Int :=
  entries.filterMap fun (name, calls) => if calls.seize = .esrch then none else threadId name

/-- Nothing is reached in a directory that is not there or cannot be opened. -/
def TaskDir.reached (dir : TaskDir SeizeCalls) : List (Int × SeizeCalls) :=
  if dir.found = true ∧ dir.openError = none then ThreadSeizure.reached dir.entries else []

section Results

variable {calls : SeizeCalls} {threads : List (Int × SeizeCalls)}

theorem seizeRounds_eq {ret : Int} {stops : List Stop} (h : seizeRounds stops = some ret) :
    ret = 0 ∨ ret = 1 := by
  fun_induction seizeRounds stops with
  | case1 => simp at h
  | case2 rest ih => exact ih h
  | case3 => exact Or.inl (by simpa using h.symm)
  | case4 => exact Or.inr (by simpa using h.symm)

theorem seizePid_of_stops {tids : List Int} (hseize : calls.seize = .works)
    (hrounds : seizeRounds calls.stops = some 0) (tid : Int) :
    seizePid tid calls tids =
      if maxThreads ≤ tids.length then .overruns else .returns (0, tids ++ [tid]) := by
  simp [seizePid, hseize, hrounds]

theorem seizePid_of_not_stops {tids : List Int}
    (h : ¬ (calls.seize = .works ∧ seizeRounds calls.stops = some 0)) (tid : Int) :
    seizePid tid calls tids =
      match calls.result with
      | none => .hangs
      | some ret => .returns (ret, tids) := by
  rcases hseize : calls.seize with _ | _ | _
  · rcases hrounds : seizeRounds calls.stops with _ | ret
    · simp [seizePid, SeizeCalls.result, hseize, hrounds]
    · have hret : ret ≠ 0 := by
        rintro rfl
        exact h ⟨hseize, hrounds⟩
      simp [seizePid, SeizeCalls.result, hseize, hrounds, hret]
  · simp [seizePid, SeizeCalls.result, hseize]
  · simp [seizePid, SeizeCalls.result, hseize]

theorem stopped_cons_of_stops (hseize : calls.seize = .works)
    (hrounds : seizeRounds calls.stops = some 0) (tid : Int) :
    stopped ((tid, calls) :: threads) = tid :: stopped threads := by
  simp [stopped, hseize, hrounds]

theorem stopped_cons_of_not_stops
    (h : ¬ (calls.seize = .works ∧ seizeRounds calls.stops = some 0)) (tid : Int) :
    stopped ((tid, calls) :: threads) = stopped threads := by
  simp [stopped, h]

/-- The threads that were seized are the ones that came to a stop, unless one of them
did not. -/
theorem seized_eq_stopped_iff :
    seized threads = stopped threads ↔
      ∀ thread ∈ threads, thread.2.seize = .works → seizeRounds thread.2.stops = some 0 := by
  have hfilter : stopped threads = ((threads.filter fun thread => thread.2.seize == .works).filter
      fun thread => seizeRounds thread.2.stops == some 0).map Prod.fst := by
    rw [stopped, List.filter_filter]
    simp only [Bool.and_comm]
  constructor
  · intro heq thread hmem hseize
    have hlength := congrArg List.length heq
    rw [hfilter, seized, List.length_map, List.length_map] at hlength
    have hall := List.length_filter_eq_length_iff.mp hlength.symm
    have hthread := hall thread (by simpa [hmem] using hseize)
    simpa using hthread
  · intro h
    rw [hfilter, seized]
    congr 1
    symm
    apply List.filter_eq_self.mpr
    intro thread hmem
    obtain ⟨hmem, hseize⟩ := List.mem_filter.mp hmem
    simpa using h thread hmem (by simpa using hseize)

end Results

section Runs

variable {tids : List Int} {ret : Int} {entries : List (List Char × SeizeCalls)}

theorem iterateLoop_seizePid (pid : Int) (htids : tids.length ≤ maxThreads) :
    iterateLoop pid false maxThreads 0 seizePid entries ret tids =
      if maxThreads < tids.length + (stopped (reached entries)).length then .overruns
      else
        match ending entries ret with
        | none => .hangs
        | some ret => .returns (ret, tids ++ stopped (reached entries)) := by
  induction entries generalizing tids ret with
  | nil => simp [iterateLoop, reached, stopped, ending, htids]
  | cons entry rest ih =>
      rcases entry with ⟨name, calls⟩
      rcases hid : threadId name with _ | tid
      · simp only [iterateLoop, reached, ending, hid]
        exact ih htids
      · simp only [iterateLoop, reached, ending, hid, Bool.false_and]
        rw [if_neg (by decide : ¬ maxThreads ≤ 0), if_neg (by decide)]
        by_cases hstops : calls.seize = .works ∧ seizeRounds calls.stops = some 0
        · obtain ⟨hseize, hrounds⟩ := hstops
          have hresult : calls.result = some 0 := by simp [SeizeCalls.result, hseize, hrounds]
          rw [seizePid_of_stops hseize hrounds, stopped_cons_of_stops hseize hrounds]
          simp only [hresult, if_true, List.length_cons]
          by_cases hroom : maxThreads ≤ tids.length
          · rw [if_pos hroom, if_pos (by omega)]
            rfl
          · have hlength : (tids ++ [tid]).length ≤ maxThreads := by
              rw [List.length_append, List.length_singleton]
              omega
            simp only [if_neg hroom, Outcome.returns_andThen, ne_eq, not_true_eq_false, if_false]
            rw [ih hlength]
            simp only [List.length_append, List.length_singleton, List.append_assoc,
              List.singleton_append, Nat.add_assoc, Nat.add_comm 1]
        · rw [seizePid_of_not_stops hstops, stopped_cons_of_not_stops hstops]
          rcases hresult : calls.result with _ | result
          · simp [Outcome.andThen, stopped, htids]
          · by_cases hzero : result = 0
            · subst hzero
              simp only [Outcome.returns_andThen, ne_eq, not_true_eq_false, if_false, if_true]
              exact ih htids
            · simp [hzero, stopped, htids]

theorem ending_of_mem_reached (ret : Int) {thread : Int × SeizeCalls}
    (hmem : thread ∈ reached entries) (hresult : thread.2.result ≠ some 0) :
    ending entries ret = thread.2.result := by
  induction entries generalizing ret with
  | nil => simp [reached] at hmem
  | cons entry rest ih =>
      rcases entry with ⟨name, calls⟩
      rcases hid : threadId name with _ | tid
      · simp only [reached, hid] at hmem
        simpa only [ending, hid] using ih _ hmem
      · simp only [reached, hid] at hmem
        simp only [ending, hid]
        rcases List.mem_cons.mp hmem with rfl | hrest
        · rw [if_neg hresult]
        · by_cases hgoes : calls.result = some 0
          · rw [if_pos hgoes] at hrest ⊢
            exact ih _ hrest
          · rw [if_neg hgoes] at hrest
            simp at hrest

theorem ending_of_later_failure (ret : Int) {thread : Int × SeizeCalls}
    (hmem : thread ∈ reached entries) (hseize : thread.2.seize = .works)
    (hrounds : seizeRounds thread.2.stops = some 1) : ending entries ret = some 1 := by
  have hresult : thread.2.result = some 1 := by simp [SeizeCalls.result, hseize, hrounds]
  rw [ending_of_mem_reached ret hmem (by rw [hresult]; decide), hresult]

theorem seized_eq_stopped_of_ending {result : Int} (h : ending entries ret = some result)
    (hrounds : ∀ thread ∈ reached entries, thread.2.seize = .works →
      seizeRounds thread.2.stops ≠ some 1) :
    seized (reached entries) = stopped (reached entries) := by
  apply seized_eq_stopped_iff.mpr
  intro thread hmem hseize
  have hresult : thread.2.result = seizeRounds thread.2.stops := by
    simp [SeizeCalls.result, hseize]
  by_contra hne
  rw [← hresult] at hne
  -- the thread ends the iteration, which therefore cannot have hung on it
  have hthread := ending_of_mem_reached ret hmem hne
  rw [h] at hthread
  rcases seizeRounds_eq (hresult ▸ hthread.symm) with rfl | rfl
  · exact hne hthread.symm
  · exact hrounds thread hmem hseize (hresult ▸ hthread.symm)

theorem stopped_reached_of_ending (h : ending entries ret = some 0) :
    stopped (reached entries) = threadsToSeize entries := by
  induction entries generalizing ret with
  | nil => rfl
  | cons entry rest ih =>
      rcases entry with ⟨name, calls⟩
      rcases hid : threadId name with _ | tid
      · simp only [ending, hid] at h
        simpa [reached, threadsToSeize, hid] using ih h
      · have hresult : calls.result = some 0 := by
          by_contra hne
          simp only [ending, hid, if_neg hne] at h
          exact hne h
        simp only [ending, hid, hresult, if_true] at h
        simp only [reached, hid, hresult, if_true]
        rcases hseize : calls.seize with _ | _ | _
        · have hrounds : seizeRounds calls.stops = some 0 := by
            simpa [SeizeCalls.result, hseize] using hresult
          rw [stopped_cons_of_stops hseize hrounds, ih h]
          simp [threadsToSeize, hseize, hid]
        · rw [stopped_cons_of_not_stops (by simp [hseize]), ih h]
          simp [threadsToSeize, hseize]
        · simp [SeizeCalls.result, hseize] at hresult

end Runs

theorem seizeTarget_of_open {dir : TaskDir SeizeCalls} (hfound : dir.found = true)
    (hopen : dir.openError = none) :
    seizeTarget dir =
      if maxThreads < (stopped dir.reached).length then .overruns
      else
        match ending dir.entries (-1) with
        | none => .hangs
        | some ret => .returns (ret, stopped dir.reached) := by
  have hreached : dir.reached = reached dir.entries := if_pos ⟨hfound, hopen⟩
  rw [seizeTarget, iteratePstree, hfound, hopen, hreached]
  simp only [Bool.not_true, Bool.false_eq_true, if_false]
  rw [iterateLoop_seizePid dir.pid (Nat.zero_le _)]
  simp only [List.length_nil, Nat.zero_add, List.nil_append]
  split_ifs
  · rfl
  · rcases ending dir.entries (-1) with _ | ret
    · rfl
    · by_cases hret : ret = 0
      · simp [hret]
      · simp [hret]

theorem seizeTarget_of_not_open {dir : TaskDir SeizeCalls}
    (h : ¬ (dir.found = true ∧ dir.openError = none)) :
    dir.reached = [] ∧ ∃ ret, ret ≠ 0 ∧ seizeTarget dir = .returns (ret, []) := by
  refine ⟨if_neg h, ?_⟩
  rcases hfound : dir.found with _ | _
  · exact ⟨1, by decide, by simp [seizeTarget, hfound]⟩
  · rcases hopen : dir.openError with _ | err
    · exact absurd ⟨hfound, hopen⟩ h
    · have hpos : 0 < err := dir.openError_pos err hopen
      have hne : -(err : Int) ≠ 0 := by omega
      exact ⟨-err, hne, by simp [seizeTarget, iteratePstree, hfound, hopen]⟩

/-- The threads that are recorded are the ones that were seized, no more of them than
there is room for, and more threads than that are an error. -/
def Bookkeeping (dir : TaskDir SeizeCalls) : Prop :=
  seizeTarget dir ≠ .overruns ∧
    ∀ ret tids, seizeTarget dir = .returns (ret, tids) →
      tids.length ≤ maxThreads ∧ tids = seized dir.reached ∧
        (maxThreads < (threadsToSeize dir.entries).length → ret ≠ 0)

/-- The bookkeeping is right as long as the threads that come to a stop have room, and
no thread is seized that a later call fails for. -/
theorem seizeTarget_bookkeeping_iff (dir : TaskDir SeizeCalls) :
    Bookkeeping dir ↔
      (stopped dir.reached).length ≤ maxThreads ∧
        ∀ thread ∈ dir.reached, thread.2.seize = .works →
          seizeRounds thread.2.stops ≠ some 1 := by
  by_cases hopen : dir.found = true ∧ dir.openError = none
  · have hreached : dir.reached = reached dir.entries := if_pos hopen
    rw [Bookkeeping, seizeTarget_of_open hopen.1 hopen.2]
    by_cases hroom : maxThreads < (stopped dir.reached).length
    · simp [hroom]
    · simp only [if_neg hroom]
      constructor
      · rintro ⟨-, hreturns⟩
        refine ⟨not_lt.mp hroom, fun thread hmem hseize hrounds => ?_⟩
        rw [ending_of_later_failure (-1) (hreached ▸ hmem) hseize hrounds] at hreturns
        have heq := (hreturns 1 _ rfl).2.1
        have hzero := seized_eq_stopped_iff.mp heq.symm thread hmem hseize
        simp [hrounds] at hzero
      · rintro ⟨-, hrounds⟩
        rcases hending : ending dir.entries (-1) with _ | result
        · exact ⟨nofun, nofun⟩
        · refine ⟨nofun, fun ret tids h => ?_⟩
          obtain ⟨rfl, rfl⟩ : result = ret ∧ stopped dir.reached = tids := by simpa using h
          rw [hreached] at hrounds hroom ⊢
          refine ⟨not_lt.mp hroom, (seized_eq_stopped_of_ending hending hrounds).symm, ?_⟩
          · rintro hmany rfl
            rw [← stopped_reached_of_ending hending] at hmany
            exact hroom hmany
  · obtain ⟨hreached, ret, hret, hreturns⟩ := seizeTarget_of_not_open hopen
    rw [Bookkeeping, hreturns, hreached]
    simp [stopped, seized, hret]

section Crowds

theorem threadId_toDigits {n : Nat} (hpos : 0 < n) (hn : n < 2 ^ 31) :
    threadId (Nat.toDigits 10 n) = some (n : Int) := by
  have hread : readNumber 0 (Nat.toDigits 10 n ++ []) = some (n, []) :=
    readNumber_zero_toDigits hpos (by omega) (by simp [Delimits])
  rw [List.append_nil] at hread
  simp only [threadId, hread, if_true, Option.some.injEq]
  rw [BitVec.toInt_ofNat', Int.bmod_eq_of_le (by omega) (by omega)]

def crowd (first count : Nat) : List (List Char × SeizeCalls) :=
  (List.range' first count).map fun n =>
    (Nat.toDigits 10 n, ⟨.works, [.eventStop true]⟩)

theorem length_stopped_crowd {first count : Nat} (hfirst : 0 < first)
    (hlast : first + count < 2 ^ 31) : (stopped (reached (crowd first count))).length = count := by
  induction count generalizing first with
  | zero => rfl
  | succ count ih =>
      have hid := threadId_toDigits hfirst (by omega)
      rw [crowd, List.range'_succ, List.map_cons, reached, hid]
      change (stopped ((_, _) :: reached (crowd (first + 1) count))).length = count + 1
      rw [stopped_cons_of_stops rfl rfl, List.length_cons, ih (by omega) (by omega)]

end Crowds

def crowdedTask : TaskDir SeizeCalls :=
  ⟨1, true, none, crowd 1 (maxThreads + 1), nofun⟩

theorem crowdedTask_overruns : seizeTarget crowdedTask = .overruns := by
  rw [seizeTarget_of_open rfl rfl]
  apply if_pos
  change maxThreads < (stopped (reached (crowd 1 (maxThreads + 1)))).length
  rw [length_stopped_crowd (by omega) (by simp [maxThreads])]
  exact Nat.lt_succ_self _

end Memcr.ThreadSeizure
