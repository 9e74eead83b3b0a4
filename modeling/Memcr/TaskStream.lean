import Mathlib.Data.List.InsertIdx
import Mathlib.Data.List.Nodup
import Mathlib.Data.List.Perm.Subperm
import Memcr.GuardedRuns
import Memcr.IndexedLists
import Memcr.ThreadSeizure

/-!
`seize_target` against a process that runs. While memcr goes through
`/proc/<pid>/task`, the threads it has not yet stopped go on: they start other
threads and exit. The kernel keeps the threads of a process in a list, in the
order they were started. A directory stream keeps a count of the threads it has
passed, not a place in that list, so a thread that exits behind it makes it skip
another one.
-/

namespace Memcr.TaskStream

open Memcr.CallOutcome
open Memcr.GuardedRuns
open Memcr.IndexedLists
open Memcr.ThreadSeizure

/-- A thread of the target. -/
inductive Status where
  | runs
  | frozen
  /-- A zombie, which is still in the list of threads. -/
  | gone
  deriving DecidableEq, Repr

structure Thread where
  tid : Nat
  status : Status
  deriving DecidableEq, Repr

/-- The name of the thread in the task directory. -/
def Thread.name (t : Thread) : List Char := Nat.toDigits 10 t.tid

/-- Where memcr stands in `iterate_pstree` and `seize_pid`, with the name at hand and
what the rounds of `seize_pid` have met so far. -/
inductive Pc where
  | readdir
  | seize (name : List Char) (tid : Int)
  | interrupt (name : List Char) (tid : Int) (stops : List Stop)
  | returned (ret : Int)
  /-- `tids` is full and a thread is stored behind it. -/
  | overrun
  deriving DecidableEq, Repr

/-- Where the kernel stands in `proc_task_readdir`, with the thread at hand. -/
inductive Walk where
  /-- There is no call of `getdents`. -/
  | idle
  | first
  | emit (tid : Nat)
  | next (tid : Nat)
  deriving DecidableEq, Repr

/-- `seize_target` and the process that it stops. A directory stream keeps a count of
the threads it has passed, not a place in the list, so a thread that exits behind it
makes it skip another one. -/
structure Freeze where
  /-- The threads of the process, in the order they were started. -/
  threads : List Thread
  /-- Every thread number so far. -/
  used : List Nat
  /-- The position of the directory stream, not counting the dots. -/
  pos : Nat
  /-- The thread for which there was no room in the last call. -/
  saved : Option Nat
  walk : Walk
  /-- Names that `getdents` has delivered and `readdir` not yet returned. -/
  buffer : List (List Char)
  /-- The `ret` of `iterate_pstree`. -/
  ret : Int
  tids : List Int
  pc : Pc
  /-- The names handled so far, and how the calls for them went. -/
  log : List (List Char × SeizeCalls)

def dots : List (List Char) := [['.'], ['.', '.']]

/-- A process whose threads with these numbers run. The first `getdents` has delivered
the dots. -/
def Freeze.start (tids : List Nat) : Freeze :=
  ⟨tids.map fun tid => ⟨tid, .runs⟩, tids, 0, none, .first, dots, -1, [], .readdir, []⟩

/-- One step of a thread of the target, of the kernel under `getdents`, or of memcr. -/
inductive Act where
  /-- Thread number `k` starts another one. -/
  | clone (k tid : Nat)
  /-- Thread number `k` exits or is killed. -/
  | exit (k : Nat)
  | getdents
  | first
  | emit (fits : Bool)
  | next
  | readdir
  | seize (permitted : Bool)
  | round (stop : Stop)
  deriving DecidableEq, Repr

section Steps

variable (s : Freeze)

def Freeze.setStatus (k : Nat) (status : Status) : Freeze :=
  { s with threads := s.threads.modify k fun t => { t with status := status } }

def Freeze.find (tid : Nat) : Option Thread := s.threads.find? fun t => t.tid == tid

/-- The callback has returned 0. -/
def Freeze.goOn (entry : List Char × SeizeCalls) : Freeze :=
  { s with ret := 0, pc := .readdir, log := s.log ++ [entry] }

/-- The callback has returned something else. -/
def Freeze.giveUp (entry : List Char × SeizeCalls) : Freeze :=
  { s with ret := 1, pc := .returned 1, log := s.log ++ [entry] }

/-- `getdents` returns. If it has delivered nothing, `readdir` finds the end of the
directory. -/
def Freeze.endWalk : Freeze :=
  if s.buffer = [] then { s with walk := .idle, pc := .returned s.ret }
  else { s with walk := .idle }

/-- Numbers are not given out again. -/
def cloneStep (k tid : Nat) : Option Freeze :=
  if ((s.threads[k]?).any fun t => t.status == .runs) && decide (0 < tid ∧ tid < 2 ^ 31) &&
      !s.used.contains tid then
    some { s with threads := s.threads ++ [⟨tid, .runs⟩], used := s.used ++ [tid] }
  else none

/-- The thread that `seize_pid` has attached to and not yet stopped. -/
def Pc.attached : Pc → Option Int
  | .interrupt _ tid _ => some tid
  | _ => none

/-- The leader of the group and a thread that is traced stay in the list as zombies. -/
def exitStep (k : Nat) : Option Freeze :=
  match s.threads[k]? with
  | none => none
  | some t =>
      if t.status = .gone then none
      else if k = 0 ∨ t.status = .frozen ∨ s.pc.attached = some (t.tid : Int) then
        some (s.setStatus k .gone)
      else some { s with threads := s.threads.eraseIdx k }

/-- memcr has used up its buffer and asks the kernel for more entries. -/
def getdentsStep : Option Freeze :=
  if s.pc = .readdir ∧ s.buffer = [] ∧ s.walk = .idle then some { s with walk := .first }
  else none

/-- `first_tid`: the thread that was saved, if it is still there, and otherwise the one
that as many threads are before as the stream has passed. -/
def firstStep : Option Freeze :=
  if s.walk = .first then
    let resumed := if s.pos = 0 then none else s.saved.bind s.find
    match resumed.or s.threads[s.pos]? with
    | none => some { s with saved := none }.endWalk
    | some t => some { s with saved := none, walk := .emit t.tid }
  else none

/-- The name is delivered, or the buffer is full. -/
def emitStep (fits : Bool) : Option Freeze :=
  match s.walk with
  | .emit tid =>
      match s.find tid with
      -- the thread has exited, and `next_tid` finds nothing behind it
      | none => some { s with pos := s.pos + 1 }.endWalk
      | some t =>
          if fits then some { s with buffer := s.buffer ++ [t.name], walk := .next tid }
          else if s.buffer ≠ [] then some { s with saved := some tid, walk := .idle }
          else none
  | _ => none

/-- `next_tid` -/
def nextStep : Option Freeze :=
  match s.walk with
  | .next tid =>
      let behind := (s.threads.findIdx? fun t => t.tid == tid).bind fun k => s.threads[k + 1]?
      match behind with
      | none => some { s with pos := s.pos + 1 }.endWalk
      | some t => some { s with pos := s.pos + 1, walk := .emit t.tid }
  | _ => none

/-- memcr takes the next entry from its buffer; names that are no numbers are passed over. -/
def readdirStep : Option Freeze :=
  match s.walk, s.pc, s.buffer with
  | .idle, .readdir, name :: rest =>
      match threadId name with
      | none => some ({ s with buffer := rest }.goOn (name, ⟨.esrch, []⟩))
      | some tid => some { s with buffer := rest, pc := .seize name tid }
  | _, _, _ => none

/-- `PTRACE_SEIZE`. Nothing is there to be seized if the thread has exited, and a zombie
or a thread that is traced is refused. -/
def seizeStep (permitted : Bool) : Option Freeze :=
  match s.pc with
  | .seize name tid =>
      match s.threads.find? fun t => (t.tid : Int) == tid with
      | none => some (s.goOn (name, ⟨.esrch, []⟩))
      | some t =>
          if t.status = .runs ∧ permitted then some { s with pc := .interrupt name tid [] }
          else some (s.giveUp (name, ⟨.fails, []⟩))
  | _ => none

/-- A round of `seize_pid`. A thread that has exited is not found stopped. -/
def roundStep (stop : Stop) : Option Freeze :=
  match s.pc with
  | .interrupt name tid stops =>
      let thread := s.threads.findIdx? fun t => (t.tid : Int) == tid && t.status != .gone
      match stop with
      | .signal true =>
          if thread.isSome then some { s with pc := .interrupt name tid (stops ++ [stop]) }
          else none
      | .eventStop true =>
          match thread with
          | some k =>
              if maxThreads ≤ s.tids.length then
                some { s with pc := .overrun, log := s.log ++ [(name, ⟨.works, stops ++ [stop]⟩)] }
              else
                some ({ s.setStatus k .frozen with tids := s.tids ++ [tid] }.goOn
                  (name, ⟨.works, stops ++ [stop]⟩))
          | none => none
      | stop => some (s.giveUp (name, ⟨.works, stops ++ [stop]⟩))
  | _ => none

/-- One step of the process or of memcr. -/
def freezeStep : Act → Option Freeze
  | .clone k tid => cloneStep s k tid
  | .exit k => exitStep s k
  | .getdents => getdentsStep s
  | .first => firstStep s
  | .emit fits => emitStep s fits
  | .next => nextStep s
  | .readdir => readdirStep s
  | .seize permitted => seizeStep s permitted
  | .round stop => roundStep s stop

end Steps

/-- How many threads have been delivered. -/
def Freeze.listed (s : Freeze) : Nat :=
  match s.walk with
  | .next _ => s.pos + 1
  | _ => s.pos

/-- How many threads the stream has come to. -/
def Freeze.come (s : Freeze) : Nat :=
  match s.walk with
  | .emit _ | .next _ => s.pos + 1
  | _ => s.pos

/-- No thread exits that the directory stream has come to. -/
def ListedStay (s : Freeze) : Act → Prop
  | .exit k => s.come ≤ k
  | _ => True

instance (s : Freeze) : ∀ act, Decidable (ListedStay s act)
  | .exit _ => inferInstanceAs (Decidable (_ ≤ _))
  | .clone _ _ | .getdents | .first | .emit _ | .next | .readdir | .seize _ | .round _ =>
      inferInstanceAs (Decidable True)

/-- The threads of a process have different numbers. -/
structure Proper (threads : List Thread) : Prop where
  nodup : (threads.map Thread.tid).Nodup
  range : ∀ t ∈ threads, 0 < t.tid ∧ t.tid < 2 ^ 31

/-- The thread that memcr is dealing with. -/
def Pc.tid : Pc → List Int
  | .seize _ tid | .interrupt _ tid _ => [tid]
  | _ => []

/-- memcr is still going through the directory. -/
def Pc.Goes : Pc → Prop
  | .readdir | .seize _ _ | .interrupt _ _ _ => True
  | _ => False

/-- The threads that have been listed and not yet handled. -/
def Freeze.ahead (s : Freeze) : List Int := s.pc.tid ++ s.buffer.filterMap threadId

/-- The numbers of threads as memcr records them. -/
def numbers (threads : List Thread) : List Int := threads.map fun t => (t.tid : Int)

/-- Where the directory stream stands among the threads. -/
structure Streaming (s : Freeze) : Prop where
  bound : s.listed ≤ s.threads.length
  reading : s.walk ≠ .idle → s.pc = .readdir
  current : ∀ tid, s.walk = .emit tid ∨ s.walk = .next tid →
    s.saved = none ∧ ∃ t, s.threads[s.pos]? = some t ∧ t.tid = tid
  saved : ∀ tid ∈ s.saved, tid ∈ s.used ∧ Indexed (fun k t => t.tid = tid → k = s.pos) s.threads

/-- The invariant of a freeze: what is recorded was listed, what is frozen is recorded,
and a thread that still runs is ahead of the stream. -/
structure Freezing (s : Freeze) : Prop extends Streaming s where
  proper : Proper s.threads
  used : ∀ t ∈ s.threads, t.tid ∈ s.used
  /-- What is recorded or ahead has been listed, in the same order. -/
  order : (s.tids ++ s.ahead).Sublist (numbers (s.threads.take s.listed))
  frozen : ∀ t ∈ s.threads, t.status = .frozen → (t.tid : Int) ∈ s.tids
  running : s.pc.Goes → Indexed (fun k t => t.status ≠ .frozen →
    s.listed ≤ k ∨ (t.tid : Int) ∈ s.ahead) s.threads
  stands : s.pc = .returned 0 → s.threads.length ≤ s.pos ∧ ∀ t ∈ s.threads, t.status = .frozen

theorem Thread.threadId_name {t : Thread} (h : 0 < t.tid ∧ t.tid < 2 ^ 31) :
    threadId t.name = some (t.tid : Int) :=
  threadId_toDigits h.1 h.2

section Threads

variable {threads : List Thread} {t u : Thread} {j k : Nat}

theorem Proper.index_eq (h : Proper threads) (ht : threads[j]? = some t)
    (hu : threads[k]? = some u) (hsame : t.tid = u.tid) : j = k := by
  have hj : (threads.map Thread.tid)[j]? = some u.tid := by simp [ht, hsame]
  have hk : (threads.map Thread.tid)[k]? = some u.tid := by simp [hu]
  exact (List.getElem?_inj (List.getElem?_eq_some_iff.mp hj).1 h.nodup).mp (hj.trans hk.symm)

theorem Proper.findIdx (h : Proper threads) (ht : threads[k]? = some t) :
    threads.findIdx? (fun u => u.tid == t.tid) = some k := by
  obtain ⟨hlt, hget⟩ := List.getElem?_eq_some_iff.mp ht
  refine List.findIdx?_eq_some_iff_getElem.mpr ⟨hlt, by simp [hget], fun j hj hsame => ?_⟩
  have heq := h.index_eq (List.getElem?_eq_getElem (hj.trans hlt)) ht (by simpa using hsame)
  omega

theorem map_tid_setStatus (threads : List Thread) (k : Nat) (status : Status) :
    (threads.modify k fun t => { t with status := status }).map Thread.tid =
      threads.map Thread.tid :=
  map_modify_eq fun _ => rfl

theorem Proper.setStatus (h : Proper threads) (k : Nat) (status : Status) :
    Proper (threads.modify k fun t => { t with status := status }) where
  nodup := by
    rw [map_tid_setStatus]
    exact h.nodup
  range := by
    intro t ht
    obtain ⟨j, hj⟩ := List.mem_iff_getElem?.mp ht
    obtain ⟨u, hu, rfl⟩ := getElem?_modify_eq_some hj
    have hrange := h.range u (List.mem_of_getElem? hu)
    split <;> exact hrange

theorem Proper.sublist {fewer : List Thread} (h : Proper threads) (hsub : fewer.Sublist threads) :
    Proper fewer :=
  ⟨h.nodup.sublist (hsub.map _), fun t ht => h.range t (hsub.subset ht)⟩

theorem Proper.concat (h : Proper threads) (hfresh : ∀ u ∈ threads, u.tid ≠ t.tid)
    (hrange : 0 < t.tid ∧ t.tid < 2 ^ 31) : Proper (threads ++ [t]) where
  nodup := by
    rw [List.map_append, List.nodup_append]
    refine ⟨h.nodup, List.pairwise_singleton _ _, ?_⟩
    intro other hother new hnew
    obtain ⟨u, hu, rfl⟩ := List.mem_map.mp hother
    rw [List.mem_singleton.mp hnew]
    exact hfresh u hu
  range := by
    intro u hu
    rcases List.mem_append.mp hu with hu | hu
    · exact h.range u hu
    · rw [List.mem_singleton.mp hu]
      exact hrange

theorem Proper.numbers_nodup (h : Proper threads) : (numbers threads).Nodup := by
  have hcast := List.Nodup.map (Nat.cast_injective (R := Int)) h.nodup
  simpa [numbers, Function.comp_def] using hcast

theorem numbers_take_modify (k n : Nat) (status : Status) :
    numbers ((threads.modify k fun t => { t with status := status }).take n) =
      numbers (threads.take n) := by
  rw [numbers, numbers, List.map_take, List.map_take]
  exact congrArg (List.take n) (map_modify_eq fun _ => rfl)

theorem numbers_take_succ (ht : threads[k]? = some t) :
    numbers (threads.take (k + 1)) = numbers (threads.take k) ++ [(t.tid : Int)] := by
  simp [numbers, List.take_add_one, ht]

end Threads

section Steps

variable {s t : Freeze}

theorem Streaming.clone (h : Streaming s) {tid : Nat} (hfresh : tid ∉ s.used) :
    Streaming { s with threads := s.threads ++ [⟨tid, .runs⟩], used := s.used ++ [tid] } where
  bound := by
    change s.listed ≤ _
    rw [List.length_append]
    exact h.bound.trans (Nat.le_add_right _ _)
  reading := h.reading
  current := by
    intro tid' hwalk
    obtain ⟨hsaved, u, hu, htid⟩ := h.current tid' hwalk
    have hlt := (List.getElem?_eq_some_iff.mp hu).1
    exact ⟨hsaved, u, (List.getElem?_append_left hlt).trans hu, htid⟩
  saved := by
    intro tid' htid'
    obtain ⟨hused, hindex⟩ := h.saved tid' htid'
    refine ⟨List.mem_append_left _ hused, hindex.concat ?_⟩
    rintro rfl
    exact absurd hused hfresh

theorem Freezing.clone (h : Freezing s) {k tid : Nat} (hstep : cloneStep s k tid = some t) :
    Freezing t := by
  simp only [cloneStep] at hstep
  split at hstep
  · rename_i hcan
    cases hstep
    simp only [Bool.and_eq_true, decide_eq_true_eq, Bool.not_eq_true', List.contains_eq_mem,
      decide_eq_false_iff_not] at hcan
    obtain ⟨⟨hruns, hrange⟩, hfresh⟩ := hcan
    have hnew {u : Thread} (hu : u ∈ s.threads ++ [⟨tid, .runs⟩]) :
        u ∈ s.threads ∨ u = ⟨tid, .runs⟩ := by simpa using hu
    have hother : ∀ u ∈ s.threads, u.tid ≠ tid := by
      rintro u hu rfl
      exact hfresh (h.used u hu)
    refine {
      toStreaming := h.toStreaming.clone hfresh
      proper := h.proper.concat hother hrange
      used := ?_
      order := by
        change List.Sublist (s.tids ++ s.ahead) (numbers (List.take s.listed _))
        rw [List.take_append_of_le_length h.bound]
        exact h.order
      frozen := ?_
      running := fun hgoes => (h.running hgoes).concat fun _ => Or.inl h.bound
      stands := ?_ }
    · intro u hu
      rcases hnew hu with hu | rfl
      · exact List.mem_append_left _ (h.used u hu)
      · exact List.mem_append_right _ (List.mem_singleton.mpr rfl)
    · intro u hu hfrozen
      rcases hnew hu with hu | rfl
      · exact h.frozen u hu hfrozen
      · cases hfrozen
    · intro hpc
      obtain ⟨u, hu, hstatus⟩ := (Option.any_eq_true _ _).mp hruns
      have hfrozen := (h.stands hpc).2 u (List.mem_of_getElem? hu)
      simp [hfrozen] at hstatus
  · cases hstep

theorem Freeze.listed_le_come (s : Freeze) : s.listed ≤ s.come := by
  cases hwalk : s.walk <;> simp [Freeze.listed, Freeze.come, hwalk]

theorem Freeze.pos_le_come (s : Freeze) : s.pos ≤ s.come := by
  cases hwalk : s.walk <;> simp [Freeze.come, hwalk]

theorem Freeze.come_eq {tid : Nat} (hwalk : s.walk = .emit tid ∨ s.walk = .next tid) :
    s.come = s.pos + 1 := by
  rcases hwalk with hwalk | hwalk <;> simp [Freeze.come, hwalk]

theorem Freeze.setStatus_eq_some {k j : Nat} {status : Status} {u : Thread}
    (hu : (s.setStatus k status).threads[j]? = some u) :
    ∃ w, s.threads[j]? = some w ∧ w.tid = u.tid ∧
      (k = j ∧ u.status = status ∨ k ≠ j ∧ w = u) := by
  obtain ⟨w, hw, rfl⟩ := getElem?_modify_eq_some hu
  refine ⟨w, hw, ?_⟩
  split
  · rename_i heq
    exact ⟨rfl, Or.inl ⟨heq, rfl⟩⟩
  · rename_i hne
    exact ⟨rfl, Or.inr ⟨hne, rfl⟩⟩

theorem Streaming.setStatus (h : Streaming s) (k : Nat) (status : Status) :
    Streaming (s.setStatus k status) where
  bound := by
    change s.listed ≤ (s.threads.modify k _).length
    rw [List.length_modify]
    exact h.bound
  reading := h.reading
  current := by
    intro tid hwalk
    obtain ⟨hsaved, u, hu, htid⟩ := h.current tid hwalk
    refine ⟨hsaved, if k = s.pos then { u with status := status } else u, ?_, ?_⟩
    · change (s.threads.modify k _)[s.pos]? = _
      rw [List.getElem?_modify, hu]
      rfl
    · split <;> exact htid
  saved := by
    intro tid htid
    obtain ⟨hused, hindex⟩ := h.saved tid htid
    refine ⟨hused, fun j u hu hsame => ?_⟩
    obtain ⟨w, hw, htids, -⟩ := Freeze.setStatus_eq_some hu
    exact hindex j w hw (htids.trans hsame)

theorem Freezing.used_setStatus (h : Freezing s) (k : Nat) (status : Status) :
    ∀ u ∈ (s.setStatus k status).threads, u.tid ∈ s.used := by
  intro u hu
  obtain ⟨j, hj⟩ := List.mem_iff_getElem?.mp hu
  obtain ⟨w, hw, htids, -⟩ := Freeze.setStatus_eq_some hj
  exact htids ▸ h.used w (List.mem_of_getElem? hw)

theorem Freezing.zombie (h : Freezing s) {k : Nat} (hk : s.come ≤ k)
    (hlt : k < s.threads.length) : Freezing (s.setStatus k .gone) where
  toStreaming := h.toStreaming.setStatus k .gone
  proper := h.proper.setStatus k .gone
  used := h.used_setStatus k .gone
  order := by
    change List.Sublist _ (numbers (List.take _ (List.modify _ _ _)))
    rw [numbers_take_modify]
    exact h.order
  frozen := by
    intro u hu hfrozen
    obtain ⟨j, hj⟩ := List.mem_iff_getElem?.mp hu
    obtain ⟨w, hw, -, ⟨-, hgone⟩ | ⟨-, rfl⟩⟩ := Freeze.setStatus_eq_some hj
    · rw [hgone] at hfrozen
      cases hfrozen
    · exact h.frozen w (List.mem_of_getElem? hw) hfrozen
  running := by
    intro hgoes j u hu hstatus
    obtain ⟨w, hw, -, ⟨rfl, -⟩ | ⟨-, rfl⟩⟩ := Freeze.setStatus_eq_some hu
    · exact Or.inl (s.listed_le_come.trans hk)
    · exact h.running hgoes j w hw hstatus
  stands := by
    intro hpc
    have hend := (h.stands hpc).1
    have hpos := s.pos_le_come
    omega

theorem getElem?_eraseIdx_eq_some {threads : List Thread} {k j : Nat} {u : Thread}
    (h : (threads.eraseIdx k)[j]? = some u) :
    j < k ∧ threads[j]? = some u ∨ k ≤ j ∧ threads[j + 1]? = some u := by
  rw [List.getElem?_eraseIdx] at h
  split at h
  · rename_i hlt
    exact Or.inl ⟨hlt, h⟩
  · rename_i hge
    exact Or.inr ⟨by omega, h⟩

theorem Streaming.leave (h : Streaming s) {k : Nat} (hk : s.come ≤ k)
    (hlt : k < s.threads.length) : Streaming { s with threads := s.threads.eraseIdx k } where
  bound := by
    have hlisted := s.listed_le_come.trans hk
    change s.listed ≤ (s.threads.eraseIdx k).length
    rw [List.length_eraseIdx_of_lt hlt]
    omega
  reading := h.reading
  current := by
    intro tid hwalk
    obtain ⟨hsaved, u, hu, htid⟩ := h.current tid hwalk
    refine ⟨hsaved, u, ?_, htid⟩
    have hcome : s.come = s.pos + 1 := Freeze.come_eq hwalk
    rw [hcome] at hk
    exact (List.getElem?_eraseIdx_of_lt hk).trans hu
  saved := by
    intro tid htid
    have hpos := s.pos_le_come
    obtain ⟨hused, hindex⟩ := h.saved tid htid
    refine ⟨hused, fun j u hu hsame => ?_⟩
    rcases getElem?_eraseIdx_eq_some hu with ⟨-, hu⟩ | ⟨hkj, hu⟩
    · exact hindex j u hu hsame
    · have hnext := hindex (j + 1) u hu hsame
      change j = s.pos
      omega

theorem Freezing.leave (h : Freezing s) {k : Nat} (hk : s.come ≤ k)
    (hlt : k < s.threads.length) : Freezing { s with threads := s.threads.eraseIdx k } := by
  have hlisted := s.listed_le_come.trans hk
  have hpos := s.pos_le_come
  have hsub : (s.threads.eraseIdx k).Sublist s.threads := List.eraseIdx_sublist _ _
  refine {
    toStreaming := h.toStreaming.leave hk hlt
    proper := h.proper.sublist hsub
    used := fun u hu => h.used u (hsub.subset hu)
    order := ?_
    frozen := fun u hu => h.frozen u (hsub.subset hu)
    running := ?_
    stands := ?_ }
  · change List.Sublist _ (numbers (List.take s.listed (List.eraseIdx _ _)))
    rw [List.take_eraseIdx_eq_take_of_le _ _ _ hlisted]
    exact h.order
  · intro hgoes j u hu hstatus
    rcases getElem?_eraseIdx_eq_some hu with ⟨-, hu⟩ | ⟨hkj, hu⟩
    · exact h.running hgoes j u hu hstatus
    · exact Or.inl (hlisted.trans hkj)
  · intro hpc
    have hend := (h.stands hpc).1
    omega

theorem Freezing.exit (h : Freezing s) {k : Nat} (hk : s.come ≤ k)
    (hstep : exitStep s k = some t) : Freezing t := by
  simp only [exitStep] at hstep
  split at hstep
  · cases hstep
  · rename_i u hu
    have hlt := (List.getElem?_eq_some_iff.mp hu).1
    split_ifs at hstep
    · cases hstep
      exact h.zombie hk hlt
    · cases hstep
      exact h.leave hk hlt

theorem Freezing.streams (h : Freezing s) (pos : Nat) (saved : Option Nat) (walk : Walk)
    (hstream : Streaming { s with pos := pos, saved := saved, walk := walk })
    (hlisted : Freeze.listed { s with pos := pos, saved := saved, walk := walk } = s.listed)
    (hpc : s.pc = .readdir) : Freezing { s with pos := pos, saved := saved, walk := walk } where
  toStreaming := hstream
  proper := h.proper
  used := h.used
  order := by
    rw [hlisted]
    exact h.order
  frozen := h.frozen
  running := by
    rw [hlisted]
    exact h.running
  stands := by simp [hpc]

theorem Freezing.endWalk (h : Freezing { s with walk := .idle }) (hpc : s.pc = .readdir)
    (hend : s.threads.length ≤ s.pos) : Freezing s.endWalk := by
  rw [Freeze.endWalk]
  split
  · rename_i hempty
    have hahead : Freeze.ahead { s with walk := .idle } = [] := by
      simp [Freeze.ahead, hpc, hempty, Pc.tid]
    refine { h with
      reading := by simp
      order := ?_
      running := fun hgoes => hgoes.elim
      stands := fun _ => ⟨hend, fun u hu => ?_⟩ }
    · have horder := h.order
      rw [hahead] at horder
      change List.Sublist (s.tids ++ s.buffer.filterMap threadId) _
      rw [hempty]
      exact horder
    · by_contra hstatus
      obtain ⟨k, hk⟩ := List.mem_iff_getElem?.mp hu
      have hlt : k < s.threads.length := (List.getElem?_eq_some_iff.mp hk).1
      rcases h.running (by simp [hpc, Pc.Goes]) k u hk hstatus with hlisted | hmem
      · change s.pos ≤ k at hlisted
        omega
      · rw [hahead] at hmem
        cases hmem
  · exact h

theorem Freezing.getdents (h : Freezing s) (hstep : getdentsStep s = some t) : Freezing t := by
  simp only [getdentsStep] at hstep
  split at hstep
  · rename_i hready
    obtain ⟨hpc, -, hwalk⟩ := hready
    cases hstep
    have hlisted : s.listed = s.pos := by simp [Freeze.listed, hwalk]
    refine h.streams s.pos s.saved .first ⟨?_, fun _ => hpc, by simp, h.saved⟩ hlisted.symm hpc
    rw [← hlisted]
    exact h.bound
  · cases hstep

theorem Freeze.find_eq_some {tid : Nat} {u : Thread} (h : s.find tid = some u) :
    u ∈ s.threads ∧ u.tid = tid :=
  ⟨List.mem_of_find?_eq_some h, by simpa using List.find?_some h⟩

theorem Streaming.resumed (h : Streaming s) {u : Thread}
    (hu : ((if s.pos = 0 then none else s.saved.bind s.find).or s.threads[s.pos]?) = some u) :
    s.threads[s.pos]? = some u := by
  rcases Option.or_eq_some_iff.mp hu with hsaved | ⟨-, hcount⟩
  · split_ifs at hsaved
    obtain ⟨tid, htid, hfind⟩ := Option.bind_eq_some_iff.mp hsaved
    obtain ⟨hmem, rfl⟩ := Freeze.find_eq_some hfind
    obtain ⟨k, hk⟩ := List.mem_iff_getElem?.mp hmem
    rw [← (h.saved _ htid).2 k u hk rfl]
    exact hk
  · exact hcount

theorem Freezing.first (h : Freezing s) (hstep : firstStep s = some t) : Freezing t := by
  simp only [firstStep] at hstep
  split at hstep
  · rename_i hwalk
    have hpc := h.reading (by simp [hwalk])
    have hlisted : s.listed = s.pos := by simp [Freeze.listed, hwalk]
    have hbound := h.bound
    rw [hlisted] at hbound
    split at hstep
    · rename_i hnone
      cases hstep
      have hend := List.getElem?_eq_none_iff.mp (Option.or_eq_none_iff.mp hnone).2
      have hidle := h.streams s.pos none .idle ⟨hbound, by simp, by simp, by simp⟩ hlisted.symm hpc
      exact hidle.endWalk hpc hend
    · rename_i u hu
      cases hstep
      refine h.streams s.pos none (.emit u.tid) ⟨hbound, fun _ => hpc, ?_, by simp⟩
        hlisted.symm hpc
      rintro tid (hsame | hsame)
      · cases hsame
        exact ⟨rfl, u, h.resumed hu, rfl⟩
      · cases hsame
  · cases hstep

theorem Freezing.find_eq (h : Freezing s) {k : Nat} {u : Thread} (hu : s.threads[k]? = some u) :
    s.find u.tid = some u := by
  cases hfind : s.find u.tid with
  | none => simpa using List.find?_eq_none.mp hfind u (List.mem_of_getElem? hu)
  | some w =>
      obtain ⟨hmem, hsame⟩ := Freeze.find_eq_some hfind
      obtain ⟨j, hj⟩ := List.mem_iff_getElem?.mp hmem
      obtain rfl := h.proper.index_eq hj hu hsame
      exact hj.symm.trans hu

theorem Freezing.deliver (h : Freezing s) {u : Thread} (hwalk : s.walk = .emit u.tid)
    (hu : s.threads[s.pos]? = some u) :
    Freezing { s with buffer := s.buffer ++ [u.name], walk := .next u.tid } := by
  have hpc := h.reading (by simp [hwalk])
  have hlisted : s.listed = s.pos := by simp [Freeze.listed, hwalk]
  have hname : threadId u.name = some (u.tid : Int) :=
    Thread.threadId_name (h.proper.range u (List.mem_of_getElem? hu))
  have hahead : Freeze.ahead { s with buffer := s.buffer ++ [u.name], walk := .next u.tid } =
      s.ahead ++ [(u.tid : Int)] := by
    simp [Freeze.ahead, hname]
  have horder := h.order
  have hrunning := h.running (by rw [hpc]; trivial)
  rw [hlisted] at horder hrunning
  refine { h with
    bound := (List.getElem?_eq_some_iff.mp hu).1
    reading := fun _ => hpc
    current := ?_
    order := ?_
    running := fun _ k w hw hstatus => ?_ }
  · rintro tid (hsame | hsame)
    · cases hsame
    · cases hsame
      exact ⟨(h.current _ (Or.inl hwalk)).1, u, hu, rfl⟩
  · change List.Sublist _ (numbers (List.take (s.pos + 1) s.threads))
    rw [hahead, numbers_take_succ hu, ← List.append_assoc]
    exact horder.append (List.Sublist.refl _)
  · rw [hahead, List.mem_append]
    rcases hrunning k w hw hstatus with hle | hmem
    · rcases Nat.lt_or_eq_of_le hle with hlt | rfl
      · exact Or.inl hlt
      · obtain rfl : u = w := Option.some.inj (hu.symm.trans hw)
        exact Or.inr (Or.inr (List.mem_singleton.mpr rfl))
    · exact Or.inr (Or.inl hmem)

theorem Freezing.emit (h : Freezing s) {fits : Bool} (hstep : emitStep s fits = some t) :
    Freezing t := by
  simp only [emitStep] at hstep
  split at hstep
  · rename_i tid hwalk
    have hpc := h.reading (by simp [hwalk])
    have hlisted : s.listed = s.pos := by simp [Freeze.listed, hwalk]
    obtain ⟨hsaved, u, hu, rfl⟩ := h.current tid (Or.inl hwalk)
    have hlt := (List.getElem?_eq_some_iff.mp hu).1
    simp only [h.find_eq hu] at hstep
    split_ifs at hstep
    · cases hstep
      exact h.deliver hwalk hu
    · cases hstep
      refine h.streams s.pos (some u.tid) .idle ⟨hlt.le, by simp, by simp, ?_⟩ hlisted.symm hpc
      intro tid htid
      obtain rfl := Option.mem_some_iff.mp htid
      exact ⟨h.used u (List.mem_of_getElem? hu), fun k w hw hsame => h.proper.index_eq hw hu hsame⟩
  · cases hstep

theorem Freezing.next (h : Freezing s) (hstep : nextStep s = some t) : Freezing t := by
  simp only [nextStep] at hstep
  split at hstep
  · rename_i tid hwalk
    have hpc := h.reading (by simp [hwalk])
    have hlisted : s.listed = s.pos + 1 := by simp [Freeze.listed, hwalk]
    have hbound := h.bound
    rw [hlisted] at hbound
    obtain ⟨hsaved, u, hu, rfl⟩ := h.current tid (Or.inr hwalk)
    rw [h.proper.findIdx hu, Option.bind_some] at hstep
    split at hstep
    · rename_i hnone
      cases hstep
      have hend := List.getElem?_eq_none_iff.mp hnone
      have hidle := h.streams (s.pos + 1) s.saved .idle ⟨hbound, by simp, by simp, by simp [hsaved]⟩
        hlisted.symm hpc
      exact hidle.endWalk hpc hend
    · rename_i w hw
      cases hstep
      refine h.streams (s.pos + 1) s.saved (.emit w.tid)
        ⟨hbound, fun _ => hpc, ?_, by simp [hsaved]⟩ hlisted.symm hpc
      rintro tid (hsame | hsame)
      · cases hsame
        exact ⟨hsaved, w, hw, rfl⟩
      · cases hsame
  · cases hstep

theorem Streaming.idle (h : Streaming s) (hpc : s.pc ≠ .readdir) : s.walk = .idle :=
  not_not.mp fun hwalk => hpc (h.reading hwalk)

theorem Streaming.moves (h : Streaming s) (hidle : s.walk = .idle) (buffer : List (List Char))
    (ret : Int) (tids : List Int) (pc : Pc) (log : List (List Char × SeizeCalls)) :
    Streaming { s with buffer := buffer, ret := ret, tids := tids, pc := pc, log := log } where
  bound := h.bound
  reading := fun hwalk => absurd hidle hwalk
  current := h.current
  saved := h.saved

theorem Freezing.moves (h : Freezing s) (hidle : s.walk = .idle) (hgoes : s.pc.Goes)
    {buffer : List (List Char)} {pc : Pc} (hpc : pc ≠ .returned 0)
    (hahead : pc.tid ++ buffer.filterMap threadId = s.ahead) (ret : Int)
    (log : List (List Char × SeizeCalls)) :
    Freezing { s with buffer := buffer, ret := ret, pc := pc, log := log } where
  toStreaming := h.toStreaming.moves hidle buffer ret s.tids pc log
  proper := h.proper
  used := h.used
  order := by
    change List.Sublist (s.tids ++ (pc.tid ++ buffer.filterMap threadId)) _
    rw [hahead]
    exact h.order
  frozen := h.frozen
  running := by
    intro _
    change Indexed (fun k u => u.status ≠ .frozen → s.listed ≤ k ∨
      (u.tid : Int) ∈ pc.tid ++ buffer.filterMap threadId) s.threads
    rw [hahead]
    exact h.running hgoes
  stands := fun hend => absurd hend hpc

theorem Freezing.readdir (h : Freezing s) (hstep : readdirStep s = some t) : Freezing t := by
  simp only [readdirStep] at hstep
  split at hstep
  · rename_i name rest hidle hpc hbuffer
    have hgoes : s.pc.Goes := by
      rw [hpc]
      trivial
    split at hstep
    · rename_i hname
      cases hstep
      refine h.moves hidle hgoes (by simp) ?_ 0 _
      simp [Freeze.ahead, hpc, hbuffer, Pc.tid, hname]
    · rename_i tid hname
      cases hstep
      refine h.moves hidle hgoes (by simp) ?_ s.ret s.log
      simp [Freeze.ahead, hpc, hbuffer, Pc.tid, hname]
  · cases hstep

theorem Freezing.skip (h : Freezing s) {name : List Char} {tid : Int} (hpc : s.pc = .seize name tid)
    (hgone : ∀ u ∈ s.threads, (u.tid : Int) ≠ tid) (entry : List Char × SeizeCalls) :
    Freezing (s.goOn entry) where
  toStreaming := h.toStreaming.moves (h.idle (by simp [hpc])) s.buffer 0 s.tids .readdir _
  proper := h.proper
  used := h.used
  order := by
    refine List.Sublist.trans ?_ h.order
    exact (List.Sublist.refl s.tids).append (List.sublist_append_right _ _)
  frozen := h.frozen
  running := by
    refine fun _ => (h.running (by rw [hpc]; trivial)).mono fun k u hu hold hstatus => ?_
    rcases hold hstatus with hlisted | hahead
    · exact Or.inl hlisted
    · rw [Freeze.ahead, hpc] at hahead
      rcases List.mem_append.mp hahead with hsame | hlater
      · exact absurd (List.mem_singleton.mp hsame) (hgone u (List.mem_of_getElem? hu))
      · exact Or.inr hlater
  stands := by simp [Freeze.goOn]

theorem Freezing.leaves (h : Freezing s) (hidle : s.walk = .idle) {pc : Pc} (hends : ¬ pc.Goes)
    (hpc : pc ≠ .returned 0) (ret : Int) (log : List (List Char × SeizeCalls)) :
    Freezing { s with ret := ret, pc := pc, log := log } where
  toStreaming := h.toStreaming.moves hidle s.buffer ret s.tids pc log
  proper := h.proper
  used := h.used
  order := by
    have hnone : pc.tid = [] := by
      cases pc <;> first | rfl | exact (hends trivial).elim
    change List.Sublist (s.tids ++ (pc.tid ++ s.buffer.filterMap threadId)) _
    rw [hnone]
    refine List.Sublist.trans ?_ h.order
    exact (List.Sublist.refl s.tids).append (List.sublist_append_right _ _)
  frozen := h.frozen
  running := fun hgoes => absurd hgoes hends
  stands := fun hend => absurd hend hpc

theorem Freezing.seize (h : Freezing s) {permitted : Bool}
    (hstep : seizeStep s permitted = some t) : Freezing t := by
  simp only [seizeStep] at hstep
  split at hstep
  · rename_i name tid hpc
    have hidle := h.idle (by simp [hpc])
    split at hstep
    · rename_i hnone
      cases hstep
      refine h.skip hpc (fun u hu => ?_) _
      simpa using List.find?_eq_none.mp hnone u hu
    · split at hstep
      · cases hstep
        refine h.moves hidle (by rw [hpc]; trivial) (by simp) ?_ s.ret s.log
        simp [Freeze.ahead, hpc, Pc.tid]
      · cases hstep
        exact h.leaves hidle (by simp [Pc.Goes]) (by simp) 1 _
  · cases hstep

theorem Freezing.record (h : Freezing s) {name : List Char} {tid : Int} {stops : List Stop}
    (hpc : s.pc = .interrupt name tid stops) {k : Nat} {u : Thread} (hu : s.threads[k]? = some u)
    (htid : (u.tid : Int) = tid) (entry : List Char × SeizeCalls) :
    Freezing ({ s.setStatus k .frozen with tids := s.tids ++ [tid] }.goOn entry) := by
  have hidle := h.idle (by simp [hpc])
  have hahead : s.ahead = tid :: s.buffer.filterMap threadId := by
    simp [Freeze.ahead, hpc, Pc.tid]
  have hrunning := h.running (by rw [hpc]; trivial)
  have horder := h.order
  rw [hahead] at horder hrunning
  refine {
    toStreaming := (h.toStreaming.setStatus k .frozen).moves hidle s.buffer 0 _ .readdir _
    proper := h.proper.setStatus k .frozen
    used := h.used_setStatus k .frozen
    order := ?_
    frozen := fun w hw hfrozen => ?_
    running := fun _ j w hw hstatus => ?_
    stands := by simp [Freeze.goOn] }
  · change List.Sublist (s.tids ++ [tid] ++ s.buffer.filterMap threadId)
      (numbers (List.take _ (List.modify _ _ _)))
    rw [numbers_take_modify, List.append_assoc]
    exact horder
  · obtain ⟨j, hj⟩ := List.mem_iff_getElem?.mp hw
    obtain ⟨v, hv, hsame, ⟨rfl, -⟩ | ⟨-, rfl⟩⟩ := Freeze.setStatus_eq_some hj
    · obtain rfl : u = v := Option.some.inj (hu.symm.trans hv)
      rw [← hsame]
      exact List.mem_append_right _ (List.mem_singleton.mpr htid)
    · exact List.mem_append_left _ (h.frozen v (List.mem_of_getElem? hv) hfrozen)
  · obtain ⟨v, hv, -, ⟨-, hfrozen⟩ | ⟨hne, rfl⟩⟩ := Freeze.setStatus_eq_some hw
    · exact absurd hfrozen hstatus
    · rcases hrunning j v hv hstatus with hlisted | hmem
      · exact Or.inl hlisted
      · refine Or.inr ((List.mem_cons.mp hmem).resolve_left fun hsame => hne ?_)
        exact h.proper.index_eq hu hv (by omega)

theorem Freezing.round (h : Freezing s) {stop : Stop} (hstep : roundStep s stop = some t) :
    Freezing t := by
  simp only [roundStep] at hstep
  split at hstep
  · rename_i name tid stops hpc
    have hidle := h.idle (by simp [hpc])
    split at hstep
    · split at hstep
      · cases hstep
        refine h.moves hidle (by rw [hpc]; trivial) (by simp) ?_ s.ret s.log
        simp [Freeze.ahead, hpc, Pc.tid]
      · cases hstep
    · split at hstep
      · rename_i k hfind
        split at hstep
        · cases hstep
          exact h.leaves hidle (by simp [Pc.Goes]) (by simp) s.ret _
        · cases hstep
          obtain ⟨hk, hfound, -⟩ := List.findIdx?_eq_some_iff_getElem.mp hfind
          rw [Bool.and_eq_true, beq_iff_eq] at hfound
          exact h.record hpc (List.getElem?_eq_getElem hk) hfound.1 _
      · cases hstep
    · cases hstep
      exact h.leaves hidle (by simp [Pc.Goes]) (by simp) 1 _
  · cases hstep

theorem Freezing.step {act : Act} (h : Freezing s) (hstay : ListedStay s act)
    (hstep : freezeStep s act = some t) : Freezing t := by
  cases act with
  | clone k tid => exact h.clone hstep
  | exit k => exact h.exit hstay hstep
  | getdents => exact h.getdents hstep
  | first => exact h.first hstep
  | emit fits => exact h.emit hstep
  | next => exact h.next hstep
  | readdir => exact h.readdir hstep
  | seize permitted => exact h.seize hstep
  | round stop => exact h.round hstep

end Steps

theorem freezing_start {tids : List Nat} (hnodup : tids.Nodup)
    (hrange : ∀ tid ∈ tids, 0 < tid ∧ tid < 2 ^ 31) : Freezing (Freeze.start tids) where
  bound := Nat.zero_le _
  reading := fun _ => rfl
  current := by simp [Freeze.start]
  saved := by simp [Freeze.start]
  proper :=
    { nodup := by simpa [Freeze.start, Function.comp_def] using hnodup
      range := by simpa [Freeze.start] using hrange }
  used := by simp [Freeze.start]
  order := by
    have hdots : dots.filterMap threadId = [] := by decide
    simp [Freeze.start, Freeze.ahead, Pc.tid, hdots]
  frozen := by simp [Freeze.start]
  running := fun _ k u _ _ => Or.inl (Nat.zero_le k)
  stands := by simp [Freeze.start]

theorem Freezing.tids_sublist {s : Freeze} (h : Freezing s) :
    s.tids.Sublist (numbers s.threads) := by
  have hlisted : (numbers (s.threads.take s.listed)).Sublist (numbers s.threads) :=
    (List.take_sublist _ _).map _
  exact ((List.sublist_append_left _ _).trans h.order).trans hlisted

theorem Freezing.tids_eq {s : Freeze} (h : Freezing s)
    (hfrozen : ∀ t ∈ s.threads, t.status = .frozen) : s.tids = numbers s.threads := by
  have hsubset : numbers s.threads ⊆ s.tids := by
    intro tid htid
    obtain ⟨t, ht, rfl⟩ := List.mem_map.mp htid
    exact h.frozen t ht (hfrozen t ht)
  exact h.tids_sublist.eq_of_length_le (h.proper.numbers_nodup.subperm hsubset).length_le

theorem Freezing.stands_eq {s : Freeze} (h : Freezing s) (hpc : s.pc = .returned 0) :
    s.tids = numbers s.threads ∧ ∀ t ∈ s.threads, t.status = .frozen :=
  ⟨h.tids_eq (h.stands hpc).2, (h.stands hpc).2⟩

end Memcr.TaskStream
