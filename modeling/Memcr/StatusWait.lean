import Memcr.GuardedRuns

namespace Memcr.StatusWait

open Memcr.GuardedRuns

/-- `ETIMEDOUT` -/
def etimedout : Int := 110

inductive Pc where
  /-- At the top of the outer loop, about to take the lock. -/
  | round
  /-- At the test of the inner loop. -/
  | test
  | timedwait
  | copy
  /-- Behind the unlock, at the test that leaves the outer loop. -/
  | leave
  | returned
  deriving DecidableEq, Repr

/-- `parasite_watch` with the waiter in `parasite_status_wait`. -/
structure State where
  pc : Pc
  ret : Int
  /-- What is stored in `*status`. -/
  stored : Option Int
  /-- How many calls of `pthread_cond_timedwait` have returned. -/
  waits : Nat
  changed : Bool
  status : Int
  deriving DecidableEq, Repr

def State.start : State where
  pc := .round
  ret := 0
  stored := none
  waits := 0
  changed := false
  status := 0

/-- The waiter moves, or the watching thread calls `parasite_status_signal`. -/
inductive Act where
  | waiter
  | signal (status : Int)
  deriving DecidableEq, Repr

/-- The next step of the waiter; `results` are those of `pthread_cond_timedwait`. -/
def waiterStep (results : Nat → Int) (s : State) : Option State :=
  match s.pc with
  | .round => some { s with pc := .test }
  | .test =>
      if s.changed = false ∧ (s.ret = 0 ∨ s.ret = etimedout) then some { s with pc := .timedwait }
      else some { s with pc := .copy }
  | .timedwait => some { s with pc := .test, ret := results s.waits, waits := s.waits + 1 }
  | .copy =>
      some { s with pc := .leave, stored := if s.ret = 0 then some s.status else s.stored }
  | .leave =>
      if s.ret ≠ etimedout then some { s with pc := .returned } else some { s with pc := .round }
  | .returned => none

/-- The lock is free while the waiter is between its rounds or inside
`pthread_cond_timedwait`. -/
def State.unlocked (s : State) : Bool :=
  match s.pc with
  | .round | .timedwait | .leave | .returned => true
  | .test | .copy => false

/-- `parasite_status_signal`, which the watching thread calls once. -/
def signalStep (status : Int) (s : State) : Option State :=
  if s.unlocked && !s.changed then some { s with changed := true, status := status } else none

def step (results : Nat → Int) (s : State) : Act → Option State
  | .waiter => waiterStep results s
  | .signal status => signalStep status s

/-- The waiter comes to its end with 0 and the status that was signalled. -/
def Delivers (results : Nat → Int) (status : Int) (s : State) : Prop :=
  ∃ n s', run (step results) s (List.replicate n .waiter) = some s' ∧
    s'.pc = .returned ∧ s'.ret = 0 ∧ s'.stored = some status

section Waiting

variable {results : Nat → Int} {status : Int} {s t : State} {acts : List Act}

theorem Delivers.of_step (hstep : waiterStep results s = some t) (h : Delivers results status t) :
    Delivers results status s := by
  obtain ⟨n, s', hrun, hend⟩ := h
  refine ⟨n + 1, s', ?_, hend⟩
  rw [List.replicate_succ, run_cons_eq_some]
  exact ⟨t, hstep, hrun⟩

/-- What is true of the waiter before the signal: it stands before its first
round, or it tests and waits, with a result that lets it wait again. -/
structure Pending (s : State) : Prop where
  quiet : s.changed = false
  ret : s.ret = 0 ∨ s.ret = etimedout
  pc : s.pc = .round ∧ s.ret = 0 ∨ s.pc = .test ∨ s.pc = .timedwait

theorem pending_start : Pending State.start where
  quiet := rfl
  ret := Or.inl rfl
  pc := Or.inl ⟨rfl, rfl⟩

theorem Pending.waiter (hresults : ∀ k, results k = 0 ∨ results k = etimedout) (h : Pending s)
    (hstep : waiterStep results s = some t) : Pending t := by
  have hquiet := h.quiet
  rcases h.pc with ⟨hpc, hret⟩ | hpc | hpc
  · simp only [waiterStep, hpc, Option.some.injEq] at hstep
    subst hstep
    exact ⟨hquiet, h.ret, Or.inr (Or.inl rfl)⟩
  · simp only [waiterStep, hpc, if_pos (And.intro hquiet h.ret), Option.some.injEq] at hstep
    subst hstep
    exact ⟨hquiet, h.ret, Or.inr (Or.inr rfl)⟩
  · simp only [waiterStep, hpc, Option.some.injEq] at hstep
    subst hstep
    exact ⟨hquiet, hresults s.waits, Or.inr (Or.inl rfl)⟩

theorem pending_of_run (hresults : ∀ k, results k = 0 ∨ results k = etimedout)
    (hrun : run (step results) State.start acts = some s) (hquiet : s.changed = false) :
    Pending s := by
  have hinv : s.changed = false → Pending s := by
    refine @invariant_of_run _ _ _ (fun s => s.changed = false → Pending s) ?_ _ _ _
      (fun _ => pending_start) hrun
    intro s act t hs hstep hquiet
    rcases act with _ | status
    · have hbefore : s.changed = false := by
        simp only [step, waiterStep] at hstep
        split at hstep <;> (try split at hstep) <;> cases hstep <;> exact hquiet
      exact (hs hbefore).waiter hresults hstep
    · simp only [step, signalStep] at hstep
      split at hstep
      · cases hstep
        cases hquiet
      · cases hstep
  exact hinv hquiet

theorem delivers_of_test (hpc : s.pc = .test) (hchanged : s.changed = true) (hret : s.ret = 0)
    (hstatus : s.status = status) : Delivers results status s := by
  refine Delivers.of_step (t := { s with pc := .copy }) (by simp [waiterStep, hpc, hchanged]) ?_
  refine Delivers.of_step (t := { s with pc := .leave, stored := some s.status })
    (by simp [waiterStep, hret]) ?_
  refine Delivers.of_step (t := { s with pc := .returned, stored := some s.status })
    (by simp [waiterStep, hret, etimedout]) ?_
  exact ⟨0, _, rfl, rfl, hret, congrArg some hstatus⟩

/-- The round that never ends: the status is there, the result still says that the
last wait timed out, and no test looks at both. -/
structure Stuck (s : State) : Prop where
  changed : s.changed = true
  ret : s.ret = etimedout
  pc : s.pc ≠ .timedwait ∧ s.pc ≠ .returned

theorem Stuck.waiter (h : Stuck s) (hstep : waiterStep results s = some t) : Stuck t := by
  rcases s with ⟨pc, ret, stored, waits, changed, status⟩
  obtain ⟨rfl, rfl, hwaiting, hreturned⟩ := h
  cases pc with
  | round =>
      cases hstep
      exact ⟨rfl, rfl, by simp⟩
  | test =>
      simp only [waiterStep, Bool.true_eq_false, false_and, if_false, Option.some.injEq] at hstep
      subst hstep
      exact ⟨rfl, rfl, by simp⟩
  | timedwait => exact absurd rfl hwaiting
  | copy =>
      cases hstep
      exact ⟨rfl, rfl, by simp⟩
  | leave =>
      simp only [waiterStep, ne_eq, not_true_eq_false, if_false, Option.some.injEq] at hstep
      subst hstep
      exact ⟨rfl, rfl, by simp⟩
  | returned => exact absurd rfl hreturned

theorem Stuck.run (h : Stuck s) {n : Nat}
    (hrun : run (step results) s (List.replicate n .waiter) = some t) : Stuck t := by
  induction n generalizing s with
  | zero =>
      cases hrun
      exact h
  | succ n ih =>
      rw [List.replicate_succ, run_cons_eq_some] at hrun
      obtain ⟨mid, hmid, hrest⟩ := hrun
      exact ih (h.waiter hmid) hrest

theorem not_returned_of_timeout (hpc : s.pc = .timedwait) (hchanged : s.changed = true)
    (htimeout : results s.waits = etimedout) {n : Nat}
    (hrun : run (step results) s (List.replicate n .waiter) = some t) : t.pc ≠ .returned := by
  cases n with
  | zero =>
      cases hrun
      rw [hpc]
      decide
  | succ n =>
      rw [List.replicate_succ, run_cons_eq_some] at hrun
      obtain ⟨mid, hmid, hrest⟩ := hrun
      simp only [step, waiterStep, hpc, Option.some.injEq] at hmid
      subst hmid
      have hstuck : Stuck { s with
          pc := .test, ret := results s.waits, waits := s.waits + 1 } :=
        ⟨hchanged, htimeout, by simp⟩
      exact (hstuck.run hrest).pc.2

end Waiting

/-- Once the status is signalled, `parasite_status_wait` returns 0 with it exactly
when the signal does not come during a wait that then reports a timeout. -/
theorem statusWait_ends_iff (results : Nat → Int)
    (hresults : ∀ k, results k = 0 ∨ results k = etimedout) (acts : List Act) (status : Int)
    (s : State) (hrun : run (step results) State.start (acts ++ [.signal status]) = some s) :
    Delivers results status s ↔ (s.pc = .timedwait → results s.waits = 0) := by
  obtain ⟨s₀, hbefore, hsignal⟩ := run_append_eq_some.mp hrun
  obtain ⟨s₁, hstep, hlast⟩ := run_cons_eq_some.mp hsignal
  obtain rfl : s₁ = s := Option.some.inj hlast
  simp only [step, signalStep] at hstep
  split at hstep
  · rename_i hfree
    simp only [Bool.and_eq_true, Bool.not_eq_true'] at hfree
    obtain rfl := Option.some.inj hstep
    have hpending := pending_of_run hresults hbefore hfree.2
    -- the lock is free before the first round and inside a wait
    rcases hpending.pc with ⟨hpc, hret⟩ | hpc | hpc
    · refine iff_of_true ?_ (by simp [hpc])
      refine Delivers.of_step (by simp only [waiterStep, hpc]; rfl) ?_
      exact delivers_of_test rfl rfl hret rfl
    · simp [State.unlocked, hpc] at hfree
    · rcases hresults s₀.waits with hzero | htimeout
      · refine iff_of_true ?_ (fun _ => hzero)
        refine Delivers.of_step (by simp only [waiterStep, hpc]; rfl) ?_
        exact delivers_of_test rfl rfl hzero rfl
      · have hne : results s₀.waits ≠ 0 := by
          rw [htimeout]
          decide
        refine iff_of_false ?_ (fun h => hne (h hpc))
        rintro ⟨n, s', hloop, hreturned, -⟩
        exact not_returned_of_timeout (s := { s₀ with changed := true, status := status })
          hpc rfl htimeout hloop hreturned
  · cases hstep

theorem statusWait_ends_woken :
    ∃ s, run (step fun k => if k = 0 then etimedout else 0) State.start
        [.waiter, .waiter, .waiter, .waiter, .signal 7] = some s ∧
      Delivers (fun k => if k = 0 then etimedout else 0) 7 s := by
  refine ⟨_, rfl, ?_⟩
  refine (statusWait_ends_iff _ ?_ [.waiter, .waiter, .waiter, .waiter] 7 _ rfl).mpr ?_
  · intro k
    split_ifs
    · exact Or.inr rfl
    · exact Or.inl rfl
  · intro _
    rfl

theorem lateTimeout_never_returns :
    ∃ s, run (step fun _ => etimedout) State.start [.waiter, .waiter, .signal 0] = some s ∧
      s.changed = true ∧
      ∀ n s', run (step fun _ => etimedout) s (List.replicate n .waiter) = some s' →
        s'.pc ≠ .returned :=
  ⟨_, rfl, rfl, fun _ _ hrun => not_returned_of_timeout rfl rfl rfl hrun⟩

end Memcr.StatusWait
