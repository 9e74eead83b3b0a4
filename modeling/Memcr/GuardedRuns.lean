import Mathlib.Data.List.Basic

/-!
Runs of a machine whose step is a partial function of a state and a choice.
The choice names the party that moves and the outcome the environment picks,
so one list of choices is one interleaving. A run may be guarded: every step
is then taken in a state that meets a stated condition, and an invariant only
has to survive the steps that do.
-/

namespace Memcr.GuardedRuns

universe u v w

variable {State : Type u} {Choice : Type v}

/-- The state after a list of choices, if every one of them is enabled. -/
def run (step : State → Choice → Option State) : State → List Choice → Option State
  | s, [] => some s
  | s, c :: rest =>
      match step s c with
      | none => none
      | some t => run step t rest

/-- Every choice of the list is made in a state that meets `guard`. -/
def Guarded (step : State → Choice → Option State) (guard : State → Choice → Prop) :
    State → List Choice → Prop
  | _, [] => True
  | s, c :: rest =>
      guard s c ∧ ∀ t, step s c = some t → Guarded step guard t rest

variable {step : State → Choice → Option State} {guard : State → Choice → Prop}

theorem run_cons_eq_some {s u : State} {c : Choice} {rest : List Choice} :
    run step s (c :: rest) = some u ↔
      ∃ t, step s c = some t ∧ run step t rest = some u := by
  constructor
  · intro h
    simp only [run] at h
    split at h
    · cases h
    · rename_i t ht
      exact ⟨t, ht, h⟩
  · rintro ⟨t, ht, hrest⟩
    simp only [run, ht]
    exact hrest

theorem run_append_eq_some {s u : State} {before after : List Choice} :
    run step s (before ++ after) = some u ↔
      ∃ t, run step s before = some t ∧ run step t after = some u := by
  induction before generalizing s with
  | nil => simp [run]
  | cons c rest ih =>
      simp only [List.cons_append, run_cons_eq_some, ih]
      constructor
      · rintro ⟨mid, hmid, t, hrest, hafter⟩
        exact ⟨t, ⟨mid, hmid, hrest⟩, hafter⟩
      · rintro ⟨t, ⟨mid, hmid, hrest⟩, hafter⟩
        exact ⟨mid, hmid, t, hrest, hafter⟩

theorem guarded_append {s t : State} {before after : List Choice}
    (hguard : Guarded step guard s (before ++ after)) (hrun : run step s before = some t) :
    Guarded step guard s before ∧ Guarded step guard t after := by
  induction before generalizing s with
  | nil =>
      cases hrun
      exact ⟨trivial, hguard⟩
  | cons c rest ih =>
      obtain ⟨mid, hmid, hrest⟩ := run_cons_eq_some.mp hrun
      obtain ⟨hfirst, hlast⟩ := ih (hguard.2 mid hmid) hrest
      refine ⟨⟨hguard.1, fun other hother => ?_⟩, hlast⟩
      exact Option.some.inj (hmid.symm.trans hother) ▸ hfirst

theorem Guarded.and {other : State → Choice → Prop} {s : State} {choices : List Choice}
    (h : Guarded step guard s choices) (hother : Guarded step other s choices) :
    Guarded step (fun s c => guard s c ∧ other s c) s choices := by
  induction choices generalizing s with
  | nil => trivial
  | cons c rest ih =>
      exact ⟨⟨h.1, hother.1⟩, fun t ht => ih (h.2 t ht) (hother.2 t ht)⟩

theorem guarded_of_forall {s : State} {choices : List Choice}
    (h : ∀ c ∈ choices, ∀ s, guard s c) : Guarded step guard s choices := by
  induction choices generalizing s with
  | nil => trivial
  | cons c rest ih =>
      exact ⟨h c (by simp) s, fun t _ => ih fun c hc => h c (by simp [hc])⟩

/-- An invariant that survives every guarded step holds at the end of every
guarded run. -/
theorem invariant_of_guarded {Inv : State → Prop}
    (hstep : ∀ s c t, Inv s → guard s c → step s c = some t → Inv t)
    {s t : State} {choices : List Choice} (hinit : Inv s)
    (hguard : Guarded step guard s choices) (hrun : run step s choices = some t) :
    Inv t := by
  induction choices generalizing s with
  | nil =>
      cases hrun
      exact hinit
  | cons c rest ih =>
      obtain ⟨mid, hmid, hrest⟩ := run_cons_eq_some.mp hrun
      exact ih (hstep s c mid hinit hguard.1 hmid) (hguard.2 mid hmid) hrest

theorem invariant_of_run {Inv : State → Prop}
    (hstep : ∀ s c t, Inv s → step s c = some t → Inv t)
    {s t : State} {choices : List Choice} (hinit : Inv s) (hrun : run step s choices = some t) :
    Inv t := by
  have hkeeps (s : State) (c : Choice) (t : State) (hinv : Inv s) (_ : True)
      (hnext : step s c = some t) : Inv t := hstep s c t hinv hnext
  exact invariant_of_guarded hkeeps hinit (guarded_of_forall fun _ _ _ => trivial) hrun

/-- A total machine that keeps pace with every guarded step, by a step of its own or by
none, is where the relation says at the end of every guarded run. -/
theorem follows_of_guarded {Other : Type w} {follow : Other → Choice → Other}
    {Rel : State → Other → Prop}
    (hstep : ∀ s c t o, Rel s o → guard s c → step s c = some t → Rel t (follow o c))
    {s t : State} {o : Other} {choices : List Choice} (hinit : Rel s o)
    (hguard : Guarded step guard s choices) (hrun : run step s choices = some t) :
    Rel t (choices.foldl follow o) := by
  induction choices generalizing s o with
  | nil =>
      cases hrun
      exact hinit
  | cons c rest ih =>
      obtain ⟨u, hu, hrest⟩ := run_cons_eq_some.mp hrun
      exact ih (hstep s c u o hinit hguard.1 hu) (hguard.2 u hu) hrest

/-- A quantity that grows with every choice of a kind bounds how many of them a
run makes. -/
theorem countP_le_of_run {works : Choice → Bool} {progress : State → Nat}
    (hstep : ∀ s c t, step s c = some t → progress s + (if works c then 1 else 0) ≤ progress t)
    {s t : State} {choices : List Choice} (hrun : run step s choices = some t) :
    progress s + choices.countP works ≤ progress t := by
  induction choices generalizing s with
  | nil =>
      cases hrun
      simp
  | cons c rest ih =>
      obtain ⟨mid, hmid, hrest⟩ := run_cons_eq_some.mp hrun
      have hfirst := hstep s c mid hmid
      have hlater := ih hrest
      rw [List.countP_cons]
      omega

theorem run_map {Other : Type w} {next : Other → Choice → Option Other} (view : Other → State)
    (hview : ∀ s c, (next s c).map view = step (view s) c) (s : Other) (choices : List Choice) :
    (run next s choices).map view = run step (view s) choices := by
  induction choices generalizing s with
  | nil => rfl
  | cons c rest ih =>
      simp only [run, ← hview]
      cases next s c with
      | none => rfl
      | some t => exact ih t

instance decidableGuarded [∀ s c, Decidable (guard s c)] :
    ∀ (s : State) (choices : List Choice), Decidable (Guarded step guard s choices)
  | _, [] => isTrue trivial
  | s, c :: rest =>
      match hstep : step s c with
      | none => decidable_of_iff (guard s c) ⟨fun h => ⟨h, by simp [hstep]⟩, fun h => h.1⟩
      | some t =>
          have := decidableGuarded t rest
          decidable_of_iff (guard s c ∧ Guarded step guard t rest)
            ⟨fun h => ⟨h.1, fun u hu => Option.some.inj (hstep.symm.trans hu) ▸ h.2⟩,
              fun h => ⟨h.1, h.2 t hstep⟩⟩

section Order

variable {Action : Type w}

/-- Every action of the trace `actions`, which follows `past`, satisfies `law`
against what came before it. -/
def EachStep (law : List Action → Action → Prop) (past actions : List Action) : Prop :=
  ∀ before action after, actions = before ++ action :: after → law (past ++ before) action

theorem eachStep_nil (law : List Action → Action → Prop) (past : List Action) :
    EachStep law past [] := by
  intro before action after h
  simp at h

theorem eachStep_cons (law : List Action → Action → Prop) (past rest : List Action)
    (a : Action) :
    EachStep law past (a :: rest) ↔ law past a ∧ EachStep law (past ++ [a]) rest := by
  constructor
  · intro h
    refine ⟨?_, fun before action after heq => ?_⟩
    · simpa using h [] a rest rfl
    · simpa using h (a :: before) action after (by rw [heq, List.cons_append])
  · rintro ⟨hhead, htail⟩ before action after heq
    cases before with
    | nil =>
        obtain ⟨rfl, -⟩ : a = action ∧ rest = after := by simpa using heq
        simpa using hhead
    | cons b before =>
        obtain ⟨rfl, hrest⟩ : a = b ∧ rest = before ++ action :: after := by simpa using heq
        simpa using htail before action after hrest

theorem EachStep.next {law : List Action → Action → Prop} {actions : List Action}
    (h : EachStep law [] actions) {n : Nat} {a : Action} (hnext : actions[n]? = some a) :
    law (actions.take n) a := by
  obtain ⟨hlt, rfl⟩ := List.getElem?_eq_some_iff.mp hnext
  simpa using h (actions.take n) _ (actions.drop (n + 1)) (by simp)

/-- What every lawful action keeps holds of every part of a lawful trace that
starts at its beginning. -/
theorem EachStep.take_induction {law : List Action → Action → Prop} {actions : List Action}
    (h : EachStep law [] actions) (Inv : List Action → Prop) (hnil : Inv [])
    (hstep : ∀ past a, law past a → Inv past → Inv (past ++ [a])) (n : Nat) :
    Inv (actions.take n) := by
  induction n with
  | zero => simpa using hnil
  | succ n ih =>
      cases hnext : actions[n]? with
      | none => simpa [List.take_add_one, hnext] using ih
      | some a =>
          rw [List.take_add_one, hnext]
          exact hstep _ a (h.next hnext) ih

/-- Every action that satisfies `goal` and comes after a trigger also comes
after an answer. -/
def AnsweredBefore (trigger answer goal : Action → Prop) : List Action → List Action → Prop :=
  EachStep fun past action =>
    goal action → (∃ a ∈ past, trigger a) → ∃ a ∈ past, answer a

theorem answeredBefore_of_no_trigger {trigger answer goal : Action → Prop}
    {past actions : List Action} (hpast : ∀ a ∈ past, ¬ trigger a)
    (hactions : ∀ a ∈ actions, ¬ trigger a) :
    AnsweredBefore trigger answer goal past actions := by
  rintro before action after rfl - ⟨a, ha, htrigger⟩
  rcases List.mem_append.mp ha with ha | ha
  · exact absurd htrigger (hpast a ha)
  · exact absurd htrigger (hactions a (by simp [ha]))

/-- The first action that satisfies `goal` decides, when a trigger comes before
it. -/
theorem answeredBefore_first_iff {trigger answer goal : Action → Prop}
    {before after : List Action} {first : Action} (hbefore : ∀ a ∈ before, ¬ goal a)
    (hfirst : goal first) (htrigger : ∃ a ∈ before, trigger a) :
    AnsweredBefore trigger answer goal [] (before ++ first :: after) ↔ ∃ a ∈ before, answer a := by
  constructor
  · intro h
    exact h before first after rfl hfirst htrigger
  · rintro ⟨a, ha, hanswer⟩ earlier action later heq hgoal -
    refine ⟨a, ?_, hanswer⟩
    rcases List.append_eq_append_iff.mp heq with ⟨more, rfl, -⟩ | ⟨more, rfl, htail⟩
    · exact List.mem_append_left more ha
    · cases more with
      | nil => simpa using ha
      | cons b more =>
          obtain ⟨rfl, -⟩ : action = b ∧ later = more ++ first :: after := by simpa using htail
          exact absurd hgoal (hbefore action (by simp))

end Order

end Memcr.GuardedRuns
