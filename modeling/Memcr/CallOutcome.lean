import Mathlib.Data.List.Basic

/-!
Outcomes of calls into code with assertions, fixed-size buffers and unbounded
loops. Only a call that returns has a value; the other outcomes end the
computation and are kept apart, since a property of returned values says
nothing about them.
-/

namespace Memcr.CallOutcome

universe u v

/-- How a call ends. -/
inductive Outcome (α : Type u) where
  | returns (value : α)
  /-- A failed assertion aborts the process. -/
  | aborts
  /-- An access runs past the end of a buffer. -/
  | overruns
  /-- A loop has used up the rounds it was given. -/
  | hangs
  deriving DecidableEq, Repr

namespace Outcome

variable {α : Type u} {β : Type v}

/-- Sequencing: the first outcome other than a return is final. -/
def andThen (first : Outcome α) (next : α → Outcome β) : Outcome β :=
  match first with
  | returns value => next value
  | aborts => aborts
  | overruns => overruns
  | hangs => hangs

instance : Monad Outcome where
  pure := returns
  bind := andThen

@[simp] theorem returns_andThen (value : α) (next : α → Outcome β) :
    (returns value).andThen next = next value := rfl

theorem andThen_andThen {γ : Type*} (first : Outcome α) (next : α → Outcome β)
    (last : β → Outcome γ) :
    (first.andThen next).andThen last = first.andThen fun value => (next value).andThen last := by
  cases first <;> rfl

theorem andThen_eq_returns {first : Outcome α} {next : α → Outcome β} {result : β} :
    first.andThen next = returns result ↔
      ∃ value, first = returns value ∧ next value = returns result := by
  cases first <;> simp [andThen]

theorem andThen_eq_overruns {first : Outcome α} {next : α → Outcome β} :
    first.andThen next = overruns ↔
      first = overruns ∨ ∃ value, first = returns value ∧ next value = overruns := by
  cases first <;> simp [andThen]

theorem andThen_congr {first : Outcome α} {next next' : α → Outcome β}
    (h : ∀ value, first = returns value → next value = next' value) :
    first.andThen next = first.andThen next' := by
  cases first with
  | returns value => exact h value rfl
  | _ => rfl

section Yields

variable {P : α → Prop} {Q : β → Prop}

/-- What the call returns, if it does, satisfies `P`. -/
def Yields (P : α → Prop) (call : Outcome α) : Prop := ∀ value, call = returns value → P value

theorem yields_returns {value : α} (h : P value) : (returns value).Yields P := by
  rintro _ ⟨⟩
  exact h

theorem yields_aborts : (aborts : Outcome α).Yields P := by
  rintro _ ⟨⟩

theorem yields_overruns : (overruns : Outcome α).Yields P := by
  rintro _ ⟨⟩

theorem yields_hangs : (hangs : Outcome α).Yields P := by
  rintro _ ⟨⟩

theorem Yields.andThen {first : Outcome α} {next : α → Outcome β} (h : first.Yields P)
    (hnext : ∀ value, P value → (next value).Yields Q) : (first.andThen next).Yields Q := by
  intro result hresult
  obtain ⟨value, hvalue, hreturns⟩ := andThen_eq_returns.mp hresult
  exact hnext value (h value hvalue) result hreturns

theorem yields_andThen {first : Outcome α} {next : α → Outcome β}
    (hnext : ∀ value, (next value).Yields Q) : (first.andThen next).Yields Q :=
  Yields.andThen (P := fun _ => True) (fun _ _ => trivial) fun value _ => hnext value

end Yields

section Mirrors

universe w

variable {σ : Type v} {τ : Type w}

/-- Two computations over different states run alike: the second does what the
first does, seen through `view`, and `Post` holds of what the first returns. -/
structure Mirrors (view : σ → τ) (Post : α → σ → Prop) (first : Outcome (α × σ))
    (second : Outcome (α × τ)) : Prop where
  same : (first.andThen fun r => returns (r.1, view r.2)) = second
  post : ∀ a s, first = returns (a, s) → Post a s

variable {view : σ → τ} {Post : α → σ → Prop}

theorem mirrors_returns {a : α} {s : σ} (h : Post a s) :
    Mirrors view Post (returns (a, s)) (returns (a, view s)) where
  same := rfl
  post := by
    intro a' s' heq
    cases heq
    exact h

theorem mirrors_overruns : Mirrors view Post overruns overruns where
  same := rfl
  post := by
    intro a s heq
    cases heq

theorem Mirrors.andThen {β : Type u} {Post' : β → σ → Prop} {first : Outcome (α × σ)}
    {second : Outcome (α × τ)} {next : α × σ → Outcome (β × σ)} {next' : α × τ → Outcome (β × τ)}
    (h : Mirrors view Post first second)
    (hnext : ∀ a s, Post a s → Mirrors view Post' (next (a, s)) (next' (a, view s))) :
    Mirrors view Post' (first.andThen next) (second.andThen next') := by
  have hsame := h.same
  cases first with
  | returns r =>
      subst hsame
      exact hnext r.1 r.2 (h.post r.1 r.2 rfl)
  | _ =>
      subst hsame
      refine ⟨rfl, ?_⟩
      intro b s heq
      cases heq

theorem Mirrors.mono {Post' : α → σ → Prop} {first : Outcome (α × σ)} {second : Outcome (α × τ)}
    (h : Mirrors view Post first second) (himp : ∀ a s, Post a s → Post' a s) :
    Mirrors view Post' first second :=
  ⟨h.same, fun a s heq => himp a s (h.post a s heq)⟩

end Mirrors

end Outcome

end Memcr.CallOutcome
