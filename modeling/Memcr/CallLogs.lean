import Memcr.CallOutcome

namespace Memcr.CallLogs

open Memcr.CallOutcome

universe u v w

/-- A call with the log of what it has done. The log stands also when the call is aborted. -/
structure Logged (ι : Type u) (α : Type v) where
  log : List ι
  outcome : Outcome α
  deriving DecidableEq

namespace Logged

variable {ι κ : Type u} {α : Type v} {β : Type w}

def done (value : α) : Logged ι α := ⟨[], .returns value⟩

def abort : Logged ι α := ⟨[], .aborts⟩

/-- The entries are made before anything else. -/
def after (entries : List ι) (call : Logged ι α) : Logged ι α :=
  ⟨entries ++ call.log, call.outcome⟩

/-- The log of the second call is only there if the first one returns. -/
def andThen (first : Logged ι α) (next : α → Logged ι β) : Logged ι β :=
  match first.outcome with
  | .returns value => after first.log (next value)
  | .aborts => ⟨first.log, .aborts⟩
  | .overruns => ⟨first.log, .overruns⟩
  | .hangs => ⟨first.log, .hangs⟩

/-- The log of the call becomes a part of its value, and is entered in another
log in the given way. -/
def deliver (call : Logged ι α) (enter : List ι → List κ) : Logged κ (List ι × α) :=
  ⟨enter call.log, call.outcome.andThen fun value => .returns (call.log, value)⟩

/-- The call returns, or it is aborted. -/
inductive Ends (Post : List ι → α → Prop) (Cut : List ι → Prop) : Logged ι α → Prop
  | returns {log : List ι} {value : α} (h : Post log value) : Ends Post Cut ⟨log, .returns value⟩
  | aborts {log : List ι} (h : Cut log) : Ends Post Cut ⟨log, .aborts⟩

variable {Post Post' : List ι → α → Prop} {Cut Cut' : List ι → Prop} {call : Logged ι α}

theorem Ends.mono (h : Ends Post Cut call) (hpost : ∀ log value, Post log value → Post' log value)
    (hcut : ∀ log, Cut log → Cut' log) : Ends Post' Cut' call := by
  rcases h with h | h
  · exact .returns (hpost _ _ h)
  · exact .aborts (hcut _ h)

theorem Ends.after {entries : List ι}
    (h : Ends (fun log value => Post (entries ++ log) value) (fun log => Cut (entries ++ log))
      call) : Ends Post Cut (after entries call) := by
  rcases h with h | h
  · exact .returns h
  · exact .aborts h

theorem Ends.andThen {Post' : List ι → β → Prop} {next : α → Logged ι β}
    (h : Ends Post Cut call) (hcut : ∀ log, Cut log → Cut' log)
    (hnext : ∀ log value, Post log value →
      Ends (fun more result => Post' (log ++ more) result) (fun more => Cut' (log ++ more))
        (next value)) :
    Ends Post' Cut' (call.andThen next) := by
  rcases h with h | h
  · exact (hnext _ _ h).after
  · exact .aborts (hcut _ h)

theorem Ends.deliver (h : Ends Post Cut call) (enter : List ι → List κ) :
    Ends (fun log (got, value) => log = enter got ∧ Post got value)
      (fun log => ∃ got, log = enter got ∧ Cut got) (call.deliver enter) := by
  rcases h with h | h
  · exact .returns ⟨rfl, h⟩
  · exact .aborts ⟨_, rfl, h⟩

end Logged

end Memcr.CallLogs
