import Mathlib.Data.List.Basic

namespace Memcr.Pipes

universe u

variable {Symbol : Type u}

/-- One direction of a stream connection, with the whole history of what its reader has
got: the writer is described by what has been sent, the reader by what it has got. -/
structure Pipe (Symbol : Type u) where
  /-- Everything the reader has taken out, in order. -/
  got : List Symbol
  /-- Written and not yet taken out. -/
  pending : List Symbol

namespace Pipe

def empty : Pipe Symbol where
  got := []
  pending := []

/-- Everything the writer has written. -/
def sent (p : Pipe Symbol) : List Symbol := p.got ++ p.pending

def push (p : Pipe Symbol) (symbols : List Symbol) : Pipe Symbol :=
  { p with pending := p.pending ++ symbols }

def pull (p : Pipe Symbol) (n : Nat) : Pipe Symbol where
  got := p.got ++ p.pending.take n
  pending := p.pending.drop n

@[simp] theorem got_push (p : Pipe Symbol) (symbols : List Symbol) :
    (p.push symbols).got = p.got := rfl

@[simp] theorem sent_push (p : Pipe Symbol) (symbols : List Symbol) :
    (p.push symbols).sent = p.sent ++ symbols := by
  simp [sent, push]

@[simp] theorem got_pull (p : Pipe Symbol) (n : Nat) :
    (p.pull n).got = p.got ++ p.pending.take n := rfl

@[simp] theorem sent_pull (p : Pipe Symbol) (n : Nat) : (p.pull n).sent = p.sent := by
  simp [sent, pull]

theorem got_prefix_sent (p : Pipe Symbol) : p.got <+: p.sent :=
  List.prefix_append p.got p.pending

theorem pending_eq_nil_of_le {p : Pipe Symbol} (h : p.sent.length ≤ p.got.length) :
    p.pending = [] := by
  simp only [sent, List.length_append] at h
  exact List.eq_nil_of_length_eq_zero (by omega)

theorem got_eq_sent {p : Pipe Symbol} (h : p.pending = []) : p.got = p.sent := by
  rw [sent, h, List.append_nil]

/-- How far both ends have come. -/
def traffic (p : Pipe Symbol) : Nat := p.got.length + p.sent.length

theorem traffic_push (p : Pipe Symbol) (symbols : List Symbol) :
    (p.push symbols).traffic = p.traffic + symbols.length := by
  simp only [traffic, got_push, sent_push, List.length_append]
  omega

theorem traffic_pull {p : Pipe Symbol} {n : Nat} (hn : n ≤ p.pending.length) :
    (p.pull n).traffic = p.traffic + n := by
  simp only [traffic, got_pull, sent_pull, List.length_append, List.length_take]
  omega

theorem traffic_le (p : Pipe Symbol) : p.traffic ≤ 2 * p.sent.length := by
  have := p.got_prefix_sent.length_le
  simp only [traffic]
  omega

end Pipe

end Memcr.Pipes
