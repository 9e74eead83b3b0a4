import Mathlib.Data.BitVec
import Mathlib.Logic.Function.Basic

namespace Memcr.TrapCode

universe u

/-- The instructions of code that prepares registers, makes a system call and traps.
Branches only lead forward. -/
inductive Instr (Reg : Type) (w : Nat) where
  | imm (dst : Reg) (value : BitVec w)
  | move (dst src : Reg)
  /-- The word with the given number is loaded from behind the instructions. -/
  | load (dst : Reg) (index : Nat)
  /-- The result is what the conditional instructions look at. -/
  | testZero (src : Reg)
  | skipIfZero (count : Nat)
  | skipUnlessZero (count : Nat)
  | skipIfEqual (left right : Reg) (count : Nat)
  | jump (target : Reg)
  | jumpIfZero (target : Reg)
  | syscall
  | trap
  deriving DecidableEq

/-- Instructions, and the words that follow them. -/
structure Code (Reg : Type) (w : Nat) where
  instrs : List (Instr Reg w)
  words : List (BitVec w)

structure State (Reg : Type) (w : Nat) where
  regs : Reg → BitVec w
  zero : Bool
  /-- The number of the next instruction. -/
  pc : Nat

/-- What an instruction leads to. A system call comes with the state that it
returns to. -/
inductive Next (Reg : Type) (w : Nat) where
  | goesOn (s : State Reg w)
  | calls (s : State Reg w)
  | traps
  | leaves (target : BitVec w)
  | lost

section Execution

variable {Reg : Type} [DecidableEq Reg] {w : Nat} {σ : Type u}

/-- The registers behind an instruction that does nothing else. -/
def Code.assign (code : Code Reg w) (regs : Reg → BitVec w) :
    Instr Reg w → Option (Reg → BitVec w)
  | .imm dst value => some (Function.update regs dst value)
  | .move dst src => some (Function.update regs dst (regs src))
  | .load dst index => code.words[index]?.map (Function.update regs dst)
  | _ => none

/-- What the next instruction does. -/
def Code.next (code : Code Reg w) (s : State Reg w) : Next Reg w :=
  match code.instrs[s.pc]? with
  | none => .lost
  | some instr =>
      let behind := { s with pc := s.pc + 1 }
      let skip (count : Nat) := { s with pc := s.pc + 1 + count }
      match instr with
      | .testZero src => .goesOn { behind with zero := s.regs src == 0 }
      | .skipIfZero count => .goesOn (if s.zero then skip count else behind)
      | .skipUnlessZero count => .goesOn (if s.zero then behind else skip count)
      | .skipIfEqual left right count =>
          .goesOn (if s.regs left = s.regs right then skip count else behind)
      | .jump target => .leaves (s.regs target)
      | .jumpIfZero target => if s.zero then .leaves (s.regs target) else .goesOn behind
      | .syscall => .calls behind
      | .trap => .traps
      | instr =>
          match code.assign s.regs instr with
          | none => .lost
          | some regs => .goesOn { behind with regs := regs }

/-- An instruction that the code goes on behind, with a kernel that serves system
calls and has a state of its own. -/
def Code.advance (code : Code Reg w) (serve : (Reg → BitVec w) → σ → (Reg → BitVec w) × σ)
    (s : State Reg w) (o : σ) : Option (State Reg w × σ) :=
  match code.next s with
  | .goesOn s => some (s, o)
  | .calls s => some ({ s with regs := (serve s.regs o).1 }, (serve s.regs o).2)
  | _ => none

/-- The first `n` instructions. -/
def Code.runFor (code : Code Reg w) (serve : (Reg → BitVec w) → σ → (Reg → BitVec w) × σ) :
    Nat → State Reg w → σ → Option (State Reg w × σ)
  | 0, s, o => some (s, o)
  | n + 1, s, o => (code.advance serve s o).bind fun (s, o) => code.runFor serve n s o

/-- A run that is cut off after some instructions, or ends before. -/
def Code.runAtMost (code : Code Reg w) (serve : (Reg → BitVec w) → σ → (Reg → BitVec w) × σ) :
    Nat → State Reg w → σ → State Reg w × σ
  | 0, s, o => (s, o)
  | n + 1, s, o =>
      match code.advance serve s o with
      | none => (s, o)
      | some (s, o) => code.runAtMost serve n s o

/-- The registers behind instructions that only prepare them. -/
def Code.assignAll (code : Code Reg w) :
    List (Instr Reg w) → (Reg → BitVec w) → Option (Reg → BitVec w)
  | [], regs => some regs
  | instr :: rest, regs => (code.assign regs instr).bind (code.assignAll rest)

variable {code : Code Reg w} {serve : (Reg → BitVec w) → σ → (Reg → BitVec w) × σ}
  {s s' : State Reg w} {o o' : σ} {n m : Nat}

theorem runFor_add (n m : Nat) (s : State Reg w) (o : σ) :
    code.runFor serve (n + m) s o =
      (code.runFor serve n s o).bind fun (s, o) => code.runFor serve m s o := by
  induction n generalizing s o with
  | zero => simp [Code.runFor]
  | succ n ih =>
      rw [Nat.succ_add, Code.runFor, Code.runFor, Option.bind_assoc]
      congr 1
      funext ⟨s, o⟩
      exact ih s o

theorem next_eq_goesOn (h : code.next s = .goesOn s') : s.pc < s'.pc := by
  simp only [Code.next] at h
  split at h
  · cases h
  · rename_i instr _
    rcases instr with _ | _ | _ | _ | _ | _ | _ | _ | _ | _ | _ <;> grind [Code.assign]

theorem next_eq_calls (h : code.next s = .calls s') :
    code.instrs[s.pc]? = some .syscall ∧ s' = { s with pc := s.pc + 1 } := by
  simp only [Code.next] at h
  split at h
  · cases h
  · rename_i instr hinstr
    rcases instr with _ | _ | _ | _ | _ | _ | _ | _ | _ | _ | _ <;> grind [Code.assign]

theorem advance_eq_some (h : code.advance serve s o = some (s', o')) :
    s.pc < s'.pc ∧ (o' = o ∨ code.instrs[s.pc]? = some .syscall) := by
  rw [Code.advance] at h
  split at h
  · rename_i hnext
    cases h
    exact ⟨next_eq_goesOn hnext, Or.inl rfl⟩
  · rename_i hnext
    obtain ⟨hinstr, rfl⟩ := next_eq_calls hnext
    cases h
    exact ⟨Nat.lt_succ_self _, Or.inr hinstr⟩
  · cases h

theorem runFor_quiet (hinstrs : ∀ i, s.pc ≤ i → code.instrs[i]? ≠ some .syscall)
    (h : code.runFor serve n s o = some (s', o')) : o' = o := by
  induction n generalizing s o with
  | zero =>
      cases h
      rfl
  | succ n ih =>
      rw [Code.runFor] at h
      obtain ⟨⟨t, o₁⟩, hstep, hrest⟩ := Option.bind_eq_some_iff.mp h
      obtain ⟨hforward, hquiet⟩ := advance_eq_some hstep
      rw [ih (fun i hi => hinstrs i (by omega)) hrest]
      exact hquiet.resolve_right (hinstrs s.pc le_rfl)

theorem runAtMost_of_end (h : code.runFor serve n s o = some (s', o'))
    (hend : code.advance serve s' o' = none) (hn : n ≤ m) :
    code.runAtMost serve m s o = (s', o') := by
  induction n generalizing s o m with
  | zero =>
      cases h
      rcases m with _ | m
      · rfl
      · rw [Code.runAtMost, hend]
  | succ n ih =>
      obtain ⟨m, rfl⟩ := Nat.exists_eq_add_of_le' (Nat.le_of_add_left_le hn)
      rw [Code.runFor] at h
      obtain ⟨⟨t, o₁⟩, hstep, hrest⟩ := Option.bind_eq_some_iff.mp h
      rw [Code.runAtMost, hstep]
      exact ih hrest (Nat.le_of_succ_le_succ hn)

theorem Code.runAtMost_eq_runFor (code : Code Reg w)
    (serve : (Reg → BitVec w) → σ → (Reg → BitVec w) × σ) (n : Nat) (s : State Reg w) (o : σ) :
    ∃ m ≤ n, code.runFor serve m s o = some (code.runAtMost serve n s o) ∧
      (m = n ∨ code.advance serve (code.runAtMost serve n s o).1
        (code.runAtMost serve n s o).2 = none) := by
  induction n generalizing s o with
  | zero => exact ⟨0, le_rfl, rfl, Or.inl rfl⟩
  | succ n ih =>
      simp only [Code.runAtMost]
      split
      · rename_i hend
        exact ⟨0, Nat.zero_le _, rfl, Or.inr hend⟩
      · rename_i t o₁ hstep
        obtain ⟨m, hm, hrun, hlast⟩ := ih t o₁
        refine ⟨m + 1, Nat.succ_le_succ hm, ?_, hlast.imp_left (congrArg Nat.succ)⟩
        rw [Code.runFor, hstep, Option.bind_some]
        exact hrun

theorem le_pc_of_runFor (h : code.runFor serve n s o = some (s', o')) : s.pc + n ≤ s'.pc := by
  induction n generalizing s o with
  | zero =>
      cases h
      exact le_rfl
  | succ n ih =>
      rw [Code.runFor] at h
      obtain ⟨⟨t, o₁⟩, hstep, hrest⟩ := Option.bind_eq_some_iff.mp h
      have hforward := (advance_eq_some hstep).1
      have hlater := ih hrest
      omega

theorem next_eq_traps (h : code.next s = .traps) : code.instrs[s.pc]? = some .trap := by
  simp only [Code.next] at h
  split at h
  · cases h
  · rename_i instr hinstr
    rcases instr with _ | _ | _ | _ | _ | _ | _ | _ | _ | _ | _ <;> grind [Code.assign]

theorem runAtMost_of_traps (h : code.runFor serve n s o = some (s', o'))
    (htraps : code.next s' = .traps) :
    code.runAtMost serve code.instrs.length s o = (s', o') := by
  have hend : code.advance serve s' o' = none := by rw [Code.advance, htraps]
  obtain ⟨hlt, -⟩ := List.getElem?_eq_some_iff.mp (next_eq_traps htraps)
  have hle := le_pc_of_runFor h
  exact runAtMost_of_end h hend (by omega)

theorem advance_assign {instr : Instr Reg w} {regs : Reg → BitVec w}
    (hinstr : code.instrs[s.pc]? = some instr) (hassign : code.assign s.regs instr = some regs)
    (o : σ) : code.advance serve s o = some (⟨regs, s.zero, s.pc + 1⟩, o) := by
  have hnext : code.next s = .goesOn ⟨regs, s.zero, s.pc + 1⟩ := by
    rw [Code.next, hinstr]
    rcases instr with _ | _ | _ | _ | _ | _ | _ | _ | _ | _ | _ <;> grind [Code.assign]
  rw [Code.advance, hnext]

theorem runFor_assigns {body rest : List (Instr Reg w)} {regs : Reg → BitVec w}
    (hinstrs : code.instrs.drop s.pc = body ++ rest)
    (hassign : code.assignAll body s.regs = some regs) (o : σ) :
    code.runFor serve body.length s o = some (⟨regs, s.zero, s.pc + body.length⟩, o) := by
  induction body generalizing s with
  | nil =>
      cases hassign
      rfl
  | cons instr body ih =>
      obtain ⟨regs₁, hfirst, hmore⟩ := Option.bind_eq_some_iff.mp hassign
      have hget : code.instrs[s.pc]? = some instr := by
        have hhead := congrArg List.head? hinstrs
        rwa [List.head?_drop] at hhead
      have hbehind : code.instrs.drop (s.pc + 1) = body ++ rest := by
        have htail := congrArg List.tail hinstrs
        rwa [List.tail_drop] at htail
      rw [List.length_cons, Code.runFor, advance_assign hget hfirst, Option.bind_some]
      have hrun := ih (s := ⟨regs₁, s.zero, s.pc + 1⟩) hbehind hmore
      rw [show s.pc + (body.length + 1) = s.pc + 1 + body.length by omega]
      exact hrun

theorem runFor_testZero {src : Reg} {zero : Bool}
    (hinstr : code.instrs[s.pc]? = some (.testZero src)) (hzero : (s.regs src == 0) = zero)
    {r : Option (State Reg w × σ)} (hrest : code.runFor serve n ⟨s.regs, zero, s.pc + 1⟩ o = r) :
    code.runFor serve (n + 1) s o = r := by
  have hnext : code.next s = .goesOn ⟨s.regs, zero, s.pc + 1⟩ := by
    simp only [Code.next, hinstr, hzero]
  rw [Code.runFor, Code.advance, hnext]
  exact hrest

theorem assignAll_take {body : List (Instr Reg w)} {regs regs' : Reg → BitVec w}
    (h : code.assignAll body regs = some regs') (n : Nat) :
    ∃ regs₁, code.assignAll (body.take n) regs = some regs₁ := by
  induction body generalizing regs n with
  | nil => exact ⟨regs, by rw [List.take_nil]; rfl⟩
  | cons instr body ih =>
      rcases n with _ | n
      · exact ⟨regs, rfl⟩
      · obtain ⟨regs₁, hfirst, hmore⟩ := Option.bind_eq_some_iff.mp h
        obtain ⟨regs₂, htake⟩ := ih hmore n
        refine ⟨regs₂, ?_⟩
        rw [List.take_succ_cons, Code.assignAll, hfirst]
        exact htake

end Execution

section OneCall

variable {Reg : Type} [DecidableEq Reg] {w : Nat} {σ : Type u}

/-- The code assigns to registers, makes its only system call with `called`, and
goes on with `after`. -/
structure OneCall (code : Code Reg w) (regs called : Reg → BitVec w)
    (body after : List (Instr Reg w)) : Prop where
  instrs : code.instrs = body ++ .syscall :: after
  assigns : code.assignAll body regs = some called
  last : .syscall ∉ after

variable {code : Code Reg w} {serve : (Reg → BitVec w) → σ → (Reg → BitVec w) × σ}
  {regs called : Reg → BitVec w} {body after : List (Instr Reg w)} {zero : Bool}
  {s' : State Reg w} {o o' : σ} {n : Nat}

theorem OneCall.runFor_before (h : OneCall code regs called body after) (hn : n ≤ body.length)
    (zero : Bool) (o : σ) :
    ∃ regs', code.runFor serve n ⟨regs, zero, 0⟩ o = some (⟨regs', zero, n⟩, o) := by
  obtain ⟨regs', htake⟩ := assignAll_take h.assigns n
  have hinstrs : code.instrs.drop 0 = body.take n ++ (body.drop n ++ .syscall :: after) := by
    rw [List.drop_zero, ← List.append_assoc, List.take_append_drop, h.instrs]
  have hrun : code.runFor serve _ ⟨regs, zero, 0⟩ o = _ := runFor_assigns hinstrs htake o
  rw [List.length_take_of_le hn, Nat.zero_add] at hrun
  exact ⟨regs', hrun⟩

theorem OneCall.runFor_call (h : OneCall code regs called body after) (zero : Bool) (o : σ) :
    code.runFor serve (body.length + 1) ⟨regs, zero, 0⟩ o =
      some (⟨(serve called o).1, zero, body.length + 1⟩, (serve called o).2) := by
  have hinstrs : code.instrs.drop 0 = body ++ .syscall :: after := h.instrs
  have hrun : code.runFor serve _ ⟨regs, zero, 0⟩ o = _ := runFor_assigns hinstrs h.assigns o
  have hget : code.instrs[body.length]? = some .syscall := by
    rw [h.instrs, List.getElem?_append_right le_rfl, Nat.sub_self, List.getElem?_cons_zero]
  rw [runFor_add, hrun, Option.bind_some]
  simp [Code.runFor, Code.advance, Code.next, hget]

/-- Wherever the code is stopped, the kernel has been called if the system call is
behind it, and once at most. -/
theorem OneCall.runFor_outside (h : OneCall code regs called body after)
    (hrun : code.runFor serve n ⟨regs, zero, 0⟩ o = some (s', o')) :
    o' = if body.length < n then (serve called o).2 else o := by
  split
  · rename_i hn
    obtain ⟨m, rfl⟩ := Nat.exists_eq_add_of_lt hn
    rw [show body.length + m + 1 = body.length + 1 + m by omega, runFor_add,
      h.runFor_call, Option.bind_some] at hrun
    refine runFor_quiet ?_ hrun
    intro i hi hget
    change body.length + 1 ≤ i at hi
    rw [h.instrs, List.getElem?_append_right (by omega),
      show i - body.length = i - (body.length + 1) + 1 by omega, List.getElem?_cons_succ] at hget
    exact h.last (List.mem_of_getElem? hget)
  · rename_i hn
    obtain ⟨regs', hbefore⟩ : ∃ regs', code.runFor serve n ⟨regs, zero, 0⟩ o = some (_, o) :=
      h.runFor_before (Nat.le_of_not_lt hn) zero o
    rw [hbefore] at hrun
    cases hrun
    rfl

theorem OneCall.runAtMost_outside (h : OneCall code regs called body after) (n : Nat) :
    (code.runAtMost serve n ⟨regs, zero, 0⟩ o).2 =
      if body.length < n then (serve called o).2 else o := by
  obtain ⟨m, hm, hrun, hlast⟩ := code.runAtMost_eq_runFor serve n ⟨regs, zero, 0⟩ o
  rw [h.runFor_outside hrun]
  rcases hlast with rfl | hend
  · rfl
  · -- no assignment ends the run, nor does the call
    have hbehind : body.length < m := by
      by_contra hle
      obtain ⟨k, hk⟩ : ∃ k, body.length + 1 = m + (k + 1) := ⟨body.length - m, by omega⟩
      have hcall : code.runFor serve _ ⟨regs, zero, 0⟩ o = _ := h.runFor_call zero o
      rw [hk, runFor_add, hrun, Option.bind_some] at hcall
      simp [Code.runFor, hend] at hcall
    rw [if_pos hbehind, if_pos (by omega)]

end OneCall

end Memcr.TrapCode
