import Memcr.BlobCode
import Memcr.InjectionTrace

namespace Memcr.BlobSteps

open Memcr.AddressWindows
open Memcr.BlobCode
open Memcr.BlobExecution
open Memcr.CallOutcome
open Memcr.InjectionTrace (Machine Parts Course Context wordAt wordBytes pagesOf peek poke)
open Memcr.TrapCode

universe u

section Registers

/-- The place of a register in `others`. -/
def otherIndex : X86Reg → Nat
  | .r13 => 0
  | .r12 => 1
  | .rbp => 2
  | .rbx => 3
  | .r11 => 4
  | .r10 => 5
  | .r9 => 6
  | .r8 => 7
  | .rcx => 8
  | .rdx => 9
  | .rsi => 10
  | .rdi => 11
  | .cs => 12
  | .eflags => 13
  | .ss => 14
  | .fsBase => 15
  | .gsBase => 16
  | .ds => 17
  | .es => 18
  | .fs => 19
  | .gs => 20
  | _ => 21

/-- The registers by their names. -/
def file (regs : Registers) : X86Reg → BitVec 64
  | .rax => regs.rax
  | .origRax => regs.origRax
  | .rip => regs.rip
  | .rsp => regs.rsp
  | .r14 => regs.r14
  | .r15 => regs.r15
  | r => regs.others.getD (otherIndex r) 0

theorem file_setCpuRegs (regs : Registers) (pc arg0 arg1 : BitVec 64) :
    file (setCpuRegs regs pc arg0 arg1) = x86.setCpuRegs (file regs) pc arg0 arg1 := by
  funext r
  cases r <;> rfl

end Registers

section Runs

variable {σ : Type u}

/-- The blob starts with the registers that `execute_blob` has written. -/
def entry (regs : Registers) (zero : Bool) : State X86Reg 64 := ⟨file regs, zero, 0⟩

/-- The blob runs to its trap; the result is what `get_cpu_syscall_ret` finds there. -/
def runToTrap (kernel : Call 64 → σ → BitVec 64 × σ) (junk : X86Reg → BitVec 64) (zero : Bool)
    (blob : Blob) (regs : Registers) (o : σ) : Outcome (BitVec 64 × σ) :=
  let code := x86.code blob
  let (s, o) := code.runAtMost (x86.serve kernel junk) code.instrs.length (entry regs zero) o
  match code.next s with
  | .traps => .returns (s.regs .rax, o)
  | _ => .hangs

/-- The place of the system call in a blob. -/
def callIndex (blob : Blob) : Nat := (x86.before blob).length

variable {kernel : Call 64 → σ → BitVec 64 × σ} {junk : X86Reg → BitVec 64} {zero : Bool}
  {blob : Blob} {regs : Registers} {pc arg0 arg1 : BitVec 64} {o : σ}

theorem runToTrap_eq
    (hclone : blob = .clone → (kernel (wanted arg0 arg1 blob) o).1 ≠ 0) :
    runToTrap kernel junk zero blob (setCpuRegs regs pc arg0 arg1) o =
      .returns (kernel (wanted arg0 arg1 blob) o) := by
  obtain ⟨n, s, hrun, hresult, hnext⟩ : ∃ n s, (x86.code blob).runFor (x86.serve kernel junk) n
        (entry (setCpuRegs regs pc arg0 arg1) zero) o =
          some (s, (kernel (wanted arg0 arg1 blob) o).2) ∧
      s.regs X86Reg.rax = (kernel (wanted arg0 arg1 blob) o).1 ∧
      (x86.code blob).next s =
        if blob = .clone ∧ (kernel (wanted arg0 arg1 blob) o).1 = 0 then .leaves arg0
        else .traps := by
    rw [entry, file_setCpuRegs]
    exact runs_to_end .x86_64 blob kernel junk (file regs) pc arg0 arg1 zero o
  rw [if_neg (fun h => hclone h.1 h.2)] at hnext
  simp only [runToTrap, runAtMost_of_traps hrun hnext, hnext, hresult]

theorem runAtMost_entry (n : Nat) :
    ((x86.code blob).runAtMost (x86.serve kernel junk) n
        (entry (setCpuRegs regs pc arg0 arg1) zero) o).2 =
      if callIndex blob < n then (kernel (wanted arg0 arg1 blob) o).2 else o := by
  rw [entry, file_setCpuRegs]
  exact runAtMost_stopped .x86_64 blob kernel junk (file regs) pc arg0 arg1 zero o n

end Runs

section Stops

/-- A signal-delivery stop after some instructions, and the signals behind it. -/
structure CodeStop where
  sig : Nat
  instructions : Nat
  more : List Nat
  deriving DecidableEq, Repr

/-- `-EFAULT` -/
def efault : BitVec 64 := -14

/-- `-EINVAL` -/
def einval : BitVec 64 := -22

/-- The system calls of a target whose memory is the word at `slotAddr`. -/
def serveTarget (kernel : Kernel) (slotAddr : BitVec 64) : Call 64 → Target → BitVec 64 × Target
  | .rtSigprocmask how nset oset sigsetsize, t =>
      if how = BitVec.ofNat 64 sigSetmask ∧ nset = slotAddr ∧ oset = slotAddr ∧
          sigsetsize = 8 then
        syscall kernel .sigprocmask t
      else (efault, t)
  | .mmap .., t => syscall kernel .mmap t
  | .clone .., t => syscall kernel .clone t
  | .munmap .., t => syscall kernel .munmap t

variable (kernel : Kernel) (slotAddr : BitVec 64) (junk : X86Reg → BitVec 64) (zero : Bool)
  (blob : Blob) (pc arg0 arg1 : BitVec 64)

/-- The `retry` loop of `execute_blob` over the instructions of the blob. -/
def blobLoop (savedRegs : Registers) (stack : BitVec 64) :
    List CodeStop → Target → Outcome (BitVec 64 × Target × List Delivery)
  | [], t =>
      let regs := setCpuRegs savedRegs pc arg0 arg1
      (runToTrap (serveTarget kernel slotAddr) junk zero blob regs { t with regs := regs }).andThen
        fun (ret, t) => .returns (ret, { t with regs := savedRegs }, [])
  | stop :: rest, t =>
      let regs := setCpuRegs savedRegs pc arg0 arg1
      let t := ((x86.code blob).runAtMost (x86.serve (serveTarget kernel slotAddr) junk)
        stop.instructions (entry regs zero) { t with regs := regs }).2
      let (t, deliveries) := deliverSignals kernel savedRegs (stop.sig :: stop.more) t
      if !t.alive then .returns (-1#64, t, deliveries)
      else
        (blobLoop savedRegs stack rest { t with slot := stack }).andThen fun (ret, t, more) =>
          .returns (ret, t, deliveries ++ more)

/-- `execute_blob` with the instructions of the x86_64 blobs: a signal may stop a blob
at any of them. -/
def executeBlob (script : List CodeStop) (t : Target) :
    Outcome (BitVec 64 × Target × List Delivery) :=
  if !t.alive then .aborts
  else blobLoop kernel slotAddr junk zero blob pc arg0 arg1 t.regs t.slot script t

/-- A stop as `BlobExecution` has it, before or behind the system call. -/
def CodeStop.toStop (stop : CodeStop) : Stop :=
  ⟨stop.sig, decide (callIndex blob < stop.instructions), stop.more⟩

variable {kernel slotAddr junk zero blob pc arg0 arg1}

theorem serveTarget_wanted (hslot : blob = .sigprocmask → arg0 = slotAddr) (t : Target) :
    serveTarget kernel slotAddr (wanted arg0 arg1 blob) t = syscall kernel blob t := by
  cases blob with
  | sigprocmask => exact if_pos ⟨rfl, hslot rfl, hslot rfl, rfl⟩
  | mmap | clone | munmap => rfl

theorem stopped_eq_runToStop (hslot : blob = .sigprocmask → arg0 = slotAddr)
    (savedRegs : Registers) (stop : CodeStop) (t : Target) :
    ((x86.code blob).runAtMost (x86.serve (serveTarget kernel slotAddr) junk)
        stop.instructions (entry (setCpuRegs savedRegs pc arg0 arg1) zero) t).2 =
      runToStop kernel blob (stop.toStop blob) t := by
  rw [runAtMost_entry, serveTarget_wanted hslot, runToStop]
  by_cases hbehind : callIndex blob < stop.instructions
  · rw [if_pos hbehind]
    exact (if_pos (decide_eq_true hbehind)).symm
  · rw [if_neg hbehind]
    exact (if_neg (fun h => hbehind (of_decide_eq_true h))).symm

theorem blobLoop_eq (hslot : blob = .sigprocmask → arg0 = slotAddr)
    (hclone : blob = .clone → ∀ n, kernel.result .clone n ≠ 0) (savedRegs : Registers)
    (stack : BitVec 64) (script : List CodeStop) (t : Target) :
    blobLoop kernel slotAddr junk zero blob pc arg0 arg1 savedRegs stack script t =
      .returns (BlobExecution.blobLoop kernel blob pc arg0 arg1 savedRegs stack
        (script.map (CodeStop.toStop blob)) t) := by
  induction script generalizing t with
  | nil =>
      have hparent : blob = .clone → (serveTarget kernel slotAddr (wanted arg0 arg1 blob)
          { t with regs := setCpuRegs savedRegs pc arg0 arg1 }).1 ≠ 0 := by
        rintro rfl
        exact hclone rfl _
      rw [blobLoop, runToTrap_eq hparent, serveTarget_wanted hslot]
      rfl
  | cons stop rest ih =>
      simp only [blobLoop, stopped_eq_runToStop hslot, List.map_cons, BlobExecution.blobLoop, ih]
      split <;> rename_i hdead
      · exact congrArg Outcome.returns (if_pos hdead).symm
      · exact congrArg Outcome.returns (if_neg hdead).symm

/-- Wherever the signals of a script stop the blob, `execute_blob` is as if it were stopped
before or after its system call. -/
theorem executeBlob_refines (kernel : Kernel) (slotAddr : BitVec 64) (junk : X86Reg → BitVec 64)
    (zero : Bool) (blob : Blob) (pc arg0 arg1 : BitVec 64)
    (hslot : blob = .sigprocmask → arg0 = slotAddr)
    (hclone : blob = .clone → ∀ n, kernel.result .clone n ≠ 0) (script : List CodeStop)
    (t : Target) :
    executeBlob kernel slotAddr junk zero blob pc arg0 arg1 script t =
      BlobExecution.executeBlob kernel blob pc arg0 arg1 (script.map (CodeStop.toStop blob)) t := by
  rw [executeBlob, BlobExecution.executeBlob]
  split
  · rfl
  · exact blobLoop_eq hslot hclone t.regs t.slot script t

theorem executeBlob_refines_sigusr1 :
    executeBlob usr1Kernel 0x7f80 (fun _ => 0) false .sigprocmask 0x1000 0x7f80 0 [⟨10, 6, []⟩]
        freshTarget =
      BlobExecution.executeBlob usr1Kernel .sigprocmask 0x1000 0x7f80 0 [⟨10, true, []⟩]
        freshTarget :=
  executeBlob_refines usr1Kernel 0x7f80 (fun _ => 0) false .sigprocmask 0x1000 0x7f80 0
    (fun _ => rfl) (fun h => by cases h) [⟨10, 6, []⟩] freshTarget

end Stops

section Memory

variable (kernel : Kernel) (pageSize : BitVec 64)

/-- The system calls on the whole memory. Other mappings than private anonymous ones are not
asked for. -/
def serveMachine : Call 64 → Machine → BitVec 64 × Machine
  | .rtSigprocmask how nset oset sigsetsize, m =>
      if how = BitVec.ofNat 64 sigSetmask ∧ sigsetsize = 8 then
        (0, { m with
          calls := m.calls ++ [.sigprocmask]
          mask := SigMask.ofBits (wordAt m.mem nset)
          mem := writeWindow m.mem oset (wordBytes m.mask.val) })
      else (einval, m)
  | .mmap _ len _ flags _ _, m =>
      if flags ≠ BitVec.ofNat 64 mapFlags then (einval, m)
      else
        let ret := kernel.result .mmap m.calls.length
        let called := { m with calls := m.calls ++ [.mmap] }
        if isErrValue ret then (ret, called)
        else
          (ret, { called with
            mem := writeWindow m.mem ret (List.replicate (pagesOf pageSize len) 0)
            mapped := fun a => m.mapped a || decide (InWindow ret (pagesOf pageSize len) a) })
  | .clone .., m =>
      (kernel.result .clone m.calls.length, { m with calls := m.calls ++ [.clone] })
  | .munmap addr len, m =>
      let ret := kernel.result .munmap m.calls.length
      let called := { m with calls := m.calls ++ [.munmap] }
      if ret ≠ 0#64 then (ret, called)
      else
        (ret, { called with
          mapped := fun a => m.mapped a && !decide (InWindow addr (pagesOf pageSize len) a) })

theorem serveMachine_wanted (blob : Blob) (m : Machine) :
    serveMachine kernel pageSize (wanted m.regs.r15 m.regs.r14 blob) m =
      InjectionTrace.syscall kernel pageSize blob m := by
  cases blob with
  | sigprocmask =>
      rw [wanted, serveMachine, if_pos ⟨rfl, rfl⟩]
      rfl
  | mmap =>
      rw [wanted, serveMachine, if_neg (not_not_intro rfl)]
      rfl
  | clone | munmap => rfl

/-- `execute_blob` on the whole memory, over the instructions of the blob. -/
def injectBlob (parts : Parts) (junk : X86Reg → BitVec 64) (zero : Bool) (blob : Blob)
    (ctx : Context) (arg0 arg1 : BitVec 64) (m : Machine) : Outcome (BitVec 64 × Machine) :=
  (poke ctx.pc (parts.code blob) m).andThen fun m =>
    (peek ctx.sp (2 * InjectionTrace.wordSize) m).andThen fun _ =>
      let savedRegs := m.regs
      let regs := setCpuRegs savedRegs ctx.pc arg0 arg1
      (runToTrap (serveMachine kernel pageSize) junk zero blob regs { m with regs := regs }).andThen
        fun (ret, m) => .returns (ret, { m with regs := savedRegs })

end Memory

end Memcr.BlobSteps
