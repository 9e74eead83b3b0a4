import Mathlib.Data.Fin.VecNotation
import Memcr.BlobExecution
import Memcr.TrapCode

namespace Memcr.BlobCode

open Memcr.BlobExecution (Blob)
open Memcr.TrapCode

universe u

/-- `PROT_EXEC | PROT_READ | PROT_WRITE` -/
def protAll : Nat := 4 ||| 1 ||| 2

/-- `MAP_ANONYMOUS | MAP_PRIVATE` -/
def mapFlags : Nat := 0x20 ||| 0x02

/-- `SIG_SETMASK` -/
def sigSetmask : Nat := 2

/-- `CLONE_FILES | CLONE_FS | CLONE_IO | CLONE_SIGHAND | CLONE_SYSVSEM | CLONE_THREAD |
CLONE_VM` -/
def cloneFlags : BitVec 32 :=
  0x400 ||| 0x200 ||| 0x80000000 ||| 0x800 ||| 0x40000 ||| 0x10000 ||| 0x100

/-- A system call as the kernel takes it. The flags of `clone` are the lower half of
their register. -/
inductive Call (w : Nat) where
  | rtSigprocmask (how nset oset sigsetsize : BitVec w)
  | mmap (addr len prot flags fd off : BitVec w)
  | clone (flags : BitVec 32) (newsp parentTid childTid : BitVec w)
  | munmap (addr len : BitVec w)
  deriving DecidableEq, Repr

/-- What arch/<name>/cpu.c and enter.c fix: the registers, the system call convention,
`set_cpu_regs` and the code of the blobs. -/
structure Arch where
  Reg : Type
  regEq : DecidableEq Reg
  width : Nat
  /-- The registers of the number of a system call, of its arguments and its result. -/
  number : Reg
  args : Fin 6 → Reg
  result : Reg
  /-- The registers that the system call instruction itself uses. -/
  destroyed : List Reg
  /-- The register of the first argument of a blob. -/
  arg0 : Reg
  nr : Blob → BitVec width
  setCpuRegs (regs : Reg → BitVec width) (pc arg0 arg1 : BitVec width) : Reg → BitVec width
  code : Blob → Code Reg width

instance (arch : Arch) : DecidableEq arch.Reg := arch.regEq

section X86

/-- `struct registers` of x86_64 -/
inductive X86Reg where
  | r15 | r14 | r13 | r12 | rbp | rbx | r11 | r10 | r9 | r8 | rax | rcx | rdx | rsi | rdi
  | origRax | rip | cs | eflags | rsp | ss | fsBase | gsBase | ds | es | fs | gs
  deriving DecidableEq, Repr

/-- The blobs of arch/x86_64/enter.c. -/
def x86Code : Blob → List (Instr X86Reg 64)
  | .sigprocmask =>
      [.imm .rax 14, .imm .rdi (BitVec.ofNat 64 sigSetmask), .move .rsi .r15, .move .rdx .r15,
        .imm .r10 8, .syscall, .trap]
  | .mmap =>
      [.imm .rax 9, .imm .rdi 0, .move .rsi .r15, .imm .rdx (BitVec.ofNat 64 protAll),
        .imm .r10 (BitVec.ofNat 64 mapFlags), .imm .r8 (-1), .imm .r9 0, .syscall, .trap]
  | .clone =>
      -- the constant is an `int` for the compiler, so that `movq` extends its sign
      [.imm .rax 56, .imm .rdi (cloneFlags.signExtend 64), .imm .rsi 0, .imm .rdx 0, .imm .r10 0,
        .syscall, .testZero .rax, .skipUnlessZero 1, .jump .r15, .trap]
  | .munmap => [.imm .rax 11, .move .rdi .r15, .move .rsi .r14, .syscall, .trap]

def x86 : Arch where
  Reg := X86Reg
  regEq := inferInstance
  width := 64
  number := .rax
  args := ![.rdi, .rsi, .rdx, .r10, .r8, .r9]
  result := .rax
  destroyed := [.rcx, .r11]
  arg0 := .r15
  nr
    | .sigprocmask => 14
    | .mmap => 9
    | .clone => 56
    | .munmap => 11
  setCpuRegs regs pc arg0 arg1
    | .origRax => -1
    | .rip => pc
    | .r15 => arg0
    | .r14 => arg1
    | r => regs r
  code blob := ⟨x86Code blob, []⟩

end X86

section Arm

/-- `struct registers` of arm -/
inductive ArmReg where
  | r0 | r1 | r2 | r3 | r4 | r5 | r6 | r7 | r8 | r9 | r10 | fp | ip | sp | lr | pc
  | cpsr | origR0
  deriving DecidableEq, Repr

/-- The blobs of arch/arm/enter.c. -/
def armCode : Blob → List (Instr ArmReg 32)
  | .sigprocmask =>
      [.imm .r7 175, .imm .r0 (BitVec.ofNat 32 sigSetmask), .move .r1 .r8, .move .r2 .r8,
        .imm .r3 8, .syscall, .trap]
  | .mmap =>
      [.imm .r7 192, .imm .r0 0, .move .r1 .r8, .imm .r2 (BitVec.ofNat 32 protAll),
        .imm .r3 (BitVec.ofNat 32 mapFlags), .imm .r4 (-1), .imm .r5 0, .syscall, .trap]
  | .clone =>
      [.imm .r7 120, .load .r0 0, .imm .r1 0, .imm .r2 0, .imm .r3 0, .syscall,
        .testZero .r0, .jumpIfZero .r8, .trap]
  | .munmap => [.imm .r7 91, .move .r0 .r8, .move .r1 .r9, .syscall, .trap]

/-- `PSR_f | PSR_s | PSR_x | MODE32_BIT` -/
def armPsrKept : BitVec 32 := 0xff000000 ||| 0x00ff0000 ||| 0x0000ff00 ||| 0x00000010

def arm : Arch where
  Reg := ArmReg
  regEq := inferInstance
  width := 32
  number := .r7
  args := ![.r0, .r1, .r2, .r3, .r4, .r5]
  result := .r0
  destroyed := []
  arg0 := .r8
  nr
    | .sigprocmask => 175
    | .mmap => 192
    | .clone => 120
    | .munmap => 91
  setCpuRegs regs pc arg0 arg1
    | .origR0 => -1
    | .pc => pc
    | .r8 => arg0
    | .r9 => arg1
    | .cpsr => regs .cpsr &&& armPsrKept
    | r => regs r
  code blob := ⟨armCode blob, [0x80050f00]⟩

end Arm

section Arm64

/-- `struct registers` of arm64 -/
inductive Arm64Reg where
  | x (n : Fin 31)
  | sp
  | pc
  | pstate
  deriving DecidableEq, Repr

/-- The blobs of arch/arm64/enter.c. -/
def arm64Code : Blob → List (Instr Arm64Reg 64)
  | .sigprocmask =>
      [.imm (.x 8) 135, .imm (.x 0) (BitVec.ofNat 64 sigSetmask), .move (.x 1) (.x 10),
        .move (.x 2) (.x 10), .imm (.x 3) 8, .syscall, .trap]
  | .mmap =>
      [.imm (.x 8) 222, .imm (.x 0) 0, .move (.x 1) (.x 10),
        .imm (.x 2) (BitVec.ofNat 64 protAll), .imm (.x 3) (BitVec.ofNat 64 mapFlags),
        .imm (.x 4) (-1), .imm (.x 5) 0, .syscall, .trap]
  | .clone =>
      [.imm (.x 8) 220, .load (.x 0) 0, .imm (.x 1) 0, .imm (.x 2) 0, .imm (.x 3) 0, .syscall,
        .testZero (.x 0), .skipIfZero 1, .trap, .jump (.x 10)]
  | .munmap =>
      [.imm (.x 8) 215, .move (.x 0) (.x 10), .move (.x 1) (.x 11), .syscall, .trap]

/-- `PSR_f | PSR_s | PSR_x | PSR_MODE32_BIT` -/
def arm64PsrKept : BitVec 64 := 0xff000000 ||| 0x00ff0000 ||| 0x0000ff00 ||| 0x00000010

def arm64 : Arch where
  Reg := Arm64Reg
  regEq := inferInstance
  width := 64
  number := .x 8
  args := ![.x 0, .x 1, .x 2, .x 3, .x 4, .x 5]
  result := .x 0
  destroyed := []
  arg0 := .x 10
  nr
    | .sigprocmask => 135
    | .mmap => 222
    | .clone => 220
    | .munmap => 215
  setCpuRegs regs pc arg0 arg1
    | .pc => pc
    | .x 10 => arg0
    | .x 11 => arg1
    | .pstate => regs .pstate &&& arm64PsrKept
    | r => regs r
  code blob := ⟨arm64Code blob, [cloneFlags.signExtend 64 &&& 0xffffffff]⟩

end Arm64

section Riscv64

/-- `struct registers` of riscv64 -/
inductive RiscvReg where
  | pc | ra | sp | gp | tp
  | t (n : Fin 7)
  | s (n : Fin 12)
  | a (n : Fin 8)
  deriving DecidableEq, Repr

/-- The blobs of arch/riscv64/enter.c. -/
def riscv64Code : Blob → List (Instr RiscvReg 64)
  | .sigprocmask =>
      [.imm (.a 7) 135, .imm (.a 0) (BitVec.ofNat 64 sigSetmask), .move (.a 1) (.s 6),
        .move (.a 2) (.s 6), .imm (.a 3) 8, .syscall, .trap]
  | .mmap =>
      [.imm (.a 7) 222, .imm (.a 0) 0, .move (.a 1) (.s 6),
        .imm (.a 2) (BitVec.ofNat 64 protAll), .imm (.a 3) (BitVec.ofNat 64 mapFlags),
        .imm (.a 4) (-1), .imm (.a 5) 0, .syscall, .trap]
  | .clone =>
      [.imm (.a 7) 220, .load (.a 0) 0, .imm (.a 1) 0, .imm (.a 2) 0, .imm (.a 3) 0, .syscall,
        .imm (.a 1) 0, .skipIfEqual (.a 0) (.a 1) 1, .trap, .jump (.s 6)]
  | .munmap =>
      [.imm (.a 7) 215, .move (.a 0) (.s 6), .move (.a 1) (.s 7), .syscall, .trap]

def riscv64 : Arch where
  Reg := RiscvReg
  regEq := inferInstance
  width := 64
  number := .a 7
  args := ![.a 0, .a 1, .a 2, .a 3, .a 4, .a 5]
  result := .a 0
  destroyed := []
  arg0 := .s 6
  nr
    | .sigprocmask => 135
    | .mmap => 222
    | .clone => 220
    | .munmap => 215
  setCpuRegs regs pc arg0 arg1
    | .pc => pc
    | .s 6 => arg0
    | .s 7 => arg1
    | r => regs r
  code blob := ⟨riscv64Code blob, [cloneFlags.signExtend 64 &&& 0xffffffff]⟩

end Riscv64

section Calls

variable {σ : Type u}

inductive ArchName where
  | x86_64
  | arm
  | arm64
  | riscv64
  deriving DecidableEq, Repr

def ArchName.arch : ArchName → Arch
  | .x86_64 => BlobCode.x86
  | .arm => BlobCode.arm
  | .arm64 => BlobCode.arm64
  | .riscv64 => BlobCode.riscv64

/-- The system call that the kernel finds in the registers. -/
def Arch.decode (arch : Arch) (regs : arch.Reg → BitVec arch.width) : Option (Call arch.width) :=
  let arg (i : Fin 6) := regs (arch.args i)
  if regs arch.number = arch.nr .sigprocmask then
    some (.rtSigprocmask (arg 0) (arg 1) (arg 2) (arg 3))
  else if regs arch.number = arch.nr .mmap then
    some (.mmap (arg 0) (arg 1) (arg 2) (arg 3) (arg 4) (arg 5))
  else if regs arch.number = arch.nr .clone then
    some (.clone ((arg 0).setWidth 32) (arg 1) (arg 2) (arg 3))
  else if regs arch.number = arch.nr .munmap then some (.munmap (arg 0) (arg 1))
  else none

/-- The registers behind the system call instruction. -/
def Arch.returned (arch : Arch) (junk : arch.Reg → BitVec arch.width)
    (regs : arch.Reg → BitVec arch.width) (ret : BitVec arch.width) :
    arch.Reg → BitVec arch.width := fun r =>
  if r = arch.result then ret else if r ∈ arch.destroyed then junk r else regs r

/-- `-ENOSYS` -/
def enosys (w : Nat) : BitVec w := BitVec.ofInt w (-38)

/-- The kernel at a system call instruction: the call is read from the registers, and a
number that is none of the blobs' is refused. -/
def Arch.serve (arch : Arch) (kernel : Call arch.width → σ → BitVec arch.width × σ)
    (junk : arch.Reg → BitVec arch.width) (regs : arch.Reg → BitVec arch.width) (o : σ) :
    (arch.Reg → BitVec arch.width) × σ :=
  match arch.decode regs with
  | none => (arch.returned junk regs (enosys arch.width), o)
  | some call => (arch.returned junk regs (kernel call o).1, (kernel call o).2)

/-- The system call that a blob is for. -/
def wanted {w : Nat} (arg0 arg1 : BitVec w) : Blob → Call w
  | .sigprocmask => .rtSigprocmask (BitVec.ofNat w sigSetmask) arg0 arg0 8
  | .mmap => .mmap 0 arg0 (BitVec.ofNat w protAll) (BitVec.ofNat w mapFlags) (-1) 0
  | .clone => .clone cloneFlags 0 0 0
  | .munmap => .munmap arg0 arg1

/-- The instructions in front of the system call and behind it. -/
def Arch.before (arch : Arch) (blob : Blob) : List (Instr arch.Reg arch.width) :=
  (arch.code blob).instrs.takeWhile (· ≠ .syscall)

def Arch.behind (arch : Arch) (blob : Blob) : List (Instr arch.Reg arch.width) :=
  ((arch.code blob).instrs.dropWhile (· ≠ .syscall)).tail

theorem oneCall (name : ArchName) (blob : Blob) (regs : name.arch.Reg → BitVec name.arch.width)
    (pc arg0 arg1 : BitVec name.arch.width) :
    ∃ called, OneCall (name.arch.code blob) (name.arch.setCpuRegs regs pc arg0 arg1) called
        (name.arch.before blob) (name.arch.behind blob) ∧
      name.arch.decode called = some (wanted arg0 arg1 blob) ∧ called name.arch.arg0 = arg0 := by
  have hflags (flags : BitVec 64) (h : flags.setWidth 32 = cloneFlags) :
      some (Call.clone (flags.setWidth 32) 0 0 0) =
        some (wanted (0 : BitVec 64) (0 : BitVec 64) .clone) :=
    congrArg (fun flags => some (Call.clone flags 0 0 0)) h
  cases blob with
  | clone =>
      cases name with
      | arm => exact ⟨_, ⟨rfl, rfl, by decide⟩, rfl, rfl⟩
      | x86_64 =>
          exact ⟨_, ⟨rfl, rfl, by decide⟩, hflags (cloneFlags.signExtend 64) (by decide), rfl⟩
      | arm64 | riscv64 =>
          exact ⟨_, ⟨rfl, rfl, by decide⟩,
            hflags (cloneFlags.signExtend 64 &&& 0xffffffff) (by decide), rfl⟩
  | sigprocmask | mmap | munmap => cases name <;> exact ⟨_, ⟨rfl, rfl, by decide⟩, rfl, rfl⟩

theorem runFor_behind (name : ArchName) (blob : Blob)
    (serve : (name.arch.Reg → BitVec name.arch.width) → σ →
      (name.arch.Reg → BitVec name.arch.width) × σ)
    (back : name.arch.Reg → BitVec name.arch.width) (zero : Bool) (o : σ) :
    ∃ n s, (name.arch.code blob).runFor serve n
        ⟨back, zero, (name.arch.before blob).length + 1⟩ o = some (s, o) ∧
      s.regs name.arch.result = back name.arch.result ∧
      (name.arch.code blob).next s =
        if blob = .clone ∧ back name.arch.result = 0 then .leaves (back name.arch.arg0)
        else .traps := by
  cases blob with
  | sigprocmask | mmap | munmap => cases name <;> exact ⟨0, _, rfl, rfl, rfl⟩
  | clone =>
      simp only [true_and]
      by_cases hret : back name.arch.result = 0
      · rw [if_pos hret]
        have hzero : (back name.arch.result == 0) = true := beq_iff_eq.mpr hret
        cases name with
        | x86_64 => exact ⟨2, ⟨back, true, 8⟩, runFor_testZero rfl hzero rfl, rfl, rfl⟩
        | arm => exact ⟨1, ⟨back, true, 7⟩, runFor_testZero rfl hzero rfl, rfl, rfl⟩
        | arm64 => exact ⟨2, ⟨back, true, 9⟩, runFor_testZero rfl hzero rfl, rfl, rfl⟩
        | riscv64 =>
            -- here the result is compared with a register that is set to zero first
            exact ⟨2, ⟨Function.update back (.a 1) 0, zero, 9⟩,
              congrArg (fun s => some (s, o)) (if_pos hret), rfl, rfl⟩
      · rw [if_neg hret]
        have hzero : (back name.arch.result == 0) = false := beq_eq_false_iff_ne.mpr hret
        cases name with
        | x86_64 => exact ⟨2, ⟨back, false, 9⟩, runFor_testZero rfl hzero rfl, rfl, rfl⟩
        | arm => exact ⟨2, ⟨back, false, 8⟩, runFor_testZero rfl hzero rfl, rfl, rfl⟩
        | arm64 => exact ⟨2, ⟨back, false, 8⟩, runFor_testZero rfl hzero rfl, rfl, rfl⟩
        | riscv64 =>
            exact ⟨2, ⟨Function.update back (.a 1) 0, zero, 8⟩,
              congrArg (fun s => some (s, o)) (if_neg hret), rfl, rfl⟩

theorem arg0_ne_result (name : ArchName) :
    name.arch.arg0 ≠ name.arch.result ∧ name.arch.arg0 ∉ name.arch.destroyed := by
  cases name <;> decide

theorem Arch.returned_result (arch : Arch) (junk regs : arch.Reg → BitVec arch.width)
    (ret : BitVec arch.width) : arch.returned junk regs ret arch.result = ret :=
  if_pos rfl

theorem returned_arg0 (name : ArchName) (junk regs : name.arch.Reg → BitVec name.arch.width)
    (ret : BitVec name.arch.width) :
    name.arch.returned junk regs ret name.arch.arg0 = regs name.arch.arg0 := by
  obtain ⟨hresult, hdestroyed⟩ := arg0_ne_result name
  rw [Arch.returned, if_neg hresult, if_neg hdestroyed]

theorem serve_of_decode {arch : Arch} {kernel : Call arch.width → σ → BitVec arch.width × σ}
    {junk regs : arch.Reg → BitVec arch.width} {call : Call arch.width} {o : σ}
    (h : arch.decode regs = some call) :
    arch.serve kernel junk regs o = (arch.returned junk regs (kernel call o).1,
      (kernel call o).2) := by
  rw [Arch.serve, h]

theorem runs_to_end (name : ArchName) (blob : Blob)
    (kernel : Call name.arch.width → σ → BitVec name.arch.width × σ)
    (junk regs : name.arch.Reg → BitVec name.arch.width)
    (pc arg0 arg1 : BitVec name.arch.width) (zero : Bool) (o : σ) :
    ∃ n s, (name.arch.code blob).runFor (name.arch.serve kernel junk) n
        ⟨name.arch.setCpuRegs regs pc arg0 arg1, zero, 0⟩ o =
          some (s, (kernel (wanted arg0 arg1 blob) o).2) ∧
      s.regs name.arch.result = (kernel (wanted arg0 arg1 blob) o).1 ∧
      (name.arch.code blob).next s =
        if blob = .clone ∧ (kernel (wanted arg0 arg1 blob) o).1 = 0 then .leaves arg0
        else .traps := by
  obtain ⟨called, hcall, hdecode, harg0⟩ := oneCall name blob regs pc arg0 arg1
  obtain ⟨n, s, hrun, hresult, hnext⟩ := runFor_behind name blob
    (name.arch.serve kernel junk)
    (name.arch.returned junk called (kernel (wanted arg0 arg1 blob) o).1) zero
    (kernel (wanted arg0 arg1 blob) o).2
  rw [Arch.returned_result] at hresult hnext
  rw [returned_arg0, harg0] at hnext
  refine ⟨(name.arch.before blob).length + 1 + n, s, ?_, hresult, hnext⟩
  rw [runFor_add, hcall.runFor_call, serve_of_decode hdecode]
  exact hrun

theorem runAtMost_stopped (name : ArchName) (blob : Blob)
    (kernel : Call name.arch.width → σ → BitVec name.arch.width × σ)
    (junk regs : name.arch.Reg → BitVec name.arch.width)
    (pc arg0 arg1 : BitVec name.arch.width) (zero : Bool) (o : σ) (n : Nat) :
    ((name.arch.code blob).runAtMost (name.arch.serve kernel junk) n
        ⟨name.arch.setCpuRegs regs pc arg0 arg1, zero, 0⟩ o).2 =
      if (name.arch.before blob).length < n then (kernel (wanted arg0 arg1 blob) o).2 else o := by
  obtain ⟨called, hcall, hdecode, -⟩ := oneCall name blob regs pc arg0 arg1
  rw [hcall.runAtMost_outside, serve_of_decode hdecode]

end Calls

end Memcr.BlobCode
