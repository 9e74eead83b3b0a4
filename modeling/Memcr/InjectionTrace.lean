import Memcr.AddressWindows
import Memcr.ByteWords
import Memcr.ParasiteInjection

/-!
The injection of the parasite on the memory of the target. The blobs are written
over the code at the beginning of the page that the target executes, and the
words below its stack pointer serve for the signal mask; both are put back at
the end. All calls of `ptrace` succeed here, and no signal stops a blob.
-/

namespace Memcr.InjectionTrace

open Memcr.AddressWindows
open Memcr.BlobExecution
open Memcr.ByteWords
open Memcr.CallOutcome
open Memcr.ParasiteInjection (toCInt)

/-- `sizeof(unsigned long)` -/
def wordSize : Nat := 8

/-- The target with the whole of its memory. -/
structure Machine where
  regs : Registers
  mask : SigMask
  mem : BitVec 64 → Byte
  mapped : BitVec 64 → Bool
  calls : List Blob

/-- The byte strings that are written into the target. -/
structure Parts where
  code : Blob → List Byte
  /-- `parasite_blob` -/
  parasite : List Byte
  /-- `struct parasite_args`, and where it lies in the parasite. -/
  args : List Byte
  argsOffset : Nat
  code_words : ∀ blob, wordSize ∣ (code blob).length
  parasite_words : wordSize ∣ parasite.length
  args_words : wordSize ∣ args.length
  args_inside : argsOffset + args.length ≤ parasite.length
  parasite_lt : parasite.length < 2 ^ 64

/-- What the injection depends on besides the target: the page size, the registers that
the blobs leave, and what the parasite and the two commands do. -/
structure Course where
  pageSize : BitVec 64
  pageSize_pos : 0 < pageSize.toNat
  /-- The registers at the end of a blob, apart from its result. -/
  clobbered : Blob → Registers → Registers
  cmdCheckpoint : Int
  cmdRestore : Int
  /-- The parasite was terminated by a signal. -/
  parasiteSignaled : Bool
  /-- What the parasite stores or drops, during the checkpoint and the restore. -/
  checkpointWrites : List (BitVec 64 × Byte)
  restoreWrites : List (BitVec 64 × Byte)

/-- `struct target_context` -/
structure Context where
  pc : BitVec 64
  sp : BitVec 64
  code : List Byte
  stack : List Byte
  sigset : BitVec 64
  blob : BitVec 64

/-- `peek`; a length that is no number of words fails an assertion. -/
def peek (addr : BitVec 64) (len : Nat) (m : Machine) : Outcome (List Byte) :=
  if len % wordSize ≠ 0 then .aborts else .returns (readWindow m.mem addr len)

/-- `poke` -/
def poke (addr : BitVec 64) (src : List Byte) (m : Machine) : Outcome Machine :=
  if src.length % wordSize ≠ 0 then .aborts
  else .returns { m with mem := writeWindow m.mem addr src }

def wordAt (mem : BitVec 64 → Byte) (addr : BitVec 64) : BitVec 64 :=
  BitVec.ofNat 64 (ofBytes (readWindow mem addr wordSize))

def wordBytes (word : BitVec 64) : List Byte := toBytes wordSize word.toNat

/-- A length in whole pages. -/
def pagesOf (pageSize len : BitVec 64) : Nat :=
  (len.toNat + pageSize.toNat - 1) / pageSize.toNat * pageSize.toNat

/-- The system call of a blob, which takes its arguments from `r15` and `r14`. New pages
are filled with zeros. -/
def syscall (kernel : Kernel) (pageSize : BitVec 64) (blob : Blob) (m : Machine) :
    BitVec 64 × Machine :=
  let called := { m with calls := m.calls ++ [blob] }
  let ret := kernel.result blob m.calls.length
  match blob with
  | .sigprocmask =>
      (0#64, { called with
        mask := SigMask.ofBits (wordAt m.mem m.regs.r15)
        mem := writeWindow m.mem m.regs.r15 (wordBytes m.mask.val) })
  | .mmap =>
      if isErrValue ret then (ret, called)
      else
        (ret, { called with
          mem := writeWindow m.mem ret (List.replicate (pagesOf pageSize m.regs.r15) 0)
          mapped := fun a => m.mapped a || decide (InWindow ret (pagesOf pageSize m.regs.r15) a) })
  | .clone => (ret, called)
  | .munmap =>
      if ret ≠ 0#64 then (ret, called)
      else
        (ret, { called with
          mapped := fun a =>
            m.mapped a && !decide (InWindow m.regs.r15 (pagesOf pageSize m.regs.r14) a) })

/-- A blob from its first instruction to its trap. -/
def runBlob (kernel : Kernel) (course : Course) (blob : Blob) (m : Machine) : Machine :=
  let (ret, m) := syscall kernel course.pageSize blob m
  { m with regs := { course.clobbered blob m.regs with rax := ret } }

/-- `execute_blob` without a signal. The two words of the stack that it saves are for a
second try only. -/
def executeBlob (kernel : Kernel) (parts : Parts) (course : Course) (blob : Blob) (ctx : Context)
    (arg0 arg1 : BitVec 64) (m : Machine) : Outcome (BitVec 64 × Machine) :=
  (poke ctx.pc (parts.code blob) m).andThen fun m =>
    (peek ctx.sp (2 * wordSize) m).andThen fun _ =>
      let savedRegs := m.regs
      let m := runBlob kernel course blob { m with regs := setCpuRegs savedRegs ctx.pc arg0 arg1 }
      .returns (m.regs.rax, { m with regs := savedRegs })

/-- `ctx.code_size` -/
def codeSize (parts : Parts) : Nat :=
  let maxBlobSize := max (parts.code .sigprocmask).length (max (parts.code .mmap).length
    (max (parts.code .clone).length (parts.code .munmap).length))
  (maxBlobSize + wordSize - 1) / wordSize * wordSize

/-- `sizeof(ctx.stack)` -/
def stackSize : Nat := 16 * wordSize

/-- `ctx.pc` -/
def codeStart (pageSize : BitVec 64) (m : Machine) : BitVec 64 :=
  m.regs.rip &&& ~~~(pageSize - 1)

/-- `ctx.sp` -/
def stackStart (m : Machine) : BitVec 64 := m.regs.rsp - BitVec.ofNat 64 stackSize

/-- `ctx_save` -/
def ctxSave (parts : Parts) (pageSize : BitVec 64) (m : Machine) : Outcome Context :=
  (peek (codeStart pageSize m) (codeSize parts) m).andThen fun code =>
    (peek (stackStart m) stackSize m).andThen fun stack =>
      .returns ⟨codeStart pageSize m, stackStart m, code, stack, 0, 0⟩

/-- `ctx_restore` -/
def ctxRestore (ctx : Context) (m : Machine) : Outcome Machine :=
  (poke ctx.pc ctx.code m).andThen fun m => poke ctx.sp ctx.stack m

/-- `signals_block` -/
def signalsBlock (kernel : Kernel) (parts : Parts) (course : Course) (ctx : Context)
    (m : Machine) : Outcome (Context × Machine) :=
  (poke ctx.sp (wordBytes (BitVec.allOnes 64)) m).andThen fun m =>
    (executeBlob kernel parts course .sigprocmask ctx ctx.sp 0 m).andThen fun (ret, m) =>
      (peek ctx.sp wordSize m).andThen fun sigsetOld =>
        if ret ≠ 0#64 then .aborts
        else .returns ({ ctx with sigset := BitVec.ofNat 64 (ofBytes sigsetOld) }, m)

/-- `signals_unblock` -/
def signalsUnblock (kernel : Kernel) (parts : Parts) (course : Course) (ctx : Context)
    (m : Machine) : Outcome (BitVec 64 × Machine) :=
  (poke ctx.sp (wordBytes ctx.sigset) m).andThen fun m =>
    executeBlob kernel parts course .sigprocmask ctx ctx.sp 0 m

/-- The bytes that the parasite stores on its own. -/
def parasiteWrites (writes : List (BitVec 64 × Byte)) (m : Machine) : Machine :=
  { m with mem := writes.foldl (fun mem (a, b) => writeWindow mem a [b]) m.mem }

/-- `setup_parasite_args` -/
def setupParasiteArgs (parts : Parts) (base : BitVec 64) (m : Machine) : Outcome Machine :=
  poke (base + BitVec.ofNat 64 parts.argsOffset) parts.args m

def Parts.size (parts : Parts) : BitVec 64 := BitVec.ofNat 64 parts.parasite.length

/-- `execute_parasite_checkpoint` -/
def executeParasiteCheckpoint (kernel : Kernel) (parts : Parts) (course : Course) (m : Machine) :
    Outcome (Int × Context × Machine) :=
  (ctxSave parts course.pageSize m).andThen fun ctx =>
    (signalsBlock kernel parts course ctx m).andThen fun (ctx, m) =>
      (executeBlob kernel parts course .mmap ctx parts.size 0 m).andThen fun (ret, m) =>
        if isErrValue ret then
          (signalsUnblock kernel parts course ctx m).andThen fun (_, m) =>
            (ctxRestore ctx m).andThen fun m => .returns (-1, ctx, m)
        else
          (poke ret parts.parasite m).andThen fun m =>
            (setupParasiteArgs parts ret m).andThen fun m =>
              (executeBlob kernel parts course .clone ctx ret 0 m).andThen fun (cloneRet, m) =>
                if cloneRet = 0#64 then .aborts
                else
                  .returns (course.cmdCheckpoint, { ctx with blob := ret },
                    parasiteWrites course.checkpointWrites m)

/-- `execute_parasite_restore` -/
def executeParasiteRestore (kernel : Kernel) (parts : Parts) (course : Course) (ctx : Context)
    (m : Machine) : Outcome (Int × Machine) :=
  let m := parasiteWrites course.restoreWrites m
  if course.cmdRestore ≠ 0 then .returns (course.cmdRestore, m)
  else if course.parasiteSignaled then .returns (1, m)
  else
    (executeBlob kernel parts course .munmap ctx ctx.blob parts.size m).andThen fun (ret, m) =>
      if ret ≠ 0#64 then .returns (toCInt ret, m)
      else
        (signalsUnblock kernel parts course ctx m).andThen fun (ret, m) =>
          if ret ≠ 0#64 then .returns (toCInt ret, m)
          else (ctxRestore ctx m).andThen fun m => .returns (0, m)

/-- The code window and the stack window share no address. -/
def WindowsApart (parts : Parts) (pageSize : BitVec 64) (m : Machine) : Prop :=
  ∀ a, InWindow (codeStart pageSize m) (codeSize parts) a → ¬ InWindow (stackStart m) stackSize a

/-- The results of the system calls behind the one that blocks the signals. -/
def mmapResult (kernel : Kernel) (m : Machine) : BitVec 64 :=
  kernel.result .mmap (m.calls.length + 1)

/-- The parasite is mapped, where nothing was mapped before, runs and ends, and is
unmapped. -/
structure Succeeds (kernel : Kernel) (parts : Parts) (course : Course) (m : Machine) : Prop where
  maps : isErrValue (mmapResult kernel m) = false
  fresh : ∀ a, InWindow (mmapResult kernel m) (pagesOf course.pageSize parts.size) a →
    m.mapped a = false
  clones : kernel.result .clone (m.calls.length + 2) ≠ 0#64
  restores : course.cmdRestore = 0
  exits : course.parasiteSignaled = false
  unmaps : kernel.result .munmap (m.calls.length + 3) = 0#64

def Course.written (course : Course) : List (BitVec 64) :=
  (course.checkpointWrites ++ course.restoreWrites).map Prod.fst

/-- The target is as it was, apart from the addresses that were written. -/
structure NoTrace (written : List (BitVec 64)) (m m' : Machine) : Prop where
  regs : m'.regs = m.regs
  mask : m'.mask = m.mask
  mapped : m'.mapped = m.mapped
  mem : ∀ a, m.mapped a = true → a ∉ written → m'.mem a = m.mem a

section Words

theorem wordBytes_length (word : BitVec 64) : (wordBytes word).length = wordSize :=
  toBytes_length _ _

theorem wordAt_writeWindow (mem : BitVec 64 → Byte) (addr word : BitVec 64) :
    wordAt (writeWindow mem addr (wordBytes word)) addr = word := by
  have hread := @readWindow_writeWindow 64 _ mem addr (wordBytes word)
    (by rw [wordBytes_length]; decide)
  rw [wordBytes_length] at hread
  rw [wordAt, hread, wordBytes, ofBytes_toBytes word.isLt, BitVec.ofNat_toNat, BitVec.setWidth_eq]

theorem wordAt_congr {mem mem' : BitVec 64 → Byte} {addr : BitVec 64}
    (h : ∀ a, InWindow addr wordSize a → mem a = mem' a) : wordAt mem addr = wordAt mem' addr := by
  rw [wordAt, readWindow_congr h, wordAt]

theorem codeSize_words (parts : Parts) : codeSize parts % wordSize = 0 :=
  Nat.mul_mod_left _ _

theorem code_length_le (parts : Parts) (blob : Blob) :
    (parts.code blob).length ≤ codeSize parts := by
  have hle : (parts.code blob).length ≤ max (parts.code .sigprocmask).length
      (max (parts.code .mmap).length (max (parts.code .clone).length
        (parts.code .munmap).length)) := by
    rcases blob with _ | _ | _ | _
    · exact le_max_left _ _
    · exact (le_max_left _ _).trans (le_max_right _ _)
    · exact ((le_max_left _ _).trans (le_max_right _ _)).trans (le_max_right _ _)
    · exact ((le_max_right _ _).trans (le_max_right _ _)).trans (le_max_right _ _)
  simp only [codeSize, wordSize] at *
  omega

theorem le_pagesOf {pageSize : BitVec 64} (hpos : 0 < pageSize.toNat) (len : BitVec 64) :
    len.toNat ≤ pagesOf pageSize len := by
  have hmod := Nat.mod_lt (len.toNat + pageSize.toNat - 1) hpos
  have hdiv := Nat.div_add_mod' (len.toNat + pageSize.toNat - 1) pageSize.toNat
  rw [pagesOf]
  omega

end Words

section Steps

variable {kernel : Kernel} {parts : Parts} {course : Course} {ctx : Context} {m m₀ : Machine}
  {changed : BitVec 64 → Prop}

/-- The addresses that the injection itself writes to. -/
def Used (parts : Parts) (ctx : Context) (a : BitVec 64) : Prop :=
  InWindow ctx.pc (codeSize parts) a ∨ InWindow ctx.sp stackSize a

/-- A context that holds what `m₀` had in the two windows. -/
structure SavedFrom (parts : Parts) (m₀ : Machine) (ctx : Context) : Prop where
  code : ctx.code = readWindow m₀.mem ctx.pc (codeSize parts)
  stack : ctx.stack = readWindow m₀.mem ctx.sp stackSize
  apart : ∀ a, InWindow ctx.pc (codeSize parts) a → ¬ InWindow ctx.sp stackSize a

theorem poke_eq {addr : BitVec 64} {src : List Byte} (h : wordSize ∣ src.length) (m : Machine) :
    poke addr src m = .returns { m with mem := writeWindow m.mem addr src } :=
  if_neg (not_not.mpr (Nat.mod_eq_zero_of_dvd h))

theorem peek_eq {addr : BitVec 64} {len : Nat} (h : len % wordSize = 0) (m : Machine) :
    peek addr len m = .returns (readWindow m.mem addr len) :=
  if_neg (not_not.mpr h)

/-- The target with a blob written into it and about to run. -/
def injected (parts : Parts) (blob : Blob) (ctx : Context) (arg0 arg1 : BitVec 64)
    (m : Machine) : Machine :=
  { m with
    mem := writeWindow m.mem ctx.pc (parts.code blob)
    regs := setCpuRegs m.regs ctx.pc arg0 arg1 }

theorem executeBlob_eq (kernel : Kernel) (parts : Parts) (course : Course) (blob : Blob)
    (ctx : Context) (arg0 arg1 : BitVec 64) (m : Machine) :
    executeBlob kernel parts course blob ctx arg0 arg1 m =
      .returns ((syscall kernel course.pageSize blob (injected parts blob ctx arg0 arg1 m)).1,
        { (syscall kernel course.pageSize blob (injected parts blob ctx arg0 arg1 m)).2 with
          regs := m.regs }) := by
  rw [executeBlob, poke_eq (parts.code_words blob), Outcome.returns_andThen, peek_eq rfl]
  rfl

theorem agreeOutside_code (parts : Parts) (ctx : Context) (blob : Blob)
    (mem : BitVec 64 → Byte) :
    AgreeOutside (Used parts ctx) mem (writeWindow mem ctx.pc (parts.code blob)) :=
  agreeOutside_writeWindow fun _ ha => Or.inl (ha.mono (code_length_le parts blob))

theorem agreeOutside_slot (parts : Parts) (ctx : Context) (word : BitVec 64)
    (mem : BitVec 64 → Byte) :
    AgreeOutside (Used parts ctx) mem (writeWindow mem ctx.sp (wordBytes word)) := by
  refine agreeOutside_writeWindow fun a ha => Or.inr (ha.mono ?_)
  rw [wordBytes_length]
  decide

/-- A blob has run: what it has left behind, with the memory it may have changed. -/
structure Ran (blob : Blob) (mask : SigMask) (mapped : BitVec 64 → Bool)
    (changed : BitVec 64 → Prop) (m m' : Machine) : Prop where
  regs : m'.regs = m.regs
  mask : m'.mask = mask
  mapped : m'.mapped = mapped
  calls : m'.calls = m.calls ++ [blob]
  mem : AgreeOutside changed m.mem m'.mem

/-- A mask that is put below the stack pointer is installed, and the one in force before
is left in its place. -/
theorem executeBlob_sigprocmask (kernel : Kernel) (course : Course)
    (hsaved : SavedFrom parts m₀ ctx) (word : BitVec 64) (m : Machine) :
    ∃ m', (poke ctx.sp (wordBytes word) m).andThen
        (executeBlob kernel parts course .sigprocmask ctx ctx.sp 0) = .returns (0#64, m') ∧
      Ran .sigprocmask (SigMask.ofBits word) m.mapped (Used parts ctx) m m' ∧
      wordAt m'.mem ctx.sp = m.mask.val := by
  have hwords : wordSize ∣ (wordBytes word).length := by
    rw [wordBytes_length]
  rw [poke_eq hwords, Outcome.returns_andThen, executeBlob_eq]
  refine ⟨_, rfl, ⟨rfl, ?_, rfl, rfl, ?_⟩, wordAt_writeWindow ..⟩
  · -- the blob does not reach into the stack window
    have hslot : wordAt (writeWindow (writeWindow m.mem ctx.sp (wordBytes word)) ctx.pc
        (parts.code .sigprocmask)) ctx.sp = word := by
      refine (wordAt_congr fun a ha => ?_).trans (wordAt_writeWindow m.mem ctx.sp word)
      refine writeWindow_of_not fun hcode => ?_
      exact hsaved.apart a (hcode.mono (code_length_le parts .sigprocmask))
        (ha.mono (by decide))
    exact congrArg SigMask.ofBits hslot
  · exact ((agreeOutside_slot parts ctx word m.mem).trans
      (agreeOutside_code parts ctx .sigprocmask _)).trans
        (agreeOutside_slot parts ctx m.mask.val _)

theorem signalsBlock_eq (kernel : Kernel) (course : Course) (hsaved : SavedFrom parts m₀ ctx)
    (m : Machine) :
    ∃ m', signalsBlock kernel parts course ctx m =
        .returns ({ ctx with sigset := m.mask.val }, m') ∧
      Ran .sigprocmask SigMask.full m.mapped (Used parts ctx) m m' := by
  obtain ⟨m', hblob, hran, hslot⟩ := executeBlob_sigprocmask kernel course hsaved
    (BitVec.allOnes 64) m
  refine ⟨m', ?_, hran⟩
  have hpeek := @peek_eq ctx.sp wordSize (Nat.mod_self wordSize)
  rw [wordAt] at hslot
  rw [signalsBlock, ← Outcome.andThen_andThen, hblob]
  simp only [Outcome.returns_andThen, hpeek, hslot, ne_eq, not_true_eq_false, if_false]

theorem signalsUnblock_eq (kernel : Kernel) (course : Course) (hsaved : SavedFrom parts m₀ ctx)
    (m : Machine) :
    ∃ m', signalsUnblock kernel parts course ctx m = .returns (0#64, m') ∧
      Ran .sigprocmask (SigMask.ofBits ctx.sigset) m.mapped (Used parts ctx) m m' := by
  obtain ⟨m', hblob, hran, -⟩ := executeBlob_sigprocmask kernel course hsaved ctx.sigset m
  exact ⟨m', hblob, hran⟩

theorem ctxRestore_eq (hsaved : SavedFrom parts m₀ ctx) {m : Machine}
    (hmem : AgreeOutside (fun a => Used parts ctx a ∨ changed a) m₀.mem m.mem) :
    ∃ mem, ctxRestore ctx m = .returns { m with mem := mem } ∧
      AgreeOutside changed m₀.mem mem := by
  have hcode : wordSize ∣ ctx.code.length := by
    rw [hsaved.code, readWindow_length]
    exact Nat.dvd_of_mod_eq_zero (codeSize_words parts)
  have hstack : wordSize ∣ ctx.stack.length := by
    rw [hsaved.stack, readWindow_length]
    decide
  rw [ctxRestore, poke_eq hcode, Outcome.returns_andThen, poke_eq hstack]
  refine ⟨_, rfl, fun a ha => ?_⟩
  rw [hsaved.code, hsaved.stack]
  by_cases hinStack : InWindow ctx.sp stackSize a
  · exact writeWindow_readWindow hinStack
  · refine (writeWindow_of_not (by rwa [readWindow_length])).trans ?_
    by_cases hinCode : InWindow ctx.pc (codeSize parts) a
    · exact writeWindow_readWindow hinCode
    · refine (writeWindow_of_not (by rwa [readWindow_length])).trans ?_
      exact hmem a fun h => h.elim (fun hused => hused.elim hinCode hinStack) ha

theorem parasiteWrites_agree {writes : List (BitVec 64 × Byte)} (m : Machine)
    (h : ∀ a ∈ writes.map Prod.fst, changed a) :
    AgreeOutside changed m.mem (parasiteWrites writes m).mem := by
  rw [parasiteWrites]
  induction writes generalizing m with
  | nil => exact AgreeOutside.refl _
  | cons write rest ih =>
      rcases write with ⟨a, b⟩
      have hfirst : AgreeOutside changed m.mem (writeWindow m.mem a [b]) := by
        refine agreeOutside_writeWindow fun a' ha' => ?_
        have hzero : (a' - a).toNat = 0 := Nat.lt_one_iff.mp ha'
        rw [sub_eq_zero.mp (BitVec.eq_of_toNat_eq hzero)]
        exact h a List.mem_cons_self
      exact hfirst.trans (ih { m with mem := writeWindow m.mem a [b] }
        fun a' ha' => h a' (List.mem_cons_of_mem _ ha'))

theorem executeBlob_quiet {blob : Blob} {arg0 arg1 ret : BitVec 64} {mapped : BitVec 64 → Bool}
    (hcall : syscall kernel course.pageSize blob (injected parts blob ctx arg0 arg1 m) =
      (ret, { injected parts blob ctx arg0 arg1 m with
        mapped := mapped, calls := m.calls ++ [blob] })) :
    ∃ m', executeBlob kernel parts course blob ctx arg0 arg1 m = .returns (ret, m') ∧
      Ran blob m.mask mapped (Used parts ctx) m m' := by
  rw [executeBlob_eq, hcall]
  exact ⟨_, rfl, rfl, rfl, rfl, rfl, agreeOutside_code parts ctx blob m.mem⟩

theorem executeBlob_mmap_fails (parts : Parts) (course : Course) (ctx : Context)
    (arg0 : BitVec 64) (h : isErrValue (kernel.result .mmap m.calls.length) = true) :
    ∃ m', executeBlob kernel parts course .mmap ctx arg0 0 m =
        .returns (kernel.result .mmap m.calls.length, m') ∧
      Ran .mmap m.mask m.mapped (Used parts ctx) m m' :=
  executeBlob_quiet (if_pos h)

theorem executeBlob_clone (kernel : Kernel) (parts : Parts) (course : Course) (ctx : Context)
    (arg0 : BitVec 64) (m : Machine) :
    ∃ m', executeBlob kernel parts course .clone ctx arg0 0 m =
        .returns (kernel.result .clone m.calls.length, m') ∧
      Ran .clone m.mask m.mapped (Used parts ctx) m m' :=
  executeBlob_quiet rfl

theorem executeBlob_munmap (parts : Parts) (course : Course) (ctx : Context)
    (arg0 arg1 : BitVec 64) (h : kernel.result .munmap m.calls.length = 0#64) :
    ∃ m', executeBlob kernel parts course .munmap ctx arg0 arg1 m = .returns (0#64, m') ∧
      Ran .munmap m.mask
        (fun a => m.mapped a && !decide (InWindow arg0 (pagesOf course.pageSize arg1) a))
        (Used parts ctx) m m' := by
  rw [← h]
  exact executeBlob_quiet (if_neg (not_not.mpr h))

theorem executeBlob_mmap (parts : Parts) (course : Course) (ctx : Context) (arg0 : BitVec 64)
    {base : BitVec 64} (hbase : kernel.result .mmap m.calls.length = base)
    (h : isErrValue base = false) :
    ∃ m', executeBlob kernel parts course .mmap ctx arg0 0 m = .returns (base, m') ∧
      Ran .mmap m.mask
        (fun a => m.mapped a || decide (InWindow base (pagesOf course.pageSize arg0) a))
        (fun a => Used parts ctx a ∨ InWindow base (pagesOf course.pageSize arg0) a) m m' := by
  subst hbase
  have hcall : syscall kernel course.pageSize .mmap (injected parts .mmap ctx arg0 0 m) =
      (kernel.result .mmap m.calls.length, { injected parts .mmap ctx arg0 0 m with
        mem := writeWindow (writeWindow m.mem ctx.pc (parts.code .mmap))
          (kernel.result .mmap m.calls.length)
          (List.replicate (pagesOf course.pageSize arg0) 0)
        mapped := fun a => m.mapped a ||
          decide (InWindow (kernel.result .mmap m.calls.length) (pagesOf course.pageSize arg0) a)
        calls := m.calls ++ [.mmap] }) := if_neg (Bool.eq_false_iff.mp h)
  rw [executeBlob_eq, hcall]
  refine ⟨_, rfl, rfl, rfl, rfl, rfl, ?_⟩
  refine ((agreeOutside_code parts ctx .mmap m.mem).mono fun _ => Or.inl).trans ?_
  refine agreeOutside_writeWindow fun a ha => Or.inr ?_
  rwa [List.length_replicate] at ha

theorem poke_parasite (parts : Parts) (course : Course) (base : BitVec 64) (m : Machine) :
    ∃ mem, (poke base parts.parasite m).andThen (setupParasiteArgs parts base) =
        .returns { m with mem := mem } ∧
      AgreeOutside (InWindow base (pagesOf course.pageSize parts.size)) m.mem mem := by
  have hsize : parts.size.toNat = parts.parasite.length := by
    rw [Parts.size, BitVec.toNat_ofNat]
    exact Nat.mod_eq_of_lt parts.parasite_lt
  have hpages := le_pagesOf course.pageSize_pos parts.size
  rw [poke_eq parts.parasite_words, Outcome.returns_andThen, setupParasiteArgs,
    poke_eq parts.args_words]
  have hparasite : AgreeOutside (InWindow base (pagesOf course.pageSize parts.size)) m.mem
      (writeWindow m.mem base parts.parasite) :=
    agreeOutside_writeWindow fun a ha => ha.mono (by omega)
  refine ⟨_, rfl, hparasite.trans ?_⟩
  refine agreeOutside_writeWindow fun a ha => ha.of_add.mono ?_
  have := parts.args_inside
  omega

/-- The target as it is seen when only the word at `ctx.sp` matters. -/
def view (ctx : Context) (m : Machine) : Target where
  regs := m.regs
  mask := m.mask
  slot := wordAt m.mem ctx.sp
  calls := m.calls
  alive := true

theorem syscall_view {pageSize : BitVec 64} {blob : Blob}
    (hslot : blob = .sigprocmask → m.regs.r15 = ctx.sp)
    (hpages : blob = .mmap → ∀ a, InWindow ctx.sp wordSize a →
      ¬ InWindow (kernel.result .mmap m.calls.length) (pagesOf pageSize m.regs.r15) a) :
    BlobExecution.syscall kernel blob (view ctx m) =
      ((syscall kernel pageSize blob m).1, view ctx (syscall kernel pageSize blob m).2) := by
  rcases blob with _ | _ | _ | _
  · simp only [BlobExecution.syscall, syscall, view, hslot rfl, wordAt_writeWindow]
  · simp only [BlobExecution.syscall, syscall]
    split
    · rfl
    · simp only [view]
      refine congrArg (fun slot => (_, Target.mk _ _ slot _ _)) (wordAt_congr fun a ha => ?_)
      refine (writeWindow_of_not ?_).symm
      rw [List.length_replicate]
      exact hpages rfl a ha
  · rfl
  · simp only [BlobExecution.syscall, syscall]
    split <;> rfl

/-- On the whole memory a blob does what it does on that word, if its code and its new pages
do not lie over the word. -/
theorem executeBlob_view (hsaved : SavedFrom parts m₀ ctx) {blob : Blob} {arg0 : BitVec 64}
    (arg1 : BitVec 64) (hslot : blob = .sigprocmask → arg0 = ctx.sp)
    (hpages : blob = .mmap → ∀ a, InWindow ctx.sp wordSize a →
      ¬ InWindow (kernel.result .mmap m.calls.length) (pagesOf course.pageSize arg0) a) :
    ∃ ret m', executeBlob kernel parts course blob ctx arg0 arg1 m = .returns (ret, m') ∧
      BlobExecution.executeBlob kernel blob ctx.pc arg0 arg1 [] (view ctx m) =
        .returns (ret, view ctx m', []) := by
  refine ⟨_, _, executeBlob_eq kernel parts course blob ctx arg0 arg1 m, ?_⟩
  have hword : wordAt (injected parts blob ctx arg0 arg1 m).mem ctx.sp = wordAt m.mem ctx.sp := by
    refine wordAt_congr fun a ha => writeWindow_of_not fun hin => ?_
    exact hsaved.apart a (hin.mono (code_length_le parts blob)) (ha.mono (by decide))
  have hstart : view ctx (injected parts blob ctx arg0 arg1 m) =
      { view ctx m with regs := setCpuRegs m.regs ctx.pc arg0 arg1 } := by
    rw [view, hword]
    rfl
  have hcall := @syscall_view kernel ctx (injected parts blob ctx arg0 arg1 m) course.pageSize
    blob hslot hpages
  rw [hstart] at hcall
  change Outcome.returns (blobLoop kernel blob ctx.pc arg0 arg1 m.regs _ [] (view ctx m)) = _
  rw [blobLoop, hcall]
  rfl

theorem ctxSave_eq (hapart : WindowsApart parts course.pageSize m) :
    ∃ ctx, ctxSave parts course.pageSize m = .returns ctx ∧ SavedFrom parts m ctx := by
  rw [ctxSave, peek_eq (codeSize_words parts), Outcome.returns_andThen, peek_eq rfl,
    Outcome.returns_andThen]
  exact ⟨_, rfl, rfl, rfl, hapart⟩

end Steps

section Procedure

variable {kernel : Kernel} {parts : Parts} {course : Course} {ctx : Context} {m m' m₀ : Machine}
  {changed touched : BitVec 64 → Prop} {mapped mapped' : BitVec 64 → Bool} {n : Nat}

/-- What holds from the blocking of the signals to the end, after `n` system calls: the
context has what is needed to put `m₀` back, and the memory differs only where memcr put
something and where `changed` says. -/
structure Underway (parts : Parts) (m₀ : Machine) (changed : BitVec 64 → Prop) (ctx : Context)
    (n : Nat) (mapped : BitVec 64 → Bool) (m : Machine) : Prop where
  saved : SavedFrom parts m₀ ctx
  sigset : ctx.sigset = m₀.mask.val
  regs : m.regs = m₀.regs
  mapped : m.mapped = mapped
  calls : m.calls.length = m₀.calls.length + n
  mem : AgreeOutside (fun a => Used parts ctx a ∨ changed a) m₀.mem m.mem

theorem Underway.ran {blob : Blob} {mask : SigMask}
    (h : Underway parts m₀ changed ctx n mapped m) (hran : Ran blob mask mapped' touched m m')
    (hle : ∀ a, touched a → Used parts ctx a ∨ changed a) :
    Underway parts m₀ changed ctx (n + 1) mapped' m' where
  saved := h.saved
  sigset := h.sigset
  regs := hran.regs.trans h.regs
  mapped := hran.mapped
  calls := by rw [hran.calls, List.length_append, h.calls, List.length_singleton, Nat.add_assoc]
  mem := h.mem.trans (hran.mem.mono hle)

theorem Underway.stored {mem : BitVec 64 → Byte} (h : Underway parts m₀ changed ctx n mapped m)
    (hmem : AgreeOutside changed m.mem mem) :
    Underway parts m₀ changed ctx n mapped { m with mem := mem } :=
  ⟨h.saved, h.sigset, h.regs, h.mapped, h.calls, h.mem.trans (hmem.mono fun _ => Or.inr)⟩

theorem Underway.with_blob (h : Underway parts m₀ changed ctx n mapped m) (base : BitVec 64) :
    Underway parts m₀ changed { ctx with blob := base } n mapped m :=
  ⟨⟨h.saved.code, h.saved.stack, h.saved.apart⟩, h.sigset, h.regs, h.mapped, h.calls, h.mem⟩

theorem signalsBlock_underway (kernel : Kernel) (changed : BitVec 64 → Prop)
    (hapart : WindowsApart parts course.pageSize m₀) :
    ∃ ctx m, (ctxSave parts course.pageSize m₀).andThen
        (fun ctx => signalsBlock kernel parts course ctx m₀) = .returns (ctx, m) ∧
      Underway parts m₀ changed ctx 1 m₀.mapped m := by
  obtain ⟨ctx, hctx, hsaved⟩ := ctxSave_eq hapart
  obtain ⟨m, hblock, hran⟩ := signalsBlock_eq kernel course hsaved m₀
  have hstart : Underway parts m₀ changed { ctx with sigset := m₀.mask.val } 0 m₀.mapped m₀ :=
    ⟨⟨hsaved.code, hsaved.stack, hsaved.apart⟩, rfl, rfl, rfl, rfl, AgreeOutside.refl _⟩
  refine ⟨_, m, ?_, hstart.ran hran fun _ => Or.inl⟩
  rw [hctx, Outcome.returns_andThen, hblock]

theorem Underway.ends {written : List (BitVec 64)} (kernel : Kernel) (course : Course)
    (h : Underway parts m₀ changed ctx n m₀.mapped m)
    (hchanged : ∀ a, changed a → m₀.mapped a = false ∨ a ∈ written) :
    ∃ m' m'', signalsUnblock kernel parts course ctx m = .returns (0#64, m') ∧
      ctxRestore ctx m' = .returns m'' ∧ NoTrace written m₀ m'' := by
  obtain ⟨m', hunblock, hran⟩ := signalsUnblock_eq kernel course h.saved m
  have hunder := h.ran hran fun _ => Or.inl
  obtain ⟨mem, hrestore, hmem⟩ := ctxRestore_eq h.saved hunder.mem
  refine ⟨m', _, hunblock, hrestore, hunder.regs, ?_, hran.mapped.trans h.mapped, ?_⟩
  · change m'.mask = m₀.mask
    rw [hran.mask, h.sigset, SigMask.ofBits_val]
  · intro a hmapped hnot
    apply hmem
    intro ha
    rcases hchanged a ha with hunmapped | hwritten
    · rw [hmapped] at hunmapped
      contradiction
    · exact hnot hwritten

theorem checkpoint_mmap_fails (hapart : WindowsApart parts course.pageSize m)
    (h : isErrValue (mmapResult kernel m) = true) :
    ∃ ctx m', executeParasiteCheckpoint kernel parts course m = .returns (-1, ctx, m') ∧
      NoTrace [] m m' := by
  obtain ⟨ctx, m₁, hblock, hunder₁⟩ := signalsBlock_underway kernel (fun _ => False) hapart
  rw [mmapResult, ← hunder₁.calls] at h
  obtain ⟨m₂, hmmap, hran⟩ := executeBlob_mmap_fails parts course ctx parts.size h
  have hunder₂ := hunder₁.ran hran fun _ => Or.inl
  rw [hunder₁.mapped] at hunder₂
  obtain ⟨m₃, m₄, hunblock, hrestore, htrace⟩ := hunder₂.ends kernel course fun _ => False.elim
  refine ⟨ctx, m₄, ?_, htrace⟩
  rw [executeParasiteCheckpoint, ← Outcome.andThen_andThen, hblock]
  simp only [Outcome.returns_andThen, hmmap, h, if_true, hunblock, hrestore]

/-- The addresses that need not be as before: what was not mapped, and what the parasite
has written. -/
def Loose (course : Course) (m : Machine) (a : BitVec 64) : Prop :=
  m.mapped a = false ∨ a ∈ course.written

theorem Underway.parasite {writes : List (BitVec 64 × Byte)}
    (h : Underway parts m₀ (Loose course m₀) ctx n mapped m)
    (hwrites : writes ⊆ course.checkpointWrites ++ course.restoreWrites) :
    Underway parts m₀ (Loose course m₀) ctx n mapped (parasiteWrites writes m) :=
  h.stored (parasiteWrites_agree m fun _ ha => Or.inr (List.map_subset _ hwrites ha))

theorem checkpoint_underway (hapart : WindowsApart parts course.pageSize m)
    (h : Succeeds kernel parts course m) :
    ∃ ctx m', executeParasiteCheckpoint kernel parts course m =
        .returns (course.cmdCheckpoint, ctx, m') ∧
      ctx.blob = mmapResult kernel m ∧
      Underway parts m (Loose course m) ctx 3
        (fun a => m.mapped a ||
          decide (InWindow (mmapResult kernel m) (pagesOf course.pageSize parts.size) a)) m' := by
  obtain ⟨ctx, m₁, hblock, hunder₁⟩ := signalsBlock_underway kernel (Loose course m) hapart
  have hresult : kernel.result .mmap m₁.calls.length = mmapResult kernel m := by
    rw [hunder₁.calls, mmapResult]
  obtain ⟨m₂, hmmap, hran₂⟩ := executeBlob_mmap parts course ctx parts.size hresult h.maps
  have hfresh : ∀ a, InWindow (mmapResult kernel m) (pagesOf course.pageSize parts.size) a →
      Loose course m a := fun a ha => Or.inl (h.fresh a ha)
  have hunder₂ := hunder₁.ran hran₂ fun a ha => ha.imp id (hfresh a)
  rw [hunder₁.mapped] at hunder₂
  obtain ⟨mem, hpoke, hmem⟩ := poke_parasite parts course (mmapResult kernel m) m₂
  have hunder₃ := hunder₂.stored (hmem.mono hfresh)
  obtain ⟨m₄, hclone, hran₄⟩ := executeBlob_clone kernel parts course ctx
    (mmapResult kernel m) { m₂ with mem := mem }
  have hunder₄ := hunder₃.ran hran₄ fun _ => Or.inl
  rw [hunder₃.calls] at hclone
  rw [hunder₃.mapped] at hunder₄
  have hunder₅ := hunder₄.parasite (List.subset_append_left _ _)
  refine ⟨_, _, ?_, rfl, hunder₅.with_blob (mmapResult kernel m)⟩
  rw [executeParasiteCheckpoint, ← Outcome.andThen_andThen, hblock]
  simp only [Outcome.returns_andThen, hmmap, h.maps, ← Outcome.andThen_andThen, hpoke, hclone,
    h.clones, if_false, Bool.false_eq_true]

theorem Underway.restores (hunder : Underway parts m₀ (Loose course m₀) ctx 3
      (fun a => m₀.mapped a ||
        decide (InWindow (mmapResult kernel m₀) (pagesOf course.pageSize parts.size) a)) m)
    (hblob : ctx.blob = mmapResult kernel m₀) (h : Succeeds kernel parts course m₀) :
    ∃ m', executeParasiteRestore kernel parts course ctx m = .returns (0, m') ∧
      NoTrace course.written m₀ m' := by
  have hunder₁ := hunder.parasite (List.subset_append_right _ _)
  have hresult : kernel.result .munmap
      (parasiteWrites course.restoreWrites m).calls.length = 0#64 := by
    rw [← h.unmaps]
    exact congrArg _ hunder.calls
  obtain ⟨m₂, hmunmap, hran₂⟩ := executeBlob_munmap parts course ctx ctx.blob parts.size hresult
  have hunder₂ := hunder₁.ran hran₂ fun _ => Or.inl
  -- what is unmapped are the pages that were mapped for the parasite
  have hmapped : (fun a => (parasiteWrites course.restoreWrites m).mapped a &&
      !decide (InWindow ctx.blob (pagesOf course.pageSize parts.size) a)) = m₀.mapped := by
    funext a
    rw [hblob]
    change (m.mapped a && _) = _
    rw [hunder.mapped]
    by_cases ha : InWindow (mmapResult kernel m₀) (pagesOf course.pageSize parts.size) a
    · simp [ha, h.fresh a ha]
    · simp [ha]
  rw [hmapped] at hunder₂
  obtain ⟨m₃, m₄, hunblock, hrestore, htrace⟩ := hunder₂.ends kernel course fun _ ha => ha
  refine ⟨m₄, ?_, htrace⟩
  rw [executeParasiteRestore]
  simp only [h.restores, h.exits, hmunmap, Outcome.returns_andThen, hunblock, hrestore, ne_eq,
    not_true_eq_false, if_false, Bool.false_eq_true]

end Procedure

section Instance

def smallParts : Parts where
  code := fun _ => List.replicate 8 0xcc
  parasite := List.replicate 16 0x90
  args := List.replicate 8 0
  argsOffset := 8
  code_words := fun _ => Nat.dvd_refl 8
  parasite_words := Nat.dvd_mul_right 8 2
  args_words := Nat.dvd_refl 8
  args_inside := Nat.le_refl 16
  parasite_lt := Nat.lt_of_sub_pos (Nat.succ_pos _)

def smallCourse : Course where
  pageSize := 0x1000
  pageSize_pos := Nat.succ_pos 4095
  clobbered := fun _ regs => regs
  cmdCheckpoint := 0
  cmdRestore := 0
  parasiteSignaled := false
  checkpointWrites := [(0x8000, 0)]
  restoreWrites := [(0x8000, 7)]

def smallMachine : Machine where
  regs := { zeroRegs with rip := 0x401234, rsp := 0x9000 }
  mask := SigMask.ofBits 0x200
  mem := fun a => UInt8.ofNat a.toNat
  mapped := fun a => decide (InWindow 0x401000 0x1000 a) || decide (InWindow 0x8000 0x1000 a)
  calls := []

def fullKernel : Kernel :=
  { usr1Kernel with
    result := fun blob _ => if blob = .munmap then 0 else -12
    munmap_result := fun _ => Or.inl rfl }

theorem smallMachine_windowsApart :
    WindowsApart smallParts smallCourse.pageSize smallMachine := by
  intro a hcode hstack
  have hcode' : (a - 0x401000#64).toNat < 8 := hcode
  have hstack' : (a - 0x8f80#64).toNat < 128 := hstack
  bv_omega

theorem smallMachine_succeeds : Succeeds usr1Kernel smallParts smallCourse smallMachine where
  maps := by decide
  fresh := by
    intro a ha
    have hpage : (a - 0x7000#64).toNat < 0x1000 := ha
    have hcode : ¬ InWindow 0x401000#64 0x1000 a := by
      rw [InWindow]
      bv_omega
    have hstack : ¬ InWindow 0x8000#64 0x1000 a := by
      rw [InWindow]
      bv_omega
    change (decide (InWindow 0x401000#64 0x1000 a) || decide (InWindow 0x8000#64 0x1000 a)) = false
    rw [decide_eq_false hcode, decide_eq_false hstack, Bool.or_self]
  clones := by decide
  restores := rfl
  exits := rfl
  unmaps := rfl

end Instance

end Memcr.InjectionTrace
