import Mathlib.Data.BitVec
import Mathlib.Order.Lattice
import Memcr.CallOutcome

/-!
`execute_blob` of memcr.c on an x86_64 target. The blob runs in the target until
its trapping instruction; until then signals may stop it, before or after its
system call, and each stop makes `execute_blob` deliver the signal and start the
blob again. A script lists these stops, so that one script is one interleaving
of the blob with the signals.
-/

namespace Memcr.BlobExecution

open Memcr.CallOutcome

/-- The bits of `SIGKILL` and `SIGSTOP`, which the kernel never blocks. -/
def unblockable : BitVec 64 := 0x40100#64

/-- A signal mask as the kernel keeps it. -/
def SigMask : Type := { bits : BitVec 64 // bits &&& unblockable = 0#64 }

namespace SigMask

instance : DecidableEq SigMask := inferInstanceAs (DecidableEq (Subtype _))

/-- The mask the kernel makes of a word handed to `rt_sigprocmask`. -/
def ofBits (bits : BitVec 64) : SigMask :=
  ⟨bits &&& ~~~unblockable, by rw [BitVec.and_assoc, BitVec.not_and_self]; simp⟩

def full : SigMask := ofBits (BitVec.allOnes 64)

instance : Max SigMask where
  max m m' := ⟨m.val ||| m'.val, by
    rw [BitVec.and_or_distrib_right, m.property, m'.property, BitVec.or_self]⟩

instance : SemilatticeSup SigMask :=
  SemilatticeSup.mk' (fun m m' => Subtype.ext (BitVec.or_comm m.val m'.val))
    (fun m m' m'' => Subtype.ext (BitVec.or_assoc m.val m'.val m''.val))
    (fun _ => Subtype.ext BitVec.or_self)

theorem ofBits_val (m : SigMask) : ofBits m.val = m := by
  apply Subtype.ext
  change m.val &&& ~~~unblockable = m.val
  have hsplit : m.val &&& (unblockable ||| ~~~unblockable) = m.val &&& ~~~unblockable := by
    rw [BitVec.and_or_distrib_left, m.property, BitVec.zero_or]
  rw [← hsplit, show unblockable ||| ~~~unblockable = BitVec.allOnes 64 by decide,
    BitVec.and_allOnes]

theorem le_full (m : SigMask) : m ≤ full := by
  rw [← sup_eq_right]
  apply Subtype.ext
  change m.val ||| (BitVec.allOnes 64 &&& ~~~unblockable) = BitVec.allOnes 64 &&& ~~~unblockable
  rw [BitVec.allOnes_and, ← congrArg Subtype.val (ofBits_val m)]
  change (m.val &&& ~~~unblockable) ||| ~~~unblockable = ~~~unblockable
  apply BitVec.eq_of_getLsbD_eq
  intro i hi
  simp only [BitVec.getLsbD_or, BitVec.getLsbD_and]
  cases m.val.getLsbD i <;> simp

theorem le_foldl_sup (m : SigMask) (masks : List SigMask) : m ≤ masks.foldl (· ⊔ ·) m := by
  induction masks generalizing m with
  | nil => exact le_rfl
  | cons mask rest ih => exact le_sup_left.trans (ih (m ⊔ mask))

theorem foldl_sup_eq_iff (m : SigMask) (masks : List SigMask) :
    masks.foldl (· ⊔ ·) m = m ↔ ∀ mask ∈ masks, mask ≤ m := by
  induction masks generalizing m with
  | nil => simp
  | cons mask rest ih =>
      rw [List.foldl_cons, List.forall_mem_cons]
      constructor
      · intro h
        have hmask : mask ≤ m := le_sup_right.trans ((le_foldl_sup (m ⊔ mask) rest).trans h.le)
        rw [sup_eq_left.mpr hmask] at h
        exact ⟨hmask, (ih m).mp h⟩
      · rintro ⟨hmask, hrest⟩
        rw [sup_eq_left.mpr hmask]
        exact (ih m).mpr hrest

end SigMask

/-- The part of `struct registers` that memcr touches, and the rest of it. -/
structure Registers where
  rax : BitVec 64
  origRax : BitVec 64
  rip : BitVec 64
  rsp : BitVec 64
  r14 : BitVec 64
  r15 : BitVec 64
  others : List (BitVec 64)
  deriving DecidableEq, Repr

def setCpuRegs (regs : Registers) (pc arg0 arg1 : BitVec 64) : Registers :=
  { regs with origRax := BitVec.allOnes 64, rip := pc, r15 := arg0, r14 := arg1 }

/-- The system call of each blob of enter.c. -/
inductive Blob where
  | sigprocmask
  | mmap
  | clone
  | munmap
  deriving DecidableEq, Repr

/-- `IS_ERR_VALUE` -/
def isErrValue (ret : BitVec 64) : Bool :=
  decide (2 ^ 64 - 4095 ≤ ret.toNat)

/-- What the kernel does to a traced target: the mask a user handler adds while
it runs, the registers at its entry, which signals end the process, and the
results of the other system calls. Entering a handler moves the stack pointer,
so the registers change; `SIGSTOP` cannot be handled; `munmap` answers 0 or an
error code. -/
structure Kernel where
  handler : Nat → Option SigMask
  frame : Nat → Registers → Registers
  fatal : Nat → Bool
  result : Blob → Nat → BitVec 64
  frame_rsp : ∀ sig regs, handler sig ≠ none → (frame sig regs).rsp ≠ regs.rsp
  sigstop : handler 19 = none
  munmap_result : ∀ n, result .munmap n = 0#64 ∨ isErrValue (result .munmap n) = true

/-- The thread that the blobs run in, seen through `ptrace`. -/
structure Target where
  regs : Registers
  mask : SigMask
  /-- The word at `ctx->sp`. -/
  slot : BitVec 64
  /-- System calls made by blobs so far. -/
  calls : List Blob
  alive : Bool

/-- The system call of a blob. `rt_sigprocmask` with `SIG_SETMASK` reads the new
mask from the slot and leaves the old one there. -/
def syscall (kernel : Kernel) (blob : Blob) (t : Target) : BitVec 64 × Target :=
  match blob with
  | .sigprocmask =>
      (0#64, { t with mask := SigMask.ofBits t.slot, slot := t.mask.val,
                      calls := t.calls ++ [.sigprocmask] })
  | _ => (kernel.result blob t.calls.length, { t with calls := t.calls ++ [blob] })

/-- What the kernel does with a signal: the thread dies, or a frame is set up for the
handler, or nothing happens. -/
def deliver (kernel : Kernel) (sig : Nat) (t : Target) : Target :=
  if kernel.fatal sig then { t with alive := false }
  else
    match kernel.handler sig with
    | none => t
    | some added => { t with regs := kernel.frame sig t.regs, mask := t.mask ⊔ added }

/-- A signal delivered by `execute_blob`: the mask when the target stopped for
it, and the registers as the kernel left them. -/
structure Delivery where
  sig : Nat
  mask : SigMask
  left : Registers

/-- A signal-delivery stop of a blob, followed by the further signals found
while control returns to the jobctl trap. -/
structure Stop where
  sig : Nat
  afterSyscall : Bool
  more : List Nat
  deriving DecidableEq, Repr

def Stop.signals (stop : Stop) : List Nat := stop.sig :: stop.more

/-- The `retry_signal` loop. -/
def deliverSignals (kernel : Kernel) (savedRegs : Registers) :
    List Nat → Target → Target × List Delivery
  | [], t => (t, [])
  | sig :: rest, t =>
      let t' := deliver kernel sig { t with regs := savedRegs }
      let delivery : Delivery := { sig := sig, mask := t.mask, left := t'.regs }
      if !t'.alive then (t', [delivery])
      else
        let (u, deliveries) := deliverSignals kernel savedRegs rest t'
        (u, delivery :: deliveries)

/-- The blob has run up to a stop. -/
def runToStop (kernel : Kernel) (blob : Blob) (stop : Stop) (t : Target) : Target :=
  if stop.afterSyscall then (syscall kernel blob t).2 else t

/-- The `retry` loop of `execute_blob`, with the registers and the stack words
saved at its start. -/
def blobLoop (kernel : Kernel) (blob : Blob) (pc arg0 arg1 : BitVec 64)
    (savedRegs : Registers) (stack : BitVec 64) :
    List Stop → Target → BitVec 64 × Target × List Delivery
  | [], t =>
      let (ret, t) := syscall kernel blob { t with regs := setCpuRegs savedRegs pc arg0 arg1 }
      (ret, { t with regs := savedRegs }, [])
  | stop :: rest, t =>
      let t := runToStop kernel blob stop
        { t with regs := setCpuRegs savedRegs pc arg0 arg1 }
      let (t, deliveries) := deliverSignals kernel savedRegs stop.signals t
      if !t.alive then (-1#64, t, deliveries)
      else
        let (ret, t, more) :=
          blobLoop kernel blob pc arg0 arg1 savedRegs stack rest { t with slot := stack }
        (ret, t, deliveries ++ more)

/-- `execute_blob`. A `ptrace` call on a target that is gone fails an assertion. -/
def executeBlob (kernel : Kernel) (blob : Blob) (pc arg0 arg1 : BitVec 64)
    (script : List Stop) (t : Target) : Outcome (BitVec 64 × Target × List Delivery) :=
  if !t.alive then .aborts
  else .returns (blobLoop kernel blob pc arg0 arg1 t.regs t.slot script t)

/-- The registers that the delivery of a signal leaves. -/
def leftRegs (kernel : Kernel) (sig : Nat) (regs : Registers) : Registers :=
  match kernel.handler sig with
  | none => regs
  | some _ => kernel.frame sig regs

theorem leftRegs_eq_iff {kernel : Kernel} {sig : Nat} {regs : Registers} :
    leftRegs kernel sig regs = regs ↔ kernel.handler sig = none := by
  simp only [leftRegs]
  split
  · rename_i hnone
    simp [hnone]
  · rename_i added hsome
    have hmoves := kernel.frame_rsp sig regs (by simp [hsome])
    constructor
    · intro hsame
      exact absurd (congrArg Registers.rsp hsame) hmoves
    · intro hnone
      rw [hsome] at hnone
      cases hnone

theorem deliver_of_alive {kernel : Kernel} {sig : Nat} {t : Target}
    (halive : (deliver kernel sig t).alive = true) :
    deliver kernel sig t = { t with
      regs := leftRegs kernel sig t.regs, mask := t.mask ⊔ (kernel.handler sig).getD t.mask } := by
  simp only [deliver] at halive ⊢
  split at halive
  · cases halive
  · rename_i hfatal
    simp only [hfatal]
    cases hhandler : kernel.handler sig <;> simp [leftRegs, hhandler]

/-- A target that survives the `retry_signal` loop has been delivered every
signal, each on the saved registers. -/
theorem deliverSignals_of_alive {kernel : Kernel} {savedRegs : Registers} {sigs : List Nat}
    {t u : Target} {deliveries : List Delivery}
    (h : deliverSignals kernel savedRegs sigs t = (u, deliveries)) (halive : u.alive = true) :
    deliveries.map (fun d => (d.sig, d.left)) =
        sigs.map (fun sig => (sig, leftRegs kernel sig savedRegs)) ∧
      u.mask = (sigs.filterMap kernel.handler).foldl (· ⊔ ·) t.mask ∧
      u.slot = t.slot ∧ u.calls = t.calls := by
  induction sigs generalizing t deliveries with
  | nil =>
      cases h
      simp
  | cons sig rest ih =>
      simp only [deliverSignals] at h
      split at h
      · rename_i hdead
        cases h
        simp [halive] at hdead
      · rename_i hlives
        have hsurvives : (deliver kernel sig { t with regs := savedRegs }).alive = true := by
          simpa using hlives
        have hdeliver := deliver_of_alive hsurvives
        cases hnext : deliverSignals kernel savedRegs rest
            (deliver kernel sig { t with regs := savedRegs }) with
        | mk v more =>
            rw [hnext] at h
            cases h
            obtain ⟨hlist, hmask, hslot, hcalls⟩ := ih hnext
            rw [hdeliver] at hmask hslot hcalls ⊢
            refine ⟨by simp [hlist], ?_, hslot, hcalls⟩
            rw [hmask]
            cases hhandler : kernel.handler sig <;> simp [hhandler]

section Loop

variable {kernel : Kernel} {blob : Blob} {pc arg0 arg1 ret stack : BitVec 64}
  {savedRegs : Registers} {script : List Stop} {t u : Target} {deliveries : List Delivery}

theorem blobLoop_cons_of_alive {stop : Stop}
    (h : blobLoop kernel blob pc arg0 arg1 savedRegs stack (stop :: script) t =
      (ret, u, deliveries)) (halive : u.alive = true) :
    ∃ v first more,
      deliverSignals kernel savedRegs stop.signals (runToStop kernel blob stop
        { t with regs := setCpuRegs savedRegs pc arg0 arg1 }) = (v, first) ∧
      v.alive = true ∧
      blobLoop kernel blob pc arg0 arg1 savedRegs stack script { v with slot := stack } =
        (ret, u, more) ∧
      deliveries = first ++ more := by
  simp only [blobLoop] at h
  cases hdeliver : deliverSignals kernel savedRegs stop.signals (runToStop kernel blob stop
      { t with regs := setCpuRegs savedRegs pc arg0 arg1 }) with
  | mk v first =>
      rw [hdeliver] at h
      simp only at h
      split at h
      · rename_i hdead
        cases h
        simp [halive] at hdead
      · rename_i hlives
        cases hnext : blobLoop kernel blob pc arg0 arg1 savedRegs stack script
            { v with slot := stack } with
        | mk code result =>
            obtain ⟨w, more⟩ := result
            rw [hnext] at h
            cases h
            exact ⟨v, first, more, rfl, by simpa using hlives, hnext, rfl⟩

/-- Whatever was delivered, `execute_blob` ends with the registers it saved at
its start. -/
theorem blobLoop_of_alive
    (h : blobLoop kernel blob pc arg0 arg1 savedRegs stack script t = (ret, u, deliveries))
    (halive : u.alive = true) :
    u.regs = savedRegs ∧ deliveries.map (fun d => (d.sig, d.left)) =
      (script.flatMap Stop.signals).map fun sig => (sig, leftRegs kernel sig savedRegs) := by
  induction script generalizing t deliveries with
  | nil =>
      cases h
      simp
  | cons stop rest ih =>
      obtain ⟨v, first, more, hdeliver, hlives, hnext, rfl⟩ := blobLoop_cons_of_alive h halive
      obtain ⟨hregs, hmore⟩ := ih hnext
      have hfirst := (deliverSignals_of_alive hdeliver hlives).1
      exact ⟨hregs, by simp [hfirst, hmore]⟩

end Loop

/-- Code injection keeps the registers the kernel left after the last delivered
signal exactly when that signal, if any, has no user handler. -/
theorem executeBlob_keeps_delivery_iff (kernel : Kernel) (blob : Blob)
    (pc arg0 arg1 : BitVec 64) (script : List Stop) (t t' : Target) (ret : BitVec 64)
    (deliveries : List Delivery)
    (hrun : executeBlob kernel blob pc arg0 arg1 script t = .returns (ret, t', deliveries))
    (halive : t'.alive = true) :
    t'.regs = (deliveries.getLast?.map Delivery.left).getD t.regs ↔
      ∀ sig ∈ (script.flatMap Stop.signals).getLast?, kernel.handler sig = none := by
  simp only [executeBlob] at hrun
  split at hrun
  · cases hrun
  · obtain ⟨hregs, hdeliveries⟩ := blobLoop_of_alive (Outcome.returns.inj hrun) halive
    have hlast := congrArg List.getLast? hdeliveries
    rw [List.getLast?_map, List.getLast?_map] at hlast
    rw [hregs]
    cases hsig : (script.flatMap Stop.signals).getLast? with
    | none =>
        rw [hsig] at hlast
        simp [Option.map_eq_none_iff.mp hlast]
    | some sig =>
        rw [hsig] at hlast
        obtain ⟨delivery, hdelivery, heq⟩ := Option.map_eq_some_iff.mp hlast
        have hleft : delivery.left = leftRegs kernel sig t.regs := congrArg Prod.snd heq
        simp only [hdelivery, Option.map_some, Option.getD_some, hleft, Option.mem_some_iff,
          forall_eq']
        rw [eq_comm, leftRegs_eq_iff]

def zeroRegs : Registers :=
  { rax := 0, origRax := 0, rip := 0x1000, rsp := 0x8000, r14 := 0, r15 := 0, others := [] }

/-- A kernel under which the target handles `SIGUSR1` alone, without blocking
anything else meanwhile. -/
def usr1Kernel : Kernel where
  handler := fun sig => if sig = 10 then some (SigMask.ofBits 0x200#64) else none
  frame := fun _ regs => { regs with rip := 0x2000, rsp := regs.rsp - 0x100 }
  fatal := fun _ => false
  result := fun blob _ => if blob = .munmap then 0 else 0x7000
  frame_rsp := by
    intro sig regs _
    simp
  sigstop := rfl
  munmap_result := fun _ => Or.inl rfl

def freshTarget : Target :=
  { regs := zeroRegs, mask := SigMask.ofBits 0, slot := 0, calls := [], alive := true }

theorem executeBlob_keeps_delivery_sigstop :
    ∃ ret t' deliveries,
      executeBlob usr1Kernel .mmap 0x1000 0x3000 0
        [{ sig := 19, afterSyscall := false, more := [] }] freshTarget =
          .returns (ret, t', deliveries) ∧
      t'.regs = (deliveries.getLast?.map Delivery.left).getD freshTarget.regs := by
  refine ⟨_, _, _, rfl, ?_⟩
  exact (executeBlob_keeps_delivery_iff usr1Kernel .mmap 0x1000 0x3000 0
    [{ sig := 19, afterSyscall := false, more := [] }] freshTarget _ _ _ rfl rfl).mpr (by decide)

theorem executeBlob_loses_sigusr1 :
    ∃ ret t' deliveries,
      executeBlob usr1Kernel .mmap 0x1000 0x3000 0
        [{ sig := 10, afterSyscall := false, more := [] }] freshTarget =
          .returns (ret, t', deliveries) ∧ t'.alive = true ∧
      t'.regs ≠ (deliveries.getLast?.map Delivery.left).getD freshTarget.regs := by
  exact ⟨_, _, _, rfl, rfl, by decide⟩

end Memcr.BlobExecution
