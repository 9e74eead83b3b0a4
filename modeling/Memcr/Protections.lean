import Mathlib.Data.List.Nodup
import Mathlib.Data.List.Pairwise
import Memcr.CheckpointMemory
import Memcr.RegionRequests

namespace Memcr.Protections

open Memcr.ByteMemory
open Memcr.ByteWords
open Memcr.CallOutcome
open Memcr.CheckpointMemory
open Memcr.DumpFormat
open Memcr.DumpRestore
open Memcr.PageSelection
open Memcr.RegionRequests

/-- A mapping with the protection that `scan_target_vmas` recorded. -/
structure ProtectedArea (pageSize : Nat) extends VmArea pageSize where
  prot : BitVec 64

def protRead : BitVec 64 := 0x1

def protWrite : BitVec 64 := 0x2

def ProtectedArea.Has {pageSize : Nat} (vma : ProtectedArea pageSize) (a : Nat) : Prop :=
  vma.start ≤ a ∧ a < vma.stop

/-- Both loops pass over the mapping. -/
def readWrite (prot : BitVec 64) : Bool := prot &&& protRead != 0 && prot &&& protWrite != 0

/-- What becomes of a connection for `CMD_MPROTECT`. -/
structure Connection where
  connects : Bool
  commandSent : Bool
  /-- An entry `some n` makes the corresponding `parasite_write` of a request fail
  after `n` bytes. -/
  io : Nat → Option Nat
  /-- What `req` holds on the stack of the parasite. -/
  stale : List Byte
  stale_length : stale.length = vmMprotectSize

/-- The requests sent so far. -/
structure Sent where
  bytes : List Byte
  writes : Nat

/-- `parasite_write`, which may fail after some of the bytes. -/
def parasiteWrite (io : Nat → Option Nat) (buf : List Byte) (s : Sent) : Int × Sent :=
  match io s.writes with
  | none => (buf.length, ⟨s.bytes ++ buf, s.writes + 1⟩)
  | some n => (-1, ⟨s.bytes ++ buf.take (min n (buf.length - 1)), s.writes + 1⟩)

/-- `target_mprotect` -/
def targetMprotect (io : Nat → Option Nat) (req : VmMprotect) (s : Sent) : Int × Sent :=
  let (ret, s) := parasiteWrite io req.bytes s
  if ret ≠ vmMprotectSize then (-1, s) else (0, s)

def request {pageSize : Nat} (change : BitVec 64 → BitVec 64) (vma : ProtectedArea pageSize) :
    VmMprotect where
  addr := BitVec.ofNat 64 vma.start
  len := BitVec.ofNat 64 (vma.stop - vma.start)
  prot := change vma.prot

/-- The loop of `target_mprotect_off` and `target_mprotect_on`. -/
def mprotectLoop {pageSize : Nat} (change : BitVec 64 → BitVec 64) (io : Nat → Option Nat) :
    List (ProtectedArea pageSize) → Int → Sent → Int × Sent
  | [], ret, s => (ret, s)
  | vma :: rest, ret, s =>
      if readWrite vma.prot then mprotectLoop change io rest ret s
      else
        let (ret, s) := targetMprotect io (request change vma) s
        if ret ≠ 0 then (ret, s) else mprotectLoop change io rest ret s

/-- The result, and the bytes that arrive behind the command. -/
def sendProtections {pageSize : Nat} (change : BitVec 64 → BitVec 64) (cd : Connection)
    (vmas : List (ProtectedArea pageSize)) : Int × List Byte :=
  if !cd.connects then (-1, [])
  else if !cd.commandSent then (-1, [])
  else
    let (ret, s) := mprotectLoop change cd.io vmas 1 ⟨[], 0⟩
    (ret, s.bytes)

/-- A checkpoint makes every mapping readable and writable. -/
def widen (prot : BitVec 64) : BitVec 64 := prot ||| protRead ||| protWrite

/-- `target_mprotect_off`. Its caller does not look at the result. -/
def targetMprotectOff {pageSize : Nat} (cd : Connection) (vmas : List (ProtectedArea pageSize)) :
    Int × List Byte :=
  sendProtections widen cd vmas

/-- `target_mprotect_on`. Its caller does not look at the result. -/
def targetMprotectOn {pageSize : Nat} (cd : Connection) (vmas : List (ProtectedArea pageSize)) :
    Int × List Byte :=
  sendProtections id cd vmas

/-- The protection of each address. -/
abbrev Protection := Nat → BitVec 64

/-- The addresses of a request, in whole pages. -/
def Covers (pageSize : Nat) (req : VmMprotect) (a : Nat) : Prop :=
  Within req.addr.toNat ((req.len.toNat + pageSize - 1) / pageSize * pageSize) a

instance (pageSize : Nat) (req : VmMprotect) (a : Nat) : Decidable (Covers pageSize req a) :=
  inferInstanceAs (Decidable (Within _ _ _))

/-- An `mprotect` that is not refused. -/
def sysMprotect (pageSize : Nat) (prot : Protection) (req : VmMprotect) : Protection := fun a =>
  if Covers pageSize req a then req.prot else prot a

/-- `cmd_mprotect` of the parasite, for the bytes up to the end of the connection.
A request that is cut short is completed with what `req` held before. -/
def cmdMprotect (pageSize : Nat) : Nat → List Byte → List Byte → Protection → Outcome Protection
  | 0, _, _, _ => .hangs
  | rounds + 1, req, input, prot =>
      let got := input.take vmMprotectSize
      if got.length = 0 then .returns prot
      else
        let req := got ++ req.drop got.length
        cmdMprotect pageSize rounds req (input.drop vmMprotectSize)
          (sysMprotect pageSize prot (VmMprotect.ofBytes req))

/-- The parasite serves a connection whose requests it can all carry out. -/
def protectTarget (pageSize : Nat) (cd : Connection) (input : List Byte) (prot : Protection) :
    Outcome Protection :=
  cmdMprotect pageSize (input.length + 1) cd.stale input prot

/-- `cmd_checkpoint`; `scanned` says whether `scan_target_vmas` succeeds. -/
def cmdCheckpoint (cfg : Config) (env : CheckpointEnv) (scanned : Bool) (off : Connection)
    (vmas : List (ProtectedArea cfg.pageSize)) (mem : Memory) (prot : Protection) :
    Outcome (Int × Download × Protection) :=
  if !scanned then .returns (1, ⟨mem, [], Writer.start, 0⟩, prot)
  else
    (protectTarget cfg.pageSize off (targetMprotectOff off vmas).2 prot).andThen fun prot =>
      (getTargetPages cfg env (vmas.map ProtectedArea.toVmArea) mem).andThen fun (ret, d) =>
        if ret ≠ 0 then .returns (ret, d, prot) else .returns (0, d, prot)

/-- `cmd_restore` behind a checkpoint that has written `w`. -/
def cmdRestore (cfg : Config) (env : RestoreEnv) (digest : List Byte → List Byte)
    (on : Connection) (vmas : List (ProtectedArea cfg.pageSize)) (w : Writer)
    (prot : Protection) : Outcome (Int × Upload × Protection) :=
  (DumpRestore.cmdRestore cfg env digest w.hashed w.file w.dumpedVmSize).andThen fun (ret, st) =>
    if ret ≠ 0 then .returns (ret, st, prot)
    else
      (protectTarget cfg.pageSize on (targetMprotectOn on vmas).2 prot).andThen fun prot =>
        .returns (0, st, prot)

/-- The mappings that both loops send a request for. -/
def narrow {pageSize : Nat} (vmas : List (ProtectedArea pageSize)) :
    List (ProtectedArea pageSize) :=
  vmas.filter fun vma => !readWrite vma.prot

/-- How many of `n` calls succeed before the first that fails. -/
def throughFrom (io : Nat → Option Nat) : Nat → Nat → Nat
  | _, 0 => 0
  | i, n + 1 => if io i = none then throughFrom io (i + 1) n + 1 else 0

/-- The request that is left in the buffer if the last one was cut short. -/
def cutFrom (io : Nat → Option Nat) : Nat → List Byte → List VmMprotect → Option VmMprotect
  | _, _, [] => none
  | i, stale, req :: rest =>
      match io i with
      | none => cutFrom io (i + 1) req.bytes rest
      | some n =>
          let k := min n (vmMprotectSize - 1)
          if k = 0 then none else some (VmMprotect.ofBytes (req.bytes.take k ++ stale.drop k))

/-- The number of requests that arrive whole, of `n`. -/
def Connection.through (cd : Connection) (n : Nat) : Nat :=
  if cd.connects && cd.commandSent then throughFrom cd.io 0 n else 0

/-- The request that is cut short. -/
def Connection.cut (cd : Connection) (reqs : List VmMprotect) : Option VmMprotect :=
  if cd.connects && cd.commandSent then cutFrom cd.io 0 cd.stale reqs else none

/-- The mappings whose requests arrive whole. -/
def Connection.arrived {pageSize : Nat} (cd : Connection) (vmas : List (ProtectedArea pageSize)) :
    List (ProtectedArea pageSize) :=
  (narrow vmas).take (cd.through (narrow vmas).length)

section Sending

variable {pageSize : Nat} {io : Nat → Option Nat} {change : BitVec 64 → BitVec 64}

/-- The bytes of the requests that go through. -/
def delivered (io : Nat → Option Nat) : Nat → List VmMprotect → List Byte
  | _, [] => []
  | i, req :: rest =>
      match io i with
      | none => req.bytes ++ delivered io (i + 1) rest
      | some n => req.bytes.take (min n (vmMprotectSize - 1))

theorem targetMprotect_none {s : Sent} (hio : io s.writes = none) (req : VmMprotect) :
    targetMprotect io req s = (0, ⟨s.bytes ++ req.bytes, s.writes + 1⟩) := by
  simp [targetMprotect, parasiteWrite, hio]

theorem targetMprotect_some {s : Sent} {n : Nat} (hio : io s.writes = some n)
    (req : VmMprotect) :
    targetMprotect io req s =
      (-1, ⟨s.bytes ++ req.bytes.take (min n (vmMprotectSize - 1)), s.writes + 1⟩) := by
  simp [targetMprotect, parasiteWrite, hio, vmMprotectSize]

theorem mprotectLoop_bytes (vmas : List (ProtectedArea pageSize)) (ret : Int) (s : Sent) :
    (mprotectLoop change io vmas ret s).2.bytes =
      s.bytes ++ delivered io s.writes ((narrow vmas).map (request change)) := by
  induction vmas generalizing ret s with
  | nil => simp [mprotectLoop, narrow, delivered]
  | cons vma rest ih =>
      rw [mprotectLoop]
      split
      · rename_i hwide
        have hskip : narrow (vma :: rest) = narrow rest :=
          List.filter_cons_of_neg (by simp [hwide])
        rw [ih, hskip]
      · rename_i hnarrow
        have hkeep : narrow (vma :: rest) = vma :: narrow rest :=
          List.filter_cons_of_pos (by simp [hnarrow])
        rw [hkeep, List.map_cons, delivered]
        rcases hio : io s.writes with _ | n
        · simp only [targetMprotect_none hio, ne_eq, not_true_eq_false, if_false, ih,
            List.append_assoc]
        · simp [targetMprotect_some hio]

theorem cmdMprotect_whole {rounds : Nat} {stale more : List Byte}
    (hstale : stale.length = vmMprotectSize) (req : VmMprotect) (prot : Protection) :
    cmdMprotect pageSize (rounds + 1) stale (req.bytes ++ more) prot =
      cmdMprotect pageSize rounds req.bytes more (sysMprotect pageSize prot req) := by
  have htake : (req.bytes ++ more).take vmMprotectSize = req.bytes :=
    List.take_left' req.bytes_length
  have hdrop : (req.bytes ++ more).drop vmMprotectSize = more :=
    List.drop_left' req.bytes_length
  have hbuf : req.bytes ++ stale.drop req.bytes.length = req.bytes := by
    rw [List.drop_of_length_le (by rw [hstale, req.bytes_length]), List.append_nil]
  rw [cmdMprotect]
  simp only [htake, hdrop, hbuf, VmMprotect.ofBytes_bytes]
  rw [if_neg (by rw [req.bytes_length]; decide)]

theorem cmdMprotect_nil {rounds : Nat} {stale : List Byte} (prot : Protection) :
    cmdMprotect pageSize (rounds + 1) stale [] prot = .returns prot := by
  simp [cmdMprotect]

theorem cmdMprotect_cut {rounds k : Nat} {stale : List Byte} (req : VmMprotect)
    (hpos : 0 < k) (hk : k < vmMprotectSize) (prot : Protection) :
    cmdMprotect pageSize (rounds + 2) stale (req.bytes.take k) prot =
      .returns (sysMprotect pageSize prot
        (VmMprotect.ofBytes (req.bytes.take k ++ stale.drop k))) := by
  have hlength : (req.bytes.take k).length = k :=
    List.length_take_of_le (by rw [req.bytes_length]; exact hk.le)
  have htake : (req.bytes.take k).take vmMprotectSize = req.bytes.take k :=
    List.take_of_length_le (hlength.trans_le hk.le)
  have hdrop : (req.bytes.take k).drop vmMprotectSize = [] :=
    List.drop_of_length_le (hlength.trans_le hk.le)
  rw [cmdMprotect]
  simp only [htake, hdrop, hlength, hpos.ne', if_false, cmdMprotect_nil]

/-- The parasite carries out the requests that arrive whole, and then the one
that was cut short. -/
theorem cmdMprotect_delivered {rounds : Nat} {stale : List Byte}
    (hstale : stale.length = vmMprotectSize) (i : Nat) (reqs : List VmMprotect)
    (hrounds : (delivered io i reqs).length < rounds) (prot : Protection) :
    cmdMprotect pageSize rounds stale (delivered io i reqs) prot =
      .returns ((cutFrom io i stale reqs).toList.foldl (sysMprotect pageSize)
        ((reqs.take (throughFrom io i reqs.length)).foldl (sysMprotect pageSize) prot)) := by
  induction reqs generalizing i stale rounds prot with
  | nil =>
      obtain ⟨rounds, rfl⟩ := Nat.exists_eq_succ_of_ne_zero (Nat.ne_zero_of_lt hrounds)
      exact cmdMprotect_nil prot
  | cons req rest ih =>
      obtain ⟨rounds, rfl⟩ := Nat.exists_eq_succ_of_ne_zero (Nat.ne_zero_of_lt hrounds)
      simp only [delivered, cutFrom, List.length_cons, throughFrom] at hrounds ⊢
      rcases hio : io i with _ | n
      · simp only [hio, List.length_append, req.bytes_length] at hrounds
        simp only [if_true, List.take_succ_cons, List.foldl_cons]
        rw [cmdMprotect_whole hstale]
        apply ih
        · exact req.bytes_length
        · simp only [vmMprotectSize] at hrounds
          omega
      · simp only [hio] at hrounds
        simp only [reduceCtorEq, if_false, List.take_zero, List.foldl_nil]
        -- a write that fails before its first byte leaves nothing for the parasite to read
        rcases Nat.eq_zero_or_pos (min n (vmMprotectSize - 1)) with hzero | hpos
        · simp only [hzero, List.take_zero, if_true, Option.toList_none, List.foldl_nil]
          exact cmdMprotect_nil prot
        · simp only [hpos.ne', if_false, Option.toList_some, List.foldl_cons, List.foldl_nil]
          have hcut : min n (vmMprotectSize - 1) < vmMprotectSize := by
            simp only [vmMprotectSize]
            omega
          rw [List.length_take_of_le (by rw [req.bytes_length]; exact hcut.le)] at hrounds
          obtain ⟨more, rfl⟩ := Nat.exists_eq_succ_of_ne_zero (by omega : rounds ≠ 0)
          exact cmdMprotect_cut req hpos hcut prot

theorem protectTarget_eq (cd : Connection) (vmas : List (ProtectedArea pageSize))
    (prot : Protection) :
    protectTarget pageSize cd (sendProtections change cd vmas).2 prot =
      .returns ((cd.cut ((narrow vmas).map (request change))).toList.foldl (sysMprotect pageSize)
        (((cd.arrived vmas).map (request change)).foldl (sysMprotect pageSize) prot)) := by
  simp only [protectTarget, sendProtections, Connection.arrived, Connection.through,
    Connection.cut]
  rcases cd.connects with _ | _
  · simp [cmdMprotect_nil]
  · rcases cd.commandSent with _ | _
    · simp [cmdMprotect_nil]
    · have hloop := @mprotectLoop_bytes pageSize cd.io change vmas 1 ⟨[], 0⟩
      rw [List.nil_append] at hloop
      simp only [Bool.not_true, Bool.false_eq_true, if_false, Bool.and_self, if_true, hloop]
      rw [cmdMprotect_delivered cd.stale_length _ _ (Nat.lt_succ_self _), List.length_map,
        List.map_take]

end Sending

section Effects

variable {pageSize : Nat} {change : BitVec 64 → BitVec 64}
  {vmas whole : List (ProtectedArea pageSize)} {vma vma' : ProtectedArea pageSize}
  {prot : Protection} {a : Nat}

theorem covers_request : Covers pageSize (request change vma) a ↔ vma.Has a := by
  have hstop := vma.stop_lt
  have hlt := vma.start_lt_stop
  obtain ⟨q, hq⟩ := Nat.dvd_sub vma.stop_aligned vma.start_aligned
  have hsize : 0 < pageSize := by
    rcases Nat.eq_zero_or_pos pageSize with rfl | hpos
    · omega
    · exact hpos
  have hround : (vma.stop - vma.start + pageSize - 1) / pageSize * pageSize =
      vma.stop - vma.start := by
    rw [hq, Nat.add_sub_assoc hsize, Nat.mul_add_div hsize,
      Nat.div_eq_of_lt (Nat.sub_lt hsize Nat.one_pos), Nat.add_zero, Nat.mul_comm]
  have haddr : (request change vma).addr.toNat = vma.start := by
    simp only [request, BitVec.toNat_ofNat]
    omega
  have hlen : (request change vma).len.toNat = vma.stop - vma.start := by
    simp only [request, BitVec.toNat_ofNat]
    omega
  rw [Covers, haddr, hlen, hround, Within, ProtectedArea.Has]
  omega

instance : Std.Symm fun v w : ProtectedArea pageSize => Apart v.toVmArea w.toVmArea where
  symm _ _ := Or.symm

theorem eq_of_has (hapart : vmas.Pairwise fun v w => Apart v.toVmArea w.toVmArea)
    (hvma : vma ∈ vmas) (hvma' : vma' ∈ vmas) (h : vma.Has a) (h' : vma'.Has a) : vma = vma' := by
  by_contra hne
  have hdisjoint : Apart vma.toVmArea vma'.toVmArea := hapart.forall hvma hvma' hne
  obtain ⟨hge, hlt⟩ := h
  obtain ⟨hge', hlt'⟩ := h'
  rcases hdisjoint with hle | hle
  · omega
  · omega

theorem foldl_requests_of_notMem (hapart : vmas.Pairwise fun v w => Apart v.toVmArea w.toVmArea)
    (hwhole : ∀ v ∈ whole, v ∈ vmas) (hvma : vma ∈ vmas) (ha : vma.Has a) (hnot : vma ∉ whole) :
    (whole.map (request change)).foldl (sysMprotect pageSize) prot a = prot a := by
  induction whole generalizing prot with
  | nil => rfl
  | cons v rest ih =>
      obtain ⟨hne, hrest⟩ := not_or.mp (List.mem_cons.not.mp hnot)
      have hwhole' : ∀ w ∈ rest, w ∈ vmas := fun w hw => hwhole w (List.mem_cons_of_mem _ hw)
      rw [List.map_cons, List.foldl_cons, ih hwhole' hrest, sysMprotect, if_neg]
      intro hcovers
      exact hne (eq_of_has hapart hvma (hwhole v List.mem_cons_self) ha (covers_request.mp hcovers))

theorem foldl_requests_of_mem (hapart : vmas.Pairwise fun v w => Apart v.toVmArea w.toVmArea)
    (hwhole : ∀ v ∈ whole, v ∈ vmas) (hvma : vma ∈ whole) (ha : vma.Has a) :
    (whole.map (request change)).foldl (sysMprotect pageSize) prot a = change vma.prot := by
  induction whole generalizing prot with
  | nil => exact absurd hvma List.not_mem_nil
  | cons v rest ih =>
      have hrest : ∀ w ∈ rest, w ∈ vmas := fun w hw => hwhole w (List.mem_cons_of_mem _ hw)
      rw [List.map_cons, List.foldl_cons]
      -- a later request for the same mapping would carry the same protection
      by_cases hmem : vma ∈ rest
      · exact ih hrest hmem
      · obtain rfl := (List.mem_cons.mp hvma).resolve_right hmem
        rw [foldl_requests_of_notMem hapart hrest (hwhole _ List.mem_cons_self) ha hmem,
          sysMprotect, if_pos (covers_request.mpr ha)]
        rfl

theorem arrived_subset (cd : Connection) : ∀ v ∈ cd.arrived vmas, v ∈ vmas :=
  fun _ hv => List.mem_of_mem_filter (List.mem_of_mem_take hv)

theorem widen_ne {prot : BitVec 64} (h : readWrite prot = false) : widen prot ≠ prot := by
  intro heq
  have hread : widen prot &&& protRead ≠ 0 := by
    intro hzero
    have hbit := congrArg (fun x => x.getLsbD 0) hzero
    simp [widen, protRead, protWrite] at hbit
  have hwrite : widen prot &&& protWrite ≠ 0 := by
    intro hzero
    have hbit := congrArg (fun x => x.getLsbD 1) hzero
    simp [widen, protRead, protWrite] at hbit
  rw [heq] at hread hwrite
  simp only [readWrite, Bool.and_eq_false_iff, bne_eq_false_iff_eq] at h
  exact h.elim hread hwrite

/-- The protection is right, with a cut request carried out last. -/
def Settled (pageSize : Nat) (cut : Option VmMprotect) (prot : BitVec 64) (a : Nat)
    (otherwise : Prop) : Prop :=
  match cut with
  | none => otherwise
  | some req => if Covers pageSize req a then req.prot = prot else otherwise

theorem settled_iff {cut : Option VmMprotect} {recorded : BitVec 64} {otherwise : Prop}
    (h : prot a = recorded ↔ otherwise) :
    cut.toList.foldl (sysMprotect pageSize) prot a = recorded ↔
      Settled pageSize cut recorded a otherwise := by
  rcases cut with _ | req
  · exact h
  · simp only [Option.toList_some, List.foldl_cons, List.foldl_nil, sysMprotect, Settled]
    split
    · rfl
    · exact h

theorem off_settled (hapart : vmas.Pairwise fun v w => Apart v.toVmArea w.toVmArea)
    (hvma : vma ∈ vmas) (ha : vma.Has a) (hrecorded : prot a = vma.prot) {off : Connection}
    {prot' : Protection}
    (h : protectTarget pageSize off (targetMprotectOff off vmas).2 prot = .returns prot') :
    prot' a = vma.prot ↔
      Settled pageSize (off.cut ((narrow vmas).map (request widen))) vma.prot a
        (vma ∉ off.arrived vmas) := by
  rw [targetMprotectOff, protectTarget_eq] at h
  rw [← Outcome.returns.inj h]
  apply settled_iff
  by_cases hmem : vma ∈ off.arrived vmas
  · rw [foldl_requests_of_mem hapart (arrived_subset off) hmem ha]
    have hnarrow := (List.mem_filter.mp (List.mem_of_mem_take hmem)).2
    exact iff_of_false (widen_ne (by simpa using hnarrow)) (not_not.mpr hmem)
  · rw [foldl_requests_of_notMem hapart (arrived_subset off) hvma ha hmem]
    exact iff_of_true hrecorded hmem

theorem on_settled (hapart : vmas.Pairwise fun v w => Apart v.toVmArea w.toVmArea)
    (hvma : vma ∈ vmas) (ha : vma.Has a) {on : Connection} {prot' : Protection}
    (h : protectTarget pageSize on (targetMprotectOn on vmas).2 prot = .returns prot') :
    prot' a = vma.prot ↔
      Settled pageSize (on.cut ((narrow vmas).map (request id))) vma.prot a
        (vma ∈ on.arrived vmas ∨ prot a = vma.prot) := by
  rw [targetMprotectOn, protectTarget_eq] at h
  rw [← Outcome.returns.inj h]
  apply settled_iff
  by_cases hmem : vma ∈ on.arrived vmas
  · rw [foldl_requests_of_mem hapart (arrived_subset on) hmem ha]
    exact iff_of_true rfl (Or.inl hmem)
  · rw [foldl_requests_of_notMem hapart (arrived_subset on) hvma ha hmem]
    exact (or_iff_right hmem).symm

end Effects

section Runs

variable {cfg : Config} {vmas : List (ProtectedArea cfg.pageSize)}
  {vma : ProtectedArea cfg.pageSize} {prot₀ prot₁ prot₂ : Protection} {env : CheckpointEnv}
  {scanned : Bool} {off on : Connection} {mem : Memory} {d : Download} {restoreEnv : RestoreEnv}
  {digest : List Byte → List Byte} {w : Writer} {st : Upload} {a : Nat}

theorem cmdCheckpoint_zero
    (h : cmdCheckpoint cfg env scanned off vmas mem prot₀ = .returns (0, d, prot₁)) :
    protectTarget cfg.pageSize off (targetMprotectOff off vmas).2 prot₀ = .returns prot₁ := by
  rw [cmdCheckpoint] at h
  split at h
  · cases h
  · obtain ⟨prot, hprot, hnext⟩ := Outcome.andThen_eq_returns.mp h
    obtain ⟨⟨ret, d'⟩, -, hlast⟩ := Outcome.andThen_eq_returns.mp hnext
    simp only at hlast
    split_ifs at hlast
    · cases hlast
      contradiction
    · cases hlast
      exact hprot

theorem cmdRestore_zero
    (h : cmdRestore cfg restoreEnv digest on vmas w prot₁ = .returns (0, st, prot₂)) :
    protectTarget cfg.pageSize on (targetMprotectOn on vmas).2 prot₁ = .returns prot₂ := by
  obtain ⟨⟨ret, st'⟩, -, hnext⟩ := Outcome.andThen_eq_returns.mp h
  simp only at hnext
  split_ifs at hnext
  · cases hnext
    contradiction
  · obtain ⟨prot, hprot, hlast⟩ := Outcome.andThen_eq_returns.mp hnext
    cases hlast
    exact hprot

theorem restored_at_iff (hapart : vmas.Pairwise fun v w => Apart v.toVmArea w.toVmArea)
    (hvma : vma ∈ vmas) (ha : vma.Has a) (hrecorded : prot₀ a = vma.prot)
    (hcheckpoint : cmdCheckpoint cfg env scanned off vmas mem prot₀ = .returns (0, d, prot₁))
    (hrestore : cmdRestore cfg restoreEnv digest on vmas w prot₁ = .returns (0, st, prot₂)) :
    prot₂ a = vma.prot ↔
      Settled cfg.pageSize (on.cut ((narrow vmas).map (request id))) vma.prot a
        (vma ∈ on.arrived vmas ∨
          Settled cfg.pageSize (off.cut ((narrow vmas).map (request widen))) vma.prot a
            (vma ∉ off.arrived vmas)) := by
  rw [on_settled hapart hvma ha (cmdRestore_zero hrestore),
    off_settled hapart hvma ha hrecorded (cmdCheckpoint_zero hcheckpoint)]

theorem throughFrom_le (io : Nat → Option Nat) (i n : Nat) : throughFrom io i n ≤ n := by
  induction n generalizing i with
  | zero => exact le_rfl
  | succ n ih =>
      rw [throughFrom]
      split
      · exact Nat.succ_le_succ (ih (i + 1))
      · exact Nat.zero_le _

theorem Connection.through_le (cd : Connection) (n : Nat) : cd.through n ≤ n := by
  rw [Connection.through]
  split
  · exact throughFrom_le _ _ _
  · exact Nat.zero_le _

theorem nodup_of_apart (hapart : vmas.Pairwise fun v w => Apart v.toVmArea w.toVmArea) :
    vmas.Nodup := by
  apply hapart.imp
  rintro v w hvw rfl
  have := v.start_lt_stop
  rcases hvw with hle | hle
  · omega
  · omega

/-- If no request is cut short, a restore gives the protections back exactly if it
gets as many requests through as the checkpoint did. -/
theorem restored_iff_through (hapart : vmas.Pairwise fun v w => Apart v.toVmArea w.toVmArea)
    (hrecorded : ∀ vma ∈ vmas, ∀ a, vma.Has a → prot₀ a = vma.prot)
    (hcheckpoint : cmdCheckpoint cfg env scanned off vmas mem prot₀ = .returns (0, d, prot₁))
    (hrestore : cmdRestore cfg restoreEnv digest on vmas w prot₁ = .returns (0, st, prot₂))
    (hoff : off.cut ((narrow vmas).map (request widen)) = none)
    (hon : on.cut ((narrow vmas).map (request id)) = none) :
    (∀ vma ∈ vmas, ∀ a, vma.Has a → prot₂ a = vma.prot) ↔
      off.through (narrow vmas).length ≤ on.through (narrow vmas).length := by
  have hat : ∀ vma ∈ vmas, ∀ a, vma.Has a →
      (prot₂ a = vma.prot ↔ vma ∈ on.arrived vmas ∨ vma ∉ off.arrived vmas) := by
    intro vma hvma a ha
    rw [restored_at_iff hapart hvma ha (hrecorded vma hvma a ha) hcheckpoint hrestore, hoff, hon]
    rfl
  constructor
  · intro h
    by_contra hlt
    have hbound : on.through (narrow vmas).length < (narrow vmas).length :=
      (not_le.mp hlt).trans_le (off.through_le _)
    -- the first mapping that is widened and not narrowed
    have hmem := List.mem_of_mem_filter (List.getElem_mem hbound)
    have hright := h _ hmem _ ⟨le_rfl, VmArea.start_lt_stop _⟩
    rcases (hat _ hmem _ ⟨le_rfl, VmArea.start_lt_stop _⟩).mp hright with hon | hoff
    · obtain ⟨i, hi, heq⟩ := List.mem_take_iff_getElem.mp hon
      have hnodup := (nodup_of_apart hapart).filter fun vma => !readWrite vma.prot
      have := (List.Nodup.getElem_inj_iff hnodup).mp heq
      omega
    · apply hoff
      apply List.mem_take_iff_getElem.mpr
      exact ⟨_, lt_min (not_le.mp hlt) hbound, rfl⟩
  · intro hle vma hvma a ha
    rw [hat vma hvma a ha]
    by_cases hmem : vma ∈ off.arrived vmas
    · exact Or.inl (List.take_subset_take_left _ hle hmem)
    · exact Or.inr hmem

end Runs

/-- Behind a successful checkpoint and restore the protection of a mapping is the
recorded one exactly if its request of `target_mprotect_on` arrives or that of
`target_mprotect_off` does not; where a request that is cut short reaches, its
own protection counts. -/
theorem protections_restored_iff (cfg : Config) (vmas : List (ProtectedArea cfg.pageSize))
    (hapart : vmas.Pairwise fun v w => Apart v.toVmArea w.toVmArea) (prot₀ : Protection)
    (hrecorded : ∀ vma ∈ vmas, ∀ a, vma.Has a → prot₀ a = vma.prot)
    (env : CheckpointEnv) (scanned : Bool) (off : Connection) (mem : Memory) (d : Download)
    (prot₁ : Protection)
    (hcheckpoint : cmdCheckpoint cfg env scanned off vmas mem prot₀ = .returns (0, d, prot₁))
    (restoreEnv : RestoreEnv) (digest : List Byte → List Byte) (on : Connection) (st : Upload)
    (prot₂ : Protection)
    (hrestore : cmdRestore cfg restoreEnv digest on vmas d.writer prot₁ =
      .returns (0, st, prot₂)) :
    (∀ vma ∈ vmas, ∀ a, vma.Has a → prot₂ a = vma.prot) ↔
      ∀ vma ∈ vmas, ∀ a, vma.Has a →
        Settled cfg.pageSize (on.cut ((narrow vmas).map (request id))) vma.prot a
          (vma ∈ on.arrived vmas ∨
            Settled cfg.pageSize (off.cut ((narrow vmas).map (request widen))) vma.prot a
              (vma ∉ off.arrived vmas)) := by
  apply forall₄_congr
  intro vma hvma a ha
  exact restored_at_iff hapart hvma ha (hrecorded vma hvma a ha) hcheckpoint hrestore

def readOnlyArea : ProtectedArea 4096 where
  start := 4096
  stop := 8192
  flags := flagAnon
  start_pos := fourKib_pos
  start_lt_stop := by decide
  stop_lt := by decide
  start_aligned := fourKib_dvd_self
  stop_aligned := by decide
  prot := protRead

def wholeConnection : Connection where
  connects := true
  commandSent := true
  io := fun _ => none
  stale := List.replicate 24 0
  stale_length := List.length_replicate

theorem protections_restored_readOnly :
    ∃ d prot₁ st prot₂,
      cmdCheckpoint (plainConfig false) (absentEnv true) true wholeConnection [readOnlyArea]
        (fun _ => 0) (fun _ => protRead) = .returns (0, d, prot₁) ∧
      cmdRestore (plainConfig false) quietEnv id wholeConnection [readOnlyArea] d.writer prot₁ =
        .returns (0, st, prot₂) ∧
      ∀ vma ∈ [readOnlyArea], ∀ a, vma.Has a → prot₂ a = vma.prot := by
  refine ⟨_, _, _, _, rfl, rfl, ?_⟩
  refine (protections_restored_iff (plainConfig false) [readOnlyArea]
    (List.pairwise_singleton _ _) (fun _ => protRead) ?_ (absentEnv true) true wholeConnection
    (fun _ => 0) _ _ rfl quietEnv id wholeConnection _ _ rfl).mpr ?_
  · intro vma hvma a _
    rw [List.mem_singleton.mp hvma]
    rfl
  · intro vma hvma a _
    rw [List.mem_singleton.mp hvma]
    exact Or.inl List.mem_cons_self

theorem failedConnection_leaves_writable :
    ∃ d prot₁ st prot₂,
      cmdCheckpoint (plainConfig false) (absentEnv true) true wholeConnection [readOnlyArea]
        (fun _ => 0) (fun _ => protRead) = .returns (0, d, prot₁) ∧
      cmdRestore (plainConfig false) quietEnv id { wholeConnection with connects := false }
        [readOnlyArea] d.writer prot₁ = .returns (0, st, prot₂) ∧
      prot₂ 4096 = protRead ||| protWrite ∧ readOnlyArea.prot = protRead :=
  ⟨_, _, _, _, rfl, rfl, rfl, rfl⟩

end Memcr.Protections
