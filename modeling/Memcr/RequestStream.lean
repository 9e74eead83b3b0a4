import Mathlib.Data.List.Infix
import Memcr.CheckpointMemory
import Memcr.GuardedRuns
import Memcr.PagemapReply
import Memcr.Pipes
import Memcr.RegionRequests

/-!
A `CMD_GET_PAGES` connection at the level of single transfers: the `__read` and
`__write` loops of memcr.c on one end, the `read` and `write` loops of
parasite.c under `cmd_get_pages` on the other. Both processes stay alive; the
kernel picks how many bytes each call moves and how often memcr is sent round
its loop with `EAGAIN`.
-/

namespace Memcr.RequestStream

open Memcr.ByteWords
open Memcr.ByteMemory
open Memcr.CheckpointMemory
open Memcr.DumpFormat
open Memcr.PageSelection
open Memcr.PagemapReply
open Memcr.Pipes
open Memcr.RegionRequests

/-- What the two processes do not decide: the page size, `madvise` and the room in the
socket. -/
structure Kernel where
  pageSize : Nat
  /-- The page map after `MADV_DONTNEED` on a region. -/
  dropEntries : PageTable → VmRegion → PageTable
  /-- How many bytes wait in the socket at most, for each direction. -/
  requestRoom : Nat
  replyRoom : Nat
  requestRoom_pos : 0 < requestRoom
  replyRoom_pos : 0 < replyRoom

/-- The memory and the page map that the parasite reads from. -/
structure Target where
  mem : Memory
  table : PageTable

/-- What a request asks the parasite to send. -/
def requested (t : Target) : VmRegionReq → List Byte
  | .mem vmr tx _ => if tx then slice t.mem vmr.addr.toNat vmr.len.toNat else []
  | .pagemap seek len _ => slice (pagemapFile t.table) seek.toNat len.toNat

/-- The byte strings that `cmd_get_pages` hands to `write`, leaving out empty
ones. The size is passed as an `int`. -/
def chunks (t : Target) : VmRegionReq → List (List Byte)
  | .mem vmr tx _ =>
      if tx && decide (0 < toInt32 vmr.len.toNat) then
        [slice t.mem vmr.addr.toNat (toInt32 vmr.len.toNat).toNat]
      else []
  | .pagemap seek len _ => pagemapReply t.table seek.toNat len.toNat

/-- The end of a round of `cmd_get_pages`. -/
def advise (kernel : Kernel) (t : Target) : VmRegionReq → Target
  | .mem vmr _ _ =>
      { mem := madviseDontneed kernel.pageSize t.table t.mem vmr
        table := kernel.dropEntries t.table vmr }
  | .pagemap _ _ _ => t

/-- Where memcr is in `get_vma_pages` and `get_vm_region`. -/
inductive MemcrPhase where
  | command
  /-- In `__write` of the first request of `todo`. -/
  | sending (off : Nat)
  /-- In `__read` of its reply. -/
  | receiving (buf : List Byte)
  | closed
  /-- The assertion of `__read` has failed. -/
  | aborted
  deriving DecidableEq

/-- memcr's end of the connection. -/
structure MemcrSide where
  phase : MemcrPhase
  todo : List VmRegionReq
  /-- What has been read for each request that is done with. -/
  received : List (List Byte)

/-- Where the parasite is in `cmd_get_pages`. -/
inductive ParasitePhase where
  | command
  | reading (buf : List Byte)
  /-- What remains to be written for the request. -/
  | serving (req : VmRegionReq) (left : List (List Byte))
  | finished
  deriving DecidableEq

/-- The parasite's end of the connection. -/
structure ParasiteSide where
  phase : ParasitePhase
  decoded : List VmRegionReq
  target : Target

/-- What the parasite has read of a request that it has not got whole. -/
def ParasiteSide.part (p : ParasiteSide) : List Byte :=
  match p.phase with
  | .reading buf => buf
  | _ => []

/-- A `CMD_GET_PAGES` connection. -/
structure Session where
  requests : Pipe Byte
  replies : Pipe Byte
  memcr : MemcrSide
  parasite : ParasiteSide

def Session.start (t : Target) (reqs : List VmRegionReq) : Session where
  requests := Pipe.empty
  replies := Pipe.empty
  memcr := { phase := .command, todo := reqs, received := [] }
  parasite := { phase := .command, decoded := [], target := t }

/-- `__write` of a request has come to `off`. -/
def MemcrSide.sendOn (m : MemcrSide) (req : VmRegionReq) (rest : List VmRegionReq) (off : Nat) :
    MemcrSide :=
  if off < vmRegionReqSize then { m with phase := .sending off }
  else if req.answered then
    -- assert(count != 0)
    { m with phase := if req.len = 0 then .aborted else .receiving [] }
  else { phase := .sending 0, todo := rest, received := m.received ++ [[]] }

/-- `__read` of a reply has filled `buf`. -/
def MemcrSide.receiveOn (m : MemcrSide) (req : VmRegionReq) (rest : List VmRegionReq)
    (buf : List Byte) : MemcrSide :=
  if buf.length < req.len then { m with phase := .receiving buf }
  else { phase := .sending 0, todo := rest, received := m.received ++ [buf] }

/-- `read` of a request has filled `buf`. -/
def ParasiteSide.readOn (p : ParasiteSide) (buf : List Byte) : ParasiteSide :=
  if buf.length < vmRegionReqSize then { p with phase := .reading buf }
  else
    let req := VmRegionReq.ofBytes buf
    { p with phase := .serving req (chunks p.target req), decoded := p.decoded ++ [req] }

/-- A call of `__read` or `__write` that moves `n` bytes. -/
def memcrTransfer (kernel : Kernel) (s : Session) (n : Nat) : Option Session :=
  match s.memcr.phase, s.memcr.todo with
  | .command, _ =>
      if n = 1 ∧ s.requests.pending.length + n ≤ kernel.requestRoom then
        some { s with
          requests := s.requests.push [MemcrCmd.cmdGetPages.byte]
          memcr := { s.memcr with phase := .sending 0 } }
      else none
  | .sending off, req :: rest =>
      if 0 < n ∧ off + n ≤ vmRegionReqSize ∧
          s.requests.pending.length + n ≤ kernel.requestRoom then
        some { s with
          requests := s.requests.push ((req.bytes.drop off).take n)
          memcr := s.memcr.sendOn req rest (off + n) }
      else none
  | .receiving buf, req :: rest =>
      if 0 < n ∧ buf.length + n ≤ req.len ∧ n ≤ s.replies.pending.length then
        some { s with
          replies := s.replies.pull n
          memcr := s.memcr.receiveOn req rest (buf ++ s.replies.pending.take n) }
      else none
  | _, _ => none

/-- The command byte is read by `handle_connection`. -/
def parasiteTransfer (kernel : Kernel) (s : Session) (n : Nat) : Option Session :=
  match s.parasite.phase with
  | .command =>
      if n = 1 ∧ s.requests.pending.take n = [MemcrCmd.cmdGetPages.byte] then
        some { s with
          requests := s.requests.pull n
          parasite := { s.parasite with phase := .reading [] } }
      else none
  | .reading buf =>
      if 0 < n ∧ buf.length + n ≤ vmRegionReqSize ∧ n ≤ s.requests.pending.length then
        some { s with
          requests := s.requests.pull n
          parasite := s.parasite.readOn (buf ++ s.requests.pending.take n) }
      else none
  | .serving req (chunk :: rest) =>
      if 0 < n ∧ n ≤ chunk.length ∧ s.replies.pending.length + n ≤ kernel.replyRoom then
        some { s with
          replies := s.replies.push (chunk.take n)
          parasite := { s.parasite with
            phase := .serving req (if n < chunk.length then chunk.drop n :: rest else rest) } }
      else none
  | _ => none

/-- Both processes stay alive; the kernel picks how many bytes each call moves and how
often memcr is sent round its loop with `EAGAIN`. -/
inductive Choice where
  /-- A call of memcr that fails with `EAGAIN`, the parasite being alive. -/
  | again
  /-- A call of memcr that moves `n` bytes. -/
  | memcr (n : Nat)
  | close
  /-- A call of the parasite that moves `n` bytes. -/
  | parasite (n : Nat)
  /-- A `sys_read` of the parasite that returns 0. -/
  | endOfFile
  | madvise
  deriving DecidableEq

/-- The other end of the connection is gone. -/
def MemcrPhase.hungUp : MemcrPhase → Bool
  | .closed | .aborted => true
  | _ => false

/-- One call of one of the two processes. -/
def step (kernel : Kernel) (s : Session) : Choice → Option Session
  | .again => if s.memcr.phase.hungUp then none else some s
  | .memcr n => memcrTransfer kernel s n
  | .close =>
      if s.memcr.phase = .sending 0 ∧ s.memcr.todo = [] then
        some { s with memcr := { s.memcr with phase := .closed } }
      else none
  | .parasite n => parasiteTransfer kernel s n
  | .endOfFile =>
      if s.parasite.phase = .reading [] ∧ s.requests.pending = [] ∧
          s.memcr.phase.hungUp = true then
        some { s with parasite := { s.parasite with phase := .finished } }
      else none
  | .madvise =>
      match s.parasite.phase with
      | .serving req [] =>
          some { s with
            parasite := { s.parasite with
              phase := .reading []
              target := advise kernel s.parasite.target req } }
      | _ => none

/-- The target once the parasite is done with the requests. -/
def after (kernel : Kernel) (t : Target) (reqs : List VmRegionReq) : Target :=
  reqs.foldl (advise kernel) t

/-- What each request of the list asks for when its turn comes. -/
def replies (kernel : Kernel) : Target → List VmRegionReq → List (List Byte)
  | _, [] => []
  | t, req :: rest => requested t req :: replies kernel (advise kernel t req) rest

section Replies

variable {kernel : Kernel} {t : Target} {reqs past : List VmRegionReq} {req : VmRegionReq}

theorem requested_length (t : Target) (req : VmRegionReq) :
    (requested t req).length = req.replyLength := by
  cases req with
  | mem vmr tx slack =>
      cases tx <;> simp [requested, VmRegionReq.replyLength, VmRegionReq.answered, VmRegionReq.len]
  | pagemap seek len slack =>
      simp [requested, VmRegionReq.replyLength, VmRegionReq.answered, VmRegionReq.len]

theorem replies_append (more : List VmRegionReq) :
    replies kernel t (past ++ more) =
      replies kernel t past ++ replies kernel (after kernel t past) more := by
  induction past generalizing t with
  | nil => rfl
  | cons req rest ih => simp [replies, after, ih]

theorem replies_snoc :
    replies kernel t (past ++ [req]) =
      replies kernel t past ++ [requested (after kernel t past) req] :=
  replies_append [req]

theorem after_snoc :
    after kernel t (past ++ [req]) = advise kernel (after kernel t past) req := by
  simp [after]

theorem replies_map_length :
    (replies kernel t reqs).map List.length = reqs.map VmRegionReq.replyLength := by
  induction reqs generalizing t with
  | nil => rfl
  | cons req rest ih => simp [replies, requested_length, ih]

theorem replies_mono (hpast : past <+: reqs) :
    replies kernel t past <+: replies kernel t reqs := by
  obtain ⟨more, rfl⟩ := hpast
  rw [replies_append]
  exact List.prefix_append _ _

theorem chunks_flatten (hlen : req.len < 2 ^ 31) : (chunks t req).flatten = requested t req := by
  cases req with
  | mem vmr tx slack =>
      have hint : toInt32 vmr.len.toNat = vmr.len.toNat := toInt32_of_lt hlen
      cases tx with
      | false => rfl
      | true =>
          rcases Nat.eq_zero_or_pos vmr.len.toNat with hzero | hpos
          · rw [hzero] at hint
            simp [chunks, requested, hint, hzero, slice]
          · simp [chunks, requested, hint, hpos]
  | pagemap seek len slack => exact pagemapReply_flatten t.table seek.toNat len.toNat

theorem chunks_ne_nil {chunk : List Byte} (hchunk : chunk ∈ chunks t req) : chunk ≠ [] := by
  cases req with
  | mem vmr tx slack =>
      simp only [chunks] at hchunk
      split at hchunk
      · rename_i hpos
        have hsize : 0 < toInt32 vmr.len.toNat := by simpa using (Bool.and_eq_true_iff.mp hpos).2
        obtain rfl := List.mem_singleton.mp hchunk
        intro hnil
        have hlength := congrArg List.length hnil
        rw [slice_length, List.length_nil] at hlength
        omega
      · simp at hchunk
  | pagemap seek len slack => exact replyLoop_ne_nil t.table hchunk

end Replies

section Transfers

variable {kernel : Kernel} {s t : Session} {n : Nat}

theorem memcrTransfer_cases (h : memcrTransfer kernel s n = some t) :
    (s.memcr.phase = .command ∧ n = 1 ∧
      t = { s with
        requests := s.requests.push [MemcrCmd.cmdGetPages.byte]
        memcr := { s.memcr with phase := .sending 0 } }) ∨
    (∃ off req rest, s.memcr.phase = .sending off ∧ s.memcr.todo = req :: rest ∧
      0 < n ∧ off + n ≤ vmRegionReqSize ∧
      t = { s with
        requests := s.requests.push ((req.bytes.drop off).take n)
        memcr := s.memcr.sendOn req rest (off + n) }) ∨
    (∃ buf req rest, s.memcr.phase = .receiving buf ∧ s.memcr.todo = req :: rest ∧
      0 < n ∧ buf.length + n ≤ req.len ∧ n ≤ s.replies.pending.length ∧
      t = { s with
        replies := s.replies.pull n
        memcr := s.memcr.receiveOn req rest (buf ++ s.replies.pending.take n) }) := by
  unfold memcrTransfer at h
  split at h
  · rename_i hphase
    split at h
    · rename_i hguard
      exact Or.inl ⟨hphase, hguard.1, (Option.some.inj h).symm⟩
    · cases h
  · rename_i off req rest hphase htodo
    split at h
    · rename_i hguard
      exact Or.inr (Or.inl ⟨off, req, rest, hphase, htodo, hguard.1, hguard.2.1,
        (Option.some.inj h).symm⟩)
    · cases h
  · rename_i buf req rest hphase htodo
    split at h
    · rename_i hguard
      exact Or.inr (Or.inr ⟨buf, req, rest, hphase, htodo, hguard.1, hguard.2.1, hguard.2.2,
        (Option.some.inj h).symm⟩)
    · cases h
  · cases h

theorem parasiteTransfer_cases (h : parasiteTransfer kernel s n = some t) :
    (s.parasite.phase = .command ∧ n = 1 ∧
      s.requests.pending.take n = [MemcrCmd.cmdGetPages.byte] ∧
      t = { s with
        requests := s.requests.pull n
        parasite := { s.parasite with phase := .reading [] } }) ∨
    (∃ buf, s.parasite.phase = .reading buf ∧
      0 < n ∧ buf.length + n ≤ vmRegionReqSize ∧ n ≤ s.requests.pending.length ∧
      t = { s with
        requests := s.requests.pull n
        parasite := s.parasite.readOn (buf ++ s.requests.pending.take n) }) ∨
    (∃ req chunk rest, s.parasite.phase = .serving req (chunk :: rest) ∧
      0 < n ∧ n ≤ chunk.length ∧
      t = { s with
        replies := s.replies.push (chunk.take n)
        parasite := { s.parasite with
          phase := .serving req (if n < chunk.length then chunk.drop n :: rest else rest) } }) := by
  unfold parasiteTransfer at h
  split at h
  · rename_i hphase
    split at h
    · rename_i hguard
      exact Or.inl ⟨hphase, hguard.1, hguard.2, (Option.some.inj h).symm⟩
    · cases h
  · rename_i buf hphase
    split at h
    · rename_i hguard
      exact Or.inr (Or.inl ⟨buf, hphase, hguard.1, hguard.2.1, hguard.2.2,
        (Option.some.inj h).symm⟩)
    · cases h
  · rename_i req chunk rest hphase
    split at h
    · rename_i hguard
      exact Or.inr (Or.inr ⟨req, chunk, rest, hphase, hguard.1, hguard.2.1,
        (Option.some.inj h).symm⟩)
    · cases h
  · cases h

end Transfers

end Memcr.RequestStream
