import Memcr.CallLogs
import Memcr.HeaderStreams
import Memcr.PagemapReply
import Memcr.RegionRequests

/-!
A connection to the parasite as it is served from its first byte to the end of
file: `handle_connection` and the request loops of parasite.c over `read` and
`write`. The other end may close the connection at any byte, and the kernel picks
how many bytes each call moves and which calls fail. `read` returns what it has
got when the file ends, and the loops take anything but 0 for a whole request.
-/

namespace Memcr.ParasiteCommands

open Memcr.ByteMemory
open Memcr.ByteWords
open Memcr.CallLogs
open Memcr.CallLogs.Logged
open Memcr.CallOutcome
open Memcr.DumpFormat
open Memcr.HeaderStreams
open Memcr.PagemapReply
open Memcr.RegionRequests

/-- What the parasite does to the target. -/
inductive Action where
  | mprotect (req : VmMprotect)
  | madvise (vmr : VmRegion)
  | store (addr : Nat) (data : List Byte)
  deriving DecidableEq

/-- The results of the system calls, by the number of calls made before. -/
structure Kernel where
  /-- How many bytes a `sys_read` of the connection gets if as many are there;
  none if it fails. -/
  received : Nat → Option Nat
  /-- How many bytes a `sys_write` moves, likewise. -/
  sent : Nat → Option Nat
  mprotect : Nat → Int
  madvise : Nat → Int
  /-- The descriptor of `/proc/self/pagemap`. -/
  fpage : Int
  lseek : Nat → BitVec 64 → BitVec 64
  readPagemap : Nat → Nat → Int

structure Kernel.Succeeds (kernel : Kernel) : Prop where
  received : ∀ k, kernel.received k ≠ none
  sent : ∀ k, kernel.sent k ≠ none
  mprotect : ∀ k, 0 ≤ kernel.mprotect k
  madvise : ∀ k, 0 ≤ kernel.madvise k
  fpage : 0 ≤ kernel.fpage
  lseek : ∀ k seek, kernel.lseek k seek = seek
  readPagemap : ∀ k len, kernel.readPagemap k len = len

/-- The parasite's end of a connection. -/
structure Conn where
  /-- What is still to be read. The file ends behind it. -/
  unread : List Byte
  calls : Nat
  deriving DecidableEq

def Conn.call (c : Conn) : Conn := { c with calls := c.calls + 1 }

section Transfers

/-- What a `sys_read` gets, of at most `size` bytes. -/
def sysRead (kernel : Kernel) (size : Nat) (c : Conn) : Option (List Byte × Conn) :=
  match kernel.received c.calls with
  | none => none
  | some n =>
      let piece := c.unread.take (max 1 (min n size))
      some (piece, ⟨c.unread.drop piece.length, c.calls + 1⟩)

/-- The loop of `read`. At the end of the file it returns what it has got. -/
def readLoop (kernel : Kernel) : Nat → Nat → Conn → Logged Byte Conn
  | 0, size, c => if size = 0 then done c else ⟨[], .hangs⟩
  | rounds + 1, size, c =>
      if size = 0 then done c
      else
        match sysRead kernel size c with
        | none => abort
        | some (piece, c) =>
            if piece.length = 0 then done c
            else after piece (readLoop kernel rounds (size - piece.length) c)

/-- `read`, with what it puts into the buffer. Every round but the last moves a
byte at least. -/
def read (kernel : Kernel) (size : Int) (c : Conn) : Logged Byte Conn :=
  readLoop kernel size.toNat size.toNat c

/-- The loop of `write`. -/
def writeLoop (kernel : Kernel) : Nat → Nat → Conn → Logged Action Conn
  | 0, size, c => if size = 0 then done c else ⟨[], .hangs⟩
  | rounds + 1, size, c =>
      if size = 0 then done c
      else
        match kernel.sent c.calls with
        | none => abort
        | some n => writeLoop kernel rounds (size - max 1 (min n size)) c.call

/-- `write`, leaving out what it sends. -/
def write (kernel : Kernel) (size : Int) (c : Conn) : Logged Action Conn :=
  writeLoop kernel size.toNat size.toNat c

end Transfers

section Commands

/-- The loop of `cmd_mprotect`, `cmd_get_pages` and `cmd_set_pages`. A request is
read over what `req` holds. -/
def serve (kernel : Kernel) (size : Nat)
    (body : List Byte → Conn → Logged Action (List Byte × Conn)) :
    Nat → List Byte → Conn → Logged Action Int
  | 0, _, _ => ⟨[], .hangs⟩
  | rounds + 1, req, c =>
      ((read kernel size c).deliver fun _ => []).andThen fun (got, c) =>
        if got.length = 0 then done 0
        else
          (body (got ++ req.drop got.length) c).andThen fun (req, c) =>
            serve kernel size body rounds req c

/-- One request of `cmd_mprotect`. -/
def mprotectRequest (kernel : Kernel) (req : List Byte) (c : Conn) :
    Logged Action (List Byte × Conn) :=
  after [.mprotect (VmMprotect.ofBytes req)]
    (if kernel.mprotect c.calls < 0 then abort else done (req, c.call))

/-- The loop of `cmd_get_pages` that sends the page map in pieces of its buffer. -/
def pagemapLoop (kernel : Kernel) : Nat → Nat → Conn → Logged Action Conn
  | 0, len, c => if len = 0 then done c else ⟨[], .hangs⟩
  | rounds + 1, len, c =>
      if len = 0 then done c
      else
        let readLen := if pagemapBufSize < len then pagemapBufSize else len
        if kernel.readPagemap c.calls readLen ≠ readLen then
          (write kernel 1 c.call).andThen fun _ => abort
        else
          (write kernel readLen c.call).andThen fun c =>
            pagemapLoop kernel rounds (len - readLen) c

/-- The branch of `cmd_get_pages` for the page map. -/
def sendPagemap (kernel : Kernel) (seek len : BitVec 64) (c : Conn) : Logged Action Conn :=
  if kernel.fpage < 0 then abort
  else if kernel.lseek c.calls seek ≠ seek then
    (write kernel 1 c.call).andThen fun _ => abort
  else pagemapLoop kernel len.toNat len.toNat c.call

/-- `req` when `req.u.pagemap.len` has been counted down. -/
def lenCleared (req : List Byte) : List Byte := req.take 8 ++ (toBytes 8 0 ++ req.drop 16)

/-- One request of `cmd_get_pages`. -/
def getPagesRequest (kernel : Kernel) (req : List Byte) (c : Conn) :
    Logged Action (List Byte × Conn) :=
  match VmRegionReq.ofBytes req with
  | .pagemap seek len _ =>
      (sendPagemap kernel seek len c).andThen fun c => done (lenCleared req, c)
  | .mem vmr tx _ =>
      (if tx then write kernel (toInt32 vmr.len.toNat) c else done c).andThen fun c =>
        after [.madvise vmr] (if kernel.madvise c.calls < 0 then abort else done (req, c.call))

/-- The `read` of the contents writes to the target, unless it gets nothing. -/
def stored (addr : Nat) (data : List Byte) : List Action :=
  if data = [] then [] else [.store addr data]

/-- One request of `cmd_set_pages`. -/
def setPagesRequest (kernel : Kernel) (req : List Byte) (c : Conn) :
    Logged Action (List Byte × Conn) :=
  let vmr := VmRegion.ofBytes req
  ((read kernel (toInt32 vmr.len.toNat) c).deliver (stored vmr.addr.toNat)).andThen fun (_, c) =>
    done (req, c)

/-- The variable `req` is what `stack` holds to begin with. -/
def serveAll (kernel : Kernel) (size : Nat)
    (body : List Byte → Conn → Logged Action (List Byte × Conn)) (stack : Memory) (c : Conn) :
    Logged Action Int :=
  serve kernel size body (c.unread.length + 1) (slice stack 0 size) c

/-- `cmd_mprotect` -/
def cmdMprotect (kernel : Kernel) : Memory → Conn → Logged Action Int :=
  serveAll kernel vmMprotectSize (mprotectRequest kernel)

/-- `cmd_get_pages` -/
def cmdGetPages (kernel : Kernel) : Memory → Conn → Logged Action Int :=
  serveAll kernel vmRegionReqSize (getPagesRequest kernel)

/-- `cmd_set_pages` -/
def cmdSetPages (kernel : Kernel) : Memory → Conn → Logged Action Int :=
  serveAll kernel vmRegionReqSize (setPagesRequest kernel)

/-- `handle_connection` -/
def handleConnection (kernel : Kernel) (stack : Memory) (c : Conn) : Logged Action Int :=
  match sysRead kernel 1 c with
  | some ([cmd], c) =>
      match MemcrCmd.ofByte? cmd with
      | some .cmdMprotect => cmdMprotect kernel stack c
      | some .cmdGetPages => cmdGetPages kernel stack c
      | some .cmdSetPages => cmdSetPages kernel stack c
      | some .cmdEnd => done 0
      | none => abort
  | _ => abort

end Commands

section Requests

def mprotected (header _ : List Byte) : List Action := [.mprotect (VmMprotect.ofBytes header)]

def advised (header _ : List Byte) : List Action :=
  match VmRegionReq.ofBytes header with
  | .mem vmr _ _ => [.madvise vmr]
  | .pagemap _ _ _ => []

def uploaded (header body : List Byte) : List Action :=
  stored (VmRegion.ofBytes header).addr.toNat body

def actionsOf (acts : List Byte → List Byte → List Action) (requests : List (Record Byte)) :
    List Action :=
  requests.flatMap fun r => acts r.header r.body

/-- `req.u.mem.vmr.len` -/
def regionLength (header : List Byte) : Nat := (VmRegion.ofBytes header).len.toNat

/-- The first list is what an interruption leaves of the second. -/
inductive Begins : List Action → List Action → Prop
  | nil (whole : List Action) : Begins [] whole
  | cons (action : Action) {done whole : List Action} (h : Begins done whole) :
      Begins (action :: done) (action :: whole)
  | cut {addr : Nat} {part data : List Byte} (h : part <+: data) (whole : List Action) :
      Begins [.store addr part] (.store addr data :: whole)

namespace Begins

variable {done whole : List Action}

theorem append_right (h : Begins done whole) (more : List Action) :
    Begins done (whole ++ more) := by
  induction h with
  | nil whole => exact .nil _
  | cons action _ ih => exact .cons action ih
  | cut h whole => exact .cut h _

theorem append_left (h : Begins done whole) (before : List Action) :
    Begins (before ++ done) (before ++ whole) := by
  induction before with
  | nil => exact h
  | cons action before ih => exact .cons action ih

theorem refl (whole : List Action) : Begins whole whole := by
  simpa using append_left (.nil []) whole

end Begins

theorem begins_stored {part data : List Byte} (h : part <+: data) (addr : Nat) :
    Begins (stored addr part) (stored addr data) := by
  rcases part with _ | ⟨b, part⟩
  · exact .nil _
  · rcases data with _ | ⟨b', data⟩
    · simp at h
    · exact .cut h []

end Requests

section Reading

variable {kernel : Kernel}

theorem sysRead_cases (size : Nat) (c : Conn) :
    (sysRead kernel size c = none ∧ ¬ kernel.Succeeds) ∨
      ∃ n piece, sysRead kernel size c = some (piece, ⟨c.unread.drop piece.length, n⟩) ∧
        piece = c.unread.take piece.length ∧ (0 < size → piece.length ≤ size) ∧
        (piece = [] → c.unread = []) := by
  rcases hreceived : kernel.received c.calls with _ | n
  · refine Or.inl ⟨by simp [sysRead, hreceived], ?_⟩
    intro hkernel
    exact hkernel.received _ hreceived
  · refine Or.inr ⟨c.calls + 1, c.unread.take (max 1 (min n size)), by simp [sysRead, hreceived],
      by simp [← List.take_eq_take_min], ?_, ?_⟩
    · intro hsize
      rw [List.length_take]
      omega
    · intro hnil
      rcases List.take_eq_nil_iff.mp hnil with hzero | hempty
      · omega
      · exact hempty

theorem readLoop_ends {rounds size : Nat} (hrounds : size ≤ rounds) (c : Conn) :
    Ends (fun got c' => got = c.unread.take size ∧ c'.unread = c.unread.drop size)
      (fun got => ¬ kernel.Succeeds ∧ got <+: c.unread.take size)
      (readLoop kernel rounds size c) := by
  induction rounds generalizing size c with
  | zero =>
      obtain rfl : size = 0 := by omega
      exact .returns ⟨rfl, rfl⟩
  | succ rounds ih =>
      rw [readLoop]
      split
      · rename_i hzero
        subst hzero
        exact .returns ⟨rfl, rfl⟩
      · rename_i hsize
        rcases @sysRead_cases kernel size c with
          ⟨hnone, hfails⟩ | ⟨n, piece, hpiece, htake, hle, hend⟩
        · rw [hnone]
          exact .aborts ⟨hfails, List.nil_prefix⟩
        · simp only [hpiece]
          split
          · rename_i hnil
            have hempty := hend (List.eq_nil_of_length_eq_zero hnil)
            exact .returns (by simp [hempty])
          · have hfits := hle (by omega)
            have hwhole : c.unread.take size =
                piece ++ (c.unread.drop piece.length).take (size - piece.length) := by
              conv_lhs => rw [show size = piece.length + (size - piece.length) by omega]
              rw [List.take_add, ← htake]
            have hrest : c.unread.drop size =
                (c.unread.drop piece.length).drop (size - piece.length) := by
              rw [List.drop_drop, show piece.length + (size - piece.length) = size by omega]
            apply Ends.after
            refine (ih (by omega) _).mono ?_ ?_
            · rintro got c' ⟨hgot, hunread⟩
              rw [hgot, hunread, hwhole, hrest]
              exact ⟨rfl, rfl⟩
            · rintro got ⟨hfails, hgot⟩
              rw [hwhole]
              exact ⟨hfails, (List.prefix_append_right_inj piece).mpr hgot⟩

theorem read_ends (kernel : Kernel) (size : Int) (c : Conn) :
    Ends (fun got c' => got = c.unread.take size.toNat ∧ c'.unread = c.unread.drop size.toNat)
      (fun got => ¬ kernel.Succeeds ∧ got <+: c.unread.take size.toNat) (read kernel size c) :=
  readLoop_ends le_rfl c

/-- The call does nothing to the target and leaves the connection as it was. -/
def Quiet (kernel : Kernel) (c : Conn) : Logged Action Conn → Prop :=
  Ends (fun log c' => log = [] ∧ c'.unread = c.unread) fun log => ¬ kernel.Succeeds ∧ log = []

theorem quiet_done (c : Conn) : Quiet kernel c (done c) := .returns ⟨rfl, rfl⟩

theorem Quiet.andThen {c : Conn} {call : Logged Action Conn} {next : Conn → Logged Action Conn}
    (h : Quiet kernel c call) (hnext : ∀ c', c'.unread = c.unread → Quiet kernel c (next c')) :
    Quiet kernel c (call.andThen next) := by
  refine Ends.andThen h (fun _ hcut => hcut) ?_
  rintro _ c' ⟨rfl, hc'⟩
  exact hnext c' hc'

theorem writeLoop_quiet {rounds size : Nat} (hrounds : size ≤ rounds) {c c' : Conn}
    (hc : c'.unread = c.unread) : Quiet kernel c (writeLoop kernel rounds size c') := by
  induction rounds generalizing size c' with
  | zero =>
      obtain rfl : size = 0 := by omega
      exact .returns ⟨rfl, hc⟩
  | succ rounds ih =>
      rw [writeLoop]
      split
      · exact .returns ⟨rfl, hc⟩
      · rcases hsent : kernel.sent c'.calls with _ | n
        · exact .aborts ⟨fun hkernel => hkernel.sent _ hsent, rfl⟩
        · exact ih (by omega) hc

theorem write_quiet (size : Int) {c c' : Conn} (hc : c'.unread = c.unread) :
    Quiet kernel c (write kernel size c') := writeLoop_quiet le_rfl hc

theorem report_quiet (hfails : ¬ kernel.Succeeds) {c c' : Conn} (hc : c'.unread = c.unread) :
    Quiet kernel c ((write kernel 1 c').andThen fun _ => abort) :=
  (write_quiet 1 hc).andThen fun _ _ => .aborts ⟨hfails, rfl⟩

theorem pagemapLoop_quiet {rounds len : Nat} (hrounds : len ≤ rounds) {c c' : Conn}
    (hc : c'.unread = c.unread) : Quiet kernel c (pagemapLoop kernel rounds len c') := by
  induction rounds generalizing len c' with
  | zero =>
      obtain rfl : len = 0 := by omega
      exact .returns ⟨rfl, hc⟩
  | succ rounds ih =>
      rw [pagemapLoop]
      split
      · exact .returns ⟨rfl, hc⟩
      · rename_i hlen
        obtain ⟨readLen, hread, hpos⟩ : ∃ readLen,
            (if pagemapBufSize < len then pagemapBufSize else len) = readLen ∧ 0 < readLen := by
          refine ⟨_, rfl, ?_⟩
          split
          · decide
          · omega
        simp only [hread]
        split
        · rename_i hshort
          exact report_quiet (fun hkernel => hshort (hkernel.readPagemap _ _)) hc
        · have hcall : c'.call.unread = c.unread := hc
          refine (write_quiet _ hcall).andThen ?_
          intro c'' hc''
          apply ih
          · omega
          · exact hc''

theorem sendPagemap_quiet (seek len : BitVec 64) (c : Conn) :
    Quiet kernel c (sendPagemap kernel seek len c) := by
  rw [sendPagemap]
  split
  · rename_i hfpage
    exact .aborts ⟨fun hkernel => absurd hkernel.fpage (by omega), rfl⟩
  · split
    · rename_i hseek
      exact report_quiet (fun hkernel => hseek (hkernel.lseek _ _)) rfl
    · exact pagemapLoop_quiet le_rfl rfl

end Reading

section Serving

/-- What a command makes of its requests: how long they are, what it does for one
and what it leaves of it in `req`. -/
structure Handler where
  size : Nat
  size_pos : 0 < size
  bodyLength : List Byte → Nat
  acts : List Byte → List Byte → List Action
  leaves : List Byte → List Byte

namespace Handler

/-- What the complete requests of the input do to the target. -/
def requests (handler : Handler) (input : List Byte) : List Action :=
  actionsOf handler.acts (records handler.size handler.bodyLength input)

/-- What `req` holds behind the last complete request. -/
def held (handler : Handler) (req input : List Byte) : List Byte :=
  (records handler.size handler.bodyLength input).foldl (fun _ r => handler.leaves r.header) req

/-- The request that a part of one is taken for. -/
def mixed (handler : Handler) (req input : List Byte) : List Byte :=
  let part := leftover handler.size handler.bodyLength input
  part ++ (handler.held req input).drop part.length

/-- What a request does that is cut short. The parasite completes it with what its
buffer holds from the request before. -/
def stray (handler : Handler) (req input : List Byte) : List Action :=
  if leftover handler.size handler.bodyLength input = [] then []
  else handler.acts (handler.mixed req input) []

/-- What a whole connection does to the target. -/
def carriedOut (handler : Handler) (req input : List Byte) : List Action :=
  handler.requests input ++ handler.stray req input

variable {handler : Handler} {req input : List Byte}

theorem stray_eq_nil_iff : handler.stray req input = [] ↔
    leftover handler.size handler.bodyLength input = [] ∨
      handler.acts (handler.mixed req input) [] = [] := by
  rw [stray]
  split
  · rename_i hnone
    exact iff_of_true rfl (Or.inl hnone)
  · rename_i hpart
    exact (or_iff_right hpart).symm

theorem carriedOut_of_short (hshort : input.length < handler.size) (hne : input ≠ []) :
    handler.carriedOut req input = handler.acts (input ++ req.drop input.length) [] := by
  simp only [carriedOut, requests, stray, mixed, held, records_of_short hshort,
    leftover_of_short hshort, if_neg hne]
  rfl

theorem carriedOut_nil : handler.carriedOut req [] = [] := by
  have hshort : ([] : List Byte).length < handler.size := handler.size_pos
  simp only [carriedOut, requests, stray, records_of_short hshort, leftover_of_short hshort]
  rfl

theorem carriedOut_record (hlong : handler.size ≤ input.length) :
    handler.carriedOut req input =
      handler.acts (input.take handler.size)
          ((input.drop handler.size).take (handler.bodyLength (input.take handler.size))) ++
        handler.carriedOut (handler.leaves (input.take handler.size))
          (behindFirst handler.size handler.bodyLength input) := by
  simp only [carriedOut, requests, stray, mixed, held, records_cons handler.size_pos hlong,
    leftover_cons handler.size_pos hlong, actionsOf, List.flatMap_cons, List.foldl_cons,
    List.append_assoc]

end Handler

/-- The body of the loop does what the handler says. -/
structure Handles (kernel : Kernel) (handler : Handler)
    (body : List Byte → Conn → Logged Action (List Byte × Conn)) : Prop where
  leaves_length : ∀ req, req.length = handler.size → (handler.leaves req).length = handler.size
  ends : ∀ req c, req.length = handler.size →
    Ends (fun log (req', c') =>
        log = handler.acts req (c.unread.take (handler.bodyLength req)) ∧
          req' = handler.leaves req ∧ c'.unread = c.unread.drop (handler.bodyLength req))
      (fun log => ¬ kernel.Succeeds ∧
        Begins log (handler.acts req (c.unread.take (handler.bodyLength req))))
      (body req c)

variable {kernel : Kernel} {handler : Handler}
  {body : List Byte → Conn → Logged Action (List Byte × Conn)}

/-- A loop that comes to its end or is aborted before. -/
def CarriesOut (kernel : Kernel) (whole : List Action) : Logged Action Int → Prop :=
  Ends (fun log _ => log = whole) fun log => ¬ kernel.Succeeds ∧ Begins log whole

theorem CarriesOut.eq_returns {whole : List Action} {run : Logged Action Int}
    (h : CarriesOut kernel whole run) (hkernel : kernel.Succeeds) :
    ∃ value, run = ⟨whole, .returns value⟩ := by
  rcases h with rfl | ⟨hfails, -⟩
  · exact ⟨_, rfl⟩
  · exact absurd hkernel hfails

theorem serve_nil (req : List Byte) {rounds : Nat} (hrounds : 0 < rounds) {c : Conn}
    (hc : c.unread = []) : CarriesOut kernel [] (serve kernel handler.size body rounds req c) := by
  obtain ⟨rounds, rfl⟩ := Nat.exists_eq_succ_of_ne_zero hrounds.ne'
  refine Ends.andThen ((read_ends kernel handler.size c).deliver fun _ => []) ?_ ?_
  · rintro _ ⟨got, rfl, hfails, -⟩
    exact ⟨hfails, .nil _⟩
  · rintro _ ⟨got, c'⟩ ⟨rfl, rfl, -⟩
    simp only [hc, List.take_nil]
    exact .returns rfl

theorem serve_round (hbody : Handles kernel handler body) {req got header : List Byte}
    {rounds : Nat} {c : Conn} (hgot : c.unread.take handler.size = got) (hne : got ≠ [])
    (hheader : got ++ req.drop got.length = header) (hlength : header.length = handler.size)
    {more : List Action}
    (hmore : ∀ c', c'.unread = (c.unread.drop handler.size).drop (handler.bodyLength header) →
      CarriesOut kernel more (serve kernel handler.size body rounds (handler.leaves header) c')) :
    CarriesOut kernel
      (handler.acts header
        ((c.unread.drop handler.size).take (handler.bodyLength header)) ++ more)
      (serve kernel handler.size body (rounds + 1) req c) := by
  refine Ends.andThen ((read_ends kernel handler.size c).deliver fun _ => []) ?_ ?_
  · rintro _ ⟨-, rfl, hfails, -⟩
    exact ⟨hfails, .nil _⟩
  · rintro _ ⟨read, c'⟩ ⟨rfl, hread, hrest⟩
    obtain rfl : read = got := hread.trans hgot
    simp only [List.length_eq_zero_iff, if_neg hne, hheader, List.nil_append]
    refine Ends.andThen (hbody.ends header c' hlength) ?_ ?_
    · rintro log ⟨hfails, hlog⟩
      rw [hrest] at hlog
      exact ⟨hfails, hlog.append_right more⟩
    · rintro log ⟨req', c''⟩ ⟨hlog, rfl, hrest'⟩
      rw [hrest] at hlog hrest'
      subst hlog
      refine (hmore c'' hrest').mono ?_ ?_
      · rintro log _ rfl
        rfl
      · rintro log ⟨hfails, hlog⟩
        exact ⟨hfails, hlog.append_left _⟩

/-- The loop carries out the complete requests, and then what a part of one makes
of the last of them. -/
theorem serve_carriesOut (hbody : Handles kernel handler body) {req : List Byte}
    (hreq : req.length = handler.size) {rounds : Nat} {c : Conn}
    (hrounds : c.unread.length < rounds) :
    CarriesOut kernel (handler.carriedOut req c.unread)
      (serve kernel handler.size body rounds req c) := by
  obtain ⟨input, hinput⟩ : ∃ input, c.unread = input := ⟨_, rfl⟩
  rw [hinput] at hrounds ⊢
  induction input using stream_induction handler.bodyLength handler.size_pos
    generalizing req rounds c with
  | short input hshort =>
      rcases eq_or_ne input [] with rfl | hne
      · rw [Handler.carriedOut_nil]
        exact serve_nil req hrounds hinput
      · have hpos := List.length_pos_iff.mpr hne
        obtain ⟨rounds, rfl⟩ := Nat.exists_eq_succ_of_ne_zero (Nat.ne_zero_of_lt hrounds)
        have hgot : c.unread.take handler.size = input := by
          rw [hinput, List.take_of_length_le hshort.le]
        have hrest : c.unread.drop handler.size = [] := by
          rw [hinput, List.drop_of_length_le hshort.le]
        have hround := @serve_round kernel handler body hbody req input _ rounds c hgot hne rfl
          (by rw [List.length_append, List.length_drop]; omega) []
          (fun c' hc' => serve_nil _ (by omega) (by rw [hc', hrest, List.drop_nil]))
        rw [Handler.carriedOut_of_short hshort hne]
        rwa [hrest, List.take_nil, List.append_nil] at hround
  | record input hlong ih =>
      have hless := @behindFirst_length_lt _ _ handler.bodyLength _ handler.size_pos hlong
      obtain ⟨rounds, rfl⟩ := Nat.exists_eq_succ_of_ne_zero (Nat.ne_zero_of_lt hrounds)
      have hlength : (input.take handler.size).length = handler.size :=
        List.length_take_of_le hlong
      have hne : input.take handler.size ≠ [] := by
        intro hnil
        rw [hnil] at hlength
        exact handler.size_pos.ne hlength
      have hheader : input.take handler.size ++ req.drop (input.take handler.size).length =
          input.take handler.size := by
        rw [hlength, List.drop_of_length_le hreq.le, List.append_nil]
      have hround := @serve_round kernel handler body hbody req _ _ rounds c
        (by rw [hinput]) hne hheader hlength
        (handler.carriedOut (handler.leaves (input.take handler.size))
          (behindFirst handler.size handler.bodyLength input))
        (fun c' hc' => ih (hbody.leaves_length _ hlength) (by omega)
          (hc'.trans (by rw [hinput]; rfl)))
      rw [Handler.carriedOut_record hlong]
      rwa [hinput] at hround

theorem serveAll_carriesOut (hbody : Handles kernel handler body) (stack : Memory) (c : Conn) :
    CarriesOut kernel (handler.carriedOut (slice stack 0 handler.size) c.unread)
      (serveAll kernel handler.size body stack c) :=
  serve_carriesOut hbody (slice_length ..) (Nat.lt_succ_self _)

end Serving

section Handlers

theorem vmMprotectSize_pos : 0 < vmMprotectSize := by decide

def mprotectHandler : Handler := ⟨vmMprotectSize, vmMprotectSize_pos, bare, mprotected, id⟩

/-- `req` behind a round of `cmd_get_pages`. -/
def pagesServed (req : List Byte) : List Byte :=
  match VmRegionReq.ofBytes req with
  | .pagemap _ _ _ => lenCleared req
  | .mem _ _ _ => req

def getPagesHandler : Handler :=
  ⟨vmRegionReqSize, vmRegionReqSize_pos, bare, advised, pagesServed⟩

/-- How much of the contents of a region is read. -/
def payloadSize (header : List Byte) : Nat := readSize (VmRegion.ofBytes header)

theorem payloadSize_eq (header : List Byte) :
    payloadSize header = (toInt32 (regionLength header)).toNat :=
  rfl

def setPagesHandler : Handler :=
  ⟨vmRegionReqSize, vmRegionReqSize_pos, payloadSize, uploaded, id⟩

variable (kernel : Kernel)

theorem mprotectRequest_handles :
    Handles kernel mprotectHandler (mprotectRequest kernel) where
  leaves_length _ h := h
  ends req c _ := by
    apply Ends.after
    split
    · rename_i hfails
      exact .aborts ⟨fun hkernel => absurd (hkernel.mprotect c.calls) (by omega), .refl _⟩
    · exact .returns ⟨rfl, rfl, rfl⟩

theorem lenCleared_length {req : List Byte} (h : 16 ≤ req.length) :
    (lenCleared req).length = req.length := by
  simp only [lenCleared, List.length_append, List.length_take, List.length_drop, toBytes_length]
  omega

theorem getPagesRequest_handles :
    Handles kernel getPagesHandler (getPagesRequest kernel) where
  leaves_length req h := by
    simp only [getPagesHandler, pagesServed]
    split
    · rw [lenCleared_length]
      · exact h
      · rw [show req.length = vmRegionReqSize from h]
        decide
    · exact h
  ends req c _ := by
    rcases hreq : VmRegionReq.ofBytes req with ⟨vmr, tx, slack⟩ | ⟨seek, len, slack⟩
    · simp only [getPagesRequest, getPagesHandler, advised, pagesServed, hreq]
      have hreply : Quiet kernel c
          (if tx then write kernel (toInt32 vmr.len.toNat) c else done c) := by
        split
        · exact write_quiet _ rfl
        · exact quiet_done c
      refine Ends.andThen hreply ?_ ?_
      · rintro _ ⟨hfails, rfl⟩
        exact ⟨hfails, .nil _⟩
      · rintro _ c' ⟨rfl, hc'⟩
        apply Ends.after
        split
        · rename_i hfails
          exact .aborts ⟨fun hkernel => absurd (hkernel.madvise c'.calls) (by omega), .refl _⟩
        · exact .returns ⟨rfl, rfl, hc'⟩
    · simp only [getPagesRequest, getPagesHandler, advised, pagesServed, hreq]
      refine Ends.andThen (sendPagemap_quiet seek len c) ?_ ?_
      · rintro _ ⟨hfails, rfl⟩
        exact ⟨hfails, .nil _⟩
      · rintro _ c' ⟨rfl, hc'⟩
        exact .returns ⟨rfl, rfl, hc'⟩

theorem setPagesRequest_handles :
    Handles kernel setPagesHandler (setPagesRequest kernel) where
  leaves_length _ h := h
  ends req c _ := by
    refine Ends.andThen ((read_ends kernel _ c).deliver _) ?_ ?_
    · rintro _ ⟨got, rfl, hfails, hgot⟩
      exact ⟨hfails, begins_stored hgot _⟩
    · rintro _ ⟨got, c'⟩ ⟨rfl, rfl, hc'⟩
      exact .returns ⟨List.append_nil _, rfl, hc'⟩

/-- Everything the parasite does for what follows the command. -/
def performed (stack : Memory) (input : List Byte) : MemcrCmd → List Action
  | .cmdMprotect => mprotectHandler.carriedOut (slice stack 0 vmMprotectSize) input
  | .cmdGetPages => getPagesHandler.carriedOut (slice stack 0 vmRegionReqSize) input
  | .cmdSetPages => setPagesHandler.carriedOut (slice stack 0 vmRegionReqSize) input
  | .cmdEnd => []

theorem handleConnection_carriesOut (stack : Memory) (input : List Byte) (cmd : MemcrCmd) :
    CarriesOut kernel (performed stack input cmd)
      (handleConnection kernel stack ⟨cmd.byte :: input, 0⟩) := by
  rcases hreceived : kernel.received 0 with _ | n
  · simp only [handleConnection, sysRead, hreceived]
    exact .aborts ⟨fun hkernel => hkernel.received _ hreceived, .nil _⟩
  · have hcmd : sysRead kernel 1 ⟨cmd.byte :: input, 0⟩ = some ([cmd.byte], ⟨input, 1⟩) := by
      simp [sysRead, hreceived]
    simp only [handleConnection, hcmd, MemcrCmd.ofByte?_byte]
    rcases cmd with _ | _ | _ | _
    · exact serveAll_carriesOut (mprotectRequest_handles kernel) stack ⟨input, 1⟩
    · exact serveAll_carriesOut (getPagesRequest_handles kernel) stack ⟨input, 1⟩
    · exact serveAll_carriesOut (setPagesRequest_handles kernel) stack ⟨input, 1⟩
    · exact .returns rfl

end Handlers

end Memcr.ParasiteCommands
