import Mathlib.Logic.Function.Basic
import Memcr.CheckpointMemory
import Memcr.GuardedRuns
import Memcr.RegionRequests

/-!
The connections of one `cmd_restore`: memcr connects, writes and closes three
times without ever waiting for the parasite, which accepts the connections in
that order and reads each of them to its end. `target_set_pages`,
`target_mprotect_on` and `target_cmd_end` of memcr.c on one side, `service` with
`cmd_set_pages`, `cmd_mprotect` and `cmd_end` of parasite.c on the other.
-/

namespace Memcr.RestoreConnections

open Memcr.ByteWords
open Memcr.ByteMemory
open Memcr.DumpFormat
open Memcr.RegionRequests

/-- A region that `read_vm_region` has returned, and what the stack held between
the fields of its request. -/
structure RegionUpload where
  region : Region
  slack : BitVec 56
  fits : region.vmr.len.toNat ≤ maxVmRegionSize

def RegionUpload.req (u : RegionUpload) : VmRegionReq := .mem u.region.vmr false u.slack

/-- What is written to a connection behind its command. -/
inductive Item where
  | upload (u : RegionUpload)
  | protect (req : VmMprotect)

/-- What the parasite does to the target. -/
inductive Effect where
  | upload (addr : Nat) (data : List Byte)
  | protect (req : VmMprotect)

namespace Item

def cmd : Item → MemcrCmd
  | upload _ => .cmdSetPages
  | protect _ => .cmdMprotect

def header : Item → List Byte
  | upload u => u.req.bytes
  | protect req => req.bytes

def payload : Item → List Byte
  | upload u => u.region.data
  | protect _ => []

def bytes (item : Item) : List Byte := item.header ++ item.payload

/-- What the parasite does for the item. -/
def effect : Item → Effect
  | upload u => .upload u.region.vmr.addr.toNat u.region.data
  | protect req => .protect req

end Item

/-- What memcr has to say on one connection. -/
structure Job where
  cmd : MemcrCmd
  items : List Item
  uniform : ∀ item ∈ items, item.cmd = cmd

/-- The regions that a restore uploads and the protections that it gives back. -/
structure Restore where
  uploads : List RegionUpload
  protections : List VmMprotect

namespace Restore

/-- The connection of `target_set_pages`. -/
def setPages (r : Restore) : Job where
  cmd := .cmdSetPages
  items := r.uploads.map .upload
  uniform item h := by
    obtain ⟨u, -, rfl⟩ := List.mem_map.mp h
    rfl

/-- The connection of `target_mprotect_on`. -/
def mprotectOn (r : Restore) : Job where
  cmd := .cmdMprotect
  items := r.protections.map .protect
  uniform item h := by
    obtain ⟨u, -, rfl⟩ := List.mem_map.mp h
    rfl

/-- The connection of `target_cmd_end`. -/
def cmdEnd : Job where
  cmd := .cmdEnd
  items := []
  uniform _ h := absurd h List.not_mem_nil

/-- The connections of one `cmd_restore`, in the order they are made. -/
def jobs (r : Restore) : List Job := [r.setPages, r.mprotectOn, cmdEnd]

end Restore

structure Conn where
  /-- Everything written to the connection. -/
  sent : List Byte
  closed : Bool
  /-- None for a connection that `cmd_restore` has not made. -/
  job : Option Job
  /-- The items of the job that have been written whole. -/
  written : List Item

/-- Where memcr is on the connection it has open. -/
inductive MemcrPhase where
  | idle
  | command (sd : Nat)
  /-- `off` bytes of the first item of `todo` are written. -/
  | writing (sd off : Nat) (todo : List Item)

structure MemcrSide where
  phase : MemcrPhase
  /-- The connections still to be finished. -/
  jobs : List Job
  /-- The connection with `CMD_END` is closed. -/
  ended : Bool

/-- Where the parasite is in `service` and `handle_connection`. -/
inductive ParasitePhase where
  | accepting
  | command
  /-- In `read` of a request. -/
  | header (cmd : MemcrCmd) (buf : List Byte)
  /-- In `read` of the contents of a region. -/
  | payload (vmr : VmRegion) (filled : List Byte)
  | protecting (req : VmMprotect)
  | exited
  | dead

/-- The parasite with what it has done so far. -/
structure ParasiteSide where
  phase : ParasitePhase
  /-- What has been read from the connection accepted last. -/
  got : List Byte
  /-- The variable `req` as the last `read` has left it. -/
  req : List Byte
  /-- The effects of the connections that are done with. -/
  past : List (List Effect)
  /-- The effects of the connection accepted last. -/
  here : List Effect
  mem : Memory

/-- The two processes and all connections between them. -/
structure State where
  opened : Nat
  conns : Nat → Conn
  memcr : MemcrSide
  parasite : ParasiteSide

def Conn.none : Conn where
  sent := []
  closed := true
  job := Option.none
  written := []

def State.start (r : Restore) (mem : Memory) : State where
  opened := 0
  conns := fun _ => Conn.none
  memcr := { phase := .idle, jobs := r.jobs, ended := false }
  parasite :=
    { phase := .accepting, got := [], req := [], past := [], here := [], mem := mem }

/-- Everything the parasite has done to the target, in order. -/
def ParasiteSide.applied (p : ParasiteSide) : List Effect := p.past.flatten ++ p.here

def applyEffect (mem : Memory) : Effect → Memory
  | .upload addr data => store mem addr data
  | .protect _ => mem

/-- `sizeof(req)` of the command. -/
def headerSize : MemcrCmd → Nat
  | .cmdMprotect => vmMprotectSize
  | _ => vmRegionReqSize

section Memcr

/-- What is left of `cmd_restore` when a connection of the kind fails. -/
def abandon (job : Job) (rest : List Job) : List Job :=
  if job.cmd = .cmdSetPages then [] else rest

/-- `parasite_connect` -/
def connect (s : State) : Option State :=
  match s.memcr.phase, s.memcr.jobs with
  | .idle, job :: _ =>
      some { s with
        opened := s.opened + 1
        conns := Function.update s.conns s.opened
          { sent := [], closed := false, job := some job, written := [] }
        memcr := { s.memcr with phase := .command s.opened } }
  | _, _ => none

/-- `parasite_connect` that fails, and what memcr still does then. -/
def connectFails (s : State) : Option State :=
  match s.memcr.phase, s.memcr.jobs with
  | .idle, job :: rest => some { s with memcr := { s.memcr with jobs := abandon job rest } }
  | _, _ => none

/-- The checksums differ: `cmd_restore` returns behind `target_set_pages`. -/
def checksumMismatch (s : State) : Option State :=
  match s.memcr.phase, s.memcr.jobs with
  | .idle, job :: _ =>
      if job.cmd = .cmdMprotect then some { s with memcr := { s.memcr with jobs := [] } }
      else none
  | _, _ => none

/-- A call of `write` that moves `n` bytes. -/
def write (s : State) (n : Nat) : Option State :=
  match s.memcr.phase, s.memcr.jobs with
  | .command sd, job :: _ =>
      if n = 1 then
        some { s with
          conns := Function.update s.conns sd
            { s.conns sd with sent := (s.conns sd).sent ++ [job.cmd.byte] }
          memcr := { s.memcr with phase := .writing sd 0 job.items } }
      else none
  | .writing sd off (item :: todo), _ =>
      if 0 < n ∧ off + n ≤ item.bytes.length then
        let sent := (s.conns sd).sent ++ (item.bytes.drop off).take n
        if off + n < item.bytes.length then
          some { s with
            conns := Function.update s.conns sd { s.conns sd with sent := sent }
            memcr := { s.memcr with phase := .writing sd (off + n) (item :: todo) } }
        else
          some { s with
            conns := Function.update s.conns sd
              { s.conns sd with sent := sent, written := (s.conns sd).written ++ [item] }
            memcr := { s.memcr with phase := .writing sd 0 todo } }
      else none
  | _, _ => none

/-- memcr closes the connection and goes on with `jobs`. -/
def hangUp (s : State) (sd : Nat) (job : Job) (jobs : List Job) : State :=
  { s with
    conns := Function.update s.conns sd { s.conns sd with closed := true }
    memcr :=
      { phase := .idle
        jobs := jobs
        ended := s.memcr.ended || decide (job.cmd = .cmdEnd) } }

/-- A `parasite_write` fails, or the dump cannot be read any further. -/
def giveUp (s : State) : Option State :=
  match s.memcr.phase, s.memcr.jobs with
  | .command sd, job :: rest => some (hangUp s sd job (abandon job rest))
  | .writing sd _ _, job :: rest => some (hangUp s sd job (abandon job rest))
  | _, _ => none

/-- `close` behind the last item of a connection. -/
def close (s : State) : Option State :=
  match s.memcr.phase, s.memcr.jobs with
  | .writing sd _ [], job :: rest => some (hangUp s sd job rest)
  | _, _ => none

/-- Somebody connects after `cmd_restore` has sent `CMD_END`. -/
def stranger (s : State) (bytes : List Byte) : Option State :=
  if s.memcr.ended then
    some { s with
      opened := s.opened + 1
      conns := Function.update s.conns s.opened
        { sent := bytes, closed := true, job := none, written := [] } }
  else none

end Memcr

section Parasite

/-- The connection accepted last. -/
def State.current (s : State) : Conn := s.conns s.parasite.past.length

def State.unread (s : State) : List Byte := s.current.sent.drop s.parasite.got.length

/-- `accept` in `service` -/
def accept (s : State) : Option State :=
  match s.parasite.phase with
  | .accepting =>
      if s.parasite.past.length < s.opened then
        some { s with parasite := { s.parasite with phase := .command, got := [] } }
      else none
  | _ => none

/-- `handle_connection`. The variable `req` of the command is not initialised;
a `CMD_GET_PAGES` connection is no part of a restore. -/
def handleConnection (stack : Nat → List Byte) (p : ParasiteSide) (b : Byte) :
    Option ParasiteSide :=
  match MemcrCmd.ofByte? b with
  | some .cmdSetPages =>
      some { p with phase := .header .cmdSetPages [], req := stack p.past.length }
  | some .cmdMprotect =>
      some { p with phase := .header .cmdMprotect [], req := stack p.past.length }
  | some .cmdEnd => some { p with phase := .exited }
  | some .cmdGetPages => none
  | none => some { p with phase := .dead }

/-- `read` has put a request, or the beginning of one, into `req`. -/
def ParasiteSide.takeRequest (p : ParasiteSide) (cmd : MemcrCmd) (req : List Byte) :
    ParasiteSide :=
  { p with
    phase :=
      if cmd = .cmdMprotect then .protecting (VmMprotect.ofBytes req)
      else .payload (VmRegion.ofBytes req) []
    req := req }

/-- A piece of a request has been read. -/
def ParasiteSide.headerOn (p : ParasiteSide) (cmd : MemcrCmd) (buf : List Byte) : ParasiteSide :=
  if buf.length < headerSize cmd then { p with phase := .header cmd buf }
  else p.takeRequest cmd buf

/-- A `sys_read` that gets `piece`. -/
def readPiece (stack : Nat → List Byte) (p : ParasiteSide) (piece : List Byte) :
    Option ParasiteSide :=
  match p.phase with
  | .command =>
      match piece with
      | [b] => handleConnection stack p b
      | _ => none
  | .header cmd buf =>
      if buf.length + piece.length ≤ headerSize cmd then some (p.headerOn cmd (buf ++ piece))
      else none
  | .payload vmr filled =>
      if filled.length + piece.length ≤ readSize vmr then
        some { p with
          phase := .payload vmr (filled ++ piece)
          mem := store p.mem (vmr.addr.toNat + filled.length) piece }
      else none
  | _ => none

/-- A call of `read` that moves `n` bytes. -/
def read (stack : Nat → List Byte) (s : State) (n : Nat) : Option State :=
  if 0 < n ∧ n ≤ s.unread.length then
    (readPiece stack { s.parasite with got := s.parasite.got ++ s.unread.take n }
      (s.unread.take n)).map fun p => { s with parasite := p }
  else none

def ParasiteSide.record (p : ParasiteSide) (cmd : MemcrCmd) (effect : Effect) : ParasiteSide :=
  { p with phase := .header cmd [], here := p.here ++ [effect] }

/-- What the parasite does when a `sys_read` returns 0. A request that was cut
short is taken with the rest of `req` as it is. -/
def atEnd (p : ParasiteSide) : Option ParasiteSide :=
  match p.phase with
  | .command => some { p with phase := .dead }
  | .header _ [] => some { p with phase := .accepting, past := p.past ++ [p.here], here := [] }
  | .header cmd buf => some (p.takeRequest cmd (buf ++ p.req.drop buf.length))
  | .payload vmr filled =>
      if filled.length < readSize vmr then
        some (p.record .cmdSetPages (.upload vmr.addr.toNat filled))
      else none
  | _ => none

/-- A call of `read` at the end of a connection. -/
def endOfFile (s : State) : Option State :=
  if s.current.closed = true ∧ s.unread = [] then
    (atEnd s.parasite).map fun p => { s with parasite := p }
  else none

/-- The loop of `read` is over, or `sys_mprotect` succeeds. -/
def proceed (s : State) : Option State :=
  match s.parasite.phase with
  | .payload vmr filled =>
      if readSize vmr ≤ filled.length then
        some { s with
          parasite := s.parasite.record .cmdSetPages (.upload vmr.addr.toNat filled) }
      else none
  | .protecting req =>
      some { s with parasite := s.parasite.record .cmdMprotect (.protect req) }
  | _ => none

/-- A system call of the parasite fails. -/
def die (s : State) : Option State :=
  match s.parasite.phase with
  | .exited => none
  | _ => some { s with parasite := { s.parasite with phase := .dead } }

end Parasite

inductive Choice where
  | connect
  | connectFails
  | checksumMismatch
  | write (n : Nat)
  | giveUp
  | close
  | stranger (bytes : List Byte)
  | accept
  | read (n : Nat)
  | endOfFile
  | proceed
  | die

/-- One call of one of the two processes. -/
def step (stack : Nat → List Byte) (s : State) : Choice → Option State
  | .connect => connect s
  | .connectFails => connectFails s
  | .checksumMismatch => checksumMismatch s
  | .write n => write s n
  | .giveUp => giveUp s
  | .close => close s
  | .stranger bytes => stranger s bytes
  | .accept => accept s
  | .read n => read stack s n
  | .endOfFile => endOfFile s
  | .proceed => proceed s
  | .die => die s

end Memcr.RestoreConnections
