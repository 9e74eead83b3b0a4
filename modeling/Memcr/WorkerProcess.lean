import Memcr.ByteWords
import Memcr.GuardedRuns

namespace Memcr.WorkerProcess

open Memcr.ByteWords
open Memcr.GuardedRuns

/-- A C `int` as the `ret |= ..` lines combine it. -/
abbrev CInt := BitVec 32

/-- `MEMCR_CHECKPOINT` -/
def memcrCheckpoint : Nat := 100

/-- `MEMCR_RESTORE` -/
def memcrRestore : Nat := 101

/-- `struct service_command`, a pair of 32-bit words. -/
structure ServiceCommand where
  cmd : Nat
  pid : Int
  cmd_lt : cmd < 256 ^ 4 := by decide
  pid_ge : -2 ^ 31 ≤ pid := by decide
  pid_lt : pid < 2 ^ 31 := by decide
  deriving DecidableEq, Repr

def serviceCommandSize : Nat := 8

/-- The command as it goes through a socket. -/
def ServiceCommand.bytes (command : ServiceCommand) : List Byte :=
  toBytes 4 command.cmd ++ toBytes 4 (ofInt32 command.pid)

def ServiceCommand.ofBytes (bytes : List Byte) : ServiceCommand where
  cmd := ByteWords.ofBytes (bytes.take 4)
  pid := toInt32 (ByteWords.ofBytes ((bytes.drop 4).take 4))
  cmd_lt := by
    have hlt := ofBytes_lt (bytes.take 4)
    have hlen : (bytes.take 4).length ≤ 4 := by simp
    exact lt_of_lt_of_le hlt (Nat.pow_le_pow_right (by omega) hlen)
  pid_ge := BitVec.le_toInt _
  pid_lt := BitVec.toInt_lt

theorem ServiceCommand.bytes_length (command : ServiceCommand) :
    command.bytes.length = serviceCommandSize := by
  simp [ServiceCommand.bytes, serviceCommandSize]

theorem ServiceCommand.ofBytes_bytes_append (command : ServiceCommand) (rest : List Byte) :
    ServiceCommand.ofBytes (command.bytes ++ rest) = command := by
  obtain ⟨cmd, pid, hcmd, hge, hlt⟩ := command
  simp [ServiceCommand.ofBytes, ServiceCommand.bytes, ofBytes_toBytes hcmd,
    ofBytes_toBytes (ofInt32_lt pid), toInt32_ofInt32 hge hlt]

/-- `memcr_svc_response` -/
inductive Response where
  | ok
  | errorGeneral
  | invalidPid
  deriving DecidableEq, Repr

/-- What a worker does that other processes can notice. -/
inductive WorkerAction where
  | bind (pid : Int)
  | dropPages (pid : Int)
  | kill (pid : Int)
  | cleanupPid (pid : Int)
  | respondCheckpoint (code : Response) (sent : Bool)
  | accept (connected : Bool)
  | readCommand (received : List Byte)
  | restore (pid : Int) (ret : CInt)
  | unseizeTarget
  | respondRestore (code : Response) (sent : Bool)
  | closeRsd
  | removeRestoreSocket (pid : Int)
  | exit (code : CInt)
  deriving DecidableEq, Repr

/-- The outcome of every call a worker makes. -/
structure WorkerEnv where
  socketOpens : Bool
  fchmodWorks : Bool
  binds : Bool
  chmodWorks : Bool
  listens : Bool
  /-- Descriptor of the restore socket. -/
  rsd : Nat
  seizeTarget : CInt
  executeParasiteCheckpoint : CInt
  /-- The checkpoint has made the parasite drop some page. -/
  pagesDropped : Bool
  checkpointResponseSent : Bool
  accepts : Bool
  /-- What arrives on the restore connection before it ends or fails. -/
  received : List Byte
  /-- Contents of `post_checkpoint_cmd` before anything is read into it. -/
  stack : List Byte
  executeParasiteRestore : Int → CInt
  restoreResponseSent : Bool

/-- `setup_restore_socket_worker`; `dir` tells whether a
`parasite_socket_dir` is set. -/
def setupRestoreSocketWorker (dir : Bool) (env : WorkerEnv) (pid : Int) :
    Int × List WorkerAction :=
  if !env.socketOpens then (-1, [])
  else if dir && !env.fchmodWorks then (-1, [])
  else if !env.binds then (-1, [])
  else if dir && !env.chmodWorks then (-1, [.bind pid])
  else if !env.listens then (-1, [.bind pid])
  else (env.rsd, [.bind pid])

/-- `checkpoint_worker` -/
def checkpointWorker (env : WorkerEnv) (pid : Int) : CInt × List WorkerAction :=
  if env.seizeTarget ≠ 0#32 then (env.seizeTarget, [.kill pid, .cleanupPid pid])
  else
    let dropped := if env.pagesDropped then [.dropPages pid] else []
    if env.executeParasiteCheckpoint ≠ 0#32 then
      (env.executeParasiteCheckpoint, dropped ++ [.kill pid, .cleanupPid pid])
    else (0#32, dropped)

/-- `post_checkpoint_cmd` after `read_command`: the bytes received lie over
what the stack held. -/
def postCheckpointCmd (env : WorkerEnv) : ServiceCommand :=
  let received := env.received.take serviceCommandSize
  ServiceCommand.ofBytes (received ++ env.stack.drop received.length)

/-- `read_command` -/
def readCommand (env : WorkerEnv) : CInt :=
  if (env.received.take serviceCommandSize).length = serviceCommandSize then
    BitVec.ofNat 32 serviceCommandSize
  else -1#32

/-- `restore_worker`. The pid it acts on is the one in the command it has read. -/
def restoreWorker (env : WorkerEnv) : CInt × List WorkerAction :=
  let command := postCheckpointCmd env
  let readRet := readCommand env
  let out (ret : CInt) : List WorkerAction :=
    (if ret ≠ 0#32 then [.kill command.pid] else []) ++
      [.unseizeTarget, .cleanupPid command.pid]
  let received := WorkerAction.readCommand (env.received.take serviceCommandSize)
  if readRet.toInt < 0 ∨ memcrRestore ≠ command.cmd then (readRet, received :: out readRet)
  else
    let ret := env.executeParasiteRestore command.pid
    (ret, received :: .restore command.pid ret :: out ret)

/-- `send_response_to_service` -/
def sendResponseToService (sent : Bool) : CInt :=
  if sent then 0#32 else -1#32

def responseOf (status : CInt) : Response :=
  if status ≠ 0#32 then .errorGeneral else .ok

/-- The part of `application_worker` up to the response to the service. -/
def checkpointPhase (dir : Bool) (env : WorkerEnv) (pid : Int) : CInt × List WorkerAction :=
  let (rsd, setup) := setupRestoreSocketWorker dir env pid
  let ret : CInt := if rsd < 0 then 0#32 ||| BitVec.ofInt 32 rsd else 0#32
  let (ret, checkpoint) :=
    if ret = 0#32 then
      let (status, actions) := checkpointWorker env pid
      (ret ||| status, actions)
    else (ret, [])
  (ret ||| sendResponseToService env.checkpointResponseSent,
    setup ++ checkpoint ++
      [.respondCheckpoint (responseOf ret) env.checkpointResponseSent])

/-- The part of `application_worker` behind a successful `accept`. -/
def restorePhase (dir : Bool) (env : WorkerEnv) (pid : Int) : List WorkerAction :=
  let (ret, restore) := restoreWorker env
  restore ++ [.respondRestore (responseOf ret) env.restoreResponseSent, .closeRsd] ++
    (if dir then [.removeRestoreSocket pid] else []) ++
    [.exit (ret ||| sendResponseToService env.restoreResponseSent)]

/-- `application_worker` and the `exit` that follows it. -/
def applicationWorker (dir : Bool) (env : WorkerEnv) (pid : Int) : List WorkerAction :=
  let (ret, checkpoint) := checkpointPhase dir env pid
  -- `close(rsd)` does nothing when the setup returned no descriptor
  let closeRsd :=
    if (setupRestoreSocketWorker dir env pid).1 < 0 then [] else [WorkerAction.closeRsd]
  if ret ≠ 0#32 then checkpoint ++ closeRsd ++ [.exit ret]
  else if !env.accepts then checkpoint ++ [.accept false] ++ closeRsd ++ [.exit (-1#32)]
  else checkpoint ++ .accept true :: restorePhase dir env pid

/-- The calls of `setup_restore_socket_worker` all work. -/
def Listening (dir : Bool) (env : WorkerEnv) : Prop :=
  env.socketOpens = true ∧ (dir = true → env.fchmodWorks = true) ∧ env.binds = true ∧
    (dir = true → env.chmodWorks = true) ∧ env.listens = true

theorem setupRestoreSocketWorker_cases (dir : Bool) (env : WorkerEnv) (pid : Int) :
    (Listening dir env ∧
      setupRestoreSocketWorker dir env pid = ((env.rsd : Int), [.bind pid])) ∨
    (¬ Listening dir env ∧ ∃ bound, (bound = [] ∨ bound = [.bind pid]) ∧
      setupRestoreSocketWorker dir env pid = (-1, bound)) := by
  simp only [setupRestoreSocketWorker, Listening]
  split_ifs <;> simp_all

theorem checkpointWorker_cases (env : WorkerEnv) (pid : Int) :
    ∃ dropped, (dropped = [] ∨ dropped = [.dropPages pid]) ∧
      (dropped = [] ↔ env.seizeTarget ≠ 0#32 ∨ env.pagesDropped = false) ∧
      ((env.seizeTarget = 0#32 ∧ env.executeParasiteCheckpoint = 0#32 ∧
          checkpointWorker env pid = (0#32, dropped)) ∨
        ((env.seizeTarget ≠ 0#32 ∨ env.executeParasiteCheckpoint ≠ 0#32) ∧ ∃ code, code ≠ 0#32 ∧
          checkpointWorker env pid = (code, dropped ++ [.kill pid, .cleanupPid pid]))) := by
  by_cases hseize : env.seizeTarget = 0#32
  · by_cases hcheckpoint : env.executeParasiteCheckpoint = 0#32
    · cases hdropped : env.pagesDropped <;>
        simp [checkpointWorker, hseize, hcheckpoint, hdropped]
    · cases hdropped : env.pagesDropped <;>
        simp [checkpointWorker, hseize, hcheckpoint, hdropped]
  · exact ⟨[], Or.inl rfl, by simp [hseize], Or.inr ⟨Or.inl hseize, _, hseize, by
      simp [checkpointWorker, hseize]⟩⟩

theorem or_sendResponseToService_ne_zero {code : CInt} (hcode : code ≠ 0#32) (sent : Bool) :
    code ||| sendResponseToService sent ≠ 0#32 := by
  intro h
  exact hcode (BitVec.or_eq_zero_iff.mp h).1

/-- What `restore_worker` does: the pid it acts on is the one in the command
buffer, and it either restores that pid or kills it before it lets go. -/
theorem restoreWorker_cases (env : WorkerEnv) :
    ∃ ret middle, restoreWorker env = (ret,
        .readCommand (env.received.take serviceCommandSize) :: middle ++
          [.unseizeTarget, .cleanupPid (postCheckpointCmd env).pid]) ∧
      ((ret = 0#32 ∧ middle = [.restore (postCheckpointCmd env).pid 0#32]) ∨
        (ret ≠ 0#32 ∧ (middle = [.kill (postCheckpointCmd env).pid] ∨
          middle = [.restore (postCheckpointCmd env).pid ret,
            .kill (postCheckpointCmd env).pid]))) := by
  by_cases hbad : (readCommand env).toInt < 0 ∨ memcrRestore ≠ (postCheckpointCmd env).cmd
  · have hret : readCommand env ≠ 0#32 := by
      rw [readCommand]
      split <;> decide
    refine ⟨readCommand env, [.kill (postCheckpointCmd env).pid], ?_, Or.inr ⟨hret, Or.inl rfl⟩⟩
    simp [restoreWorker, hbad, hret]
  · by_cases hret : env.executeParasiteRestore (postCheckpointCmd env).pid = 0#32
    · refine ⟨0#32, [.restore (postCheckpointCmd env).pid 0#32], ?_, Or.inl ⟨rfl, rfl⟩⟩
      simp [restoreWorker, hbad, hret]
    · refine ⟨_, _, ?_, Or.inr ⟨hret, Or.inr rfl⟩⟩
      simp [restoreWorker, hbad, hret]

/-- The shapes of a worker that gives up before it waits for a restore. -/
inductive GivesUp (dir : Bool) (env : WorkerEnv) (pid : Int) : List WorkerAction → Prop where
  | setup (bound : List WorkerAction) (sent : Bool) (code : CInt)
      (hsetup : ¬ Listening dir env) (hbound : bound = [] ∨ bound = [.bind pid]) :
      GivesUp dir env pid (bound ++ [.respondCheckpoint .errorGeneral sent, .exit code])
  | checkpoint (dropped : List WorkerAction) (sent : Bool) (code : CInt)
      (hsetup : Listening dir env)
      (hfails : env.seizeTarget ≠ 0#32 ∨ env.executeParasiteCheckpoint ≠ 0#32)
      (hdropped : dropped = [] ∨ dropped = [.dropPages pid]) :
      GivesUp dir env pid (.bind pid :: dropped ++ [.kill pid, .cleanupPid pid,
        .respondCheckpoint .errorGeneral sent, .closeRsd, .exit code])

theorem applicationWorker_cases (dir : Bool) (env : WorkerEnv) (pid : Int) :
    GivesUp dir env pid (applicationWorker dir env pid) ∨
    (Listening dir env ∧ env.seizeTarget = 0#32 ∧ env.executeParasiteCheckpoint = 0#32 ∧
      ∃ dropped, dropped = (if env.pagesDropped then [.dropPages pid] else []) ∧
      ((env.checkpointResponseSent = false ∧ applicationWorker dir env pid =
          .bind pid :: dropped ++ [.respondCheckpoint .ok false, .closeRsd, .exit (-1#32)]) ∨
        (env.checkpointResponseSent = true ∧ env.accepts = false ∧
          applicationWorker dir env pid = .bind pid :: dropped ++
            [.respondCheckpoint .ok true, .accept false, .closeRsd, .exit (-1#32)]) ∨
        (env.checkpointResponseSent = true ∧ env.accepts = true ∧
          applicationWorker dir env pid = .bind pid :: dropped ++
            .respondCheckpoint .ok true :: .accept true :: restorePhase dir env pid))) := by
  rcases setupRestoreSocketWorker_cases dir env pid with
    ⟨hlistening, hsetup⟩ | ⟨hfails, bound, hbound, hsetup⟩
  · obtain ⟨dropped, hdropped, hempty, hcheckpoint⟩ := checkpointWorker_cases env pid
    rcases hcheckpoint with ⟨hseize, hzero, hworker⟩ | ⟨hfails, code, hcode, hworker⟩
    · right
      have hrsd : ¬ (env.rsd : Int) < 0 := by omega
      refine ⟨hlistening, hseize, hzero, dropped, ?_, ?_⟩
      · cases hdrop : env.pagesDropped <;> simp_all
      · cases hsent : env.checkpointResponseSent <;> cases haccepts : env.accepts <;>
          simp [applicationWorker, checkpointPhase, hsetup, hworker, hrsd, hsent, haccepts,
            sendResponseToService, responseOf]
    · left
      have hrsd : ¬ (env.rsd : Int) < 0 := by omega
      have hret := or_sendResponseToService_ne_zero hcode env.checkpointResponseSent
      have hworkerEq : applicationWorker dir env pid = .bind pid :: dropped ++
          [.kill pid, .cleanupPid pid,
            .respondCheckpoint .errorGeneral env.checkpointResponseSent, .closeRsd,
            .exit (code ||| sendResponseToService env.checkpointResponseSent)] := by
        simp only [applicationWorker, checkpointPhase, hsetup, hrsd, if_false, if_true, hworker,
          BitVec.zero_or, hret, ne_eq, not_false_eq_true, responseOf, hcode]
        simp
      rw [hworkerEq]
      exact .checkpoint dropped _ _ hlistening hfails hdropped
  · left
    have hworkerEq : applicationWorker dir env pid = bound ++
        [.respondCheckpoint .errorGeneral env.checkpointResponseSent,
          .exit (-1#32 ||| sendResponseToService env.checkpointResponseSent)] := by
      have hneg : (0#32 ||| BitVec.ofInt 32 (-1)) = (-1#32 : CInt) := by decide
      simp only [applicationWorker, checkpointPhase, hsetup, hneg, responseOf,
        show (-1 : Int) < 0 by omega, if_true, show (-1#32 : CInt) ≠ 0#32 by decide]
      simp
    rw [hworkerEq]
    exact .setup bound _ _ hfails hbound

def Reported (past : List WorkerAction) : Prop :=
  ∃ code sent, .respondCheckpoint code sent ∈ past

/-- What has happened before each action of a worker that other processes
depend on. -/
def WorkerLaw (env : WorkerEnv) (pid : Int) (past : List WorkerAction) : WorkerAction → Prop
  | .bind bound => bound = pid ∧ ¬ Reported past
  | .kill killed =>
      (killed = pid ∧ .accept true ∉ past) ∨
        (killed = (postCheckpointCmd env).pid ∧ .accept true ∈ past ∧
          .readCommand (env.received.take serviceCommandSize) ∈ past)
  | .cleanupPid cleaned =>
      (cleaned = pid ∧ ¬ Reported past) ∨
        (cleaned = (postCheckpointCmd env).pid ∧ .accept true ∈ past)
  | .respondCheckpoint code _ =>
      code = .ok → .bind pid ∈ past ∧ ∀ cleaned, .cleanupPid cleaned ∉ past
  | .readCommand received =>
      received = env.received.take serviceCommandSize ∧ .accept true ∈ past
  | .removeRestoreSocket removed => removed = pid ∧ .accept true ∈ past
  | _ => True

theorem restorePhase_law (dir : Bool) (env : WorkerEnv) (pid : Int) {past : List WorkerAction}
    (haccepted : .accept true ∈ past) :
    EachStep (WorkerLaw env pid) past (restorePhase dir env pid) := by
  obtain ⟨ret, middle, hrestore, ⟨rfl, rfl⟩ | ⟨hret, rfl | rfl⟩⟩ := restoreWorker_cases env <;>
    rcases dir with _ | _ <;>
      simp [restorePhase, hrestore, eachStep_cons, eachStep_nil, WorkerLaw, haccepted]

theorem applicationWorker_law (dir : Bool) (env : WorkerEnv) (pid : Int) :
    EachStep (WorkerLaw env pid) [] (applicationWorker dir env pid) := by
  rcases applicationWorker_cases dir env pid with
    hgivesUp | ⟨-, -, -, dropped, hdropped, hcases⟩
  · generalize applicationWorker dir env pid = actions at hgivesUp
    cases hgivesUp with
    | setup bound sent code hsetup hbound =>
        rcases hbound with rfl | rfl <;>
          simp [eachStep_cons, eachStep_nil, WorkerLaw, Reported]
    | checkpoint dropped sent code hsetup hfails hdropped =>
        rcases hdropped with rfl | rfl <;>
          simp [eachStep_cons, eachStep_nil, WorkerLaw, Reported]
  · have hdropped : dropped = [] ∨ dropped = [.dropPages pid] := by
      rw [hdropped]
      split <;> simp
    rcases hcases with ⟨-, hworker⟩ | ⟨-, -, hworker⟩ | ⟨-, -, hworker⟩
    · rw [hworker]
      rcases hdropped with rfl | rfl <;>
        simp [eachStep_cons, eachStep_nil, WorkerLaw, Reported]
    · rw [hworker]
      rcases hdropped with rfl | rfl <;>
        simp [eachStep_cons, eachStep_nil, WorkerLaw, Reported]
    · rw [hworker]
      rcases hdropped with rfl | rfl <;>
        simp [eachStep_cons, WorkerLaw, Reported, restorePhase_law]

theorem cleanupPid_not_mem_take (dir : Bool) (env : WorkerEnv) (pid : Int) (n : Nat)
    (hok : .respondCheckpoint .ok true ∈ (applicationWorker dir env pid).take n)
    (hwaiting : .accept true ∉ (applicationWorker dir env pid).take n) (cleaned : Int) :
    .cleanupPid cleaned ∉ (applicationWorker dir env pid).take n := by
  refine (applicationWorker_law dir env pid).take_induction
    (fun past => .respondCheckpoint .ok true ∈ past → .accept true ∉ past →
      ∀ cleaned, .cleanupPid cleaned ∉ past) (by simp) ?_ n hok hwaiting cleaned
  intro past action hlaw ih hok hwaiting cleaned hmem
  simp only [List.mem_append, List.mem_singleton, not_or] at hok hwaiting hmem
  rcases hmem with hmem | rfl
  · rcases hok with hok | rfl
    · exact ih hok hwaiting.1 cleaned hmem
    · exact (hlaw rfl).2 cleaned hmem
  · rcases hlaw with ⟨-, hreported⟩ | ⟨-, haccepted⟩
    · exact hreported ⟨.ok, true, by simpa using hok⟩
    · exact hwaiting.1 haccepted

/-- The worker unseizes the target, or exits and the kernel does. -/
def WorkerAction.LetsGo : WorkerAction → Prop
  | .unseizeTarget => True
  | .exit _ => True
  | _ => False

/-- The target is complete again, or it will not run. -/
def WorkerAction.Settles (pid : Int) : WorkerAction → Prop
  | .restore restored ret => restored = pid ∧ ret = 0#32
  | .kill killed => killed = pid
  | _ => False

/-- Whenever the worker lets go of a target that has lost pages, the target has
been restored or killed. -/
def SettlesTarget (pid : Int) : List WorkerAction → Prop :=
  AnsweredBefore (· = .dropPages pid) (WorkerAction.Settles pid) WorkerAction.LetsGo []

theorem settlesTarget_first_iff {pid : Int} (before : List WorkerAction) (first : WorkerAction)
    (after : List WorkerAction) (hbefore : ∀ a ∈ before, ¬ a.LetsGo) (hfirst : first.LetsGo)
    (hdropped : .dropPages pid ∈ before) :
    SettlesTarget pid (before ++ first :: after) ↔ ∃ a ∈ before, a.Settles pid :=
  answeredBefore_first_iff hbefore hfirst ⟨_, hdropped, rfl⟩

theorem settlesTarget_of_not_dropped {pid : Int} {actions : List WorkerAction}
    (h : .dropPages pid ∉ actions) : SettlesTarget pid actions := by
  refine answeredBefore_of_no_trigger (by simp) ?_
  rintro _ hmem rfl
  exact h hmem

theorem GivesUp.settlesTarget {dir : Bool} {env : WorkerEnv} {pid : Int}
    {actions : List WorkerAction} (h : GivesUp dir env pid actions) :
    SettlesTarget pid actions := by
  cases h with
  | setup bound sent code hsetup hbound =>
      apply settlesTarget_of_not_dropped
      rcases hbound with rfl | rfl <;> simp
  | checkpoint dropped sent code hsetup hfails hdropped =>
      rcases hdropped with rfl | rfl
      · apply settlesTarget_of_not_dropped
        simp
      · refine (settlesTarget_first_iff [.bind pid, .dropPages pid, .kill pid, .cleanupPid pid,
          .respondCheckpoint .errorGeneral sent, .closeRsd] (.exit code) [] ?_ trivial ?_).mpr ?_
        · simp [WorkerAction.LetsGo]
        · simp
        · exact ⟨.kill pid, by simp, rfl⟩

theorem GivesUp.fails {dir : Bool} {env : WorkerEnv} {pid : Int}
    {actions : List WorkerAction} (h : GivesUp dir env pid actions) :
    ¬ Listening dir env ∨ env.seizeTarget ≠ 0#32 ∨ env.executeParasiteCheckpoint ≠ 0#32 := by
  cases h with
  | setup bound sent code hsetup hbound => exact Or.inl hsetup
  | checkpoint dropped sent code hsetup hfails hdropped => exact Or.inr hfails

theorem dropPages_not_mem_restorePhase (dir : Bool) (env : WorkerEnv) (pid target : Int) :
    .dropPages target ∉ restorePhase dir env pid := by
  obtain ⟨ret, middle, hworker, ⟨rfl, rfl⟩ | ⟨hret, rfl | rfl⟩⟩ := restoreWorker_cases env <;>
    cases dir <;> simp [restorePhase, hworker]

/-- A worker that received a connection has settled the target exactly when
the command buffer names it. -/
theorem restorePhase_settlesTarget_iff (dir : Bool) (env : WorkerEnv) (pid : Int) :
    SettlesTarget pid (.bind pid :: [.dropPages pid] ++ .respondCheckpoint .ok true ::
        .accept true :: restorePhase dir env pid) ↔
      (postCheckpointCmd env).pid = pid := by
  obtain ⟨ret, middle, hworker, hmiddle⟩ := restoreWorker_cases env
  -- `restore_worker` lets go once it is through with `middle`
  have hsplit : ∃ after, .bind pid :: [.dropPages pid] ++ .respondCheckpoint .ok true ::
        .accept true :: restorePhase dir env pid =
      (.bind pid :: .dropPages pid :: .respondCheckpoint .ok true :: .accept true ::
        .readCommand (env.received.take serviceCommandSize) :: middle) ++
        .unseizeTarget :: after := by
    simp [restorePhase, hworker]
  obtain ⟨after, hsplit⟩ := hsplit
  rw [hsplit, settlesTarget_first_iff _ .unseizeTarget after ?_ trivial (by simp)]
  · rcases hmiddle with ⟨rfl, rfl⟩ | ⟨hret, rfl | rfl⟩
    · simp [WorkerAction.Settles]
    · simp [WorkerAction.Settles]
    · simp [WorkerAction.Settles, hret]
  · rcases hmiddle with ⟨rfl, rfl⟩ | ⟨hret, rfl | rfl⟩ <;> simp [WorkerAction.LetsGo]

/-- No target resumes with missing memory, exactly when no page was dropped,
the checkpoint failed and killed the target, or the response was written, a
connection accepted and the command buffer names the target. -/
theorem applicationWorker_settlesTarget_iff (dir : Bool) (env : WorkerEnv) (pid : Int) :
    SettlesTarget pid (applicationWorker dir env pid) ↔
      ¬ Listening dir env ∨ env.seizeTarget ≠ 0#32 ∨ env.executeParasiteCheckpoint ≠ 0#32 ∨
        env.pagesDropped = false ∨
        (env.checkpointResponseSent = true ∧ env.accepts = true ∧
          (postCheckpointCmd env).pid = pid) := by
  rcases applicationWorker_cases dir env pid with
    hgivesUp | ⟨hlistening, hseize, hcheckpoint, dropped, rfl, hcases⟩
  · refine ⟨fun _ => ?_, fun _ => hgivesUp.settlesTarget⟩
    rcases hgivesUp.fails with hfails | hfails | hfails
    · exact Or.inl hfails
    · exact Or.inr (Or.inl hfails)
    · exact Or.inr (Or.inr (Or.inl hfails))
  · cases hdropped : env.pagesDropped with
    | false =>
        refine ⟨fun _ => by simp, fun _ => settlesTarget_of_not_dropped ?_⟩
        rcases hcases with ⟨-, hworker⟩ | ⟨-, -, hworker⟩ | ⟨-, -, hworker⟩ <;>
          simp [hworker, hdropped, dropPages_not_mem_restorePhase]
    | true =>
        simp only [hlistening, hseize, hcheckpoint, not_true_eq_false, ne_eq, false_or,
          Bool.true_eq_false]
        rcases hcases with ⟨hsent, hworker⟩ | ⟨hsent, haccepts, hworker⟩ |
          ⟨hsent, haccepts, hworker⟩
        · rw [hworker, hdropped, hsent]
          refine (settlesTarget_first_iff [.bind pid, .dropPages pid, .respondCheckpoint .ok false,
            .closeRsd] (.exit (-1#32)) [] ?_ trivial ?_).trans ?_
          · simp [WorkerAction.LetsGo]
          · simp
          · simp [WorkerAction.Settles]
        · rw [hworker, hdropped, haccepts]
          refine (settlesTarget_first_iff [.bind pid, .dropPages pid, .respondCheckpoint .ok true,
            .accept false, .closeRsd] (.exit (-1#32)) [] ?_ trivial ?_).trans ?_
          · simp [WorkerAction.LetsGo]
          · simp
          · simp [WorkerAction.Settles]
        · simp only [hworker, hdropped, hsent, haccepts, true_and, if_true]
          exact restorePhase_settlesTarget_iff dir env pid

/-- The checkpoint has worked, then somebody connects to the restore socket and
hangs up; the stack happens to hold the number 7 where the pid goes. -/
def silentPeer : WorkerEnv where
  socketOpens := true
  fchmodWorks := true
  binds := true
  chmodWorks := true
  listens := true
  rsd := 5
  seizeTarget := 0#32
  executeParasiteCheckpoint := 0#32
  pagesDropped := true
  checkpointResponseSent := true
  accepts := true
  received := []
  stack := [0, 0, 0, 0, 7, 0, 0, 0]
  executeParasiteRestore := fun _ => 0#32
  restoreResponseSent := true

theorem silentPeer_not_settlesTarget :
    ¬ SettlesTarget 42 (applicationWorker true silentPeer 42) := by
  have hworker : applicationWorker true silentPeer 42 =
      [.bind 42, .dropPages 42, .respondCheckpoint .ok true, .accept true, .readCommand [],
        .kill 7, .unseizeTarget, .cleanupPid 7, .respondRestore .errorGeneral true, .closeRsd,
        .removeRestoreSocket 42, .exit (-1#32)] := by
    decide
  rw [hworker]
  refine mt (settlesTarget_first_iff [.bind 42, .dropPages 42, .respondCheckpoint .ok true,
    .accept true, .readCommand [], .kill 7] .unseizeTarget _ ?_ trivial ?_).mp ?_
  · simp [WorkerAction.LetsGo]
  · simp
  · simp [WorkerAction.Settles]

def checkpointFive : ServiceCommand := { cmd := memcrCheckpoint, pid := 5 }

def checkpointSix : ServiceCommand := { cmd := memcrCheckpoint, pid := 6 }

/-- Nothing in the format keeps a client from naming no process at all. -/
def checkpointMinusOne : ServiceCommand := { cmd := memcrCheckpoint, pid := -1 }

def restoreFive : ServiceCommand := { cmd := memcrRestore, pid := 5 }

/-- A worker whose calls all succeed and that is told to restore target 5,
before its checkpoint has dropped a page. -/
def willing : WorkerEnv :=
  { silentPeer with pagesDropped := false, received := restoreFive.bytes }

end Memcr.WorkerProcess
