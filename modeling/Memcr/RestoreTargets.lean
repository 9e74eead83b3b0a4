import Memcr.WorkerProcess

namespace Memcr.RestoreTargets

open Memcr.ByteWords
open Memcr.WorkerProcess

/-- The pid that `execute_parasite_restore`, `kill` or `cleanup_pid` is called for. -/
def actsOn : WorkerAction → Option Int
  | .restore pid _ => some pid
  | .kill pid => some pid
  | .cleanupPid pid => some pid
  | _ => none

/-- Nothing is done to another process than `pid`. -/
def ActsOnlyOn (pid : Int) (actions : List WorkerAction) : Prop :=
  ∀ action ∈ actions, ∀ other, actsOn action = some other → other = pid

/-- The pid of a message, with what the stack held behind the end of a short one. -/
def pidOfMessage (received stack : List Byte) : Int :=
  toInt32 (ByteWords.ofBytes (((received ++ stack.drop received.length).drop 4).take 4))

section Messages

variable {env : WorkerEnv} {pid : Int} {actions more : List WorkerAction}

theorem postCheckpointCmd_pid (env : WorkerEnv) :
    (postCheckpointCmd env).pid = pidOfMessage env.received env.stack := by
  have hsize : (env.received.take serviceCommandSize).length =
      min serviceCommandSize env.received.length := List.length_take
  have hbytes : ((env.received.take serviceCommandSize ++
        env.stack.drop (env.received.take serviceCommandSize).length).drop 4).take 4 =
      ((env.received ++ env.stack.drop env.received.length).drop 4).take 4 := by
    rcases le_total env.received.length serviceCommandSize with hshort | hlong
    · rw [List.take_of_length_le hshort]
    · -- both end with the eighth byte of the message
      rw [hsize, Nat.min_eq_left hlong]
      simp only [serviceCommandSize] at hlong ⊢
      have htake : (env.received.take 8).length = 8 := List.length_take_of_le hlong
      rw [List.drop_append_of_le_length (by omega), List.drop_append_of_le_length (by omega),
        List.take_append_of_le_length (by rw [List.length_drop]; omega),
        List.take_append_of_le_length (by rw [List.length_drop]; omega), List.drop_take,
        List.take_take]
      rfl
  rw [pidOfMessage, ← hbytes]
  rfl

theorem actsOnlyOn_cons {action : WorkerAction} :
    ActsOnlyOn pid (action :: actions) ↔
      (∀ other, actsOn action = some other → other = pid) ∧ ActsOnlyOn pid actions :=
  List.forall_mem_cons

theorem actsOnlyOn_append :
    ActsOnlyOn pid (actions ++ more) ↔ ActsOnlyOn pid actions ∧ ActsOnlyOn pid more :=
  List.forall_mem_append

theorem actsOnlyOn_nil : ActsOnlyOn pid [] :=
  List.forall_mem_nil _

end Messages

theorem restorePhase_own_target_iff (dir : Bool) (env : WorkerEnv) (pid : Int) :
    ActsOnlyOn pid (restorePhase dir env pid) ↔ ActsOnlyOn pid (restoreWorker env).2 := by
  simp only [restorePhase, actsOnlyOn_append]
  cases dir <;> simp [actsOnlyOn_cons, actsOnlyOn_nil, actsOn]

theorem givesUp_own_target {dir : Bool} {env : WorkerEnv} {pid : Int}
    {actions : List WorkerAction} (h : GivesUp dir env pid actions) :
    ActsOnlyOn pid actions ∧ .accept true ∉ actions := by
  rcases h with ⟨bound, sent, code, -, rfl | rfl⟩ | ⟨dropped, sent, code, -, -, rfl | rfl⟩
  · simp [actsOnlyOn_cons, actsOnlyOn_nil, actsOn]
  · simp [actsOnlyOn_cons, actsOnlyOn_nil, actsOn]
  · simp [actsOnlyOn_cons, actsOnlyOn_nil, actsOn]
  · simp [actsOnlyOn_cons, actsOnlyOn_nil, actsOn]

/-- A whole run of the worker: what it does before it accepts a connection is about
its own target. -/
theorem applicationWorker_own_target_iff (dir : Bool) (env : WorkerEnv) (pid : Int) :
    ActsOnlyOn pid (applicationWorker dir env pid) ↔
      (.accept true ∈ applicationWorker dir env pid → ActsOnlyOn pid (restoreWorker env).2) := by
  rcases applicationWorker_cases dir env pid with
    hgives | ⟨-, -, -, dropped, hdropped, ⟨-, h⟩ | ⟨-, -, h⟩ | ⟨-, -, h⟩⟩
  · obtain ⟨hown, hnot⟩ := givesUp_own_target hgives
    exact iff_of_true hown (fun hmem => absurd hmem hnot)
  all_goals
    have hdrop : ActsOnlyOn pid dropped ∧ WorkerAction.accept true ∉ dropped := by
      rw [hdropped]
      split_ifs <;> simp [actsOnlyOn_cons, actsOnlyOn_nil, actsOn]
    rw [h]
  · simp [actsOnlyOn_cons, actsOnlyOn_append, actsOnlyOn_nil, actsOn, hdrop]
  · simp [actsOnlyOn_cons, actsOnlyOn_append, actsOnlyOn_nil, actsOn, hdrop]
  · simp [actsOnlyOn_cons, actsOnlyOn_append, actsOn, hdrop, restorePhase_own_target_iff]

/-- A restore worker acts on its own target alone exactly when the message on its
socket, completed by the stack, names it. -/
theorem restoreWorker_own_target_iff (env : WorkerEnv) (pid : Int) :
    ActsOnlyOn pid (restoreWorker env).2 ↔ pidOfMessage env.received env.stack = pid := by
  obtain ⟨ret, middle, hworker, hmiddle⟩ := restoreWorker_cases env
  rw [hworker, ← postCheckpointCmd_pid]
  rcases hmiddle with ⟨-, rfl⟩ | ⟨-, rfl | rfl⟩
  · simp [actsOnlyOn_cons, actsOnlyOn_nil, actsOn]
  · simp [actsOnlyOn_cons, actsOnlyOn_nil, actsOn]
  · simp [actsOnlyOn_cons, actsOnlyOn_nil, actsOn]

/-- Any peer can send the worker of process 4321 a RESTORE of process 7. -/
def otherPid : WorkerEnv where
  socketOpens := true
  fchmodWorks := true
  binds := true
  chmodWorks := true
  listens := true
  rsd := 5
  seizeTarget := 0#32
  executeParasiteCheckpoint := 0#32
  pagesDropped := true
  checkpointResponseSent := true
  accepts := true
  received := [101, 0, 0, 0, 7, 0, 0, 0]
  stack := List.replicate 8 0
  executeParasiteRestore := fun _ => 1#32
  restoreResponseSent := true

theorem otherPid_killed :
    applicationWorker true otherPid 4321 =
        [.bind 4321, .dropPages 4321, .respondCheckpoint .ok true, .accept true] ++
          restorePhase true otherPid 4321 ∧
      (restoreWorker otherPid).2 =
        [.readCommand [101, 0, 0, 0, 7, 0, 0, 0], .restore 7 1#32, .kill 7, .unseizeTarget,
          .cleanupPid 7] := by
  decide

end Memcr.RestoreTargets
