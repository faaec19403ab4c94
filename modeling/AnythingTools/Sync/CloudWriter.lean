import AnythingTools.Machine
import AnythingTools.Sync.SyncOperations

namespace Sync
open Relational Relational.Database
set_option autoImplicit true

inductive Operation where
  | upsert
  | delete
deriving DecidableEq, Repr

/-- The key of a task: the name of a column, or a tuple of names. -/
inductive PkCol where
  | one (c : String)
  | several (cs : List String)
deriving DecidableEq, Repr

def PkCol.cols : PkCol → List String
  | .one c => [c]
  | .several cs => cs

/-- Rows to be written to the cloud. -/
structure CloudWriteTask where
  tableName : String
  operation : Operation
  records : List Row
  pkCol : PkCol := .one "id"
deriving DecidableEq, Repr

def cloudWriteBatch (tableName : String) (records : List Row) (pkCol : PkCol) : CloudWriteTask :=
  { tableName, operation := .upsert, records, pkCol }

def cloudWrite (tableName : String) (rowData : Row) (pkCol : PkCol) : CloudWriteTask :=
  cloudWriteBatch tableName [rowData] pkCol

/-- `enqueue_cloud_delete` with a scalar key. -/
def cloudDelete (tableName : String) (pkVal : Value) (pkCol : String) : CloudWriteTask :=
  { tableName, operation := .delete, records := [[(pkCol, pkVal)]], pkCol := .one pkCol }

/-- What the writer collects records by. -/
structure BatchKey where
  tableName : String
  operation : Operation
  pkCol : PkCol
deriving DecidableEq, Repr

def CloudWriteTask.key (task : CloudWriteTask) : BatchKey :=
  ⟨task.tableName, task.operation, task.pkCol⟩

/-- The records of each key, the keys in the order of their first task. -/
abbrev BatchBuffer := List (BatchKey × List Row)

def addTask : BatchBuffer → CloudWriteTask → BatchBuffer
  | [], task => [(task.key, task.records)]
  | (k, rs) :: buffer, task =>
    if k = task.key then (k, rs ++ task.records) :: buffer else (k, rs) :: addTask buffer task

/-- The buffer after the tasks of a batch. -/
def bufferOf (batch : List CloudWriteTask) : BatchBuffer := batch.foldl addTask []

def maxBatchSize : Nat := 100

def cloudQueueSize : Nat := 10000

inductive LoopPhase where
  | idle
  | top
  | getting
  | ended
deriving DecidableEq, Repr

/-- The queue with its counter, the flag, and the loop with the tasks of its buffer and the
batches it has passed to `_flush_batch`. -/
structure LoopState where
  queue : List (Option CloudWriteTask) := []
  unfinishedTasks : Nat := 0
  shutdown : Bool := false
  phase : LoopPhase := .idle
  batch : List CloudWriteTask := []
  flushed : List (List CloudWriteTask) := []
  accepted : List CloudWriteTask := []
  sentinels : Nat := 0
deriving DecidableEq

inductive LoopStep where
  | put (task : CloudWriteTask)
  | putSentinel
  | setShutdown
  | start (active : Bool)
  | check
  | get (due : Bool)

def shouldFlush (batch : List CloudWriteTask) (due : Bool) : Bool :=
  ((bufferOf batch).any fun g => decide (maxBatchSize ≤ g.2.length)) ||
    (due && (bufferOf batch).any fun g => !g.2.isEmpty)

def LoopState.flush (s : LoopState) : LoopState :=
  if s.batch = [] then s else { s with flushed := s.flushed ++ [s.batch], batch := [] }

/-- The buffer is flushed for the last time. -/
def LoopState.finish (s : LoopState) : LoopState := { s.flush with phase := .ended }

/-- The end of an iteration, with the tasks that it leaves in the queue. -/
def LoopState.iterate (s : LoopState) (queue : List (Option CloudWriteTask))
    (batch : List CloudWriteTask) (due : Bool) : LoopState :=
  let s' := { s with queue, batch, phase := .top }
  if shouldFlush batch due = true then s'.flush else s'

def loopStep (s : LoopState) : LoopStep → Option LoopState
  | .put task =>
    -- a full queue drops the task
    if s.queue.length < cloudQueueSize then
      some { s with
        queue := s.queue ++ [some task]
        unfinishedTasks := s.unfinishedTasks + 1
        accepted := s.accepted ++ [task] }
    else some s
  | .putSentinel =>
    if s.queue.length < cloudQueueSize then
      some { s with
        queue := s.queue ++ [none]
        unfinishedTasks := s.unfinishedTasks + 1
        sentinels := s.sentinels + 1 }
    else none
  | .setShutdown => some { s with shutdown := true }
  | .start active =>
    match s.phase with
    | .idle | .ended =>
      some { s with shutdown := false, phase := if active then .top else s.phase }
    | _ => some s
  | .check =>
    match s.phase with
    | .top => if s.shutdown = true then some s.finish else some { s with phase := .getting }
    | _ => none
  | .get due =>
    match s.phase with
    | .getting =>
      match s.queue with
      | none :: queue => some { s with queue }.finish
      | some task :: queue => some (s.iterate queue (s.batch ++ [task]) due)
      | [] => some (s.iterate [] s.batch due)
    | _ => none

/-- The accepted tasks that are not flushed yet. -/
def LoopState.pending (s : LoopState) : List CloudWriteTask := s.batch ++ s.queue.filterMap id

def recordsOf (tasks : List CloudWriteTask) : List (BatchKey × Row) :=
  tasks.flatMap fun task => task.records.map fun r => (task.key, r)

/-- When the loop has ended every record of every accepted task was passed to `_flush_batch`, and
the counter of the queue is zero exactly when every accepted task was. -/
def Accounted (s : LoopState) : Prop :=
  (s.phase = .ended →
    ∀ p, (recordsOf s.accepted).count p ≤ (recordsOf s.flushed.flatten).count p) ∧
  (s.unfinishedTasks = 0 ↔ ∀ task, s.accepted.count task ≤ s.flushed.flatten.count task)

/-- Accepted tasks are flushed in their order, and the counter is never taken down. -/
structure Accounts (s : LoopState) : Prop where
  order : s.accepted = s.flushed.flatten ++ s.pending
  unfinished : s.unfinishedTasks = s.accepted.length + s.sentinels

theorem pending_flush (s : LoopState) :
    s.flush.flushed.flatten ++ s.flush.pending = s.flushed.flatten ++ s.pending := by
  rw [LoopState.flush]
  split
  · rfl
  · rw [LoopState.pending, LoopState.pending, List.flatten_append, List.flatten_singleton,
      List.nil_append, List.append_assoc]

theorem accounts_flush (h : Accounts s) : Accounts s.flush := by
  have hp := pending_flush s
  have hkeep : s.flush.accepted = s.accepted ∧ s.flush.sentinels = s.sentinels ∧
      s.flush.unfinishedTasks = s.unfinishedTasks := by
    rw [LoopState.flush]
    split <;> exact ⟨rfl, rfl, rfl⟩
  constructor
  · rw [hkeep.1, hp]
    exact h.order
  · rw [hkeep.1, hkeep.2.1, hkeep.2.2]
    exact h.unfinished

theorem accounts_finish (h : Accounts s) : Accounts s.finish where
  order := (accounts_flush h).order
  unfinished := (accounts_flush h).unfinished

theorem accounts_iterate (h : Accounts s)
    (hp : batch ++ queue.filterMap id = s.pending) : Accounts (s.iterate queue batch due) := by
  have hs : Accounts { s with queue, batch, phase := .top } := by
    constructor
    · rw [LoopState.pending, hp]
      exact h.order
    · exact h.unfinished
  rw [LoopState.iterate]
  split
  · exact accounts_flush hs
  · exact hs

theorem accounts_step (h : loopStep s a = some s') (hs : Accounts s) : Accounts s' := by
  cases a with
  | put task =>
    rw [loopStep] at h
    split at h
    · cases h
      constructor
      · rw [LoopState.pending, List.filterMap_append]
        change s.accepted ++ [task] = s.flushed.flatten ++ (s.batch ++ (_ ++ [task]))
        rw [hs.order, LoopState.pending, List.append_assoc, List.append_assoc]
      · change s.unfinishedTasks + 1 = (s.accepted ++ [task]).length + s.sentinels
        rw [hs.unfinished, List.length_append, List.length_singleton]
        omega
    · cases h
      exact hs
  | putSentinel =>
    rw [loopStep] at h
    split at h
    · cases h
      constructor
      · rw [LoopState.pending, List.filterMap_append]
        change s.accepted = s.flushed.flatten ++ (s.batch ++ (_ ++ []))
        rw [List.append_nil]
        exact hs.order
      · change s.unfinishedTasks + 1 = s.accepted.length + (s.sentinels + 1)
        rw [hs.unfinished]
        omega
    · cases h
  | setShutdown =>
    cases h
    exact ⟨hs.order, hs.unfinished⟩
  | start active =>
    rw [loopStep] at h
    split at h
    · cases h
      exact ⟨hs.order, hs.unfinished⟩
    · cases h
      exact ⟨hs.order, hs.unfinished⟩
    · cases h
      exact hs
  | check =>
    rw [loopStep] at h
    split at h
    · split at h
      · cases h
        exact accounts_finish hs
      · cases h
        exact ⟨hs.order, hs.unfinished⟩
    · cases h
  | get due =>
    rw [loopStep] at h
    split at h
    · split at h
      next queue hq =>
        cases h
        apply accounts_finish
        constructor
        · have ho := hs.order
          rw [LoopState.pending, hq] at ho
          exact ho
        · exact hs.unfinished
      next task queue hq =>
        cases h
        apply accounts_iterate hs
        rw [LoopState.pending, hq, List.append_assoc]
        rfl
      next hq =>
        cases h
        apply accounts_iterate hs
        rw [LoopState.pending, hq]
    · cases h

theorem accounts_run (h : Machine.run loopStep {} as = some s) : Accounts s :=
  Machine.run_preserves (fun _ _ _ => accounts_step) h ⟨rfl, rfl⟩

theorem count_append_le_iff [BEq α] [LawfulBEq α] {l l' : List α} :
    (∀ a, (l ++ l').count a ≤ l.count a) ↔ l' = [] := by
  constructor
  · intro h
    rw [List.eq_nil_iff_forall_not_mem]
    intro a ha
    have hl := h a
    have hpos := List.count_pos_iff.2 ha
    rw [List.count_append] at hl
    omega
  · intro h a
    rw [h, List.append_nil]

/-- The accounts are right before anything is put, and otherwise just as long as a task is left
to flush and the loop does not end with one of its records. -/
theorem accounted_iff (h : Machine.run loopStep {} as = some s) :
    Accounted s ↔ (s.accepted = [] ∧ s.sentinels = 0) ∨
      s.pending ≠ [] ∧ (s.phase = .ended → ∀ task ∈ s.pending, task.records = []) := by
  obtain ⟨ho, hu⟩ := accounts_run h
  have hrecords : recordsOf s.accepted = recordsOf s.flushed.flatten ++ recordsOf s.pending := by
    rw [ho, recordsOf, List.flatMap_append]
    rfl
  have hnone : recordsOf s.pending = [] ↔ ∀ task ∈ s.pending, task.records = [] := by
    rw [recordsOf, List.flatMap_eq_nil_iff]
    simp only [List.map_eq_nil_iff]
  rw [Accounted, hrecords, count_append_le_iff, hnone, hu, Nat.add_eq_zero_iff,
    List.length_eq_zero_iff]
  have hpending : (∀ task, s.accepted.count task ≤ s.flushed.flatten.count task) ↔
      s.pending = [] := by
    rw [ho]
    exact count_append_le_iff
  rw [hpending]
  have hempty (he : s.accepted = []) : s.pending = [] := by
    rw [he] at ho
    exact (List.append_eq_nil_iff.1 ho.symm).2
  constructor
  · intro ⟨hend, hzero⟩
    by_cases hp : s.pending = []
    · exact .inl (hzero.2 hp)
    · exact .inr ⟨hp, hend⟩
  · intro hor
    rcases hor with hzero | ⟨hp, hend⟩
    · have hp := hempty hzero.1
      refine ⟨?_, iff_of_true hzero hp⟩
      intro _ task ht
      rw [hp] at ht
      cases ht
    · exact ⟨hend, iff_of_false (fun hz => hp (hempty hz.1)) hp⟩

def tickerTask (ticker : String) : CloudWriteTask :=
  cloudWrite "sf_tickers" [("ticker", .text ticker)] (.one "ticker")

/-- The flag is set while a task is in the queue, which the loop then leaves there. -/
def flagRaised : List LoopStep :=
  [.start true, .check, .put (tickerTask "AAPL"), .get false, .put (tickerTask "MSFT"),
    .setShutdown, .check]

/-- Everything is flushed before the sentinel comes. -/
def drained : List LoopStep :=
  [.start true, .put (tickerTask "AAPL"), .check, .get true, .putSentinel, .check, .get false]

def afterFlag : LoopState := (Machine.run loopStep {} flagRaised).getD {}

def afterDrain : LoopState := (Machine.run loopStep {} drained).getD {}

/-- The loop ends without a record that was accepted, or with everything flushed and the counter
still up. -/
theorem not_accounted :
    (Machine.run loopStep {} flagRaised = some afterFlag ∧ afterFlag.phase = .ended ∧
      afterFlag.flushed.flatten = [tickerTask "AAPL"] ∧
      afterFlag.accepted = [tickerTask "AAPL", tickerTask "MSFT"] ∧ ¬ Accounted afterFlag) ∧
    Machine.run loopStep {} drained = some afterDrain ∧ afterDrain.phase = .ended ∧
      afterDrain.flushed.flatten = afterDrain.accepted ∧ afterDrain.unfinishedTasks = 2 ∧
      ¬ Accounted afterDrain := by
  refine ⟨⟨by decide, by decide, by decide, by decide, ?_⟩, by decide, by decide, by decide,
    by decide, ?_⟩
  · intro h
    have hcount := h.1 (by decide) ((tickerTask "MSFT").key, [("ticker", .text "MSFT")])
    revert hcount
    decide
  · intro h
    have hflushed : afterDrain.flushed.flatten = afterDrain.accepted := by decide
    have hzero := h.2.2 fun task => by rw [hflushed]
    revert hzero
    decide

theorem accounted_afterFlag :
    Accounted afterFlag ↔ (afterFlag.accepted = [] ∧ afterFlag.sentinels = 0) ∨
      afterFlag.pending ≠ [] ∧
        (afterFlag.phase = .ended → ∀ task ∈ afterFlag.pending, task.records = []) := by
  have hrun : Machine.run loopStep {} flagRaised = some afterFlag := by decide
  exact accounted_iff hrun

end Sync
