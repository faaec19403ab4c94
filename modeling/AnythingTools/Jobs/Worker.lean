import AnythingTools.Json

namespace Jobs
set_option autoImplicit true

/-- The statuses that the `jobs` table admits. -/
inductive JobStatus where
  | pending
  | queued
  | running
  | interrupted
  | pausedForHitl
  | completed
  | partialResult
  | pendingCallback
  | failed
  | abandoned
  | cancelling
  | skipped
deriving DecidableEq, Repr

def JobStatus.text : JobStatus → String
  | .pending => "PENDING"
  | .queued => "QUEUED"
  | .running => "RUNNING"
  | .interrupted => "INTERRUPTED"
  | .pausedForHitl => "PAUSED_FOR_HITL"
  | .completed => "COMPLETED"
  | .partialResult => "PARTIAL"
  | .pendingCallback => "PENDING_CALLBACK"
  | .failed => "FAILED"
  | .abandoned => "ABANDONED"
  | .cancelling => "CANCELLING"
  | .skipped => "SKIPPED"

def JobStatus.all : List JobStatus :=
  [.pending, .queued, .running, .interrupted, .pausedForHitl, .completed, .partialResult,
    .pendingCallback, .failed, .abandoned, .cancelling, .skipped]

/-- The output of a tool, parsed where it is JSON. -/
inductive Output where
  | parsed (v : Json)
  | raw (text : String)

/-- The dictionary that `_run_job` stores as `result_json`. -/
structure Normal where
  status : JobStatus
  result : Output
  attachmentPaths : List String := []

/-- A row of `jobs`. -/
structure Job where
  jobId : String
  sessionId : String := "0"
  toolName : String
  argsJson : String := "\x7b\x7d"
  status : JobStatus
  retryCount : Nat := 0
  resumeCount : Nat := 0
  createdAt : String
  updatedAt : String
  resultJson : Option Normal := none

/-- `UPDATE jobs SET ... WHERE job_id = ?`. -/
structure Update where
  jobId : String
  status : Option JobStatus := none
  resultJson : Option Normal := none
  retryCount : Option Nat := none
  countsResume : Bool := false
  updatedAt : Option String := none

def Update.apply (u : Update) (j : Job) : Job :=
  if j.jobId = u.jobId then
    { j with
      status := u.status.getD j.status
      resultJson := u.resultJson.or j.resultJson
      retryCount := u.retryCount.getD j.retryCount
      resumeCount := if u.countsResume then j.resumeCount + 1 else j.resumeCount
      updatedAt := u.updatedAt.getD j.updatedAt }
  else j

/-- The row once the writer has drained the updates. -/
def drain (j : Job) (us : List Update) : Job := us.foldl (fun j u => u.apply j) j

/-- The update of a status alone, as the API, the manager, the tools and the logger enqueue it. -/
def setStatus (s : JobStatus) (jobId ts : String) : Update :=
  { jobId, status := some s, updatedAt := ts }

/-- The update of `resume_job`. -/
def requeue (jobId ts : String) : Update :=
  { jobId, status := some .queued, countsResume := true, updatedAt := ts }

def storeResult (normal : Normal) (jobId ts : String) : Update :=
  { jobId, status := some normal.status, resultJson := some normal, updatedAt := ts }

def storePendingCallback (normal : Normal) (jobId ts : String) : Update :=
  { jobId, status := some .pendingCallback, resultJson := some normal, retryCount := some 1,
    updatedAt := ts }

/-- The update of `_retry_callback_only` after a delivery that succeeded or failed. -/
def retryUpdate (success : Bool) (retryCount : Nat) (jobId ts : String) : Update :=
  if success = true then { jobId, status := some .completed, updatedAt := ts }
  else if 3 ≤ retryCount + 1 then
    { jobId, status := some .partialResult, retryCount := some (retryCount + 1), updatedAt := ts }
  else { jobId, retryCount := some (retryCount + 1), updatedAt := ts }

structure ToolResult where
  output : String
  success : Bool
  attachmentPaths : Option (List String) := none

/-- A run of a tool: the statuses that it writes to the row of its job, and the text that it
returns or the text of the exception that it raises. -/
structure ToolRun where
  recorded : List JobStatus := []
  ends : Except String String

/-- `BaseTool.execute`. -/
def execute (run : ToolRun) : Except String ToolResult :=
  match run.ends with
  | .ok result => .ok { output := result, success := true }
  | .error exc => .error exc

def runToolSafely (rawTb : String) (run : ToolRun) : ToolResult :=
  match execute run with
  | .ok result => result
  | .error exc =>
    { output := "Tool Execution Failure: " ++ exc ++ "\n\nTraceback:\n" ++ rawTb, success := false }

/-- What `_run_job` makes of the run; there is none of a tool that the registry does not have. -/
def normalOf (toolName rawTb : String) : Option ToolRun → Normal
  | none => { status := .failed, result := .raw ("Tool " ++ toolName ++ " not found") }
  | some run =>
    let res := runToolSafely rawTb run
    let attachmentPaths := res.attachmentPaths.getD []
    if res.success = true then
      match Json.loads res.output with
      | some parsed => { status := .completed, result := .parsed parsed, attachmentPaths }
      | none => { status := .completed, result := .raw res.output, attachmentPaths }
    else { status := .failed, result := .raw res.output, attachmentPaths }

/-- Only these results are delivered. -/
def callbackApplies (normal : Normal) : Bool :=
  decide (normal.status ∈ [.completed, .partialResult])

/-- The last update of `_run_job`, after a delivery that succeeded or failed. -/
def finalUpdate (normal : Normal) (success : Bool) (jobId ts : String) : Update :=
  if callbackApplies normal = true then
    if success = true then storeResult normal jobId ts else storePendingCallback normal jobId ts
  else storeResult normal jobId ts

/-- The handler of `_run_job`: the status it sets, and the errors of the job in a row. -/
def onSystemError (err : String) (errors : Nat) : JobStatus × Nat :=
  if "PAUSED_FOR_HITL:".toList.isPrefixOf err.toList then (.pausedForHitl, errors)
  else if 3 ≤ errors + 1 then (.abandoned, 0)
  else (.interrupted, errors + 1)

@[simp] theorem jobId_apply (u : Update) (j : Job) : (u.apply j).jobId = j.jobId := by
  rw [Update.apply]
  split <;> rfl

theorem apply_of_ne (h : Job.jobId j ≠ Update.jobId u) : u.apply j = j := by
  rw [Update.apply, if_neg h]

theorem status_apply (h : Job.jobId j = Update.jobId u) :
    (u.apply j).status = u.status.getD j.status := by
  rw [Update.apply, if_pos h]

theorem resultJson_apply (h : Job.jobId j = Update.jobId u) :
    (u.apply j).resultJson = u.resultJson.or j.resultJson := by
  rw [Update.apply, if_pos h]

theorem retryCount_apply (h : Job.jobId j = Update.jobId u) :
    (u.apply j).retryCount = u.retryCount.getD j.retryCount := by
  rw [Update.apply, if_pos h]

theorem resumeCount_apply (h : Job.jobId j = Update.jobId u) :
    (u.apply j).resumeCount = if u.countsResume then j.resumeCount + 1 else j.resumeCount := by
  rw [Update.apply, if_pos h]

@[simp] theorem jobId_drain (j : Job) (us : List Update) : (drain j us).jobId = j.jobId := by
  induction us generalizing j with
  | nil => rfl
  | cons u us ih => exact (ih _).trans (jobId_apply u j)

theorem drain_append (j : Job) (us us' : List Update) :
    drain j (us ++ us') = drain (drain j us) us' := List.foldl_append

/-- Only the last update decides about what it writes. -/
theorem status_drain_concat (us : List Update) (h : Job.jobId j = Update.jobId u)
    (hs : u.status = some s) : (drain j (us ++ [u])).status = s := by
  rw [drain_append]
  change (u.apply (drain j us)).status = s
  rw [status_apply (by rw [jobId_drain, h]), hs, Option.getD_some]

theorem finalUpdate_cases (normal : Normal) (success : Bool) (jobId ts : String) :
    finalUpdate normal success jobId ts = storeResult normal jobId ts ∨
      finalUpdate normal success jobId ts = storePendingCallback normal jobId ts := by
  rw [finalUpdate]
  split
  · split
    · exact .inl rfl
    · exact .inr rfl
  · exact .inl rfl

theorem retryUpdate_jobId (success : Bool) (retryCount : Nat) (jobId ts : String) :
    (retryUpdate success retryCount jobId ts).jobId = jobId ∧
      (retryUpdate success retryCount jobId ts).countsResume = false := by
  rw [retryUpdate]
  split
  · exact ⟨rfl, rfl⟩
  · split
    · exact ⟨rfl, rfl⟩
    · exact ⟨rfl, rfl⟩

end Jobs
