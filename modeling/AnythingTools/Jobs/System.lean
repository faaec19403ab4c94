import Mathlib.Data.List.Sort
import AnythingTools.Machine
import AnythingTools.Jobs.PollTime
import AnythingTools.Jobs.Worker

namespace Jobs
open Calendar
set_option autoImplicit true

/-- What the `INSERT` of `enqueue_tool` says of a job; its other columns take their defaults. -/
structure Submission where
  jobId : String
  toolName : String
  argsJson : String := "\x7b\x7d"
  createdAt : String
  updatedAt : String

def Submission.job (sub : Submission) : Job :=
  { jobId := sub.jobId, sessionId := "0", toolName := sub.toolName, argsJson := sub.argsJson,
    status := .queued, createdAt := sub.createdAt, updatedAt := sub.updatedAt }

/-- A statement in the queue of the writer. The updates of `resume_job` are told from the others. -/
inductive Write where
  | insert (sub : Submission)
  | update (u : Update) (resumes : Bool := false)

/-- The rows of `jobs`, whose primary key is `job_id`. -/
structure Table where
  rows : List Job
  primaryKey : (rows.map Job.jobId).Nodup

theorem map_jobId_apply (u : Update) (rows : List Job) :
    (rows.map u.apply).map Job.jobId = rows.map Job.jobId := by
  rw [List.map_map]
  exact List.map_congr_left fun j _ => jobId_apply u j

theorem nodup_concat_job {rows : List Job} (h : (rows.map Job.jobId).Nodup)
    (hj : j.jobId ∉ rows.map Job.jobId) : ((rows ++ [j]).map Job.jobId).Nodup := by
  rw [List.map_append, List.map_singleton]
  exact List.nodup_append.2 ⟨h, List.nodup_singleton _, by
    intro a ha b hb
    rw [List.mem_singleton] at hb
    rw [hb]
    exact fun he => hj (he ▸ ha)⟩

/-- The primary key refuses a second row of a job. -/
def Table.commit (jobs : Table) : Write → Table
  | .insert sub =>
    if h : sub.job.jobId ∈ jobs.rows.map Job.jobId then jobs
    else ⟨jobs.rows ++ [sub.job], nodup_concat_job jobs.primaryKey h⟩
  | .update u _ => ⟨jobs.rows.map u.apply, (map_jobId_apply u jobs.rows).symm ▸ jobs.primaryKey⟩

def Table.find (jobs : Table) (jobId : String) : Option Job :=
  jobs.rows.find? fun j => decide (j.jobId = jobId)

theorem mem_commit_insert {jobs : Table} (h : j ∈ (jobs.commit (.insert sub)).rows) :
    j ∈ jobs.rows ∨ j = sub.job := by
  rw [Table.commit] at h
  split at h
  · exact .inl h
  · rcases List.mem_append.1 h with h | h
    · exact .inl h
    · exact .inr (List.mem_singleton.1 h)

theorem subset_commit_insert (jobs : Table) (sub : Submission) :
    jobs.rows ⊆ (jobs.commit (.insert sub)).rows := by
  rw [Table.commit]
  split
  · exact List.Subset.refl _
  · exact List.subset_append_left _ _

theorem exists_commit_insert (jobs : Table) (sub : Submission) :
    ∃ j ∈ (jobs.commit (.insert sub)).rows, j.jobId = sub.job.jobId := by
  rw [Table.commit]
  split
  next h =>
    obtain ⟨j, hj, hid⟩ := List.mem_map.1 h
    exact ⟨j, hj, hid⟩
  next => exact ⟨sub.job, List.mem_append_right _ (List.mem_singleton_self _), rfl⟩

theorem find_commit_update (jobs : Table) (u : Update) (b : Bool) (jobId : String) :
    (jobs.commit (.update u b)).find jobId = (jobs.find jobId).map u.apply := by
  have hp : ((fun j => decide (j.jobId = jobId)) ∘ u.apply) =
      fun j : Job => decide (j.jobId = jobId) := by
    funext j
    rw [Function.comp_apply, jobId_apply]
  rw [Table.find, Table.commit, List.find?_map, hp, Table.find]

theorem find_commit_insert (jobs : Table) (sub : Submission) (jobId : String) :
    (jobs.commit (.insert sub)).find jobId =
      (jobs.find jobId).or (if sub.jobId = jobId then some sub.job else none) := by
  rw [Table.commit]
  split
  next h =>
    by_cases hid : sub.jobId = jobId
    · obtain ⟨j, hj, hjid⟩ := List.mem_map.1 h
      have hsome : (jobs.find jobId).isSome = true := by
        rw [Table.find, List.find?_isSome]
        exact ⟨j, hj, decide_eq_true (hjid.trans hid)⟩
      obtain ⟨row, hrow⟩ := Option.isSome_iff_exists.1 hsome
      rw [hrow, Option.some_or]
    · rw [if_neg hid, Option.or_none]
  next h =>
    have hone : [sub.job].find? (fun j => decide (j.jobId = jobId)) =
        if sub.jobId = jobId then some sub.job else none := by
      by_cases hid : sub.jobId = jobId
      · rw [if_pos hid]
        exact List.find?_cons_of_pos (decide_eq_true hid)
      · rw [if_neg hid]
        exact List.find?_cons_of_neg fun hd => hid (of_decide_eq_true hd)
    rw [Table.find, List.find?_append, hone, Table.find]

theorem find_some {jobs : Table} (h : jobs.find jobId = some j) :
    j ∈ jobs.rows ∧ j.jobId = jobId := by
  rw [Table.find] at h
  have hp := List.find?_some h
  exact ⟨List.mem_of_find?_eq_some h, of_decide_eq_true hp⟩

theorem find_of_mem {jobs : Table} (h : j ∈ jobs.rows) : jobs.find j.jobId = some j := by
  have hsome : (jobs.find j.jobId).isSome = true := by
    rw [Table.find, List.find?_isSome]
    exact ⟨j, h, decide_eq_true rfl⟩
  obtain ⟨row, hrow⟩ := Option.isSome_iff_exists.1 hsome
  obtain ⟨hmem, hid⟩ := find_some hrow
  rw [hrow, List.inj_on_of_nodup_map jobs.primaryKey hmem h hid]

/-- The `WHERE` of the manager's poll. -/
def selects (cutoff : Option String) (j : Job) : Bool :=
  decide (j.status ∈ [.queued, .interrupted]) ||
    (decide (j.status = .pendingCallback) && retryDue j.updatedAt cutoff)

theorem status_of_selects (h : selects cutoff j = true) :
    j.status ∈ [.queued, .interrupted, .pendingCallback] := by
  rw [selects, Bool.or_eq_true, Bool.and_eq_true, decide_eq_true_eq, decide_eq_true_eq] at h
  rcases h with h | ⟨h, -⟩
  · exact List.mem_append_left [JobStatus.pendingCallback] h
  · rw [h]
    decide

/-- `ORDER BY status ASC, created_at ASC`. -/
def pollOrder (a b : Job) : Prop :=
  a.status.text < b.status.text ∨ a.status.text = b.status.text ∧ a.createdAt ≤ b.createdAt

instance : DecidableRel pollOrder := fun a b =>
  inferInstanceAs (Decidable (a.status.text < b.status.text ∨
    a.status.text = b.status.text ∧ a.createdAt ≤ b.createdAt))

def pollQuery (cutoff : Option String) (jobs : Table) : List Job :=
  ((jobs.rows.filter (selects cutoff)).insertionSort pollOrder).take 5

theorem sublist_pollQuery (cutoff : Option String) (jobs : Table) :
    ∃ rows : List Job, rows.Perm (jobs.rows.filter (selects cutoff)) ∧
      (pollQuery cutoff jobs).Sublist rows :=
  ⟨_, List.perm_insertionSort _ _, List.take_sublist _ _⟩

theorem mem_pollQuery (h : r ∈ pollQuery cutoff jobs) :
    r ∈ jobs.rows ∧ selects cutoff r = true := by
  obtain ⟨rows, hperm, hsub⟩ := sublist_pollQuery cutoff jobs
  exact List.mem_filter.1 (hperm.subset (hsub.subset h))

theorem nodup_pollQuery (cutoff : Option String) (jobs : Table) :
    ((pollQuery cutoff jobs).map Job.jobId).Nodup := by
  obtain ⟨rows, hperm, hsub⟩ := sublist_pollQuery cutoff jobs
  have hrows : (rows.map Job.jobId).Nodup :=
    (hperm.map Job.jobId).nodup_iff.2
      (jobs.primaryKey.sublist (List.filter_sublist.map Job.jobId))
  exact hrows.sublist (hsub.map Job.jobId)

/-- What a tool's `check_resume_state` reports. -/
structure ResumeReport where
  resumable : Bool
  message : String

structure HttpError where
  statusCode : Nat
  detail : String

/-- `resume_job`: its answer, and the updates that it enqueues. There is no report of a tool without
a resume handler. -/
def resumeJob (maxResumeAttempts : Nat) (jobs : Table) (jobId : String)
    (report : Option ResumeReport) (ts : String) : Except HttpError Unit × List Update :=
  match jobs.find jobId with
  | none => (.error ⟨404, "Job not found"⟩, [])
  | some row =>
    if row.status = .pausedForHitl then
      (.error ⟨409, "Job is currently awaiting local console input."⟩, [])
    else
      match report with
      | none =>
        (.error ⟨501, "Tool '" ++ row.toolName ++ "' does not implement resume handlers."⟩, [])
      | some report =>
        if report.resumable = false then (.error ⟨400, report.message⟩, [])
        else if maxResumeAttempts ≤ row.resumeCount then
          (.error ⟨400, "Maximum resume attempts exceeded (Poison pill protection)."⟩,
            [setStatus .failed jobId ts])
        else (.ok (), [requeue jobId ts])

theorem resumeJob_cases (maxResumeAttempts : Nat) (jobs : Table) (jobId : String)
    (report : Option ResumeReport) (ts : String) :
    (resumeJob maxResumeAttempts jobs jobId report ts).1.isOk = true ∧
        (resumeJob maxResumeAttempts jobs jobId report ts).2 = [requeue jobId ts] ∨
      (resumeJob maxResumeAttempts jobs jobId report ts).1.isOk = false ∧
        ((resumeJob maxResumeAttempts jobs jobId report ts).2 = [] ∨
          (resumeJob maxResumeAttempts jobs jobId report ts).2 = [setStatus .failed jobId ts]) := by
  fun_cases resumeJob maxResumeAttempts jobs jobId report ts
  case case1 => exact .inr ⟨rfl, .inl rfl⟩
  case case2 => exact .inr ⟨rfl, .inl rfl⟩
  case case3 => exact .inr ⟨rfl, .inl rfl⟩
  case case4 => exact .inr ⟨rfl, .inl rfl⟩
  case case5 => exact .inr ⟨rfl, .inr rfl⟩
  case case6 => exact .inl ⟨rfl, rfl⟩

/-- The updates of `run_startup_recovery`: unfinished jobs are interrupted, and those of them that
have been so for a week are failed. -/
def recovery (now : Instant) (jobs : Table) : List Update :=
  let running := jobs.rows.filter fun j => decide (j.status ∈ [.running, .pausedForHitl])
  let stale := jobs.rows.filter fun j => decide (j.status ∈ [.running, .pending, .interrupted]) &&
    retryDue j.updatedAt (retryCutoff now (7 * 86400))
  running.map (fun j =>
      { jobId := j.jobId, status := some .interrupted, updatedAt := sqlDatetime now.seconds }) ++
    stale.map fun j => { jobId := j.jobId, status := some .failed }

/-- Where an execution thread is. -/
inductive Stage where
  | tool
  | callback (normal : Normal)
  | retry (retryCount : Nat)
  | raised (status : JobStatus)
  | closing

/-- A thread of `_run_job` or of `_retry_callback_only`. -/
structure Thread where
  jobId : String
  toolName : String
  stage : Stage

/-- What a thread does next: its tool writes a status to the row of the job, by a log call that
carries a `status_state` or by itself; the tool returns, or there is none; a delivery ends; an
exception; the handler of `_run_job` has written the status of the exception. -/
inductive Action where
  | record (status : JobStatus) (ts : String)
  | returns (rawTb : String) (ends : Option (Except String String)) (ts : String)
  | delivered (success : Bool) (ts : String)
  | raises (err : String)
  | recordError (ts : String)

/-- Where the thread is then, the errors of its job in a row, and the updates that it enqueues. -/
def Thread.act (errors : Nat) : Thread → Action → Option (Stage × Nat × List Update)
  | ⟨jobId, _, .tool⟩, .record status ts => some (.tool, errors, [setStatus status jobId ts])
  | ⟨jobId, toolName, .tool⟩, .returns rawTb ends ts =>
    let normal := normalOf toolName rawTb (ends.map fun ends => { ends })
    if callbackApplies normal = true then some (.callback normal, errors, [])
    else some (.closing, 0, [storeResult normal jobId ts])
  | ⟨jobId, _, .callback normal⟩, .delivered success ts =>
    some (.closing, 0, [finalUpdate normal success jobId ts])
  | ⟨jobId, _, .retry retryCount⟩, .delivered success ts =>
    some (.closing, errors, [retryUpdate success retryCount jobId ts])
  | ⟨_, _, .tool⟩, .raises err =>
    some (.raised (onSystemError err errors).1, (onSystemError err errors).2, [])
  | ⟨_, _, .callback _⟩, .raises err =>
    some (.raised (onSystemError err errors).1, (onSystemError err errors).2, [])
  -- `_retry_callback_only` has no handler: the exception ends its thread.
  | ⟨_, _, .retry _⟩, .raises _ => some (.closing, errors, [])
  | ⟨jobId, _, .raised status⟩, .recordError ts =>
    some (.closing, errors, [setStatus status jobId ts])
  | _, _ => none

/-- A thread updates the row of its own job only, and resumes nothing. -/
theorem updates_act {t : Thread} (h : t.act errors a = some (stage, errors', us)) :
    ∀ u ∈ us, u.jobId = t.jobId ∧ u.countsResume = false := by
  intro u hu
  revert h
  fun_cases Thread.act errors t a <;> intro h <;> cases h <;>
    simp only [List.mem_singleton, List.not_mem_nil] at hu
  case case1 => exact hu ▸ ⟨rfl, rfl⟩
  case case3 => exact hu ▸ ⟨rfl, rfl⟩
  case case4 jobId toolName normal success ts =>
    rcases finalUpdate_cases normal success jobId ts with h | h
    · exact (hu.trans h) ▸ ⟨rfl, rfl⟩
    · exact (hu.trans h) ▸ ⟨rfl, rfl⟩
  case case5 jobId toolName retryCount success ts =>
    exact hu ▸ retryUpdate_jobId success retryCount jobId ts
  case case9 => exact hu ▸ ⟨rfl, rfl⟩

structure Config where
  queueSize : Nat := 1000
  maxResumeAttempts : Nat := 3
  retryDelay : Nat := 30

/-- The committed rows, the queue of the writer, the rows of the manager's last poll that it has not
handled yet, the live threads and `_system_errors`. -/
structure State where
  jobs : Table
  writeQueue : List Write := []
  managerStarted : Bool := false
  rows : List Job := []
  threads : List Thread := []
  systemErrors : String → Nat := fun _ => 0

def State.init : State where
  jobs := ⟨[], List.nodup_nil⟩

inductive Event where
  | submit (sub : Submission)
  | delete (jobId ts : String)
  | resume (jobId : String) (report : Option ResumeReport) (ts : String)
  | poll (now : Instant)
  | take (ts : String)
  | thread (i : Nat) (a : Action)
  | finish (i : Nat)
  | commit
  | reject
  | restart (now : Instant)

/-- The thread that the manager starts for a row of its poll. -/
def threadFor (r : Job) : Thread where
  jobId := r.jobId
  toolName := r.toolName
  stage := if r.status = .pendingCallback then .retry r.retryCount else .tool

/-- What each event does, but for the writes that it enqueues, and these. -/
def act (cfg : Config) (s : State) : Event → Option (State × List Write)
  | .submit sub => some ({ s with managerStarted := true }, [.insert sub])
  | .delete jobId ts => some (s, [.update (setStatus .cancelling jobId ts)])
  | .resume jobId report ts =>
    let (answer, us) := resumeJob cfg.maxResumeAttempts s.jobs jobId report ts
    some ({ s with managerStarted := s.managerStarted || answer.isOk }, us.map (.update · true))
  | .poll now =>
    if s.managerStarted = true ∧ s.rows = [] then
      some ({ s with rows := pollQuery (retryCutoff now cfg.retryDelay) s.jobs }, [])
    else none
  | .take ts =>
    match s.rows with
    | [] => none
    | r :: rows =>
      some ({ s with rows, threads := s.threads ++ [threadFor r] },
        if r.status = .pendingCallback then [] else [.update (setStatus .running r.jobId ts)])
  | .thread i a => do
    let t ← s.threads[i]?
    let (stage, errors, us) ← t.act (s.systemErrors t.jobId) a
    some ({ s with
      threads := s.threads.set i { t with stage }
      systemErrors := fun k => if k = t.jobId then errors else s.systemErrors k }, us.map .update)
  | .finish i =>
    match s.threads[i]? with
    | some ⟨_, _, .closing⟩ => some ({ s with threads := s.threads.eraseIdx i }, [])
    | _ => none
  | .commit =>
    match s.writeQueue with
    | [] => none
    | w :: ws => some ({ s with jobs := s.jobs.commit w, writeQueue := ws }, [])
  -- A statement that the database refuses is lost.
  | .reject =>
    match s.writeQueue with
    | [] => none
    | _ :: ws => some ({ s with writeQueue := ws }, [])
  | .restart now => some ({ jobs := s.jobs }, (recovery now s.jobs).map .update)

/-- `enqueue_write`: what a full queue does not take is dropped. -/
def State.enqueue (cfg : Config) (s : State) (ws : List Write) : State :=
  { s with writeQueue := s.writeQueue ++ ws.take (cfg.queueSize - s.writeQueue.length) }

def step (cfg : Config) (s : State) (e : Event) : Option State :=
  (act cfg s e).map fun (s', ws) => s'.enqueue cfg ws

theorem step_some (h : step cfg s e = some s') :
    ∃ s₁ ws, act cfg s e = some (s₁, ws) ∧ s' = s₁.enqueue cfg ws := by
  rw [step, Option.map_eq_some_iff] at h
  obtain ⟨⟨s₁, ws⟩, hact, hs'⟩ := h
  exact ⟨s₁, ws, hact, hs'.symm⟩

theorem act_resume (h : act cfg s (.resume jobId report ts) = some (s₁, ws)) :
    (∃ b, s₁ = { s with managerStarted := b }) ∧
      ((resumeJob cfg.maxResumeAttempts s.jobs jobId report ts).1.isOk = true ∧
          ws = [.update (requeue jobId ts) true] ∨
        ws = [] ∨ ws = [.update (setStatus .failed jobId ts) true]) := by
  rw [act, Option.some.injEq, Prod.mk.injEq] at h
  obtain ⟨rfl, rfl⟩ := h
  refine ⟨⟨_, rfl⟩, ?_⟩
  rcases resumeJob_cases cfg.maxResumeAttempts s.jobs jobId report ts with
    ⟨hok, hus⟩ | ⟨-, hus | hus⟩
  · exact .inl ⟨hok, by rw [hus, List.map_singleton]⟩
  · exact .inr (.inl (by rw [hus, List.map_nil]))
  · exact .inr (.inr (by rw [hus, List.map_singleton]))

theorem act_poll (h : act cfg s (.poll now) = some (s₁, ws)) :
    s.rows = [] ∧ ws = [] ∧
      s₁ = { s with rows := pollQuery (retryCutoff now cfg.retryDelay) s.jobs } := by
  rw [act] at h
  split at h
  next hrows =>
    cases h
    exact ⟨hrows.2, rfl, rfl⟩
  next => cases h

theorem act_take (h : act cfg s (.take ts) = some (s₁, ws)) :
    ∃ r rows, s.rows = r :: rows ∧
      ws = (if r.status = .pendingCallback then [] else [.update (setStatus .running r.jobId ts)]) ∧
      s₁ = { s with rows, threads := s.threads ++ [threadFor r] } := by
  rw [act] at h
  split at h
  next => cases h
  next r rows hrows =>
    cases h
    exact ⟨r, rows, hrows, rfl, rfl⟩

theorem act_thread (h : act cfg s (.thread i a) = some (s₁, ws)) :
    ∃ t stage errors us, s.threads[i]? = some t ∧
      t.act (s.systemErrors t.jobId) a = some (stage, errors, us) ∧ ws = us.map .update ∧
      s₁ = { s with
        threads := s.threads.set i { t with stage }
        systemErrors := fun k => if k = t.jobId then errors else s.systemErrors k } := by
  rw [act, Option.bind_eq_bind, Option.bind_eq_some_iff] at h
  obtain ⟨t, ht, h⟩ := h
  rw [Option.bind_eq_bind, Option.bind_eq_some_iff] at h
  obtain ⟨⟨stage, errors, us⟩, ha, h⟩ := h
  cases h
  exact ⟨t, stage, errors, us, ht, ha, rfl, rfl⟩

theorem act_finish (h : act cfg s (.finish i) = some (s₁, ws)) :
    ∃ t, s.threads[i]? = some t ∧ t.stage = .closing ∧ ws = [] ∧
      s₁ = { s with threads := s.threads.eraseIdx i } := by
  rw [act] at h
  split at h
  next ht =>
    cases h
    exact ⟨_, ht, rfl, rfl, rfl⟩
  next => cases h

theorem act_commit (h : act cfg s .commit = some (s₁, ws)) :
    ∃ w rest, s.writeQueue = w :: rest ∧ ws = [] ∧
      s₁ = { s with jobs := s.jobs.commit w, writeQueue := rest } := by
  rw [act] at h
  split at h
  next => cases h
  next w rest hq =>
    cases h
    exact ⟨w, rest, hq, rfl, rfl⟩

theorem act_reject (h : act cfg s .reject = some (s₁, ws)) :
    ∃ w rest, s.writeQueue = w :: rest ∧ ws = [] ∧ s₁ = { s with writeQueue := rest } := by
  rw [act] at h
  split at h
  next => cases h
  next w rest hq =>
    cases h
    exact ⟨w, rest, hq, rfl, rfl⟩

/-- What an event does to the committed rows and to the queue. -/
theorem act_store (h : act cfg s e = some (s₁, ws)) :
    (s₁.jobs = s.jobs ∧ s₁.writeQueue = s.writeQueue ∧ e ≠ .commit) ∨
    (e = .commit ∧ ∃ w rest, s.writeQueue = w :: rest ∧ s₁.jobs = s.jobs.commit w ∧
      s₁.writeQueue = rest ∧ ws = []) ∨
    (e = .reject ∧ ∃ w rest, s.writeQueue = w :: rest ∧ s₁.jobs = s.jobs ∧
      s₁.writeQueue = rest ∧ ws = []) ∨
    ∃ now, e = .restart now ∧ s₁.jobs = s.jobs ∧ s₁.writeQueue = [] ∧
      ws = (recovery now s.jobs).map .update := by
  cases e with
  | submit sub =>
    cases h
    exact .inl ⟨rfl, rfl, nofun⟩
  | delete jobId ts =>
    cases h
    exact .inl ⟨rfl, rfl, nofun⟩
  | resume jobId report ts =>
    obtain ⟨⟨b, rfl⟩, -⟩ := act_resume h
    exact .inl ⟨rfl, rfl, nofun⟩
  | poll now =>
    obtain ⟨-, -, rfl⟩ := act_poll h
    exact .inl ⟨rfl, rfl, nofun⟩
  | take ts =>
    obtain ⟨r, rows, -, -, rfl⟩ := act_take h
    exact .inl ⟨rfl, rfl, nofun⟩
  | thread i a =>
    obtain ⟨t, stage, errors, us, -, -, -, rfl⟩ := act_thread h
    exact .inl ⟨rfl, rfl, nofun⟩
  | finish i =>
    obtain ⟨t, -, -, -, rfl⟩ := act_finish h
    exact .inl ⟨rfl, rfl, nofun⟩
  | commit =>
    obtain ⟨w, rest, hq, hws, rfl⟩ := act_commit h
    exact .inr (.inl ⟨rfl, w, rest, hq, rfl, rfl, hws⟩)
  | reject =>
    obtain ⟨w, rest, hq, hws, rfl⟩ := act_reject h
    exact .inr (.inr (.inl ⟨rfl, w, rest, hq, rfl, rfl, hws⟩))
  | restart now =>
    cases h
    exact .inr (.inr (.inr ⟨now, rfl, rfl, rfl, rfl⟩))

/-- Only requests to resume a job enqueue updates that resume it. -/
theorem act_ordinary (h : act cfg s e = some (s₁, ws))
    (hne : ∀ jobId report ts, e ≠ .resume jobId report ts) :
    ∀ u b, .update u b ∈ ws → b = false ∧ u.countsResume = false := by
  intro u b hu
  cases e with
  | submit sub =>
    cases h
    rw [List.mem_singleton] at hu
    cases hu
  | delete jobId ts =>
    cases h
    rw [List.mem_singleton] at hu
    cases hu
    exact ⟨rfl, rfl⟩
  | resume jobId report ts => exact absurd rfl (hne jobId report ts)
  | poll now =>
    obtain ⟨-, rfl, -⟩ := act_poll h
    cases hu
  | take ts =>
    obtain ⟨r, rows, -, rfl, -⟩ := act_take h
    split at hu
    · cases hu
    · rw [List.mem_singleton] at hu
      cases hu
      exact ⟨rfl, rfl⟩
  | thread i a =>
    obtain ⟨t, stage, errors, us, -, ha, rfl, -⟩ := act_thread h
    obtain ⟨u', hu', he⟩ := List.mem_map.1 hu
    cases he
    exact ⟨rfl, (updates_act ha u hu').2⟩
  | finish i =>
    obtain ⟨t, -, -, rfl, -⟩ := act_finish h
    cases hu
  | commit =>
    obtain ⟨w, rest, -, rfl, -⟩ := act_commit h
    cases hu
  | reject =>
    obtain ⟨w, rest, -, rfl, -⟩ := act_reject h
    cases hu
  | restart now =>
    cases h
    obtain ⟨u', hu', he⟩ := List.mem_map.1 hu
    cases he
    rw [recovery] at hu'
    rcases List.mem_append.1 hu' with hu' | hu'
    · obtain ⟨j, -, rfl⟩ := List.mem_map.1 hu'
      exact ⟨rfl, rfl⟩
    · obtain ⟨j, -, rfl⟩ := List.mem_map.1 hu'
      exact ⟨rfl, rfl⟩

def scrape : Submission where
  jobId := "01HX"
  toolName := "scraper"
  createdAt := "2024-05-01T10:00:00+00:00"
  updatedAt := "2024-05-01T10:00:00+00:00"

/-- A job is submitted, and the manager starts a thread for it. -/
def taken : List Event :=
  [.submit scrape, .commit, .poll (may1 1 (by decide)), .take "2024-05-01T10:00:01+00:00"]

end Jobs
