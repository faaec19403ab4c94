import AnythingTools.Jobs.System

namespace Jobs
open Calendar
set_option autoImplicit true

/-- A COMPLETED job has its result. -/
def ResultsStored (s : State) : Prop :=
  ∀ j ∈ s.jobs.rows, j.status = .completed → j.resultJson.isSome = true

instance (s : State) : Decidable (ResultsStored s) :=
  inferInstanceAs (Decidable (∀ j ∈ s.jobs.rows, _ → _))

/-- The statuses that a job has only with its result. -/
def needsResult (status : JobStatus) : Bool := decide (status ∈ [.completed, .pendingCallback])

def hasResult (jobs : Table) (jobId : String) : Bool :=
  ((jobs.find jobId).bind Job.resultJson).isSome

/-- A log call within a tool carries COMPLETED only once the result of its job is stored. -/
def LogsAfterResult (s : State) : Event → Prop
  | .thread i (.record status _) =>
    ∀ t ∈ s.threads[i]?, needsResult status = true → hasResult s.jobs t.jobId = true
  | _ => True

instance (s : State) (e : Event) : Decidable (LogsAfterResult s e) :=
  match e with
  | .thread _ (.record _ _) => by unfold LogsAfterResult; infer_instance
  | .submit _ | .delete _ _ | .resume _ _ _ | .poll _ | .take _ | .finish _ | .commit
  | .reject | .restart _ | .thread _ (.returns _ _ _) | .thread _ (.delivered _ _)
  | .thread _ (.raises _) | .thread _ (.recordError _) => isTrue trivial

theorem hasResult_commit (w : Write) (h : hasResult jobs jobId = true) :
    hasResult (jobs.commit w) jobId = true := by
  rw [hasResult] at h ⊢
  cases hrow : jobs.find jobId with
  | none =>
    rw [hrow] at h
    cases h
  | some row =>
    rw [hrow, Option.bind_some] at h
    cases w with
    | insert sub =>
      rw [find_commit_insert, hrow]
      exact h
    | update u b =>
      rw [find_commit_update, hrow, Option.map_some, Option.bind_some]
      by_cases hid : row.jobId = u.jobId
      · rw [resultJson_apply hid, Option.isSome_or, h, Bool.or_true]
      · rw [apply_of_ne hid]
        exact h

theorem hasResult_of_mem {jobs : Table} (hj : j ∈ jobs.rows) (h : j.resultJson.isSome = true) :
    hasResult jobs j.jobId = true := by
  rw [hasResult, find_of_mem hj]
  exact h

theorem isSome_of_hasResult {jobs : Table} (hj : j ∈ jobs.rows)
    (h : hasResult jobs j.jobId = true) : j.resultJson.isSome = true := by
  rw [hasResult, find_of_mem hj] at h
  exact h

/-- The update leaves no job without a result that needs one. -/
def SoundUpdate (jobs : Table) (u : Update) : Prop :=
  ∀ status, u.status = some status → needsResult status = true →
    u.resultJson.isSome = true ∨ hasResult jobs u.jobId = true

def SoundThread (jobs : Table) (t : Thread) : Prop :=
  match t.stage with
  | .retry _ => hasResult jobs t.jobId = true
  | .raised status => needsResult status = false
  | _ => True

theorem needsResult_onSystemError (err : String) (errors : Nat) :
    needsResult (onSystemError err errors).1 = false := by
  rw [onSystemError]
  split
  · rfl
  · split
    · rfl
    · rfl

theorem soundUpdate_setStatus (h : needsResult status = true → hasResult jobs jobId = true) :
    SoundUpdate jobs (setStatus status jobId ts) := by
  intro st hst hn
  cases hst
  exact .inr (h hn)

theorem soundUpdate_finalUpdate (jobs : Table) (normal : Normal) (success : Bool)
    (jobId ts : String) : SoundUpdate jobs (finalUpdate normal success jobId ts) := by
  rcases finalUpdate_cases normal success jobId ts with h | h
  · rw [h]
    exact fun _ _ _ => .inl rfl
  · rw [h]
    exact fun _ _ _ => .inl rfl

theorem soundUpdate_retryUpdate (success : Bool) (retryCount : Nat) (ts : String)
    (h : hasResult jobs jobId = true) :
    SoundUpdate jobs (retryUpdate success retryCount jobId ts) := by
  intro status _ _
  rw [(retryUpdate_jobId success retryCount jobId ts).1]
  exact .inr h

/-- A sound thread stays sound, and enqueues sound updates. -/
theorem sound_act {t : Thread} (h : t.act errors a = some (stage, errors', us))
    (ht : SoundThread jobs t)
    (hc : ∀ status ts, a = .record status ts → needsResult status = true →
      hasResult jobs t.jobId = true) :
    SoundThread jobs { t with stage } ∧ ∀ u ∈ us, SoundUpdate jobs u := by
  revert h ht hc
  fun_cases Thread.act errors t a <;> intro h ht hc <;> cases h
  case case1 jobId toolName status ts =>
    refine ⟨trivial, ?_⟩
    intro u hu
    rw [List.mem_singleton.1 hu]
    exact soundUpdate_setStatus (hc status ts rfl)
  case case2 => exact ⟨trivial, fun _ hu => (List.not_mem_nil hu).elim⟩
  case case3 jobId toolName rawTb ends ts normal hn =>
    refine ⟨trivial, ?_⟩
    intro u hu
    rw [List.mem_singleton.1 hu]
    exact fun _ _ _ => .inl rfl
  case case4 jobId toolName normal success ts =>
    refine ⟨trivial, ?_⟩
    intro u hu
    rw [List.mem_singleton.1 hu]
    exact soundUpdate_finalUpdate jobs normal success jobId ts
  case case5 jobId toolName retryCount success ts =>
    refine ⟨trivial, ?_⟩
    intro u hu
    rw [List.mem_singleton.1 hu]
    exact soundUpdate_retryUpdate success retryCount ts ht
  case case6 jobId toolName err =>
    have hn := needsResult_onSystemError err errors
    exact ⟨hn, fun _ hu => (List.not_mem_nil hu).elim⟩
  case case7 jobId toolName normal err =>
    have hn := needsResult_onSystemError err errors
    exact ⟨hn, fun _ hu => (List.not_mem_nil hu).elim⟩
  case case8 => exact ⟨trivial, fun _ hu => (List.not_mem_nil hu).elim⟩
  case case9 jobId toolName status ts =>
    refine ⟨trivial, ?_⟩
    intro u hu
    rw [List.mem_singleton.1 hu]
    have hn : needsResult status = false := ht
    exact soundUpdate_setStatus fun hs => absurd hs (by rw [hn]; decide)

/-- A job that is COMPLETED or waits for its delivery has its result, and the updates and threads
leave it so. -/
structure Sound (s : State) : Prop where
  stored : ∀ j ∈ s.jobs.rows, needsResult j.status = true → j.resultJson.isSome = true
  queued : ∀ u b, .update u b ∈ s.writeQueue → SoundUpdate s.jobs u
  polled : ∀ r ∈ s.rows, r.status = .pendingCallback → hasResult s.jobs r.jobId = true
  threads : ∀ t ∈ s.threads, SoundThread s.jobs t

theorem sound_init : Sound State.init where
  stored _ h := (List.not_mem_nil h).elim
  queued _ _ h := (List.not_mem_nil h).elim
  polled _ h := (List.not_mem_nil h).elim
  threads _ h := (List.not_mem_nil h).elim

theorem SoundUpdate.commit {jobs : Table} (w : Write) (h : SoundUpdate jobs u) :
    SoundUpdate (jobs.commit w) u := by
  intro status hst hn
  rcases h status hst hn with hr | hr
  · exact .inl hr
  · exact .inr (hasResult_commit w hr)

theorem SoundThread.commit {jobs : Table} (w : Write) (h : SoundThread jobs t) :
    SoundThread (jobs.commit w) t := by
  obtain ⟨jobId, toolName, stage⟩ := t
  cases stage with
  | tool => trivial
  | callback normal => trivial
  | retry retryCount => exact hasResult_commit w h
  | raised status => exact h
  | closing => trivial

/-- A committed statement leaves no COMPLETED job without its result. -/
theorem stored_commit {jobs : Table} (w : Write)
    (hw : ∀ u b, w = .update u b → SoundUpdate jobs u)
    (h : ∀ j ∈ jobs.rows, needsResult j.status = true → j.resultJson.isSome = true) :
    ∀ j ∈ (jobs.commit w).rows, needsResult j.status = true → j.resultJson.isSome = true := by
  intro j hj hn
  cases w with
  | insert sub =>
    rw [Table.commit] at hj
    split at hj
    · exact h j hj hn
    · rcases List.mem_append.1 hj with hj | hj
      · exact h j hj hn
      · rw [List.mem_singleton.1 hj] at hn
        cases hn
  | update u b =>
    obtain ⟨row, hrow, rfl⟩ := List.mem_map.1 hj
    by_cases hid : row.jobId = u.jobId
    · rw [status_apply hid] at hn
      rw [resultJson_apply hid, Option.isSome_or, Bool.or_eq_true]
      cases hst : u.status with
      | none =>
        rw [hst] at hn
        exact .inr (h row hrow hn)
      | some status =>
        rw [hst] at hn
        rcases hw u b rfl status hst hn with hr | hr
        · exact .inl hr
        · rw [← hid] at hr
          exact .inr (isSome_of_hasResult hrow hr)
    · rw [apply_of_ne hid] at hn ⊢
      exact h row hrow hn

theorem sound_pollQuery {jobs : Table} (cutoff : Option String)
    (h : ∀ j ∈ jobs.rows, needsResult j.status = true → j.resultJson.isSome = true) :
    ∀ r ∈ pollQuery cutoff jobs, r.status = .pendingCallback → hasResult jobs r.jobId = true := by
  intro r hr hst
  have hmem : r ∈ jobs.rows := (mem_pollQuery hr).1
  exact hasResult_of_mem hmem (h r hmem (by rw [hst]; rfl))

theorem soundThread_threadFor {jobs : Table}
    (h : r.status = .pendingCallback → hasResult jobs r.jobId = true) :
    SoundThread jobs (threadFor r) := by
  rw [SoundThread, threadFor]
  by_cases hst : r.status = .pendingCallback
  · simp only [hst, if_true]
    exact h hst
  · simp only [hst, if_false]

theorem soundUpdate_recovery (now : Calendar.Instant) (jobs : Table) :
    ∀ u ∈ recovery now jobs, SoundUpdate jobs u := by
  intro u hu status hst hn
  rw [recovery] at hu
  rcases List.mem_append.1 hu with hu | hu
  · obtain ⟨j, -, rfl⟩ := List.mem_map.1 hu
    cases hst
    cases hn
  · obtain ⟨j, -, rfl⟩ := List.mem_map.1 hu
    cases hst
    cases hn

theorem Sound.commit {s : State} (hs : Sound s) (hq : s.writeQueue = w :: rest) :
    Sound { s with jobs := s.jobs.commit w, writeQueue := rest } where
  stored := by
    apply stored_commit w _ hs.stored
    intro u b hw
    exact hs.queued u b (by rw [hq, hw]; exact List.mem_cons_self)
  queued u b hu := (hs.queued u b (by rw [hq]; exact List.mem_cons_of_mem w hu)).commit w
  polled r hr hst := hasResult_commit w (hs.polled r hr hst)
  threads t ht := (hs.threads t ht).commit w

/-- An event keeps the state sound and enqueues sound updates. -/
theorem sound_event (hc : LogsAfterResult s e) (h : act cfg s e = some (s₁, ws)) (hs : Sound s) :
    Sound s₁ ∧ ∀ u b, .update u b ∈ ws → SoundUpdate s₁.jobs u := by
  cases e with
  | submit sub =>
    cases h
    refine ⟨⟨hs.stored, hs.queued, hs.polled, hs.threads⟩, ?_⟩
    intro u b hu
    cases List.mem_singleton.1 hu
  | delete jobId ts =>
    cases h
    refine ⟨hs, ?_⟩
    intro u b hu
    cases List.mem_singleton.1 hu
    exact soundUpdate_setStatus fun hn => by cases hn
  | resume jobId report ts =>
    obtain ⟨⟨started, rfl⟩, hws⟩ := act_resume h
    refine ⟨⟨hs.stored, hs.queued, hs.polled, hs.threads⟩, ?_⟩
    intro u b hu
    rcases hws with ⟨-, rfl⟩ | rfl | rfl
    · cases List.mem_singleton.1 hu
      intro status hst hn
      cases hst
      cases hn
    · cases hu
    · cases List.mem_singleton.1 hu
      exact soundUpdate_setStatus fun hn => by cases hn
  | poll now =>
    obtain ⟨-, rfl, rfl⟩ := act_poll h
    exact ⟨⟨hs.stored, hs.queued, sound_pollQuery _ hs.stored, hs.threads⟩,
      fun _ _ hu => (List.not_mem_nil hu).elim⟩
  | take ts =>
    obtain ⟨r, rows, hrows, rfl, rfl⟩ := act_take h
    have hr : SoundThread s.jobs (threadFor r) :=
      soundThread_threadFor (hs.polled r (by rw [hrows]; exact List.mem_cons_self))
    constructor
    · refine ⟨hs.stored, hs.queued, ?_, ?_⟩
      · intro r' hr'
        exact hs.polled r' (by rw [hrows]; exact List.mem_cons_of_mem r hr')
      · intro t ht
        rcases List.mem_append.1 ht with ht | ht
        · exact hs.threads t ht
        · rw [List.mem_singleton.1 ht]
          exact hr
    · intro u b hu
      split at hu
      · cases hu
      · cases List.mem_singleton.1 hu
        exact soundUpdate_setStatus fun hn => by cases hn
  | thread i a =>
    obtain ⟨t, stage, errors, us, ht, ha, rfl, rfl⟩ := act_thread h
    have hmem : t ∈ s.threads := List.mem_of_getElem? ht
    obtain ⟨hstage, hus⟩ := sound_act ha (hs.threads t hmem) (by
      rintro status ts rfl hn
      exact hc t ht hn)
    constructor
    · refine ⟨hs.stored, hs.queued, hs.polled, ?_⟩
      intro t' ht'
      rcases List.mem_or_eq_of_mem_set ht' with ht' | rfl
      · exact hs.threads t' ht'
      · exact hstage
    · intro u b hu
      obtain ⟨u', hu', he⟩ := List.mem_map.1 hu
      cases he
      exact hus u hu'
  | finish i =>
    obtain ⟨t, -, -, rfl, rfl⟩ := act_finish h
    exact ⟨⟨hs.stored, hs.queued, hs.polled,
      fun t ht => hs.threads t (List.mem_of_mem_eraseIdx ht)⟩,
      fun _ _ hu => (List.not_mem_nil hu).elim⟩
  | commit =>
    obtain ⟨w, rest, hq, rfl, rfl⟩ := act_commit h
    exact ⟨hs.commit hq, fun _ _ hu => (List.not_mem_nil hu).elim⟩
  | reject =>
    obtain ⟨w, rest, hq, rfl, rfl⟩ := act_reject h
    refine ⟨⟨hs.stored, ?_, hs.polled, hs.threads⟩, fun _ _ hu => (List.not_mem_nil hu).elim⟩
    intro u b hu
    exact hs.queued u b (by rw [hq]; exact List.mem_cons_of_mem w hu)
  | restart now =>
    cases h
    refine ⟨⟨hs.stored, ?_, ?_, ?_⟩, ?_⟩
    · exact fun _ _ hu => (List.not_mem_nil hu).elim
    · exact fun _ hr => (List.not_mem_nil hr).elim
    · exact fun _ ht => (List.not_mem_nil ht).elim
    · intro u b hu
      obtain ⟨u', hu', he⟩ := List.mem_map.1 hu
      cases he
      exact soundUpdate_recovery now s.jobs u hu'

theorem sound_step (hc : LogsAfterResult s e) (h : step cfg s e = some s') (hs : Sound s) :
    Sound s' := by
  obtain ⟨s₁, ws, hact, rfl⟩ := step_some h
  obtain ⟨hs₁, hws⟩ := sound_event hc hact hs
  refine ⟨hs₁.stored, ?_, hs₁.polled, hs₁.threads⟩
  intro u b hu
  rcases List.mem_append.1 hu with hu | hu
  · exact hs₁.queued u b hu
  · exact hws u b (List.mem_of_mem_take hu)

/-- The scraper logs COMPLETED once it has extracted its articles. -/
def extracted : Event := .thread 0 (.record .completed "2024-05-01T10:00:05+00:00")

/-- A run whose tool logs no status. -/
def returned : List Event :=
  taken ++ [.commit, .thread 0 (.returns "" (some (.ok "12 articles")) "2024-05-01T10:00:07+00:00"),
    .thread 0 (.delivered true "2024-05-01T10:00:08+00:00"), .commit, .finish 0]

end Jobs
