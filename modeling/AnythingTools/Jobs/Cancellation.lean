import AnythingTools.Jobs.TerminalStatus

namespace Jobs
open Calendar
set_option autoImplicit true

def statusOf (jobs : Table) (jobId : String) : Option JobStatus :=
  (jobs.find jobId).map Job.status

/-- The job that a DELETE finds QUEUED. -/
def deletedWhileQueued (s : State) : Event → List String
  | .delete jobId _ => if statusOf s.jobs jobId = some .queued then [jobId] else []
  | _ => []

/-- An update of the job sets one of the statuses, if it sets any. -/
def setsOnly (statuses : List JobStatus) (jobId : String) : Write → Bool
  | .insert _ => true
  | .update u _ => decide (u.jobId = jobId → ∀ status ∈ u.status, status ∈ statuses)

/-- The update of a DELETE. -/
def cancels (jobId : String) : Write → Bool
  | .insert _ => false
  | .update u _ => decide (u.jobId = jobId ∧ u.status = some .cancelling)

/-- The statuses of a job whose cancellation is pending. -/
def cancelPending : List JobStatus := [.queued, .cancelling, .failed]

/-- Its statuses once it is committed; FAILED is the answer to one resume request too many. -/
def cancelCommitted : List JobStatus := [.cancelling, .failed]

/-- A job that is deleted while it is QUEUED has not been selected by a poll nor has a thread, and
its row is to become nothing but CANCELLING; no poll selects it before that is committed, it is not
resumed and the update is not lost. -/
def CancelsInTime (cfg : Config) (p : State × List String) : Event → Prop
  | .delete jobId _ => statusOf p.1.jobs jobId = some .queued → jobId ∉ p.2 →
      jobId ∉ p.1.threads.map Thread.jobId ∧ jobId ∉ p.1.rows.map Job.jobId ∧
      (∀ w ∈ p.1.writeQueue, setsOnly cancelPending jobId w = true) ∧
      p.1.writeQueue.length < cfg.queueSize
  | .resume jobId report ts =>
      (resumeJob cfg.maxResumeAttempts p.1.jobs jobId report ts).1.isOk = true → jobId ∉ p.2
  | .poll now => ∀ r ∈ pollQuery (retryCutoff now cfg.retryDelay) p.1.jobs, r.jobId ∈ p.2 →
      ∀ w ∈ p.1.writeQueue, cancels r.jobId w = false
  | .reject => ∀ w ∈ p.1.writeQueue.head?, ∀ jobId ∈ p.2, cancels jobId w = false
  | .restart _ => ∀ w ∈ p.1.writeQueue, ∀ jobId ∈ p.2, cancels jobId w = false
  | _ => True

instance (cfg : Config) (p : State × List String) (e : Event) :
    Decidable (CancelsInTime cfg p e) :=
  match e with
  | .delete _ _ => by unfold CancelsInTime; infer_instance
  | .resume _ _ _ => by unfold CancelsInTime; infer_instance
  | .poll _ => by unfold CancelsInTime; infer_instance
  | .reject => by unfold CancelsInTime; infer_instance
  | .restart _ => by unfold CancelsInTime; infer_instance
  | .submit _ | .take _ | .thread _ _ | .finish _ | .commit => isTrue trivial

/-- The row is one of the statuses. -/
def IsOf (statuses : List JobStatus) (jobs : Table) (jobId : String) : Prop :=
  ∃ status ∈ statuses, statusOf jobs jobId = some status

theorem isOf_commit (h : IsOf statuses jobs jobId) (hw : setsOnly statuses jobId w = true) :
    IsOf statuses (jobs.commit w) jobId := by
  obtain ⟨status, hmem, hst⟩ := h
  rw [statusOf, Option.map_eq_some_iff] at hst
  obtain ⟨row, hrow, rfl⟩ := hst
  cases w with
  | insert sub =>
    refine ⟨row.status, hmem, ?_⟩
    rw [statusOf, find_commit_insert, hrow, Option.some_or, Option.map_some]
  | update u resumes =>
    rw [IsOf, statusOf, find_commit_update, hrow, Option.map_some, Option.map_some]
    by_cases hu : row.jobId = u.jobId
    · have hid : u.jobId = jobId := hu.symm.trans (find_some hrow).2
      have hset := of_decide_eq_true hw hid
      rw [status_apply hu]
      cases hs : u.status with
      | none => exact ⟨row.status, hmem, rfl⟩
      | some status => exact ⟨status, hset status hs, rfl⟩
    · rw [apply_of_ne hu]
      exact ⟨row.status, hmem, rfl⟩

theorem isOf_commit_cancels (h : IsOf statuses jobs jobId) (hw : cancels jobId w = true) :
    IsOf cancelCommitted (jobs.commit w) jobId := by
  obtain ⟨status, hmem, hst⟩ := h
  rw [statusOf, Option.map_eq_some_iff] at hst
  obtain ⟨row, hrow, rfl⟩ := hst
  cases w with
  | insert sub => cases hw
  | update u resumes =>
    obtain ⟨hid, hs⟩ := of_decide_eq_true hw
    refine ⟨.cancelling, by decide, ?_⟩
    rw [statusOf, find_commit_update, hrow, Option.map_some, Option.map_some,
      status_apply ((find_some hrow).2.trans hid.symm), hs, Option.getD_some]

/-- The cancellation of the job is committed, or pending with nothing after it that undoes it. -/
def CancelRecorded (jobs : Table) (q : List Write) (jobId : String) : Prop :=
  IsOf cancelCommitted jobs jobId ∧ (∀ w ∈ q, setsOnly cancelCommitted jobId w = true) ∨
    IsOf cancelPending jobs jobId ∧ ∃ q₁ w q₂, q = q₁ ++ w :: q₂ ∧ cancels jobId w = true ∧
      (∀ w' ∈ q₁, setsOnly cancelPending jobId w' = true) ∧
      ∀ w' ∈ q₂, setsOnly cancelCommitted jobId w' = true

theorem cancelRecorded_commit (h : CancelRecorded jobs (w :: q) jobId) :
    CancelRecorded (jobs.commit w) q jobId := by
  rcases h with ⟨hst, hq⟩ | ⟨hst, q₁, w', q₂, heq, hw', hq₁, hq₂⟩
  · exact .inl ⟨isOf_commit hst (hq w List.mem_cons_self),
      fun w' hw' => hq w' (List.mem_cons_of_mem w hw')⟩
  · cases q₁ with
    | nil =>
      cases heq
      exact .inl ⟨isOf_commit_cancels hst hw', hq₂⟩
    | cons w₁ q₁ =>
      cases heq
      exact .inr ⟨isOf_commit hst (hq₁ w List.mem_cons_self), q₁, w', q₂, rfl, hw',
        fun w'' hw'' => hq₁ w'' (List.mem_cons_of_mem w hw''), hq₂⟩

theorem cancelRecorded_lost (hw : cancels jobId w = false) (h : CancelRecorded jobs (w :: q) jobId) :
    CancelRecorded jobs q jobId := by
  rcases h with ⟨hst, hq⟩ | ⟨hst, q₁, w', q₂, heq, hw', hq₁, hq₂⟩
  · exact .inl ⟨hst, fun w' hw' => hq w' (List.mem_cons_of_mem w hw')⟩
  · cases q₁ with
    | nil =>
      cases heq
      exact absurd (hw.symm.trans hw') (by decide)
    | cons w₁ q₁ =>
      cases heq
      exact .inr ⟨hst, q₁, w', q₂, rfl, hw',
        fun w'' hw'' => hq₁ w'' (List.mem_cons_of_mem w hw''), hq₂⟩

theorem cancelRecorded_append (hws : ∀ w ∈ ws, setsOnly cancelCommitted jobId w = true)
    (h : CancelRecorded jobs q jobId) : CancelRecorded jobs (q ++ ws) jobId := by
  rcases h with ⟨hst, hq⟩ | ⟨hst, q₁, w', q₂, rfl, hw', hq₁, hq₂⟩
  · refine .inl ⟨hst, ?_⟩
    intro w hw
    rcases List.mem_append.1 hw with hw | hw
    · exact hq w hw
    · exact hws w hw
  · refine .inr ⟨hst, q₁, w', q₂ ++ ws, by rw [List.append_assoc, List.cons_append], hw', hq₁, ?_⟩
    intro w hw
    rcases List.mem_append.1 hw with hw | hw
    · exact hq₂ w hw
    · exact hws w hw

/-- Where no cancellation is pending it is committed. -/
theorem isOf_of_cancelRecorded (hq : ∀ w ∈ q, cancels jobId w = false)
    (h : CancelRecorded jobs q jobId) : IsOf cancelCommitted jobs jobId := by
  rcases h with ⟨hst, -⟩ | ⟨-, q₁, w', q₂, rfl, hw', -, -⟩
  · exact hst
  · have hmem : w' ∈ q₁ ++ w' :: q₂ := List.mem_append_right _ List.mem_cons_self
    exact absurd ((hq w' hmem).symm.trans hw') (by decide)

theorem isOf_cancelPending (h : CancelRecorded jobs q jobId) : IsOf cancelPending jobs jobId := by
  rcases h with ⟨⟨status, hmem, hst⟩, -⟩ | ⟨hst, -⟩
  · exact ⟨status, List.mem_cons_of_mem _ hmem, hst⟩
  · exact hst

/-- A job that was deleted while it was QUEUED. -/
structure Cancelled (s : State) (jobId : String) : Prop where
  threads : ∀ t ∈ s.threads, t.jobId ≠ jobId
  rows : ∀ r ∈ s.rows, r.jobId ≠ jobId
  recorded : CancelRecorded s.jobs s.writeQueue jobId

theorem setsOnly_of_ne (h : Update.jobId u ≠ jobId) :
    setsOnly statuses jobId (.update u resumes) = true :=
  decide_eq_true fun hid => absurd hid h

theorem setsOnly_of_mem (h : Update.status u = some status) (hmem : status ∈ statuses) :
    setsOnly statuses jobId (.update u resumes) = true := by
  apply decide_eq_true
  intro _ st hst
  rw [h] at hst
  cases hst
  exact hmem

theorem ne_of_recovery {jobs : Table} (h : IsOf cancelPending jobs jobId)
    (hu : u ∈ recovery now jobs) : u.jobId ≠ jobId := by
  obtain ⟨status, hmem, hst⟩ := h
  have hne (j : Job) (hj : j ∈ jobs.rows) (hs : j.status ∉ cancelPending) : j.jobId ≠ jobId := by
    rintro rfl
    rw [statusOf, find_of_mem hj, Option.map_some] at hst
    cases hst
    exact hs hmem
  rw [recovery] at hu
  rcases List.mem_append.1 hu with hu | hu
  · obtain ⟨j, hj, rfl⟩ := List.mem_map.1 hu
    obtain ⟨hmem', hstatus⟩ := List.mem_filter.1 hj
    have hout : ∀ status ∈ [JobStatus.running, .pausedForHitl], status ∉ cancelPending := by decide
    exact hne j hmem' (hout j.status (of_decide_eq_true hstatus))
  · obtain ⟨j, hj, rfl⟩ := List.mem_map.1 hu
    obtain ⟨hmem', hstatus⟩ := List.mem_filter.1 hj
    have hout : ∀ status ∈ [JobStatus.running, .pending, .interrupted], status ∉ cancelPending := by
      decide
    exact hne j hmem' (hout j.status (of_decide_eq_true (Bool.and_eq_true_iff.1 hstatus).1))

/-- Nothing that is enqueued for a cancelled job undoes the cancellation. -/
theorem setsOnly_act (hc : CancelsInTime cfg (s, ids) e) (hid : jobId ∈ ids)
    (h : act cfg s e = some (s₁, ws)) (hs : Cancelled s jobId) :
    ∀ w ∈ ws, setsOnly cancelCommitted jobId w = true := by
  intro w hw
  cases e with
  | submit sub =>
    cases h
    rw [List.mem_singleton.1 hw]
    rfl
  | delete id ts =>
    cases h
    rw [List.mem_singleton.1 hw]
    exact setsOnly_of_mem rfl (by decide)
  | resume id report ts =>
    obtain ⟨-, ⟨hok, rfl⟩ | rfl | rfl⟩ := act_resume h
    · rw [List.mem_singleton.1 hw]
      refine setsOnly_of_ne ?_
      rintro rfl
      exact hc hok hid
    · cases hw
    · rw [List.mem_singleton.1 hw]
      exact setsOnly_of_mem rfl (by decide)
  | poll now =>
    obtain ⟨-, rfl, -⟩ := act_poll h
    cases hw
  | take ts =>
    obtain ⟨r, rows, hrows, rfl, -⟩ := act_take h
    split at hw
    · cases hw
    · rw [List.mem_singleton.1 hw]
      exact setsOnly_of_ne (hs.rows r (by rw [hrows]; exact List.mem_cons_self))
  | thread i a =>
    obtain ⟨t, stage, errors, us, ht, ha, rfl, -⟩ := act_thread h
    obtain ⟨u, hu, rfl⟩ := List.mem_map.1 hw
    refine setsOnly_of_ne ?_
    rw [(updates_act ha u hu).1]
    exact hs.threads t (List.mem_of_getElem? ht)
  | finish i =>
    obtain ⟨t, -, -, rfl, -⟩ := act_finish h
    cases hw
  | commit =>
    obtain ⟨w', rest, -, rfl, -⟩ := act_commit h
    cases hw
  | reject =>
    obtain ⟨w', rest, -, rfl, -⟩ := act_reject h
    cases hw
  | restart now =>
    cases h
    obtain ⟨u, hu, rfl⟩ := List.mem_map.1 hw
    exact setsOnly_of_ne (ne_of_recovery (isOf_cancelPending hs.recorded) hu)

/-- A poll does not select a cancelled job. -/
theorem ne_of_pollQuery (hc : CancelsInTime cfg (s, ids) (.poll now)) (hid : jobId ∈ ids)
    (hs : Cancelled s jobId) :
    ∀ r ∈ pollQuery (retryCutoff now cfg.retryDelay) s.jobs, r.jobId ≠ jobId := by
  rintro r hr rfl
  obtain ⟨status, hmem, hst⟩ := isOf_of_cancelRecorded (hc r hr hid) hs.recorded
  obtain ⟨hrow, hsel⟩ := mem_pollQuery hr
  rw [statusOf, find_of_mem hrow, Option.map_some] at hst
  cases hst
  have hout : ∀ status ∈ [JobStatus.queued, .interrupted, .pendingCallback],
      status ∉ cancelCommitted := by decide
  exact hout r.status (status_of_selects hsel) hmem

theorem cancelRecorded_act (hc : CancelsInTime cfg (s, ids) e) (hid : jobId ∈ ids)
    (h : act cfg s e = some (s₁, ws)) (hs : CancelRecorded s.jobs s.writeQueue jobId) :
    CancelRecorded s₁.jobs s₁.writeQueue jobId := by
  rcases act_store h with ⟨hj, hq, -⟩ | ⟨-, w, rest, hq, hj, hq', -⟩ |
    ⟨rfl, w, rest, hq, hj, hq', -⟩ | ⟨now, rfl, hj, hq', -⟩
  · rw [hj, hq]
    exact hs
  · rw [hj, hq']
    rw [hq] at hs
    exact cancelRecorded_commit hs
  · rw [hj, hq']
    have hw : cancels jobId w = false := hc w (by rw [hq, List.head?_cons]; rfl) jobId hid
    rw [hq] at hs
    exact cancelRecorded_lost hw hs
  · rw [hj, hq']
    exact .inl ⟨isOf_of_cancelRecorded (fun w hw => hc w hw jobId hid) hs,
      fun _ hw => (List.not_mem_nil hw).elim⟩

/-- A cancelled job stays cancelled. -/
theorem cancelled_act (hc : CancelsInTime cfg (s, ids) e) (hid : jobId ∈ ids)
    (h : act cfg s e = some (s₁, ws)) (hs : Cancelled s jobId) : Cancelled s₁ jobId := by
  have hrecorded := cancelRecorded_act hc hid h hs.recorded
  cases e with
  | submit sub =>
    cases h
    exact ⟨hs.threads, hs.rows, hrecorded⟩
  | delete id ts =>
    cases h
    exact ⟨hs.threads, hs.rows, hrecorded⟩
  | resume id report ts =>
    obtain ⟨⟨b, rfl⟩, -⟩ := act_resume h
    exact ⟨hs.threads, hs.rows, hrecorded⟩
  | poll now =>
    obtain ⟨-, -, rfl⟩ := act_poll h
    exact ⟨hs.threads, ne_of_pollQuery hc hid hs, hrecorded⟩
  | take ts =>
    obtain ⟨r, rows, hrows, -, rfl⟩ := act_take h
    refine ⟨?_, ?_, hrecorded⟩
    · intro t ht
      rcases List.mem_append.1 ht with ht | ht
      · exact hs.threads t ht
      · rw [List.mem_singleton.1 ht]
        exact hs.rows r (by rw [hrows]; exact List.mem_cons_self)
    · intro r' hr'
      exact hs.rows r' (by rw [hrows]; exact List.mem_cons_of_mem r hr')
  | thread i a =>
    obtain ⟨t, stage, errors, us, ht, -, -, rfl⟩ := act_thread h
    refine ⟨?_, hs.rows, hrecorded⟩
    intro t' ht'
    rcases List.mem_or_eq_of_mem_set ht' with ht' | rfl
    · exact hs.threads t' ht'
    · exact hs.threads t (List.mem_of_getElem? ht)
  | finish i =>
    obtain ⟨t, -, -, -, rfl⟩ := act_finish h
    exact ⟨fun t ht => hs.threads t (List.mem_of_mem_eraseIdx ht), hs.rows, hrecorded⟩
  | commit =>
    obtain ⟨w, rest, -, -, rfl⟩ := act_commit h
    exact ⟨hs.threads, hs.rows, hrecorded⟩
  | reject =>
    obtain ⟨w, rest, -, -, rfl⟩ := act_reject h
    exact ⟨hs.threads, hs.rows, hrecorded⟩
  | restart now =>
    cases h
    exact ⟨fun _ ht => (List.not_mem_nil ht).elim, fun _ hr => (List.not_mem_nil hr).elim,
      hrecorded⟩

theorem Cancelled.enqueue {s : State} (hs : Cancelled s jobId)
    (hws : ∀ w ∈ ws, setsOnly cancelCommitted jobId w = true) :
    Cancelled (s.enqueue cfg ws) jobId where
  threads := hs.threads
  rows := hs.rows
  recorded := cancelRecorded_append (fun w hw => hws w (List.mem_of_mem_take hw)) hs.recorded

/-- A DELETE in time cancels its job. -/
theorem cancelled_delete (hc : CancelsInTime cfg (s, ids) (.delete jobId ts))
    (hq : statusOf s.jobs jobId = some .queued) (hid : jobId ∉ ids) :
    Cancelled (s.enqueue cfg [.update (setStatus .cancelling jobId ts)]) jobId := by
  obtain ⟨hthreads, hrows, hpending, hroom⟩ := hc hq hid
  refine ⟨?_, ?_, ?_⟩
  · exact fun t ht hne => hthreads (List.mem_map.2 ⟨t, ht, hne⟩)
  · exact fun r hr hne => hrows (List.mem_map.2 ⟨r, hr, hne⟩)
  · refine .inr ⟨⟨.queued, by decide, hq⟩, s.writeQueue,
      .update (setStatus .cancelling jobId ts), [], ?_, decide_eq_true ⟨rfl, rfl⟩, hpending,
      fun _ hw => (List.not_mem_nil hw).elim⟩
    rw [State.enqueue, List.take_of_length_le]
    have hlt : s.writeQueue.length < cfg.queueSize := hroom
    rw [List.length_singleton]
    omega

theorem cancelled_step (hc : CancelsInTime cfg p e)
    (h : Machine.traced (step cfg) deletedWhileQueued p e = some p')
    (hp : ∀ jobId ∈ p.2, Cancelled p.1 jobId) : ∀ jobId ∈ p'.2, Cancelled p'.1 jobId := by
  obtain ⟨s, ids⟩ := p
  obtain ⟨s', ids'⟩ := p'
  obtain ⟨hstep, rfl⟩ := Machine.traced_some h
  obtain ⟨s₁, ws, hact, rfl⟩ := step_some hstep
  intro jobId hmem
  by_cases hid : jobId ∈ ids
  · have hs : Cancelled s jobId := hp jobId hid
    exact (cancelled_act hc hid hact hs).enqueue (setsOnly_act hc hid hact hs)
  · rcases List.mem_append.1 hmem with hin | hin
    · exact absurd hin hid
    · cases e with
      | delete id ts =>
        cases hact
        rw [deletedWhileQueued] at hin
        split at hin
        next hq =>
          rw [List.mem_singleton.1 hin] at hid ⊢
          exact cancelled_delete hc hq hid
        next => cases hin
      | _ => cases hin

/-- No thread executes a job that was deleted while it was QUEUED, and it is not COMPLETED. -/
def NeverExecuted (p : State × List String) : Prop :=
  ∀ jobId ∈ p.2, (∀ t ∈ p.1.threads, t.jobId ≠ jobId) ∧ statusOf p.1.jobs jobId ≠ some .completed

instance (p : State × List String) : Decidable (NeverExecuted p) :=
  inferInstanceAs (Decidable (∀ jobId ∈ p.2, _ ∧ _))

theorem one_lt_hour : 1 < 3600 := by decide

/-- A poll between a DELETE and the commit of its update. -/
def deletedThenPolled : List Event :=
  [.submit scrape, .commit, .delete "01HX" "2024-05-01T10:00:01+00:00",
    .poll (may1 1 one_lt_hour), .take "2024-05-01T10:00:01+00:00", .commit, .commit,
    .thread 0 (.returns "" (some (.ok "12 articles")) "2024-05-01T10:00:07+00:00"),
    .thread 0 (.delivered true "2024-05-01T10:00:08+00:00"), .commit]

/-- A poll after the commit. -/
def deletedThenCommitted : List Event :=
  [.submit scrape, .commit, .delete "01HX" "2024-05-01T10:00:01+00:00", .commit,
    .poll (may1 1 one_lt_hour)]

end Jobs
