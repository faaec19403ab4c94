import AnythingTools.Jobs.System

namespace Jobs
set_option autoImplicit true

/-- `resume_count` of the committed row. -/
def resumeCount (jobs : Table) (jobId : String) : Nat :=
  ((jobs.find jobId).map Job.resumeCount).getD 0

/-- An update of `resume_job` that puts the job back to QUEUED. -/
def isRequeue (jobId : String) : Write → Bool
  | .insert _ => false
  | .update u _ => decide (u.jobId = jobId) && u.countsResume

/-- The resumptions of the job that the writer has not committed yet. -/
def pendingResumes (writeQueue : List Write) (jobId : String) : Nat :=
  writeQueue.countP (isRequeue jobId)

/-- The job that the step puts back to QUEUED. -/
def putBack (s : State) : Event → List String
  | .commit =>
    match s.writeQueue with
    | .update u _ :: _ =>
      if u.countsResume = true ∧ (s.jobs.find u.jobId).isSome = true then [u.jobId] else []
    | _ => []
  | _ => []

/-- A request that `resume_job` accepts finds the limit unreached, also by the resumptions that are
still in the queue. -/
def ResumesBelow (cfg : Config) (s : State) : Event → Prop
  | .resume jobId report ts =>
    (resumeJob cfg.maxResumeAttempts s.jobs jobId report ts).1.isOk = true →
      resumeCount s.jobs jobId + pendingResumes s.writeQueue jobId < cfg.maxResumeAttempts
  | _ => True

instance (cfg : Config) (s : State) (e : Event) : Decidable (ResumesBelow cfg s e) :=
  match e with
  | .resume _ _ _ => by unfold ResumesBelow; infer_instance
  | .submit _ | .delete _ _ | .poll _ | .take _ | .thread _ _ | .finish _ | .commit
  | .reject | .restart _ => isTrue trivial

theorem resumeCount_commit (jobs : Table) (w : Write) (jobId : String) :
    resumeCount (jobs.commit w) jobId =
      resumeCount jobs jobId +
        if isRequeue jobId w = true ∧ (jobs.find jobId).isSome = true then 1 else 0 := by
  cases w with
  | insert sub =>
    rw [resumeCount, find_commit_insert, resumeCount]
    cases jobs.find jobId with
    | none =>
      by_cases hid : sub.jobId = jobId
      · simp [hid, isRequeue, Submission.job]
      · simp [hid, isRequeue]
    | some row => simp [isRequeue]
  | update u b =>
    rw [resumeCount, find_commit_update, resumeCount]
    cases hrow : jobs.find jobId with
    | none => simp
    | some row =>
      have hid : row.jobId = jobId := (find_some hrow).2
      by_cases hu : u.jobId = jobId
      · have happly := resumeCount_apply (u := u) (hid.trans hu.symm)
        cases hc : u.countsResume <;> simp [happly, isRequeue, hu, hc]
      · have happly : u.apply row = row := apply_of_ne (by rw [hid]; exact Ne.symm hu)
        simp [happly, isRequeue, hu]

/-- The committed resumptions with the ones in the queue do not exceed the limit. -/
def Within (cfg : Config) (s : State) : Prop :=
  ∀ jobId, resumeCount s.jobs jobId + pendingResumes s.writeQueue jobId ≤ cfg.maxResumeAttempts

/-- No update but the one of an accepted request counts as a resumption. -/
theorem pendingResumes_act (h : act cfg s e = some (s₁, ws)) (jobId : String) :
    ws.countP (isRequeue jobId) = 0 ∨ ws.countP (isRequeue jobId) = 1 ∧
      ∃ report ts, e = .resume jobId report ts ∧
        (resumeJob cfg.maxResumeAttempts s.jobs jobId report ts).1.isOk = true := by
  by_cases he : ∃ jobId report ts, e = .resume jobId report ts
  · obtain ⟨id, report, ts, rfl⟩ := he
    obtain ⟨-, ⟨hok, rfl⟩ | rfl | rfl⟩ := act_resume h
    · by_cases hid : id = jobId
      · subst hid
        exact .inr ⟨by simp [isRequeue, requeue], report, ts, rfl, hok⟩
      · exact .inl (by simp [isRequeue, requeue, hid])
    · exact .inl rfl
    · exact .inl (by simp [isRequeue, setStatus])
  · refine .inl (List.countP_eq_zero.2 ?_)
    intro w hw
    cases w with
    | insert sub => simp [isRequeue]
    | update u b =>
      have hu := act_ordinary h (fun id report ts heq => he ⟨id, report, ts, heq⟩) u b hw
      simp [isRequeue, hu.2]

/-- A committed resumption leaves the queue, and a lost one is none. -/
theorem resumptions_act (h : act cfg s e = some (s₁, ws)) (jobId : String) :
    resumeCount s₁.jobs jobId + pendingResumes s₁.writeQueue jobId ≤
      resumeCount s.jobs jobId + pendingResumes s.writeQueue jobId := by
  rcases act_store h with ⟨hj, hq, -⟩ | ⟨-, w, rest, hq, hj, hq', -⟩ | ⟨-, w, rest, hq, hj, hq', -⟩ |
    ⟨now, -, hj, hq', -⟩
  · rw [hj, hq]
  · rw [hj, hq', hq, resumeCount_commit, pendingResumes, pendingResumes, List.countP_cons]
    split
    next hw => rw [if_pos hw.1]; omega
    next => omega
  · rw [hj, hq', hq, pendingResumes, pendingResumes, List.countP_cons]
    omega
  · rw [hj, hq']
    exact Nat.add_le_add_left (Nat.zero_le _) _

theorem pendingResumes_enqueue (cfg : Config) (s : State) (ws : List Write) (jobId : String) :
    pendingResumes (s.enqueue cfg ws).writeQueue jobId ≤
      pendingResumes s.writeQueue jobId + ws.countP (isRequeue jobId) := by
  rw [State.enqueue, pendingResumes, List.countP_append]
  exact Nat.add_le_add_left ((List.take_sublist _ _).countP_le) _

theorem within_step (hc : ResumesBelow cfg s e) (h : step cfg s e = some s') (hs : Within cfg s) :
    Within cfg s' := by
  obtain ⟨s₁, ws, hact, rfl⟩ := step_some h
  intro jobId
  have hstore := resumptions_act hact jobId
  have henqueue := pendingResumes_enqueue cfg s₁ ws jobId
  have hle := hs jobId
  change resumeCount s₁.jobs jobId + _ ≤ _
  rcases pendingResumes_act hact jobId with hws | ⟨hws, report, ts, rfl, hok⟩
  · omega
  · have hlt : resumeCount s.jobs jobId + pendingResumes s.writeQueue jobId <
        cfg.maxResumeAttempts := hc hok
    omega

/-- The history of a run lists each resumption that its row counts. -/
def Counted (p : State × List String) : Prop :=
  ∀ jobId, resumeCount p.1.jobs jobId = p.2.count jobId

theorem counted_step (h : Machine.traced (step cfg) putBack p e = some p') (hp : Counted p) :
    Counted p' := by
  obtain ⟨s, ids⟩ := p
  obtain ⟨s', ids'⟩ := p'
  obtain ⟨hstep, rfl⟩ := Machine.traced_some h
  obtain ⟨s₁, ws, hact, rfl⟩ := step_some hstep
  intro jobId
  have hcount : resumeCount s.jobs jobId = ids.count jobId := hp jobId
  change resumeCount s₁.jobs jobId = (ids ++ putBack s e).count jobId
  rw [List.count_append, ← hcount]
  rcases act_store hact with ⟨hj, -, he⟩ | ⟨rfl, w, rest, hq, hj, -, -⟩ | ⟨rfl, w, rest, -, hj, -, -⟩ |
    ⟨now, rfl, hj, -, -⟩
  · have hnone : putBack s e = [] := by
      cases e <;> first | rfl | exact absurd rfl he
    rw [hj, hnone, List.count_nil, Nat.add_zero]
  · rw [hj, resumeCount_commit, putBack, hq]
    cases w with
    | insert sub => simp [isRequeue]
    | update u b =>
      by_cases hid : u.jobId = jobId
      · subst hid
        by_cases hu : u.countsResume = true ∧ (s.jobs.find u.jobId).isSome = true
        · simp [isRequeue, hu]
        · simp [isRequeue, hu]
      · have hne : jobId ≠ u.jobId := Ne.symm hid
        simp only [isRequeue, hid, decide_false, Bool.false_and, Bool.false_eq_true, false_and,
          if_false, Nat.add_zero]
        split
        · rw [List.count_singleton, if_neg (by simpa using hid), Nat.add_zero]
        · rfl
  · rw [hj]
    rfl
  · rw [hj]
    rfl

/-- As long as each accepted request finds the limit unreached by the committed resumptions with the
ones in the queue, no job is resumed more often. -/
theorem resumptions_limited (cfg : Config) (jobId : String)
    (hm : Machine.Meets (step cfg) (ResumesBelow cfg) State.init es)
    (hr : Machine.run (Machine.traced (step cfg) putBack) (State.init, []) es = some (s, ids)) :
    resumeCount s.jobs jobId ≤ cfg.maxResumeAttempts ∧ ids.count jobId ≤ cfg.maxResumeAttempts := by
  have hwithin : Within cfg s :=
    Machine.run_invariant (fun _ _ _ hc h hs => within_step hc h hs) hm (Machine.run_of_traced hr)
      fun _ => Nat.zero_le _
  have hcounted : Counted (s, ids) :=
    Machine.run_preserves (fun _ _ _ h hp => counted_step h hp) hr fun _ => rfl
  have hle := hwithin jobId
  have heq : resumeCount s.jobs jobId = ids.count jobId := hcounted jobId
  omega

/-- A run that ends in FAILED. -/
def failed : List Event :=
  taken ++ [.commit, .thread 0 (.returns "" (some (.error "no network")) "2024-05-01T10:00:03+00:00"),
    .finish 0, .commit]

def resumeScrape : Event :=
  .resume "01HX" (some ⟨true, "3 items pending"⟩) "2024-05-01T10:00:09+00:00"

/-- Four requests before the writer has committed one. -/
theorem resumed_four_times :
    ∃ p, Machine.run (Machine.traced (step {}) putBack) (State.init, [])
        (failed ++ [resumeScrape, resumeScrape, resumeScrape, resumeScrape,
          .commit, .commit, .commit, .commit]) = some p ∧
      ¬ (resumeCount p.1.jobs "01HX" ≤ 3 ∧ p.2.count "01HX" ≤ 3) :=
  ⟨_, Machine.run_getD (by decide +kernel) (State.init, []), by decide +kernel⟩

/-- Each of the four requests after the commit of the one before. -/
def slowRequests : List Event :=
  failed ++ [resumeScrape, .commit, resumeScrape, .commit, resumeScrape, .commit, resumeScrape,
    .commit]

theorem resumptions_limited_slow :
    let p := (Machine.run (Machine.traced (step {}) putBack) (State.init, []) slowRequests).getD
      (State.init, [])
    resumeCount p.1.jobs "01HX" ≤ 3 ∧ p.2.count "01HX" ≤ 3 := by
  have hm : Machine.Meets (step {}) (ResumesBelow {}) State.init slowRequests := by decide +kernel
  exact resumptions_limited {} "01HX" hm (Machine.run_getD (by decide +kernel) (State.init, []))

end Jobs
