import AnythingTools.Jobs.System

namespace Jobs
open Calendar
set_option autoImplicit true

def terminal (status : JobStatus) : Bool :=
  decide (status ∈ [.completed, .failed, .abandoned, .partialResult])

/-- An update that is not one of `resume_job` leaves a terminal status as it is. -/
def Keeps (jobs : Table) : Write → Prop
  | .insert _ => True
  | .update u resumes => resumes = true ∨ ∀ j ∈ jobs.rows, j.jobId = u.jobId →
      terminal j.status = true → u.status.getD j.status = j.status

/-- So do all the writes, each where the ones before it lead. -/
def Legal : Table → List Write → Prop
  | _, [] => True
  | jobs, w :: ws => Keeps jobs w ∧ Legal (jobs.commit w) ws

/-- The rows once the writer has committed what is in its queue. -/
def State.drained (s : State) : Table := s.writeQueue.foldl Table.commit s.jobs

instance (jobs : Table) (w : Write) : Decidable (Keeps jobs w) := by
  cases w <;> unfold Keeps <;> infer_instance

def decidableLegal : (jobs : Table) → (ws : List Write) → Decidable (Legal jobs ws)
  | _, [] => isTrue trivial
  | jobs, w :: ws =>
    have := decidableLegal (jobs.commit w) ws
    inferInstanceAs (Decidable (Keeps jobs w ∧ Legal (jobs.commit w) ws))

instance (jobs : Table) (ws : List Write) : Decidable (Legal jobs ws) := decidableLegal jobs ws

def Write.byResume : Write → Bool
  | .insert _ => false
  | .update _ resumes => resumes

/-- The step loses no update of `resume_job`. -/
def LosesNoResume (s : State) : Event → Prop
  | .reject => ∀ w ∈ s.writeQueue.head?, w.byResume = false
  | _ => True

instance (s : State) (e : Event) : Decidable (LosesNoResume s e) :=
  match e with
  | .reject => by unfold LosesNoResume; infer_instance
  | .submit _ | .delete _ _ | .resume _ _ _ | .poll _ | .take _ | .thread _ _ | .finish _
  | .commit | .restart _ => isTrue trivial

/-- Whatever the step enqueues finds the job, with the pending updates, in a status that is not
terminal, or does not change it; and no update of `resume_job` is lost. -/
def RespectsTerminal (cfg : Config) (s : State) (e : Event) : Prop :=
  (∀ p ∈ act cfg s e, Legal p.1.drained p.2) ∧ LosesNoResume s e

instance (cfg : Config) (s : State) (e : Event) : Decidable (RespectsTerminal cfg s e) :=
  inferInstanceAs (Decidable ((∀ p ∈ act cfg s e, Legal p.1.drained p.2) ∧ LosesNoResume s e))

/-- A job leaves a terminal status only by an update of `resume_job`. -/
def LeavesByResume (s : State) (_ : Event) (s' : State) : Prop :=
  ∀ j ∈ s.jobs.rows, terminal j.status = true → ∀ j' ∈ s'.jobs.rows, j'.jobId = j.jobId →
    j'.status = j.status ∨
      ∃ u, s.writeQueue.head? = some (.update u true) ∧ u.jobId = j.jobId

theorem legal_append (h : Legal jobs ws) (h' : Legal (ws.foldl Table.commit jobs) ws') :
    Legal jobs (ws ++ ws') := by
  induction ws generalizing jobs with
  | nil => exact h'
  | cons w ws ih => exact ⟨h.1, ih h.2 h'⟩

theorem legal_take (n : Nat) (h : Legal jobs ws) : Legal jobs (ws.take n) := by
  induction ws generalizing jobs n with
  | nil =>
    rw [List.take_nil]
    trivial
  | cons w ws ih =>
    cases n with
    | zero => trivial
    | succ n => exact ⟨h.1, ih n h.2⟩

/-- Each job is in the other rows too, with the same status if that is terminal. -/
def Covered (jobs jobs' : Table) : Prop :=
  ∀ j ∈ jobs.rows, ∃ j' ∈ jobs'.rows, j'.jobId = j.jobId ∧
    (terminal j.status = true → j'.status = j.status)

theorem covered_commit (w : Write) (h : Covered jobs jobs') :
    Covered (jobs.commit w) (jobs'.commit w) := by
  intro j hj
  cases w with
  | insert sub =>
    rcases mem_commit_insert hj with hj | rfl
    · obtain ⟨j', hj', hid, hst⟩ := h j hj
      exact ⟨j', subset_commit_insert jobs' sub hj', hid, hst⟩
    · obtain ⟨j', hj', hid⟩ := exists_commit_insert jobs' sub
      exact ⟨j', hj', hid, fun hterm => by cases hterm⟩
  | update u resumes =>
    obtain ⟨row, hrow, rfl⟩ := List.mem_map.1 hj
    obtain ⟨row', hrow', hid, hst⟩ := h row hrow
    refine ⟨u.apply row', List.mem_map_of_mem hrow', ?_, ?_⟩
    · rw [jobId_apply, jobId_apply, hid]
    · by_cases hu : row.jobId = u.jobId
      · rw [status_apply hu, status_apply (hid.trans hu)]
        cases u.status with
        | none => exact hst
        | some status => exact fun _ => rfl
      · rw [apply_of_ne hu, apply_of_ne (by rw [hid]; exact hu)]
        exact hst

theorem keeps_of_covered (h : Covered jobs jobs') (hk : Keeps jobs' w) : Keeps jobs w := by
  cases w with
  | insert sub => trivial
  | update u resumes =>
    rcases hk with hr | hk
    · exact .inl hr
    · refine .inr ?_
      intro j hj hid hterm
      obtain ⟨j', hj', hid', hst⟩ := h j hj
      have hst' := hst hterm
      have hkept := hk j' hj' (hid'.trans hid) (by rw [hst']; exact hterm)
      rw [hst'] at hkept
      exact hkept

theorem legal_of_covered (h : Covered jobs jobs') (hl : Legal jobs' ws) : Legal jobs ws := by
  induction ws generalizing jobs jobs' with
  | nil => trivial
  | cons w ws ih => exact ⟨keeps_of_covered h hl.1, ih (covered_commit w h) hl.2⟩

/-- Where an update that is not one of `resume_job` is lost, the ones after it stay legal. -/
theorem legal_of_lost (hw : w.byResume = false) (h : Legal jobs (w :: ws)) : Legal jobs ws := by
  apply legal_of_covered _ h.2
  intro j hj
  cases w with
  | insert sub => exact ⟨j, subset_commit_insert jobs sub hj, rfl, fun _ => rfl⟩
  | update u resumes =>
    refine ⟨u.apply j, List.mem_map_of_mem hj, jobId_apply u j, ?_⟩
    intro hterm
    by_cases hu : j.jobId = u.jobId
    · rw [status_apply hu]
      rcases h.1 with hr | hk
      · exact absurd (hw.symm.trans hr) (by decide)
      · exact hk j hj hu hterm
    · rw [apply_of_ne hu]

theorem eq_of_jobId {jobs : Table} (hj : j ∈ jobs.rows) (hj' : j' ∈ jobs.rows)
    (h : j'.jobId = j.jobId) : j' = j :=
  List.inj_on_of_nodup_map jobs.primaryKey hj' hj h

theorem leavesByResume_of_eq (h : s'.jobs = s.jobs) : LeavesByResume s e s' := by
  intro j hj _ j' hj' hid
  rw [h] at hj'
  exact .inl (congrArg Job.status (eq_of_jobId hj hj' hid))

theorem leavesByResume_commit (hq : s.writeQueue = w :: rest) (hk : Keeps s.jobs w)
    (h : s'.jobs = s.jobs.commit w) : LeavesByResume s e s' := by
  intro j hj hterm j' hj' hid
  rw [h] at hj'
  cases w with
  | insert sub =>
    have hmem : j ∈ (s.jobs.commit (.insert sub)).rows := subset_commit_insert s.jobs sub hj
    exact .inl (congrArg Job.status (eq_of_jobId hmem hj' hid))
  | update u resumes =>
    obtain ⟨row, hrow, rfl⟩ := List.mem_map.1 hj'
    rw [jobId_apply] at hid
    rw [eq_of_jobId hj hrow hid]
    by_cases hu : j.jobId = u.jobId
    · rcases hk with rfl | hk
      · exact .inr ⟨u, by rw [hq, List.head?_cons], hu.symm⟩
      · rw [status_apply hu]
        exact .inl (hk j hj hu hterm)
    · exact .inl (by rw [apply_of_ne hu])

theorem legal_step (hc : RespectsTerminal cfg s e) (h : step cfg s e = some s')
    (hs : Legal s.jobs s.writeQueue) : Legal s'.jobs s'.writeQueue ∧ LeavesByResume s e s' := by
  obtain ⟨s₁, ws, hact, rfl⟩ := step_some h
  have hws : Legal s₁.drained ws := hc.1 (s₁, ws) hact
  have henqueue (hs₁ : Legal s₁.jobs s₁.writeQueue) :
      Legal (s₁.enqueue cfg ws).jobs (s₁.enqueue cfg ws).writeQueue :=
    legal_append hs₁ (legal_take _ hws)
  rcases act_store hact with ⟨hj, hq, -⟩ | ⟨-, w, rest, hq, hj, hq', -⟩ |
    ⟨rfl, w, rest, hq, hj, hq', -⟩ | ⟨now, -, hj, hq', -⟩
  · exact ⟨henqueue (by rw [hj, hq]; exact hs), leavesByResume_of_eq hj⟩
  · rw [hq] at hs
    exact ⟨henqueue (by rw [hj, hq']; exact hs.2), leavesByResume_commit hq hs.1 hj⟩
  · rw [hq] at hs
    have hw : w.byResume = false := hc.2 w (by rw [hq, List.head?_cons]; rfl)
    exact ⟨henqueue (by rw [hj, hq']; exact legal_of_lost hw hs), leavesByResume_of_eq hj⟩
  · exact ⟨henqueue (by rw [hq']; trivial), leavesByResume_of_eq hj⟩

end Jobs
