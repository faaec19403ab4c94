import AnythingTools.Jobs.TerminalStatus

namespace Jobs
open Calendar
set_option autoImplicit true

/-- The job needs no thread of its own: it is over, or the manager's poll picks it up. -/
def settled (status : JobStatus) : Bool :=
  decide (status ∈ [.completed, .failed, .abandoned, .partialResult, .skipped, .queued,
    .interrupted, .pendingCallback])

theorem settled_eq_false (status : JobStatus) :
    settled status = false ↔
      status = .cancelling ∨ status ∈ [.running, .pausedForHitl, .pending] := by
  cases status <;> decide

/-- At a restart no job is CANCELLING, and the queue of the writer takes an update of recovery for
each job that is RUNNING, PAUSED_FOR_HITL or PENDING. -/
def Heals (cfg : Config) (s : State) : Event → Prop
  | .restart now => ∀ j ∈ s.jobs.rows, j.status ≠ .cancelling ∧
      (j.status ∈ [.running, .pausedForHitl, .pending] →
        ∃ u ∈ (recovery now s.jobs).take cfg.queueSize, u.jobId = j.jobId)
  | _ => True

/-- Once the writes of startup recovery have drained no job is stuck. -/
def NoneStuck (_ : State) : Event → State → Prop
  | .restart _, s' => ∀ j ∈ s'.drained.rows, settled j.status = true
  | _, _ => True

instance (cfg : Config) (s : State) (e : Event) : Decidable (Heals cfg s e) :=
  match e with
  | .restart _ => by unfold Heals; infer_instance
  | .submit _ | .delete _ _ | .resume _ _ _ | .poll _ | .take _ | .thread _ _ | .finish _
  | .commit | .reject => isTrue trivial

instance (s : State) (e : Event) (s' : State) : Decidable (NoneStuck s e s') :=
  match e with
  | .restart _ => by unfold NoneStuck; infer_instance
  | .submit _ | .delete _ _ | .resume _ _ _ | .poll _ | .take _ | .thread _ _ | .finish _
  | .commit | .reject => isTrue trivial

/-- An update of recovery belongs to an unfinished row, and settles it. -/
theorem mem_recovery {jobs : Table} (h : u ∈ recovery now jobs) :
    (∃ j ∈ jobs.rows, j.jobId = u.jobId ∧
      j.status ∈ [.running, .pausedForHitl, .pending, .interrupted]) ∧
      ∃ status, u.status = some status ∧ settled status = true := by
  rw [recovery] at h
  rcases List.mem_append.1 h with h | h
  · obtain ⟨j, hj, rfl⟩ := List.mem_map.1 h
    obtain ⟨hmem, hstatus⟩ := List.mem_filter.1 hj
    have hsub : [JobStatus.running, .pausedForHitl] ⊆
        [.running, .pausedForHitl, .pending, .interrupted] := by decide
    exact ⟨⟨j, hmem, rfl, hsub (of_decide_eq_true hstatus)⟩, .interrupted, rfl, rfl⟩
  · obtain ⟨j, hj, rfl⟩ := List.mem_map.1 h
    obtain ⟨hmem, hstatus⟩ := List.mem_filter.1 hj
    have hsub : [JobStatus.running, .pending, .interrupted] ⊆
        [.running, .pausedForHitl, .pending, .interrupted] := by decide
    exact ⟨⟨j, hmem, rfl, hsub (of_decide_eq_true (Bool.and_eq_true_iff.1 hstatus).1)⟩, .failed,
      rfl, rfl⟩

theorem exists_recovery {jobs : Table} (hj : j ∈ jobs.rows)
    (h : j.status ∈ [.running, .pausedForHitl] ∨
      j.status = .pending ∧ retryDue j.updatedAt (retryCutoff now (7 * 86400)) = true) :
    ∃ u ∈ recovery now jobs, u.jobId = j.jobId := by
  rw [recovery]
  rcases h with h | ⟨h, hdue⟩
  · exact ⟨_, List.mem_append_left _ (List.mem_map_of_mem
      (List.mem_filter.2 ⟨hj, decide_eq_true h⟩)), rfl⟩
  · refine ⟨_, List.mem_append_right _ (List.mem_map_of_mem (List.mem_filter.2 ⟨hj, ?_⟩)), rfl⟩
    rw [h, hdue]
    rfl

/-- Settling updates settle the rows that they belong to, and leave the others as they are. -/
theorem settled_drain (hus : ∀ u ∈ us, ∃ status, Update.status u = some status ∧
    settled status = true) (j : Job) :
    settled (drain j us).status = true ↔
      settled j.status = true ∨ ∃ u ∈ us, u.jobId = j.jobId := by
  induction us generalizing j with
  | nil => simp [drain]
  | cons u us ih =>
    obtain ⟨status, hs, hsettled⟩ := hus u List.mem_cons_self
    have hrest := ih (fun v hv => hus v (List.mem_cons_of_mem u hv)) (u.apply j)
    rw [show drain j (u :: us) = drain (u.apply j) us from rfl, hrest]
    simp only [jobId_apply, List.mem_cons, exists_eq_or_imp]
    by_cases hu : j.jobId = u.jobId
    · rw [status_apply hu, hs, Option.getD_some]
      simp [hsettled, hu]
    · rw [apply_of_ne hu]
      simp [Ne.symm hu]

theorem rows_commit_updates (jobs : Table) (us : List Update) :
    ((us.map fun u => Write.update u).foldl Table.commit jobs).rows =
      jobs.rows.map (drain · us) := by
  induction us generalizing jobs with
  | nil => exact (List.map_id jobs.rows).symm
  | cons u us ih =>
    rw [List.map_cons, List.foldl_cons, ih, Table.commit, List.map_map]
    rfl

theorem drained_restart (h : step cfg s (.restart now) = some s') :
    s'.drained.rows = s.jobs.rows.map (drain · ((recovery now s.jobs).take cfg.queueSize)) := by
  obtain ⟨s₁, ws, hact, rfl⟩ := step_some h
  cases hact
  simp only [State.drained, State.enqueue, List.nil_append, List.length_nil, Nat.sub_zero,
    ← List.map_take]
  exact rows_commit_updates _ _

/-- A restart leaves no job stuck exactly when recovery has and keeps an update for each. -/
theorem noneStuck_step_iff (cfg : Config) (s : State) (e : Event) :
    (∀ s', step cfg s e = some s' → NoneStuck s e s') ↔ Heals cfg s e := by
  cases e with
  | restart now =>
    have hus (u : Update) (hu : u ∈ (recovery now s.jobs).take cfg.queueSize) :=
      mem_recovery (List.mem_of_mem_take hu)
    have hrow (j : Job) (hj : j ∈ s.jobs.rows) :
        settled (drain j ((recovery now s.jobs).take cfg.queueSize)).status = true ↔
          j.status ≠ .cancelling ∧ (j.status ∈ [.running, .pausedForHitl, .pending] →
            ∃ u ∈ (recovery now s.jobs).take cfg.queueSize, u.jobId = j.jobId) := by
      rw [settled_drain fun u hu => (hus u hu).2]
      apply Iff.intro
      · rintro (hset | ⟨u, hu, hid⟩)
        · have hnot : ¬ (j.status = .cancelling ∨
              j.status ∈ [.running, .pausedForHitl, .pending]) := by
            rw [← settled_eq_false, hset]
            exact Bool.noConfusion
          exact ⟨fun h => hnot (.inl h), fun h => absurd (.inr h) hnot⟩
        · refine ⟨?_, fun _ => ⟨u, hu, hid⟩⟩
          intro hcancelling
          obtain ⟨j', hj', hid', hst⟩ := (hus u hu).1
          rw [eq_of_jobId hj hj' (hid'.trans hid), hcancelling] at hst
          revert hst
          decide
      · rintro ⟨hcancelling, htaken⟩
        cases hset : settled j.status with
        | true => exact .inl rfl
        | false =>
          rcases (settled_eq_false _).1 hset with h | h
          · exact absurd h hcancelling
          · exact .inr (htaken h)
    apply Iff.intro
    · intro h j hj
      have hrows := h _ rfl
      rw [NoneStuck, drained_restart rfl] at hrows
      exact (hrow j hj).1 (hrows _ (List.mem_map_of_mem hj))
    · intro h s' hs' j hj
      rw [drained_restart hs'] at hj
      obtain ⟨row, hmem, rfl⟩ := List.mem_map.1 hj
      exact (hrow row hmem).2 (h row hmem)
  | _ => exact ⟨fun _ => trivial, fun _ _ _ => trivial⟩

/-- In a history no job is stuck after any of its restarts exactly when each of these finds no job
CANCELLING, and has and keeps an update for each that is RUNNING, PAUSED_FOR_HITL or PENDING. -/
theorem noneStuck_iff (cfg : Config) (es : List Event) :
    Machine.Always (step cfg) NoneStuck State.init es ↔
      Machine.Meets (step cfg) (Heals cfg) State.init es :=
  Machine.always_iff_meets (noneStuck_step_iff cfg) State.init es

/-- A DELETE of a queued job, and a restart. -/
def deletedThenRestarted : List Event :=
  [.submit scrape, .commit, .delete "01HX" "2024-05-01T10:00:01+00:00", .commit,
    .restart (may1 5 (by decide))]

/-- Nothing picks up a job that was deleted before the manager took it. -/
theorem deleted_job_stuck :
    ¬ Machine.Always (step {}) NoneStuck State.init deletedThenRestarted := by
  rw [Machine.always_iff_meets (noneStuck_step_iff {})]
  decide +kernel

/-- The statuses other than CANCELLING and PENDING. -/
def healable (status : JobStatus) : Bool := decide (status ≠ .cancelling ∧ status ≠ .pending)

/-- The event is no DELETE, and no log call that records CANCELLING or PENDING. -/
def Event.leavesHealable : Event → Bool
  | .delete _ _ => false
  | .thread _ (.record status _) => healable status
  | _ => true

def Write.leavesHealable : Write → Bool
  | .insert _ => true
  | .update u _ => u.status.all healable

def Stage.leavesHealable : Stage → Bool
  | .callback normal => healable normal.status
  | .raised status => healable status
  | _ => true

/-- No job is CANCELLING or PENDING, nor is to become so. -/
structure Healable (s : State) : Prop where
  jobs : ∀ j ∈ s.jobs.rows, healable j.status = true
  writes : ∀ w ∈ s.writeQueue, w.leavesHealable = true
  threads : ∀ t ∈ s.threads, t.stage.leavesHealable = true

theorem healable_commit {jobs : Table} (hjobs : ∀ j ∈ jobs.rows, healable j.status = true)
    (hw : w.leavesHealable = true) : ∀ j ∈ (jobs.commit w).rows, healable j.status = true := by
  intro j hj
  cases w with
  | insert sub =>
    rcases mem_commit_insert hj with hj | rfl
    · exact hjobs j hj
    · rfl
  | update u resumes =>
    obtain ⟨row, hrow, rfl⟩ := List.mem_map.1 hj
    by_cases hu : row.jobId = u.jobId
    · rw [status_apply hu]
      cases hs : u.status with
      | none => exact hjobs row hrow
      | some status =>
        rw [Write.leavesHealable, hs] at hw
        exact hw
    · rw [apply_of_ne hu]
      exact hjobs row hrow

theorem healable_normalOf (toolName rawTb : String) (run : Option ToolRun) :
    healable (normalOf toolName rawTb run).status = true := by
  cases run with
  | none => rfl
  | some run =>
    simp only [normalOf]
    split
    · split <;> rfl
    · rfl

theorem healable_onSystemError (err : String) (errors : Nat) :
    healable (onSystemError err errors).1 = true := by
  rw [onSystemError]
  split
  · rfl
  · split <;> rfl

theorem healable_thread {t : Thread} (ha : Event.leavesHealable (.thread i a) = true)
    (ht : t.stage.leavesHealable = true) (h : t.act errors a = some (stage, errors', us)) :
    stage.leavesHealable = true ∧ ∀ u ∈ us, Write.leavesHealable (.update u) = true := by
  revert h
  fun_cases Thread.act errors t a <;> intro h <;> cases h <;>
    simp only [List.mem_singleton, List.not_mem_nil, forall_eq, false_imp_iff, implies_true,
      and_true]
  case case1 status ts => exact ⟨rfl, ha⟩
  case case2 => exact healable_normalOf _ _ _
  case case3 => exact ⟨rfl, healable_normalOf _ _ _⟩
  case case4 jobId toolName normal success ts =>
    refine ⟨rfl, ?_⟩
    rcases finalUpdate_cases normal success jobId ts with h | h
    · rw [h]
      exact ht
    · rw [h]
      rfl
  case case5 jobId toolName retryCount success ts =>
    refine ⟨rfl, ?_⟩
    rw [retryUpdate]
    split
    · rfl
    · split <;> rfl
  case case6 => exact healable_onSystemError _ _
  case case7 => exact healable_onSystemError _ _
  case case8 => rfl
  case case9 => exact ⟨rfl, ht⟩

theorem healable_writes (he : e.leavesHealable = true) (h : act cfg s e = some (s₁, ws))
    (hs : Healable s) : ∀ w ∈ ws, w.leavesHealable = true := by
  intro w hw
  cases e with
  | submit sub =>
    cases h
    rw [List.mem_singleton.1 hw]
    rfl
  | delete id ts => cases he
  | resume id report ts =>
    obtain ⟨-, ⟨-, rfl⟩ | rfl | rfl⟩ := act_resume h
    · rw [List.mem_singleton.1 hw]
      rfl
    · cases hw
    · rw [List.mem_singleton.1 hw]
      rfl
  | poll now =>
    obtain ⟨-, rfl, -⟩ := act_poll h
    cases hw
  | take ts =>
    obtain ⟨r, rows, hrows, rfl, -⟩ := act_take h
    split at hw
    · cases hw
    · rw [List.mem_singleton.1 hw]
      rfl
  | thread i a =>
    obtain ⟨t, stage, errors, us, ht, ha, rfl, -⟩ := act_thread h
    obtain ⟨u, hu, rfl⟩ := List.mem_map.1 hw
    exact (healable_thread he (hs.threads t (List.mem_of_getElem? ht)) ha).2 u hu
  | finish i =>
    obtain ⟨t, -, -, rfl, -⟩ := act_finish h
    cases hw
  | commit =>
    obtain ⟨w', rest, -, rfl, -⟩ := act_commit h
    cases hw
  | reject =>
    obtain ⟨w', rest, -, rfl, -⟩ := act_reject h
    cases hw
  | restart now =>
    cases h
    obtain ⟨u, hu, rfl⟩ := List.mem_map.1 hw
    obtain ⟨-, status, hstatus, hsettled⟩ := mem_recovery hu
    rw [Write.leavesHealable, hstatus]
    revert hsettled
    cases status <;> decide

theorem healable_threads (he : e.leavesHealable = true) (h : act cfg s e = some (s₁, ws))
    (hs : Healable s) : ∀ t ∈ s₁.threads, t.stage.leavesHealable = true := by
  intro t ht
  cases e with
  | submit sub =>
    cases h
    exact hs.threads t ht
  | delete id ts => cases he
  | resume id report ts =>
    obtain ⟨⟨b, rfl⟩, -⟩ := act_resume h
    exact hs.threads t ht
  | poll now =>
    obtain ⟨-, -, rfl⟩ := act_poll h
    exact hs.threads t ht
  | take ts =>
    obtain ⟨r, rows, -, -, rfl⟩ := act_take h
    rcases List.mem_append.1 ht with ht | ht
    · exact hs.threads t ht
    · rw [List.mem_singleton.1 ht, threadFor]
      split <;> rfl
  | thread i a =>
    obtain ⟨t', stage, errors, us, ht', ha, -, rfl⟩ := act_thread h
    rcases List.mem_or_eq_of_mem_set ht with ht | rfl
    · exact hs.threads t ht
    · exact (healable_thread he (hs.threads t' (List.mem_of_getElem? ht')) ha).1
  | finish i =>
    obtain ⟨t', -, -, -, rfl⟩ := act_finish h
    exact hs.threads t (List.mem_of_mem_eraseIdx ht)
  | commit =>
    obtain ⟨w, rest, -, -, rfl⟩ := act_commit h
    exact hs.threads t ht
  | reject =>
    obtain ⟨w, rest, -, -, rfl⟩ := act_reject h
    exact hs.threads t ht
  | restart now =>
    cases h
    cases ht

theorem healable_step (he : e.leavesHealable = true) (h : step cfg s e = some s')
    (hs : Healable s) : Healable s' := by
  obtain ⟨s₁, ws, hact, rfl⟩ := step_some h
  have hws := healable_writes he hact hs
  have hthreads := healable_threads he hact hs
  have henqueue (hjobs : ∀ j ∈ s₁.jobs.rows, healable j.status = true)
      (hq : ∀ w ∈ s₁.writeQueue, w.leavesHealable = true) : Healable (s₁.enqueue cfg ws) := by
    refine ⟨hjobs, ?_, hthreads⟩
    intro w hw
    rcases List.mem_append.1 hw with hw | hw
    · exact hq w hw
    · exact hws w (List.mem_of_mem_take hw)
  rcases act_store hact with ⟨hj, hq, -⟩ | ⟨-, w, rest, hq, hj, hq', -⟩ |
    ⟨-, w, rest, hq, hj, hq', -⟩ | ⟨now, -, hj, hq', -⟩
  · exact henqueue (by rw [hj]; exact hs.jobs) (by rw [hq]; exact hs.writes)
  · have hw := hs.writes
    rw [hq, List.forall_mem_cons] at hw
    exact henqueue (by rw [hj]; exact healable_commit hs.jobs hw.1) (by rw [hq']; exact hw.2)
  · have hw := hs.writes
    rw [hq, List.forall_mem_cons] at hw
    exact henqueue (by rw [hj]; exact hs.jobs) (by rw [hq']; exact hw.2)
  · exact henqueue (by rw [hj]; exact hs.jobs) (by rw [hq']; exact List.forall_mem_nil _)

/-- The step records neither CANCELLING nor PENDING, and a restart does not overflow the queue. -/
def Recoverable (cfg : Config) (s : State) (e : Event) : Prop :=
  e.leavesHealable = true ∧
    ∀ now, e = .restart now → (recovery now s.jobs).length ≤ cfg.queueSize

theorem mem_of_ne_pending (h : status ≠ .pending)
    (hst : status ∈ [.running, .pausedForHitl, .pending]) :
    status ∈ [JobStatus.running, .pausedForHitl] := by
  simp only [List.mem_cons, h, List.not_mem_nil, or_false] at hst ⊢
  exact hst

theorem heals_of_healable (hc : Recoverable cfg s e) (hs : Healable s) : Heals cfg s e := by
  cases e with
  | restart now =>
    intro j hj
    obtain ⟨hcancelling, hpending⟩ := of_decide_eq_true (hs.jobs j hj)
    refine ⟨hcancelling, ?_⟩
    intro hst
    rw [List.take_of_length_le (hc.2 now rfl)]
    exact exists_recovery hj (.inl (mem_of_ne_pending hpending hst))
  | _ => trivial

/-- Without a DELETE no job is stuck after a restart. -/
theorem noneStuck_of_recoverable
    (hm : Machine.Meets (step cfg) (Recoverable cfg) State.init es) :
    Machine.Always (step cfg) NoneStuck State.init es := by
  have hinit : Healable State.init :=
    ⟨fun _ h => (List.not_mem_nil h).elim, fun _ h => (List.not_mem_nil h).elim,
      fun _ h => (List.not_mem_nil h).elim⟩
  refine Machine.always_of_invariant ?_ hm hinit
  intro s e s' hc h hs
  have hheals := heals_of_healable hc hs
  exact ⟨healable_step hc.1 h hs, (noneStuck_step_iff cfg s e).2 hheals s' h⟩

end Jobs
