import AnythingTools.Jobs.System

namespace Jobs
open Calendar
set_option autoImplicit true

/-- No two live threads execute one job. -/
def OneThread (s : State) : Prop := (s.threads.map Thread.jobId).Nodup

instance (s : State) : Decidable (OneThread s) :=
  inferInstanceAs (Decidable (s.threads.map Thread.jobId).Nodup)

/-- A poll selects only jobs that no thread executes. -/
def PollsIdle (cfg : Config) (s : State) : Event → Prop
  | .poll now => ∀ r ∈ pollQuery (retryCutoff now cfg.retryDelay) s.jobs,
      r.jobId ∉ s.threads.map Thread.jobId
  | _ => True

instance (cfg : Config) (s : State) (e : Event) : Decidable (PollsIdle cfg s e) :=
  match e with
  | .poll _ => by unfold PollsIdle; infer_instance
  | .submit _ | .delete _ _ | .resume _ _ _ | .take _ | .thread _ _ | .finish _ | .commit
  | .reject | .restart _ => isTrue trivial

/-- The jobs that the manager is to start a thread for and those that have one are distinct. -/
def Exclusive (s : State) : Prop :=
  (s.rows.map Job.jobId ++ s.threads.map Thread.jobId).Nodup

theorem map_jobId_set {threads : List Thread} (h : threads[i]? = some t) (stage : Stage) :
    (threads.set i { t with stage }).map Thread.jobId = threads.map Thread.jobId := by
  obtain ⟨hi, rfl⟩ := List.getElem?_eq_some_iff.1 h
  have hm : i < (threads.map Thread.jobId).length := by rw [List.length_map]; exact hi
  have hself : (threads.map Thread.jobId).set i (threads.map Thread.jobId)[i] =
      threads.map Thread.jobId := List.set_getElem_self hm
  rw [List.getElem_map] at hself
  rw [List.map_set]
  exact hself

/-- What a step does to the threads and to the rows that are to be handled. -/
theorem exclusive_step (hc : PollsIdle cfg s e) (h : step cfg s e = some s') (hs : Exclusive s) :
    Exclusive s' := by
  obtain ⟨s₁, ws, hact, rfl⟩ := step_some h
  change Exclusive s₁
  cases e with
  | submit sub =>
    cases hact
    exact hs
  | delete jobId ts =>
    cases hact
    exact hs
  | resume jobId report ts =>
    cases hact
    exact hs
  | poll now =>
    obtain ⟨hrows, -, rfl⟩ := act_poll hact
    rw [Exclusive, hrows] at hs
    exact List.nodup_append.2 ⟨nodup_pollQuery _ _, hs, by
      intro a ha b hb hab
      obtain ⟨r, hr, rfl⟩ := List.mem_map.1 ha
      exact hc r hr (hab ▸ hb)⟩
  | take ts =>
    obtain ⟨r, rows, hrows, -, rfl⟩ := act_take hact
    rw [Exclusive, hrows] at hs
    rw [Exclusive, List.map_append, List.map_singleton, ← List.append_assoc]
    exact (List.perm_append_singleton _ _).nodup_iff.2 hs
  | thread i a =>
    obtain ⟨t, stage, errors, us, ht, -, -, rfl⟩ := act_thread hact
    rw [Exclusive, map_jobId_set ht]
    exact hs
  | finish i =>
    obtain ⟨t, -, -, -, rfl⟩ := act_finish hact
    exact hs.sublist (List.Sublist.append_left ((List.eraseIdx_sublist _ _).map _) _)
  | commit =>
    obtain ⟨w, rest, -, -, rfl⟩ := act_commit hact
    exact hs
  | reject =>
    obtain ⟨w, rest, -, -, rfl⟩ := act_reject hact
    exact hs
  | restart now =>
    cases hact
    exact List.nodup_nil

/-- As long as the polls select idle jobs only, a job has at most one live thread. -/
theorem one_thread_per_job (cfg : Config)
    (hm : Machine.Meets (step cfg) (PollsIdle cfg) State.init es)
    (hr : Machine.run (step cfg) State.init es = some s) : OneThread s := by
  have hs : Exclusive s :=
    Machine.run_invariant (fun _ _ _ hc h hs => exclusive_step hc h hs) hm hr List.nodup_nil
  exact hs.sublist (List.sublist_append_right _ _)

/-- A second poll before the writer has committed RUNNING. -/
def secondPoll : List Event :=
  taken ++ [.poll (may1 2 (by decide)), .take "2024-05-01T10:00:02+00:00"]

theorem two_threads_of_one_job :
    ∃ s, Machine.run (step {}) State.init secondPoll = some s ∧ ¬ OneThread s :=
  ⟨_, Machine.run_getD (by decide +kernel) State.init, by decide +kernel⟩

/-- A second poll once it has. -/
def laterPoll : List Event := taken ++ [.commit, .poll (may1 2 (by decide))]

theorem one_thread_after_commit :
    OneThread ((Machine.run (step {}) State.init laterPoll).getD State.init) :=
  one_thread_per_job {} (by decide +kernel) (Machine.run_getD (by decide +kernel) State.init)

end Jobs
