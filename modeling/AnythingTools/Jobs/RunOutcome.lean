import AnythingTools.Jobs.Worker

namespace Jobs
set_option autoImplicit true

/-- The updates of a run up to its last one. -/
def recordedUpdates (run : ToolRun) (jobId ts : String) : List Update :=
  run.recorded.map fun s => setStatus s jobId ts

/-- The rounds of delivery after a first one that failed: `failures` more fail before one
succeeds. -/
def retryRounds (jobId ts : String) : (failures retryCount : Nat) → List Update
  | 0, retryCount => [retryUpdate true retryCount jobId ts]
  | failures + 1, retryCount =>
    retryUpdate false retryCount jobId ts :: retryRounds jobId ts failures (retryCount + 1)

/-- The updates of a run whose result is delivered in the round after `failures` failed ones. -/
def runUpdates (toolName rawTb : String) (run : ToolRun) (failures : Nat) (jobId ts : String) :
    List Update :=
  let normal := normalOf toolName rawTb (some run)
  recordedUpdates run jobId ts ++
    if callbackApplies normal = true then
      match failures with
      | 0 => [finalUpdate normal true jobId ts]
      | failures + 1 => finalUpdate normal false jobId ts :: retryRounds jobId ts failures 1
    else [finalUpdate normal true jobId ts]

theorem runUpdates_raises (h : run.ends = .error exc) (toolName rawTb : String) (failures : Nat)
    (jobId ts : String) :
    ∃ normal : Normal, normal.status = .failed ∧ runUpdates toolName rawTb run failures jobId ts =
      recordedUpdates run jobId ts ++ [storeResult normal jobId ts] := by
  obtain ⟨recorded, ends⟩ := run
  cases h
  exact ⟨normalOf toolName rawTb (some { recorded := recorded, ends := .error exc }), rfl, rfl⟩

/-- A job whose tool raises the exception that asks for a human is failed. -/
theorem tool_pause_not_paused (job : Job) (run : ToolRun) (toolName rawTb ts : String)
    (failures : Nat) (h : run.ends = .error exc)
    (_ : "PAUSED_FOR_HITL:".toList.isPrefixOf exc.toList = true) :
    ¬ (drain job (runUpdates toolName rawTb run failures job.jobId ts)).status =
      .pausedForHitl := by
  obtain ⟨normal, hstatus, hupdates⟩ := runUpdates_raises h toolName rawTb failures job.jobId ts
  have hfailed : (drain job (runUpdates toolName rawTb run failures job.jobId ts)).status =
      .failed := by
    rw [hupdates, status_drain_concat _ rfl rfl, hstatus]
  rw [hfailed]
  decide

def scrapeJob : Job where
  jobId := "01HX"
  toolName := "scraper"
  status := .running
  createdAt := "2024-05-01T10:00:00.000000+00:00"
  updatedAt := "2024-05-01T10:00:01.000000+00:00"

/-- A run that paused its job and then asks for a human. -/
def captchaRun : ToolRun where
  recorded := [.pausedForHitl]
  ends := .error "PAUSED_FOR_HITL: solve the captcha"

/-- The job is failed, although the run had set it to paused. -/
theorem captcha_not_paused :
    ¬ (drain scrapeJob (runUpdates "scraper" "" captchaRun 0 scrapeJob.jobId
      "2024-05-01T10:05:00.000000+00:00")).status = .pausedForHitl := by
  decide +kernel

theorem tool_pause_not_paused_captcha :
    ¬ (drain scrapeJob (runUpdates "scraper" "" captchaRun 0 scrapeJob.jobId
      "2024-05-01T10:05:00.000000+00:00")).status = .pausedForHitl :=
  tool_pause_not_paused scrapeJob captchaRun "scraper" "" _ 0 rfl (by decide +kernel)

/-- The member of a dictionary; a later one of the same key wins. -/
def member (key : String) : Json → Option Json
  | .dict ms => (ms.reverse.find? fun m => decide (m.1 = key.toList.map Char.toNat)).map Prod.snd
  | _ => none

/-- The status that a structured output carries. -/
def outputStatus (output : String) : Option JobStatus := do
  match member "status" (← Json.loads output) with
  | some (.str s) => JobStatus.all.find? fun st => decide (st.text.toList.map Char.toNat = s)
  | _ => none

/-- The statuses that should be recorded: the one in the output, and a PARTIAL of the row. -/
def carried (run : ToolRun) : List JobStatus :=
  (run.ends.toOption.bind outputStatus).toList ++
    run.recorded.filter fun s => decide (s = .partialResult)

theorem status_retryRounds (j : Job) (ts : String) (failures retryCount : Nat) :
    (drain j (retryRounds j.jobId ts failures retryCount)).status = .completed := by
  induction failures generalizing j retryCount with
  | zero => exact status_drain_concat [] rfl rfl
  | succ failures ih =>
    have hj : ((retryUpdate false retryCount j.jobId ts).apply j).jobId = j.jobId :=
      jobId_apply _ j
    have hrest := ih ((retryUpdate false retryCount j.jobId ts).apply j) (retryCount + 1)
    rw [hj] at hrest
    exact hrest

/-- A run that returns and is delivered leaves its job COMPLETED. -/
theorem status_runUpdates (job : Job) (h : run.ends = .ok output) (toolName rawTb ts : String)
    (failures : Nat) :
    (drain job (runUpdates toolName rawTb run failures job.jobId ts)).status = .completed := by
  have hnormal : (normalOf toolName rawTb (some run)).status = .completed := by
    obtain ⟨recorded, ends⟩ := run
    cases h
    rw [normalOf, runToolSafely, execute]
    dsimp only
    cases Json.loads output <;> rfl
  have happlies : callbackApplies (normalOf toolName rawTb (some run)) = true := by
    rw [callbackApplies, hnormal]
    rfl
  unfold runUpdates
  dsimp only
  rw [if_pos happlies]
  cases failures with
  | zero =>
    apply status_drain_concat
    · rw [finalUpdate, if_pos happlies, if_pos rfl]
      rfl
    · rw [finalUpdate, if_pos happlies, if_pos rfl, storeResult, hnormal]
  | succ failures =>
    rw [drain_append]
    have hrounds (j : Job) (u : Update) (hj : j.jobId = job.jobId) :
        (drain j (u :: retryRounds job.jobId ts failures 1)).status = .completed := by
      have hid : (u.apply j).jobId = job.jobId := (jobId_apply u j).trans hj
      have hrest := status_retryRounds (u.apply j) ts failures 1
      rw [hid] at hrest
      exact hrest
    exact hrounds _ _ (jobId_drain job _)

/-- Once the result of a run is delivered the job has the status that the run carries exactly when
that is COMPLETED. -/
theorem status_kept_iff (job : Job) (run : ToolRun) (toolName rawTb ts : String)
    (h : run.ends = .ok output) (hs : outputStatus output = some s)
    (_ : s ∈ [.completed, .partialResult, .failed]) (_ : failures < 3) :
    (∀ c ∈ carried run,
        (drain job (runUpdates toolName rawTb run failures job.jobId ts)).status = c) ↔
      s = .completed ∧ .partialResult ∉ run.recorded := by
  rw [status_runUpdates job h, carried, h]
  change (∀ c ∈ (outputStatus output).toList ++ _, _) ↔ _
  rw [hs]
  simp only [Option.toList_some, List.mem_append, List.mem_singleton, List.mem_filter,
    decide_eq_true_eq, or_imp, forall_and, forall_eq, eq_comm (a := JobStatus.completed)]
  apply and_congr_right
  intro _
  apply Iff.intro
  · intro hp hm
    exact absurd (hp .partialResult ⟨hm, rfl⟩) (by decide)
  · intro hp c hc
    exact absurd (hc.2 ▸ hc.1) hp

/-- A run of the publisher that could not publish everything. -/
def partialRun : ToolRun where
  ends := .ok "\x7b\"_callback_format\": \"structured\", \"status\": \"PARTIAL\"\x7d"

theorem partial_run_completed :
    outputStatus "\x7b\"_callback_format\": \"structured\", \"status\": \"PARTIAL\"\x7d" =
        some .partialResult ∧
      ¬ ∀ c ∈ carried partialRun, (drain scrapeJob (runUpdates "publisher" "" partialRun 0
        scrapeJob.jobId "2024-05-01T10:05:00.000000+00:00")).status = c := by
  decide +kernel

theorem status_kept_partial :
    (∀ c ∈ carried partialRun, (drain scrapeJob (runUpdates "publisher" "" partialRun 0
        scrapeJob.jobId "2024-05-01T10:05:00.000000+00:00")).status = c) ↔
      JobStatus.partialResult = .completed ∧ .partialResult ∉ partialRun.recorded :=
  status_kept_iff scrapeJob partialRun "publisher" "" _ rfl (by decide +kernel) (by decide)
    (by decide)

end Jobs
