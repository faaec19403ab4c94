import AnythingTools.Publisher.Rules

namespace Publisher
open JobItems
set_option autoImplicit true

structure ResumeDetails where
  progress : PublishStatus → Nat
  batchStatus : BatchStatus
  total : Nat
  failed : Nat

structure ResumeReport where
  toolName : String := "publisher"
  resumable : Bool
  itemsCompleted : Nat
  itemsPending : Nat
  message : String
  details : Option ResumeDetails := none

/-- `ResumeHandler.check_resume_state`; `find` is `get_batch_info` with the details. -/
def checkResumeState (find : String → Option Batch) (batchId : Option String) : ResumeReport :=
  match batchId.filter (· ≠ "") with
  | none =>
    { resumable := false, itemsCompleted := 0, itemsPending := 0
      message := "No batch_id provided in arguments." }
  | some batchId =>
    match find batchId with
    | none =>
      { resumable := false, itemsCompleted := 0, itemsPending := 0
        message := "Batch not found in broadcast_batches." }
    | some batch =>
      if batch.status = .completed then
        { resumable := false, itemsCompleted := batch.articleCount, itemsPending := 0
          message := s!"Batch {batchId} already fully published." }
      else
        let progress := getBatchPublishProgress batch.details
        let total := (PublishStatus.all.map progress).sum
        let itemsCompleted :=
          progress .publishedArchive + progress .publishedBriefing + progress .skipped
        let itemsPending := total - itemsCompleted
        let failed := progress .failed
        let message := s!"Batch {batchId} has {itemsCompleted} completed, {itemsPending} pending."
        let retries := decide (0 < failed ∧ batch.status ≠ .publishing)
        { resumable := retries ||
            decide (batch.status ∈ [.pending, .partialResult, .publishing] ∧ 0 < itemsPending)
          itemsCompleted, itemsPending
          message := if retries then
            s!"{message} Contains {failed} failed items that will be retried." else message
          details := some { progress, batchStatus := batch.status, total, failed } }

/-- The articles that a run works on once it has the lock. -/
def worksOn (env : Env) (args : Args) (db : Db) : List Detail :=
  pendingArticles env db (decide (db.batch.status ∈ [.pending, .partialResult])) args.reset
    (resetEffects args ++ [.lock])

/-- The run takes the lock and works on an article that the batch has not finished. -/
def Proceeds (cfg : Config) (env : Env) (args : Args) (db : Db) : Prop :=
  locked (run cfg env args db).1 = true ∧
    ∃ d ∈ worksOn env args db, ∃ d' ∈ db.batch.details, d'.ulid = d.ulid ∧
      toPublish d'.publishStatus = true

/-- What the writer makes of a detail. -/
def Detail.after (d : Detail) (ws : List Write) : Detail := ws.foldl (fun d w => w.onDetail d) d

theorem after_append (d : Detail) (ws ws' : List Write) :
    d.after (ws ++ ws') = (d.after ws).after ws' := List.foldl_append

theorem details_view (db : Db) (es : List Effect) (n : Nat) :
    (view db es n).batch.details = db.batch.details.map fun d => d.after ((queued es).take n) := by
  rw [view, details_commitAll]
  split
  next => rfl
  next => rfl

/-- What no statement takes from a detail stays. -/
theorem after_inv {P : Detail → Prop} (hk : ∀ w ∈ ws, ∀ d, P d → P (Write.onDetail d w)) (h : P d) :
    P (d.after ws) := by
  induction ws generalizing d with
  | nil => exact h
  | cons w ws ih =>
    exact ih (fun w' hw' => hk w' (List.mem_cons_of_mem w hw')) (hk w List.mem_cons_self d h)

/-- What one statement brings to a detail, and none takes from it. -/
theorem after_since {P : Detail → Prop} (hk : ∀ w ∈ ws, ∀ d, P d → P (Write.onDetail d w))
    (hmem : w ∈ ws) (hset : ∀ ws, P (Write.onDetail (Detail.after d ws) w)) : P (d.after ws) := by
  obtain ⟨before, rest, he⟩ := List.append_of_mem hmem
  rw [he, List.append_cons, after_append, after_append]
  apply after_inv _ (hset before)
  intro w' hw'
  apply hk
  rw [he]
  exact List.mem_append_right before (List.mem_cons_of_mem w hw')

@[simp] theorem article_after (d : Detail) (ws : List Write) : (d.after ws).article = d.article :=
  after_inv (P := fun d' => d'.article = d.article)
    (fun w _ d' h => (article_onDetail d' w).trans h) rfl

theorem take_one (w : α) (n : Nat) : [w].take n = [] ∨ [w].take n = [w] := by
  cases n with
  | zero => exact .inl rfl
  | succ n => exact .inr (List.take_of_length_le (Nat.le_add_left 1 n))

/-- The reset is all that a run queues before it loads the articles. -/
theorem take_resetEffects (args : Args) (n : Nat) :
    (queued (resetEffects args)).take n = [] ∨
      (queued (resetEffects args)).take n = [.resetDetails] ∧ args.reset = true := by
  rw [resetEffects]
  split
  next h =>
    rcases take_one Write.resetDetails n with hn | hn
    · exact .inl hn
    · exact .inr ⟨hn, h⟩
  next => exact .inl List.take_nil

/-- The articles are loaded with the details as they are, or as they are after the reset. -/
theorem details_loaded (args : Args) (db : Db) (es : List Effect)
    (he : queued es = queued (resetEffects args)) (n : Nat) :
    (view db es n).batch.details = db.batch.details ∨
      (view db es n).batch.details = db.batch.details.map (fun d => Write.onDetail d .resetDetails) ∧
        args.reset = true := by
  rw [details_view, he]
  rcases take_resetEffects args n with h | ⟨h, hr⟩
  · rw [h]
    exact .inl (List.map_id' _)
  · rw [h]
    exact .inr ⟨rfl, hr⟩

theorem any_sorted (p : Detail → Bool) (details : List Detail) :
    (sorted details).any p = details.any p := by
  rw [Bool.eq_iff_iff, List.any_eq_true, List.any_eq_true]
  simp only [mem_sorted]

theorem any_top10_loaded (args : Args) (db : Db) (n : Nat) :
    (getBatchArticles (view db (resetEffects args) n).batch).any Detail.isTop10 =
      db.batch.details.any Detail.isTop10 := by
  rw [getBatchArticles, any_sorted]
  rcases details_loaded args db (resetEffects args) rfl n with h | ⟨h, _⟩
  · rw [h]
  · rw [h, List.any_map]
    rfl

theorem queued_locked (args : Args) :
    queued (resetEffects args ++ [.lock]) = queued (resetEffects args) := by
  rw [queued, List.filterMap_append]
  exact List.append_nil _

theorem locked_append (es es' : List Effect) : locked (es ++ es') = (locked es || locked es') :=
  List.any_append

theorem locked_of_prefix (h : es <+: es') (hl : locked es = true) : locked es' = true := by
  obtain ⟨new, he⟩ := h
  rw [← he, locked_append, hl, Bool.true_or]

theorem not_locked_resetEffects (args : Args) : locked (resetEffects args) = false := by
  rw [resetEffects]
  split
  next => rfl
  next => rfl

/-- A run takes the lock when the call is to proceed, the batch has a top 10, and its status is
one of those of the check-and-set. -/
theorem locked_run_iff (cfg : Config) (env : Env) (args : Args) (db : Db)
    (htop : db.batch.details.any Detail.isTop10 = true) :
    locked (run cfg env args db).1 = true ↔
      route args db.batch.status = .proceed ∧ lockable db.batch.status = true := by
  rw [run]
  cases hr : route args db.batch.status with
  | alreadyPublished => exact iff_of_false Bool.false_ne_true fun h => Route.noConfusion h.1
  | finalize => exact iff_of_false Bool.false_ne_true fun h => Route.noConfusion h.1
  | proceed =>
    dsimp only
    rw [any_top10_loaded, htop, if_pos rfl]
    split
    next hl =>
      refine iff_of_true ?_ ⟨rfl, hl⟩
      have hpre := prefix_runPipeline cfg env db
        (decide (db.batch.status ∈ [.pending, .partialResult])) args.reset
        (resetEffects args ++ [.lock])
      have hlock : locked (resetEffects args ++ [.lock]) = true := by
        rw [locked_append]
        exact Bool.or_true _
      split
      next es h =>
        rw [h] at hpre
        exact locked_of_prefix hpre hlock
      next es h =>
        rw [h] at hpre
        exact locked_of_prefix hpre hlock
    next hl =>
      rw [not_locked_resetEffects]
      exact iff_of_false Bool.false_ne_true fun h => hl h.2

theorem proceeds_status (args : Args) (status : BatchStatus) (hc : status ≠ .completed) :
    route args status = .proceed ∧ lockable status = true ↔
      status = .pending ∨ status = .partialResult ∧ args.finalize = false := by
  obtain ⟨reset, finalize⟩ := args
  revert hc
  cases status <;> cases reset <;> cases finalize <;> decide

/-- What the report counts as completed, and what it counts as pending. -/
theorem exists_pending {details : List Detail}
    (h : 0 < (PublishStatus.all.map (getBatchPublishProgress details)).sum -
      (getBatchPublishProgress details .publishedArchive +
        getBatchPublishProgress details .publishedBriefing +
        getBatchPublishProgress details .skipped)) :
    ∃ d ∈ details, toPublish d.publishStatus = true := by
  have hsum : (PublishStatus.all.map (getBatchPublishProgress details)).sum =
      getBatchPublishProgress details .pending + (getBatchPublishProgress details .translating +
        (getBatchPublishProgress details .publishedBriefing +
        (getBatchPublishProgress details .publishedArchive +
        (getBatchPublishProgress details .failed + getBatchPublishProgress details .skipped)))) :=
    rfl
  have hcount : 0 < getBatchPublishProgress details .pending ∨
      0 < getBatchPublishProgress details .translating ∨
      0 < getBatchPublishProgress details .failed := by omega
  rcases hcount with hc | hc | hc
  all_goals
    obtain ⟨d, hd, hs⟩ := List.countP_pos_iff.1 hc
    refine ⟨d, hd, ?_⟩
    rw [of_decide_eq_true hs]
    rfl

theorem resumable_cases {find : String → Option Batch} {batch : Batch}
    (hfind : find batch.batchId = some batch)
    (h : (checkResumeState find (some batch.batchId)).resumable = true) :
    batch.status ≠ .completed ∧ ∃ d ∈ batch.details, toPublish d.publishStatus = true := by
  rw [checkResumeState] at h
  split at h
  next => cases h
  next batchId hid =>
    have hb : batchId = batch.batchId := by
      have := Option.mem_filter_iff.1 hid
      exact (Option.some.inj this.1).symm
    rw [hb, hfind] at h
    dsimp only at h
    split at h
    next => cases h
    next hc =>
      refine ⟨hc, ?_⟩
      dsimp only at h
      rw [Bool.or_eq_true, decide_eq_true_eq, decide_eq_true_eq] at h
      rcases h with ⟨hf, _⟩ | ⟨_, hp⟩
      · obtain ⟨d, hd, hs⟩ := List.countP_pos_iff.1 hf
        refine ⟨d, hd, ?_⟩
        rw [of_decide_eq_true hs]
        rfl
      · exact exists_pending hp

/-- An article that the run works on, as it was read. -/
theorem pending_read (db : Db) (hd : d ∈ pendingArticles env db resume reset es) :
    ∃ n, d ∈ (view db es n).batch.details := by
  rw [pendingArticles] at hd
  split at hd
  next =>
    rw [getDetailsForPublish, mem_sorted] at hd
    exact ⟨_, (List.mem_filter.1 hd).1⟩
  next =>
    rw [getBatchArticles, mem_sorted] at hd
    exact ⟨_, hd⟩

/-- An unfinished article is among those that the run works on. -/
theorem exists_worksOn (env : Env) (args : Args) (db : Db) (hd : d' ∈ db.batch.details)
    (hs : toPublish d'.publishStatus = true) : ∃ d ∈ worksOn env args db, d'.ulid = d.ulid := by
  rw [worksOn, pendingArticles]
  split
  next hr =>
    rw [Bool.and_eq_true, Bool.not_eq_true'] at hr
    refine ⟨d', ?_, rfl⟩
    rw [getDetailsForPublish, mem_sorted, List.mem_filter]
    refine ⟨?_, hs⟩
    rcases details_loaded args db _ (queued_locked args) (env.lag .detailsForPublish) with
      h | ⟨_, h⟩
    · rw [h]
      exact hd
    · rw [hr.2] at h
      cases h
  next =>
    rcases details_loaded args db _ (queued_locked args) (env.lag .allArticles) with h | ⟨h, _⟩
    · refine ⟨d', ?_, rfl⟩
      rw [getBatchArticles, mem_sorted, h]
      exact hd
    · refine ⟨Write.onDetail d' .resetDetails, ?_, rfl⟩
      rw [getBatchArticles, mem_sorted, h]
      exact List.mem_map_of_mem hd

/-- A batch that is reported resumable is worked on exactly when it is `PENDING`, or `PARTIAL` and
not to be finalized. -/
theorem resumable_proceeds_iff (cfg : Config) (env : Env) (args : Args) (db : Db)
    (find : String → Option Batch) (hfind : find db.batch.batchId = some db.batch)
    (htop : db.batch.details.any Detail.isTop10 = true)
    (h : (checkResumeState find (some db.batch.batchId)).resumable = true) :
    Proceeds cfg env args db ↔ db.batch.status = .pending ∨
      db.batch.status = .partialResult ∧ args.finalize = false := by
  obtain ⟨hc, d', hd, hs⟩ := resumable_cases hfind h
  rw [Proceeds, locked_run_iff cfg env args db htop, proceeds_status args db.batch.status hc]
  obtain ⟨d, hw, he⟩ := exists_worksOn env args db hd hs
  exact ⟨fun h => h.1, fun h => ⟨h, d, hw, d', hd, he, hs⟩⟩

theorem resumable_proceeds_pending : Proceeds plainConfig (plainEnv "j1") {} (oneArticle .pending .pending) ↔
    (oneArticle .pending .pending).batch.status = .pending ∨
      (oneArticle .pending .pending).batch.status = .partialResult ∧ ({} : Args).finalize = false :=
  resumable_proceeds_iff plainConfig (plainEnv "j1") {} (oneArticle .pending .pending)
    (fun _ => some (oneArticle .pending .pending).batch) rfl rfl rfl

/-- A batch that a crash has left `PUBLISHING` is reported resumable and never locked again. -/
theorem resumable_not_locked : ¬ ∀ (cfg : Config) (env : Env) (args : Args) (db : Db)
    (find : String → Option Batch), find db.batch.batchId = some db.batch →
    db.batch.details.any Detail.isTop10 = true →
    (checkResumeState find (some db.batch.batchId)).resumable = true →
    Proceeds cfg env args db := by
  intro h
  have hp := h plainConfig (plainEnv "j1") {} (oneArticle .publishing .pending)
    (fun _ => some (oneArticle .publishing .pending).batch) rfl rfl rfl
  exact absurd hp.1 (by decide)

end Publisher
