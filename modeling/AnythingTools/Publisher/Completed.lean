import AnythingTools.Publisher.Publishing

namespace Publisher
open JobItems
set_option autoImplicit true

section
variable {cfg : Config} {env : Env} {args : Args} {jobs : List String}
  {roster : List (Article × Bool)} {w : World} {translated : String → Option Translation}

/-! ### The pipeline -/

theorem unmoved_read (h : Throughout (Unmoved cfg roster w) env.jobId w es)
    (hd : d ∈ pendingArticles env w.db resume reset es) :
    d.entry ∈ roster ∧ Backed cfg d.entry (w.log ++ sentBy env.jobId es) d.publishStatus := by
  obtain ⟨n, hn⟩ := pending_read w.db hd
  exact ⟨(h n).same ▸ List.mem_map_of_mem hn, (h n).backed d hn⟩

theorem unmoved_start (h : Sound cfg jobs roster found translated w.db w.log) :
    Throughout (Unmoved cfg roster w) env.jobId w (resetEffects args ++ [.lock]) := by
  intro n
  rw [sentBy_start, List.append_nil]
  exact unmoved_loaded h.same h.backed _ (queued_locked args) n

theorem publishing_pipeline (args : Args) (resume : Bool)
    (huniq : ∀ p ∈ roster, ∀ p' ∈ roster, p'.1.ulid = p.1.ulid → p' = p)
    (hconf : ∀ channel, cfg.configured channel = true)
    (hjobs : ∀ jobId ∈ env.jobId, jobId ∈ jobs)
    (h : Sound cfg jobs roster (cached w.db.items) (cached w.db.items) w.db w.log)
    (hes : es = resetEffects args ++ [.lock])
    (hlost : NotLost cfg roster env.jobId w.log
      (deliver cfg env w.db (prepare cfg env w.db resume args.reset es).translated
        (validArticles env w.db resume args.reset es)
        (prepare cfg env w.db resume args.reset es).effects).1) :
    ∃ translated, Publishing cfg env jobs roster w (validArticles env w.db resume args.reset es)
      translated (deliver cfg env w.db (prepare cfg env w.db resume args.reset es).translated
        (validArticles env w.db resume args.reset es)
        (prepare cfg env w.db resume args.reset es).effects).1 := by
  have hstart : Throughout (Unmoved cfg roster w) env.jobId w es := hes ▸ unmoved_start h
  have hfound : Throughout (AsFound w) env.jobId w es := hes ▸ asFound_start h.memory.kept
  have hinvalid : ∀ d ∈ invalidArticles env w.db resume args.reset es,
      d.entry ∈ roster ∧ isValid d.article = false := by
    intro d hd
    obtain ⟨hmem, hv⟩ := List.mem_filter.1 hd
    rw [Bool.not_eq_true'] at hv
    exact ⟨(unmoved_read hstart hmem).1, hv⟩
  have htranslate : Translating env w (validArticles env w.db resume args.reset es)
      (prepare cfg env w.db resume args.reset es).translated
      (prepare cfg env w.db resume args.reset es).effects :=
    translating_prepare hfound resume args.reset
  have hpre := (extends_prepare cfg env w.db resume args.reset es).isPrefix
  have hunmoved : Throughout (Unmoved cfg roster w) env.jobId w
      (prepare cfg env w.db resume args.reset es).effects := by
    obtain ⟨new, he, hnew⟩ := quiet_prepare cfg env w.db resume args.reset es
    rw [he]
    apply throughout_append hstart
    intro e hmem
    obtain ⟨write, hw, hq⟩ := hnew e hmem
    exact ⟨write, hw, fun db log hu => unmoved_quiet hq huniq hinvalid hu⟩
  obtain ⟨known, hknown, hmemory⟩ := htranslate.memory
  have hsound : Publishing cfg env jobs roster w (validArticles env w.db resume args.reset es) known
      (prepare cfg env w.db resume args.reset es).effects := by
    refine ⟨fun n => (hunmoved n).sound h (hmemory n) (List.subset_append_left _ _), ?_⟩
    intro d hd t ht hj
    rw [hknown d hd] at ht
    exact htranslate.cached d hd t ht hj
  refine ⟨known, publishing_deliver huniq (fun d hd => (hknown d hd).symm) hsound hconf hjobs ?_ ?_
    hlost⟩
  · intro d hd
    exact (unmoved_read hstart (List.mem_filter.1 hd).1).1
  · intro d hd
    apply (unmoved_read hstart (List.mem_filter.1 hd).1).2.mono
    apply subset_sentBy
    exact (List.prefix_append es _).trans hpre

end

/-! ### The articles that are skipped -/

/-- A batch is completed when every article is in the archive or skipped. -/
theorem seen_of_completed (h : statusFromDetails details = some .completed) :
    ∀ d ∈ details, d.publishStatus = .publishedArchive ∨ d.publishStatus = .skipped := by
  have hsum : (PublishStatus.all.map (getBatchPublishProgress details)).sum =
      getBatchPublishProgress details .pending + (getBatchPublishProgress details .translating +
        (getBatchPublishProgress details .publishedBriefing +
        (getBatchPublishProgress details .publishedArchive +
        (getBatchPublishProgress details .failed + getBatchPublishProgress details .skipped)))) :=
    rfl
  rw [sum_progress] at hsum
  have hall : getBatchPublishProgress details .publishedArchive +
      getBatchPublishProgress details .skipped = details.length := by
    rw [statusFromDetails] at h
    split at h
    next => cases h
    next =>
      split at h
      next hc => exact hc.1
      next =>
        split at h
        next => cases h
        next =>
          split at h
          next => cases h
          next => cases h
  intro d hd
  have hpos (status : PublishStatus) (hs : d.publishStatus = status) :
      0 < getBatchPublishProgress details status :=
    List.countP_pos_iff.2 ⟨d, hd, decide_eq_true hs⟩
  cases hs : d.publishStatus with
  | publishedArchive => exact .inl rfl
  | skipped => exact .inr rfl
  | pending => have := hpos _ hs; omega
  | translating => have := hpos _ hs; omega
  | publishedBriefing => have := hpos _ hs; omega
  | failed => have := hpos _ hs; omega

theorem nil_of_status_none (h : statusFromDetails details = none) : details = [] := by
  rw [statusFromDetails] at h
  split at h
  next hlen => exact List.eq_nil_of_length_eq_zero hlen
  next =>
    split at h
    next => cases h
    next =>
      split at h
      next => cases h
      next =>
        split at h
        next => cases h
        next => cases h

/-- The statement leaves the article skipped. -/
def KeepsSkipped (a : Article) (w : Write) : Prop :=
  ∀ d : Detail, d.article = a → d.publishStatus = .skipped →
    (w.onDetail d).publishStatus = .skipped

theorem KeepsSkipped.onDetail (h : KeepsSkipped a w) (d : Detail)
    (hd : d.article = a ∧ d.publishStatus = .skipped) :
    (w.onDetail d).article = a ∧ (w.onDetail d).publishStatus = .skipped :=
  ⟨(article_onDetail d w).trans hd.1, h d hd.1 hd.2⟩

theorem after_keepsSkipped {d : Detail} {ws : List Write}
    (hk : ∀ w ∈ ws, KeepsSkipped d.article w) (hs : d.publishStatus = .skipped) :
    (d.after ws).publishStatus = .skipped :=
  (after_inv (fun w hw => (hk w hw).onDetail) ⟨rfl, hs⟩).2

/-- An article that is skipped somewhere on the way stays skipped. -/
theorem after_skipped {d : Detail} {ws : List Write}
    (hk : ∀ w ∈ ws, KeepsSkipped d.article w) (hmem : .setDetail d.ulid .skipped none ∈ ws) :
    (d.after ws).publishStatus = .skipped := by
  refine (after_since (fun w hw => (hk w hw).onDetail) hmem fun before => ?_).2
  have hu : (d.after before).ulid = d.ulid := congrArg Article.ulid (article_after d before)
  refine ⟨(article_onDetail _ _).trans (article_after d before), ?_⟩
  rw [Write.onDetail, if_pos hu]

theorem keepsSkipped_skipInvalid (a : Article)
    (hw : w ∈ queued (skipInvalid env skipped)) : KeepsSkipped a w := by
  obtain ⟨e, he, hw⟩ := List.mem_filterMap.1 hw
  intro d _ hs
  rcases List.mem_append.1 he with he | he
  · obtain ⟨d', _, he⟩ := List.mem_flatMap.1 he
    rcases List.mem_append.1 he with he | he
    · obtain ⟨jobId, _, he⟩ := List.mem_map.1 he
      rw [← he] at hw
      cases hw
      exact hs
    · obtain ⟨jobId, _, he⟩ := List.mem_map.1 he
      rw [← he] at hw
      cases hw
      exact hs
  · obtain ⟨d', _, he⟩ := List.mem_map.1 he
    rw [← he] at hw
    cases hw
    rw [Write.onDetail]
    split
    next => rfl
    next => exact hs

theorem keepsSkipped_about (hvalid : ∀ d ∈ articles, d.ulid ≠ a.ulid)
    (hnew : ∀ e ∈ new, Effect.about articles e) (hw : w ∈ queued new) : KeepsSkipped a w := by
  obtain ⟨e, he, hw⟩ := List.mem_filterMap.1 hw
  have habout := hnew e he
  intro d ha hs
  cases e with
  | queue w' =>
    cases hw
    cases w with
    | setDetail ulid status texts =>
      obtain ⟨d', hd', hu⟩ := habout
      rw [Write.onDetail, if_neg]
      · exact hs
      · intro he
        apply hvalid d' hd'
        rw [hu, ← he, Detail.ulid, ha]
    | item w => exact hs
    | setBatchStatus status => exact absurd habout id
    | resetDetails => exact absurd habout id
    | skipUnpublished => exact absurd habout id
    | editTop10 ranks => exact absurd habout id
  | lock => cases hw
  | send channel ulid k text outcome => cases hw

section
variable {cfg : Config} {env : Env} {args : Args} {jobs : List String}
  {roster : List (Article × Bool)} {w : World}
  (huniq : ∀ p ∈ roster, ∀ p' ∈ roster, p'.1.ulid = p.1.ulid → p' = p)
include huniq

/-- An article that a reader finds skipped is skipped in the end. -/
theorem skipped_drained (h : Throughout (Unmoved cfg roster w) env.jobId w
      (resetEffects args ++ [.lock])) (resume : Bool)
    (hext : Extends (validArticles env w.db resume args.reset (resetEffects args ++ [.lock]))
      (resetEffects args ++ [.lock] ++
        skipInvalid env (invalidArticles env w.db resume args.reset (resetEffects args ++ [.lock])))
      es) (hd : d ∈ w.db.batch.details) (hr : d.entry ∈ roster)
    (hv : isValid d.article = false) (hu : d.ulid ≠ "")
    (hseen : (d.after ((queued es).take n)).publishStatus = .skipped) :
    (d.after (queued es)).publishStatus = .skipped := by
  obtain ⟨new, he, hnew⟩ := hext
  generalize hstart : resetEffects args ++ [.lock] = start at *
  have hother : ∀ w' ∈ queued (skipInvalid env (invalidArticles env w.db resume args.reset start)) ++
      queued new, KeepsSkipped d.article w' := by
    intro w' hw'
    rcases List.mem_append.1 hw' with hw' | hw'
    · exact keepsSkipped_skipInvalid d.article hw'
    · refine keepsSkipped_about (fun d' hd' hu' => ?_) hnew hw'
      obtain ⟨hmem, hvalid⟩ := List.mem_filter.1 hd'
      have hentry := huniq d.entry hr d'.entry (unmoved_read h hmem).1 hu'
      have ha : d'.article = d.article := congrArg Prod.fst hentry
      rw [ha, hv] at hvalid
      cases hvalid
  have hq : queued es = queued (resetEffects args) ++
      (queued (skipInvalid env (invalidArticles env w.db resume args.reset start)) ++
        queued new) := by
    rw [he, queued_append, queued_append, ← hstart, queued_locked, List.append_assoc]
  cases hreset : args.reset with
  | false =>
    have hnone : queued (resetEffects args) = [] := by
      rw [resetEffects, hreset]
      rfl
    rw [hnone, List.nil_append] at hq
    rw [← List.take_append_drop n (queued es), after_append]
    apply after_keepsSkipped _ hseen
    intro w' hw'
    rw [article_after]
    apply hother w'
    rw [← hq]
    exact List.mem_of_mem_drop hw'
  | true =>
    have hmem : ∃ d' ∈ invalidArticles env w.db resume args.reset start, d'.ulid = d.ulid := by
      rw [invalidArticles, pendingArticles, hreset, Bool.not_true, Bool.and_false,
        if_neg Bool.false_ne_true]
      refine ⟨d.after ((queued start).take (env.lag .allArticles)), ?_,
        congrArg Article.ulid (article_after d _)⟩
      rw [List.mem_filter, getBatchArticles, mem_sorted, details_view, article_after, hv]
      exact ⟨List.mem_map_of_mem hd, rfl⟩
    obtain ⟨d', hd', hu'⟩ := hmem
    rw [hq, after_append]
    apply after_skipped
    · rw [article_after]
      exact hother
    · have hulid : (d.after (queued (resetEffects args))).ulid = d.ulid :=
        congrArg Article.ulid (article_after d _)
      rw [hulid]
      apply List.mem_append_left
      apply List.mem_filterMap.2
      refine ⟨.queue (.setDetail d'.ulid .skipped none), ?_, by rw [hu']; rfl⟩
      apply List.mem_append_right
      apply List.mem_map.2
      refine ⟨d', List.mem_filter.2 ⟨hd', ?_⟩, rfl⟩
      rw [hu']
      exact decide_eq_true hu

end

/-! ### Runs -/

/-- Every article that is not skipped has arrived in the archive, and of those of the top 10 each
in the briefing too. -/
def Complete (cfg : Config) (w : World) : Prop :=
  ∀ d ∈ w.db.batch.details, d.publishStatus ≠ .skipped →
    Delivered cfg .archive d.article w.log ∧
      (d.isTop10 = true → Delivered cfg .briefing d.article w.log)

/-- No article of the top 10 that the briefing lacks is delivered to the archive in a run in which
Telegram refuses it, for good, for the briefing. -/
def BriefingKept (cfg : Config) (w : World) (x : Execution) : Prop :=
  NotLost cfg (w.db.batch.details.map Detail.entry) x.env.jobId w.log (x.effects cfg w.db)

/-- A batch that no run has worked on. -/
structure Fresh (xs : List Execution) (w : World) : Prop extends Unsent xs w where
  status : w.db.batch.status = .pending
  details : ∀ d ∈ w.db.batch.details, d.publishStatus = .pending

/-- What holds of the batch between two runs. -/
structure Tracked (cfg : Config) (jobs : List String) (roster : List (Article × Bool)) (w : World) :
    Prop where
  sound : Sound cfg jobs roster (cached w.db.items) (cached w.db.items) w.db w.log
  complete : w.db.batch.status = .completed → Complete cfg w

theorem roster_unique (b : Batch) : ∀ p ∈ b.details.map Detail.entry,
    ∀ p' ∈ b.details.map Detail.entry, p'.1.ulid = p.1.ulid → p' = p := by
  intro p hp p' hp' hu
  obtain ⟨d, hd, he⟩ := List.mem_map.1 hp
  obtain ⟨d', hd', he'⟩ := List.mem_map.1 hp'
  rw [← he, ← he'] at hu ⊢
  rw [List.inj_on_of_nodup_map b.unique hd' hd hu]

section
variable {cfg : Config} {env : Env} {args : Args} {jobs : List String}
  {roster : List (Article × Bool)} {w : World}

/-- What a pipeline that finds the batch completed has delivered. -/
theorem complete_pipeline
    (h : Sound cfg jobs roster (cached w.db.items) (cached w.db.items) w.db w.log)
    (hconf : ∀ channel, cfg.configured channel = true)
    (hjobs : ∀ jobId ∈ env.jobId, jobId ∈ jobs)
    (hp : deliver cfg env w.db
        (prepare cfg env w.db resume args.reset (resetEffects args ++ [.lock])).translated
        (validArticles env w.db resume args.reset (resetEffects args ++ [.lock]))
        (prepare cfg env w.db resume args.reset (resetEffects args ++ [.lock])).effects = (es, r))
    (hlost : NotLost cfg roster env.jobId w.log es) :
    (∃ translated, Sound cfg jobs roster (cached w.db.items) translated (drained w.db es)
        (w.log ++ sentBy env.jobId es)) ∧
      (statusFromDetails (view w.db es n).batch.details = some .completed →
        ∀ d ∈ (drained w.db es).batch.details, d.publishStatus ≠ .skipped →
          Delivered cfg .archive d.article (w.log ++ sentBy env.jobId es) ∧
            (d.isTop10 = true →
              Delivered cfg .briefing d.article (w.log ++ sentBy env.jobId es))) := by
  have huniq : ∀ p ∈ roster, ∀ p' ∈ roster, p'.1.ulid = p.1.ulid → p' = p := by
    rw [← h.same]
    exact roster_unique w.db.batch
  have hstart : Throughout (Unmoved cfg roster w) env.jobId w (resetEffects args ++ [.lock]) :=
    unmoved_start h
  have hpub := publishing_pipeline args resume huniq hconf hjobs h rfl
  have hext := extends_pipeline cfg env w.db resume args.reset (resetEffects args ++ [.lock])
  rw [hp] at hpub hext
  obtain ⟨translated, hpub⟩ := hpub hlost
  refine ⟨⟨translated, hpub.sound.drained⟩, ?_⟩
  intro hc d' hd' hns
  rw [drained, details_view] at hd'
  obtain ⟨d, hd, he⟩ := List.mem_map.1 hd'
  have hr : d.entry ∈ roster := by
    rw [← h.same]
    exact List.mem_map_of_mem hd
  have hfinal : d' = d.after (queued es) := by
    rw [← he, List.take_length]
  have hseen : d.after ((queued es).take n) ∈ (view w.db es n).batch.details := by
    rw [details_view]
    exact List.mem_map_of_mem hd
  have hsound := hpub.sound n
  have hsame : (d.after ((queued es).take n)).entry = d'.entry := by
    apply huniq d'.entry
    · rw [← hpub.sound.drained.same, drained, details_view]
      exact List.mem_map_of_mem hd'
    · rw [← hsound.same]
      exact List.mem_map_of_mem hseen
    · rw [hfinal]
      exact congrArg Article.ulid ((article_after d _).trans (article_after d _).symm)
  have hbacked := hsound.backed _ hseen
  rw [hsame] at hbacked
  rcases seen_of_completed hc _ hseen with hs | hs
  · rw [hs] at hbacked
    exact hbacked
  · rw [hs] at hbacked
    have ha : d'.article = d.article := by
      rw [hfinal, article_after]
    have hv : isValid d.article = false ∧ d.ulid ≠ "" := by
      rw [← ha, Detail.ulid, ← ha]
      exact hbacked
    refine absurd ?_ hns
    rw [hfinal]
    exact skipped_drained huniq hstart resume hext hd hr hv.1 hv.2 hs

/-- Without more than a new status of the batch there is nothing new to be sound. -/
theorem tracked_status (h : Sound cfg jobs roster found translated (drained w.db es)
      (w.log ++ sentBy env.jobId es))
    (hc : status = .completed → ∀ d ∈ (drained w.db es).batch.details, d.publishStatus ≠ .skipped →
      Delivered cfg .archive d.article (w.log ++ sentBy env.jobId es) ∧
        (d.isTop10 = true → Delivered cfg .briefing d.article (w.log ++ sentBy env.jobId es))) :
    Tracked cfg jobs roster
      { db := drained w.db (es ++ [.queue (.setBatchStatus status)])
        log := w.log ++ sentBy env.jobId (es ++ [.queue (.setBatchStatus status)]) } := by
  rw [drained_queue, sentBy_queue]
  exact ⟨(sound_setBatchStatus h status).restart, hc⟩

theorem tracked_run (h : Tracked cfg jobs roster w)
    (hconf : ∀ channel, cfg.configured channel = true)
    (hjobs : ∀ jobId ∈ env.jobId, jobId ∈ jobs) (hfin : args.finalize = false)
    (hlost : NotLost cfg roster env.jobId w.log (run cfg env args w.db).1) :
    Tracked cfg jobs roster
      { db := drained w.db (run cfg env args w.db).1
        log := w.log ++ sentBy env.jobId (run cfg env args w.db).1 } := by
  have hreset (n : Nat) : Sound cfg jobs roster (cached w.db.items) (cached w.db.items)
      (view w.db (resetEffects args) n) w.log := by
    apply (unmoved_loaded h.sound.same h.sound.backed _ rfl n).sound h.sound
    · rw [items_loaded args w.db _ rfl n]
      exact h.sound.memory
    · exact List.Subset.refl _
  rw [run] at hlost ⊢
  cases hroute : route args w.db.batch.status with
  | alreadyPublished =>
    change Tracked cfg jobs roster { db := w.db, log := w.log ++ [] }
    rw [List.append_nil]
    exact h
  | finalize =>
    rw [route, hfin] at hroute
    split at hroute
    next => cases hroute
    next =>
      split at hroute
      next hf => exact absurd hf.1 Bool.false_ne_true
      next => cases hroute
  | proceed =>
    rw [hroute] at hlost
    dsimp only at hlost ⊢
    split at hlost
    next htop =>
      rw [if_pos htop]
      split at hlost
      next hlock =>
        rw [if_pos hlock]
        obtain ⟨es, raised, hdel, hpipe⟩ := runPipeline_cases cfg env w.db
          (decide (w.db.batch.status ∈ [.pending, .partialResult])) args.reset
          (resetEffects args ++ [.lock])
        rw [hpipe] at hlost ⊢
        cases raised with
        | true =>
          obtain ⟨⟨_, hsound⟩, _⟩ := complete_pipeline (n := 0) h.sound hconf hjobs hdel
            (hlost.of_prefix (List.prefix_append es _))
          exact tracked_status hsound BatchStatus.noConfusion
        | false =>
          have hkept : NotLost cfg roster env.jobId w.log es :=
            hlost.of_prefix (List.prefix_append es _)
          obtain ⟨⟨_, hsound⟩, hcomplete⟩ :=
            complete_pipeline (n := env.lag .counts) h.sound hconf hjobs hdel hkept
          change Tracked cfg jobs roster
            { db := drained w.db (es ++ setStatus w.db env es)
              log := w.log ++ sentBy env.jobId (es ++ setStatus w.db env es) }
          rw [setStatus]
          cases hstatus : statusFromDetails (view w.db es (env.lag .counts)).batch.details with
          | some status =>
            apply tracked_status hsound
            intro hc
            rw [hc] at hstatus
            exact hcomplete hstatus
          | none =>
            change Tracked cfg jobs roster
              { db := drained w.db (es ++ []), log := w.log ++ sentBy env.jobId (es ++ []) }
            rw [List.append_nil]
            refine ⟨hsound.restart, fun _ d hd => ?_⟩
            have hnone := nil_of_status_none hstatus
            rw [details_view, List.map_eq_nil_iff] at hnone
            change d ∈ (drained w.db es).batch.details at hd
            rw [drained, details_view, hnone] at hd
            exact absurd hd List.not_mem_nil
      next hlock =>
        rw [if_neg hlock]
        change Tracked cfg jobs roster { db := drained w.db (resetEffects args)
                                         log := w.log ++ sentBy env.jobId (resetEffects args) }
        rw [sentBy_reset, List.append_nil]
        refine ⟨(hreset _).restart, fun hc => ?_⟩
        have hsame : (drained w.db (resetEffects args)).batch.status = w.db.batch.status := by
          rw [resetEffects]
          split
          next => rfl
          next => rfl
        change (drained w.db (resetEffects args)).batch.status = .completed at hc
        rw [← hsame, hc] at hlock
        exact absurd rfl hlock
    next htop =>
      rw [if_neg htop]
      have hsound : Sound cfg jobs roster (cached w.db.items) (cached w.db.items)
          (drained w.db (resetEffects args)) (w.log ++ sentBy env.jobId (resetEffects args)) := by
        rw [sentBy_reset, List.append_nil]
        exact hreset _
      exact tracked_status hsound BatchStatus.noConfusion

end

theorem tracked_fresh (hf : Fresh xs w) :
    Tracked cfg (jobsOf xs) (w.db.batch.details.map Detail.entry) w where
  sound :=
    { same := rfl
      backed := by
        intro d hd
        rw [hf.details d hd]
        trivial
      counted := by
        intro jobId hj channel p hp hpos
        obtain ⟨d, hd, he⟩ := List.mem_map.1 hp
        have hzero : chunksSent w.db.items jobId channel p.1.ulid = 0 := by
          rw [← he]
          exact hf.counter hj channel hd
        rw [hzero] at hpos
        exact absurd hpos (Nat.lt_irrefl 0)
      memory := memory_found hf.kept }
  complete hc := by
    rw [hf.status] at hc
    cases hc

theorem tracked_step (hconf : ∀ channel, cfg.configured channel = true)
    (hjobs : ∀ jobId ∈ x.env.jobId, jobId ∈ jobs) (hfin : x.args.finalize = false)
    (hcrash : x.crash = none) (hkept : BriefingKept cfg w x)
    (h : World.step cfg w x = some w') (ht : Tracked cfg jobs roster w) :
    Tracked cfg jobs roster w' := by
  cases h
  have hes : x.effects cfg w.db = (run cfg x.env x.args w.db).1 := by
    rw [Execution.effects, hcrash]
  rw [BriefingKept, hes, ht.sound.same] at hkept
  rw [hes]
  exact tracked_run ht hconf hjobs hfin hkept

/-- A batch of which no run loses a briefing is completed only when everything has arrived. -/
theorem complete_run (hconf : ∀ channel, cfg.configured channel = true) (hf : Fresh xs w)
    (hxs : ∀ x ∈ xs, x.args.finalize = false ∧ x.crash = none)
    (hm : Machine.Meets (World.step cfg) (BriefingKept cfg) w xs)
    (hr : Machine.run (World.step cfg) w xs = some w')
    (hc : w'.db.batch.status = .completed) : Complete cfg w' := by
  let roster := w.db.batch.details.map Detail.entry
  have hstep (w : World) (x : Execution) (w' : World) (hx : x ∈ xs ∧ BriefingKept cfg w x)
      (h : World.step cfg w x = some w') : Tracked cfg (jobsOf xs) roster w →
        Tracked cfg (jobsOf xs) roster w' :=
    tracked_step hconf (fun _ => mem_jobsOf hx.1) (hxs x hx.1).1 (hxs x hx.1).2 hx.2 h
  have hm' : Machine.Meets (World.step cfg) (fun w x => x ∈ xs ∧ BriefingKept cfg w x) w xs :=
    Machine.meets_imp (fun _ _ hx hk => ⟨hx, hk⟩) hm
  exact (Machine.run_invariant hstep hm' hr (tracked_fresh hf)).complete hc

theorem fresh_oneArticle (telegram : Channel → String → Nat → Outcome) :
    Fresh [promptRun "j1" telegram] World.fresh where
  toUnsent := unsent_fresh _
  status := rfl
  details := by decide

def Effect.isRefusal : Effect → Bool
  | .send .briefing _ _ _ .permanent => true
  | _ => false

theorem not_refused (h : es.any Effect.isRefusal = false) : ¬ Refused es ulid := by
  rintro ⟨k, text, hmem⟩
  rw [List.any_eq_false] at h
  exact h _ hmem rfl

theorem complete_run_promptRun : ∃ w', Machine.run (World.step plainConfig) World.fresh
    [promptRun "j1" fun _ _ _ => .ok] = some w' ∧ w'.db.batch.status = .completed ∧
      Complete plainConfig w' := by
  have hm : Machine.Meets (World.step plainConfig) (BriefingKept plainConfig) World.fresh
      [promptRun "j1" fun _ _ _ => .ok] := by
    refine ⟨fun p _ _ hr => absurd hr (not_refused ?_), fun _ _ => trivial⟩
    decide
  have hc : ((World.step plainConfig World.fresh (promptRun "j1" fun _ _ _ => .ok)).map
      fun w => w.db.batch.status) = some .completed := by decide
  refine ⟨_, rfl, Option.some.inj hc, complete_run (fun _ => rfl) (fresh_oneArticle _) ?_ hm rfl
    (Option.some.inj hc)⟩
  intro x hx
  rw [List.mem_singleton.1 hx]
  exact ⟨rfl, rfl⟩

/-- The briefing is refused for good, the archive takes the article. -/
def refuseBriefing : Channel → String → Nat → Outcome
  | .briefing, _, _ => .permanent
  | .archive, _, _ => .ok

/-- What that run leaves. -/
def World.refused : World :=
  ((World.step plainConfig World.fresh (promptRun "j1" refuseBriefing)).getD World.fresh)

/-- An article of the top 10 that never comes to the briefing counts as published. -/
theorem complete_without_briefing : ¬ ∀ (cfg : Config) (xs : List Execution) (w w' : World),
    (∀ channel, cfg.configured channel = true) → Fresh xs w →
    (∀ x ∈ xs, x.args.finalize = false ∧ x.crash = none) →
    Machine.run (World.step cfg) w xs = some w' → w'.db.batch.status = .completed →
    Complete cfg w' := by
  intro h
  have hplain : ∀ x ∈ [promptRun "j1" refuseBriefing],
      x.args.finalize = false ∧ x.crash = none := by
    intro x hx
    rw [List.mem_singleton.1 hx]
    exact ⟨rfl, rfl⟩
  have hcomplete := h plainConfig [promptRun "j1" refuseBriefing] World.fresh World.refused
    (fun _ => rfl) (fresh_oneArticle _) hplain rfl (by decide)
  have hdetails : World.refused.db.batch.details.map (fun d => (d.publishStatus, d.isTop10)) =
      [(.publishedArchive, true)] := by decide
  obtain ⟨d, hd, he⟩ := List.map_eq_singleton_iff.1 hdetails
  rw [Prod.mk.injEq] at he
  have hns : d.publishStatus ≠ .skipped := by
    rw [he.1]
    decide
  have hbriefing : Delivered plainConfig .briefing d.article World.refused.log :=
    (hcomplete d (hd ▸ List.mem_cons_self) hns).2 he.2
  obtain ⟨s, hs, hchannel, _⟩ := hbriefing.mem
  have hlog : ∀ s ∈ World.refused.log, s.channel = .archive := by decide
  rw [hlog s hs] at hchannel
  cases hchannel

end Publisher
