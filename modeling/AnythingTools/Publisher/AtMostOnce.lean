import AnythingTools.Publisher.Accounted

namespace Publisher
open JobItems
set_option autoImplicit true

section
variable {cfg : Config} {env : Env} {args : Args} {jobs : List String} {roster : List Article}
  {w : World} {articles : List Detail} {translated : String → Option Translation}

/-- Before the delivery there is nothing new to account for. -/
theorem delivering_prepare (env : Env) (h : Accounted cfg jobs roster w.db.items w.log)
    (hes : es = resetEffects args ++ [.lock]) (resume reset : Bool) :
    Delivering cfg env jobs roster w (validArticles env w.db resume reset es)
        (prepare cfg env w.db resume reset es).translated
        (prepare cfg env w.db resume reset es).effects ∧
      ∀ channel ulid, ∀ e ∈ (prepare cfg env w.db resume reset es).effects,
        Effect.Avoids channel ulid e := by
  have hfound : Throughout (AsFound w) env.jobId w es := hes ▸ asFound_start h.kept
  have htranslate : Translating env w (validArticles env w.db resume reset es)
      (prepare cfg env w.db resume reset es).translated
      (prepare cfg env w.db resume reset es).effects := translating_prepare hfound resume reset
  have havoid : ∀ channel ulid, ∀ e ∈ (prepare cfg env w.db resume reset es).effects,
      Effect.Avoids channel ulid e := hes ▸ avoids_prepare cfg env args w.db resume reset
  obtain ⟨known, _, hmemory⟩ := htranslate.memory
  have hall : ∀ es', es' <+: (prepare cfg env w.db resume reset es).effects →
      Accounted cfg jobs roster (drained w.db es').items (w.log ++ sentBy env.jobId es') := by
    intro es' hpre
    have havoid' : ∀ channel ulid, ∀ e ∈ es', Effect.Avoids channel ulid e :=
      fun channel ulid e he => havoid channel ulid e (hpre.subset he)
    have hmem := hmemory (queued es').length
    dsimp only at hmem
    rw [← items_of_prefix w.db hpre] at hmem
    refine h.congr hmem.kept hmem.still ?_ ?_
    · intro jobId channel ulid
      exact chunksSent_view w.db (havoid' channel ulid) _ jobId
    · intro channel ulid
      rw [sentTo_append, sentTo_avoids env.jobId (havoid' channel ulid), List.append_nil]
  exact ⟨⟨hall _ (List.prefix_refl _), fun es' hpre _ => hall es' hpre, htranslate.cached⟩, havoid⟩

/-- An effect on neither items nor channels. -/
def Effect.idle : Effect → Bool
  | .queue (.item _) => false
  | .send .. => false
  | _ => true

theorem items_idle (db : Db) (h : ∀ e ∈ es, Effect.idle e = true) :
    (drained db es).items = db.items := by
  rw [drained, items_view, List.take_length]
  have hq : ∀ write ∈ queued es, ∀ db : Db, (db.commit write).items = db.items := by
    intro write hw db
    obtain ⟨e, he, hw⟩ := List.mem_filterMap.1 hw
    have hidle := h e he
    cases e with
    | queue write' =>
      cases hw
      cases write with
      | item => cases hidle
      | _ => rfl
    | lock => cases hw
    | send => cases hw
  generalize queued es = ws at hq
  induction ws generalizing db with
  | nil => rfl
  | cons write ws ih =>
    rw [commitAll_cons, ih _ fun w' hw' => hq w' (List.mem_cons_of_mem write hw')]
    exact hq write List.mem_cons_self db

theorem accounted_idle (h : Accounted cfg jobs roster w.db.items w.log)
    (hi : ∀ e ∈ es, Effect.idle e = true) :
    Accounted cfg jobs roster (drained w.db es).items (w.log ++ sentBy env.jobId es) := by
  have hnone : sentBy env.jobId es = [] := by
    rw [sentBy, List.filterMap_eq_nil_iff]
    intro e he
    have hidle := hi e he
    cases e with
    | send => cases hidle
    | queue => rfl
    | lock => rfl
  rw [items_idle w.db hi, hnone, List.append_nil]
  exact h

theorem idle_resetEffects (args : Args) : ∀ e ∈ resetEffects args, Effect.idle e = true := by
  rw [resetEffects]
  split
  next =>
    intro e he
    rw [List.mem_singleton.1 he]
    rfl
  next => exact fun _ he => absurd he List.not_mem_nil

/-- An article that the run works on is one of the batch, with its status unless the run resets
the batch. -/
theorem pending_details (db : Db) (hd : d ∈ pendingArticles env db resume args.reset
      (resetEffects args ++ [.lock])) :
    ∃ d' ∈ db.batch.details, d'.article = d.article ∧
      (args.reset = false → d'.publishStatus = d.publishStatus) := by
  obtain ⟨n, hn⟩ := pending_read db hd
  rcases details_loaded args db _ (queued_locked args) n with h | ⟨h, hr⟩
  · rw [h] at hn
    exact ⟨d, hn, rfl, fun _ => rfl⟩
  · rw [h] at hn
    obtain ⟨d', hd', he⟩ := List.mem_map.1 hn
    rw [← he]
    refine ⟨d', hd', rfl, fun hf => ?_⟩
    rw [hf] at hr
    cases hr

/-- Of an article that a channel is to deliver, the run's job has sent all that has arrived. -/
def Continues (w : World) (x : Execution) : Prop :=
  ∀ d ∈ w.db.batch.details, ∀ channel : Channel,
    (x.args.reset = true ∨ channel.passes d.publishStatus = false) →
      ∀ s ∈ sentTo w.log channel d.ulid, ∃ jobId, x.env.jobId = some jobId ∧ s.jobId = some jobId

/-- The run does not stop between a message and its record. -/
def Recorded (cfg : Config) (w : World) (x : Execution) : Prop :=
  unrecorded (x.effects cfg w.db) = false

/-- The status that comes last. -/
theorem delivering_status (h : Delivering cfg env jobs roster w articles translated es)
    (raised : Bool) :
    Delivering cfg env jobs roster w articles translated
      (es ++ if raised then [.queue (.setBatchStatus .partialResult)]
        else setStatus w.db env es) := by
  have hset (status : BatchStatus) : Delivering cfg env jobs roster w articles translated
      (es ++ [.queue (.setBatchStatus status)]) :=
    delivering_queue h h.now.kept (fun _ => rfl) fun _ _ _ => rfl
  cases raised with
  | true => exact hset .partialResult
  | false =>
    rw [if_neg Bool.false_ne_true, setStatus]
    cases statusFromDetails (view w.db es (env.lag .counts)).batch.details with
    | none =>
      change Delivering cfg env jobs roster w articles translated (es ++ [])
      rw [List.append_nil]
      exact h
    | some status => exact hset status

theorem article_unique (b : Batch) : ∀ a ∈ b.details.map Detail.article,
    ∀ a' ∈ b.details.map Detail.article, a'.ulid = a.ulid → a' = a := by
  intro a ha a' ha' hu
  obtain ⟨d, hd, he⟩ := List.mem_map.1 ha
  obtain ⟨d', hd', he'⟩ := List.mem_map.1 ha'
  rw [← he, ← he'] at hu ⊢
  rw [List.inj_on_of_nodup_map b.unique hd' hd hu]

theorem accounted_run (h : Accounted cfg jobs roster w.db.items w.log)
    (hroster : w.db.batch.details.map Detail.article = roster)
    (hjobs : ∀ jobId ∈ x.env.jobId, jobId ∈ jobs) (hcont : Continues w x)
    (hpre : es' <+: (run cfg x.env x.args w.db).1) (hu : unrecorded es' = false) :
    Accounted cfg jobs roster (drained w.db es').items (w.log ++ sentBy x.env.jobId es') := by
  have hidle (es : List Effect) (hi : ∀ e ∈ es, Effect.idle e = true) (hpre : es' <+: es) :
      Accounted cfg jobs roster (drained w.db es').items (w.log ++ sentBy x.env.jobId es') :=
    accounted_idle h fun e he => hi e (hpre.subset he)
  rw [run] at hpre
  cases hroute : route x.args w.db.batch.status with
  | alreadyPublished =>
    rw [hroute] at hpre
    exact hidle [] (fun _ he => absurd he List.not_mem_nil) hpre
  | finalize =>
    rw [hroute] at hpre
    refine hidle [.queue .skipUnpublished, .queue (.setBatchStatus .completed)] ?_ hpre
    decide
  | proceed =>
    rw [hroute] at hpre
    dsimp only at hpre
    split at hpre
    next =>
      split at hpre
      next =>
        obtain ⟨es, raised, hdel, hpipe⟩ := runPipeline_cases cfg x.env w.db
          (decide (w.db.batch.status ∈ [.pending, .partialResult])) x.args.reset
          (resetEffects x.args ++ [.lock])
        generalize decide (w.db.batch.status ∈ [.pending, .partialResult]) = resume at hdel hpipe hpre
        have huniq : ∀ a ∈ roster, ∀ a' ∈ roster, a'.ulid = a.ulid → a' = a := by
          rw [← hroster]
          exact article_unique w.db.batch
        obtain ⟨hprep, havoid⟩ := delivering_prepare x.env h rfl resume x.args.reset
        have hr : ∀ d ∈ validArticles x.env w.db resume x.args.reset
            (resetEffects x.args ++ [.lock]), d.article ∈ roster := by
          intro d hd
          obtain ⟨d', hd', ha, _⟩ := pending_details w.db (List.mem_filter.1 hd).1
          rw [← ha, ← hroster]
          exact List.mem_map_of_mem hd'
        have hsame : ∀ d ∈ validArticles x.env w.db resume x.args.reset
            (resetEffects x.args ++ [.lock]), ∀ channel : Channel,
            channel.passes d.publishStatus = false → ∀ s ∈ sentTo w.log channel d.ulid,
              ∃ jobId, x.env.jobId = some jobId ∧ s.jobId = some jobId := by
          intro d hd channel hpass s hs
          obtain ⟨d', hd', ha, hstatus⟩ := pending_details w.db (List.mem_filter.1 hd).1
          have hu : d'.ulid = d.ulid := congrArg Article.ulid ha
          rw [← hu] at hs
          refine hcont d' hd' channel ?_ s hs
          cases hreset : x.args.reset with
          | true => exact .inl rfl
          | false =>
            rw [hstatus hreset]
            exact .inr hpass
        have hdelivered := delivering_deliver huniq hjobs hr
          (nodup_valid x.env w.db resume x.args.reset _) hsame hprep havoid
        rw [hdel] at hdelivered
        rw [hpipe] at hpre
        refine (delivering_status hdelivered raised).before es' ?_ hu
        cases raised with
        | true => exact hpre
        | false => exact hpre
      next => exact hidle _ (idle_resetEffects x.args) hpre
    next =>
      refine hidle _ (fun e he => ?_) hpre
      rcases List.mem_append.1 he with he | he
      · exact idle_resetEffects x.args e he
      · rw [List.mem_singleton.1 he]
        rfl

theorem accounted_step (hjobs : ∀ jobId ∈ x.env.jobId, jobId ∈ jobs) (hcont : Continues w x)
    (hrec : Recorded cfg w x) (h : World.step cfg w x = some w')
    (ha : Accounted cfg jobs roster w.db.items w.log)
    (hroster : w.db.batch.details.map Detail.article = roster) :
    Accounted cfg jobs roster w'.db.items w'.log ∧
      w'.db.batch.details.map Detail.article = roster := by
  cases h
  constructor
  · refine accounted_run ha hroster hjobs hcont ?_ hrec
    rw [Execution.effects]
    split
    next => exact List.take_prefix _ _
    next => exact List.prefix_refl _
  · rw [← hroster]
    change (drained w.db _).batch.details.map Detail.article = _
    rw [drained, details_view, List.map_map]
    exact List.map_congr_left fun d _ => article_after d _

theorem accounted_unsent (hf : Unsent xs w) :
    Accounted cfg (jobsOf xs) (w.db.batch.details.map Detail.article) w.db.items w.log where
  kept := hf.kept
  each channel a ha := by
    obtain ⟨d, hd, he⟩ := List.mem_map.1 ha
    have hnone : sentTo w.log channel a.ulid = [] := by
      rw [hf.log]
      rfl
    have hzero (jobId : String) (hj : jobId ∈ jobsOf xs) :
        chunksSent w.db.items jobId channel a.ulid = 0 := by
      rw [← he]
      exact hf.counter hj channel hd
    refine ⟨default, inOrder_nil cfg channel a default hnone, ?_, ?_⟩
    · rw [hnone]
      exact fun _ hs => absurd hs List.not_mem_nil
    · rw [hnone]
      exact hzero

/-- When each run continues what its own job has begun, and none stops between a message and its
record, every article arrives in order, its link and each chunk at most once. -/
theorem inOrder_run (hf : Unsent xs w)
    (hm : Machine.Meets (World.step cfg) (fun w x => Continues w x ∧ Recorded cfg w x) w xs)
    (hr : Machine.run (World.step cfg) w xs = some w') :
    ∀ d ∈ w'.db.batch.details, ∀ channel, ∃ t, InOrder cfg channel d.article t w'.log := by
  let roster := w.db.batch.details.map Detail.article
  let Inv (w : World) : Prop := Accounted cfg (jobsOf xs) roster w.db.items w.log ∧
    w.db.batch.details.map Detail.article = roster
  have hstep (w : World) (x : Execution) (w' : World)
      (hx : x ∈ xs ∧ Continues w x ∧ Recorded cfg w x) (h : World.step cfg w x = some w') :
      Inv w → Inv w' :=
    fun hinv => accounted_step (fun _ => mem_jobsOf hx.1) hx.2.1 hx.2.2 h hinv.1 hinv.2
  have hm' : Machine.Meets (World.step cfg)
      (fun w x => x ∈ xs ∧ Continues w x ∧ Recorded cfg w x) w xs :=
    Machine.meets_imp (fun _ _ hx hk => ⟨hx, hk⟩) hm
  obtain ⟨ha, hroster⟩ := Machine.run_invariant hstep hm' hr ⟨accounted_unsent hf, rfl⟩
  intro d hd channel
  obtain ⟨t, ht, _⟩ := ha.each channel d.article (hroster ▸ List.mem_map_of_mem hd)
  exact ⟨t, ht⟩

end

theorem continues_same (h : ∀ s ∈ w.log, s.jobId = some jobId) (hj : x.env.jobId = some jobId) :
    Continues w x := fun _ _ _ _ s hs => ⟨jobId, hj, h s (mem_sentTo.1 hs).1⟩

/-- Telegram asks to try the second message of the briefing again later. -/
def tryLater : Channel → String → Nat → Outcome
  | .briefing, _, 1 => .transient
  | _, _, _ => .ok

/-- A run that is interrupted, and one of the given job after it. -/
def interruptedThen (jobId : String) : List Execution :=
  [promptRun "j1" tryLater, promptRun jobId fun _ _ _ => .ok]

def World.interrupted : World :=
  (World.step plainConfig World.fresh (promptRun "j1" tryLater)).getD World.fresh

theorem inOrder_run_resumed : ∃ w', Machine.run (World.step plainConfig) World.fresh
    (interruptedThen "j1") = some w' ∧ ∀ d ∈ w'.db.batch.details, ∀ channel,
      ∃ t, InOrder plainConfig channel d.article t w'.log := by
  have hlog : ∀ s ∈ World.interrupted.log, s.jobId = some "j1" := by decide
  have hm : Machine.Meets (World.step plainConfig)
      (fun w x => Continues w x ∧ Recorded plainConfig w x) World.fresh (interruptedThen "j1") := by
    refine ⟨⟨continues_same (fun _ hs => absurd hs List.not_mem_nil) rfl, ?_⟩, fun w hw => ?_⟩
    · rw [Recorded]
      decide
    · have he : World.interrupted = w := Option.some.inj hw
      rw [← he]
      refine ⟨⟨continues_same hlog rfl, ?_⟩, fun _ _ => trivial⟩
      rw [Recorded]
      decide
  exact ⟨_, rfl, inOrder_run (unsent_fresh _) hm rfl⟩

def World.continuedByAnother : World :=
  (Machine.run (World.step plainConfig) World.fresh (interruptedThen "j2")).getD World.fresh

/-- A new job for the batch begins again with the link. -/
theorem sent_twice : ¬ ∀ (cfg : Config) (xs : List Execution) (w w' : World), Unsent xs w →
    (∀ x ∈ xs, x.args.reset = false) → Machine.run (World.step cfg) w xs = some w' →
    ∀ d ∈ w'.db.batch.details, ∀ channel, ∃ t, InOrder cfg channel d.article t w'.log := by
  intro h
  have hall := h plainConfig (interruptedThen "j2") World.fresh World.continuedByAnother
    (unsent_fresh _) (by decide) rfl
  have hdetails : World.continuedByAnother.db.batch.details.map Detail.ulid = ["a1"] := by decide
  obtain ⟨d, hd, hu⟩ := List.map_eq_singleton_iff.1 hdetails
  obtain ⟨t, ht⟩ := hall d (hd ▸ List.mem_cons_self) .briefing
  have hindexes := ht.indexes
  change (sentTo _ _ d.ulid).map Sent.index = List.range (sentTo _ _ d.ulid).length at hindexes
  rw [hu] at hindexes
  revert hindexes
  decide

end Publisher
