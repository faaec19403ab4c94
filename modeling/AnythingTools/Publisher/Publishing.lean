import AnythingTools.Publisher.Sound

namespace Publisher
open JobItems
set_option autoImplicit true

section
variable {cfg : Config} {env : Env} {jobs : List String} {roster : List (Article × Bool)}
  {w : World} {articles : List Detail} {translated : String → Option Translation}

theorem throughout_addItem
    (h : Throughout (Sound cfg jobs roster (cached w.db.items) translated) env.jobId w es)
    (m : Metadata) : Throughout (Sound cfg jobs roster (cached w.db.items) translated) env.jobId w
      (es ++ addItem env m) := by
  apply throughout_append h
  intro e he
  obtain ⟨jobId, _, he⟩ := mem_addItem he
  exact ⟨_, he, fun db log hs => sound_add hs jobId m env.now⟩

/-! ### The channels -/

/-- The run is sound, and the translations that it works with are in the cache. -/
structure Publishing (cfg : Config) (env : Env) (jobs : List String)
    (roster : List (Article × Bool)) (w : World) (articles : List Detail)
    (translated : String → Option Translation) (es : List Effect) : Prop where
  sound : Throughout (Sound cfg jobs roster (Publisher.cached w.db.items) translated) env.jobId w es
  cached : ∀ d ∈ articles, ∀ t, translated d.ulid = some t → env.jobId.isSome = true →
    cached (drained w.db es).items d.ulid = some t

/-- Telegram has refused a message of the article for good. -/
def Refused (es : List Effect) (ulid : String) : Prop :=
  ∃ k text, .send .briefing ulid k text .permanent ∈ es

/-- Unless the briefing has it already, no article of the top 10 is delivered to the archive in a
run in which Telegram refuses it for the briefing. -/
def NotLost (cfg : Config) (roster : List (Article × Bool)) (jobId : Option String)
    (log : List Sent) (es : List Effect) : Prop :=
  ∀ p ∈ roster, p.2 = true → Refused es p.1.ulid →
    Delivered cfg .archive p.1 (log ++ sentBy jobId es) → Delivered cfg .briefing p.1 log

theorem subset_sentBy (jobId : Option String) (log : List Sent) (h : es <+: es') :
    log ++ sentBy jobId es ⊆ log ++ sentBy jobId es' := by
  obtain ⟨new, he⟩ := h
  rw [← he, sentBy_append, ← List.append_assoc]
  exact List.subset_append_left _ _

theorem Refused.mono (h : Refused es ulid) (hs : es <+: es') : Refused es' ulid := by
  obtain ⟨k, text, hmem⟩ := h
  exact ⟨k, text, hs.subset hmem⟩

theorem NotLost.of_prefix (h : NotLost cfg roster jobId log es') (hs : es <+: es') :
    NotLost cfg roster jobId log es := by
  intro p hp htop hr hd
  exact h p hp htop (hr.mono hs) (hd.mono (subset_sentBy jobId log hs))

theorem publishing_addItem (h : Publishing cfg env jobs roster w articles translated es)
    (m : Metadata) :
    Publishing cfg env jobs roster w articles translated (es ++ addItem env m) where
  sound := throughout_addItem h.sound m
  cached d hd t ht hj := by
    rw [cached_addItem]
    exact h.cached d hd t ht hj

/-- The statements on the details. -/
theorem publishing_setDetail (h : Publishing cfg env jobs roster w articles translated es)
    (ulid : String) (status : PublishStatus)
    (hb : ∀ d ∈ (drained w.db es).batch.details, d.ulid = ulid →
      Backed cfg d.entry (w.log ++ sentBy env.jobId es) status) :
    Publishing cfg env jobs roster w articles translated
      (es ++ [.queue (.setDetail ulid status none)]) where
  sound := throughout_queue h.sound fun hs => sound_setDetail hs none hb
  cached d hd t ht hj := by
    rw [drained_queue]
    exact h.cached d hd t ht hj

theorem publishing_send (h : Publishing cfg env jobs roster w articles translated es)
    (channel : Channel) (ulid : String) (k : Nat) (text : String) (outcome : Outcome) :
    Publishing cfg env jobs roster w articles translated
      (es ++ [.send channel ulid k text outcome]) where
  sound := throughout_send h.sound fun _ hs => hs.mono
    (subset_sentBy env.jobId w.log (List.prefix_append es _))
  cached d hd t ht hj := by
    rw [drained_silent w.db es rfl rfl]
    exact h.cached d hd t ht hj

/-- The progress that is read counts messages that have arrived. -/
theorem firstSent_progressOf (h : Publishing cfg env jobs roster w articles translated es)
    (hjobs : ∀ jobId ∈ env.jobId, jobId ∈ jobs) (hr : d.entry ∈ roster)
    (ht : translated d.ulid = some t) (channel : Channel) :
    FirstSent cfg channel d.article t (progressOf env w.db channel d es)
      (w.log ++ sentBy env.jobId es) := by
  rw [progressOf]
  split
  next jobId hj =>
    have hs := h.sound (env.lag (.chunksSent channel d.ulid))
    generalize view w.db es (env.lag (.chunksSent channel d.ulid)) = db at hs ⊢
    by_cases hpos : 0 < chunksSent db.items jobId channel d.ulid
    · obtain ⟨t', ht', _, hf⟩ := hs.counted jobId (hjobs jobId hj) channel d.entry hr hpos
      change translated d.ulid = some t' at ht'
      rw [ht] at ht'
      rw [Option.some.inj ht']
      exact hf
    · rw [Nat.eq_zero_of_not_pos hpos]
      exact firstSent_zero ..
  next => exact firstSent_zero ..

/-- The article is in the briefing, or Telegram has refused it in this run. -/
def Settled (cfg : Config) (jobId : Option String) (log : List Sent) (d : Detail)
    (es : List Effect) : Prop :=
  d.isTop10 = true →
    Delivered cfg .briefing d.article (log ++ sentBy jobId es) ∨ Refused es d.ulid

theorem Settled.mono (h : Settled cfg jobId log d es) (hs : es <+: es') :
    Settled cfg jobId log d es' := by
  intro htop
  rcases h htop with h | h
  · exact .inl (h.mono (subset_sentBy jobId log hs))
  · exact .inr (h.mono hs)

/-- An article that has arrived may be marked, for the archive also because of the briefing. -/
theorem backed_published (hf : Delivered cfg channel d.article (w.log ++ sentBy jobId es))
    (hr : d.entry ∈ roster) (hset : channel = .archive → Settled cfg jobId w.log d es)
    (hlost : NotLost cfg roster jobId w.log es) :
    Backed cfg d.entry (w.log ++ sentBy jobId es) channel.published := by
  cases channel with
  | briefing => exact hf
  | archive =>
    refine ⟨hf, fun htop => ?_⟩
    rcases hset rfl htop with h | h
    · exact h
    · exact (hlost d.entry hr htop h hf).mono (List.subset_append_left _ _)

section
variable (huniq : ∀ p ∈ roster, ∀ p' ∈ roster, p'.1.ulid = p.1.ulid → p' = p)
include huniq

/-- The record of a delivery counts messages that have arrived. -/
theorem publishing_progress (h : Publishing cfg env jobs roster w articles translated es)
    (hd : d ∈ articles) (hr : d.entry ∈ roster) (ht : translated d.ulid = some t)
    (hf : FirstSent cfg channel d.article t n (w.log ++ sentBy env.jobId es))
    (status : ItemStatus) :
    Publishing cfg env jobs roster w articles translated
        (es ++ updateItem env (publishMeta env channel d) status (.chunksSent n)) ∧
      sentBy env.jobId (es ++ updateItem env (publishMeta env channel d) status (.chunksSent n)) =
        sentBy env.jobId es := by
  cases hj : env.jobId with
  | none =>
    rw [updateItem_none hj, List.append_nil]
    exact ⟨h, rfl⟩
  | some jobId =>
    rw [updateItem_some hj]
    have hm : itemKey (publishMeta env channel d) = (.text channel.step, .text d.entry.1.ulid) :=
      itemKey_makeMetadata ..
    have hsome : env.jobId.isSome = true := by
      rw [hj]
      rfl
    have hc := h.cached d hd t ht hsome
    refine ⟨⟨throughout_queue h.sound fun hs => sound_update_progress hs hm
      (huniq d.entry hr) ht hc hf jobId status env.now, ?_⟩, sentBy_queue _ es _⟩
    intro d' hd' t' ht' _
    rw [drained_queue, ← h.cached d' hd' t' ht' hsome]
    exact cached_update_ne hm _ jobId status _ env.now fun hne =>
      channel_step_ne channel hne.1.symm

/-- The articles of the batch with this ULID. -/
theorem entry_of_ulid {d d' : Detail}
    (h : Publishing cfg env jobs roster w articles translated es)
    (hr : d.entry ∈ roster) (hd' : d' ∈ (drained w.db es).batch.details) (hu : d'.ulid = d.ulid) :
    d'.entry = d.entry := by
  apply huniq d.entry hr d'.entry _ hu
  rw [← h.sound.drained.same]
  exact List.mem_map_of_mem hd'

/-- The messages of an article: what has arrived of them is in the log. -/
theorem publishing_sendMessages (h : Publishing cfg env jobs roster w articles translated es)
    (hd : d ∈ articles) (hr : d.entry ∈ roster) (ht : translated d.ulid = some t)
    (hf : FirstSent cfg channel d.article t n (w.log ++ sentBy env.jobId es)) :
    ∃ k new, Publishing cfg env jobs roster w articles translated (es ++ new) ∧
      FirstSent cfg channel d.article t (n + k) (w.log ++ sentBy env.jobId (es ++ new)) ∧
      ((sendMessages env channel d.ulid (publishMeta env channel d)
          ((messages cfg channel d.article t).drop n) n = (new, .sent (n + k)) ∧
        k = ((messages cfg channel d.article t).drop n).length) ∨
      ∃ text, sendMessages env channel d.ulid (publishMeta env channel d)
            ((messages cfg channel d.article t).drop n) n =
          (new ++ [.send channel d.ulid (n + k) text .permanent], .refused (n + k)) ∨
        sendMessages env channel d.ulid (publishMeta env channel d)
            ((messages cfg channel d.article t).drop n) n =
          (new ++ [.send channel d.ulid (n + k) text .transient], .raised)) := by
  let I (k : Nat) (es : List Effect) : Prop :=
    Publishing cfg env jobs roster w articles translated es ∧
      FirstSent cfg channel d.article t k (w.log ++ sentBy env.jobId es)
  have hstep : ∀ k text es, ((messages cfg channel d.article t).drop n)[k]? = some text →
      env.telegram channel d.ulid (n + k) = .ok → I (n + k) es →
      I (n + k + 1) (es ++ .send channel d.ulid (n + k) text .ok ::
        updateItem env (publishMeta env channel d) .running (.chunksSent (n + k + 1))) := by
    rintro k text es htext _ ⟨hp, hf⟩
    rw [List.getElem?_drop] at htext
    have hnext : FirstSent cfg channel d.article t (n + k + 1)
        (w.log ++ sentBy env.jobId (es ++ [.send channel d.ulid (n + k) text .ok])) := by
      rw [sentBy_append, ← List.append_assoc]
      exact hf.next htext env.jobId
    have hsend := publishing_send hp channel d.ulid (n + k) text .ok
    obtain ⟨hrec, hsame⟩ := publishing_progress huniq hsend hd hr ht hnext .running
    rw [List.append_cons]
    refine ⟨hrec, ?_⟩
    rw [hsame]
    exact hnext
  obtain ⟨k, new, ⟨hp, hf'⟩, hend⟩ := sendMessages_inv hstep ⟨h, hf⟩
  refine ⟨k, new, hp, hf', ?_⟩
  rcases hend with hend | ⟨text, _, hend⟩
  · exact .inl hend
  · exact .inr ⟨text, hend⟩

/-- The record of an article that is refused. -/
theorem publishing_failed (h : Publishing cfg env jobs roster w articles translated es)
    (hd : d ∈ articles) (hr : d.entry ∈ roster) (ht : translated d.ulid = some t)
    (hf : FirstSent cfg channel d.article t n (w.log ++ sentBy env.jobId es)) (text : String) :
    Publishing cfg env jobs roster w articles translated
      (es ++ [.send channel d.ulid n text .permanent] ++ .queue (.setDetail d.ulid .failed none) ::
        updateItem env (publishMeta env channel d) .failed (.chunksSent n)) := by
  have hsend := publishing_send h channel d.ulid n text .permanent
  have hset := publishing_setDetail hsend d.ulid .failed fun _ _ _ => trivial
  rw [List.append_cons]
  refine (publishing_progress huniq hset hd hr ht ?_ .failed).1
  rw [sentBy_queue]
  exact hf.mono (subset_sentBy env.jobId w.log (List.prefix_append es _))

/-- The record of an article that has arrived. -/
theorem publishing_published (h : Publishing cfg env jobs roster w articles translated es)
    (hd : d ∈ articles) (hr : d.entry ∈ roster) (ht : translated d.ulid = some t)
    (hf : FirstSent cfg channel d.article t n (w.log ++ sentBy env.jobId es))
    (hb : Backed cfg d.entry (w.log ++ sentBy env.jobId es) channel.published) :
    Publishing cfg env jobs roster w articles translated
      (es ++ .queue (.setDetail d.ulid channel.published none) ::
        updateItem env (publishMeta env channel d) .completed (.chunksSent n)) := by
  have hset := publishing_setDetail h d.ulid channel.published fun d' hd' hu => by
    rw [entry_of_ulid huniq h hr hd' hu]
    exact hb
  rw [List.append_cons]
  refine (publishing_progress huniq hset hd hr ht ?_ .completed).1
  rw [sentBy_queue]
  exact hf

/-- One article in a channel. -/
theorem publishing_publishArticle
    (h : Publishing cfg env jobs roster w articles translated es)
    (hjobs : ∀ jobId ∈ env.jobId, jobId ∈ jobs) (hd : d ∈ articles) (hr : d.entry ∈ roster)
    (hread : Backed cfg d.entry (w.log ++ sentBy env.jobId es) d.publishStatus)
    (ht : translated d.ulid = some t)
    (hset : channel = .archive → Settled cfg env.jobId w.log d es)
    (hlost : NotLost cfg roster env.jobId w.log
      (publishArticle cfg env w.db channel t d es).1) :
    Publishing cfg env jobs roster w articles translated
        (publishArticle cfg env w.db channel t d es).1 ∧
      ((publishArticle cfg env w.db channel t d es).2 = false → channel = .briefing →
        Settled cfg env.jobId w.log d (publishArticle cfg env w.db channel t d es).1) := by
  rcases publishArticle_cases cfg env w.db channel t d es with
    ⟨hpass, he⟩ | ⟨_, m, es₁, n, hm, h₁, hn, hsent⟩
  · rw [he]
    refine ⟨h, fun _ hch htop => .inl ?_⟩
    rw [hch] at hpass
    have hmem := of_decide_eq_true hpass
    rw [List.mem_cons, List.mem_singleton] at hmem
    rcases hmem with hs | hs
    · rw [hs] at hread
      exact hread
    · rw [hs] at hread
      exact hread.2 htop
  · have hp := publishing_addItem h m
    have hpre : es <+: es₁ := by
      rw [h₁]
      exact List.prefix_append es _
    rw [← h₁] at hp
    have hf := firstSent_progressOf hp hjobs hr ht channel
    rw [← hn] at hf
    obtain ⟨k, new', hp', hf', hend⟩ := publishing_sendMessages huniq hp hd hr ht hf
    rw [← hm] at hend
    rcases hsent with ⟨new, k', hs, he⟩ | ⟨new, k', hs, he⟩ | ⟨new, hs, he⟩
    · rw [hs] at hend
      rcases hend with ⟨heq, hk⟩ | ⟨text, heq | heq⟩
      · cases heq
        have hall : n + k = (messages cfg channel d.article t).length := by
          rw [hk, List.length_drop]
          have := hf.le
          omega
        have hdel : Delivered cfg channel d.article (w.log ++ sentBy env.jobId (es₁ ++ new')) :=
          ⟨t, hall ▸ hf'⟩
        have hpre' : es <+: es₁ ++ new' := hpre.trans (List.prefix_append es₁ new')
        rw [he] at hlost ⊢
        refine ⟨?_, fun _ hch _ => .inl ?_⟩
        · rw [hm]
          apply publishing_published huniq hp' hd hr ht hf'
          exact backed_published hdel hr (fun hch => (hset hch).mono hpre')
            (hlost.of_prefix (List.prefix_append _ _))
        · rw [hch] at hdel
          exact hdel.mono (subset_sentBy env.jobId w.log (List.prefix_append _ _))
      · cases heq
      · cases heq
    · rw [hs] at hend
      rcases hend with ⟨heq, hk⟩ | ⟨text, heq | heq⟩
      · cases heq
      · cases heq
        rw [he, ← List.append_assoc es₁]
        refine ⟨?_, fun _ hch _ => .inr ⟨n + k, text, ?_⟩⟩
        · rw [hm]
          exact publishing_failed huniq hp' hd hr ht hf' text
        · rw [hch]
          apply List.mem_append_left
          exact List.mem_append_right _ List.mem_cons_self
      · cases heq
    · rw [hs] at hend
      rcases hend with ⟨heq, hk⟩ | ⟨text, heq | heq⟩
      · cases heq
      · cases heq
      · cases heq
        rw [he, ← List.append_assoc]
        exact ⟨publishing_send hp' channel d.ulid (n + k) text .transient, Bool.noConfusion⟩

/-- The loop of a channel, which leaves every article of the briefing settled unless it raises. -/
theorem publishing_publishChannel
    (hchosen : ∀ d ∈ articles, chosen d.ulid = translated d.ulid)
    (h : Publishing cfg env jobs roster w articles translated es)
    (hjobs : ∀ jobId ∈ env.jobId, jobId ∈ jobs) (hr : ∀ d ∈ articles, d.entry ∈ roster)
    (hread : ∀ d ∈ articles, Backed cfg d.entry (w.log ++ sentBy env.jobId es) d.publishStatus)
    (hset : channel = .archive → ∀ d ∈ articles, chosen d.ulid ≠ none →
      Settled cfg env.jobId w.log d es)
    (hlost : NotLost cfg roster env.jobId w.log
      (publishChannel cfg env w.db channel chosen articles es).1) :
    Publishing cfg env jobs roster w articles translated
        (publishChannel cfg env w.db channel chosen articles es).1 ∧
      ((publishChannel cfg env w.db channel chosen articles es).2 = false →
        channel = .briefing → cfg.configured .briefing = true → ∀ d ∈ articles,
        chosen d.ulid ≠ none → Settled cfg env.jobId w.log d
          (publishChannel cfg env w.db channel chosen articles es).1) := by
  rw [publishChannel] at hlost ⊢
  split at hlost
  next hconf =>
    rw [if_pos hconf]
    let K (es' : List Effect) : Prop := NotLost cfg roster env.jobId w.log es' →
      Publishing cfg env jobs roster w articles translated es'
    let J (ds : List Detail) (es' : List Effect) : Prop :=
      (∀ d ∈ ds, d ∈ articles) ∧ es <+: es' ∧ K es' ∧
        (NotLost cfg roster env.jobId w.log es' → channel = .briefing → ∀ d ∈ articles,
          chosen d.ulid ≠ none → d ∈ ds ∨ Settled cfg env.jobId w.log d es')
    have hone (d : Detail) (ds : List Detail) (t : Translation) (es' : List Effect)
        (ht : chosen d.ulid = some t) (hJ : J (d :: ds) es')
        (hl : NotLost cfg roster env.jobId w.log
          (publishArticle cfg env w.db channel t d es').1) := by
      obtain ⟨hsub, hpre, hK, _⟩ := hJ
      have hd := hsub d List.mem_cons_self
      have hl' := hl.of_prefix (prefix_publishArticle cfg env w.db channel t d es')
      have hnone : chosen d.ulid ≠ none := by
        rw [ht]
        exact Option.some_ne_none t
      exact publishing_publishArticle huniq (hK hl') hjobs hd (hr d hd)
        ((hread d hd).mono (subset_sentBy env.jobId w.log hpre)) (hchosen d hd ▸ ht)
        (fun hch => (hset hch d hd hnone).mono hpre) hl
    have hloop := publishArticles_inv cfg env w.db channel chosen (J := J) (K := K)
      (fun d ds es' ht hJ => by
        obtain ⟨hsub, hpre, hK, hrest⟩ := hJ
        refine ⟨fun d' hd' => hsub d' (List.mem_cons_of_mem d hd'), hpre, hK, ?_⟩
        intro hl hch d' hd' hne
        rcases hrest hl hch d' hd' hne with hmem | hs
        · rcases List.mem_cons.1 hmem with he | hmem
          · rw [he] at hne
            exact absurd ht hne
          · exact .inl hmem
        · exact .inr hs)
      (fun d ds t es' ht hJ hraised => by
        have hnext := prefix_publishArticle cfg env w.db channel t d es'
        have hstep := hone d ds t es' ht hJ
        obtain ⟨hsub, hpre, hK, hrest⟩ := hJ
        refine ⟨fun d' hd' => hsub d' (List.mem_cons_of_mem d hd'), hpre.trans hnext,
          fun hl => (hstep hl).1, ?_⟩
        intro hl hch d' hd' hne
        rcases hrest (hl.of_prefix hnext) hch d' hd' hne with hmem | hs
        · rcases List.mem_cons.1 hmem with he | hmem
          · rw [he]
            exact .inr ((hstep hl).2 hraised hch)
          · exact .inl hmem
        · exact .inr (hs.mono hnext))
      (fun d ds t es' ht hJ _ hl => (hone d ds t es' ht hJ hl).1)
      (articles.filter fun d => decide (channel = .archive) || d.isTop10) (by
        refine ⟨fun d hd => (List.mem_filter.1 hd).1, List.prefix_refl es, fun _ => h, ?_⟩
        intro _ hch d hd _
        by_cases htop : d.isTop10 = true
        · left
          apply List.mem_filter.2
          refine ⟨hd, ?_⟩
          rw [htop, Bool.or_true]
        · exact .inr fun h => absurd h htop)
    cases hraised : (publishArticles cfg env w.db channel chosen
        (articles.filter fun d => decide (channel = .archive) || d.isTop10) es).2 with
    | false =>
      obtain ⟨_, _, hK, hrest⟩ := hloop.1 hraised
      refine ⟨hK hlost, fun _ hch _ d hd hne => ?_⟩
      rcases hrest hlost hch d hd hne with hmem | hs
      · exact absurd hmem List.not_mem_nil
      · exact hs
    | true => exact ⟨hloop.2 hraised hlost, Bool.noConfusion⟩
  next hconf =>
    rw [if_neg hconf]
    refine ⟨h, fun _ hch hbriefing => ?_⟩
    rw [hch] at hconf
    exact absurd hbriefing hconf

theorem publishing_deliver
    (hchosen : ∀ d ∈ articles, chosen d.ulid = translated d.ulid)
    (h : Publishing cfg env jobs roster w articles translated es)
    (hconf : ∀ channel, cfg.configured channel = true)
    (hjobs : ∀ jobId ∈ env.jobId, jobId ∈ jobs) (hr : ∀ d ∈ articles, d.entry ∈ roster)
    (hread : ∀ d ∈ articles, Backed cfg d.entry (w.log ++ sentBy env.jobId es) d.publishStatus)
    (hlost : NotLost cfg roster env.jobId w.log
      (deliver cfg env w.db chosen articles es).1) :
    Publishing cfg env jobs roster w articles translated
      (deliver cfg env w.db chosen articles es).1 := by
  rw [deliver] at hlost ⊢
  split at hlost
  next hclient =>
    rw [if_pos hclient]
    have hset : Channel.briefing = .archive → ∀ d ∈ articles, chosen d.ulid ≠ none →
        Settled cfg env.jobId w.log d es := fun he => by cases he
    have hfirst := publishing_publishChannel huniq hchosen h hjobs hr hread hset
    have hpre : es <+: (publishChannel cfg env w.db .briefing chosen articles es).1 :=
      (extends_publishChannel w.db .briefing chosen (Extends.refl articles es)).isPrefix
    cases hb : publishChannel cfg env w.db .briefing chosen articles es with
    | mk es' raised =>
      rw [hb] at hfirst hpre
      rw [hb] at hlost
      cases raised with
      | true => exact (hfirst hlost).1
      | false =>
        have hnext : es' <+: (publishChannel cfg env w.db .archive chosen articles es').1 :=
          (extends_publishChannel w.db .archive chosen (Extends.refl articles es')).isPrefix
        obtain ⟨hp, hsettled⟩ := hfirst (hlost.of_prefix hnext)
        exact (publishing_publishChannel huniq hchosen hp hjobs hr
          (fun d hd => (hread d hd).mono (subset_sentBy env.jobId w.log hpre))
          (fun _ => hsettled rfl rfl (hconf .briefing)) hlost).1
  next hclient =>
    rw [if_neg hclient]
    exact h

end

end

end Publisher
