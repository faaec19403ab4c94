import AnythingTools.Publisher.Accounting

namespace Publisher
open JobItems
set_option autoImplicit true

/-- Everything has arrived in order, what jobs have sent is of the translation in the cache, and
the counters of the jobs are right. -/
structure Accounted (cfg : Config) (jobs : List String) (roster : List Article)
    (items : List (Item Output)) (log : List Sent) : Prop where
  kept : TranslationsKept items
  each : ∀ channel, ∀ a ∈ roster, ∃ t, InOrder cfg channel a t log ∧
    (∀ s ∈ sentTo log channel a.ulid, s.jobId ≠ none → cached items a.ulid = some t) ∧
    ∀ jobId ∈ jobs, chunksSent items jobId channel a.ulid =
      (sentTo log channel a.ulid).countP fun s => s.jobId = some jobId

section
variable {cfg : Config} {jobs : List String} {roster : List Article} {items : List (Item Output)}
  {log : List Sent}

/-- Nothing else arrives, and the counters and the cache stay. -/
theorem Accounted.congr (h : Accounted cfg jobs roster items log) (hk : TranslationsKept items')
    (hc : ∀ ulid t, cached items ulid = some t → cached items' ulid = some t)
    (hn : ∀ jobId channel ulid,
      chunksSent items' jobId channel ulid = chunksSent items jobId channel ulid)
    (hs : ∀ channel ulid, sentTo log' channel ulid = sentTo log channel ulid) :
    Accounted cfg jobs roster items' log' where
  kept := hk
  each channel a ha := by
    obtain ⟨t, ht, hcached, hcount⟩ := h.each channel a ha
    refine ⟨t, ?_, ?_, ?_⟩
    · rw [InOrder, hs]
      exact ht
    · rw [hs]
      exact fun s hmem hj => hc _ _ (hcached s hmem hj)
    · rw [hs]
      exact fun jobId hj => (hn jobId channel a.ulid).trans (hcount jobId hj)

theorem countP_own {ss : List Sent} (h : ∀ s ∈ ss, s.jobId = some jobId) :
    (ss.countP fun s => s.jobId = some jobId) = ss.length := by
  rw [List.countP_eq_length]
  exact fun s hs => decide_eq_true (h s hs)

theorem countP_other {ss : List Sent} (h : ∀ s ∈ ss, s.jobId = some jobId) (hne : jobId' ≠ jobId) :
    (ss.countP fun s => s.jobId = some jobId') = 0 := by
  rw [List.countP_eq_zero]
  intro s hs hj
  have hjob := of_decide_eq_true hj
  rw [h s hs] at hjob
  exact hne (Option.some.inj hjob).symm

/-- The counter of a job, brought to what has arrived of an article of which only the job has sent
messages. -/
theorem accounted_update (h : Accounted cfg jobs roster items log)
    (hm : itemKey m = (.text (Channel.step channel), .text a.ulid))
    (huniq : ∀ a' ∈ roster, a'.ulid = a.ulid → a' = a)
    (hother : ∀ channel' ulid, ¬ (channel = channel' ∧ a.ulid = ulid) →
      sentTo log' channel' ulid = sentTo log channel' ulid)
    (hin : InOrder cfg channel a t log') (hc : cached items a.ulid = some t)
    (hold : ∀ s ∈ sentTo log channel a.ulid, s.jobId = some jobId)
    (hown : ∀ s ∈ sentTo log' channel a.ulid, s.jobId = some jobId)
    (hrow : (progressRow items jobId channel.step a.ulid).isSome = true) (status : ItemStatus)
    (now : String) :
    Accounted cfg jobs roster (commit items (.update jobId m status
      (.chunksSent (sentTo log' channel a.ulid).length) now)) log' where
  kept := kept_update hm h.kept jobId now fun he => absurd he (channel_step_ne channel)
  each channel' a' ha' := by
    have hcache (ulid : String) : cached (commit items (.update jobId m status
        (.chunksSent (sentTo log' channel a.ulid).length) now)) ulid = cached items ulid :=
      cached_update_ne hm items jobId status _ now fun hne => channel_step_ne channel hne.1.symm
    by_cases hsame : channel = channel' ∧ a.ulid = a'.ulid
    · obtain ⟨hch, hu⟩ := hsame
      rw [← hch, huniq a' ha' hu.symm]
      refine ⟨t, hin, fun _ _ _ => (hcache _).trans hc, fun jobId' hj' => ?_⟩
      by_cases hj : jobId' = jobId
      · rw [hj, chunksSent_update_self items status _ now hm hrow, countP_own hown]
        rfl
      · obtain ⟨_, _, _, hcount⟩ := h.each channel' a' ha'
        have hzero := hcount jobId' hj'
        rw [← hch, ← hu, countP_other hold hj] at hzero
        rw [chunksSent_update_ne items status _ now hm fun hne => hj hne.1, hzero,
          countP_other hown hj]
    · obtain ⟨t', ht', hcached, hcount⟩ := h.each channel' a' ha'
      have hsent := hother channel' a'.ulid hsame
      refine ⟨t', ?_, ?_, ?_⟩
      · rw [InOrder, hsent]
        exact ht'
      · rw [hsent, hcache]
        exact hcached
      · intro jobId' hj'
        rw [hsent, ← hcount jobId' hj']
        apply chunksSent_update_ne items status _ now hm
        rintro ⟨_, hch, hu⟩
        exact hsame ⟨(step_inj hch).symm, hu.symm⟩

/-- A message of a run without a job. -/
theorem accounted_jobless (h : Accounted cfg jobs roster items log)
    (huniq : ∀ a' ∈ roster, a'.ulid = a.ulid → a' = a)
    (hother : ∀ channel' ulid, ¬ (channel = channel' ∧ a.ulid = ulid) →
      sentTo log' channel' ulid = sentTo log channel' ulid)
    (hin : InOrder cfg channel a t log')
    (hsent : sentTo log' channel a.ulid = sentTo log channel a.ulid ++ [s])
    (hown : ∀ s ∈ sentTo log' channel a.ulid, s.jobId = none) :
    Accounted cfg jobs roster items log' where
  kept := h.kept
  each channel' a' ha' := by
    obtain ⟨t', ht', hcached, hcount⟩ := h.each channel' a' ha'
    by_cases hsame : channel = channel' ∧ a.ulid = a'.ulid
    · obtain ⟨hch, hu⟩ := hsame
      have ha := huniq a' ha' hu.symm
      rw [← hch, ha] at hcount ⊢
      refine ⟨t, hin, fun s hs hj => absurd (hown s hs) hj, fun jobId hj => ?_⟩
      have hnone : s.jobId = none := by
        apply hown
        rw [hsent]
        exact List.mem_append_right _ List.mem_cons_self
      rw [hcount jobId hj, hsent, List.countP_append, List.countP_singleton, hnone]
      rfl
    · have hsent' := hother channel' a'.ulid hsame
      refine ⟨t', ?_, ?_, ?_⟩
      · rw [InOrder, hsent']
        exact ht'
      · rw [hsent']
        exact hcached
      · rw [hsent']
        exact hcount

end

/-! ### A run that may stop anywhere -/

def Effect.arrives : Effect → Bool
  | .send _ _ _ _ .ok => true
  | _ => false

/-- The last thing that has happened is that a message arrived. -/
def unrecorded (es : List Effect) : Bool := es.getLast?.any Effect.arrives

/-- Wherever the run stops, all is accounted for, except between a message and its record. -/
structure Delivering (cfg : Config) (env : Env) (jobs : List String) (roster : List Article)
    (w : World) (articles : List Detail) (translated : String → Option Translation)
    (es : List Effect) : Prop where
  now : Accounted cfg jobs roster (drained w.db es).items (w.log ++ sentBy env.jobId es)
  before : ∀ es', es' <+: es → unrecorded es' = false →
    Accounted cfg jobs roster (drained w.db es').items (w.log ++ sentBy env.jobId es')
  cached : ∀ d ∈ articles, ∀ t, translated d.ulid = some t → env.jobId.isSome = true →
    cached (drained w.db es).items d.ulid = some t

section
variable {cfg : Config} {env : Env} {args : Args} {jobs : List String} {roster : List Article}
  {w : World} {articles : List Detail} {translated : String → Option Translation}

theorem before_concat
    (h : ∀ es', es' <+: es → unrecorded es' = false →
      Accounted cfg jobs roster (drained w.db es').items (w.log ++ sentBy env.jobId es'))
    (he : unrecorded (es ++ [e]) = false → Accounted cfg jobs roster
      (drained w.db (es ++ [e])).items (w.log ++ sentBy env.jobId (es ++ [e]))) :
    ∀ es', es' <+: es ++ [e] → unrecorded es' = false →
      Accounted cfg jobs roster (drained w.db es').items (w.log ++ sentBy env.jobId es') := by
  intro es' hpre hu
  rcases List.prefix_concat_iff.1 hpre with heq | hpre
  · rw [heq] at hu ⊢
    exact he hu
  · exact h es' hpre hu

/-- A statement that changes neither a counter nor the cache. -/
theorem delivering_queue (h : Delivering cfg env jobs roster w articles translated es)
    (hk : TranslationsKept ((drained w.db es).commit write).items)
    (hc : ∀ ulid, Publisher.cached ((drained w.db es).commit write).items ulid =
      Publisher.cached (drained w.db es).items ulid)
    (hn : ∀ jobId channel ulid, chunksSent ((drained w.db es).commit write).items jobId channel ulid =
      chunksSent (drained w.db es).items jobId channel ulid) :
    Delivering cfg env jobs roster w articles translated (es ++ [.queue write]) := by
  have hnow : Accounted cfg jobs roster (drained w.db (es ++ [.queue write])).items
      (w.log ++ sentBy env.jobId (es ++ [.queue write])) := by
    rw [drained_queue, sentBy_queue]
    exact h.now.congr hk (fun ulid t ht => (hc ulid).trans ht) hn fun _ _ => rfl
  refine ⟨hnow, before_concat h.before fun _ => hnow, ?_⟩
  intro d hd t ht hj
  rw [drained_queue, hc]
  exact h.cached d hd t ht hj

theorem delivering_setDetail (h : Delivering cfg env jobs roster w articles translated es)
    (ulid : String) (status : PublishStatus) :
    Delivering cfg env jobs roster w articles translated
      (es ++ [.queue (.setDetail ulid status none)]) :=
  delivering_queue h h.now.kept (fun _ => rfl) fun _ _ _ => rfl

theorem delivering_addItem (h : Delivering cfg env jobs roster w articles translated es)
    (m : Metadata) :
    Delivering cfg env jobs roster w articles translated (es ++ addItem env m) := by
  cases hj : env.jobId with
  | none =>
    rw [addItem_none hj, List.append_nil]
    exact h
  | some jobId =>
    rw [addItem_some hj]
    exact delivering_queue h (kept_add h.now.kept jobId m env.now)
      (fun ulid => cached_add _ jobId m env.now ulid) fun jobId' channel ulid =>
        chunksSent_add _ jobId m env.now jobId' channel ulid

theorem sentBy_unsent (jobId : Option String) (es : List Effect) (ho : outcome ≠ .ok) :
    sentBy jobId (es ++ [.send channel ulid n text outcome]) = sentBy jobId es := by
  rw [sentBy_append]
  cases outcome with
  | ok => exact absurd rfl ho
  | permanent => exact List.append_nil _
  | transient => exact List.append_nil _

/-- A message that does not arrive. -/
theorem delivering_unsent (h : Delivering cfg env jobs roster w articles translated es)
    (ho : outcome ≠ .ok) :
    Delivering cfg env jobs roster w articles translated
      (es ++ [.send channel ulid n text outcome]) := by
  have hlog : sentBy env.jobId (es ++ [.send channel ulid n text outcome]) =
      sentBy env.jobId es := sentBy_unsent env.jobId es ho
  have hnow : Accounted cfg jobs roster
      (drained w.db (es ++ [.send channel ulid n text outcome])).items
      (w.log ++ sentBy env.jobId (es ++ [.send channel ulid n text outcome])) := by
    rw [drained_silent w.db es rfl rfl, hlog]
    exact h.now
  refine ⟨hnow, before_concat h.before fun _ => hnow, ?_⟩
  rw [drained_silent w.db es rfl rfl]
  exact h.cached

/-- A channel is at work on the article: so many messages have arrived, all from this job, whose
row is there. -/
structure InTurn (cfg : Config) (env : Env) (w : World) (channel : Channel) (d : Detail)
    (t : Translation) (n : Nat) (es : List Effect) : Prop where
  order : InOrder cfg channel d.article t (w.log ++ sentBy env.jobId es)
  count : n = (sentTo (w.log ++ sentBy env.jobId es) channel d.ulid).length
  own : ∀ s ∈ sentTo (w.log ++ sentBy env.jobId es) channel d.ulid, s.jobId = env.jobId
  row : ∀ jobId ∈ env.jobId,
    (progressRow (drained w.db es).items jobId channel.step d.ulid).isSome = true

theorem InTurn.congr (h : InTurn cfg env w channel d t n es)
    (hs : sentBy env.jobId es' = sentBy env.jobId es)
    (hi : (drained w.db es').items = (drained w.db es).items) :
    InTurn cfg env w channel d t n es' where
  order := hs ▸ h.order
  count := hs ▸ h.count
  own := hs ▸ h.own
  row := hi ▸ h.row

theorem row_update (items : List (Item Output)) (jobId : String) (m : Metadata)
    (status : ItemStatus) (output : Output) (now : String)
    (h : (progressRow items jobId' stepType ulid).isSome = true) :
    (progressRow (commit items (.update jobId m status output now)) jobId' stepType ulid).isSome =
      true := by
  rw [progressRow_update, Option.isSome_map]
  exact h

section
variable (huniq : ∀ a ∈ roster, ∀ a' ∈ roster, a'.ulid = a.ulid → a' = a)
include huniq

/-- The record of a job's progress, after a message or at the end. -/
theorem delivering_progress (h : Delivering cfg env jobs roster w articles translated es)
    (hd : d ∈ articles) (hr : d.article ∈ roster) (ht : translated d.ulid = some t)
    (hturn : InTurn cfg env w channel d t n es) (status : ItemStatus) :
    Delivering cfg env jobs roster w articles translated
        (es ++ updateItem env (publishMeta env channel d) status (.chunksSent n)) ∧
      InTurn cfg env w channel d t n
        (es ++ updateItem env (publishMeta env channel d) status (.chunksSent n)) := by
  cases hj : env.jobId with
  | none =>
    rw [updateItem_none hj, List.append_nil]
    exact ⟨h, hturn⟩
  | some jobId =>
    rw [updateItem_some hj]
    have hm : itemKey (publishMeta env channel d) = (.text channel.step, .text d.article.ulid) :=
      itemKey_makeMetadata ..
    have hsome : env.jobId.isSome = true := by
      rw [hj]
      rfl
    have hown : ∀ s ∈ sentTo (w.log ++ sentBy env.jobId es) channel d.article.ulid,
        s.jobId = some jobId := fun s hs => (hturn.own s hs).trans hj
    have hc := h.cached d hd t ht hsome
    have hnow : Accounted cfg jobs roster (drained w.db (es ++ [.queue (.item (.update jobId
        (publishMeta env channel d) status (.chunksSent n) env.now))])).items
        (w.log ++ sentBy env.jobId (es ++ [.queue (.item (.update jobId
          (publishMeta env channel d) status (.chunksSent n) env.now))])) := by
      rw [drained_queue, sentBy_queue, hturn.count]
      exact accounted_update h.now hm (huniq d.article hr) (fun _ _ _ => rfl) hturn.order hc hown
        hown (hturn.row jobId hj) status env.now
    refine ⟨⟨hnow, before_concat h.before fun _ => hnow, ?_⟩, ?_⟩
    · intro d' hd' t' ht' _
      rw [drained_queue, ← h.cached d' hd' t' ht' hsome]
      exact cached_update_ne hm _ jobId status _ env.now fun hne =>
        channel_step_ne channel hne.1.symm
    · refine ⟨?_, ?_, ?_, ?_⟩
      · rw [sentBy_queue]
        exact hturn.order
      · rw [sentBy_queue]
        exact hturn.count
      · rw [sentBy_queue]
        exact hturn.own
      · intro jobId' hj'
        rw [drained_queue]
        exact row_update _ _ _ _ _ _ (hturn.row jobId' hj')

/-- A message that arrives, with its record. -/
theorem delivering_message (h : Delivering cfg env jobs roster w articles translated es)
    (hd : d ∈ articles) (hr : d.article ∈ roster) (ht : translated d.ulid = some t)
    (hturn : InTurn cfg env w channel d t n es)
    (htext : (messages cfg channel d.article t)[n]? = some text) :
    Delivering cfg env jobs roster w articles translated
        (es ++ .send channel d.ulid n text .ok ::
          updateItem env (publishMeta env channel d) .running (.chunksSent (n + 1))) ∧
      InTurn cfg env w channel d t (n + 1)
        (es ++ .send channel d.ulid n text .ok ::
          updateItem env (publishMeta env channel d) .running (.chunksSent (n + 1))) := by
  have hsent := sentTo_message env.jobId w.log es channel d.ulid n text
  have hother : ∀ channel' ulid, ¬ (channel = channel' ∧ d.ulid = ulid) →
      sentTo (w.log ++ sentBy env.jobId (es ++ [.send channel d.ulid n text .ok])) channel' ulid =
        sentTo (w.log ++ sentBy env.jobId es) channel' ulid :=
    fun _ _ hne => sentTo_message_ne env.jobId w.log es n text hne
  have hcount : n + 1 = (sentTo (w.log ++ sentBy env.jobId
      (es ++ [.send channel d.ulid n text .ok])) channel d.ulid).length := by
    rw [hsent, List.length_append, ← hturn.count]
    rfl
  have hown : ∀ s ∈ sentTo (w.log ++ sentBy env.jobId
      (es ++ [.send channel d.ulid n text .ok])) channel d.ulid, s.jobId = env.jobId := by
    intro s hs
    rw [hsent] at hs
    rcases List.mem_append.1 hs with hs | hs
    · exact hturn.own s hs
    · rw [List.mem_singleton.1 hs]
  have horder : InOrder cfg channel d.article t (w.log ++ sentBy env.jobId
      (es ++ [.send channel d.ulid n text .ok])) := by
    apply hturn.order.next _ hsent rfl hturn.count
    rw [← htext, hturn.count]
    rfl
  have hbefore : ∀ es', es' <+: es ++ [.send channel d.ulid n text .ok] →
      unrecorded es' = false → Accounted cfg jobs roster (drained w.db es').items
        (w.log ++ sentBy env.jobId es') := by
    apply before_concat h.before
    intro hu
    rw [unrecorded, List.getLast?_concat] at hu
    cases hu
  have hdrained : drained w.db (es ++ [.send channel d.ulid n text .ok]) = drained w.db es :=
    drained_silent w.db es rfl rfl
  have hcached : ∀ d' ∈ articles, ∀ t', translated d'.ulid = some t' → env.jobId.isSome = true →
      cached (drained w.db (es ++ [.send channel d.ulid n text .ok])).items d'.ulid = some t' := by
    rw [hdrained]
    exact h.cached
  rw [List.append_cons]
  generalize es ++ [.send channel d.ulid n text .ok] = es₁ at *
  cases hj : env.jobId with
  | none =>
    rw [updateItem_none hj, List.append_nil]
    have hnow : Accounted cfg jobs roster (drained w.db es₁).items
        (w.log ++ sentBy env.jobId es₁) := by
      rw [hdrained]
      refine accounted_jobless h.now (huniq d.article hr) hother horder hsent fun s hs => ?_
      exact (hown s hs).trans hj
    refine ⟨⟨hnow, hbefore, hcached⟩, horder, hcount, hown, fun jobId hjob => ?_⟩
    rw [hj] at hjob
    cases hjob
  | some jobId =>
    rw [updateItem_some hj]
    have hm : itemKey (publishMeta env channel d) = (.text channel.step, .text d.article.ulid) :=
      itemKey_makeMetadata ..
    have hsome : env.jobId.isSome = true := by
      rw [hj]
      rfl
    have hc := h.cached d hd t ht hsome
    have hnow : Accounted cfg jobs roster (drained w.db (es₁ ++ [.queue (.item (.update jobId
        (publishMeta env channel d) .running (.chunksSent (n + 1)) env.now))])).items
        (w.log ++ sentBy env.jobId (es₁ ++ [.queue (.item (.update jobId
          (publishMeta env channel d) .running (.chunksSent (n + 1)) env.now))])) := by
      rw [drained_queue, sentBy_queue, hdrained, hcount]
      exact accounted_update h.now hm (huniq d.article hr) hother horder hc
        (fun s hs => (hturn.own s hs).trans hj) (fun s hs => (hown s hs).trans hj)
        (hturn.row jobId hj) .running env.now
    refine ⟨⟨hnow, before_concat hbefore fun _ => hnow, ?_⟩, ?_⟩
    · intro d' hd' t' ht' _
      rw [drained_queue, ← hcached d' hd' t' ht' hsome]
      exact cached_update_ne hm _ jobId .running _ env.now fun hne =>
        channel_step_ne channel hne.1.symm
    · refine ⟨?_, ?_, ?_, ?_⟩
      · rw [sentBy_queue]
        exact horder
      · rw [sentBy_queue]
        exact hcount
      · rw [sentBy_queue]
        exact hown
      · intro jobId' hj'
        rw [drained_queue, hdrained]
        exact row_update _ _ _ _ _ _ (hturn.row jobId' hj')

/-- The messages of an article. -/
theorem delivering_sendMessages (h : Delivering cfg env jobs roster w articles translated es)
    (hd : d ∈ articles) (hr : d.article ∈ roster) (ht : translated d.ulid = some t)
    (hturn : InTurn cfg env w channel d t n es) :
    ∃ k new, Delivering cfg env jobs roster w articles translated (es ++ new) ∧
      InTurn cfg env w channel d t (n + k) (es ++ new) ∧
      (sendMessages env channel d.ulid (publishMeta env channel d)
          ((messages cfg channel d.article t).drop n) n = (new, .sent (n + k)) ∨
      ∃ text, sendMessages env channel d.ulid (publishMeta env channel d)
            ((messages cfg channel d.article t).drop n) n =
          (new ++ [.send channel d.ulid (n + k) text .permanent], .refused (n + k)) ∨
        sendMessages env channel d.ulid (publishMeta env channel d)
            ((messages cfg channel d.article t).drop n) n =
          (new ++ [.send channel d.ulid (n + k) text .transient], .raised)) := by
  let I (k : Nat) (es : List Effect) : Prop :=
    Delivering cfg env jobs roster w articles translated es ∧
      InTurn cfg env w channel d t k es
  have hstep : ∀ k text es, ((messages cfg channel d.article t).drop n)[k]? = some text →
      env.telegram channel d.ulid (n + k) = .ok → I (n + k) es →
      I (n + k + 1) (es ++ .send channel d.ulid (n + k) text .ok ::
        updateItem env (publishMeta env channel d) .running (.chunksSent (n + k + 1))) := by
    rintro k text es htext _ ⟨hdel, hturn⟩
    rw [List.getElem?_drop] at htext
    exact delivering_message huniq hdel hd hr ht hturn htext
  obtain ⟨k, new, ⟨hdel, hturn'⟩, hend⟩ := sendMessages_inv hstep ⟨h, hturn⟩
  refine ⟨k, new, hdel, hturn', ?_⟩
  rcases hend with ⟨hend, _⟩ | ⟨text, _, hend⟩
  · exact .inl hend
  · exact .inr ⟨text, hend⟩

/-- The end of an article, with its status and its row. -/
theorem delivering_record (h : Delivering cfg env jobs roster w articles translated es)
    (hd : d ∈ articles) (hr : d.article ∈ roster) (ht : translated d.ulid = some t)
    (hturn : InTurn cfg env w channel d t n es) (status : PublishStatus)
    (itemStatus : ItemStatus) :
    Delivering cfg env jobs roster w articles translated
      (es ++ .queue (.setDetail d.ulid status none) ::
        updateItem env (publishMeta env channel d) itemStatus (.chunksSent n)) := by
  have hset := delivering_setDetail h d.ulid status
  have hturn' : InTurn cfg env w channel d t n (es ++ [.queue (.setDetail d.ulid status none)]) :=
    hturn.congr (sentBy_queue _ es _) (by rw [drained_queue]; rfl)
  rw [List.append_cons]
  exact (delivering_progress huniq hset hd hr ht hturn' itemStatus).1

end

/-- When a channel comes to an article, the counter of the job says what has arrived of it. -/
theorem inTurn_start (h : Delivering cfg env jobs roster w articles translated es)
    (hjobs : ∀ jobId ∈ env.jobId, jobId ∈ jobs) (hd : d ∈ articles) (hr : d.article ∈ roster)
    (ht : translated d.ulid = some t) (havoid : ∀ e ∈ es, Effect.Avoids channel d.ulid e)
    (hcont : ∀ s ∈ sentTo w.log channel d.ulid,
      ∃ jobId, env.jobId = some jobId ∧ s.jobId = some jobId)
    (hm : itemKey m = (.text channel.step, .text d.ulid)) :
    InTurn cfg env w channel d t (progressOf env w.db channel d (es ++ addItem env m))
      (es ++ addItem env m) := by
  have hadd := delivering_addItem h m
  have havoid' : ∀ e ∈ es ++ addItem env m, Effect.Avoids channel d.ulid e := by
    intro e he
    rcases List.mem_append.1 he with he | he
    · exact havoid e he
    · exact avoids_addItem he
  have hlog : sentTo (w.log ++ sentBy env.jobId (es ++ addItem env m)) channel d.ulid =
      sentTo w.log channel d.ulid := by
    rw [sentTo_append, sentTo_avoids env.jobId havoid', List.append_nil]
  have hrow : ∀ jobId ∈ env.jobId, (progressRow (drained w.db (es ++ addItem env m)).items jobId
      channel.step d.ulid).isSome = true := by
    intro jobId hj
    rw [addItem_some hj, drained_queue]
    exact progressRow_added _ env.now hm
  obtain ⟨t', ht', hcached, hcount⟩ := hadd.now.each channel d.article hr
  have hprogress : progressOf env w.db channel d (es ++ addItem env m) =
      (sentTo w.log channel d.ulid).length := by
    rw [progressOf]
    split
    next jobId hj =>
      have hown : ∀ s ∈ sentTo w.log channel d.ulid, s.jobId = some jobId := by
        intro s hs
        obtain ⟨jobId', hj', hs'⟩ := hcont s hs
        rw [hj] at hj'
        rw [hs', Option.some.inj hj']
      rw [chunksSent_view w.db havoid', ← countP_own hown]
      have hc := hcount jobId (hjobs jobId hj)
      change chunksSent (drained w.db (es ++ addItem env m)).items jobId channel d.ulid =
        (sentTo _ channel d.ulid).countP _ at hc
      rw [hlog, drained, chunksSent_view w.db havoid'] at hc
      exact hc
    next hj =>
      symm
      rw [List.length_eq_zero_iff, List.eq_nil_iff_forall_not_mem]
      intro s hs
      obtain ⟨jobId, hj', _⟩ := hcont s hs
      rw [hj] at hj'
      cases hj'
  refine ⟨?_, ?_, ?_, hrow⟩
  · cases hnil : sentTo w.log channel d.ulid with
    | nil => exact inOrder_nil cfg channel d.article t (hlog.trans hnil)
    | cons s rest =>
      have hmem : s ∈ sentTo w.log channel d.ulid := by
        rw [hnil]
        exact List.mem_cons_self
      obtain ⟨jobId, hj, hs⟩ := hcont s hmem
      have hsome : env.jobId.isSome = true := by
        rw [hj]
        rfl
      have hnone : s.jobId ≠ none := by
        rw [hs]
        exact Option.some_ne_none jobId
      have hsame := hcached s (hlog ▸ hmem) hnone
      rw [show d.article.ulid = d.ulid from rfl, hadd.cached d hd t ht hsome] at hsame
      rw [Option.some.inj hsame]
      exact ht'
  · rw [hprogress, hlog]
  · rw [hlog]
    intro s hs
    obtain ⟨jobId, hj, hs'⟩ := hcont s hs
    exact hs'.trans hj.symm

/-- A channel delivers an article. -/
theorem delivering_publishArticle
    (huniq : ∀ a ∈ roster, ∀ a' ∈ roster, a'.ulid = a.ulid → a' = a)
    (h : Delivering cfg env jobs roster w articles translated es)
    (hjobs : ∀ jobId ∈ env.jobId, jobId ∈ jobs) (hd : d ∈ articles) (hr : d.article ∈ roster)
    (ht : translated d.ulid = some t) (havoid : ∀ e ∈ es, Effect.Avoids channel d.ulid e)
    (hcont : channel.passes d.publishStatus = false → ∀ s ∈ sentTo w.log channel d.ulid,
      ∃ jobId, env.jobId = some jobId ∧ s.jobId = some jobId) :
    Delivering cfg env jobs roster w articles translated
      (publishArticle cfg env w.db channel t d es).1 := by
  rcases publishArticle_cases cfg env w.db channel t d es with
    ⟨_, he⟩ | ⟨hpass, m, es₁, n, hm, h₁, hn, hsent⟩
  · rw [he]
    exact h
  · have hkey : itemKey m = (.text channel.step, .text d.ulid) := hm ▸ itemKey_makeMetadata ..
    have hadd := delivering_addItem h m
    have hturn := inTurn_start h hjobs hd hr ht havoid (hcont hpass) hkey
    rw [← h₁] at hadd hturn
    rw [← hn] at hturn
    obtain ⟨k, new', hdel, hturn', hend⟩ := delivering_sendMessages huniq hadd hd hr ht hturn
    rw [← hm] at hend
    rcases hsent with ⟨new, k', hs, he⟩ | ⟨new, k', hs, he⟩ | ⟨new, hs, he⟩
    · rw [hs] at hend
      rcases hend with heq | ⟨text, heq | heq⟩
      · cases heq
        rw [he, hm]
        exact delivering_record huniq hdel hd hr ht hturn' channel.published .completed
      · cases heq
      · cases heq
    · rw [hs] at hend
      rcases hend with heq | ⟨text, heq | heq⟩
      · cases heq
      · cases heq
        have hne : Outcome.permanent ≠ .ok := Outcome.noConfusion
        rw [he, hm, ← List.append_assoc es₁]
        exact delivering_record huniq (delivering_unsent hdel hne) hd hr ht
          (hturn'.congr (sentBy_unsent _ _ hne) (by rw [drained_silent w.db _ rfl rfl])) .failed
          .failed
      · cases heq
    · rw [hs] at hend
      rcases hend with heq | ⟨text, heq | heq⟩
      · cases heq
      · cases heq
      · cases heq
        have hne : Outcome.transient ≠ .ok := Outcome.noConfusion
        rw [he, ← List.append_assoc]
        exact delivering_unsent hdel hne

section
variable (huniq : ∀ a ∈ roster, ∀ a' ∈ roster, a'.ulid = a.ulid → a' = a)
  (hjobs : ∀ jobId ∈ env.jobId, jobId ∈ jobs) (hr : ∀ d ∈ articles, d.article ∈ roster)
  (hn : (articles.map Detail.ulid).Nodup)
  (hcont : ∀ d ∈ articles, ∀ channel : Channel, channel.passes d.publishStatus = false →
    ∀ s ∈ sentTo w.log channel d.ulid, ∃ jobId, env.jobId = some jobId ∧ s.jobId = some jobId)
include huniq hjobs hr hn hcont

/-- The loop of a channel, which leaves the other channel alone. -/
theorem delivering_publishChannel
    (h : Delivering cfg env jobs roster w articles translated es)
    (havoid : ∀ d ∈ articles, ∀ e ∈ es, Effect.Avoids channel d.ulid e) :
    Delivering cfg env jobs roster w articles translated
        (publishChannel cfg env w.db channel translated articles es).1 ∧
      ∃ new, (publishChannel cfg env w.db channel translated articles es).1 = es ++ new ∧
        ∀ e ∈ new, ∀ channel' ulid, channel ≠ channel' → Effect.Avoids channel' ulid e := by
  rw [publishChannel]
  split
  next =>
    let K (es' : List Effect) : Prop :=
      Delivering cfg env jobs roster w articles translated es' ∧
        ∃ new, es' = es ++ new ∧
          ∀ e ∈ new, ∀ channel' ulid, channel ≠ channel' → Effect.Avoids channel' ulid e
    let J (ds : List Detail) (es' : List Effect) : Prop :=
      (∀ d ∈ ds, d ∈ articles) ∧ (ds.map Detail.ulid).Nodup ∧
        (∀ d ∈ ds, ∀ e ∈ es', Effect.Avoids channel d.ulid e) ∧ K es'
    have hone (d : Detail) (ds : List Detail) (t : Translation) (es' : List Effect)
        (ht : translated d.ulid = some t) (hJ : J (d :: ds) es') :
        J ds (publishArticle cfg env w.db channel t d es').1 := by
      obtain ⟨hsub, hnodup, hav, hdel, new, he, hnew⟩ := hJ
      have hd := hsub d List.mem_cons_self
      obtain ⟨more, hmore, hothers⟩ := avoids_publishArticle cfg env w.db channel t d es'
      rw [List.map_cons, List.nodup_cons] at hnodup
      refine ⟨fun d' hd' => hsub d' (List.mem_cons_of_mem d hd'), hnodup.2, ?_,
        delivering_publishArticle huniq hdel hjobs hd (hr d hd) ht (hav d List.mem_cons_self)
          (hcont d hd channel), new ++ more, ?_, ?_⟩
      · intro d' hd' e hmem
        rw [hmore] at hmem
        rcases List.mem_append.1 hmem with hmem | hmem
        · exact hav d' (List.mem_cons_of_mem d hd') e hmem
        · apply hothers e hmem
          rintro ⟨_, hu⟩
          exact hnodup.1 (hu ▸ List.mem_map_of_mem hd')
      · rw [hmore, he, List.append_assoc]
      · intro e hmem channel' ulid hne
        rcases List.mem_append.1 hmem with hmem | hmem
        · exact hnew e hmem channel' ulid hne
        · exact hothers e hmem channel' ulid fun hsame => hne hsame.1
    have hloop := publishArticles_inv cfg env w.db channel translated (J := J) (K := K)
      (fun d ds es' _ hJ => by
        obtain ⟨hsub, hnodup, hav, hK⟩ := hJ
        rw [List.map_cons, List.nodup_cons] at hnodup
        exact ⟨fun d' hd' => hsub d' (List.mem_cons_of_mem d hd'), hnodup.2,
          fun d' hd' => hav d' (List.mem_cons_of_mem d hd'), hK⟩)
      (fun d ds t es' ht hJ _ => hone d ds t es' ht hJ)
      (fun d ds t es' ht hJ _ => (hone d ds t es' ht hJ).2.2.2)
      (articles.filter fun d => decide (channel = .archive) || d.isTop10)
      ⟨fun d hd => (List.mem_filter.1 hd).1, (List.filter_sublist.map Detail.ulid).nodup hn,
        fun d hd => havoid d (List.mem_filter.1 hd).1, h, [], (List.append_nil es).symm,
        fun _ he => absurd he List.not_mem_nil⟩
    cases hraised : (publishArticles cfg env w.db channel translated
        (articles.filter fun d => decide (channel = .archive) || d.isTop10) es).2 with
    | false => exact (hloop.1 hraised).2.2.2
    | true => exact hloop.2 hraised
  next => exact ⟨h, [], (List.append_nil es).symm, fun _ he => absurd he List.not_mem_nil⟩

theorem delivering_deliver (h : Delivering cfg env jobs roster w articles translated es)
    (havoid : ∀ channel ulid, ∀ e ∈ es, Effect.Avoids channel ulid e) :
    Delivering cfg env jobs roster w articles translated
      (deliver cfg env w.db translated articles es).1 := by
  rw [deliver]
  split
  next =>
    have hbriefing : ∀ d ∈ articles, ∀ e ∈ es, Effect.Avoids .briefing d.ulid e :=
      fun d _ => havoid .briefing d.ulid
    have hfirst := delivering_publishChannel huniq hjobs hr hn hcont h hbriefing
    cases hb : publishChannel cfg env w.db .briefing translated articles es with
    | mk es' raised =>
      rw [hb] at hfirst
      obtain ⟨hdel, new, he, hnew⟩ := hfirst
      cases raised with
      | true => exact hdel
      | false =>
        refine (delivering_publishChannel huniq hjobs hr hn hcont hdel ?_).1
        intro d _ e hmem
        change e ∈ es' at hmem
        rw [show es' = es ++ new from he] at hmem
        rcases List.mem_append.1 hmem with hmem | hmem
        · exact havoid .archive d.ulid e hmem
        · exact hnew e hmem .archive d.ulid Channel.noConfusion
  next => exact h

end

end

end Publisher
