import AnythingTools.Publisher.Accounting

namespace Publisher
open JobItems
set_option autoImplicit true

/-! ### Deliveries of which every message arrives -/

/-- The messages with the records of their progress. -/
def sendAll (env : Env) (channel : Channel) (ulid : String) (m : Metadata) :
    List String → Nat → List Effect
  | [], _ => []
  | text :: texts, n =>
    .send channel ulid n text .ok ::
      (updateItem env m .running (.chunksSent (n + 1)) ++ sendAll env channel ulid m texts (n + 1))

/-- The progress of the run's job before the run. -/
def sentBefore (env : Env) (items : List (Item Output)) (channel : Channel) (ulid : String) : Nat :=
  match env.jobId with
  | some jobId => chunksSent items jobId channel ulid
  | none => 0

/-- The delivery of one article. -/
def delivery (cfg : Config) (env : Env) (db : Db) (channel : Channel) (t : Translation)
    (d : Detail) : List Effect :=
  if channel.passes d.publishStatus then []
  else
    let m := publishMeta env channel d
    let n := sentBefore env db.items channel d.ulid
    let texts := (messages cfg channel d.article t).drop n
    addItem env m ++ sendAll env channel d.ulid m texts n ++
      .queue (.setDetail d.ulid channel.published none) ::
        updateItem env m .completed (.chunksSent (n + texts.length))

/-- The deliveries to one channel. -/
def deliveries (cfg : Config) (env : Env) (db : Db) (translated : String → Option Translation)
    (articles : List Detail) (channel : Channel) : List Effect :=
  if cfg.configured channel then
    (articles.filter fun d => decide (channel = .archive) || d.isTop10).flatMap fun d =>
      delivery cfg env db channel ((translated d.ulid).getD default) d
  else []

def posts (cfg : Config) (env : Env) (db : Db) (translated : String → Option Translation)
    (articles : List Detail) : List Effect :=
  if cfg.client then
    [Channel.briefing, .archive].flatMap (deliveries cfg env db translated articles)
  else []

/-- The article has the channel. -/
def Detail.Has (cfg : Config) (d : Detail) (channel : Channel) : Prop :=
  cfg.client = true ∧ cfg.configured channel = true ∧ (channel = .archive ∨ d.isTop10 = true)

section
variable {cfg : Config} {env : Env} {db : Db} {channel : Channel}
  {translated : String → Option Translation}

theorem sendMessages_ok (h : ∀ n, env.telegram channel ulid n = .ok) (m : Metadata)
    (texts : List String) (n : Nat) : sendMessages env channel ulid m texts n =
      (sendAll env channel ulid m texts n, .sent (n + texts.length)) := by
  induction texts generalizing n with
  | nil => rfl
  | cons text texts ih =>
    rw [sendMessages, h n]
    dsimp only
    rw [ih (n + 1), sendAll, List.length_cons, Nat.add_comm texts.length 1, Nat.add_assoc]

theorem not_send_addItem : Effect.send channel' ulid' k text outcome ∉ addItem env m := by
  intro he
  obtain ⟨_, _, he⟩ := mem_addItem he
  cases he

theorem not_send_updateItem :
    Effect.send channel' ulid' k text outcome ∉ updateItem env m status output := by
  intro he
  obtain ⟨_, _, he⟩ := mem_updateItem he
  cases he

theorem mem_sendAll (env : Env) (channel : Channel) (ulid : String) (m : Metadata)
    (texts : List String) (n : Nat) :
    .send channel' ulid' k text outcome ∈ sendAll env channel ulid m texts n ↔
      (channel' = channel ∧ ulid' = ulid ∧ outcome = .ok) ∧ n ≤ k ∧ texts[k - n]? = some text := by
  induction texts generalizing n with
  | nil =>
    refine iff_of_false List.not_mem_nil fun h => ?_
    cases h.2.2
  | cons text' texts ih =>
    rw [sendAll, List.mem_cons, List.mem_append, or_iff_right not_send_updateItem, ih (n + 1),
      Effect.send.injEq]
    constructor
    · rintro (⟨hc, hu, hk, ht, ho⟩ | ⟨hsame, hle, ht⟩)
      · rw [hk, ht, Nat.sub_self]
        exact ⟨⟨hc, hu, ho⟩, Nat.le_refl n, rfl⟩
      · refine ⟨hsame, Nat.le_of_succ_le hle, ?_⟩
        rw [← Nat.succ_sub_one (k - n), ← ht, ← Nat.sub_sub]
        have hpos : k - n = k - n - 1 + 1 := by omega
        conv_lhs => rw [Nat.succ_sub_one, hpos]
        rfl
    · rintro ⟨⟨hc, hu, ho⟩, hle, ht⟩
      rcases Nat.eq_or_lt_of_le hle with hk | hlt
      · rw [← hk, Nat.sub_self] at ht
        exact .inl ⟨hc, hu, hk.symm, (Option.some.inj ht).symm, ho⟩
      · refine .inr ⟨⟨hc, hu, ho⟩, hlt, ?_⟩
        have hpos : k - n = k - (n + 1) + 1 := by omega
        rw [hpos] at ht
        exact ht

theorem progressOf_avoids (h : ∀ e ∈ es, Effect.Avoids channel (Detail.ulid d) e) :
    progressOf env db channel d es = sentBefore env db.items channel d.ulid := by
  rw [progressOf, sentBefore]
  cases env.jobId with
  | none => rfl
  | some jobId => exact chunksSent_view db h _ jobId

theorem publishArticle_ok (h : ∀ channel ulid n, env.telegram channel ulid n = .ok)
    (t : Translation) (hes : ∀ e ∈ es, Effect.Avoids channel (Detail.ulid d) e) :
    publishArticle cfg env db channel t d es =
      (es ++ delivery cfg env db channel t d, false) := by
  rw [publishArticle, delivery]
  split
  next => rw [List.append_nil]
  next =>
    dsimp only
    have hes' : ∀ e ∈ es ++ addItem env (publishMeta env channel d),
        Effect.Avoids channel d.ulid e := by
      intro e he
      rcases List.mem_append.1 he with he | he
      · exact hes e he
      · exact avoids_addItem he
    rw [progressOf_avoids hes', sendMessages_ok (h channel d.ulid)]
    simp only [List.append_assoc]

theorem avoids_delivery (h : ∀ channel ulid n, env.telegram channel ulid n = .ok)
    (t : Translation) (d : Detail) (hne : ¬ (channel = channel' ∧ d.ulid = ulid)) :
    ∀ e ∈ delivery cfg env db channel t d, Effect.Avoids channel' ulid e := by
  obtain ⟨new, he, hnew⟩ := avoids_publishArticle cfg env db channel t d []
  rw [publishArticle_ok h t fun e he => absurd he List.not_mem_nil] at he
  have hnew' : delivery cfg env db channel t d = new := he
  intro e hmem
  rw [hnew'] at hmem
  exact hnew e hmem channel' ulid hne

theorem publishArticles_ok (h : ∀ channel ulid n, env.telegram channel ulid n = .ok)
    (hn : (ds.map Detail.ulid).Nodup) (ht : ∀ d ∈ ds, translated (Detail.ulid d) ≠ none)
    (hes : ∀ d ∈ ds, ∀ e ∈ es, Effect.Avoids channel (Detail.ulid d) e) :
    publishArticles cfg env db channel translated ds es =
      (es ++ ds.flatMap fun d =>
        delivery cfg env db channel ((translated d.ulid).getD default) d, false) := by
  induction ds generalizing es with
  | nil =>
    rw [List.flatMap_nil, List.append_nil]
    rfl
  | cons d ds ih =>
    rw [List.map_cons, List.nodup_cons] at hn
    obtain ⟨t, htd⟩ := Option.ne_none_iff_exists'.1 (ht d List.mem_cons_self)
    rw [publishArticles, htd]
    dsimp only
    rw [publishArticle_ok h t (hes d List.mem_cons_self)]
    dsimp only
    rw [ih hn.2 (fun d' hd' => ht d' (List.mem_cons_of_mem d hd')), List.flatMap_cons, htd,
      Option.getD_some, List.append_assoc]
    intro d' hd' e he
    rcases List.mem_append.1 he with he | he
    · exact hes d' (List.mem_cons_of_mem d hd') e he
    · refine avoids_delivery h t d (fun hs => hn.1 ?_) e he
      rw [hs.2]
      exact List.mem_map_of_mem hd'

theorem publishChannel_ok (h : ∀ channel ulid n, env.telegram channel ulid n = .ok)
    (hn : (articles.map Detail.ulid).Nodup)
    (ht : ∀ d ∈ articles, translated (Detail.ulid d) ≠ none)
    (hes : ∀ ulid, ∀ e ∈ es, Effect.Avoids channel ulid e) :
    publishChannel cfg env db channel translated articles es =
      (es ++ deliveries cfg env db translated articles channel, false) := by
  rw [publishChannel, deliveries]
  split
  next =>
    exact publishArticles_ok h ((List.filter_sublist.map Detail.ulid).nodup hn)
      (fun d hd => ht d (List.mem_filter.1 hd).1) fun d _ => hes d.ulid
  next => rw [List.append_nil]

/-- When every message arrives, the delivery is the list of the posts. -/
theorem deliver_ok (h : ∀ channel ulid n, env.telegram channel ulid n = .ok)
    (hn : (articles.map Detail.ulid).Nodup)
    (ht : ∀ d ∈ articles, translated (Detail.ulid d) ≠ none)
    (hes : ∀ channel ulid, ∀ e ∈ es, Effect.Avoids channel ulid e) :
    deliver cfg env db translated articles es =
      (es ++ posts cfg env db translated articles, false) := by
  rw [deliver, posts]
  split
  next =>
    rw [publishChannel_ok h hn ht (hes .briefing)]
    dsimp only
    rw [publishChannel_ok h hn ht]
    · simp only [List.flatMap_cons, List.flatMap_nil, List.append_nil, List.append_assoc]
    · intro ulid e he
      rcases List.mem_append.1 he with he | he
      · exact hes .archive ulid e he
      · rw [deliveries] at he
        split at he
        next =>
          obtain ⟨d, _, he⟩ := List.mem_flatMap.1 he
          exact avoids_delivery h _ d (fun hs => Channel.noConfusion hs.1) e he
        next => exact absurd he List.not_mem_nil
  next => rw [List.append_nil]

theorem mem_posts : e ∈ posts cfg env db translated articles ↔
    ∃ channel, ∃ d ∈ articles, d.Has cfg channel ∧
      e ∈ delivery cfg env db channel ((translated d.ulid).getD default) d := by
  rw [posts]
  split
  next hclient =>
    rw [List.mem_flatMap]
    constructor
    · rintro ⟨channel, _, he⟩
      rw [deliveries] at he
      split at he
      next hconf =>
        obtain ⟨d, hd, he⟩ := List.mem_flatMap.1 he
        obtain ⟨hd, hsort⟩ := List.mem_filter.1 hd
        rw [Bool.or_eq_true, decide_eq_true_eq] at hsort
        exact ⟨channel, d, hd, ⟨hclient, hconf, hsort⟩, he⟩
      next => exact absurd he List.not_mem_nil
    · rintro ⟨channel, d, hd, ⟨_, hconf, hsort⟩, he⟩
      refine ⟨channel, by cases channel <;> decide, ?_⟩
      rw [deliveries, if_pos hconf]
      refine List.mem_flatMap.2 ⟨d, List.mem_filter.2 ⟨hd, ?_⟩, he⟩
      rw [Bool.or_eq_true, decide_eq_true_eq]
      exact hsort
  next hclient =>
    refine iff_of_false List.not_mem_nil ?_
    rintro ⟨_, _, _, hhas, _⟩
    exact hclient hhas.1

theorem send_mem_delivery (t : Translation) (d : Detail) :
    .send channel' ulid k text outcome ∈ delivery cfg env db channel t d ↔
      (channel' = channel ∧ ulid = d.ulid ∧ outcome = .ok) ∧
        channel.passes d.publishStatus = false ∧
        sentBefore env db.items channel d.ulid ≤ k ∧
        (messages cfg channel d.article t)[k]? = some text := by
  rw [delivery]
  split
  next hp =>
    refine iff_of_false List.not_mem_nil fun h => ?_
    rw [h.2.1] at hp
    cases hp
  next hp =>
    dsimp only
    rw [List.mem_append, List.mem_append, or_iff_right not_send_addItem, List.mem_cons,
      or_iff_left, mem_sendAll, List.getElem?_drop]
    · constructor
      · rintro ⟨hsame, hle, ht⟩
        rw [Nat.add_sub_of_le hle] at ht
        exact ⟨hsame, Bool.eq_false_iff.2 hp, hle, ht⟩
      · rintro ⟨hsame, _, hle, ht⟩
        rw [Nat.add_sub_of_le hle]
        exact ⟨hsame, hle, ht⟩
    · rintro (he | he)
      · cases he
      · exact not_send_updateItem he

end

/-! ### A run that resets the batch -/

/-- The call goes on to the pipeline. -/
def Opens (args : Args) (db : Db) : Prop :=
  (route args db.batch.status = .proceed ∧ lockable db.batch.status = true) ∧
    db.batch.details.any Detail.isTop10 = true

def resumes (db : Db) : Bool := decide (db.batch.status ∈ [.pending, .partialResult])

/-- What the run has done when the delivery begins. -/
def prepared (cfg : Config) (env : Env) (args : Args) (db : Db) : Translator :=
  prepare cfg env db (resumes db) args.reset (resetEffects args ++ [.lock])

/-- The valid articles, as the run has read them. -/
def validLoaded (env : Env) (args : Args) (db : Db) : List Detail :=
  validArticles env db (resumes db) args.reset (resetEffects args ++ [.lock])

/-- Every article that the run is to deliver is translated. -/
def AllTranslated (cfg : Config) (env : Env) (args : Args) (db : Db) : Prop :=
  Opens args db → ∀ d ∈ validLoaded env args db,
    (prepared cfg env args db).translated d.ulid ≠ none

section
variable {cfg : Config} {env : Env} {args : Args} {db : Db}

/-- A run that does not come to the pipeline sends nothing. -/
theorem send_not_mem_closed (h : ¬ Opens args db) :
    Effect.send channel ulid k text outcome ∉ (run cfg env args db).1 := by
  have hreset : Effect.send channel ulid k text outcome ∉ resetEffects args := by
    rw [resetEffects]
    split
    next =>
      intro he
      cases List.mem_singleton.1 he
    next => exact List.not_mem_nil
  rw [run]
  cases hroute : route args db.batch.status with
  | alreadyPublished => exact List.not_mem_nil
  | finalize =>
    intro he
    rcases List.mem_cons.1 he with he | he
    · cases he
    · cases List.mem_singleton.1 he
  | proceed =>
    dsimp only
    rw [any_top10_loaded]
    split
    next htop =>
      rw [if_neg fun hlock => h ⟨⟨hroute, hlock⟩, htop⟩]
      exact hreset
    next =>
      intro he
      rcases List.mem_append.1 he with he | he
      · exact hreset he
      · cases List.mem_singleton.1 he

/-- A run whose messages all arrive: the posts, and in the end the status of the batch. -/
theorem run_opens (ho : Opens args db) (h : ∀ channel ulid n, env.telegram channel ulid n = .ok)
    (ht : AllTranslated cfg env args db) :
    ∃ last, (run cfg env args db).1 = (prepared cfg env args db).effects ++
        posts cfg env db (prepared cfg env args db).translated (validLoaded env args db) ++ last ∧
      ∀ e ∈ last, ∃ status, e = .queue (.setBatchStatus status) := by
  have hdel : deliver cfg env db (prepared cfg env args db).translated (validLoaded env args db)
      (prepared cfg env args db).effects = ((prepared cfg env args db).effects ++
        posts cfg env db (prepared cfg env args db).translated (validLoaded env args db), false) :=
    deliver_ok h (nodup_valid env db (resumes db) args.reset _) (ht ho)
      (avoids_prepare cfg env args db (resumes db) args.reset)
  have hpipe : runPipeline cfg env db (resumes db) args.reset (resetEffects args ++ [.lock]) =
      ((prepared cfg env args db).effects ++
        posts cfg env db (prepared cfg env args db).translated (validLoaded env args db) ++
          setStatus db env ((prepared cfg env args db).effects ++
            posts cfg env db (prepared cfg env args db).translated (validLoaded env args db)),
        false) := by
    rw [prepared, validLoaded] at hdel ⊢
    rw [runPipeline, hdel]
  refine ⟨setStatus db env ((prepared cfg env args db).effects ++
    posts cfg env db (prepared cfg env args db).translated (validLoaded env args db)), ?_, ?_⟩
  · rw [run, ho.1.1]
    dsimp only
    rw [any_top10_loaded, if_pos ho.2, if_pos ho.1.2]
    rw [resumes] at hpipe
    rw [hpipe]
  · intro e he
    rw [setStatus, Option.mem_toList, Option.map_eq_some_iff] at he
    obtain ⟨status, _, he⟩ := he
    exact ⟨status, he.symm⟩

/-- A detail as a run that resets the batch reads it. -/
def Detail.loaded (env : Env) (d : Detail) : Detail :=
  d.after ([Write.resetDetails].take (env.lag .allArticles))

theorem loaded_cases (env : Env) (d : Detail) :
    (env.lag .allArticles = 0 ∧ d.loaded env = d) ∨
      (0 < env.lag .allArticles ∧ d.loaded env = Write.onDetail d .resetDetails) := by
  rw [Detail.loaded]
  cases env.lag .allArticles with
  | zero => exact .inl ⟨rfl, rfl⟩
  | succ n =>
    rw [List.take_of_length_le (Nat.le_add_left 1 n)]
    exact .inr ⟨Nat.succ_pos n, rfl⟩

/-- The channel takes a detail that the reset has reached, or that it did not pass over before. -/
theorem takes_loaded (env : Env) (d : Detail) (channel : Channel) :
    channel.passes (d.loaded env).publishStatus = false ↔
      0 < env.lag .allArticles ∨ channel.passes d.publishStatus = false := by
  rcases loaded_cases env d with ⟨hn, he⟩ | ⟨hn, he⟩
  · rw [he, hn, or_iff_right (Nat.lt_irrefl 0)]
  · rw [he]
    refine iff_of_true ?_ (.inl hn)
    change channel.passes .pending = false
    cases channel <;> rfl

theorem isTop10_loaded (env : Env) (d : Detail) : (d.loaded env).isTop10 = d.isTop10 := by
  rcases loaded_cases env d with ⟨_, he⟩ | ⟨_, he⟩
  · rw [he]
  · rw [he]
    rfl

@[simp] theorem article_loaded (env : Env) (d : Detail) : (d.loaded env).article = d.article :=
  article_after d _

theorem mem_validLoaded (hr : args.reset = true) : d' ∈ validLoaded env args db ↔
    ∃ d ∈ db.batch.details, isValid d.article = true ∧ d' = d.loaded env := by
  have hq : queued (resetEffects args ++ [.lock]) = [.resetDetails] := by
    rw [queued_locked, resetEffects, hr]
    rfl
  rw [validLoaded, validArticles, List.mem_filter, pendingArticles, hr, Bool.not_true,
    Bool.and_false, if_neg Bool.false_ne_true, getBatchArticles, mem_sorted, details_view, ← hr, hq,
    List.mem_map]
  constructor
  · rintro ⟨⟨d, hd, he⟩, hv⟩
    refine ⟨d, hd, ?_, he.symm⟩
    rw [← he, article_after] at hv
    exact hv
  · rintro ⟨d, hd, hv, he⟩
    refine ⟨⟨d, hd, he.symm⟩, ?_⟩
    rw [he, article_loaded]
    exact hv

/-- The translation that the run delivers. -/
def delivered (cfg : Config) (env : Env) (args : Args) (db : Db) (d : Detail) : Translation :=
  ((prepared cfg env args db).translated d.ulid).getD default

/-- All that the run sends. -/
theorem send_mem_run (ho : Opens args db) (hr : args.reset = true)
    (h : ∀ channel ulid n, env.telegram channel ulid n = .ok)
    (ht : AllTranslated cfg env args db) :
    .send channel ulid k text outcome ∈ (run cfg env args db).1 ↔
      ∃ d ∈ db.batch.details, isValid d.article = true ∧ d.Has cfg channel ∧
        (ulid = d.ulid ∧ outcome = .ok) ∧
        (0 < env.lag .allArticles ∨ channel.passes d.publishStatus = false) ∧
        sentBefore env db.items channel d.ulid ≤ k ∧
        (messages cfg channel d.article (delivered cfg env args db d))[k]? = some text := by
  obtain ⟨last, he, hlast⟩ := run_opens ho h ht
  have hnone : Effect.send channel ulid k text outcome ∉ (prepared cfg env args db).effects := by
    obtain ⟨new, heq, hnew⟩ :=
      quiet_prepare cfg env db (resumes db) args.reset (resetEffects args ++ [.lock])
    rw [prepared, heq, resetEffects, hr]
    intro hmem
    rcases List.mem_append.1 hmem with hmem | hmem
    · exact absurd hmem (by simp)
    · obtain ⟨w, hw, _⟩ := hnew _ hmem
      cases hw
  have hnot : Effect.send channel ulid k text outcome ∉ last := by
    intro hmem
    obtain ⟨status, hs⟩ := hlast _ hmem
    cases hs
  rw [he, List.mem_append, List.mem_append, or_iff_left hnot, or_iff_right hnone, mem_posts]
  have hhas (d : Detail) : (d.loaded env).Has cfg channel ↔ d.Has cfg channel := by
    rw [Detail.Has, Detail.Has, isTop10_loaded]
  have hulid (d : Detail) : (d.loaded env).ulid = d.ulid :=
    congrArg Article.ulid (article_loaded env d)
  constructor
  · rintro ⟨channel', d', hd', hh, hmem⟩
    obtain ⟨d, hd, hv, hload⟩ := (mem_validLoaded hr).1 hd'
    rw [hload, send_mem_delivery, hulid, takes_loaded, article_loaded] at hmem
    obtain ⟨⟨hc, hu, hout⟩, htake, hle, htext⟩ := hmem
    rw [hload, ← hc, hhas] at hh
    rw [← hc] at htake hle htext
    exact ⟨d, hd, hv, hh, ⟨hu, hout⟩, htake, hle, htext⟩
  · rintro ⟨d, hd, hv, hh, ⟨hu, hout⟩, htake, hle, htext⟩
    refine ⟨channel, d.loaded env, (mem_validLoaded hr).2 ⟨d, hd, hv, rfl⟩, (hhas d).2 hh, ?_⟩
    rw [send_mem_delivery, hulid, takes_loaded, article_loaded]
    exact ⟨⟨rfl, hu, hout⟩, htake, hle, htext⟩

theorem mem_sentBy : s ∈ sentBy jobId es ↔
    s.jobId = jobId ∧ .send s.channel s.ulid s.index s.text .ok ∈ es := by
  rw [sentBy, List.mem_filterMap]
  constructor
  · rintro ⟨e, he, hs⟩
    cases e with
    | queue => cases hs
    | lock => cases hs
    | send channel ulid k text outcome =>
      cases outcome with
      | ok =>
        cases hs
        exact ⟨rfl, he⟩
      | permanent => cases hs
      | transient => cases hs
  · rintro ⟨hj, he⟩
    exact ⟨_, he, by rw [← hj]; rfl⟩

/-- The run goes on to the pipeline, the channel takes the article as the run reads it, and the
run's job has sent nothing of it to the channel before. -/
def Reposts (env : Env) (args : Args) (db : Db) (d : Detail) (channel : Channel) : Prop :=
  Opens args db ∧ (0 < env.lag .allArticles ∨ channel.passes d.publishStatus = false) ∧
    sentBefore env db.items channel d.ulid = 0

/-- What is delivered begins with its link. -/
theorem link_sent (h : Delivered cfg channel a (sentBy env.jobId es)) :
    .send channel a.ulid 0 (link a) .ok ∈ es := by
  obtain ⟨t, ht⟩ := h
  obtain ⟨s, hs, hc, hu, hk, htext⟩ := ht.sent 0 (link a) (Nat.succ_pos _) rfl
  have hmem := (mem_sentBy.1 hs).2
  rw [hc, hu, hk, htext] at hmem
  exact hmem

theorem delivered_iff (hr : args.reset = true)
    (h : ∀ channel ulid n, env.telegram channel ulid n = .ok)
    (ht : AllTranslated cfg env args db) (hd : d ∈ db.batch.details)
    (hv : isValid d.article = true) (hh : d.Has cfg channel) :
    Delivered cfg channel d.article (sentBy env.jobId (run cfg env args db).1) ↔
      Reposts env args db d channel := by
  constructor
  · intro hdel
    have hlink := link_sent hdel
    have ho : Opens args db := by
      by_contra hclosed
      exact send_not_mem_closed hclosed hlink
    obtain ⟨d', hd', _, _, ⟨hu, _⟩, htake, hle, _⟩ := (send_mem_run ho hr h ht).1 hlink
    have he : d = d' := List.inj_on_of_nodup_map db.batch.unique hd hd' hu
    rw [← he] at htake hle
    exact ⟨ho, htake, Nat.le_zero.1 hle⟩
  · rintro ⟨ho, htake, hzero⟩
    refine ⟨delivered cfg env args db d, Nat.le_refl _, ?_⟩
    intro k text _ htext
    have hmem : .send channel d.ulid k text .ok ∈ (run cfg env args db).1 :=
      (send_mem_run ho hr h ht).2 ⟨d, hd, hv, hh, ⟨rfl, rfl⟩, htake, hzero ▸ Nat.zero_le k, htext⟩
    exact ⟨⟨env.jobId, channel, d.ulid, k, text⟩, mem_sentBy.2 ⟨rfl, hmem⟩, rfl, rfl, rfl, rfl⟩

/-- The statement leaves no article pending that is not. -/
def Write.Advances (w : Write) : Prop :=
  ∀ d : Detail, d.publishStatus ≠ .pending → (w.onDetail d).publishStatus ≠ .pending

theorem advances_setDetail (hs : status ≠ .pending) : (Write.setDetail ulid status texts).Advances := by
  intro d hd
  rw [Write.onDetail]
  split
  next => exact hs
  next => exact hd

theorem advances_quiet (h : Write.Quiet skipped articles w) : w.Advances := by
  cases h with
  | skip => exact advances_setDetail PublishStatus.noConfusion
  | translate _ hs =>
    apply advances_setDetail
    rcases hs with hs | hs <;> rw [hs] <;> exact PublishStatus.noConfusion
  | add => exact fun _ hd => hd
  | update => exact fun _ hd => hd

theorem published_ne (channel : Channel) : channel.published ≠ .pending := by
  cases channel <;> decide

theorem write_sendAll (he : .queue w ∈ sendAll env channel ulid m texts n) : w.Advances := by
  induction texts generalizing n with
  | nil => exact absurd he List.not_mem_nil
  | cons text texts ih =>
    rcases List.mem_cons.1 he with he | he
    · cases he
    · rcases List.mem_append.1 he with he | he
      · obtain ⟨_, _, he⟩ := mem_updateItem he
        cases he
        exact fun _ hd => hd
      · exact ih he

theorem advances_delivery (he : .queue w ∈ delivery cfg env db channel t d) : w.Advances := by
  rw [delivery] at he
  split at he
  next => exact absurd he List.not_mem_nil
  next =>
    rcases List.mem_append.1 he with he | he
    · rcases List.mem_append.1 he with he | he
      · obtain ⟨_, _, he⟩ := mem_addItem he
        cases he
        exact fun _ hd => hd
      · exact write_sendAll he
    · rcases List.mem_cons.1 he with he | he
      · cases he
        exact advances_setDetail (published_ne channel)
      · obtain ⟨_, _, he⟩ := mem_updateItem he
        cases he
        exact fun _ hd => hd

/-- A delivery is followed by the new status of the article. -/
theorem record_mem_delivery
    (he : .send channel' ulid k text outcome ∈ delivery cfg env db channel t d) :
    .queue (.setDetail ulid channel.published none) ∈ delivery cfg env db channel t d := by
  obtain ⟨⟨_, hu, _⟩, hp, _⟩ := (send_mem_delivery t d).1 he
  rw [delivery, if_neg (Bool.eq_false_iff.1 hp), hu]
  exact List.mem_append_right _ List.mem_cons_self

/-- Of an article that the run has sent the new status is the last. -/
theorem settled_run (hr : args.reset = true)
    (h : ∀ channel ulid n, env.telegram channel ulid n = .ok)
    (ht : AllTranslated cfg env args db)
    (hsend : .send channel ulid k text outcome ∈ (run cfg env args db).1)
    (hd : d' ∈ (drained db (run cfg env args db).1).batch.details) (hu : d'.ulid = ulid) :
    d'.publishStatus ≠ .pending := by
  have ho : Opens args db := by
    by_contra hclosed
    exact send_not_mem_closed hclosed hsend
  obtain ⟨last, he, hlast⟩ := run_opens ho h ht
  obtain ⟨new, heq, hnew⟩ :=
    quiet_prepare cfg env db (resumes db) args.reset (resetEffects args ++ [.lock])
  have hes : (run cfg env args db).1 = .queue .resetDetails :: .lock :: (new ++
      posts cfg env db (prepared cfg env args db).translated (validLoaded env args db) ++ last) := by
    rw [he, prepared, heq, resetEffects, hr]
    simp only [if_true, List.append_assoc, List.cons_append, List.nil_append]
  have hposted : .queue (.setDetail ulid channel.published none) ∈
      posts cfg env db (prepared cfg env args db).translated (validLoaded env args db) := by
    have hmem : .send channel ulid k text outcome ∈
        posts cfg env db (prepared cfg env args db).translated (validLoaded env args db) := by
      rw [hes] at hsend
      simp only [List.mem_cons, reduceCtorEq, false_or, List.mem_append] at hsend
      rcases hsend with (hmem | hmem) | hmem
      · obtain ⟨w, hw, _⟩ := hnew _ hmem
        cases hw
      · exact hmem
      · obtain ⟨status, hs⟩ := hlast _ hmem
        cases hs
    obtain ⟨channel', d, hd, hh, hmem⟩ := mem_posts.1 hmem
    have hc : channel = channel' := ((send_mem_delivery _ d).1 hmem).1.1
    rw [hc]
    exact mem_posts.2 ⟨channel', d, hd, hh, record_mem_delivery hmem⟩
  rw [drained, details_view, List.take_length, hes] at hd
  obtain ⟨d, _, hafter⟩ := List.mem_map.1 hd
  rw [← hafter]
  have hulid (ws : List Write) : ((Write.onDetail d .resetDetails).after ws).ulid = ulid := by
    rw [← hu, ← hafter]
    exact congrArg Article.ulid ((article_after _ ws).trans (article_after d _).symm)
  change ((Write.onDetail d .resetDetails).after (queued (new ++
    posts cfg env db (prepared cfg env args db).translated (validLoaded env args db) ++
      last))).publishStatus ≠ .pending
  apply after_since (P := fun d => d.publishStatus ≠ .pending)
    (w := .setDetail ulid channel.published none)
  · intro w hw
    obtain ⟨e, hmem, hw⟩ := List.mem_filterMap.1 hw
    have hq : e = .queue w := by
      cases e with
      | queue w' =>
        cases hw
        rfl
      | lock => cases hw
      | send => cases hw
    rw [hq] at hmem
    rcases List.mem_append.1 hmem with hmem | hmem
    · rcases List.mem_append.1 hmem with hmem | hmem
      · obtain ⟨w', hw', hquiet⟩ := hnew _ hmem
        cases hw'
        exact advances_quiet hquiet
      · obtain ⟨_, _, _, _, hmem⟩ := mem_posts.1 hmem
        exact advances_delivery hmem
    · obtain ⟨status, hs⟩ := hlast _ hmem
      cases hs
      exact fun _ hd => hd
  · exact List.mem_filterMap.2
      ⟨_, List.mem_append_left _ (List.mem_append_right _ hposted), rfl⟩
  · intro ws
    rw [Write.onDetail, if_pos (hulid ws)]
    exact published_ne channel

/-- Every valid article is delivered again to its channels, and what the run has delivered is not
left pending. -/
structure Redelivered (cfg : Config) (env : Env) (args : Args) (db : Db) : Prop where
  again : ∀ d ∈ db.batch.details, isValid d.article = true → ∀ channel, d.Has cfg channel →
    Delivered cfg channel d.article (sentBy env.jobId (run cfg env args db).1)
  settled : ∀ d ∈ db.batch.details, ∀ channel,
    Delivered cfg channel d.article (sentBy env.jobId (run cfg env args db).1) →
      ∀ d' ∈ (drained db (run cfg env args db).1).batch.details, d'.ulid = d.ulid →
        d'.publishStatus ≠ .pending

/-- A reset delivers again the articles of which it is committed before they are read, or which
were not published, and of which the job has sent nothing yet. -/
theorem redelivered_iff (hr : args.reset = true)
    (h : ∀ channel ulid n, env.telegram channel ulid n = .ok)
    (ht : AllTranslated cfg env args db) :
    Redelivered cfg env args db ↔ ∀ d ∈ db.batch.details, isValid d.article = true →
      ∀ channel, d.Has cfg channel → Reposts env args db d channel := by
  constructor
  · intro hall d hd hv channel hh
    exact (delivered_iff hr h ht hd hv hh).1 (hall.again d hd hv channel hh)
  · intro hall
    refine ⟨fun d hd hv channel hh => (delivered_iff hr h ht hd hv hh).2 (hall d hd hv channel hh),
      ?_⟩
    intro d _ channel hdel d' hd' hu
    exact settled_run hr h ht (link_sent hdel) hd' hu

end

/-- A run of a new job that resets a published batch, with its first statement committed at once. -/
def resetRun (lag : Nat) : Env := { plainEnv "j2" with lag := fun _ => lag }

theorem translated_resetRun (lag : Nat) (hlag : lag = 0 ∨ lag = 1) :
    AllTranslated plainConfig (resetRun lag) { reset := true }
      (oneArticle .completed .publishedArchive) := by
  intro _ d hd
  have hall : ∀ lag ∈ [0, 1], ∀ d ∈ validLoaded (resetRun lag) { reset := true }
      (oneArticle .completed .publishedArchive), ((prepared plainConfig (resetRun lag)
        { reset := true } (oneArticle .completed .publishedArchive)).translated d.ulid).isSome =
          true := by decide
  have hsome := hall lag (by rcases hlag with h | h <;> rw [h] <;> decide) d hd
  intro hnone
  rw [hnone] at hsome
  cases hsome

theorem redelivered_resetRun : Redelivered plainConfig (resetRun 1) { reset := true }
    (oneArticle .completed .publishedArchive) := by
  have hiff : Redelivered plainConfig (resetRun 1) { reset := true }
      (oneArticle .completed .publishedArchive) ↔ _ :=
    redelivered_iff rfl (fun _ _ _ => rfl) (translated_resetRun 1 (.inr rfl))
  rw [hiff]
  intro d _ _ channel _
  exact ⟨⟨⟨rfl, rfl⟩, rfl⟩, .inl Nat.one_pos, rfl⟩

/-- An article that is read before the reset is committed is passed over, and pending afterwards. -/
theorem reset_passes_over : ¬ ∀ (cfg : Config) (env : Env) (args : Args) (db : Db),
    args.reset = true → (∀ channel ulid n, env.telegram channel ulid n = .ok) →
    AllTranslated cfg env args db → Redelivered cfg env args db := by
  intro h
  have hall := h plainConfig (resetRun 0) { reset := true } (oneArticle .completed .publishedArchive)
    rfl (fun _ _ _ => rfl) (translated_resetRun 0 (.inl rfl))
  have hlink := link_sent (hall.again _ List.mem_cons_self rfl .archive ⟨rfl, rfl, .inl rfl⟩)
  have hmem : ⟨some "j2", .archive, "a1", 0, "https://example.org/a"⟩ ∈ sentBy (some "j2")
      (run plainConfig (resetRun 0) { reset := true }
        (oneArticle .completed .publishedArchive)).1 := mem_sentBy.2 ⟨rfl, hlink⟩
  have hnone : sentBy (some "j2") (run plainConfig (resetRun 0) { reset := true }
      (oneArticle .completed .publishedArchive)).1 = [] := by decide
  rw [hnone] at hmem
  cases hmem

end Publisher
