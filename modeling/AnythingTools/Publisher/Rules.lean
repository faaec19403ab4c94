import AnythingTools.Publisher.Run

namespace Publisher
open JobItems
set_option autoImplicit true

variable {cfg : Config} {env : Env} {articles : List Detail}

/-! ### The translator -/

/-- Articles that are still to be translated: each once, and none of them translated yet. -/
structure Waiting (articles : List Detail) (translated : String → Option Translation)
    (ds : List Detail) : Prop where
  known : ∀ d ∈ ds, d ∈ articles
  without : ∀ d ∈ ds, translated d.ulid = none
  apart : (ds.map Detail.ulid).Nodup

theorem Waiting.sublist (h : Waiting articles translated ds) (hs : ds'.Sublist ds) :
    Waiting articles translated ds' where
  known d hd := h.known d (hs.subset hd)
  without d hd := h.without d (hs.subset hd)
  apart := (hs.map Detail.ulid).nodup h.apart

theorem Waiting.perm (h : Waiting articles translated ds) (hp : ds'.Perm ds) :
    Waiting articles translated ds' where
  known d hd := h.known d (hp.mem_iff.1 hd)
  without d hd := h.without d (hp.mem_iff.1 hd)
  apart := (hp.map Detail.ulid).nodup_iff.2 h.apart

/-- A translation of the first article is none of the others. -/
theorem Waiting.translate (h : Waiting articles translated (d :: ds)) (t : Translation) :
    Waiting articles (Function.update translated d.ulid (some t)) ds where
  known d' hd := h.known d' (List.mem_cons_of_mem d hd)
  without d' hd := by
    have hne : d'.ulid ≠ d.ulid := by
      intro he
      have hn := h.apart
      rw [List.map_cons, List.nodup_cons, ← he] at hn
      exact hn.1 (List.mem_map_of_mem hd)
    rw [Function.update_of_ne hne]
    exact h.without d' (List.mem_cons_of_mem d hd)
  apart := by
    have hn := h.apart
    rw [List.map_cons, List.nodup_cons] at hn
    exact hn.2

theorem takeBatch_sublist (cfg : Config) (env : Env) (retries : String → Nat) (room : Nat)
    (queue : List Detail) : ((takeBatch cfg env retries room queue).1 ++
      (takeBatch cfg env retries room queue).2.1).Sublist queue := by
  induction queue generalizing room with
  | nil => cases room <;> exact List.Sublist.refl _
  | cons d queue ih =>
    cases room with
    | zero => exact List.Sublist.refl _
    | succ room =>
      rw [takeBatch]
      split
      next => exact (ih (room + 1)).cons d
      next => exact (ih room).cons_cons d

section Translator
variable {I : (String → Option Translation) → List Effect → Prop}
  (hfail : ∀ translated es d retry, d ∈ articles → translated d.ulid = none → I translated es →
    I translated (es ++ recordFailure cfg env d retry))
  (hok : ∀ translated es d retry t, d ∈ articles → translated d.ulid = none → I translated es →
    I (Function.update translated d.ulid (some t)) (es ++ recordTranslation cfg env d retry t))
include hfail

theorem takeBatch_inv (retries : String → Nat) (room : Nat)
    (hw : Waiting articles translated queue) (h : I translated es) :
    I translated (es ++ (takeBatch cfg env retries room queue).2.2) := by
  induction queue generalizing room es with
  | nil =>
    rw [takeBatch, List.append_nil]
    exact h
  | cons d queue ih =>
    have hrest := hw.sublist (List.sublist_cons_self d queue)
    cases room with
    | zero =>
      change I translated (es ++ [])
      rw [List.append_nil]
      exact h
    | succ room =>
      rw [takeBatch]
      split
      next =>
        have hrec := hfail translated es d (retries d.ulid) (hw.known d List.mem_cons_self)
          (hw.without d List.mem_cons_self) h
        rw [← List.append_assoc]
        exact ih (room + 1) hrest hrec
      next => exact ih room hrest h

include hok

theorem translateOne_inv (iteration : Nat)
    (hw : Waiting articles st.translated (d :: (batch ++ st.queue)))
    (h : I st.translated st.effects) :
    Waiting articles (translateOne cfg env iteration st d).translated
        (batch ++ (translateOne cfg env iteration st d).queue) ∧
      I (translateOne cfg env iteration st d).translated
        (translateOne cfg env iteration st d).effects := by
  have hd := hw.known d List.mem_cons_self
  have hnone := hw.without d List.mem_cons_self
  rw [translateOne]
  split
  next t _ => exact ⟨hw.translate t, hok _ _ d _ t hd hnone h⟩
  next =>
    dsimp only
    split
    next => exact ⟨hw.sublist (List.sublist_cons_self _ _), hfail _ _ d _ hd hnone h⟩
    next =>
      refine ⟨hw.perm ?_, h⟩
      rw [← List.append_assoc]
      exact List.perm_append_singleton d (batch ++ st.queue)

theorem translateBatch_inv (iteration : Nat) (st : Translator) (batch : List Detail)
    (hw : Waiting articles st.translated (batch ++ st.queue)) (h : I st.translated st.effects) :
    Waiting articles (batch.foldl (translateOne cfg env iteration) st).translated
        (batch.foldl (translateOne cfg env iteration) st).queue ∧
      I (batch.foldl (translateOne cfg env iteration) st).translated
        (batch.foldl (translateOne cfg env iteration) st).effects := by
  induction batch generalizing st with
  | nil => exact ⟨hw, h⟩
  | cons d batch ih =>
    obtain ⟨hw', h'⟩ := translateOne_inv hfail hok iteration hw h
    exact ih _ hw' h'

theorem translateRounds_inv (limit iteration : Nat) (hw : Waiting articles st.translated st.queue)
    (h : I st.translated st.effects) :
    I (translateRounds cfg env limit iteration st).translated
      (translateRounds cfg env limit iteration st).effects := by
  induction limit generalizing iteration st with
  | zero => exact h
  | succ limit ih =>
    rw [translateRounds]
    split
    next => exact h
    next =>
      have htake := takeBatch_inv hfail st.retries batchSize hw h
      have hsub := hw.sublist (takeBatch_sublist cfg env st.retries batchSize st.queue)
      obtain ⟨hw', h'⟩ := translateBatch_inv hfail hok (iteration + 1)
        { st with
          queue := (takeBatch cfg env st.retries batchSize st.queue).2.1
          effects := st.effects ++ (takeBatch cfg env st.retries batchSize st.queue).2.2 }
        (takeBatch cfg env st.retries batchSize st.queue).1 hsub htake
      exact ih (iteration + 1) hw' h'

/-- What every record of the translator keeps, the translator keeps. -/
theorem translateAll_inv (db : Db) (hn : (articles.map Detail.ulid).Nodup)
    (h : I (loadCached env db articles es) es) :
    I (translateAll cfg env db articles es).translated
      (translateAll cfg env db articles es).effects := by
  apply translateRounds_inv hfail hok
  · constructor
    · intro d hd
      exact (List.mem_filter.1 hd).1
    · intro d hd
      exact Option.isNone_iff_eq_none.1 (List.mem_filter.1 hd).2
    · exact (List.filter_sublist.map Detail.ulid).nodup hn
  · exact h

end Translator

/-! ### The channels -/

section Channels
variable {db : Db} {channel : Channel}

/-- What a message with the record of its progress keeps, the messages of an article keep: all
arrive, or one is refused, or one raises. -/
theorem sendMessages_inv {I : Nat → List Effect → Prop} {m : Metadata} {ulid : String}
    {texts : List String}
    (hok : ∀ k text es, texts[k]? = some text → env.telegram channel ulid (n + k) = .ok →
      I (n + k) es → I (n + k + 1) (es ++ .send channel ulid (n + k) text .ok ::
        updateItem env m .running (.chunksSent (n + k + 1))))
    (h : I n es) :
    ∃ k new, I (n + k) (es ++ new) ∧
      ((sendMessages env channel ulid m texts n = (new, .sent (n + k)) ∧ k = texts.length) ∨
      ∃ text, texts[k]? = some text ∧
        (sendMessages env channel ulid m texts n =
            (new ++ [.send channel ulid (n + k) text .permanent], .refused (n + k)) ∨
          sendMessages env channel ulid m texts n =
            (new ++ [.send channel ulid (n + k) text .transient], .raised))) := by
  induction texts generalizing n es with
  | nil => exact ⟨0, [], by rwa [List.append_nil], .inl ⟨rfl, rfl⟩⟩
  | cons text texts ih =>
    rw [sendMessages]
    cases ht : env.telegram channel ulid n with
    | ok =>
      have hfirst := hok 0 text es rfl ht h
      have hlater : ∀ k text' es, texts[k]? = some text' →
          env.telegram channel ulid (n + 1 + k) = .ok → I (n + 1 + k) es →
          I (n + 1 + k + 1) (es ++ .send channel ulid (n + 1 + k) text' .ok ::
            updateItem env m .running (.chunksSent (n + 1 + k + 1))) := by
        intro k text' es hk
        have := hok (k + 1) text' es hk
        rwa [Nat.add_comm k 1, ← Nat.add_assoc] at this
      obtain ⟨k, new, hI, hend⟩ := ih hlater hfirst
      refine ⟨k + 1, .send channel ulid n text .ok ::
        (updateItem env m .running (.chunksSent (n + 1)) ++ new), ?_, ?_⟩
      · rw [Nat.add_comm k 1, ← Nat.add_assoc]
        simpa only [List.append_assoc, List.cons_append, Nat.add_zero] using hI
      · rw [Nat.add_comm k 1, ← Nat.add_assoc, Nat.add_comm 1 k]
        rcases hend with ⟨he, hk⟩ | ⟨text', hk, he | he⟩
        · exact .inl ⟨by rw [he], by rw [hk, List.length_cons]⟩
        · exact .inr ⟨text', hk, .inl (by rw [he]; simp only [List.append_assoc, List.cons_append])⟩
        · exact .inr ⟨text', hk, .inr (by rw [he]; simp only [List.append_assoc, List.cons_append])⟩
    | permanent =>
      exact ⟨0, [], by rwa [List.append_nil], .inr ⟨text, rfl, .inl rfl⟩⟩
    | transient =>
      exact ⟨0, [], by rwa [List.append_nil], .inr ⟨text, rfl, .inr rfl⟩⟩

/-- What the delivery of each article keeps, the loop keeps, unless it stops at an article that
raises. -/
theorem publishArticles_inv (cfg : Config) (env : Env) (db : Db) (channel : Channel)
    (translated : String → Option Translation) {J : List Detail → List Effect → Prop}
    {K : List Effect → Prop}
    (hskip : ∀ d ds es, translated d.ulid = none → J (d :: ds) es → J ds es)
    (hstep : ∀ d ds t es, translated d.ulid = some t → J (d :: ds) es →
      (publishArticle cfg env db channel t d es).2 = false →
      J ds (publishArticle cfg env db channel t d es).1)
    (hraise : ∀ d ds t es, translated d.ulid = some t → J (d :: ds) es →
      (publishArticle cfg env db channel t d es).2 = true →
      K (publishArticle cfg env db channel t d es).1)
    (ds : List Detail) (h : J ds es) :
    ((publishArticles cfg env db channel translated ds es).2 = false →
      J [] (publishArticles cfg env db channel translated ds es).1) ∧
    ((publishArticles cfg env db channel translated ds es).2 = true →
      K (publishArticles cfg env db channel translated ds es).1) := by
  induction ds generalizing es with
  | nil => exact ⟨fun _ => h, Bool.noConfusion⟩
  | cons d ds ih =>
    rw [publishArticles]
    cases ht : translated d.ulid with
    | none => exact ih (hskip d ds es ht h)
    | some t =>
      have hJ := hstep d ds t es ht h
      have hK := hraise d ds t es ht h
      dsimp only
      cases hp : publishArticle cfg env db channel t d es with
      | mk es' raised =>
        rw [hp] at hJ hK
        cases raised with
        | true => exact ⟨Bool.noConfusion, fun _ => hK rfl⟩
        | false => exact ih (hJ rfl)

/-- An article that the channel passes over changes nothing; else the messages are sent, and the
article is recorded unless a transient error is raised. -/
theorem publishArticle_cases (cfg : Config) (env : Env) (db : Db) (channel : Channel)
    (t : Translation) (d : Detail) (es : List Effect) :
    (channel.passes d.publishStatus = true ∧
      publishArticle cfg env db channel t d es = (es, false)) ∨
    (channel.passes d.publishStatus = false ∧
      ∃ m es₁ n, m = publishMeta env channel d ∧ es₁ = es ++ addItem env m ∧
        n = progressOf env db channel d es₁ ∧
        ((∃ new k, sendMessages env channel d.ulid m ((messages cfg channel d.article t).drop n) n =
            (new, .sent k) ∧ publishArticle cfg env db channel t d es =
              (es₁ ++ new ++ .queue (.setDetail d.ulid channel.published none) ::
                updateItem env m .completed (.chunksSent k), false)) ∨
        (∃ new k, sendMessages env channel d.ulid m ((messages cfg channel d.article t).drop n) n =
            (new, .refused k) ∧ publishArticle cfg env db channel t d es =
              (es₁ ++ new ++ .queue (.setDetail d.ulid .failed none) ::
                updateItem env m .failed (.chunksSent k), false)) ∨
        (∃ new, sendMessages env channel d.ulid m ((messages cfg channel d.article t).drop n) n =
            (new, .raised) ∧ publishArticle cfg env db channel t d es = (es₁ ++ new, true)))) := by
  rw [publishArticle]
  split
  next h => exact .inl ⟨h, rfl⟩
  next h =>
    refine .inr ⟨Bool.eq_false_iff.2 h, _, _, _, rfl, rfl, rfl, ?_⟩
    dsimp only
    split
    next new k hs => exact .inl ⟨new, k, hs, rfl⟩
    next new k hs => exact .inr (.inl ⟨new, k, hs, rfl⟩)
    next new hs => exact .inr (.inr ⟨new, hs, rfl⟩)

/-- What a pipeline does after the validation: messages and changes of its articles, and items. -/
def Effect.about (articles : List Detail) : Effect → Prop
  | .queue (.setDetail ulid _ _) => ∃ d ∈ articles, d.ulid = ulid
  | .queue (.item _) => True
  | .send _ ulid _ _ _ => ∃ d ∈ articles, d.ulid = ulid
  | _ => False

/-- More effects, all about the articles. -/
def Extends (articles : List Detail) (es es' : List Effect) : Prop :=
  ∃ new, es' = es ++ new ∧ ∀ e ∈ new, e.about articles

theorem Extends.refl (articles : List Detail) (es : List Effect) : Extends articles es es :=
  ⟨[], (List.append_nil es).symm, fun _ he => absurd he List.not_mem_nil⟩

theorem Extends.append (h : Extends articles es es') (hnew : ∀ e ∈ new, e.about articles) :
    Extends articles es (es' ++ new) := by
  obtain ⟨new', he, hall⟩ := h
  refine ⟨new' ++ new, by rw [he, List.append_assoc], ?_⟩
  intro e hm
  rcases List.mem_append.1 hm with hm | hm
  · exact hall e hm
  · exact hnew e hm

theorem Extends.isPrefix (h : Extends articles es es') : es <+: es' := by
  obtain ⟨new, he, _⟩ := h
  rw [he]
  exact List.prefix_append es new

theorem about_addItem (env : Env) (m : Metadata) : ∀ e ∈ addItem env m, e.about articles := by
  intro e he
  obtain ⟨_, _, he⟩ := List.mem_map.1 he
  rw [← he]
  trivial

theorem about_updateItem (env : Env) (m : Metadata) (status : ItemStatus) (output : Output) :
    ∀ e ∈ updateItem env m status output, e.about articles := by
  intro e he
  obtain ⟨_, _, he⟩ := List.mem_map.1 he
  rw [← he]
  trivial

theorem about_record (hd : d ∈ articles) (m : Metadata) (status : PublishStatus)
    (translated : Option Translation) (itemStatus : ItemStatus) (output : Output) :
    ∀ e ∈ (.queue (.setDetail d.ulid status translated) : Effect) ::
      (addItem env m ++ updateItem env m itemStatus output), e.about articles := by
  intro e he
  rcases List.mem_cons.1 he with he | he
  · rw [he]
    exact ⟨d, hd, rfl⟩
  · rcases List.mem_append.1 he with he | he
    · exact about_addItem env m e he
    · exact about_updateItem env m itemStatus output e he

theorem about_sendMessages (hd : d ∈ articles) (m : Metadata) (texts : List String) (n : Nat) :
    ∀ e ∈ (sendMessages env channel d.ulid m texts n).1, e.about articles := by
  induction texts generalizing n with
  | nil => exact fun _ he => absurd he List.not_mem_nil
  | cons text texts ih =>
    rw [sendMessages]
    intro e he
    split at he
    next =>
      rcases List.mem_cons.1 he with he | he
      · rw [he]
        exact ⟨d, hd, rfl⟩
      · rcases List.mem_append.1 he with he | he
        · exact about_updateItem env m _ _ e he
        · exact ih (n + 1) e he
    next =>
      rw [List.mem_singleton.1 he]
      exact ⟨d, hd, rfl⟩
    next =>
      rw [List.mem_singleton.1 he]
      exact ⟨d, hd, rfl⟩

theorem extends_publishArticle (hd : d ∈ articles) (t : Translation)
    (h : Extends articles es₀ es) :
    Extends articles es₀ (publishArticle cfg env db channel t d es).1 := by
  have hend (status : PublishStatus) (m : Metadata) (itemStatus : ItemStatus) (k : Nat) :
      ∀ e ∈ (.queue (.setDetail d.ulid status none) : Effect) ::
        updateItem env m itemStatus (.chunksSent k), e.about articles := by
    intro e he
    rcases List.mem_cons.1 he with he | he
    · rw [he]
      exact ⟨d, hd, rfl⟩
    · exact about_updateItem env m _ _ e he
  rcases publishArticle_cases cfg env db channel t d es with
    ⟨_, he⟩ | ⟨_, m, es₁, n, _, h₁, _, hsent⟩
  · rw [he]
    exact h
  · have hfirst : Extends articles es₀ es₁ := by
      rw [h₁]
      exact h.append (about_addItem env m)
    have hnew (new : List Effect) (ending : Delivery)
        (hs : sendMessages env channel d.ulid m ((messages cfg channel d.article t).drop n) n =
          (new, ending)) : Extends articles es₀ (es₁ ++ new) := by
      apply hfirst.append
      have hall : ∀ e ∈ (new, ending).1, e.about articles := by
        rw [← hs]
        exact about_sendMessages hd m _ n
      exact hall
    rcases hsent with ⟨new, k, hs, he⟩ | ⟨new, k, hs, he⟩ | ⟨new, hs, he⟩
    · rw [he]
      exact (hnew new _ hs).append (hend _ m _ k)
    · rw [he]
      exact (hnew new _ hs).append (hend _ m _ k)
    · rw [he]
      exact hnew new _ hs

theorem prefix_publishArticle (cfg : Config) (env : Env) (db : Db) (channel : Channel)
    (t : Translation) (d : Detail) (es : List Effect) :
    es <+: (publishArticle cfg env db channel t d es).1 :=
  (extends_publishArticle (List.mem_singleton_self d) t (Extends.refl [d] es)).isPrefix

theorem extends_publishChannel (db : Db) (channel : Channel)
    (translated : String → Option Translation) (h : Extends articles es₀ es) :
    Extends articles es₀ (publishChannel cfg env db channel translated articles es).1 := by
  rw [publishChannel]
  split
  next =>
    have hloop := publishArticles_inv cfg env db channel translated (K := Extends articles es₀)
      (J := fun ds es => (∀ d ∈ ds, d ∈ articles) ∧ Extends articles es₀ es)
      (fun d ds es _ hJ => ⟨fun d' hd' => hJ.1 d' (List.mem_cons_of_mem d hd'), hJ.2⟩)
      (fun d ds t es _ hJ _ => ⟨fun d' hd' => hJ.1 d' (List.mem_cons_of_mem d hd'),
        extends_publishArticle (hJ.1 d List.mem_cons_self) t hJ.2⟩)
      (fun d ds t es _ hJ _ => extends_publishArticle (hJ.1 d List.mem_cons_self) t hJ.2)
      (articles.filter fun d => decide (channel = .archive) || d.isTop10)
      ⟨fun d hd => (List.mem_filter.1 hd).1, h⟩
    cases hr : (publishArticles cfg env db channel translated
        (articles.filter fun d => decide (channel = .archive) || d.isTop10) es).2 with
    | false => exact (hloop.1 hr).2
    | true => exact hloop.2 hr
  next => exact h

theorem extends_deliver (cfg : Config) (env : Env) (db : Db)
    (translated : String → Option Translation) (articles : List Detail) (es : List Effect) :
    Extends articles es (deliver cfg env db translated articles es).1 := by
  rw [deliver]
  split
  next =>
    have hbriefing : Extends articles es
        (publishChannel cfg env db .briefing translated articles es).1 :=
      extends_publishChannel db .briefing translated (Extends.refl articles es)
    split
    next es' h =>
      rw [h] at hbriefing
      exact hbriefing
    next es' h =>
      rw [h] at hbriefing
      exact extends_publishChannel db .archive translated hbriefing
  next => exact Extends.refl articles es

theorem extends_translateAll (db : Db) (hn : (articles.map Detail.ulid).Nodup)
    (es : List Effect) : Extends articles es (translateAll cfg env db articles es).effects :=
  translateAll_inv (I := fun _ es' => Extends articles es es')
    (fun _ _ _ _ hd _ h => h.append (about_record hd _ _ _ _ _))
    (fun _ _ _ _ _ hd _ h => h.append (about_record hd _ _ _ _ _)) db hn
    (Extends.refl articles es)

end Channels

/-! ### The pipeline -/

section Pipeline
variable {db : Db}

theorem nodup_sorted (h : (details.map Detail.ulid).Nodup) :
    ((sorted details).map Detail.ulid).Nodup :=
  ((List.perm_insertionSort (fun a b : Detail => a.before b = true) details).map
    Detail.ulid).nodup_iff.2 h

theorem nodup_pendingArticles (env : Env) (db : Db) (resume reset : Bool) (es : List Effect) :
    ((pendingArticles env db resume reset es).map Detail.ulid).Nodup := by
  rw [pendingArticles]
  split
  next => exact nodup_sorted ((List.filter_sublist.map Detail.ulid).nodup (Batch.unique _))
  next => exact nodup_sorted (Batch.unique _)

theorem nodup_valid (env : Env) (db : Db) (resume reset : Bool) (es : List Effect) :
    ((validArticles env db resume reset es).map Detail.ulid).Nodup :=
  (List.filter_sublist.map Detail.ulid).nodup (nodup_pendingArticles env db resume reset es)

theorem extends_prepare (cfg : Config) (env : Env) (db : Db) (resume reset : Bool)
    (es : List Effect) : Extends (validArticles env db resume reset es)
      (es ++ skipInvalid env (invalidArticles env db resume reset es))
      (prepare cfg env db resume reset es).effects :=
  extends_translateAll db (nodup_valid env db resume reset es) _

/-- A transient error ends in `PARTIAL`, else the status is computed. -/
theorem runPipeline_cases (cfg : Config) (env : Env) (db : Db) (resume reset : Bool)
    (es : List Effect) :
    ∃ es' raised, deliver cfg env db (prepare cfg env db resume reset es).translated
        (validArticles env db resume reset es) (prepare cfg env db resume reset es).effects =
          (es', raised) ∧
      runPipeline cfg env db resume reset es =
        (es' ++ if raised then [.queue (.setBatchStatus .partialResult)]
          else setStatus db env es', raised) := by
  rw [runPipeline]
  split
  next es' h => exact ⟨es', true, h, rfl⟩
  next es' h => exact ⟨es', false, h, rfl⟩

/-- Between the validation and the last write there is nothing but messages, items and changes of
the valid articles. -/
theorem extends_pipeline (cfg : Config) (env : Env) (db : Db) (resume reset : Bool)
    (es : List Effect) : Extends (validArticles env db resume reset es)
      (es ++ skipInvalid env (invalidArticles env db resume reset es))
      (deliver cfg env db (prepare cfg env db resume reset es).translated
        (validArticles env db resume reset es) (prepare cfg env db resume reset es).effects).1 := by
  obtain ⟨new, he, hall⟩ := extends_prepare cfg env db resume reset es
  obtain ⟨new', he', hall'⟩ := extends_deliver cfg env db
    (prepare cfg env db resume reset es).translated (validArticles env db resume reset es)
    (prepare cfg env db resume reset es).effects
  rw [he', he, List.append_assoc]
  refine ⟨new ++ new', rfl, ?_⟩
  intro e hm
  rcases List.mem_append.1 hm with hm | hm
  · exact hall e hm
  · exact hall' e hm

theorem prefix_runPipeline (cfg : Config) (env : Env) (db : Db) (resume reset : Bool)
    (es : List Effect) : es <+: (runPipeline cfg env db resume reset es).1 := by
  obtain ⟨es', raised, hdel, he⟩ := runPipeline_cases cfg env db resume reset es
  have hpre := (extends_pipeline cfg env db resume reset es).isPrefix
  rw [hdel] at hpre
  rw [he]
  exact (List.prefix_append es _).trans (hpre.trans (List.prefix_append es' _))

end Pipeline

end Publisher
