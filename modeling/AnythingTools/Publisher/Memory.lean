import AnythingTools.Publisher.Resume
import AnythingTools.Publisher.World

namespace Publisher
open JobItems
set_option autoImplicit true

/-! ### The cache of translations -/

/-- What the run has found in the cache is still there, and what is there the run works with. -/
structure Memory (found translated : String → Option Translation) (items : List (Item Output)) :
    Prop where
  kept : TranslationsKept items
  known : ∀ ulid t, cached items ulid = some t → translated ulid = some t
  still : ∀ ulid t, found ulid = some t → cached items ulid = some t

theorem memory_found (hk : TranslationsKept items) : Memory (cached items) (cached items) items where
  kept := hk
  known _ _ hc := hc
  still _ _ hc := hc

/-- More translations. -/
theorem Memory.translate (h : Memory found translated items)
    (ht : ∀ ulid t, translated ulid = some t → translated' ulid = some t) :
    Memory found translated' items where
  kept := h.kept
  known ulid t hc := ht _ _ (h.known ulid t hc)
  still := h.still

/-- A statement that leaves the cache. -/
theorem Memory.congr (h : Memory found translated items) (hk : TranslationsKept items')
    (hc : ∀ ulid, cached items' ulid = cached items ulid) : Memory found translated items' where
  kept := hk
  known ulid t hu := h.known ulid t (by rwa [hc] at hu)
  still ulid t hu := by
    rw [hc]
    exact h.still ulid t hu

theorem memory_add (h : Memory found translated items) (jobId : String) (m : Metadata)
    (now : String) : Memory found translated (commit items (.add jobId m now)) :=
  h.congr (kept_add h.kept jobId m now) fun ulid => cached_add items jobId m now ulid

/-- An update of another step. -/
theorem memory_update_ne (h : Memory found translated items)
    (hm : itemKey m = (.text stepType, .text ulid)) (hs : stepType ≠ "translate") (jobId : String)
    (status : ItemStatus) (output : Output) (now : String) :
    Memory found translated (commit items (.update jobId m status output now)) :=
  h.congr (kept_update hm h.kept jobId now fun he => absurd he hs) fun _ =>
    cached_update_ne hm items jobId status output now fun hne => hs hne.1.symm

/-- What fails to be translated changes nothing in the cache. -/
theorem cached_failed (hk : TranslationsKept items)
    (hm : itemKey m = (.text "translate", .text ulid)) (hnone : cached items ulid = none)
    (jobId : String) (output : Output) (now ulid' : String) :
    cached (commit items (.update jobId m .failed output now)) ulid' = cached items ulid' := by
  by_cases he : ulid' = ulid
  · rw [he, hnone]
    exact cached_update_failed hk jobId output now hnone
  · exact cached_update_ne hm items jobId .failed output now fun hne => he hne.2

theorem memory_update_failed (h : Memory found translated items)
    (hm : itemKey m = (.text "translate", .text ulid)) (hnone : cached items ulid = none)
    (jobId : String) (output : Output) (now : String) :
    Memory found translated (commit items (.update jobId m .failed output now)) :=
  h.congr (kept_update hm h.kept jobId now fun _ he => ItemStatus.noConfusion he)
    (cached_failed h.kept hm hnone jobId output now)

/-- The first translation of an article. -/
theorem memory_update_translated (h : Memory found translated items)
    (hm : itemKey m = (.text "translate", .text ulid)) (hnone : cached items ulid = none)
    (hrow : (progressRow items jobId "translate" ulid).isSome = true)
    (ht : translated ulid = some t) (now : String) :
    Memory found translated
      (commit items (.update jobId m .completed (.translation t) now)) := by
  have hself := cached_update_translated (t := t) h.kept hm now hrow hnone
  have hother (ulid' : String) (hne : ulid' ≠ ulid) :
      cached (commit items (.update jobId m .completed (.translation t) now)) ulid' =
        cached items ulid' :=
    cached_update_ne hm items jobId .completed (.translation t) now fun h => hne h.2
  constructor
  · exact kept_update hm h.kept jobId now fun _ _ => ⟨t, rfl⟩
  · intro ulid' t' hc
    by_cases he : ulid' = ulid
    · rw [he, hself] at hc
      rw [he, ht]
      exact hc
    · rw [hother ulid' he] at hc
      exact h.known ulid' t' hc
  · intro ulid' t' hc
    have hold := h.still ulid' t' hc
    have hne : ulid' ≠ ulid := by
      intro he
      rw [he, hnone] at hold
      cases hold
    rw [hother ulid' hne]
    exact hold

/-! ### Records of items -/

section
variable {env : Env}

theorem mem_addItem (he : e ∈ addItem env m) :
    ∃ jobId, env.jobId = some jobId ∧ e = .queue (.item (.add jobId m env.now)) := by
  obtain ⟨jobId, hj, he⟩ := List.mem_map.1 he
  exact ⟨jobId, Option.mem_toList.1 hj, he.symm⟩

theorem mem_updateItem (he : e ∈ updateItem env m status output) : ∃ jobId,
    env.jobId = some jobId ∧ e = .queue (.item (.update jobId m status output env.now)) := by
  obtain ⟨jobId, hj, he⟩ := List.mem_map.1 he
  exact ⟨jobId, Option.mem_toList.1 hj, he.symm⟩

theorem addItem_some (hj : env.jobId = some jobId) (m : Metadata) :
    addItem env m = [.queue (.item (.add jobId m env.now))] := by
  rw [addItem, hj]
  rfl

theorem addItem_none (hj : env.jobId = none) (m : Metadata) : addItem env m = [] := by
  rw [addItem, hj]
  rfl

theorem updateItem_some (hj : env.jobId = some jobId) (m : Metadata) (status : ItemStatus)
    (output : Output) : updateItem env m status output =
      [.queue (.item (.update jobId m status output env.now))] := by
  rw [updateItem, hj]
  rfl

theorem updateItem_none (hj : env.jobId = none) (m : Metadata) (status : ItemStatus)
    (output : Output) : updateItem env m status output = [] := by
  rw [updateItem, hj]
  rfl

theorem cached_addItem (db : Db) (es : List Effect) (m : Metadata) (ulid : String) :
    cached (drained db (es ++ addItem env m)).items ulid = cached (drained db es).items ulid := by
  cases hj : env.jobId with
  | none => rw [addItem_none hj, List.append_nil]
  | some jobId =>
    rw [addItem_some hj, drained_queue]
    exact cached_add _ jobId m env.now ulid

end

/-! ### Before the translator -/

section
variable {cfg : Config} {env : Env} {args : Args} {w : World}

/-- The reset leaves the items. -/
theorem items_loaded (args : Args) (db : Db) (es : List Effect)
    (he : queued es = queued (resetEffects args)) (n : Nat) : (view db es n).items = db.items := by
  rw [items_view, he]
  rcases take_resetEffects args n with h | ⟨h, _⟩
  · rw [h]
    rfl
  · rw [h]
    rfl

theorem sentBy_reset (jobId : Option String) : sentBy jobId (resetEffects args) = [] := by
  rw [resetEffects]
  split
  next => rfl
  next => rfl

theorem sentBy_start (jobId : Option String) : sentBy jobId (resetEffects args ++ [.lock]) = [] := by
  rw [sentBy_append, sentBy_reset]
  rfl

/-- The cache is as the run has found it. -/
def AsFound (w : World) (db : Db) (_ : List Sent) : Prop :=
  TranslationsKept db.items ∧ ∀ ulid, cached db.items ulid = cached w.db.items ulid

theorem asFound_start (hk : TranslationsKept w.db.items) :
    Throughout (AsFound w) env.jobId w (resetEffects args ++ [.lock]) := by
  intro n
  rw [AsFound, items_loaded args w.db _ (queued_locked args) n]
  exact ⟨hk, fun _ => rfl⟩

/-- A statement of the validator, and one that skips an article. -/
theorem mem_skipInvalid (he : e ∈ skipInvalid env skipped) :
    (∃ d ∈ skipped, d.ulid ≠ "" ∧ e = .queue (.setDetail d.ulid .skipped none)) ∨
      ∃ jobId m ulid, itemKey m = (.text "validate", .text ulid) ∧
        (e = .queue (.item (.add jobId m env.now)) ∨
          e = .queue (.item (.update jobId m .failed .empty env.now))) := by
  rcases List.mem_append.1 he with he | he
  · obtain ⟨d, _, he⟩ := List.mem_flatMap.1 he
    rcases List.mem_append.1 he with he | he
    · obtain ⟨jobId, _, he⟩ := mem_addItem he
      exact .inr ⟨jobId, _, _, itemKey_makeMetadata .., .inl he⟩
    · obtain ⟨jobId, _, he⟩ := mem_updateItem he
      exact .inr ⟨jobId, _, _, itemKey_makeMetadata .., .inr he⟩
  · obtain ⟨d, hd, he⟩ := List.mem_map.1 he
    obtain ⟨hmem, hne⟩ := List.mem_filter.1 hd
    exact .inl ⟨d, hmem, of_decide_eq_true hne, he.symm⟩

theorem asFound_skipInvalid (h : Throughout (AsFound w) env.jobId w es)
    (skipped : List Detail) :
    Throughout (AsFound w) env.jobId w (es ++ skipInvalid env skipped) := by
  apply throughout_append h
  intro e he
  rcases mem_skipInvalid he with ⟨d, _, _, he⟩ | ⟨jobId, m, ulid, hm, he | he⟩
  · exact ⟨_, he, fun _ _ h => h⟩
  · exact ⟨_, he, fun db _ h => ⟨kept_add h.1 jobId m env.now, fun ulid' =>
      (cached_add db.items jobId m env.now ulid').trans (h.2 ulid')⟩⟩
  · refine ⟨_, he, fun db _ h => ⟨kept_update hm h.1 jobId env.now fun hs => ?_, fun ulid' =>
      (cached_update_ne hm db.items jobId .failed .empty env.now fun hs => ?_).trans (h.2 ulid')⟩⟩
    · exact absurd hs (by decide)
    · exact absurd hs.1 (by decide)

/-! ### The translator -/

/-- The translations that the run has so far are those of the cache. -/
structure Translating (env : Env) (w : World) (articles : List Detail)
    (translated : String → Option Translation) (es : List Effect) : Prop where
  memory : ∃ known : String → Option Translation,
    (∀ d ∈ articles, known d.ulid = translated d.ulid) ∧
      Throughout (fun db _ => Memory (cached w.db.items) known db.items) env.jobId w es
  without : ∀ d ∈ articles, translated d.ulid = none →
    cached (drained w.db es).items d.ulid = none
  cached : ∀ d ∈ articles, ∀ t, translated d.ulid = some t → env.jobId.isSome = true →
    cached (drained w.db es).items d.ulid = some t

variable {articles : List Detail} {translated : String → Option Translation}

theorem translating_start (h : Throughout (AsFound w) env.jobId w es) :
    Translating env w articles (loadCached env w.db articles es) es := by
  have hload : ∀ d ∈ articles,
      loadCached env w.db articles es d.ulid = cached w.db.items d.ulid := by
    intro d hd
    rw [loadCached, if_pos (List.mem_map_of_mem hd)]
    exact (h _).2 d.ulid
  refine ⟨⟨cached w.db.items, fun d hd => (hload d hd).symm, fun n => ?_⟩, ?_, ?_⟩
  · have hsame : cached (view w.db es n).items = cached w.db.items := funext (h n).2
    rw [← hsame]
    exact memory_found (h n).1
  · intro d hd hn
    rw [hload d hd] at hn
    rw [h.drained.2, hn]
  · intro d hd t ht _
    rw [hload d hd] at ht
    rw [h.drained.2, ht]

/-- A row of the translator, before its status is known. -/
theorem remembers_record {known : String → Option Translation}
    (h : Throughout (fun db _ => Memory (Publisher.cached w.db.items) known db.items) env.jobId w es)
    (ulid : String) (status : PublishStatus) (texts : Option Translation) (m : Metadata) :
    Throughout (fun db _ => Memory (Publisher.cached w.db.items) known db.items) env.jobId w
        (es ++ [.queue (.setDetail ulid status texts)] ++ addItem env m) ∧
      ∀ ulid', Publisher.cached (drained w.db
          (es ++ [.queue (.setDetail ulid status texts)] ++ addItem env m)).items ulid' =
        Publisher.cached (drained w.db es).items ulid' := by
  constructor
  · apply throughout_append (throughout_queue h id)
    intro e he
    obtain ⟨jobId, _, he⟩ := mem_addItem he
    exact ⟨_, he, fun _ _ h => memory_add h jobId m env.now⟩
  · intro ulid'
    rw [cached_addItem, drained_queue]
    rfl

theorem translating_failure (h : Translating env w articles translated es) (hd : d ∈ articles)
    (hnone : translated d.ulid = none) (retry : Nat) :
    Translating env w articles translated (es ++ recordFailure cfg env d retry) := by
  obtain ⟨known, hknown, hs⟩ := h.memory
  rw [recordFailure, List.append_cons, ← List.append_assoc]
  let m := translateMeta cfg env d retry (some "Max retries reached")
  have hm : itemKey m = (.text "translate", .text d.ulid) := itemKey_makeMetadata ..
  obtain ⟨hadd, hcache⟩ := remembers_record hs d.ulid .failed none m
  generalize es ++ [.queue (.setDetail d.ulid .failed none)] ++ addItem env m = es₁ at hadd hcache ⊢
  have hnone' : Publisher.cached (drained w.db es₁).items d.ulid = none := by
    rw [hcache]
    exact h.without d hd hnone
  cases hj : env.jobId with
  | none =>
    rw [updateItem_none hj, List.append_nil]
    refine ⟨⟨known, hknown, hadd⟩, ?_, ?_⟩
    · intro d' hd' hn
      rw [hcache]
      exact h.without d' hd' hn
    · intro d' hd' t ht hsome
      rw [hcache]
      exact h.cached d' hd' t ht hsome
  | some jobId =>
    rw [updateItem_some hj]
    have hcache' (ulid : String) : Publisher.cached (drained w.db (es₁ ++
        [.queue (.item (.update jobId m .failed .empty env.now))])).items ulid =
          Publisher.cached (drained w.db es).items ulid := by
      rw [drained_queue, ← hcache]
      exact cached_failed hadd.drained.kept hm hnone' jobId .empty env.now ulid
    refine ⟨⟨known, hknown, throughout_queue hadd fun h =>
      memory_update_failed h hm hnone' jobId .empty env.now⟩, ?_, ?_⟩
    · intro d' hd' hn
      rw [hcache']
      exact h.without d' hd' hn
    · intro d' hd' t ht hsome
      rw [hcache']
      exact h.cached d' hd' t ht hsome

theorem translating_success (h : Translating env w articles translated es) (hd : d ∈ articles)
    (hnone : translated d.ulid = none) (retry : Nat) (t : Translation) :
    Translating env w articles (Function.update translated d.ulid (some t))
      (es ++ recordTranslation cfg env d retry t) := by
  obtain ⟨known, hknown, hs⟩ := h.memory
  have hnew : ∀ d' ∈ articles, Function.update known d.ulid (some t) d'.ulid =
      Function.update translated d.ulid (some t) d'.ulid := by
    intro d' hd'
    rw [Function.update_apply, Function.update_apply, hknown d' hd']
  have hmore : ∀ ulid t', known ulid = some t' →
      Function.update known d.ulid (some t) ulid = some t' := by
    intro ulid t' hu
    rw [Function.update_of_ne _ _ _]
    · exact hu
    · intro he
      rw [he, hknown d hd, hnone] at hu
      cases hu
  have hself : Function.update known d.ulid (some t) d.ulid = some t := Function.update_self ..
  have hne (d' : Detail) (ht : Function.update translated d.ulid (some t) d'.ulid = none) :
      d'.ulid ≠ d.ulid := by
    intro he
    rw [he, Function.update_self] at ht
    cases ht
  rw [recordTranslation, List.append_cons, ← List.append_assoc]
  let m := translateMeta cfg env d retry none
  have hm : itemKey m = (.text "translate", .text d.ulid) := itemKey_makeMetadata ..
  obtain ⟨hadd, hcache⟩ := remembers_record (fun n => (hs n).translate hmore) d.ulid .translating
    (some t) m
  have hrow (jobId : String) (hj : env.jobId = some jobId) : (progressRow (drained w.db
      (es ++ [.queue (.setDetail d.ulid .translating (some t))] ++ addItem env m)).items jobId
        "translate" d.ulid).isSome = true := by
    rw [addItem_some hj, drained_queue]
    exact progressRow_added _ env.now hm
  generalize es ++ [.queue (.setDetail d.ulid .translating (some t))] ++ addItem env m = es₁
    at hadd hcache hrow ⊢
  have hnone' : Publisher.cached (drained w.db es₁).items d.ulid = none := by
    rw [hcache]
    exact h.without d hd hnone
  cases hj : env.jobId with
  | none =>
    rw [updateItem_none hj, List.append_nil]
    refine ⟨⟨_, hnew, hadd⟩, ?_, ?_⟩
    · intro d' hd' ht
      have hn := hne d' ht
      rw [Function.update_of_ne hn] at ht
      rw [hcache]
      exact h.without d' hd' ht
    · intro d' _ t' _ hsome
      rw [hj] at hsome
      cases hsome
  | some jobId =>
    rw [updateItem_some hj]
    have hother (ulid : String) (hn : ulid ≠ d.ulid) :
        Publisher.cached (drained w.db (es₁ ++ [.queue (.item
          (.update jobId m .completed (.translation t) env.now))])).items ulid =
            Publisher.cached (drained w.db es).items ulid := by
      rw [drained_queue, ← hcache]
      exact cached_update_ne hm _ jobId .completed (.translation t) env.now fun h => hn h.2
    refine ⟨⟨_, hnew, throughout_queue hadd fun h =>
      memory_update_translated h hm hnone' (hrow jobId hj) hself env.now⟩, ?_, ?_⟩
    · intro d' hd' ht
      have hn := hne d' ht
      rw [Function.update_of_ne hn] at ht
      rw [hother _ hn]
      exact h.without d' hd' ht
    · intro d' hd' t' ht hsome
      by_cases he : d'.ulid = d.ulid
      · rw [he, Function.update_self] at ht
        rw [he, drained_queue, ← ht]
        exact cached_update_translated hadd.drained.kept hm env.now (hrow jobId hj) hnone'
      · rw [Function.update_of_ne he] at ht
        rw [hother _ he]
        exact h.cached d' hd' t' ht hsome

/-- When the delivery begins, the translations are those of the cache. -/
theorem translating_prepare (h : Throughout (AsFound w) env.jobId w es) (resume reset : Bool) :
    Translating env w (validArticles env w.db resume reset es)
      (prepare cfg env w.db resume reset es).translated
      (prepare cfg env w.db resume reset es).effects := by
  have hskip := asFound_skipInvalid h (invalidArticles env w.db resume reset es)
  exact translateAll_inv (I := Translating env w (validArticles env w.db resume reset es))
    (fun _ _ _ retry hd hnone h => translating_failure h hd hnone retry)
    (fun _ _ _ retry t hd hnone h => translating_success h hd hnone retry t) w.db
    (nodup_valid env w.db resume reset es) (translating_start hskip)

end

/-! ### Statements before the delivery -/

/-- The statements of the validator and the translator. -/
inductive Write.Quiet (skipped articles : List Detail) : Write → Prop where
  | skip (hd : d ∈ skipped) (hu : d.ulid ≠ "") : Quiet skipped articles (.setDetail d.ulid .skipped none)
  | translate (hd : d ∈ articles) (hs : status = .failed ∨ status = .translating) :
    Quiet skipped articles (.setDetail d.ulid status texts)
  | add : Quiet skipped articles (.item (.add jobId m now))
  | update (hm : itemKey m = (.text stepType, .text ulid))
    (hs : ∀ channel : Channel, channel.step ≠ stepType) :
    Quiet skipped articles (.item (.update jobId m status output now))

theorem channel_step_ne (channel : Channel) : channel.step ≠ "translate" := by
  cases channel <;> decide

theorem quiet_skipInvalid (he : e ∈ skipInvalid env skipped) :
    ∃ w, e = .queue w ∧ w.Quiet skipped articles := by
  rcases mem_skipInvalid he with ⟨d, hd, hu, he⟩ | ⟨jobId, m, ulid, hm, he | he⟩
  · exact ⟨_, he, .skip hd hu⟩
  · exact ⟨_, he, .add⟩
  · refine ⟨_, he, .update hm fun channel => ?_⟩
    cases channel <;> decide

theorem quiet_record (hd : d ∈ articles) (hs : status = .failed ∨ status = .translating)
    (hm : itemKey m = (.text "translate", .text d.ulid))
    (he : e ∈ (.queue (.setDetail d.ulid status texts) : Effect) ::
      (addItem env m ++ updateItem env m itemStatus output)) :
    ∃ w, e = .queue w ∧ w.Quiet skipped articles := by
  rcases List.mem_cons.1 he with he | he
  · exact ⟨_, he, .translate hd hs⟩
  · rcases List.mem_append.1 he with he | he
    · obtain ⟨jobId, _, he⟩ := mem_addItem he
      exact ⟨_, he, .add⟩
    · obtain ⟨jobId, _, he⟩ := mem_updateItem he
      exact ⟨_, he, .update hm channel_step_ne⟩

/-- All that a run queues between the lock and the delivery. -/
theorem quiet_prepare (cfg : Config) (env : Env) (db : Db) (resume reset : Bool)
    (es : List Effect) : ∃ new, (prepare cfg env db resume reset es).effects = es ++ new ∧
      ∀ e ∈ new, ∃ w, e = .queue w ∧ w.Quiet (invalidArticles env db resume reset es)
        (validArticles env db resume reset es) := by
  let Quiets (es' : List Effect) : Prop := ∃ new, es' = es ++ new ∧ ∀ e ∈ new, ∃ w, e = .queue w ∧
    w.Quiet (invalidArticles env db resume reset es) (validArticles env db resume reset es)
  have hmore {es' new : List Effect} (h : Quiets es') (hnew : ∀ e ∈ new, ∃ w, e = .queue w ∧
      w.Quiet (invalidArticles env db resume reset es) (validArticles env db resume reset es)) :
      Quiets (es' ++ new) := by
    obtain ⟨first, he, hall⟩ := h
    refine ⟨first ++ new, by rw [he, List.append_assoc], fun e hm => ?_⟩
    rcases List.mem_append.1 hm with hm | hm
    · exact hall e hm
    · exact hnew e hm
  exact translateAll_inv (I := fun _ es' => Quiets es')
    (fun _ _ _ _ hd _ h => hmore h fun _ he =>
      quiet_record hd (.inl rfl) (itemKey_makeMetadata ..) he)
    (fun _ _ _ _ _ hd _ h => hmore h fun _ he =>
      quiet_record hd (.inr rfl) (itemKey_makeMetadata ..) he) db
    (nodup_valid env db resume reset es)
    ⟨_, rfl, fun _ he => quiet_skipInvalid he⟩

/-- No counter of a delivery is touched before the delivery. -/
theorem chunksSent_quiet (h : Write.Quiet skipped articles w) (db : Db) (jobId : String)
    (channel : Channel) (ulid : String) :
    chunksSent (db.commit w).items jobId channel ulid =
      chunksSent db.items jobId channel ulid := by
  cases h with
  | skip => rfl
  | translate => rfl
  | add => exact chunksSent_add ..
  | update hm hs => exact chunksSent_update_ne _ _ _ _ hm fun hne => hs channel hne.2.1

end Publisher
