import AnythingTools.Publisher.Memory

namespace Publisher
open JobItems
set_option autoImplicit true

/-! ### What a channel has got of an article -/

def sentTo (log : List Sent) (channel : Channel) (ulid : String) : List Sent :=
  log.filter fun s => decide (s.channel = channel ∧ s.ulid = ulid)

/-- The first messages of the article, each once and in their order. -/
def InOrder (cfg : Config) (channel : Channel) (a : Article) (t : Translation) (log : List Sent) :
    Prop :=
  (sentTo log channel a.ulid).map (fun s => (s.text, s.index)) =
    ((messages cfg channel a t).take (sentTo log channel a.ulid).length).zipIdx

theorem sentTo_append (log log' : List Sent) (channel : Channel) (ulid : String) :
    sentTo (log ++ log') channel ulid = sentTo log channel ulid ++ sentTo log' channel ulid :=
  List.filter_append ..

theorem mem_sentTo : s ∈ sentTo log channel ulid ↔
    s ∈ log ∧ s.channel = channel ∧ s.ulid = ulid := by
  rw [sentTo, List.mem_filter, decide_eq_true_eq]

theorem inOrder_nil (cfg : Config) (channel : Channel) (a : Article) (t : Translation)
    (h : sentTo log channel a.ulid = []) : InOrder cfg channel a t log := by
  rw [InOrder, h]
  rfl

theorem InOrder.length_le (h : InOrder cfg channel a t log) :
    (sentTo log channel a.ulid).length ≤ (messages cfg channel a t).length := by
  have hlen := congrArg List.length h
  simp only [List.length_map, List.length_zipIdx, List.length_take] at hlen
  omega

/-- The next message arrives. -/
theorem InOrder.next (h : InOrder cfg channel a t log)
    (ht : (messages cfg channel a t)[(sentTo log channel a.ulid).length]? = some text)
    (hs : sentTo log' channel a.ulid = sentTo log channel a.ulid ++ [s]) (htext : s.text = text)
    (hindex : s.index = (sentTo log channel a.ulid).length) : InOrder cfg channel a t log' := by
  have hle := h.length_le
  rw [InOrder] at h ⊢
  rw [hs, List.map_append, h, List.length_append, List.length_singleton, List.take_add_one, ht,
    List.zipIdx_append, List.length_take, Nat.min_eq_left hle]
  simp [htext, hindex]

/-- The messages have different places, and each comes after those before it. -/
theorem InOrder.indexes (h : InOrder cfg channel a t log) :
    (sentTo log channel a.ulid).map Sent.index =
      List.range (sentTo log channel a.ulid).length := by
  have hsnd := congrArg (List.map Prod.snd) h
  rw [List.map_map, List.zipIdx_map_snd, List.length_take, Nat.min_eq_left h.length_le] at hsnd
  rw [List.range_eq_range']
  exact hsnd

/-! ### Effects on other articles -/

/-- The effect changes neither the counters of the article for the channel nor what has arrived
of it there. -/
def Effect.Avoids (channel : Channel) (ulid : String) : Effect → Prop
  | .queue (.item (.update _ m _ _ _)) => itemKey m ≠ (.text channel.step, .text ulid)
  | .queue (.item (.insert ..)) => False
  | .queue (.item (.mark ..)) => False
  | .send channel' ulid' .. => ¬ (channel' = channel ∧ ulid' = ulid)
  | _ => True

/-- An update of another key, whatever the key. -/
theorem chunksSent_update_other (items : List (Item Output)) (jobId : String)
    (status : ItemStatus) (output : Output) (now : String)
    (hm : itemKey m ≠ (.text (Channel.step channel), .text ulid)) (jobId' : String) :
    chunksSent (commit items (.update jobId m status output now)) jobId' channel ulid =
      chunksSent items jobId' channel ulid := by
  rw [chunksSent_eq, chunksSent_eq, progressRow_update]
  cases hrow : progressRow items jobId' channel.step ulid with
  | none => rfl
  | some i =>
    have hsame : ¬ i.sameAs jobId m = true := by
      intro hs
      have hkey := (progressRow_has hrow).2
      rw [Item.has, decide_eq_true_eq, (sameAs_iff.1 hs).2.1] at hkey
      exact hm hkey
    rw [Option.map_some, updated, if_neg hsame]

theorem chunksSent_avoids (db : Db) (h : Effect.Avoids channel ulid (.queue w)) (jobId : String) :
    chunksSent (db.commit w).items jobId channel ulid =
      chunksSent db.items jobId channel ulid := by
  cases w with
  | item w =>
    cases w with
    | add jobId' m now => exact chunksSent_add ..
    | update jobId' m status output now => exact chunksSent_update_other _ _ _ _ _ h jobId
    | insert => exact absurd h id
    | mark => exact absurd h id
  | _ => rfl

theorem chunksSent_commitAll (db : Db)
    (h : ∀ w ∈ ws, Effect.Avoids channel ulid (.queue w)) (jobId : String) :
    chunksSent (db.commitAll ws).items jobId channel ulid =
      chunksSent db.items jobId channel ulid := by
  induction ws generalizing db with
  | nil => rfl
  | cons w ws ih =>
    rw [commitAll_cons, ih _ fun w' hw' => h w' (List.mem_cons_of_mem w hw')]
    exact chunksSent_avoids db (h w List.mem_cons_self) jobId

theorem avoids_of_queued (h : ∀ e ∈ es, Effect.Avoids channel ulid e) (hw : w ∈ queued es) :
    Effect.Avoids channel ulid (.queue w) := by
  obtain ⟨e, he, hw⟩ := List.mem_filterMap.1 hw
  cases e with
  | queue w' =>
    cases hw
    exact h _ he
  | lock => cases hw
  | send => cases hw

/-- No reader sees a change of the counter. -/
theorem chunksSent_view (db : Db) (h : ∀ e ∈ es, Effect.Avoids channel ulid e) (n : Nat)
    (jobId : String) : chunksSent (view db es n).items jobId channel ulid =
      chunksSent db.items jobId channel ulid := by
  rw [view, chunksSent_commitAll]
  · split
    next => rfl
    next => rfl
  · intro w hw
    exact avoids_of_queued h (List.mem_of_mem_take hw)

theorem sentTo_avoids (jobId : Option String) (h : ∀ e ∈ es, Effect.Avoids channel ulid e) :
    sentTo (sentBy jobId es) channel ulid = [] := by
  rw [sentTo, List.filter_eq_nil_iff]
  intro s hs
  obtain ⟨e, he, hs⟩ := List.mem_filterMap.1 hs
  have havoid := h e he
  rw [decide_eq_true_eq]
  cases e with
  | queue => cases hs
  | lock => cases hs
  | send channel' ulid' k text outcome =>
    cases outcome with
    | ok =>
      cases hs
      exact havoid
    | permanent => cases hs
    | transient => cases hs

/-- The message of a run. -/
theorem sentTo_message (jobId : Option String) (log : List Sent) (es : List Effect)
    (channel : Channel) (ulid : String) (n : Nat) (text : String) :
    sentTo (log ++ sentBy jobId (es ++ [.send channel ulid n text .ok])) channel ulid =
      sentTo (log ++ sentBy jobId es) channel ulid ++ [⟨jobId, channel, ulid, n, text⟩] := by
  rw [sentBy_append, ← List.append_assoc, sentTo_append]
  congr 1
  exact List.filter_eq_self.2 fun s hs => by
    rw [List.mem_singleton.1 hs]
    exact decide_eq_true ⟨rfl, rfl⟩

theorem sentTo_message_ne (jobId : Option String) (log : List Sent) (es : List Effect)
    (n : Nat) (text : String) (h : ¬ (channel = channel' ∧ ulid = ulid')) :
    sentTo (log ++ sentBy jobId (es ++ [.send channel ulid n text .ok])) channel' ulid' =
      sentTo (log ++ sentBy jobId es) channel' ulid' := by
  have hnone : sentTo (sentBy jobId [.send channel ulid n text .ok]) channel' ulid' = [] :=
    sentTo_avoids jobId fun e he => by
      rw [List.mem_singleton.1 he]
      exact h
  rw [sentBy_append, ← List.append_assoc, sentTo_append, hnone, List.append_nil]

theorem avoids_addItem (he : e ∈ addItem env m) : Effect.Avoids channel ulid e := by
  obtain ⟨_, _, he⟩ := mem_addItem he
  rw [he]
  trivial

theorem avoids_updateItem (hm : itemKey m ≠ (.text (Channel.step channel), .text ulid))
    (he : e ∈ updateItem env m status output) : Effect.Avoids channel ulid e := by
  obtain ⟨_, _, he⟩ := mem_updateItem he
  rw [he]
  exact hm

theorem avoids_quiet (h : Write.Quiet skipped articles w) : Effect.Avoids channel ulid (.queue w) := by
  cases h with
  | skip => trivial
  | translate => trivial
  | add => trivial
  | update hm hs =>
    rw [Effect.Avoids, hm]
    intro he
    rw [Prod.mk.injEq] at he
    exact hs channel (Relational.Value.text.inj he.1).symm

/-- Before the delivery nothing is about a channel. -/
theorem avoids_prepare (cfg : Config) (env : Env) (args : Args) (db : Db) (resume reset : Bool) :
    ∀ channel ulid, ∀ e ∈ (prepare cfg env db resume reset (resetEffects args ++ [.lock])).effects,
      Effect.Avoids channel ulid e := by
  intro channel ulid e he
  obtain ⟨new, heq, hnew⟩ := quiet_prepare cfg env db resume reset (resetEffects args ++ [.lock])
  rw [heq, resetEffects] at he
  rcases List.mem_append.1 he with he | he
  · split at he
    next =>
      rcases List.mem_cons.1 he with he | he
      · rw [he]
        trivial
      · rw [List.mem_singleton.1 he]
        trivial
    next =>
      rw [List.mem_singleton.1 he]
      trivial
  · obtain ⟨write, hw, hq⟩ := hnew e he
    rw [hw]
    exact avoids_quiet hq

theorem step_inj (h : Channel.step channel = Channel.step channel') : channel = channel' := by
  revert h
  cases channel <;> cases channel' <;> decide

/-- The key of a delivery is no other channel's or article's. -/
theorem key_publishMeta (h : ¬ (channel = channel' ∧ d.ulid = ulid)) :
    itemKey (publishMeta env channel d) ≠ (.text (Channel.step channel'), .text ulid) := by
  have hm : itemKey (publishMeta env channel d) = (.text channel.step, .text d.ulid) :=
    itemKey_makeMetadata ..
  rw [hm]
  intro he
  rw [Prod.mk.injEq] at he
  exact h ⟨step_inj (Relational.Value.text.inj he.1), Relational.Value.text.inj he.2⟩

theorem avoids_sendMessages (env : Env) (h : ¬ (channel = channel' ∧ d.ulid = ulid)) (texts : List String)
    (n : Nat) : ∀ e ∈ (sendMessages env channel d.ulid (publishMeta env channel d) texts n).1,
      Effect.Avoids channel' ulid e := by
  induction texts generalizing n with
  | nil => exact fun _ he => absurd he List.not_mem_nil
  | cons text texts ih =>
    intro e he
    rw [sendMessages] at he
    split at he
    next =>
      rcases List.mem_cons.1 he with he | he
      · rw [he]
        exact h
      · rcases List.mem_append.1 he with he | he
        · exact avoids_updateItem (key_publishMeta h) he
        · exact ih (n + 1) e he
    next =>
      rw [List.mem_singleton.1 he]
      exact h
    next =>
      rw [List.mem_singleton.1 he]
      exact h

/-- The delivery of an article leaves the others alone. -/
theorem avoids_publishArticle (cfg : Config) (env : Env) (db : Db) (channel : Channel)
    (t : Translation) (d : Detail) (es : List Effect) :
    ∃ new, (publishArticle cfg env db channel t d es).1 = es ++ new ∧
      ∀ e ∈ new, ∀ channel' ulid, ¬ (channel = channel' ∧ d.ulid = ulid) →
        Effect.Avoids channel' ulid e := by
  rcases publishArticle_cases cfg env db channel t d es with
    ⟨_, he⟩ | ⟨_, m, es₁, n, hm, h₁, _, hsent⟩
  · rw [he]
    exact ⟨[], (List.append_nil es).symm, fun _ he => absurd he List.not_mem_nil⟩
  · have hsends (new : List Effect) (ending : Delivery) (hs : sendMessages env channel d.ulid m
        ((messages cfg channel d.article t).drop n) n = (new, ending)) :
        ∀ e ∈ new, ∀ channel' ulid, ¬ (channel = channel' ∧ d.ulid = ulid) →
          Effect.Avoids channel' ulid e := by
      intro e he channel' ulid hne
      have hall := avoids_sendMessages env hne
        ((messages cfg channel d.article t).drop n) n
      rw [← hm, hs] at hall
      exact hall e he
    have hrecord (new : List Effect) (ending : Delivery) (status : PublishStatus)
        (itemStatus : ItemStatus) (k : Nat) (hs : sendMessages env channel d.ulid m
          ((messages cfg channel d.article t).drop n) n = (new, ending)) :
        ∀ e ∈ addItem env m ++ new ++ .queue (.setDetail d.ulid status none) ::
            updateItem env m itemStatus (.chunksSent k),
          ∀ channel' ulid, ¬ (channel = channel' ∧ d.ulid = ulid) →
            Effect.Avoids channel' ulid e := by
      intro e he channel' ulid hne
      rcases List.mem_append.1 he with he | he
      · rcases List.mem_append.1 he with he | he
        · exact avoids_addItem he
        · exact hsends new ending hs e he channel' ulid hne
      · rcases List.mem_cons.1 he with he | he
        · rw [he]
          trivial
        · rw [hm] at he
          exact avoids_updateItem (key_publishMeta hne) he
    rcases hsent with ⟨new, k, hs, he⟩ | ⟨new, k, hs, he⟩ | ⟨new, hs, he⟩
    · refine ⟨_, ?_, hrecord new _ channel.published .completed k hs⟩
      rw [he, h₁]
      simp only [List.append_assoc]
    · refine ⟨_, ?_, hrecord new _ .failed .failed k hs⟩
      rw [he, h₁]
      simp only [List.append_assoc]
    · refine ⟨addItem env m ++ new, ?_, fun e hmem channel' ulid hne => ?_⟩
      · rw [he, h₁, List.append_assoc]
      · rcases List.mem_append.1 hmem with hmem | hmem
        · exact avoids_addItem hmem
        · exact hsends new _ hs e hmem channel' ulid hne

end Publisher
