import AnythingTools.Scraper.Frame

namespace Scraper
open Relational Relational.Database Sync Articles JobItems Schemas
set_option autoImplicit true

/-! ### The processing of an article -/

/-- No one cancels the job at the article. -/
def Answers.Goes (a : Answers) : Prop :=
  a.paywall ≠ some (some .cancel) ∧ a.decision ≠ .cancel

instance (a : Answers) : Decidable a.Goes := inferInstanceAs (Decidable (_ ∧ _))

/-- What every step of the processing keeps. -/
structure Kept (a : Answers) (P : Processed → Prop) : Prop where
  done : ∀ p r, P p → P (p.done r)
  validated : ∀ p, P p → P p.validated
  autoSkipped : ∀ p reason, P p → P (p.autoSkipped reason)
  asked : ∀ p d, P p → P (p.report (requestDecision d))
  cancelled : ¬ a.Goes → ∀ p : Processed, P p → P { p with cancels := true }
  summarized : ∀ p, P p → P p.summarized

section
variable {a : Answers} {P : Processed → Prop} {p : Processed}

theorem kept_andThen (h : P p) (hf : ∀ p, P p → P (f p)) : P (p.andThen f) := by
  rw [Processed.andThen]
  split
  · exact h
  · exact hf p h

theorem kept_checkVideoAudio (hk : Kept a P) (h : P p) : P (checkVideoAudio a p) := by
  rw [checkVideoAudio]
  split
  · exact hk.done p _ h
  · exact hk.autoSkipped p _ h
  · exact h

theorem kept_checkPaywall (hk : Kept a P) (h : P p) : P (checkPaywall a p) := by
  rw [checkPaywall]
  split
  · exact hk.done p _ h
  · exact h
  next d hd =>
    have hasked : P (p.report (requestDecision d)) := hk.asked p d h
    cases d with
    | proceed =>
      dsimp only
      split
      · exact hk.validated _ hasked
      · exact hk.done _ _ hasked
    | skip => exact hk.done _ _ hasked
    | cancel => exact hk.done _ _ (hk.cancelled (fun hg => hg.1 hd) _ hasked)

theorem kept_checkVerdict (hk : Kept a P) (h : P p) : P (checkVerdict a p) := by
  rw [checkVerdict]
  split
  · exact h
  · split
    · exact hk.done p _ h
    · exact hk.validated p h
    · exact hk.autoSkipped p _ h
    · split
      · exact hk.done p _ h
      · have hasked : P (p.report (requestDecision a.decision)) := hk.asked p a.decision h
        cases hd : a.decision with
        | proceed =>
          rw [hd] at hasked
          dsimp only
          split
          · exact hk.validated _ hasked
          · exact hk.done _ _ hasked
        | skip =>
          rw [hd] at hasked
          exact hk.done _ _ hasked
        | cancel =>
          rw [hd] at hasked
          exact hk.done _ _ (hk.cancelled (fun hg => hg.2 hd) _ hasked)

theorem kept_summarize (hk : Kept a P) (h : P p) : P (summarize a p) := by
  rw [summarize]
  split
  · exact hk.done p _ h
  · exact hk.done _ _ (hk.summarized p h)
  · exact hk.done p _ h

/-- So the processing keeps it. -/
theorem kept_processArticle (hk : Kept a P) (h : P { info }) : P (processArticle a info) := by
  rw [processArticle]
  dsimp only
  split
  · exact hk.done _ _ h
  · split
    · exact hk.done _ _ h
    · have hchecked : P (if info.validationPassed then { info }
          else (checkVideoAudio a { info }).andThen (checkPaywall a)) := by
        split
        · exact h
        · exact kept_andThen (kept_checkVideoAudio hk h) fun _ => kept_checkPaywall hk
      exact kept_andThen (kept_andThen hchecked fun _ => kept_checkVerdict hk) fun _ =>
        kept_summarize hk

end

/-- A report that does not complete the item. -/
def Report.Open : Report → Prop
  | .item status _ => status ≠ .completed
  | .job _ => True

/-- The processing never completes the item. -/
theorem open_processArticle (a : Answers) (info : LocalMeta) :
    ∀ r ∈ (processArticle a info).reports, r.Open := by
  have hreport (p : Processed) (rs : List Report) (hrs : ∀ r ∈ rs, r.Open)
      (h : ∀ r ∈ p.reports, r.Open) : ∀ r ∈ (p.report rs).reports, r.Open := by
    intro r hr
    rcases List.mem_append.1 hr with hr | hr
    · exact h r hr
    · exact hrs r hr
  have hone (status : ItemStatus) (hs : status ≠ .completed) (info : LocalMeta) :
      ∀ r ∈ [Report.item status info], r.Open := by
    intro r hr
    rw [List.mem_singleton.1 hr]
    exact hs
  apply kept_processArticle (P := fun p => ∀ r ∈ p.reports, r.Open)
  · constructor
    · exact fun p r h => h
    · exact fun p h => hreport _ _ (hone .running ItemStatus.noConfusion _) h
    · exact fun p reason h => hreport _ _ (hone .skipped ItemStatus.noConfusion _) h
    · intro p d h
      refine hreport p _ ?_ h
      intro r hr
      rcases List.mem_cons.1 hr with rfl | hr
      · trivial
      · rw [List.mem_singleton.1 hr]
        trivial
    · exact fun _ p h => h
    · exact fun p h => hreport _ _ (hone .running ItemStatus.noConfusion _) h
  · exact fun _ hr => (List.not_mem_nil hr).elim

theorem cancels_processArticle {a : Answers} (ha : a.Goes) (info : LocalMeta) :
    (processArticle a info).cancels = false := by
  apply kept_processArticle (P := fun p => p.cancels = false)
  · constructor
    · exact fun p r h => h
    · exact fun p h => h
    · exact fun p reason h => h
    · exact fun p d h => h
    · exact fun hnot => absurd ha hnot
    · exact fun p h => h
  · rfl

theorem result_summarize (a : Answers) (p : Processed) : ∃ r, (summarize a p).result = some r := by
  rw [summarize]
  split
  · exact ⟨_, rfl⟩
  · exact ⟨_, rfl⟩
  next r _ _ => exact ⟨r, rfl⟩

/-- Every article has a result. -/
theorem result_processArticle (a : Answers) (info : LocalMeta) :
    ∃ r, (processArticle a info).result = some r := by
  rw [processArticle]
  dsimp only
  split
  · exact ⟨_, rfl⟩
  · split
    · exact ⟨_, rfl⟩
    · generalize Processed.andThen _ (checkVerdict a) = p
      rw [Processed.andThen]
      split
      next r hr => exact ⟨r, hr⟩
      next => exact result_summarize a p

/-- The processing ends with an article. -/
def yields (a : Answers) (info : LocalMeta) : Bool :=
  match (processArticle a info).result.map parseArticleResult with
  | some (.article _ _ _) => true
  | _ => false

theorem processArticle_summarized (a : Answers) (h : info.summarized = true) :
    processArticle a info = { info, result := some .resumeEmbedOnly } := by
  rw [processArticle, if_pos h]
  rfl

theorem yields_summarized (a : Answers) (h : info.summarized = true) : yields a info = false := by
  rw [yields, processArticle_summarized a h]
  rfl

/-! ### A new article -/

namespace Turn

/-- The embedding is there, with the right length. -/
def embedded (t : Turn) : Bool := t.embedding.any validateEmbeddingBytes

/-- Both checks of the row id end before their tenth attempt fails. -/
def found (t : Turn) : Bool := decide (t.draws.length < 10 ∧ t.draws'.length < 10)

end Turn

/-- The checks of a row id fail once they have drawn as often as they may. -/
theorem ensure_draws {rows : List Row}
    (h : ensureUniqueVecRowid rows articleId n current draws = some r) :
    draws.length ≤ n ∧ (r = none ↔ draws.length = n) := by
  induction n generalizing current draws with
  | zero =>
    unfold ensureUniqueVecRowid at h
    split at h
    next hd =>
      cases h
      rw [hd]
      exact ⟨Nat.le_refl 0, iff_of_true rfl rfl⟩
    next => cases h
  | succ n ih =>
    have hfree {v : Int} (hd : draws = []) : draws.length ≤ n + 1 ∧
        (some v = none ↔ draws.length = n + 1) := by
      rw [hd]
      exact ⟨Nat.zero_le _, iff_of_false (Option.some_ne_none v) (Nat.succ_ne_zero n).symm⟩
    unfold ensureUniqueVecRowid at h
    split at h
    next =>
      split at h
      next hd =>
        cases h
        exact hfree hd
      next => cases h
    next =>
      split at h
      next =>
        split at h
        next hd =>
          cases h
          exact hfree hd
        next => cases h
      next =>
        split at h
        next => cases h
        next d ds =>
          obtain ⟨hle, hiff⟩ := ih h
          refine ⟨Nat.succ_le_succ hle, hiff.trans ?_⟩
          rw [List.length_cons, Nat.succ_inj]

/-- What is handed to the writer for a new article, whose row id was checked against the rows. -/
structure NewArticle (rows : List Row) (t : Turn) (u : Upsert) : Prop where
  id : u.articleId = t.ulid
  url : u.url = .text t.link
  rowid : ∃ v, u.vecRowid = .int v ∧
    u.vector = (if t.embedded then t.embedding.map fun bs => (v, bs) else none) ∧
    ∀ r ∈ rows, r.get "vec_rowid" = .int v → ∃ q ∈ rows, q.get "id" = .text t.ulid
  admitted : ∀ now, scrapedArticles.schema.admits (candidate now u.insertRow) = true

theorem newArticle {rows : List Row} (t : Turn) (title conclusion summary : String)
    (hv : ensureUniqueVecRowid rows t.ulid 10 v₀ t.draws' = some (some v)) :
    NewArticle rows t ⟨t.ulid, ⟨[("url", some t.link), ("title", some title),
      ("conclusion", some conclusion), ("summary", some summary),
      ("metadata_json", some t.metadataJson),
      ("embedding_status", some (if t.embedded then "EMBEDDED" else "PENDING")),
      ("updated_at", some t.now)], some v⟩, t.embedding, t.now, t.later⟩ := by
  constructor
  · rfl
  · rfl
  · refine ⟨v, rfl, ?_, (ensure_some hv).2⟩
    cases he : t.embedding with
    | none =>
      rw [Option.map_none, ite_self]
      rfl
    | some bs =>
      rw [Turn.embedded, he, Option.any_some]
      cases hb : validateEmbeddingBytes bs with
      | false =>
        rw [if_neg Bool.false_ne_true, if_neg Bool.false_ne_true]
        refine if_neg fun h => ?_
        have hstatus : "PENDING" = "EMBEDDED" := Value.text.inj h.2
        exact absurd hstatus (by decide)
      | true =>
        have hne : bs ≠ [] := by
          intro hnil
          rw [hnil] at hb
          cases hb
        rw [if_pos rfl, if_pos rfl, Option.map_some]
        exact if_pos ⟨hne, rfl⟩
  · intro now
    generalize hstatus : (if t.embedded then "EMBEDDED" else "PENDING") = status
    have hknown : status ∈ statuses := by
      rw [← hstatus]
      split
      · decide
      · decide
    rw [admits_iff]
    constructor
    · apply (Upsert.candidate_notNulls now _).2
      intro c hc
      simp only [List.mem_cons, List.not_mem_nil, or_false] at hc
      rcases hc with rfl | rfl | rfl | rfl | rfl | rfl
      all_goals exact Value.noConfusion
    · exact ⟨status, hknown, rfl⟩

/-- The entry of a new article is handed to the writer when row ids are found for it. -/
theorem sync_article {x : Scrape} {s : Progress} {t : Turn}
    (h : x.syncScrapedArticleAtomic s t (articleEntry t title conclusion summary) = some p) :
    p.2 = t.embedded ∧ (p.1 = none ↔ t.found = false) ∧
      ∀ u ∈ p.1, NewArticle (x.view s t.rowidLag').articles t u := by
  have hsync : (x.enqueueArticleWrite s t t.ulid
      [("url", some t.link), ("title", some title), ("conclusion", some conclusion),
        ("summary", some summary), ("metadata_json", some t.metadataJson),
        ("embedding_status", some (if t.embedded then "EMBEDDED" else "PENDING")),
        ("updated_at", some t.now)] t.embedding).map (fun u => (u, t.embedded)) = some p := h
  obtain ⟨u, hu, rfl⟩ := Option.map_eq_some_iff.1 hsync
  refine ⟨rfl, ?_⟩
  rw [Scrape.enqueueArticleWrite] at hu
  rw [Turn.found, decide_eq_false_iff_not, not_and_or, Nat.not_lt, Nat.not_lt]
  split at hu
  next => cases hu
  next hv =>
    cases hu
    have hdraws := ensure_draws hv
    exact ⟨iff_of_true rfl (.inl (Nat.le_of_eq (hdraws.2.1 rfl).symm)), nofun⟩
  next v₀ hv₀ =>
    have hdraws := ensure_draws hv₀
    have hfew : ¬ 10 ≤ t.draws.length := by
      intro hle
      exact Option.some_ne_none v₀ (hdraws.2.2 (Nat.le_antisymm hdraws.1 hle))
    split at hu
    next => cases hu
    next hv =>
      cases hu
      have hdraws' := ensure_draws hv
      exact ⟨iff_of_true rfl (.inr (Nat.le_of_eq (hdraws'.2.1 rfl).symm)), nofun⟩
    next v hv =>
      cases hu
      have hdraws' := ensure_draws hv
      have hfew' : ¬ 10 ≤ t.draws'.length := by
        intro hle
        exact Option.some_ne_none v (hdraws'.2.2 (Nat.le_antisymm hdraws'.1 hle))
      refine ⟨iff_of_false (Option.some_ne_none _) (not_or.2 ⟨hfew, hfew'⟩), ?_⟩
      intro u hu
      cases hu
      exact newArticle t title conclusion summary hv

/-! ### The outcome of a turn -/

/-- The item of the link goes on, and no article is handed over. -/
structure Plainly (x : Scrape) (s : Progress) (t : Turn) (s' : Progress) : Prop where
  queued : ∃ ws, s'.queued = s.queued ++ ws ∧ ∀ w ∈ ws, Plain x.jobId t.link w
  waited : s'.waited = s.waited
  aborted : s.aborted = false → s.navFailures + 1 < x.maxNavFailures → s'.aborted = false

/-- An article is handed over after the writes; the receipt ends the run if it is late or the writer
refuses. -/
structure HandsOver (x : Scrape) (s : Progress) (t : Turn) (q : List Write) (u : Upsert)
    (s' : Progress) : Prop where
  before : ∃ ws, q = s.queued ++ ws ∧ ∀ w ∈ ws, Plain x.jobId t.link w
  new : ∃ lag, NewArticle (x.db.commitAll x.env (q.take (max s.waited lag))).articles t u
  unborn : u.Unborn (x.db.commitAll x.env q).store.db
  queued : ∃ info jobs, s'.queued =
      q ++ .article t.committedAt u (x.updateItem t .completed info) :: jobs ∧
    ∀ w ∈ jobs, ∃ status, w = .job status
  aborted : s'.aborted = true ↔ t.late = true ∨ ¬ ∃ store,
    (u.statements x.env).foldlM (Store.exec t.committedAt) (x.db.commitAll x.env q).store =
      .ok store
  waited : s'.aborted = false → s'.waited = q.length + 1

/-- Some writes about the item come first. -/
theorem Plainly.after (h : Plainly x s₁ t s') (hq : s₁.queued = s.queued ++ ws)
    (hws : ∀ w ∈ ws, Plain x.jobId t.link w) (hw : s₁.waited = s.waited)
    (hn : s₁.navFailures = s.navFailures) (ha : s₁.aborted = s.aborted) : Plainly x s t s' := by
  obtain ⟨⟨ws', hq', hws'⟩, hwaited, haborted⟩ := h
  refine ⟨⟨ws ++ ws', ?_, ?_⟩, hwaited.trans hw, ?_⟩
  · rw [hq', hq, List.append_assoc]
  · intro w hm
    exact (List.mem_append.1 hm).elim (hws w) (hws' w)
  · rw [← ha, ← hn]
    exact haborted

theorem HandsOver.after (h : HandsOver x s₁ t q u s') (hq : s₁.queued = s.queued ++ ws)
    (hws : ∀ w ∈ ws, Plain x.jobId t.link w) (hw : s₁.waited = s.waited) :
    HandsOver x s t q u s' := by
  obtain ⟨ws', hq', hws'⟩ := h.before
  refine ⟨⟨ws ++ ws', ?_, ?_⟩, ?_, h.unborn, h.queued, h.aborted, h.waited⟩
  · rw [hq', hq, List.append_assoc]
  · intro w hm
    exact (List.mem_append.1 hm).elim (hws w) (hws' w)
  · rw [← hw]
    exact h.new

section
variable {x : Scrape} {s s' : Progress} {t : Turn} {info : LocalMeta}

theorem plain_updateItem (hs : status ≠ .completed) (info : LocalMeta) :
    Plain x.jobId t.link (.item (x.updateItem t status info)) := .item (itemKey_makeMetadata ..) hs

theorem plain_report (h : r.Open) : Plain x.jobId t.link (x.report t r) := by
  cases r with
  | item status info => exact plain_updateItem h info
  | job status => exact .job

theorem unborn_iff {db : Db} {u : Upsert} (hu : u.articleId = ulid) :
    ¬ db.articles.any (hasId ulid) = true ↔ u.Unborn db.store.db := by
  rw [List.any_eq_true, Upsert.Unborn, hu]
  simp only [hasId, decide_eq_true_eq, not_exists, not_and]
  exact Iff.rfl

/-- What persisting an article comes to. -/
theorem persist_cases (h : x.persist s t info title conclusion summary = some s')
    (ha : s.aborted = false) :
    (t.found = false ∧ Plainly x s t s') ∨ t.found = true ∧ ∃ u, HandsOver x s t s.queued u s' := by
  rw [Scrape.persist] at h
  split at h
  next => cases h
  next hunused =>
    split at h
    next => cases h
    next p hp =>
      obtain ⟨hembedded, hnone, hnew⟩ := sync_article hp
      have hjobs : ∀ w ∈ if p.2 then [] else [Write.job "PARTIAL"], ∃ status, w = .job status := by
        intro w hw
        split at hw
        · cases hw
        · exact ⟨_, List.mem_singleton.1 hw⟩
      obtain ⟨u?, embedded⟩ := p
      cases u? with
      | none =>
        cases h
        refine .inl ⟨hnone.1 rfl, ⟨⟨_, rfl, fun w hw => ?_⟩, rfl, fun ha _ => ha⟩⟩
        obtain ⟨status, rfl⟩ := hjobs w hw
        exact .job
      | some u =>
        have hfound : t.found = true := by
          rw [← Bool.not_eq_false]
          exact fun hf => Option.some_ne_none u (hnone.2 hf)
        have hu := hnew u rfl
        have hrefuses : x.refuses s t u = true ↔ ¬ ∃ store,
            (u.statements x.env).foldlM (Store.exec t.committedAt)
              (x.db.commitAll x.env s.queued).store = .ok store := by
          rw [Scrape.refuses, Scrape.final]
          cases (u.statements x.env).foldlM (Store.exec t.committedAt)
              (x.db.commitAll x.env s.queued).store with
          | ok store => simp
          | error err => simp
        have hbefore : ∃ ws, s.queued = s.queued ++ ws ∧ ∀ w ∈ ws, Plain x.jobId t.link w :=
          ⟨[], (List.append_nil _).symm, fun _ hw => (List.not_mem_nil hw).elim⟩
        have hunborn : u.Unborn (x.final s).store.db := (unborn_iff hu.id).1 hunused
        refine .inr ⟨hfound, u, ?_⟩
        dsimp only at h
        split at h
        next hbad =>
          cases h
          rw [Bool.or_eq_true, hrefuses] at hbad
          exact ⟨hbefore, ⟨_, hu⟩, hunborn, ⟨_, _, rfl, hjobs⟩, iff_of_true rfl hbad, nofun⟩
        next hgood =>
          cases h
          rw [Bool.or_eq_true, hrefuses] at hgood
          refine ⟨hbefore, ⟨_, hu⟩, hunborn, ⟨_, _, rfl, hjobs⟩, iff_of_false ?_ hgood, fun _ => rfl⟩
          exact fun hs => Bool.false_ne_true (ha.symm.trans hs)

/-- Any other result is only reported. -/
theorem settle_plain (x : Scrape) (s : Progress) (t : Turn) (p : Processed) (result : Result) :
    Plainly x s t (x.settle s t p result) := by
  have hone (status : ItemStatus) (hs : status ≠ .completed) (info : LocalMeta) :
      ∀ w ∈ [Write.item (x.updateItem t status info)], Plain x.jobId t.link w := by
    intro w hw
    rw [List.mem_singleton.1 hw]
    exact plain_updateItem hs info
  unfold Scrape.settle
  split
  · refine ⟨⟨[], (List.append_nil _).symm, fun _ hw => (List.not_mem_nil hw).elim⟩, rfl, ?_⟩
    intro _ hn
    exact decide_eq_false (Nat.not_le.2 hn)
  · split
    · exact ⟨⟨_, rfl, hone _ ItemStatus.noConfusion _⟩, rfl, fun ha _ => ha⟩
    · exact ⟨⟨_, rfl, hone _ ItemStatus.noConfusion _⟩, rfl, fun ha _ => ha⟩

/-- An article is handed over exactly when the processing yields one and row ids are found. -/
theorem process_cases (h : x.process s t info = some s') (ha : s.aborted = false) :
    ((yields t.answers info && t.found) = false ∧ Plainly x s t s') ∨
      (yields t.answers info && t.found) = true ∧ ∃ q u, HandsOver x s t q u s' := by
  have hreports : ∀ w ∈ (processArticle t.answers info).reports.map (x.report t),
      Plain x.jobId t.link w := by
    intro w hw
    obtain ⟨r, hr, rfl⟩ := List.mem_map.1 hw
    exact plain_report (open_processArticle t.answers info r hr)
  obtain ⟨result, hresult⟩ := result_processArticle t.answers info
  rw [yields, hresult, Option.map_some]
  simp only [Scrape.process, hresult] at h
  cases hp : parseArticleResult result with
  | article title conclusion summary =>
    rw [hp] at h
    rw [Bool.true_and]
    rcases persist_cases h ha with ⟨hf, hplain⟩ | ⟨hf, u, hu⟩
    · exact .inl ⟨hf, hplain.after rfl hreports rfl rfl rfl⟩
    · exact .inr ⟨hf, _, u, hu.after rfl hreports rfl⟩
  | other result' =>
    rw [hp] at h
    cases h
    exact .inl ⟨Bool.false_and _, (settle_plain x _ t _ result').after rfl hreports rfl rfl rfl⟩

/-- So it is with an item that is gone on with. -/
theorem attempt_cases (h : x.attempt s t info = some s') (ha : s.aborted = false) :
    ((yields t.answers info && t.found) = false ∧ Plainly x s t s') ∨
      (yields t.answers info && t.found) = true ∧ ∃ q u, HandsOver x s t q u s' := by
  have hrunning : ∀ w ∈ [Write.item (x.updateItem t .running info)], Plain x.jobId t.link w := by
    intro w hw
    rw [List.mem_singleton.1 hw]
    exact plain_updateItem ItemStatus.noConfusion info
  rw [Scrape.attempt] at h
  dsimp only at h
  obtain ⟨s₁, hs₁⟩ : ∃ s₁ : Progress, s₁ = { s.queue [.item (x.updateItem t .running info)] with
      attempted := s.attempted ++ [t.link] } := ⟨_, rfl⟩
  have hq : s₁.queued = s.queued ++ [.item (x.updateItem t .running info)] := by
    rw [hs₁]
    rfl
  obtain ⟨hw, hn, hb⟩ : s₁.waited = s.waited ∧ s₁.navFailures = s.navFailures ∧
      s₁.aborted = s.aborted := by
    rw [hs₁]
    exact ⟨rfl, rfl, rfl⟩
  rw [← hs₁] at h
  have hlift {info' : LocalMeta} (h : x.process s₁ t info' = some s') :
      ((yields t.answers info' && t.found) = false ∧ Plainly x s t s') ∨
        (yields t.answers info' && t.found) = true ∧ ∃ q u, HandsOver x s t q u s' := by
    rcases process_cases h (hb.trans ha) with ⟨hf, hplain⟩ | ⟨hf, q, u, hu⟩
    · exact .inl ⟨hf, hplain.after hq hrunning hw hn hb⟩
    · exact .inr ⟨hf, q, u, hu.after hq hrunning hw⟩
  split at h
  next hs =>
    have hno : (yields t.answers info && t.found) = false := by
      rw [yields_summarized _ hs, Bool.false_and]
    split at h
    next r _ =>
      split at h
      next =>
        cases h
        exact .inl ⟨hno, ⟨_, hq, hrunning⟩, hw, fun ha _ => hb.trans ha⟩
      next =>
        have hs' : s₁.queue [.job "PARTIAL"] = s' := Option.some.inj h
        have hjob : ∀ w ∈ [Write.job "PARTIAL"], Plain x.jobId t.link w := by
          intro w hw
          rw [List.mem_singleton.1 hw]
          exact .job
        have hplain : Plainly x s₁ t s' := by
          rw [← hs']
          exact ⟨⟨_, rfl, hjob⟩, rfl, fun ha _ => ha⟩
        exact .inl ⟨hno, hplain.after hq hrunning hw hn hb⟩
    next =>
      have hsame : LocalMeta.summarized { info with retryable := true } = true := hs
      rcases hlift h with hf | ⟨hyes, _⟩
      · exact .inl ⟨hno, hf.2⟩
      · rw [yields_summarized _ hsame] at hyes
        cases hyes
  next => exact hlift h

/-- What persisting leaves of the state of the loop. -/
theorem persist_control (h : x.persist s t info title conclusion summary = some s') :
    s'.attempted = s.attempted ∧ s'.cancelled = s.cancelled ∧ s'.navFailures ≤ s.navFailures + 1 := by
  rw [Scrape.persist] at h
  split at h
  next => cases h
  next =>
    split at h
    next => cases h
    next p _ =>
      dsimp only at h
      split at h
      next =>
        cases h
        exact ⟨rfl, rfl, Nat.zero_le _⟩
      next =>
        split at h
        next =>
          cases h
          exact ⟨rfl, rfl, Nat.zero_le _⟩
        next =>
          cases h
          exact ⟨rfl, rfl, Nat.zero_le _⟩

theorem settle_control (x : Scrape) (s : Progress) (t : Turn) (p : Processed) (result : Result) :
    (x.settle s t p result).attempted = s.attempted ∧
      (x.settle s t p result).cancelled = s.cancelled ∧
      (x.settle s t p result).navFailures ≤ s.navFailures + 1 := by
  unfold Scrape.settle
  split
  · exact ⟨rfl, rfl, Nat.le_refl _⟩
  · split
    · exact ⟨rfl, rfl, Nat.zero_le _⟩
    · exact ⟨rfl, rfl, Nat.le_succ _⟩

theorem process_control (h : x.process s t info = some s') :
    s'.attempted = s.attempted ∧ (t.answers.Goes → s'.cancelled = s.cancelled) ∧
      s'.navFailures ≤ s.navFailures + 1 := by
  obtain ⟨result, hresult⟩ := result_processArticle t.answers info
  have hcancelled (hg : t.answers.Goes) :
      (s.cancelled || (processArticle t.answers info).cancels) = s.cancelled := by
    rw [cancels_processArticle hg, Bool.or_false]
  simp only [Scrape.process, hresult] at h
  cases hp : parseArticleResult result with
  | article title conclusion summary =>
    rw [hp] at h
    obtain ⟨hattempted, hc, hn⟩ := persist_control h
    exact ⟨hattempted, fun hg => hc.trans (hcancelled hg), hn⟩
  | other result' =>
    rw [hp] at h
    obtain ⟨hattempted, hc, hn⟩ := settle_control x
      { s.queue ((processArticle t.answers info).reports.map (x.report t)) with
        cancelled := s.cancelled || (processArticle t.answers info).cancels } t
      (processArticle t.answers info) result'
    rw [← Option.some.inj h]
    exact ⟨hattempted, fun hg => hc.trans (hcancelled hg), hn⟩

theorem attempt_control (h : x.attempt s t info = some s') :
    s'.attempted = s.attempted ++ [t.link] ∧ (t.answers.Goes → s'.cancelled = s.cancelled) ∧
      s'.navFailures ≤ s.navFailures + 1 := by
  rw [Scrape.attempt] at h
  dsimp only at h
  split at h
  next =>
    split at h
    next =>
      split at h
      next =>
        cases h
        exact ⟨rfl, fun _ => rfl, Nat.le_succ _⟩
      next =>
        rw [← Option.some.inj h]
        exact ⟨rfl, fun _ => rfl, Nat.le_succ _⟩
    next => exact process_control h
  next => exact process_control h

end

end Scraper
