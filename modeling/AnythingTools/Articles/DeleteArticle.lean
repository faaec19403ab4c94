import AnythingTools.Articles.SearchIndex

namespace Articles
open Relational Relational.Database Sync Schemas
set_option autoImplicit true

/-- The columns that refer to an article. -/
def references : List (String × String) :=
  [("broadcast_details", "article_id"), ("scraped_articles_vec_backup", "article_id")]

/-- No row of the table has the id in the column. -/
def Clear (db : Database) (articleId : String) (p : String × String) : Prop :=
  ∀ r ∈ db.rows p.1, r.get p.2 ≠ .text articleId

/-- Neither the article nor a row that refers to it. -/
def Gone (db : Database) (articleId : String) : Prop :=
  ∀ p ∈ ("scraped_articles", "id") :: references, Clear db articleId p

/-- The tables of the articles as they are declared. -/
structure Declared (db : Database) : Prop where
  articles : Stocked db
  referring : ∀ p ∈ references, ∃ T, db.find p.1 = some T ∧
    ⟨p.2, "scraped_articles", "id"⟩ ∈ T.schema.foreignKeys

theorem matchesKey_id (articleId : String) (r : Row) :
    scrapedArticles.schema.matchesKey [("id", .text articleId)] r = true ↔
      r.get "id" = .text articleId := by
  have hbind : scrapedArticles.schema.bind [("id", .text articleId)] =
      [("id", .text articleId)] := rfl
  rw [Schema.matchesKey, hbind, Row.sameKey_iff]
  constructor
  · exact fun h => (h "id" (List.mem_singleton_self _)).2.symm
  · intro h c hc
    have hc : c = "id" := List.mem_singleton.1 hc
    rw [hc, h]
    exact ⟨Value.noConfusion, rfl⟩

/-- The local transaction deletes the article and what refers to it. -/
theorem commit_delete {s : Store} (hs : Stocked s.db) (now : String) (articleId : String) :
    (s.commit now (deleteArticle articleId)).db =
      s.db.deleteRows "scraped_articles" fun r =>
        scrapedArticles.schema.matchesKey [("id", .text articleId)] r := by
  obtain ⟨T, hT, hSchema⟩ := hs
  have hexec : s.db.exec now (.delete "scraped_articles" [("id", .text articleId)]) =
      .ok (s.db.deleteRows "scraped_articles" fun r =>
        scrapedArticles.schema.matchesKey [("id", .text articleId)] r) := by
    rw [exec, hT]
    dsimp only
    rw [hSchema]
  obtain ⟨s', hs', hdb⟩ := data_succeeds hexec
  rw [← hdb]
  congr 1
  apply commit_ok
  rw [deleteArticle, List.foldlM_cons]
  change (s.data now _ >>= _) = _
  rw [hs']
  rfl

/-- Locally the cascade leaves no row of the article, unless one referred to an article that was not
there. -/
theorem gone_local_iff {s : Store} (hd : Declared s.db) (now : String) (articleId : String) :
    Gone (s.commit now (deleteArticle articleId)).db articleId ↔
      ∀ p ∈ references, Clear s.db articleId p ∨
        ∃ r ∈ s.db.rows "scraped_articles", r.get "id" = .text articleId := by
  rw [commit_delete hd.articles]
  constructor
  · intro h p hp
    by_contra hno
    rw [not_or, Clear] at hno
    push Not at hno
    obtain ⟨⟨r, hr, he⟩, hnone⟩ := hno
    refine h p (List.mem_cons_of_mem _ hp) r (mem_deleteRows.2 ⟨hr, ?_, ?_⟩) he
    · intro ⟨ht, _⟩
      have hne : ∀ p ∈ references, p.1 ≠ "scraped_articles" := by decide
      exact hne p hp ht
    · -- no article is deleted, so nothing is doomed
      intro hdoom
      have hdead : ∀ v q, ¬ (v = "scraped_articles" ∧ q ∈ s.db.rows "scraped_articles" ∧
          scrapedArticles.schema.matchesKey [("id", .text articleId)] q = true) :=
        fun v q hq => hnone q hq.2.1 ((matchesKey_id articleId q).1 hq.2.2)
      have hnot : ∀ {v q}, ¬ Doomed s.db.tables (fun v q => v = "scraped_articles" ∧
          q ∈ s.db.rows "scraped_articles" ∧
          scrapedArticles.schema.matchesKey [("id", .text articleId)] q = true) v q := by
        intro v q hq
        induction hq with
        | direct hp _ _ _ _ => exact hdead _ _ hp
        | chain _ _ _ _ _ ih => exact ih
      exact hnot hdoom
  · intro h p hp r hr he
    obtain ⟨hr, hkeep, hdoom⟩ := mem_deleteRows.1 hr
    rcases List.mem_cons.1 hp with rfl | hp
    · exact hkeep ⟨rfl, (matchesKey_id articleId r).2 he⟩
    · rcases h p hp with hclear | ⟨a, ha, hid⟩
      · exact hclear r hr he
      · obtain ⟨T, hT, hf⟩ := hd.referring p hp
        have hrT : r ∈ T.rows := by
          rw [← rows_of_find hT]
          exact hr
        refine hdoom (.direct ⟨rfl, ha, (matchesKey_id articleId a).2 hid⟩ hT hrT hf ?_)
        rw [ForeignKey.links_iff]
        exact ⟨by rw [he]; exact Value.noConfusion, he.trans hid.symm⟩

/-- The cloud task deletes the article and nothing else. -/
theorem drain_delete {cloud : Database} (hs : Stocked cloud) (engine : CloudEngine)
    (articleId : String) :
    (drain engine cloud [deleteTask articleId]).rows "scraped_articles" =
        (cloud.rows "scraped_articles").filter (fun q => !hasId articleId q) ∧
      ∀ u, u ≠ "scraped_articles" →
        (drain engine cloud [deleteTask articleId]).rows u = cloud.rows u := by
  obtain ⟨C, hC, hSchema⟩ := hs
  have hkey (q : Row) : Row.sameKey ["id"] q [("id", .text articleId)] = hasId articleId q := by
    rw [Bool.eq_iff_iff, Row.sameKey_iff, hasId, decide_eq_true_eq]
    constructor
    · exact fun h => (h "id" (List.mem_singleton_self _)).2
    · intro h c hc
      rw [List.mem_singleton.1 hc, h]
      exact ⟨Value.noConfusion, rfl⟩
  have hbound : boundRecords (.one "id") [[("id", .text articleId)]] =
      [[("id", .text articleId)]] := rfl
  have hfits : ¬ ((PkCol.one "id").cols = [] ∨
      (∃ c ∈ (PkCol.one "id").cols, c ∉ C.schema.names) ∨
        ∃ r ∈ [[("id", Value.text articleId)]], ∃ c ∈ (PkCol.one "id").cols,
          c ∉ Row.columns r) := by
    rw [hSchema]
    rintro (h | ⟨c, hc, hn⟩ | ⟨r, hr, c, hc, hn⟩)
    · cases h
    · rw [List.mem_singleton.1 hc] at hn
      exact hn (by decide)
    · rw [List.mem_singleton.1 hr, List.mem_singleton.1 hc] at hn
      exact hn List.mem_cons_self
  have hflush : flushGroup engine cloud ((deleteTask articleId).key,
      (deleteTask articleId).records) = .ok (cloud.update "scraped_articles" fun _ =>
        Table.deleteWhere C fun q => hasId articleId q) := by
    change flushDelete cloud "scraped_articles" (.one "id") [[("id", .text articleId)]] = _
    rw [flushDelete_eq, hbound, if_neg (List.cons_ne_nil _ _), hC]
    dsimp only
    rw [if_neg hfits]
    have hcols : (PkCol.one "id").cols = ["id"] := rfl
    simp only [List.any_cons, List.any_nil, Bool.or_false, hcols, hkey]
  rw [drain, List.foldl_cons, List.foldl_nil, hflush]
  constructor
  · change (cloud.update "scraped_articles" _).rows _ = _
    rw [rows_set hC, rows_of_find hC]
    rfl
  · exact fun u hu => rows_set_ne cloud _ hu

theorem gone_cloud_iff {cloud : Database} (hs : Stocked cloud) (engine : CloudEngine)
    (articleId : String) :
    Gone (drain engine cloud [deleteTask articleId]) articleId ↔
      ∀ p ∈ references, Clear cloud articleId p := by
  obtain ⟨hrows, hother⟩ := drain_delete hs engine articleId
  have hne : ∀ p ∈ references, p.1 ≠ "scraped_articles" := by decide
  constructor
  · intro h p hp
    have hclear := h p (List.mem_cons_of_mem _ hp)
    rw [Clear, hother _ (hne p hp)] at hclear
    exact hclear
  · intro h p hp
    rcases List.mem_cons.1 hp with rfl | hp
    · intro r hr hid
      rw [hrows] at hr
      have hgone := (List.mem_filter.1 hr).2
      have hhit : hasId articleId r = true := decide_eq_true hid
      rw [hhit] at hgone
      cases hgone
    · rw [Clear, hother _ (hne p hp)]
      exact h p hp

/-- What a pull of the tables would bring back. -/
def PulledBack (e : Env) (cloud : Database) (articleId : String) : Prop :=
  ∃ p ∈ ("scraped_articles", "id") :: references, ∃ C, cloud.find p.1 = some C ∧
    ∃ r ∈ pullRecords e p.1 C, r.get p.2 = .text articleId

/-- A pull brings back only what the cloud has. -/
theorem not_pulledBack {cloud : Database} (e : Env) (h : Gone cloud articleId) :
    ¬ PulledBack e cloud articleId := by
  rintro ⟨p, hp, C, hC, r, hr, he⟩
  have hcols : ∀ p ∈ ("scraped_articles", "id") :: references, p.2 ≠ "content_hash" := by decide
  have hcol := hcols p hp
  rw [pullRecords] at hr
  obtain ⟨r₁, hr₁, rfl⟩ := List.mem_map.1 hr
  have hget : r₁.get p.2 = .text articleId := by
    split at he
    · rw [Row.get_set_ne _ _ hcol] at he
      exact he
    · exact he
  have hbuilt : r₁ ∈ C.rows.map fun r => Row.build C.schema.names r.get := by
    split at hr₁
    · exact (List.mem_filter.1 hr₁).1
    · exact hr₁
  obtain ⟨q, hq, rfl⟩ := List.mem_map.1 hbuilt
  have hcell : q.get p.2 = .text articleId := by
    rw [Row.get_build] at hget
    split at hget
    · exact hget
    · cases hget
  exact h p hp q (by rw [rows_of_find hC]; exact hq) hcell

/-- The deletion reaches every row of the article exactly where the cloud has none that refers to
it, and locally the references were kept. -/
theorem delete_article_iff {s : Store} {cloud : Database} (hd : Declared s.db) (hc : Stocked cloud)
    (now : String) (e : Env) (engine : CloudEngine) (articleId : String) :
    (Gone (s.commit now (deleteArticle articleId)).db articleId ∧
        Gone (drain engine cloud [deleteTask articleId]) articleId ∧
        ¬ PulledBack e (drain engine cloud [deleteTask articleId]) articleId) ↔
      (∀ p ∈ references, Clear cloud articleId p) ∧
        ∀ p ∈ references, Clear s.db articleId p ∨
          ∃ r ∈ s.db.rows "scraped_articles", r.get "id" = .text articleId := by
  rw [gone_local_iff hd, gone_cloud_iff hc]
  constructor
  · exact fun ⟨hlocal, hcloud, _⟩ => ⟨hcloud, hlocal⟩
  · intro ⟨hcloud, hlocal⟩
    exact ⟨hlocal, hcloud, not_pulledBack e ((gone_cloud_iff hc engine articleId).2 hcloud)⟩

def batchCells : Row :=
  broadcastBatches.schema.coerce "2024-05-01 11:00:00"
    [("batch_id", .text "01HWTVH5B00000000000000003"), ("target_site", .text "site")]

/-- The article is in a batch. -/
def detailCells : Row :=
  broadcastDetails.schema.coerce "2024-05-01 11:00:00"
    [("detail_id", .int 1), ("batch_id", .text "01HWTVH5B00000000000000003"),
      ("article_id", .text firstUpsert.articleId)]

def batched (db : Database) : Database :=
  (db.append "broadcast_batches" batchCells).append "broadcast_details" detailCells

def batchedStore : Store := { storedOnce with db := batched storedOnce.db }

/-- The detail goes with the article locally and stays in the cloud. -/
theorem detail_left :
    (batchedStore.commit "2024-05-02 10:00:00" (deleteArticle firstUpsert.articleId)).db.rows
        "broadcast_details" = [] ∧
      (drain articleEngine (batched cloudOnce) [deleteTask firstUpsert.articleId]).rows
        "broadcast_details" = [detailCells] ∧
      ¬ Gone (drain articleEngine (batched cloudOnce) [deleteTask firstUpsert.articleId])
        firstUpsert.articleId := by
  have hleft : (drain articleEngine (batched cloudOnce) [deleteTask firstUpsert.articleId]).rows
      "broadcast_details" = [detailCells] := by decide +kernel
  refine ⟨by decide +kernel, hleft, ?_⟩
  intro h
  refine h ("broadcast_details", "article_id") (by decide) detailCells ?_ rfl
  rw [hleft]
  exact List.mem_singleton_self _

instance (db : Database) (articleId : String) (p : String × String) :
    Decidable (Clear db articleId p) :=
  inferInstanceAs (Decidable (∀ r ∈ db.rows p.1, r.get p.2 ≠ .text articleId))

/-- An article without a batch and without a vector is deleted everywhere. -/
theorem deleted_everywhere :
    Gone (storedOnce.commit "2024-05-02 10:00:00" (deleteArticle firstUpsert.articleId)).db
        firstUpsert.articleId ∧
      Gone (drain articleEngine cloudOnce [deleteTask firstUpsert.articleId])
        firstUpsert.articleId ∧
      ¬ PulledBack hashEnv (drain articleEngine cloudOnce [deleteTask firstUpsert.articleId])
        firstUpsert.articleId := by
  have hdeclared : Declared storedOnce.db := by
    constructor
    · exact (kept_upsertArticle kept_bare _ _ _).stocked
    · have hfound : ∀ p ∈ references, ∃ T ∈ storedOnce.db.find p.1,
          ⟨p.2, "scraped_articles", "id"⟩ ∈ T.schema.foreignKeys := by decide +kernel
      exact hfound
  have hstocked : Stocked cloudOnce := by
    have hfound : ∃ C ∈ cloudOnce.find "scraped_articles",
        C.schema = scrapedArticles.schema := by decide +kernel
    exact hfound
  exact (delete_article_iff hdeclared hstocked _ hashEnv articleEngine _).2
    ⟨by decide +kernel, by decide +kernel⟩

end Articles
