import AnythingTools.Articles.UpsertOutcome
import AnythingTools.Sync.CascadeFrame

namespace Articles
open Relational Relational.Database Sync Schemas
set_option autoImplicit true

/-- In the cloud the URL and the id belong to each other, and the id to one row at most. -/
def Upsert.CloudOwns (cloud : Database) (u : Upsert) : Prop :=
  (∀ q ∈ cloud.rows "scraped_articles", q.get "url" = u.url → q.get "id" = .text u.articleId) ∧
    (cloud.rows "scraped_articles").countP (hasId u.articleId) ≤ 1

theorem columns_record (e : Env) (u : Upsert) : (u.rowData e).columns =
    ["id", "url", "title", "conclusion", "summary", "metadata_json", "embedding_status",
      "vec_rowid", "content_hash", "scraped_at", "updated_at"] := rfl

theorem fits_record (e : Env) (u : Upsert) :
    Fits scrapedArticles.schema ["id"] (u.rowData e) := by
  constructor
  · intro c hc
    rw [List.mem_singleton.1 hc]
    exact List.mem_cons_self
  · rw [columns_record]
    decide

theorem sameKey_record (e : Env) (u : Upsert) (q : Row) :
    Row.sameKey ["id"] q (u.rowData e) = hasId u.articleId q := by
  rw [Bool.eq_iff_iff, Row.sameKey_iff, hasId, decide_eq_true_eq]
  constructor
  · exact fun h => (h "id" (List.mem_singleton_self _)).2
  · intro h c hc
    rw [List.mem_singleton.1 hc, h]
    exact ⟨Value.noConfusion, rfl⟩

/-- The merge by id leaves one row under the URL exactly where the cloud gives the URL and the id
to each other. -/
theorem single_mergeRow (e : Env) (u : Upsert) (now : String) (rows : List Row) :
    (∃ q, (scrapedArticles.schema.mergeRow now ["id"] (u.rowData e) rows).filter
        (fun r => decide (r.get "url" = u.url)) = [q]) ↔
      (∀ q ∈ rows, q.get "url" = u.url → q.get "id" = .text u.articleId) ∧
        rows.countP (hasId u.articleId) ≤ 1 := by
  have hkey : (fun q => Row.sameKey ["id"] q (u.rowData e)) = hasId u.articleId := by
    funext q
    exact sameKey_record e u q
  have htouch (q : Row) : decide ((scrapedArticles.schema.touch ["id"] (u.rowData e) q).get "url" = u.url)
      = (hasId u.articleId q || decide (q.get "url" = u.url)) := by
    rw [Schema.touch, sameKey_record]
    cases hasId u.articleId q with
    | true => exact decide_eq_true (by rfl)
    | false => rfl
  have hurl (q : Row) : decide (q.get "url" = u.url) = true ↔ q.get "url" = u.url := decide_eq_true_iff
  have hid (q : Row) : hasId u.articleId q = true ↔ q.get "id" = .text u.articleId :=
    decide_eq_true_iff
  rw [Grouping.singleton_iff_countP]
  by_cases hany : rows.any (hasId u.articleId) = true
  · have hcount := Grouping.countP_or_eq_one (q := fun r : Row => decide (r.get "url" = u.url)) hany
    simp only [hurl, hid] at hcount
    rw [mergeRow_map (by rw [hkey]; exact hany), List.countP_map, ← hcount]
    have hcongr : (fun r : Row => decide (r.get "url" = u.url)) ∘
        scrapedArticles.schema.touch ["id"] (u.rowData e) =
          fun q => hasId u.articleId q || decide (q.get "url" = u.url) := funext htouch
    rw [hcongr]
  · have hnone : ∀ q ∈ rows, ¬ hasId u.articleId q = true :=
      fun q hq hi => hany (List.any_eq_true.2 ⟨q, hq, hi⟩)
    rw [mergeRow_append (by rw [hkey, ← Bool.not_eq_true]; exact hany), List.countP_append]
    have hfill : [scrapedArticles.schema.fill now (u.rowData e)].countP
        (fun r => decide (r.get "url" = u.url)) = 1 := by
      rw [List.countP_singleton]
      exact if_pos (decide_eq_true (by rfl))
    rw [hfill, Nat.add_eq_right, List.countP_eq_zero, List.countP_eq_zero.2 hnone]
    constructor
    · exact fun h => ⟨fun q hq hu => absurd ((hurl q).2 hu) (h q hq), Nat.zero_le 1⟩
    · exact fun h q hq hu => hnone q hq ((hid q).2 (h.1 q hq ((hurl q).1 hu)))

/-- What may not be NULL is in the record. -/
theorem notNulls_record (e : Env) (u : Upsert) (now : String) {rows : List Row}
    (h : ∀ r ∈ rows, scrapedArticles.schema.notNulls r = true) :
    ((scrapedArticles.schema.mergeRow now ["id"] (u.rowData e) rows).all
      scrapedArticles.schema.notNulls) = true ↔ u.Complete := by
  have hsub : ∀ c ∈ notNullColumns, c ∈ (u.rowData e).columns := by
    rw [columns_record]
    decide
  have hcells (q : Row) (hq : Row.Agree (u.rowData e).columns q (u.rowData e)) :
      scrapedArticles.schema.notNulls q = true ↔ u.Complete := by
    rw [← u.record_notNulls e, notNulls_iff]
    constructor
    · intro hn c hc
      rw [← hq c (hsub c hc)]
      exact hn c hc
    · intro hn c hc
      rw [hq c (hsub c hc)]
      exact hn c hc
  rw [List.all_eq_true]
  constructor
  · intro hall
    obtain ⟨q, hq, hagree⟩ := exists_mergeRow (fits_record e u) now rows
    exact (hcells q hagree).1 (hall q hq)
  · intro hc q hq
    rcases mem_mergeRow (fits_record e u) hq with hq | hagree
    · exact h q hq
    · exact (hcells q hagree).2 hc

/-- The record reaches the cloud where the article is complete. -/
theorem flush_article {cloud : Database} (h : CloudShelf cloud) (e : Env) (engine : CloudEngine)
    (u : Upsert) (hu : u.Complete) :
    ∃ cloud', flushGroup engine cloud
        ((cloudWrite "scraped_articles" (u.rowData e) (.one "id")).key,
          (cloudWrite "scraped_articles" (u.rowData e) (.one "id")).records) = .ok cloud' ∧
      cloud'.rows "scraped_articles" = scrapedArticles.schema.mergeRow engine.now ["id"]
        (u.rowData e) (cloud.rows "scraped_articles") ∧
      cloud'.find "scraped_articles_vec_backup" = cloud.find "scraped_articles_vec_backup" := by
  obtain ⟨C, hC, hS⟩ := h.articles
  have hrows := rows_of_find hC
  have hnulls := (notNulls_record e u engine.now h.notNulls).2 hu
  rw [flushGroup_single hC (hS ▸ fits_record e u) rfl (by decide)
    ⟨"url", by rw [columns_record]; decide⟩, hS, ← hrows, if_pos hnulls]
  exact ⟨_, rfl, rows_set hC _, find_update_ne _ _ (by decide)⟩

theorem flush_incomplete {cloud : Database} (h : CloudShelf cloud) (e : Env) (engine : CloudEngine)
    (u : Upsert) (hu : ¬ u.Complete) :
    flushGroup engine cloud ((cloudWrite "scraped_articles" (u.rowData e) (.one "id")).key,
      (cloudWrite "scraped_articles" (u.rowData e) (.one "id")).records) = .error .constraint := by
  obtain ⟨C, hC, hS⟩ := h.articles
  have hrows := rows_of_find hC
  have hnulls := fun hall => hu ((notNulls_record e u engine.now h.notNulls).1 hall)
  rw [flushGroup_single hC (hS ▸ fits_record e u) rfl (by decide)
    ⟨"url", by rw [columns_record]; decide⟩, hS, ← hrows, if_neg hnulls]

theorem backup_notNulls_iff {r : Row} : scrapedArticlesVecBackup.schema.notNulls r = true ↔
    ∀ c ∈ ["article_id", "embedding", "hashed_at"], r.get c ≠ .null := by
  have hnames : scrapedArticlesVecBackup.schema.notNullNames =
      ["article_id", "embedding", "hashed_at"] := by decide
  rw [Schema.notNulls_iff, hnames]

theorem columns_backupRow (u : Upsert) (v : Int) (bs : List UInt8) :
    (u.backupRow v bs).columns = ["rowid", "article_id", "embedding", "hashed_at"] := rfl

theorem fits_backupRow (u : Upsert) (v : Int) (bs : List UInt8) :
    Fits scrapedArticlesVecBackup.schema ["rowid"] (u.backupRow v bs) := by
  constructor
  · intro c hc
    rw [List.mem_singleton.1 hc]
    exact List.mem_cons_self
  · rw [columns_backupRow]
    decide

theorem notNulls_backupRow (u : Upsert) (v : Int) (bs : List UInt8) (now : String) {rows : List Row}
    (h : ∀ r ∈ rows, scrapedArticlesVecBackup.schema.notNulls r = true) :
    ((scrapedArticlesVecBackup.schema.mergeRow now ["rowid"] (u.backupRow v bs) rows).all
      scrapedArticlesVecBackup.schema.notNulls) = true ↔ u.updatedAt ≠ .null := by
  have hcells (q : Row) (hq : Row.Agree (u.backupRow v bs).columns q (u.backupRow v bs)) :
      scrapedArticlesVecBackup.schema.notNulls q = true ↔ u.updatedAt ≠ .null := by
    rw [columns_backupRow] at hq
    rw [backup_notNulls_iff]
    constructor
    · intro hn hnull
      exact hn "hashed_at" (by decide) ((hq "hashed_at" (by decide)).trans hnull)
    · intro hn c hc
      have hsub : ∀ c ∈ ["article_id", "embedding", "hashed_at"],
          c ∈ ["rowid", "article_id", "embedding", "hashed_at"] := by decide
      rw [hq c (hsub c hc)]
      simp only [List.mem_cons, List.not_mem_nil, or_false] at hc
      rcases hc with rfl | rfl | rfl
      · exact Value.noConfusion
      · exact Value.noConfusion
      · exact hn
  rw [List.all_eq_true]
  constructor
  · intro hall
    obtain ⟨q, hq, hagree⟩ := exists_mergeRow (fits_backupRow u v bs) now rows
    exact (hcells q hagree).1 (hall q hq)
  · intro hc q hq
    rcases mem_mergeRow (fits_backupRow u v bs) hq with hq | hagree
    · exact h q hq
    · exact (hcells q hagree).2 hc

/-- After the merge by row id, the row id has the article of the record. -/
theorem mem_mergeRow_backup (u : Upsert) (v : Int) (bs : List UInt8) (now : String)
    (rows : List Row) (x : Value) :
    (∃ b ∈ scrapedArticlesVecBackup.schema.mergeRow now ["rowid"] (u.backupRow v bs) rows,
      b.get "rowid" = .int v ∧ b.get "article_id" = x) ↔ x = .text u.articleId := by
  have hfit := fits_backupRow u v bs
  have hkey (q : Row) : Row.sameKey ["rowid"] q (u.backupRow v bs) = true ↔
      q.get "rowid" = .int v := by
    rw [Row.sameKey_iff]
    constructor
    · exact fun h => (h "rowid" (List.mem_singleton_self _)).2
    · intro h c hc
      rw [List.mem_singleton.1 hc, h]
      exact ⟨Value.noConfusion, rfl⟩
  constructor
  · rintro ⟨b, hb, hv, rfl⟩
    have hcell : ∀ q : Row, Row.Agree (u.backupRow v bs).columns q (u.backupRow v bs) →
        q.get "article_id" = .text u.articleId :=
      fun q hq => hq "article_id" (by rw [columns_backupRow]; decide)
    rw [Schema.mergeRow] at hb
    split at hb
    · obtain ⟨q, _, rfl⟩ := List.mem_map.1 hb
      split
      next hk => exact hcell _ (Schema.overwrite_agree hfit.named hk)
      next hk =>
        rw [if_neg hk] at hv
        exact absurd ((hkey q).2 hv) hk
    next hany =>
      rcases List.mem_append.1 hb with hb | hb
      · exact absurd (List.any_eq_true.2 ⟨b, hb, (hkey b).2 hv⟩) hany
      · rw [List.mem_singleton.1 hb]
        exact hcell _ (hfit.fill now)
  · rintro rfl
    obtain ⟨q, hq, hagree⟩ := exists_mergeRow hfit now rows
    rw [columns_backupRow] at hagree
    exact ⟨q, hq, hagree "rowid" (by decide), hagree "article_id" (by decide)⟩

theorem staged_backupRow (engine : CloudEngine) (u : Upsert) (v : Int) {bs : List UInt8}
    (h : validVector bs = true) :
    stagedRow engine (u.backupRow v bs).columns (u.backupRow v bs) = some (u.backupRow v bs) := by
  have hnorm : normalizeEmbedding engine ((u.backupRow v bs).get "embedding") = some (.blob bs) := by
    change (if validVector bs = true then some (Value.blob bs) else none) = _
    rw [if_pos h]
  rw [stagedRow, if_pos (by rw [columns_backupRow]; decide), hnorm]
  rfl

/-- The cloud after the backup of the vector. -/
theorem drain_backup {cloud : Database} (engine : CloudEngine) (u : Upsert)
    (hB : cloud.find "scraped_articles_vec_backup" = some B)
    (hS : B.schema = scrapedArticlesVecBackup.schema)
    (hn : ∀ r ∈ B.rows, scrapedArticlesVecBackup.schema.notNulls r = true)
    (hvalid : ∀ v ∈ u.vector, validVector v.2 = true) :
    (drain engine cloud u.backupTasks).rows "scraped_articles" = cloud.rows "scraped_articles" ∧
      ∀ v ∈ u.vector, ∀ x, BackedUp (drain engine cloud u.backupTasks) v.1 x ↔
        if u.updatedAt = .null then BackedUp cloud v.1 x else x = .text u.articleId := by
  rw [Upsert.backupTasks]
  cases hv : u.vector with
  | none => exact ⟨rfl, fun v hm => nomatch hm⟩
  | some p =>
    obtain ⟨v, bs⟩ := p
    have hbs := hvalid (v, bs) hv
    have hflush : flushGroup engine cloud _ = _ := flushGroup_single hB (hS ▸ fits_backupRow u v bs)
      (staged_backupRow engine u v hbs) (by decide) ⟨"article_id", by rw [columns_backupRow]; decide⟩
    rw [hS] at hflush
    dsimp only
    rw [drain, List.foldl_cons, List.foldl_nil, hflush]
    by_cases hnull : u.updatedAt = .null
    · have hall := fun hall => (notNulls_backupRow u v bs engine.now hn).1 hall hnull
      rw [if_neg hall]
      refine ⟨rfl, ?_⟩
      rintro _ ⟨⟩ x
      rw [if_pos hnull]
      rfl
    · have hall := (notNulls_backupRow u v bs engine.now hn).2 hnull
      rw [if_pos hall]
      refine ⟨rows_set_ne cloud _ (by decide), ?_⟩
      rintro _ ⟨⟩ x
      rw [if_neg hnull, ← mem_mergeRow_backup u v bs engine.now B.rows x]
      change (∃ b ∈ (cloud.update "scraped_articles_vec_backup" _).rows _, _) ↔ _
      rw [rows_set hB]

/-- The call lands on both sides: the article is complete, its URL and its id belong to each other
on both, and what only one side takes over is the same on both. -/
structure Lands (e : Env) (db cloud : Database) (u : Upsert) : Prop where
  complete : u.Complete
  status : ∃ st ∈ statuses, u.embeddingStatus = .text st
  owns : u.Owns db
  cloudOwns : u.CloudOwns cloud
  scrapedAt : u.storedScrapedAt db = u.scrapedAt (.text u.later)
  hash : computeRowHash e "scraped_articles" (u.rowData e) = u.contentHash e

/-- Without the call both sides hold the article already. -/
def Stands (e : Env) (db cloud : Database) (u : Upsert) : Prop :=
  ∃ r q, urlRows db u.url = [r] ∧ urlRows cloud u.url = [q] ∧
    Row.Agree scrapedArticles.schema.names q r ∧
    r.get "content_hash" = .text (computeRowHash e "scraped_articles" r) ∧
    ∀ v ∈ u.vector, BackedUp db v.1 (r.get "id") ∧
      if u.updatedAt = .null then BackedUp cloud v.1 (r.get "id")
      else r.get "id" = .text u.articleId

theorem hash_congr (e : Env) (h : Row.Agree scrapedArticles.schema.names r r') :
    computeRowHash e "scraped_articles" r = computeRowHash e "scraped_articles" r' := by
  have hcols : ∀ c ∈ getChecksumColumns e "scraped_articles", c ∈ scrapedArticles.schema.names := by
    have hlookup : e.tables.lookup "scraped_articles" = some scrapedArticles := by
      rw [Env.tables]
      cases e.sqliteVecAvailable <;> decide
    intro c hc
    rw [getChecksumColumns, hlookup] at hc
    exact (List.mem_filter.1 hc).1
  have htexts : ((getChecksumColumns e "scraped_articles").map fun c =>
      strip (Python.strOr (r.get c))) =
        (getChecksumColumns e "scraped_articles").map fun c => strip (Python.strOr (r'.get c)) := by
    apply List.map_congr_left
    intro c hc
    rw [h c (hcols c hc)]
  rw [computeRowHash, computeRowHash, htexts]

theorem drain_cloudTasks (engine : CloudEngine) (cloud : Database) (e : Env) (u : Upsert) :
    drain engine cloud (u.cloudTasks e) =
      drain engine (((flushGroup engine cloud
        ((cloudWrite "scraped_articles" (u.rowData e) (.one "id")).key,
          (cloudWrite "scraped_articles" (u.rowData e) (.one "id")).records)).toOption).getD cloud)
        u.backupTasks := rfl

theorem Upsert.Complete.updatedAt (h : Upsert.Complete u) : u.updatedAt ≠ .null :=
  h "updated_at" (by decide)

/-- The cloud after the two tasks of a complete article. -/
theorem drain_complete {cloud : Database} (h : CloudShelf cloud) (e : Env) (engine : CloudEngine)
    (u : Upsert) (hu : u.Complete) (hvalid : ∀ v ∈ u.vector, validVector v.2 = true) :
    (drain engine cloud (u.cloudTasks e)).rows "scraped_articles" =
        scrapedArticles.schema.mergeRow engine.now ["id"] (u.rowData e)
          (cloud.rows "scraped_articles") ∧
      ∀ v ∈ u.vector, ∀ x, BackedUp (drain engine cloud (u.cloudTasks e)) v.1 x ↔
        x = .text u.articleId := by
  obtain ⟨cloud', hok, hrows, hfind⟩ := flush_article h e engine u hu
  obtain ⟨B, hB, hS⟩ := h.backup
  have hn := h.backupNotNulls
  rw [rows_of_find hB] at hn
  obtain ⟨harticles, hback⟩ := drain_backup engine u (hfind.trans hB) hS hn hvalid
  rw [drain_cloudTasks, hok]
  refine ⟨harticles.trans hrows, ?_⟩
  intro v hv x
  have hx := hback v hv x
  rw [if_neg hu.updatedAt] at hx
  exact hx

/-- An article that is not complete is refused on both sides. -/
theorem outcome_incomplete {s : Store} {cloud : Database} (hs : Shelf s.db) (h : CloudShelf cloud)
    (now : String) (e : Env) (engine : CloudEngine) (u : Upsert) (hu : ¬ u.Complete)
    (hvalid : ∀ v ∈ u.vector, validVector v.2 = true) :
    OneArticle e (s.commit now (u.statements e)).db (drain engine cloud (u.cloudTasks e)) u.url
      u.vector ↔ Stands e s.db cloud u := by
  have hadm : ¬ scrapedArticles.schema.admits (candidate now u.insertRow) = true := by
    intro hadm
    exact hu ((u.candidate_notNulls now).1 (admits_iff.1 hadm).1)
  have hlocal : s.commit now (u.statements e) = s := by
    rw [u.statements_cons e]
    have herr : s.exec now (.upsert u.insertRow) = .error .constraint := upsert_refused hs hadm
    exact commit_error herr _
  obtain ⟨B, hB, hS⟩ := h.backup
  have hn := h.backupNotNulls
  rw [rows_of_find hB] at hn
  obtain ⟨harticles, hback⟩ := drain_backup engine u hB hS hn hvalid
  have hcloud : drain engine cloud (u.cloudTasks e) = drain engine cloud u.backupTasks := by
    rw [drain_cloudTasks, flush_incomplete h e engine u hu]
    rfl
  rw [hlocal, hcloud, OneArticle, Stands, urlRows, urlRows, urlRows, harticles]
  have hvec : ∀ r : Row, (∀ v ∈ u.vector, BackedUp s.db v.1 (r.get "id") ∧
      BackedUp (drain engine cloud u.backupTasks) v.1 (r.get "id")) ↔
      ∀ v ∈ u.vector, BackedUp s.db v.1 (r.get "id") ∧
        if u.updatedAt = .null then BackedUp cloud v.1 (r.get "id")
        else r.get "id" = .text u.articleId := by
    intro r
    apply forall₂_congr
    intro v hv
    rw [hback v hv]
  simp only [hvec]

theorem cloud_single {cloud : Database} (e : Env) (u : Upsert)
    (h : rows cloud' "scraped_articles" = scrapedArticles.schema.mergeRow now ["id"] (u.rowData e)
      (cloud.rows "scraped_articles")) :
    ((∃ q, urlRows cloud' u.url = [q]) ↔ u.CloudOwns cloud) ∧
      ∀ q, urlRows cloud' u.url = [q] → Row.Agree scrapedArticles.schema.names q (u.rowData e) := by
  have hnames : ∀ c ∈ scrapedArticles.schema.names, c ∈ (u.rowData e).columns := by
    rw [columns_record]
    decide
  constructor
  · rw [urlRows, h]
    exact single_mergeRow e u now _
  · intro q hq
    obtain ⟨q', hq', hagree⟩ := exists_mergeRow (fits_record e u) now
      (cloud.rows "scraped_articles")
    have hmem : q' ∈ urlRows cloud' u.url := by
      rw [mem_urlRows, h]
      refine ⟨hq', hagree "url" (hnames "url" (by decide))⟩
    rw [hq, List.mem_singleton] at hmem
    rw [← hmem]
    exact hagree.subset hnames

/-- A local row of the record shows that the URL and the id belonged to each other. -/
theorem owns_of_landed {s : Store} (hs : Shelf s.db) (e : Env) {u : Upsert} (hu : u.Complete)
    (hr : urlRows (s.commit now (u.statements e)).db u.url = [r])
    (hid : r.get "id" = .text u.articleId) : u.Owns s.db := by
  have hforward : ∀ p ∈ s.db.rows "scraped_articles", p.get "url" = u.url →
      p.get "id" = .text u.articleId := by
    intro p hp hurl
    have hkept : Keeps keyColumns s.db (s.commit now (u.statements e)).db :=
      commit_taken hs e u hu hp hurl
    have hkeep := hkept.urlRows u.url
    have hmem : p.get "id" ∈ (urlRows s.db u.url).map fun r => r.get "id" :=
      List.mem_map.2 ⟨p, mem_urlRows.2 ⟨hp, hurl⟩, rfl⟩
    rw [← hkeep, hr, List.map_singleton, List.mem_singleton] at hmem
    exact hmem.trans hid
  intro p hp
  refine ⟨hforward p hp, ?_⟩
  intro hpid
  by_contra hne
  by_cases hany : ∃ q ∈ s.db.rows "scraped_articles", q.get "url" = u.url
  · obtain ⟨q, hq, hurl⟩ := hany
    have hqp : q = p := shelf_unique hs "id" (.inl rfl) hq hp
      ((hforward q hq hurl).trans hpid.symm)
    exact hne (hqp ▸ hurl)
  · have hnone : ∀ q ∈ s.db.rows "scraped_articles", q.get "url" ≠ u.url :=
      fun q hq hurl => hany ⟨q, hq, hurl⟩
    rw [commit_conflict hs e hp hpid hnone] at hr
    have hmem : r ∈ urlRows s.db u.url := by
      rw [hr]
      exact List.mem_singleton_self r
    obtain ⟨hm, hurl⟩ := mem_urlRows.1 hmem
    exact hnone r hm hurl

theorem Placed.agree (h : Placed db u r) (e : Env)
    (hhash : r.get "content_hash" = .text (u.contentHash e))
    (hscraped : r.get "scraped_at" = u.scrapedAt (.text u.later)) :
    Row.Agree scrapedArticles.schema.names r (u.rowData e) := by
  have hcover : ∀ c ∈ scrapedArticles.schema.names,
      c = "content_hash" ∨ c = "scraped_at" ∨ c ∈ Upsert.sharedColumns := by decide
  intro c hc
  rcases hcover c hc with rfl | rfl | hm
  · exact hhash
  · exact hscraped
  · rw [h.shared c hm, u.shared_record e c hm]

/-- Both sides end with the article where the call lands on both, or is refused on both and they
held the article before. -/
theorem one_article_iff {s : Store} {cloud : Database} (hs : Shelf s.db) (hc : CloudShelf cloud)
    (now : String) (e : Env) (hdigest : ∀ x, e.digest x ≠ "") (engine : CloudEngine) (u : Upsert)
    (hvalid : ∀ v ∈ u.vector, validVector v.2 = true) :
    OneArticle e (s.commit now (u.statements e)).db (drain engine cloud (u.cloudTasks e)) u.url
        u.vector ↔
      Lands e s.db cloud u ∨ (¬ u.Complete ∧ Stands e s.db cloud u) := by
  have hhash : u.contentHash e ≠ "" := hdigest _
  by_cases hu : u.Complete
  case neg =>
    rw [outcome_incomplete hs hc now e engine u hu hvalid]
    exact ⟨fun h => .inr ⟨hu, h⟩, fun h => h.elim (fun hl => absurd hl.complete hu) And.right⟩
  obtain ⟨hrows, hback⟩ := drain_complete hc e engine u hu hvalid
  obtain ⟨hsingle, hagree⟩ := cloud_single e u hrows
  constructor
  · rintro ⟨r, q, hr, hq, hqr, hself, hvec⟩
    have hrec : Row.Agree scrapedArticles.schema.names r (u.rowData e) :=
      fun c hc => (hqr c hc).symm.trans (hagree q hq c hc)
    have hid : r.get "id" = .text u.articleId := hrec "id" (by decide)
    have howns := owns_of_landed hs e hu hr hid
    have hstatus : ∃ st ∈ statuses, u.embeddingStatus = .text st := by
      by_contra hno
      have hadm : ¬ scrapedArticles.schema.admits (candidate now u.insertRow) = true := by
        intro hadm
        obtain ⟨st, hst, he⟩ := (admits_iff.1 hadm).2
        rw [u.get_candidate now (by decide) (by decide)] at he
        exact hno ⟨st, hst, he⟩
      have herr : s.exec now (.upsert u.insertRow) = .error .constraint := upsert_refused hs hadm
      rw [u.statements_cons e, commit_error herr] at hr
      have hmem : r ∈ urlRows s.db u.url := by
        rw [hr]
        exact List.mem_singleton_self r
      obtain ⟨st, hst, he⟩ := (admits_iff.1 (hs.admitted r (mem_urlRows.1 hmem).1)).2
      exact hno ⟨st, hst, (hrec "embedding_status" (by decide)).symm.trans he⟩
    have hadm : scrapedArticles.schema.admits (candidate now u.insertRow) = true := by
      rw [admits_iff, Upsert.candidate_notNulls, u.get_candidate now (by decide) (by decide)]
      exact ⟨hu, hstatus⟩
    obtain ⟨r', hplaced, hcell, hscraped, _⟩ := commit_owned hs howns hadm e hhash
    have hrr : [r'] = [r] := hplaced.urls.symm.trans hr
    obtain rfl := List.singleton_inj.1 hrr
    left
    refine ⟨hu, hstatus, howns, hsingle.1 ⟨q, hq⟩, ?_, ?_⟩
    · rw [← hscraped]
      exact hrec "scraped_at" (by decide)
    · rw [hself] at hcell
      rw [← hash_congr e hrec]
      exact Value.text.inj hcell
  · rintro (h | ⟨hno, _⟩)
    case inr => exact absurd hu hno
    have hadm : scrapedArticles.schema.admits (candidate now u.insertRow) = true := by
      rw [admits_iff, Upsert.candidate_notNulls, u.get_candidate now (by decide) (by decide)]
      exact ⟨hu, h.status⟩
    obtain ⟨r, hplaced, hcell, hscraped, hlocal⟩ := commit_owned hs h.owns hadm e hhash
    obtain ⟨q, hq⟩ := hsingle.2 h.cloudOwns
    have hrec := hplaced.agree e hcell (hscraped.trans h.scrapedAt)
    refine ⟨r, q, hplaced.urls, hq, ?_, ?_, ?_⟩
    · exact fun c hc => (hagree q hq c hc).trans (hrec c hc).symm
    · rw [hcell, hash_congr e hrec, h.hash]
    · intro v hv
      rw [hplaced.id]
      exact ⟨hlocal v hv, (hback v hv _).2 rfl⟩

def hashEnv : Env where
  parseTs := fun _ => 0
  digest := fun x => "sha256:" ++ x
  now := "2024-05-01 10:00:00"

theorem hashEnv_digest (x : String) : hashEnv.digest x ≠ "" := by
  intro h
  have hlen := congrArg String.length h
  change ("sha256:" ++ x).length = 0 at hlen
  rw [String.length_append] at hlen
  have hseven : "sha256:".length = 7 := by decide
  omega

def articleMeta : Meta where
  texts := [("url", some "https://example.org/a"), ("title", some "Title"),
    ("conclusion", some "Conclusion"), ("summary", some "- point"), ("metadata_json", some "\x7b\x7d"),
    ("embedding_status", some "PENDING"), ("scraped_at", some "2024-05-01T10:00:00+00:00")]
  vecRowid := some 3472328296227680305

def firstUpsert : Upsert where
  articleId := "01HWTR3Q0G0000000000000001"
  info := articleMeta
  now := "2024-05-01T10:00:00.100000+00:00"
  later := "2024-05-01T10:00:00.200000+00:00"

/-- The URL is scraped again and the article has a new id. -/
def secondUpsert : Upsert where
  articleId := "01HWWA1N800000000000000002"
  info := { articleMeta with vecRowid := some 3472328296227680306 }
  now := "2024-05-02T10:00:00.100000+00:00"
  later := "2024-05-02T10:00:00.200000+00:00"

def articleEngine : CloudEngine := { now := "2024-05-01 10:00:01" }

def bareStore : Store := ⟨operationalDb [], [], []⟩

def storedOnce : Store := bareStore.commit hashEnv.now (firstUpsert.statements hashEnv)

def cloudOnce : Database := drain articleEngine (cloudOf []) (firstUpsert.cloudTasks hashEnv)

theorem shelf_bare : Shelf bareStore.db := by
  have hrows : bareStore.db.rows "scraped_articles" = [] := by decide +kernel
  constructor
  · exact ⟨⟨scrapedArticles.schema, []⟩, by decide +kernel, rfl⟩
  · exact ⟨⟨scrapedArticlesVecBackup.schema, []⟩, by decide +kernel, rfl⟩
  · simp [hrows]
  · simp [hrows]
  · simp [hrows]

theorem cloudShelf_bare : CloudShelf (cloudOf []) := by
  have hrows : (cloudOf []).rows "scraped_articles" = [] := by decide +kernel
  have hback : (cloudOf []).rows "scraped_articles_vec_backup" = [] := by decide +kernel
  constructor
  · exact ⟨⟨scrapedArticles.schema, []⟩, by decide +kernel, rfl⟩
  · exact ⟨⟨scrapedArticlesVecBackup.schema, []⟩, by decide +kernel, rfl⟩
  · simp [hrows]
  · simp [hback]

/-- The second scrape of the URL leaves the old id locally and adds a row with the new one to the
cloud. -/
theorem url_scraped_again :
    ((storedOnce.commit hashEnv.now (secondUpsert.statements hashEnv)).db.rows
        "scraped_articles").map (fun r => r.get "id") = [.text "01HWTR3Q0G0000000000000001"] ∧
      ((drain articleEngine cloudOnce (secondUpsert.cloudTasks hashEnv)).rows
        "scraped_articles").map (fun r => r.get "id") =
        [.text "01HWTR3Q0G0000000000000001", .text "01HWWA1N800000000000000002"] ∧
      ¬ OneArticle hashEnv (storedOnce.commit hashEnv.now (secondUpsert.statements hashEnv)).db
        (drain articleEngine cloudOnce (secondUpsert.cloudTasks hashEnv)) secondUpsert.url
        secondUpsert.vector := by
  refine ⟨by decide +kernel, by decide +kernel, ?_⟩
  rintro ⟨_, q, _, hq, _⟩
  have htwo : (urlRows (drain articleEngine cloudOnce (secondUpsert.cloudTasks hashEnv))
      secondUpsert.url).length = 2 := by decide +kernel
  rw [hq] at htwo
  cases htwo

theorem first_upsert_lands : OneArticle hashEnv storedOnce.db cloudOnce firstUpsert.url
    firstUpsert.vector := by
  have hlands : Lands hashEnv bareStore.db (cloudOf []) firstUpsert := by
    constructor
    · exact (by decide : ∀ c ∈ ["vec_rowid", "url", "metadata_json", "embedding_status",
        "scraped_at", "updated_at"], firstUpsert.insertRow.get c ≠ .null)
    · exact ⟨"PENDING", by decide, by decide⟩
    · have hrows : bareStore.db.rows "scraped_articles" = [] := by decide +kernel
      simp [Upsert.Owns, hrows]
    · have hrows : (cloudOf []).rows "scraped_articles" = [] := by decide +kernel
      simp [Upsert.CloudOwns, hrows]
    · decide +kernel
    · decide +kernel
  have hvector : ∀ v ∈ firstUpsert.vector, validVector v.2 = true := by
    intro v hv
    cases hv
  exact (one_article_iff shelf_bare cloudShelf_bare hashEnv.now hashEnv hashEnv_digest
    articleEngine firstUpsert hvector).2 (.inl hlands)

end Articles
