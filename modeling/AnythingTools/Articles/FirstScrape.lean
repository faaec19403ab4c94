import AnythingTools.Articles.VecRowid

namespace Articles
open Relational Relational.Database Sync Schemas
set_option autoImplicit true

/-- Whose each article is, and its row id. -/
def identities (db : Database) : List (Value × Value × Value) :=
  (db.rows "scraped_articles").map fun r => (r.get "id", r.get "url", r.get "vec_rowid")

theorem Keeps.identities (h : Keeps ("vec_rowid" :: keyColumns) db db') :
    identities db' = Articles.identities db := by
  obtain ⟨f, hf, hk⟩ := h
  rw [Articles.identities, Articles.identities, hf, List.map_map]
  apply List.map_congr_left
  intro r _
  rw [Function.comp_apply, (hk r).1 "id" (by decide), (hk r).1 "url" (by decide),
    (hk r).1 "vec_rowid" (by decide)]

/-! ### The tables through a transaction -/

theorem updateRows_admits {db : Database} (h : updateRows db t cells p = .ok db')
    (hT : db.find t = some T) :
    ∀ r ∈ T.rows, T.schema.admits (if p r then r.assign cells else r) = true := by
  rw [updateRows, hT] at h
  dsimp only at h
  split at h
  · cases h
  · split at h
    next hc =>
      have hall := List.all_eq_true.1 hc.1
      exact fun r hr => hall _ (List.mem_map_of_mem hr)
    next => cases h

/-- An update that goes through keeps the tables. -/
theorem shelf_update {s : Store} (hS : Shelf s.db) (h : s.update cells p = .ok s') :
    Shelf s'.db := by
  have hdb := update_ok h
  obtain ⟨T, hT, hSchema⟩ := hS.articles
  have hrows : s.db.rows "scraped_articles" = T.rows := rows_of_find hT
  have hmap := rows_update hdb
  have hadm := updateRows_admits hdb hT
  have hkeys := updateRows_keys hdb hT
  rw [hSchema] at hadm hkeys
  constructor
  · exact stocked_update hdb ⟨T, hT, hSchema⟩
  · rw [updateRows_ok hdb, find_update_ne _ _ (by decide)]
    exact hS.backup
  · rw [hmap]
    intro r hr
    obtain ⟨q, hq, he⟩ := List.mem_map.1 hr
    rw [← he]
    split
    · rw [Row.columns_assign]
      exact hS.shaped q hq
    · exact hS.shaped q hq
  · rw [hmap, hrows]
    intro r hr
    obtain ⟨q, hq, he⟩ := List.mem_map.1 hr
    rw [← he]
    exact hadm q hq
  · rw [hmap, hrows]
    exact hkeys

/-- An update that meets no article goes through. -/
theorem update_untouched {db : Database} (hS : Shelf db)
    (hnone : ∀ q ∈ db.rows "scraped_articles", ¬ p q = true)
    (hnames : ∀ c ∈ cells.columns, c ∈ scrapedArticles.schema.names) :
    ∃ db', db.updateRows "scraped_articles" cells p = .ok db' := by
  obtain ⟨T, hT, hSchema⟩ := hS.articles
  have hrows : db.rows "scraped_articles" = T.rows := rows_of_find hT
  have hsame : ∀ q ∈ T.rows, (if p q then q.assign cells else q) = q :=
    fun q hq => if_neg (hnone q (hrows ▸ hq))
  have hmap : (T.rows.map fun q => if p q then q.assign cells else q) = T.rows :=
    (List.map_congr_left hsame).trans (List.map_id _)
  refine ⟨_, updateRows_succeeds hT (by rw [hSchema]; exact hnames) ?_ ?_ ?_⟩
  · intro q hq
    rw [hsame q hq, hSchema]
    exact hS.admitted q (hrows ▸ hq)
  · rw [hmap, hSchema, ← hrows]
    exact hS.keyed
  · rw [hSchema]
    rfl

theorem shelf_insert {s : Store} (hS : Shelf s.db) (hT : s.db.find "scraped_articles" = some T)
    (hshape : row.columns = scrapedArticles.schema.names)
    (hadm : scrapedArticles.schema.admits row = true)
    (hfree : ¬ T.rows.any (scrapedArticles.schema.conflicts row) = true) :
    Shelf (s.db.append "scraped_articles" row) := by
  have hrows : s.db.rows "scraped_articles" = T.rows := rows_of_find hT
  have happend := rows_append hS.articles row
  constructor
  · exact stocked_of_same (sameSchemas_append _ _ _) hS.articles
  · rw [append, find_update_ne _ _ (by decide)]
    exact hS.backup
  · rw [happend]
    intro r hr
    rcases List.mem_append.1 hr with hr | hr
    · exact hS.shaped r hr
    · rw [List.mem_singleton.1 hr]
      exact hshape
  · rw [happend]
    intro r hr
    rcases List.mem_append.1 hr with hr | hr
    · exact hS.admitted r hr
    · rw [List.mem_singleton.1 hr]
      exact hadm
  · rw [happend, List.pairwise_append]
    refine ⟨hS.keyed, List.pairwise_singleton _ _, ?_⟩
    intro r hr r' hr' hc
    rw [List.mem_singleton.1 hr', Schema.conflicts_comm] at hc
    exact hfree (List.any_eq_true.2 ⟨r, hrows ▸ hr, hc⟩)

/-- The first statement: the URL is updated, or the article is inserted. -/
theorem upsert_cases {s : Store} (hS : Shelf s.db) (h : s.upsert now row = .ok s') :
    ((∃ r ∈ s.db.rows "scraped_articles", Row.sameKey ["url"] (candidate now row) r = true) ∧
      s.update (Row.build upsertColumns (candidate now row).get)
        (Row.sameKey ["url"] (candidate now row)) = .ok s') ∨
    ((∀ r ∈ s.db.rows "scraped_articles", ¬ Row.sameKey ["url"] (candidate now row) r = true) ∧
      s' = afterInsert { s with db := s.db.append "scraped_articles" (candidate now row) }
        (candidate now row) ∧ Shelf (s.db.append "scraped_articles" (candidate now row))) := by
  obtain ⟨T, hT, hSchema⟩ := hS.articles
  have hrows : s.db.rows "scraped_articles" = T.rows := rows_of_find hT
  rw [Store.upsert, hT] at h
  dsimp only at h
  rw [hSchema] at h
  split at h
  · cases h
  next hadm =>
    split at h
    next hany =>
      obtain ⟨r, hr, hk⟩ := List.any_eq_true.1 hany
      exact .inl ⟨⟨r, hrows ▸ hr, hk⟩, h⟩
    next hany =>
      split at h
      · cases h
      next hfree =>
        cases h
        refine .inr ⟨?_, rfl, shelf_insert hS hT ?_ (not_not.1 hadm) hfree⟩
        · intro r hr hk
          exact hany (List.any_eq_true.2 ⟨r, hrows ▸ hr, hk⟩)
        · rw [candidate, Schema.fill, Row.columns_build]

theorem shelf_upsert {s : Store} (hS : Shelf s.db) (h : s.upsert now row = .ok s') :
    Shelf s'.db := by
  rcases upsert_cases hS h with ⟨_, hupdate⟩ | ⟨_, he, hnew⟩
  · exact shelf_update hS hupdate
  · rw [he]
    exact hnew

theorem shelf_exec {s : Store} (hS : Shelf s.db) (hh : Harmless cols stmt)
    (h : s.exec now stmt = .ok s') : Shelf s'.db := by
  cases stmt with
  | upsert row => exact hh.elim
  | deleteVec v =>
    cases h
    exact hS
  | insertVec v bs =>
    rw [Store.exec] at h
    split at h
    · cases h
    · cases h
      exact hS
  | update cells id => exact shelf_update hS h
  | data stmt =>
    cases stmt with
    | delete t key => exact hh.elim
    | replace t row =>
      have ht : t = "scraped_articles_vec_backup" := hh
      subst ht
      have hdb := data_ok h
      have hfind := replace_backup_articles hS.articles hdb
      have hrows : s'.db.rows "scraped_articles" = s.db.rows "scraped_articles" := by
        rw [rows, rows, hfind]
      obtain ⟨B, hB, hSchema⟩ := hS.backup
      obtain ⟨B', hB', he⟩ := (exec_sameSchemas hdb).find hB
      constructor
      · rw [hfind]
        exact hS.articles
      · exact ⟨B', hB', he.trans hSchema⟩
      · rw [hrows]
        exact hS.shaped
      · rw [hrows]
        exact hS.admitted
      · rw [hrows]
        exact hS.keyed

theorem shelf_foldlM {s : Store} {stmts : List ArticleStmt} (hS : Shelf s.db)
    (hh : ∀ stmt ∈ stmts, Harmless cols stmt) (h : stmts.foldlM (Store.exec now) s = .ok s') :
    Shelf s'.db := by
  induction stmts generalizing s with
  | nil =>
    cases h
    exact hS
  | cons stmt stmts ih =>
    obtain ⟨s₁, he, hrest⟩ := foldlM_cons_ok h
    exact ih (shelf_exec hS (hh stmt List.mem_cons_self) he)
      (fun stmt hm => hh stmt (List.mem_cons_of_mem _ hm)) hrest

/-- A transaction that goes through keeps the tables. -/
theorem shelf_statements {s : Store} (hS : Shelf s.db) (e : Env) (u : Upsert)
    (h : (u.statements e).foldlM (Store.exec now) s = .ok s') : Shelf s'.db := by
  rw [u.statements_cons e] at h
  obtain ⟨s₁, hup, hrest⟩ := foldlM_cons_ok h
  have hS₁ := shelf_upsert hS hup
  exact shelf_foldlM hS₁ (u.harmless_tail e) hrest

/-! ### An article with a new id and an embedding -/

/-- No article has the id. -/
def Upsert.Unborn (db : Database) (u : Upsert) : Prop :=
  ∀ r ∈ db.rows "scraped_articles", r.get "id" ≠ .text u.articleId

def Upsert.UrlStored (db : Database) (u : Upsert) : Prop :=
  ∃ r ∈ db.rows "scraped_articles", r.get "url" = u.url

theorem Upsert.Unborn.keeps {u : Upsert} (h : u.Unborn db) (hk : Keeps keyColumns db db') :
    u.Unborn db' := by
  obtain ⟨f, hf, hagree⟩ := hk
  intro r hr
  rw [hf] at hr
  obtain ⟨q, hq, he⟩ := List.mem_map.1 hr
  rw [← he, (hagree q).1 "id" (by decide)]
  exact h q hq

/-- The statements of an embedding, one by one. -/
theorem vector_statements (e : Env) {u : Upsert} (hv : u.vector = some (v, bs)) :
    u.statements e = .upsert u.insertRow :: .deleteVec v :: .insertVec v bs ::
      .update [("embedding_status", .text "EMBEDDED")] u.articleId ::
      .data (.replace "scraped_articles_vec_backup" (u.backupRow v bs)) ::
      if u.contentHash e = "" then []
      else [.update [("content_hash", .text (u.contentHash e))] u.articleId] := by
  rw [Upsert.statements, Upsert.buildUpsertStatements, hv]
  rfl

/-- The backup refers to the article by its id. -/
theorem backup_refused {s : Store} (hS : Shelf s.db) {u : Upsert} (hu : u.Unborn s.db) (now : String)
    (v : Int) (bs : List UInt8) (s' : Store) :
    s.exec now (.data (.replace "scraped_articles_vec_backup" (u.backupRow v bs))) ≠ .ok s' := by
  intro h
  have hdb := data_ok h
  have hfind := replace_backup_articles hS.articles hdb
  obtain ⟨B, hB, hSchema⟩ := hS.backup
  obtain ⟨B', hB', _, _, hparents⟩ := replaceRow_ok hdb
  obtain rfl : B' = B := Option.some.inj (hB'.symm.trans hB)
  rw [hSchema, parentsPresent, List.all_eq_true] at hparents
  have hpresent := hparents ⟨"article_id", "scraped_articles", "id"⟩ (by decide)
  rw [Bool.or_eq_true, decide_eq_true_eq] at hpresent
  have hid : (scrapedArticlesVecBackup.schema.coerce now (u.backupRow v bs)).get "article_id" =
      .text u.articleId := rfl
  rcases hpresent with hnull | hany
  · rw [hid] at hnull
    cases hnull
  · obtain ⟨p, hp, hl⟩ := List.any_eq_true.1 hany
    rw [rows, hfind, ← rows] at hp
    rw [ForeignKey.links_iff, hid] at hl
    exact hu p hp hl.2.symm

/-- An update that moves no row id and leaves no article pending keeps the vectors. -/
theorem vec_update {s : Store}
    (hk : ∀ r ∈ s.db.rows "scraped_articles", p r = true →
      (r.assign cells).get "vec_rowid" = r.get "vec_rowid" ∧
        (r.assign cells).get "embedding_status" ≠ .text "PENDING")
    (h : s.update cells p = .ok s') : s'.vec = s.vec := by
  have hdb := update_ok h
  rw [Store.update, hdb] at h
  rw [← Except.ok.inj h]
  have hall : ∀ r ∈ (s.db.rows "scraped_articles").filter p,
      (r.assign cells).get "vec_rowid" = r.get "vec_rowid" ∧
        (r.assign cells).get "embedding_status" ≠ .text "PENDING" := by
    intro r hr
    obtain ⟨hm, hp⟩ := List.mem_filter.1 hr
    exact hk r hm hp
  have hfold (olds : List Row) (s₀ : Store) (ho : ∀ r ∈ olds,
      (r.assign cells).get "vec_rowid" = r.get "vec_rowid" ∧
        (r.assign cells).get "embedding_status" ≠ .text "PENDING") :
      (olds.foldl (fun s old => afterUpdate s old (old.assign cells)) s₀).vec = s₀.vec := by
    induction olds generalizing s₀ with
    | nil => rfl
    | cons r olds ih =>
      obtain ⟨hv, hs⟩ := ho r List.mem_cons_self
      rw [List.foldl_cons, ih _ fun r' hr' => ho r' (List.mem_cons_of_mem r hr'), afterUpdate,
        if_neg]
      rintro (hne | hpending)
      · exact hne hv.symm
      · exact hs hpending
  exact hfold _ _ hall

/-- A statement on the backup keeps the vectors. -/
theorem vec_data {s : Store} (ht : stmt.target ≠ "scraped_articles")
    (h : s.data now stmt = .ok s') : s'.vec = s.vec := by
  have hdb := data_ok h
  rw [Store.data, hdb] at h
  rw [← Except.ok.inj h, insertedArticles_ne ht, deletedArticles_ne ht]
  rfl

/-- The first statement of an article whose URL is new. -/
theorem insert_new {s : Store} (hS : Shelf s.db) {u : Upsert} (hstored : ¬ u.UrlStored s.db)
    (h : s.upsert now u.insertRow = .ok s₁) :
    identities s₁.db = identities s.db ++ [(.text u.articleId, u.url, u.vecRowid)] ∧
      s₁.vec = s.vec := by
  have hcell (c : String) (hc : c ∈ scrapedArticles.schema.names) (hne : c ≠ "content_hash") :=
    u.get_candidate now hc hne
  rcases upsert_cases hS h with ⟨⟨r, hr, hk⟩, _⟩ | ⟨_, he, _⟩
  · have hurl := (Row.sameKey_iff.1 hk "url" (List.mem_singleton_self _)).2
    rw [hcell "url" (by decide) (by decide)] at hurl
    exact absurd ⟨r, hr, hurl.symm⟩ hstored
  · rw [he]
    refine ⟨?_, rfl⟩
    change ((s.db.append _ _).rows _).map _ = _
    rw [rows_append hS.articles, List.map_append, List.map_singleton,
      hcell "id" (by decide) (by decide), hcell "url" (by decide) (by decide),
      hcell "vec_rowid" (by decide) (by decide)]
    rfl

/-- The id is stored by no update of the URL. -/
theorem unborn_upsert {s : Store} (hS : Shelf s.db) {u : Upsert} (hu : u.Unborn s.db)
    (hstored : u.UrlStored s.db) (h : s.upsert now u.insertRow = .ok s₁) : u.Unborn s₁.db := by
  rcases upsert_cases hS h with ⟨_, hupdate⟩ | ⟨hnone, _, _⟩
  · exact hu.keeps (keeps_update (spares_upsert _) (update_ok hupdate))
  · obtain ⟨r, hr, hurl⟩ := hstored
    refine absurd (Row.sameKey_iff.2 ?_) (hnone r hr)
    intro c hc
    rw [List.mem_singleton.1 hc, u.get_candidate now (by decide) (by decide)]
    have hnull := (admits_iff.1 (hS.admitted r hr)).1 "url" (by decide)
    rw [hurl] at hnull
    exact ⟨hnull, hurl.symm⟩

/-- Under a URL that is stored already, an embedding is refused for a new id. -/
theorem refused_stored {s : Store} (hS : Shelf s.db) (e : Env) {u : Upsert} (hu : u.Unborn s.db)
    (hv : u.vector = some (v, bs)) (hstored : u.UrlStored s.db) (s' : Store) :
    (u.statements e).foldlM (Store.exec now) s ≠ .ok s' := by
  intro h
  rw [vector_statements e hv] at h
  obtain ⟨s₁, hup, h⟩ := foldlM_cons_ok h
  have hS₁ := shelf_upsert hS hup
  have hu₁ := unborn_upsert hS hu hstored hup
  obtain ⟨s₂, hdel, h⟩ := foldlM_cons_ok h
  cases hdel
  obtain ⟨s₃, hins, h⟩ := foldlM_cons_ok h
  have hdb₃ : s₃.db = s₁.db := by
    rw [Store.exec] at hins
    split at hins
    · cases hins
    · cases hins
      rfl
  obtain ⟨s₄, hset, h⟩ := foldlM_cons_ok h
  rw [← hdb₃] at hS₁ hu₁
  have hspares : Spares keyColumns [("embedding_status", Value.text "EMBEDDED")] :=
    (by decide : ∀ c ∈ keyColumns, c ∉ ["embedding_status"])
  have hu₄ := hu₁.keeps (keeps_update hspares (update_ok hset))
  obtain ⟨s₅, hback, _⟩ := foldlM_cons_ok h
  exact backup_refused (shelf_update hS₁ hset) hu₄ now v bs s₅ hback

/-- Under a new URL it is stored. -/
theorem accepted_new {s : Store} (hS : Shelf s.db) (e : Env) {u : Upsert} (hu : u.Unborn s.db)
    (hstored : ¬ u.UrlStored s.db)
    (hadm : scrapedArticles.schema.admits (candidate now u.insertRow) = true)
    (hhash : u.contentHash e ≠ "") :
    ∃ s', (u.statements e).foldlM (Store.exec now) s = .ok s' := by
  have howns : u.Owns s.db := by
    intro r hr
    exact iff_of_false (fun hurl => hstored ⟨r, hr, hurl⟩) (hu r hr)
  obtain ⟨r, hplaced, _⟩ := commit_owned hS howns hadm e hhash
  cases hf : (u.statements e).foldlM (Store.exec now) s with
  | ok s' => exact ⟨s', rfl⟩
  | error err =>
    have hsame : s.commit now (u.statements e) = s := by
      rw [Store.commit, hf]
      rfl
    rw [hsame] at hplaced
    exact absurd ⟨r, hplaced.mem, hplaced.shared "url" (by decide)⟩ hstored

theorem Keeps.url_iff (h : Keeps keyColumns db db') (url : Value) :
    (∃ r ∈ db'.rows "scraped_articles", r.get "url" = url) ↔
      ∃ r ∈ db.rows "scraped_articles", r.get "url" = url := by
  obtain ⟨f, hf, hagree⟩ := h
  rw [hf]
  simp only [List.mem_map, exists_exists_and_eq_and]
  have hurl (r : Row) : (f r).get "url" = r.get "url" := (hagree r).1 "url" (by decide)
  simp only [hurl]

/-- A transaction stores no other URL, and takes none away. -/
theorem url_statements {s : Store} (hS : Shelf s.db) (e : Env) {u : Upsert} (hne : url ≠ u.url)
    (h : (u.statements e).foldlM (Store.exec now) s = .ok s') :
    (∃ r ∈ s'.db.rows "scraped_articles", r.get "url" = url) ↔
      ∃ r ∈ s.db.rows "scraped_articles", r.get "url" = url := by
  rw [u.statements_cons e] at h
  obtain ⟨s₁, hup, hrest⟩ := foldlM_cons_ok h
  have hS₁ := shelf_upsert hS hup
  have htail := (foldlM_keeps hS₁.articles (u.harmless_tail e) hrest).1.subset
    (by decide : ∀ c ∈ keyColumns, c ∈ "vec_rowid" :: keyColumns)
  rw [htail.url_iff]
  rcases upsert_cases hS hup with ⟨_, hupdate⟩ | ⟨_, he, _⟩
  · exact (keeps_update (spares_upsert _) (update_ok hupdate)).url_iff url
  · have hrows : s₁.db.rows "scraped_articles" =
        s.db.rows "scraped_articles" ++ [candidate now u.insertRow] := by
      rw [he]
      exact rows_append hS.articles _
    rw [hrows]
    simp only [List.mem_append, List.mem_singleton, or_and_right, exists_or, exists_eq_left]
    rw [u.get_candidate now (by decide) (by decide)]
    exact or_iff_left (fun h => hne h.symm)

/-- Under a stored URL it is stored, for a new id, as long as it has no embedding. -/
theorem accepted_stored {s : Store} (hS : Shelf s.db) (e : Env) {u : Upsert} (hu : u.Unborn s.db)
    (hv : u.vector = none) (hstored : u.UrlStored s.db)
    (hadm : scrapedArticles.schema.admits (candidate now u.insertRow) = true) :
    ∃ s', (u.statements e).foldlM (Store.exec now) s = .ok s' := by
  obtain ⟨r, hr, hurl⟩ := hstored
  obtain ⟨s₁, hup, hS₁, -, -⟩ := upsert_stored hS hadm hr hurl
  have hu₁ := unborn_upsert hS hu ⟨r, hr, hurl⟩ hup
  have hstatements : u.statements e = .upsert u.insertRow ::
      if u.contentHash e = "" then []
      else [.update [("content_hash", .text (u.contentHash e))] u.articleId] := by
    rw [Upsert.statements, Upsert.buildUpsertStatements, hv]
    rfl
  -- No article has the id, so the hash is set nowhere.
  have hnone : ∀ q ∈ s₁.db.rows "scraped_articles", ¬ hasId u.articleId q = true :=
    fun q hq hid => hu₁ q hq (of_decide_eq_true hid)
  have hnames : ∀ c ∈ Row.columns [("content_hash", .text (u.contentHash e))],
      c ∈ scrapedArticles.schema.names :=
    (by decide : ∀ c ∈ ["content_hash"], c ∈ scrapedArticles.schema.names)
  obtain ⟨db', hok⟩ := update_untouched hS₁ hnone hnames
  obtain ⟨s₂, hset, -⟩ := update_succeeds hok
  rw [hstatements, List.foldlM_cons]
  change ∃ s', (s.upsert now u.insertRow >>= _) = .ok s'
  rw [hup]
  split
  · exact ⟨s₁, rfl⟩
  · refine ⟨s₂, ?_⟩
    change (s₁.update _ _ >>= _) = _
    rw [hset]
    rfl

/-- The transaction of an article with a new id goes through exactly when the URL is new or there is
no embedding. -/
theorem accepted_iff {s : Store} (hS : Shelf s.db) (e : Env) {u : Upsert} (hu : u.Unborn s.db)
    (hadm : scrapedArticles.schema.admits (candidate now u.insertRow) = true)
    (hhash : u.contentHash e ≠ "") :
    (∃ s', (u.statements e).foldlM (Store.exec now) s = .ok s') ↔
      (u.UrlStored s.db → u.vector = none) := by
  apply Iff.intro
  · rintro ⟨s', h⟩ hstored
    cases hv : u.vector with
    | none => rfl
    | some p => exact absurd h (refused_stored hS e hu hv hstored s')
  · intro h
    by_cases hstored : u.UrlStored s.db
    · exact accepted_stored hS e hu (h hstored) hstored hadm
    · exact accepted_new hS e hu hstored hadm hhash

/-- Of an article whose embedding is set, no cell moves it or its vector. -/
theorem vec_set {s : Store} (hS : Shelf s.db) {u : Upsert} (hc : c ∈ scrapedArticles.schema.names)
    (hne : c ≠ "vec_rowid")
    (hstatus : ∀ r ∈ s.db.rows "scraped_articles", hasId u.articleId r = true →
      c = "embedding_status" ∧ value ≠ .text "PENDING" ∨
        c ≠ "embedding_status" ∧ r.get "embedding_status" ≠ .text "PENDING")
    (h : s.update [(c, value)] (hasId u.articleId) = .ok s') : s'.vec = s.vec := by
  apply vec_update _ h
  intro r hr hp
  have hcol : c ∈ r.columns := by
    rw [hS.shaped r hr]
    exact hc
  change (r.set c value).get "vec_rowid" = _ ∧ (r.set c value).get "embedding_status" ≠ _
  refine ⟨Row.get_set_ne r value hne.symm, ?_⟩
  rcases hstatus r hr hp with ⟨he, hv⟩ | ⟨he, hv⟩
  · subst he
    rw [Row.get_set_self r value hcol]
    exact hv
  · rw [Row.get_set_ne r value he.symm]
    exact hv

/-- What the transaction of a new article with an embedding leaves. -/
theorem stored_new {s : Store} (hS : Shelf s.db) (e : Env) {u : Upsert} (hu : u.Unborn s.db)
    (hv : u.vector = some (v, bs)) (h : (u.statements e).foldlM (Store.exec now) s = .ok s') :
    identities s'.db = identities s.db ++ [(.text u.articleId, u.url, .int v)] ∧
      s'.vec = s.vec.filter (fun p => decide (p.1 ≠ .int v)) ++ [(.int v, bs)] := by
  have hstored : ¬ u.UrlStored s.db := fun hstored => refused_stored hS e hu hv hstored s' h
  have hrowid : u.vecRowid = .int v := by
    rw [Upsert.vecRowid, (vector_some hv).1]
    rfl
  have hids : identities s'.db = identities s.db ++ [(.text u.articleId, u.url, .int v)] := by
    have hall := h
    rw [u.statements_cons e] at hall
    obtain ⟨s₁, hup, hrest⟩ := foldlM_cons_ok hall
    have hS₁ := shelf_upsert hS hup
    rw [(foldlM_keeps hS₁.articles (u.harmless_tail e) hrest).1.identities,
      (insert_new hS hstored hup).1, hrowid]
  refine ⟨hids, ?_⟩
  rw [vector_statements e hv] at h
  obtain ⟨s₁, hup, h⟩ := foldlM_cons_ok h
  have hS₁ := shelf_upsert hS hup
  have hvec₁ := (insert_new hS hstored hup).2
  obtain ⟨s₂, hdel, h⟩ := foldlM_cons_ok h
  cases hdel
  obtain ⟨s₃, hins, h⟩ := foldlM_cons_ok h
  obtain ⟨hdb₃, hvec₃⟩ : s₃.db = s₁.db ∧
      s₃.vec = (s₁.deleteVec (.int v)).vec ++ [(.int v, bs)] := by
    rw [Store.exec] at hins
    split at hins
    · cases hins
    · cases hins
      exact ⟨rfl, rfl⟩
  obtain ⟨s₄, hset, h⟩ := foldlM_cons_ok h
  rw [← hdb₃] at hS₁
  have hvec₄ := vec_set hS₁ (by decide) (by decide)
    (fun _ _ _ => .inl ⟨rfl, by decide⟩) hset
  have hS₄ := shelf_update hS₁ hset
  obtain ⟨s₅, hback, h⟩ := foldlM_cons_ok h
  have htarget : (Stmt.replace "scraped_articles_vec_backup" (u.backupRow v bs)).target ≠
      "scraped_articles" :=
    (by decide : "scraped_articles_vec_backup" ≠ "scraped_articles")
  have hvec₅ := vec_data htarget hback
  have hharm : Harmless keyColumns
      (.data (.replace "scraped_articles_vec_backup" (u.backupRow v bs))) := rfl
  have hS₅ := shelf_exec hS₄ hharm hback
  have hembedded : ∀ r ∈ s₅.db.rows "scraped_articles", hasId u.articleId r = true →
      r.get "embedding_status" ≠ .text "PENDING" := by
    rw [rows, replace_backup_articles hS₄.articles (data_ok hback), ← rows,
      rows_update (update_ok hset)]
    intro r hr hp
    obtain ⟨q, hq, he⟩ := List.mem_map.1 hr
    have hcol : "embedding_status" ∈ q.columns := by
      rw [hS₁.shaped q hq]
      decide
    split at he
    next =>
      rw [← he]
      change (q.set "embedding_status" (.text "EMBEDDED")).get _ ≠ _
      rw [Row.get_set_self q _ hcol]
      decide
    next hq' =>
      rw [he] at hq'
      exact absurd hp hq'
  have hvec : s'.vec = s₅.vec := by
    split at h
    next =>
      cases h
      rfl
    next =>
      obtain ⟨s₆, hhash, h⟩ := foldlM_cons_ok h
      cases h
      exact vec_set hS₅ (by decide) (by decide)
        (fun r hr hp => .inr ⟨by decide, hembedded r hr hp⟩) hhash
  rw [hvec, hvec₅, hvec₄, hvec₃, Store.deleteVec, hvec₁]

end Articles
