import AnythingTools.Articles.Store
import AnythingTools.Sync.FlushGroup

namespace Articles
open Relational Relational.Database Sync Schemas
set_option autoImplicit true

/-- The local tables that an article is written to. -/
structure Shelf (db : Database) : Prop where
  articles : ∃ T, db.find "scraped_articles" = some T ∧ T.schema = scrapedArticles.schema
  backup : ∃ B, db.find "scraped_articles_vec_backup" = some B ∧
    B.schema = scrapedArticlesVecBackup.schema
  shaped : ∀ r ∈ db.rows "scraped_articles", r.columns = scrapedArticles.schema.names
  admitted : ∀ r ∈ db.rows "scraped_articles", scrapedArticles.schema.admits r = true
  keyed : (db.rows "scraped_articles").Pairwise
    fun r r' => ¬ scrapedArticles.schema.conflicts r r' = true

/-- The cloud tables of the articles. -/
structure CloudShelf (cloud : Database) : Prop where
  articles : ∃ C, cloud.find "scraped_articles" = some C ∧ C.schema = scrapedArticles.schema
  backup : ∃ B, cloud.find "scraped_articles_vec_backup" = some B ∧
    B.schema = scrapedArticlesVecBackup.schema
  notNulls : ∀ r ∈ cloud.rows "scraped_articles", scrapedArticles.schema.notNulls r = true
  backupNotNulls : ∀ r ∈ cloud.rows "scraped_articles_vec_backup",
    scrapedArticlesVecBackup.schema.notNulls r = true

def urlRows (db : Database) (url : Value) : List Row :=
  (db.rows "scraped_articles").filter fun r => decide (r.get "url" = url)

/-- The backup has the vector of the article under the row id. -/
def BackedUp (db : Database) (rowid : Int) (articleId : Value) : Prop :=
  ∃ b ∈ db.rows "scraped_articles_vec_backup",
    b.get "rowid" = .int rowid ∧ b.get "article_id" = articleId

/-- Both sides hold the same single article of the URL with its own hash, and the backup of its
vector refers to it. -/
def OneArticle (e : Env) (db cloud : Database) (url : Value) (vector : Option (Int × List UInt8)) :
    Prop :=
  ∃ r q, urlRows db url = [r] ∧ urlRows cloud url = [q] ∧
    Row.Agree scrapedArticles.schema.names q r ∧
    r.get "content_hash" = .text (computeRowHash e "scraped_articles" r) ∧
    ∀ v ∈ vector, BackedUp db v.1 (r.get "id") ∧ BackedUp cloud v.1 (r.get "id")

/-- The cloud when its queue is drained; a task that fails goes to the dead letter queue. -/
def drain (engine : CloudEngine) (cloud : Database) (tasks : List CloudWriteTask) : Database :=
  tasks.foldl (fun cloud task =>
    ((flushGroup engine cloud (task.key, task.records)).toOption).getD cloud) cloud

def notNullColumns : List String :=
  ["id", "vec_rowid", "url", "metadata_json", "embedding_status", "content_hash", "scraped_at",
    "updated_at"]

def statuses : List String := ["PENDING", "EMBEDDED", "SKIPPED"]

theorem notNulls_iff {r : Row} : scrapedArticles.schema.notNulls r = true ↔
    ∀ c ∈ notNullColumns, r.get c ≠ .null := by
  have hnames : scrapedArticles.schema.notNullNames = notNullColumns := by decide
  rw [Schema.notNulls_iff, hnames]

theorem admits_iff {r : Row} : scrapedArticles.schema.admits r = true ↔
    (∀ c ∈ notNullColumns, r.get c ≠ .null) ∧
      ∃ s ∈ statuses, r.get "embedding_status" = .text s := by
  rw [Schema.admits, Bool.and_eq_true, notNulls_iff]
  apply and_congr_right
  intro hn
  have hstatus := hn "embedding_status" (by decide)
  change (List.all [(⟨"embedding_status", statuses⟩ : Check)] fun k => k.holds r) = true ↔ _
  rw [List.all_cons, List.all_nil, Bool.and_true, Check.holds]
  dsimp only
  constructor
  · intro h
    split at h
    next hnull => exact absurd hnull hstatus
    next s hs => exact ⟨s, List.contains_iff_mem.1 h, hs⟩
    next => cases h
  · rintro ⟨s, hs, he⟩
    rw [he]
    exact List.contains_iff_mem.2 hs

namespace Upsert

def url (u : Upsert) : Value := u.info.get "url" (.text "")

/-- No `None` is given for a column that may not be NULL. -/
def Complete (u : Upsert) : Prop :=
  ∀ c ∈ ["vec_rowid", "url", "metadata_json", "embedding_status", "scraped_at", "updated_at"],
    u.insertRow.get c ≠ .null

/-- The columns that the local row and the cloud record take from the same source. -/
def sharedColumns : List String :=
  ["id", "vec_rowid", "url", "title", "conclusion", "summary", "metadata_json",
    "embedding_status", "updated_at"]

theorem shared_record (e : Env) (u : Upsert) :
    Row.Agree sharedColumns (u.rowData e) u.insertRow := by
  intro c hc
  simp only [sharedColumns, List.mem_cons, List.not_mem_nil, or_false] at hc
  rcases hc with rfl | rfl | rfl | rfl | rfl | rfl | rfl | rfl | rfl <;> rfl

theorem get_candidate (now : String) (u : Upsert) (hc : c ∈ scrapedArticles.schema.names)
    (hne : c ≠ "content_hash") : (candidate now u.insertRow).get c = u.insertRow.get c := by
  change c ∈ ["id", "vec_rowid", "url", "title", "conclusion", "summary", "metadata_json",
    "embedding_status", "content_hash", "scraped_at", "updated_at"] at hc
  simp only [List.mem_cons, List.not_mem_nil, or_false] at hc
  rcases hc with rfl | rfl | rfl | rfl | rfl | rfl | rfl | rfl | rfl | rfl | rfl
  case inr.inr.inr.inr.inr.inr.inr.inr.inl => exact absurd rfl hne
  all_goals rfl

theorem candidate_notNulls (now : String) (u : Upsert) :
    (∀ c ∈ notNullColumns, (candidate now u.insertRow).get c ≠ .null) ↔ u.Complete := by
  constructor
  · intro h c hc
    have hsub : ∀ c ∈ ["vec_rowid", "url", "metadata_json", "embedding_status", "scraped_at",
        "updated_at"], c ∈ notNullColumns ∧ c ∈ scrapedArticles.schema.names ∧
          c ≠ "content_hash" := by decide
    obtain ⟨hm, hn, hne⟩ := hsub c hc
    rw [← get_candidate now u hn hne]
    exact h c hm
  · intro h c hc
    have hsub : ∀ c ∈ notNullColumns, c = "id" ∨ c = "content_hash" ∨
        c ∈ ["vec_rowid", "url", "metadata_json", "embedding_status", "scraped_at", "updated_at"] ∧
          c ∈ scrapedArticles.schema.names ∧ c ≠ "content_hash" := by decide
    rcases hsub c hc with rfl | rfl | ⟨hm, hn, hne⟩
    · exact Value.noConfusion
    · exact Value.noConfusion
    · rw [get_candidate now u hn hne]
      exact h c hm

theorem record_notNulls (e : Env) (u : Upsert) :
    (∀ c ∈ notNullColumns, (u.rowData e).get c ≠ .null) ↔ u.Complete := by
  have hscraped (d : Value) : u.scrapedAt d = .null ↔
      u.info.texts.lookup "scraped_at" = some none ∨
        u.info.texts.lookup "scraped_at" = none ∧ d = .null := by
    rw [scrapedAt, Meta.get]
    cases u.info.texts.lookup "scraped_at" with
    | none => simp
    | some x => cases x <;> simp [textOrNone]
  have hlater : u.scrapedAt (.text u.later) = .null → u.scrapedAt u.updatedAt = .null := by
    rw [hscraped, hscraped]
    intro h
    rcases h with h | ⟨_, h⟩
    · exact .inl h
    · cases h
  constructor
  · intro h c hc
    have hsub : ∀ c ∈ ["vec_rowid", "url", "metadata_json", "embedding_status", "scraped_at",
        "updated_at"], c = "scraped_at" ∨ c ∈ notNullColumns ∧ c ∈ sharedColumns := by decide
    rcases hsub c hc with rfl | ⟨hn, hs⟩
    · intro hnull
      rcases (hscraped u.updatedAt).1 hnull with hl | ⟨hl, hd⟩
      · exact h "scraped_at" (by decide) ((hscraped (.text u.later)).2 (.inl hl))
      · exact h "updated_at" (by decide) hd
    · rw [← u.shared_record e c hs]
      exact h c hn
  · intro h c hc
    have hsub : ∀ c ∈ notNullColumns, c = "id" ∨ c = "content_hash" ∨ c = "scraped_at" ∨
        c ∈ ["vec_rowid", "url", "metadata_json", "embedding_status", "scraped_at", "updated_at"] ∧
          c ∈ sharedColumns := by decide
    rcases hsub c hc with rfl | rfl | rfl | ⟨hm, hs⟩
    · exact Value.noConfusion
    · exact Value.noConfusion
    · exact fun hnull => h "scraped_at" (by decide) (hlater hnull)
    · rw [u.shared_record e c hs]
      exact h c hm

end Upsert

/-- The articles are the same up to cells outside the columns. -/
def Keeps (cols : List String) (db db' : Database) : Prop :=
  ∃ f : Row → Row, db'.rows "scraped_articles" = (db.rows "scraped_articles").map f ∧
    ∀ r, Row.Agree cols (f r) r ∧ (f r).columns = r.columns

theorem Keeps.of_rows (h : rows db' "scraped_articles" = rows db "scraped_articles") :
    Keeps cols db db' := ⟨id, by rw [h, List.map_id], fun r => ⟨.refl cols r, rfl⟩⟩

theorem Keeps.trans (h : Keeps cols db₁ db₂) (h' : Keeps cols db₂ db₃) : Keeps cols db₁ db₃ := by
  obtain ⟨f, hf, hk⟩ := h
  obtain ⟨g, hg, hk'⟩ := h'
  refine ⟨g ∘ f, by rw [hg, hf, List.map_map], ?_⟩
  intro r
  exact ⟨fun c hc => ((hk' (f r)).1 c hc).trans ((hk r).1 c hc), (hk' (f r)).2.trans (hk r).2⟩

/-- The keys of an article. -/
def keyColumns : List String := ["id", "url"]

/-- The identity of the article of a URL is kept. -/
theorem Keeps.urlRows (h : Keeps keyColumns db db') (url : Value) :
    (urlRows db' url).map (fun r => r.get "id") = (urlRows db url).map fun r => r.get "id" := by
  obtain ⟨f, hf, hk⟩ := h
  rw [Articles.urlRows, Articles.urlRows, hf, List.filter_map, List.map_map]
  have hfilter : ((db.rows "scraped_articles").filter
      ((fun r : Row => decide (r.get "url" = url)) ∘ f)) =
        (db.rows "scraped_articles").filter fun r => decide (r.get "url" = url) := by
    apply List.filter_congr
    intro r _
    rw [Function.comp_apply, (hk r).1 "url" (by decide)]
  rw [hfilter]
  apply List.map_congr_left
  intro r _
  exact (hk r).1 "id" (by decide)

theorem conflicts_congr {f : Row → Row} (hk : ∀ r, Row.Agree keyColumns (f r) r) (r r' : Row) :
    scrapedArticles.schema.conflicts (f r) (f r') = scrapedArticles.schema.conflicts r r' := by
  have hkeys : scrapedArticles.schema.keys = [["id"], ["url"]] := by decide
  have hsame (c : String) (hc : c ∈ keyColumns) :
      Row.sameKey [c] (f r) (f r') = Row.sameKey [c] r r' := by
    have hagree (q : Row) : Row.Agree [c] (f q) q := by
      intro d hd
      rw [List.mem_singleton.1 hd]
      exact hk q c hc
    rw [Row.sameKey_agree (hagree r), Row.sameKey_agree_right (hagree r')]
  rw [Schema.conflicts, Schema.conflicts, hkeys]
  simp only [List.any_cons, List.any_nil, hsame "id" (by decide), hsame "url" (by decide)]

/-- The cells are outside the columns. -/
def Spares (cols : List String) (cells : Row) : Prop := ∀ c ∈ cols, c ∉ cells.columns

theorem Spares.assign (h : Spares cols cells) (r : Row) : Row.Agree cols (r.assign cells) r :=
  fun c hc => Row.get_assign (h c hc) r

theorem rows_update {db : Database} (h : db.updateRows "scraped_articles" cells p = .ok db') :
    db'.rows "scraped_articles" =
      (db.rows "scraped_articles").map fun r => if p r then r.assign cells else r := by
  rw [updateRows_ok h, rows, find_update_self]
  cases hT : db.find "scraped_articles" with
  | none =>
    rw [rows_of_none hT]
    rfl
  | some T =>
    rw [rows_of_find hT]
    rfl

theorem keeps_update {db : Database} (hk : Spares cols cells)
    (h : db.updateRows "scraped_articles" cells p = .ok db') : Keeps cols db db' := by
  refine ⟨_, rows_update h, ?_⟩
  intro r
  split
  · exact ⟨hk.assign r, Row.columns_assign r cells⟩
  · exact ⟨.refl cols r, rfl⟩

/-- An update of one article that it may be given succeeds. -/
theorem update_article {db : Database} (hS : Shelf db)
    (huniq : ∀ q ∈ db.rows "scraped_articles", p q = true → q = r)
    (hnames : ∀ c ∈ cells.columns, c ∈ scrapedArticles.schema.names) (hk : Spares keyColumns cells)
    (hadm : scrapedArticles.schema.admits (r.assign cells) = true) :
    ∃ db', db.updateRows "scraped_articles" cells p = .ok db' ∧ Shelf db' ∧
      db'.rows "scraped_articles" =
        (db.rows "scraped_articles").map (fun q => if p q then q.assign cells else q) ∧
      ∀ t, t ≠ "scraped_articles" → db'.find t = db.find t := by
  obtain ⟨T, hT, hSchema⟩ := hS.articles
  have hrows : db.rows "scraped_articles" = T.rows := rows_of_find hT
  have hkeep : ∀ q : Row, Row.Agree keyColumns (if p q then q.assign cells else q) q := by
    intro q
    split
    · exact hk.assign q
    · exact .refl keyColumns q
  have hadm' : ∀ q ∈ T.rows,
      scrapedArticles.schema.admits (if p q then q.assign cells else q) = true := by
    intro q hq
    rw [← hrows] at hq
    split
    next hp =>
      rw [huniq q hq hp]
      exact hadm
    next => exact hS.admitted q hq
  have hkeyed : (T.rows.map fun q => if p q then q.assign cells else q).Pairwise
      fun r r' => ¬ scrapedArticles.schema.conflicts r r' = true := by
    rw [List.pairwise_map]
    rw [← hrows]
    apply hS.keyed.imp
    intro a b hab
    rw [conflicts_congr (f := fun q => if p q then q.assign cells else q) hkeep]
    exact hab
  have hok := updateRows_succeeds hT (by rw [hSchema]; exact hnames) (by rw [hSchema]; exact hadm')
    (by rw [hSchema]; exact hkeyed) (by rw [hSchema]; rfl)
  have hfind : (db.update "scraped_articles" fun T =>
      { T with rows := T.rows.map fun q => if p q then q.assign cells else q }).find
        "scraped_articles" =
      some { T with rows := T.rows.map fun q => if p q then q.assign cells else q } := by
    rw [find_update_self, hT]
    rfl
  have hrows' := rows_of_find hfind
  refine ⟨_, hok, ?_, by rw [hrows', hrows], fun t ht => find_update_ne db _ ht⟩
  constructor
  · exact ⟨_, hfind, hSchema⟩
  · rw [find_update_ne db _ (by decide)]
    exact hS.backup
  · rw [hrows']
    intro q hq
    obtain ⟨q₀, hq₀, he⟩ := List.mem_map.1 hq
    have hshape := hS.shaped q₀ (by rw [hrows]; exact hq₀)
    rw [← he]
    split
    · rw [Row.columns_assign, hshape]
    · exact hshape
  · rw [hrows']
    intro q hq
    obtain ⟨q₀, hq₀, he⟩ := List.mem_map.1 hq
    rw [← he]
    exact hadm' q₀ hq₀
  · rw [hrows']
    exact hkeyed

/-- The articles refer to nothing, so no cascade reaches them. -/
theorem articles_not_doomed {db : Database} {dead : String → Row → Prop} {r : Row}
    (h : ∃ T, db.find "scraped_articles" = some T ∧ T.schema = scrapedArticles.schema) :
    ¬ Doomed db.tables dead "scraped_articles" r := by
  obtain ⟨T, hT, hS⟩ := h
  have hfree (T' : Table) (hT' : db.tables.lookup "scraped_articles" = some T') :
      T'.schema.foreignKeys = [] := by
    have he : some T = some T' := hT.symm.trans hT'
    rw [← Option.some.inj he, hS]
    rfl
  intro hd
  cases hd with
  | direct _ hT' _ hf _ =>
    rw [hfree _ hT'] at hf
    cases hf
  | chain _ hT' _ hf _ =>
    rw [hfree _ hT'] at hf
    cases hf

/-- What is replaced in the backup leaves the articles. -/
theorem replace_backup_articles {db : Database}
    (h : ∃ T, db.find "scraped_articles" = some T ∧ T.schema = scrapedArticles.schema)
    (hok : db.exec now (.replace "scraped_articles_vec_backup" row) = .ok db') :
    db'.find "scraped_articles" = db.find "scraped_articles" := by
  obtain ⟨B, _, _, he, _⟩ := replaceRow_ok hok
  rw [he, append, find_update_ne _ _ (by decide),
    find_deleteRows_keep (by decide) fun r => articles_not_doomed h]

theorem replace_backup {db : Database} {u : Upsert} (hS : Shelf db)
    (hparent : ∃ r ∈ db.rows "scraped_articles", r.get "id" = .text u.articleId) (now : String)
    (v : Int) (embedding : List UInt8) :
    ∃ db', db.exec now (.replace "scraped_articles_vec_backup" (u.backupRow v embedding)) = .ok db' ∧
      Shelf db' ∧ db'.find "scraped_articles" = db.find "scraped_articles" ∧
        BackedUp db' v (.text u.articleId) := by
  obtain ⟨B, hB, hSchema⟩ := hS.backup
  have hrow : ∀ c ∈ ["rowid", "article_id", "embedding"],
      (scrapedArticlesVecBackup.schema.coerce now (u.backupRow v embedding)).get c =
        (u.backupRow v embedding).get c := by
    intro c hc
    simp only [List.mem_cons, List.not_mem_nil, or_false] at hc
    rcases hc with rfl | rfl | rfl <;> rfl
  have hstamp : (scrapedArticlesVecBackup.schema.coerce now (u.backupRow v embedding)).get
      "hashed_at" ≠ .null := by
    have hget : (scrapedArticlesVecBackup.schema.coerce now (u.backupRow v embedding)).get
        "hashed_at" = if u.updatedAt = .null then .text now else u.updatedAt := by
      by_cases hn : u.updatedAt = .null
      · rw [if_pos hn, Schema.coerce, Row.get_build_of_mem (by decide)]
        have hcol : scrapedArticlesVecBackup.schema.column? "hashed_at" =
            some (col "hashed_at" "TEXT").notNull.stamped := by decide
        have hcell : (u.backupRow v embedding).get "hashed_at" = .null := hn
        rw [hcol]
        dsimp only
        rw [if_neg fun h => h.2 ⟨rfl, hcell⟩]
        rfl
      · rw [if_neg hn, Schema.coerce, Row.get_build_of_mem (by decide)]
        have hcol : scrapedArticlesVecBackup.schema.column? "hashed_at" =
            some (col "hashed_at" "TEXT").notNull.stamped := by decide
        have hcell : (u.backupRow v embedding).get "hashed_at" = u.updatedAt := rfl
        have hmem : "hashed_at" ∈ (u.backupRow v embedding).columns := by
          change "hashed_at" ∈ ["rowid", "article_id", "embedding", "hashed_at"]
          decide
        rw [hcol]
        dsimp only
        rw [if_pos ⟨hmem, fun h => hn (hcell ▸ h.2)⟩, hcell]
    rw [hget]
    split
    · exact Value.noConfusion
    next hn => exact hn
  generalize hr : scrapedArticlesVecBackup.schema.coerce now (u.backupRow v embedding) = r at *
  have hadm : scrapedArticlesVecBackup.schema.admits r = true := by
    rw [Schema.admits_iff]
    constructor
    · intro d hd hn
      have hall : ∀ d ∈ scrapedArticlesVecBackup.schema.columns, d.notnull = true →
          d.name = "article_id" ∨ d.name = "embedding" ∨ d.name = "hashed_at" := by decide
      rcases hall d hd hn with he | he | he <;> rw [he]
      · rw [hrow "article_id" (by decide)]
        exact Value.noConfusion
      · rw [hrow "embedding" (by decide)]
        exact Value.noConfusion
      · exact hstamp
    · intro k hk
      cases hk
  obtain ⟨db₁, hdb₁⟩ : ∃ db₁, db₁ = (db.deleteRows "scraped_articles_vec_backup" fun r' =>
    scrapedArticlesVecBackup.schema.conflicts r r').append "scraped_articles_vec_backup" r :=
    ⟨_, rfl⟩
  have harticles : db₁.find "scraped_articles" = db.find "scraped_articles" := by
    rw [hdb₁, append, find_update_ne _ _ (by decide),
      find_deleteRows_keep (by decide) fun r => articles_not_doomed hS.articles]
  have hparents : db₁.parentsPresent scrapedArticlesVecBackup.schema r = true := by
    rw [parentsPresent, List.all_eq_true]
    intro f hf
    rw [List.mem_singleton.1 hf, Bool.or_eq_true]
    right
    obtain ⟨p, hp, hid⟩ := hparent
    rw [rows, harticles, ← rows]
    refine List.any_eq_true.2 ⟨p, hp, ?_⟩
    rw [ForeignKey.links_iff, hrow "article_id" (by decide), hid]
    exact ⟨Value.noConfusion, rfl⟩
  have hsame : SameSchemas db db₁ := by
    rw [hdb₁]
    exact (sameSchemas_deleteRows db _ _).trans (sameSchemas_append _ _ _)
  refine ⟨db₁, ?_, ?_, harticles, r, ?_, ?_, ?_⟩
  · rw [exec, replaceRow, hB]
    dsimp only
    rw [hSchema, hr, if_pos hadm, ← hdb₁, if_pos hparents]
  · constructor
    · rw [harticles]
      exact hS.articles
    · obtain ⟨B', hB', he⟩ := hsame.find hB
      exact ⟨B', hB', he.trans hSchema⟩
    · rw [rows, harticles]
      exact hS.shaped
    · rw [rows, harticles]
      exact hS.admitted
    · rw [rows, harticles]
      exact hS.keyed
  · obtain ⟨B', hB', _⟩ := (sameSchemas_deleteRows db "scraped_articles_vec_backup"
      fun r' => scrapedArticlesVecBackup.schema.conflicts r r').find hB
    rw [hdb₁]
    exact (mem_append hB').2 (.inr ⟨rfl, rfl⟩)
  · exact hrow "rowid" (by decide)
  · exact hrow "article_id" (by decide)

@[simp] theorem db_deleteVec (s : Store) (v : Value) : (s.deleteVec v).db = s.db := rfl

@[simp] theorem db_afterUpdate (s : Store) (old new : Row) : (afterUpdate s old new).db = s.db := by
  rw [afterUpdate]
  split <;> rfl

theorem db_foldl {f : Store → α → Store} (hf : ∀ s a, (f s a).db = s.db) (l : List α) (s : Store) :
    (l.foldl f s).db = s.db := by
  induction l generalizing s with
  | nil => rfl
  | cons a l ih => rw [List.foldl_cons, ih, hf]

theorem update_ok {s : Store} (h : s.update cells p = .ok s') :
    s.db.updateRows "scraped_articles" cells p = .ok s'.db := by
  rw [Store.update] at h
  split at h
  next db hdb =>
    cases h
    rw [hdb, db_foldl fun s old => db_afterUpdate s old _]
  next => cases h

theorem update_succeeds {s : Store} (h : s.db.updateRows "scraped_articles" cells p = .ok db) :
    ∃ s', s.update cells p = .ok s' ∧ s'.db = db := by
  rw [Store.update, h]
  exact ⟨_, rfl, db_foldl (fun s old => db_afterUpdate s old _) _ _⟩

theorem data_ok {s : Store} (h : s.data now stmt = .ok s') : s.db.exec now stmt = .ok s'.db := by
  rw [Store.data] at h
  split at h
  next db hdb =>
    cases h
    rw [hdb, db_foldl (f := afterInsert) fun s r => rfl, db_foldl (f := afterDelete) fun s r => rfl]
  next => cases h

theorem data_succeeds {s : Store} (h : s.db.exec now stmt = .ok db) :
    ∃ s', s.data now stmt = .ok s' ∧ s'.db = db := by
  rw [Store.data, h]
  refine ⟨_, rfl, ?_⟩
  rw [db_foldl (f := afterInsert) fun s r => rfl, db_foldl (f := afterDelete) fun s r => rfl]

def Stocked (db : Database) : Prop :=
  ∃ T, db.find "scraped_articles" = some T ∧ T.schema = scrapedArticles.schema

/-- The statement leaves the columns of the articles. -/
def Harmless (cols : List String) : ArticleStmt → Prop
  | .upsert _ => False
  | .update cells _ => Spares cols cells
  | .data (.replace t _) => t = "scraped_articles_vec_backup"
  | .data (.delete _ _) => False
  | _ => True

theorem stocked_update {db : Database} (h : db.updateRows "scraped_articles" cells p = .ok db')
    (hs : Stocked db) : Stocked db' := by
  obtain ⟨T, hT, hS⟩ := hs
  have hfind : db'.find "scraped_articles" =
      some { T with rows := T.rows.map fun r => if p r then r.assign cells else r } := by
    rw [updateRows_ok h, find_update_self, hT]
    rfl
  exact ⟨_, hfind, hS⟩

theorem exec_keeps {s : Store} (hs : Stocked s.db) (hh : Harmless cols stmt)
    (h : s.exec now stmt = .ok s') : Keeps cols s.db s'.db ∧ Stocked s'.db := by
  cases stmt with
  | upsert row => exact hh.elim
  | deleteVec v =>
    cases h
    exact ⟨.of_rows rfl, hs⟩
  | insertVec v bs =>
    rw [Store.exec] at h
    split at h
    · cases h
    · cases h
      exact ⟨.of_rows rfl, hs⟩
  | update cells id =>
    have hdb := update_ok h
    exact ⟨keeps_update hh hdb, stocked_update hdb hs⟩
  | data stmt =>
    cases stmt with
    | delete t key => exact hh.elim
    | replace t row =>
      have ht : t = "scraped_articles_vec_backup" := hh
      subst ht
      have hfind := replace_backup_articles hs (data_ok h)
      refine ⟨.of_rows (by rw [rows, rows, hfind]), ?_⟩
      rw [Stocked, hfind]
      exact hs

theorem foldlM_cons_ok {s : Store} (h : (stmt :: stmts).foldlM (Store.exec now) s = .ok s') :
    ∃ s₁, s.exec now stmt = .ok s₁ ∧ stmts.foldlM (Store.exec now) s₁ = .ok s' := by
  rw [List.foldlM_cons] at h
  cases he : s.exec now stmt with
  | error err =>
    rw [he] at h
    cases h
  | ok s₁ =>
    rw [he] at h
    exact ⟨s₁, rfl, h⟩

theorem foldlM_keeps {s : Store} {stmts : List ArticleStmt} (hs : Stocked s.db)
    (hh : ∀ stmt ∈ stmts, Harmless cols stmt) (h : stmts.foldlM (Store.exec now) s = .ok s') :
    Keeps cols s.db s'.db ∧ Stocked s'.db := by
  induction stmts generalizing s with
  | nil =>
    cases h
    exact ⟨.of_rows rfl, hs⟩
  | cons stmt stmts ih =>
    obtain ⟨s₁, he, hrest⟩ := foldlM_cons_ok h
    obtain ⟨hk, hs₁⟩ := exec_keeps hs (hh stmt List.mem_cons_self) he
    obtain ⟨hk', hs'⟩ := ih hs₁ (fun stmt hm => hh stmt (List.mem_cons_of_mem _ hm)) hrest
    exact ⟨hk.trans hk', hs'⟩

/-- A transaction leaves the store as it was, or goes through. -/
theorem commit_inv {s : Store} (Inv : Store → Prop) (hs : Inv s)
    (h : ∀ s', stmts.foldlM (Store.exec now) s = .ok s' → Inv s') : Inv (s.commit now stmts) := by
  rw [Store.commit]
  cases hf : stmts.foldlM (Store.exec now) s with
  | error err => exact hs
  | ok s' => exact h s' hf

theorem commit_ok {s : Store} (h : stmts.foldlM (Store.exec now) s = .ok s') :
    s.commit now stmts = s' := by
  rw [Store.commit, h]
  rfl

theorem commit_error {s : Store} (h : s.exec now stmt = .error err) (stmts : List ArticleStmt) :
    s.commit now (stmt :: stmts) = s := by
  rw [Store.commit, List.foldlM_cons, h]
  rfl

namespace Upsert

theorem statements_cons (e : Env) (u : Upsert) :
    u.statements e = .upsert u.insertRow :: (u.statements e).tail := rfl

/-- The statements after the first one leave the keys of the articles and the row ids. -/
theorem harmless_tail (e : Env) (u : Upsert) :
    ∀ stmt ∈ (u.statements e).tail, Harmless ("vec_rowid" :: keyColumns) stmt := by
  intro stmt hm
  rw [statements, buildUpsertStatements, List.cons_append, List.tail_cons] at hm
  rcases List.mem_append.1 hm with hm | hm
  · split at hm
    · simp only [List.mem_cons, List.not_mem_nil, or_false] at hm
      rcases hm with rfl | rfl | rfl | rfl
      · trivial
      · trivial
      · exact (by decide : ∀ c ∈ "vec_rowid" :: keyColumns, c ∉ ["embedding_status"])
      · rfl
    · cases hm
  · split at hm
    · cases hm
    · rw [List.mem_singleton.1 hm]
      exact (by decide : ∀ c ∈ "vec_rowid" :: keyColumns, c ∉ ["content_hash"])

end Upsert

theorem spares_upsert (new : Row) : Spares keyColumns (Row.build upsertColumns new.get) := by
  rw [Spares, Row.columns_build]
  decide

theorem Keeps.subset (h : Keeps cols db db') (hsub : ∀ c ∈ cols', c ∈ cols) :
    Keeps cols' db db' := by
  obtain ⟨f, hf, hk⟩ := h
  exact ⟨f, hf, fun r => ⟨(hk r).1.subset hsub, (hk r).2⟩⟩

/-- An article that does not meet the constraints is refused. -/
theorem upsert_refused {s : Store} (hS : Shelf s.db)
    (h : ¬ scrapedArticles.schema.admits (candidate now row) = true) :
    s.upsert now row = .error .constraint := by
  obtain ⟨T, hT, hSchema⟩ := hS.articles
  rw [Store.upsert, hT]
  dsimp only
  rw [hSchema, if_pos h]

theorem mem_urlRows {db : Database} : r ∈ urlRows db url ↔
    r ∈ db.rows "scraped_articles" ∧ r.get "url" = url := by
  rw [urlRows, List.mem_filter, decide_eq_true_eq]

/-- The URL of another article keeps its identity, whether the transaction goes through or not. -/
theorem commit_taken {s : Store} (hS : Shelf s.db) (e : Env) (u : Upsert)
    (hcomplete : u.Complete) (hr : r ∈ s.db.rows "scraped_articles") (hurl : r.get "url" = u.url) :
    Keeps keyColumns s.db (s.commit now (u.statements e)).db := by
  obtain ⟨T, hT, hSchema⟩ := hS.articles
  rw [u.statements_cons e]
  by_cases hadm : scrapedArticles.schema.admits (candidate now u.insertRow) = true
  · have hany : T.rows.any (Row.sameKey ["url"] (candidate now u.insertRow)) = true := by
      rw [rows_of_find hT] at hr
      refine List.any_eq_true.2 ⟨r, hr, Row.sameKey_iff.2 ?_⟩
      intro c hc
      rw [List.mem_singleton.1 hc, u.get_candidate now (by decide) (by decide), hurl]
      exact ⟨hcomplete "url" (by decide), rfl⟩
    have hup : s.upsert now u.insertRow = s.update
        (Row.build upsertColumns (candidate now u.insertRow).get)
        (Row.sameKey ["url"] (candidate now u.insertRow)) := by
      rw [Store.upsert, hT]
      dsimp only
      rw [hSchema, if_neg (not_not.2 hadm), if_pos hany]
    apply commit_inv (fun s' => Keeps keyColumns s.db s'.db) (.of_rows rfl)
    intro s' hfold
    obtain ⟨s₁, hex, hrest⟩ := foldlM_cons_ok hfold
    have hdb := update_ok (hup.symm.trans hex)
    have htail := (foldlM_keeps (stocked_update hdb hS.articles) (u.harmless_tail e) hrest).1
    exact (keeps_update (spares_upsert _) hdb).trans (htail.subset (by decide))
  · have herr : s.exec now (.upsert u.insertRow) = .error .constraint := upsert_refused hS hadm
    rw [commit_error herr]
    exact .of_rows rfl

/-- The article stands under its URL, with the cells of the call. -/
structure Placed (db : Database) (u : Upsert) (r : Row) : Prop where
  shelf : Shelf db
  urls : urlRows db u.url = [r]
  shared : Row.Agree Upsert.sharedColumns r u.insertRow

/-- When an article was first scraped, as the local row keeps it. -/
def Upsert.storedScrapedAt (db : Database) (u : Upsert) : Value :=
  match (db.rows "scraped_articles").find? (hasId u.articleId) with
  | some r => r.get "scraped_at"
  | none => u.scrapedAt u.updatedAt

/-- Locally the URL and the id belong to each other. -/
def Upsert.Owns (db : Database) (u : Upsert) : Prop :=
  ∀ r ∈ db.rows "scraped_articles", r.get "url" = u.url ↔ r.get "id" = .text u.articleId

theorem shelf_unique {db : Database} (hS : Shelf db) (key : String)
    (hkey : key = "id" ∨ key = "url") (hr : r ∈ db.rows "scraped_articles")
    (hr' : r' ∈ db.rows "scraped_articles") (h : r.get key = r'.get key) : r = r' := by
  by_contra hne
  have hnull : r.get key ≠ .null := by
    apply (admits_iff.1 (hS.admitted r hr)).1
    rcases hkey with rfl | rfl <;> decide
  have hkeys : scrapedArticles.schema.keys = [["id"], ["url"]] := by decide
  have hconf : ∀ a b : Row, a.get key ≠ .null → a.get key = b.get key →
      scrapedArticles.schema.conflicts a b = true := by
    intro a b hn he
    refine Schema.conflicts_iff.2 ⟨[key], ?_, Row.sameKey_iff.2 ?_⟩
    · rw [hkeys]
      rcases hkey with rfl | rfl <;> decide
    · intro c hc
      rw [List.mem_singleton.1 hc]
      exact ⟨hn, he⟩
  have : Std.Symm fun a b : Row =>
      a ≠ b → ¬ scrapedArticles.schema.conflicts a b = true := by
    constructor
    intro a b hab hba
    rw [Schema.conflicts_comm]
    exact hab hba.symm
  have hpair : (db.rows "scraped_articles").Pairwise fun a b =>
      a ≠ b → ¬ scrapedArticles.schema.conflicts a b = true := by
    apply hS.keyed.imp
    intro a b hab _
    exact hab
  have hall := List.Pairwise.forall_of_forall (R := fun a b =>
    a ≠ b → ¬ scrapedArticles.schema.conflicts a b = true) (fun a _ hne => absurd rfl hne) hpair
  exact hall hr hr' hne (hconf r r' hnull h)

theorem urlRows_singleton {db : Database} (hS : Shelf db) (hr : r ∈ db.rows "scraped_articles")
    (hurl : r.get "url" = url) : urlRows db url = [r] := by
  have hmem : r ∈ urlRows db url := mem_urlRows.2 ⟨hr, hurl⟩
  have hone : ∀ q ∈ urlRows db url, q = r := by
    intro q hq
    obtain ⟨hq, hu⟩ := mem_urlRows.1 hq
    exact shelf_unique hS "url" (.inr rfl) hq hr (hu.trans hurl.symm)
  have hnodup : (urlRows db url).Pairwise fun a b => a ≠ b := by
    apply (hS.keyed.sublist List.filter_sublist).imp_of_mem
    intro a b ha _ hab he
    subst he
    apply hab
    obtain ⟨ha, _⟩ := mem_urlRows.1 ha
    have hnull := (admits_iff.1 (hS.admitted a ha)).1 "id" (by decide)
    refine Schema.conflicts_iff.2 ⟨["id"], by decide, Row.sameKey_self ?_⟩
    intro c hc
    rw [List.mem_singleton.1 hc]
    exact hnull
  cases hl : urlRows db url with
  | nil =>
    rw [hl] at hmem
    cases hmem
  | cons a l =>
    rw [hl] at hone hnodup
    have ha := hone a List.mem_cons_self
    cases l with
    | nil => rw [ha]
    | cons b l =>
      have hb := hone b (List.mem_cons_of_mem a List.mem_cons_self)
      exact absurd (ha.trans hb.symm) (List.rel_of_pairwise_cons hnodup List.mem_cons_self)

theorem Placed.id (h : Placed db u r) : r.get "id" = .text u.articleId := h.shared "id" (by decide)

theorem Placed.mem (h : Placed db u r) : r ∈ db.rows "scraped_articles" := by
  have hm : r ∈ urlRows db u.url := by
    rw [h.urls]
    exact List.mem_singleton_self r
  exact (mem_urlRows.1 hm).1

/-- A cell of the article is set. -/
theorem placed_update {s : Store} (h : Placed s.db u r) (hc : c = "embedding_status" ∨ c = "content_hash")
    (hv : c = "embedding_status" → v = u.embeddingStatus) (hnull : v ≠ .null) :
    ∃ s' r', s.update [(c, v)] (hasId u.articleId) = .ok s' ∧ Placed s'.db u r' ∧
      r'.get c = v ∧ (∀ d, d ≠ c → r'.get d = r.get d) ∧
      s'.db.find "scraped_articles_vec_backup" = s.db.find "scraped_articles_vec_backup" := by
  have hshape := h.shelf.shaped r h.mem
  have hmem : c ∈ r.columns := by
    rw [hshape]
    rcases hc with rfl | rfl <;> decide
  have hself : (r.set c v).get c = v := Row.get_set_self r v hmem
  have hother : ∀ d, d ≠ c → (r.set c v).get d = r.get d := fun d hd => Row.get_set_ne r v hd
  have hfree : Spares keyColumns [(c, v)] := by
    change ∀ d ∈ keyColumns, d ∉ [c]
    rcases hc with rfl | rfl <;> decide
  have hshared : Row.Agree Upsert.sharedColumns (r.set c v) u.insertRow := by
    intro d hd
    by_cases hdc : d = c
    · subst hdc
      rcases hc with rfl | rfl
      · rw [hself, hv rfl]
        rfl
      · exact absurd hd (by decide)
    · rw [hother d hdc]
      exact h.shared d hd
  have hadm : scrapedArticles.schema.admits (r.assign [(c, v)]) = true := by
    obtain ⟨hn, hstatus⟩ := admits_iff.1 (h.shelf.admitted r h.mem)
    change scrapedArticles.schema.admits (r.set c v) = true
    rw [admits_iff]
    constructor
    · intro d hd
      by_cases hdc : d = c
      · rw [hdc, hself]
        exact hnull
      · rw [hother d hdc]
        exact hn d hd
    · obtain ⟨st, hst, he⟩ := hstatus
      refine ⟨st, hst, ?_⟩
      rw [hshared "embedding_status" (by decide), ← h.shared "embedding_status" (by decide)]
      exact he
  obtain ⟨db', hok, hS', hrows, hkeep⟩ := update_article (p := hasId u.articleId) h.shelf (r := r)
    (fun q hq hp => shelf_unique h.shelf "id" (.inl rfl) hq h.mem
      ((of_decide_eq_true hp).trans h.id.symm))
    (by
      intro d hd
      rw [List.mem_singleton.1 hd]
      change c ∈ scrapedArticles.schema.names
      rcases hc with rfl | rfl <;> decide) hfree hadm
  obtain ⟨s', hs', hdb⟩ := update_succeeds hok
  have hr' : r.set c v ∈ db'.rows "scraped_articles" := by
    rw [hrows]
    have hhit : hasId u.articleId r = true := decide_eq_true h.id
    exact List.mem_map.2 ⟨r, h.mem, if_pos hhit⟩
  refine ⟨s', r.set c v, hs', ?_, hself, hother, by rw [hdb]; exact hkeep _ (by decide)⟩
  rw [hdb]
  exact ⟨hS', urlRows_singleton hS' hr' (hshared "url" (by decide)), hshared⟩

/-- Under a URL that is stored the first statement sets the cells of the call. -/
theorem upsert_stored {s : Store} (hS : Shelf s.db) {u : Upsert}
    (hadm : scrapedArticles.schema.admits (candidate now u.insertRow) = true)
    (hr : r ∈ s.db.rows "scraped_articles") (hurl : r.get "url" = u.url) :
    ∃ s', s.upsert now u.insertRow = .ok s' ∧ Shelf s'.db ∧
      s'.db.rows "scraped_articles" = (s.db.rows "scraped_articles").map (fun q =>
        if Row.sameKey ["url"] (candidate now u.insertRow) q then
          q.assign (Row.build upsertColumns (candidate now u.insertRow).get) else q) ∧
      Row.sameKey ["url"] (candidate now u.insertRow) r = true ∧
      ∀ t, t ≠ "scraped_articles" → s'.db.find t = s.db.find t := by
  obtain ⟨T, hT, hSchema⟩ := hS.articles
  have hrows : s.db.rows "scraped_articles" = T.rows := rows_of_find hT
  obtain ⟨hn, hstatus⟩ := admits_iff.1 hadm
  have hnew : (candidate now u.insertRow).get "url" = u.url :=
    u.get_candidate now (by decide) (by decide)
  have hkey : Row.sameKey ["url"] (candidate now u.insertRow) r = true := by
    refine Row.sameKey_iff.2 ?_
    intro c hc
    rw [List.mem_singleton.1 hc]
    exact ⟨hn "url" (by decide), hnew.trans hurl.symm⟩
  have hadm' : scrapedArticles.schema.admits
      (r.assign (Row.build upsertColumns (candidate now u.insertRow).get)) = true := by
    have hget : ∀ c ∈ scrapedArticles.schema.names,
        (r.assign (Row.build upsertColumns (candidate now u.insertRow).get)).get c =
          if c ∈ upsertColumns then (candidate now u.insertRow).get c else r.get c :=
      fun c hc => Row.get_assign_build r _ _ (hS.shaped r hr ▸ hc)
    obtain ⟨hold, _⟩ := admits_iff.1 (hS.admitted r hr)
    rw [admits_iff]
    constructor
    · intro c hc
      have hsub : ∀ c ∈ notNullColumns, c ∈ scrapedArticles.schema.names := by decide
      rw [hget c (hsub c hc)]
      split
      · exact hn c hc
      · exact hold c hc
    · rw [hget "embedding_status" (by decide), if_pos (by decide)]
      exact hstatus
  obtain ⟨db', hok, hS', hrows', hkeep⟩ := update_article
    (p := Row.sameKey ["url"] (candidate now u.insertRow)) hS (r := r)
    (by
      intro q hq hp
      have hp := (Row.sameKey_iff.1 hp "url" (List.mem_singleton_self _)).2
      rw [hnew] at hp
      exact shelf_unique hS "url" (.inr rfl) hq hr (hp.symm.trans hurl.symm))
    (by rw [Row.columns_build]; decide) (spares_upsert _) hadm'
  obtain ⟨s', hs', hdb⟩ := update_succeeds hok
  have hany : T.rows.any (Row.sameKey ["url"] (candidate now u.insertRow)) = true :=
    List.any_eq_true.2 ⟨r, hrows ▸ hr, hkey⟩
  refine ⟨s', ?_, by rw [hdb]; exact hS', by rw [hdb]; exact hrows', hkey, by rw [hdb]; exact hkeep⟩
  rw [Store.upsert, hT]
  dsimp only
  rw [hSchema, if_neg (not_not.2 hadm), if_pos hany]
  exact hs'

/-- The first statement places the article. -/
theorem placed_upsert {s : Store} (hS : Shelf s.db) {u : Upsert} (howns : u.Owns s.db)
    (hadm : scrapedArticles.schema.admits (candidate now u.insertRow) = true) :
    ∃ s' r, s.upsert now u.insertRow = .ok s' ∧ Placed s'.db u r ∧
      r.get "scraped_at" = u.storedScrapedAt s.db ∧
      s'.db.find "scraped_articles_vec_backup" = s.db.find "scraped_articles_vec_backup" := by
  obtain ⟨T, hT, hSchema⟩ := hS.articles
  have hrows : s.db.rows "scraped_articles" = T.rows := rows_of_find hT
  have hnew : ∀ c ∈ Upsert.sharedColumns,
      (candidate now u.insertRow).get c = u.insertRow.get c := by
    have hsub : ∀ c ∈ Upsert.sharedColumns, c ∈ scrapedArticles.schema.names ∧
        c ≠ "content_hash" := by decide
    exact fun c hc => u.get_candidate now (hsub c hc).1 (hsub c hc).2
  obtain ⟨hn, -⟩ := admits_iff.1 hadm
  have hurlNull : u.url ≠ .null := by
    have h := hn "url" (by decide)
    rw [hnew "url" (by decide)] at h
    exact h
  by_cases hany : T.rows.any (Row.sameKey ["url"] (candidate now u.insertRow)) = true
  · obtain ⟨r, hr, hk⟩ := List.any_eq_true.1 hany
    rw [← hrows] at hr
    have hurl : r.get "url" = u.url := by
      have hk := (Row.sameKey_iff.1 hk "url" (List.mem_singleton_self _)).2
      rw [hnew "url" (by decide)] at hk
      exact hk.symm
    have hid : r.get "id" = .text u.articleId := (howns r hr).1 hurl
    obtain ⟨s', hs', hS', hrows', hkey, hkeep⟩ := upsert_stored hS hadm hr hurl
    have hget : ∀ c ∈ scrapedArticles.schema.names,
        (r.assign (Row.build upsertColumns (candidate now u.insertRow).get)).get c =
          if c ∈ upsertColumns then (candidate now u.insertRow).get c else r.get c :=
      fun c hc => Row.get_assign_build r _ _ (hS.shaped r hr ▸ hc)
    generalize hr' : r.assign (Row.build upsertColumns (candidate now u.insertRow).get) = r' at hget
    have hshared : Row.Agree Upsert.sharedColumns r' u.insertRow := by
      have hsub : ∀ c ∈ Upsert.sharedColumns, c ∈ scrapedArticles.schema.names ∧
          (c = "id" ∨ c = "url" ∨ c ∈ upsertColumns) := by decide
      intro c hc
      obtain ⟨hname, hor⟩ := hsub c hc
      rw [hget c hname]
      rcases hor with rfl | rfl | hup
      · rw [if_neg (by decide), hid]
        rfl
      · rw [if_neg (by decide), hurl]
        rfl
      · rw [if_pos hup, hnew c hc]
    have hmem : r' ∈ s'.db.rows "scraped_articles" := by
      rw [hrows']
      exact List.mem_map.2 ⟨r, hr, (if_pos hkey).trans hr'⟩
    refine ⟨s', r', hs', ?_, ?_, hkeep _ (by decide)⟩
    · exact ⟨hS', urlRows_singleton hS' hmem (hshared "url" (by decide)), hshared⟩
    · have hfind : (s.db.rows "scraped_articles").find? (hasId u.articleId) = some r := by
        cases hf : (s.db.rows "scraped_articles").find? (hasId u.articleId) with
        | none => exact absurd (decide_eq_true hid) (List.find?_eq_none.1 hf r hr)
        | some q =>
          have hhit := List.find?_some hf
          have hq : q.get "id" = .text u.articleId := of_decide_eq_true hhit
          rw [shelf_unique hS "id" (.inl rfl) (List.mem_of_find?_eq_some hf) hr
            (hq.trans hid.symm)]
      rw [hget "scraped_at" (by decide), if_neg (by decide), Upsert.storedScrapedAt, hfind]
  · have hnone : ∀ r ∈ s.db.rows "scraped_articles", r.get "url" ≠ u.url := by
      intro r hr hurl
      apply hany
      rw [hrows] at hr
      refine List.any_eq_true.2 ⟨r, hr, Row.sameKey_iff.2 ?_⟩
      intro c hc
      rw [List.mem_singleton.1 hc, hnew "url" (by decide), hurl]
      exact ⟨hurlNull, rfl⟩
    have hnoid : ∀ r ∈ s.db.rows "scraped_articles", r.get "id" ≠ .text u.articleId :=
      fun r hr hid => hnone r hr ((howns r hr).2 hid)
    have hconf : ∀ r ∈ s.db.rows "scraped_articles",
        ¬ scrapedArticles.schema.conflicts (candidate now u.insertRow) r = true := by
      intro r hr hc
      have hkeys : scrapedArticles.schema.keys = [["id"], ["url"]] := by decide
      obtain ⟨key, hkey, hk⟩ := Schema.conflicts_iff.1 hc
      rw [hkeys] at hkey
      simp only [List.mem_cons, List.not_mem_nil, or_false] at hkey
      rcases hkey with rfl | rfl
      · have hid := (Row.sameKey_iff.1 hk "id" (List.mem_singleton_self _)).2
        rw [hnew "id" (by decide)] at hid
        exact hnoid r hr hid.symm
      · have hurl := (Row.sameKey_iff.1 hk "url" (List.mem_singleton_self _)).2
        rw [hnew "url" (by decide)] at hurl
        exact hnone r hr hurl.symm
    have hfree : ¬ T.rows.any (T.schema.conflicts (candidate now u.insertRow)) = true := by
      intro hc
      obtain ⟨r, hr, hc⟩ := List.any_eq_true.1 hc
      rw [hSchema] at hc
      exact hconf r (hrows ▸ hr) hc
    have hfind : (s.db.append "scraped_articles" (candidate now u.insertRow)).find
        "scraped_articles" = some { T with rows := T.rows ++ [candidate now u.insertRow] } := by
      rw [append, find_update_self, hT]
      rfl
    have hrows' := rows_of_find hfind
    have hback : (s.db.append "scraped_articles" (candidate now u.insertRow)).find
        "scraped_articles_vec_backup" = s.db.find "scraped_articles_vec_backup" :=
      find_update_ne _ _ (by decide)
    have hS' : Shelf (s.db.append "scraped_articles" (candidate now u.insertRow)) := by
      constructor
      · exact ⟨_, hfind, hSchema⟩
      · rw [hback]
        exact hS.backup
      · rw [hrows', ← hrows]
        intro r hr
        rcases List.mem_append.1 hr with hr | hr
        · exact hS.shaped r hr
        · rw [List.mem_singleton.1 hr, candidate, Schema.fill, Row.columns_build]
      · rw [hrows', ← hrows]
        intro r hr
        rcases List.mem_append.1 hr with hr | hr
        · exact hS.admitted r hr
        · rw [List.mem_singleton.1 hr]
          exact hadm
      · rw [hrows', ← hrows, List.pairwise_append]
        refine ⟨hS.keyed, List.pairwise_singleton _ _, ?_⟩
        intro r hr r' hr'
        rw [List.mem_singleton.1 hr', Schema.conflicts_comm]
        exact hconf r hr
    refine ⟨afterInsert { s with db := s.db.append "scraped_articles" (candidate now u.insertRow) }
      (candidate now u.insertRow), candidate now u.insertRow, ?_,
      ⟨hS', urlRows_singleton hS' ?_ ?_, hnew⟩, ?_, hback⟩
    · rw [Store.upsert, hT]
      dsimp only
      rw [hSchema, if_neg (not_not.2 hadm), if_neg hany, if_neg (hSchema ▸ hfree)]
    · change candidate now u.insertRow ∈
        (s.db.append "scraped_articles" (candidate now u.insertRow)).rows "scraped_articles"
      rw [hrows']
      exact List.mem_append_right _ (List.mem_singleton_self _)
    · exact hnew "url" (by decide)
    · have hfindNone : (s.db.rows "scraped_articles").find? (hasId u.articleId) = none := by
        rw [List.find?_eq_none]
        intro r hr hid
        exact hnoid r hr (of_decide_eq_true hid)
      rw [Upsert.storedScrapedAt, hfindNone]
      rfl

theorem vector_some {u : Upsert} (h : u.vector = some (v, bs)) :
    u.info.vecRowid = some v ∧ u.embedding = some bs ∧ u.embeddingStatus = .text "EMBEDDED" := by
  rw [Upsert.vector] at h
  split at h
  next v' bs' hv hb =>
    split at h
    next hok =>
      cases h
      exact ⟨hv, hb, hok.2⟩
    next => cases h
  next => cases h

/-- The statements of an embedding go through. -/
theorem placed_vector {s : Store} {u : Upsert} (h : Placed s.db u r)
    (hstatus : u.embeddingStatus = .text "EMBEDDED") (now : String) (v : Int) (bs : List UInt8) :
    ∃ s' r', [ArticleStmt.deleteVec v, .insertVec v bs,
        .update [("embedding_status", .text "EMBEDDED")] u.articleId,
        .data (.replace "scraped_articles_vec_backup" (u.backupRow v bs))].foldlM
          (Store.exec now) s = .ok s' ∧ Placed s'.db u r' ∧
      r'.get "scraped_at" = r.get "scraped_at" ∧ BackedUp s'.db v (.text u.articleId) := by
  have hfree : ¬ ((s.deleteVec (.int v)).vec.any fun p => decide (p.1 = .int v)) = true := by
    intro hany
    obtain ⟨p, hp, he⟩ := List.any_eq_true.1 hany
    exact of_decide_eq_true (List.mem_filter.1 hp).2 (of_decide_eq_true he)
  obtain ⟨s₁, hs₁⟩ : ∃ s₁ : Store, s₁ = { s.deleteVec (.int v) with
      vec := (s.deleteVec (.int v)).vec ++ [(.int v, bs)] } := ⟨_, rfl⟩
  have hdb₁ : s₁.db = s.db := by rw [hs₁]; rfl
  have hins : (s.deleteVec (.int v)).exec now (.insertVec v bs) = .ok s₁ := by
    rw [Store.exec, if_neg hfree, hs₁]
  obtain ⟨s₂, r₂, hup, hplaced, _, hother, _⟩ := placed_update (s := s₁) (by rw [hdb₁]; exact h)
    (.inl rfl) (fun _ => hstatus.symm) (v := .text "EMBEDDED") Value.noConfusion
  obtain ⟨db₃, hrep, hS₃, hfind, hback⟩ :=
    replace_backup hplaced.shelf ⟨r₂, hplaced.mem, hplaced.id⟩ now v bs
  obtain ⟨s₃, hs₃, hdb₃⟩ := data_succeeds hrep
  subst hdb₃
  refine ⟨s₃, r₂, ?_, ⟨hS₃, ?_, hplaced.shared⟩, hother "scraped_at" (by decide), hback⟩
  · rw [List.foldlM_cons]
    change ((s.deleteVec (.int v)).exec now (.insertVec v bs) >>= _) = _
    rw [hins]
    change (s₁.update _ _ >>= _) = _
    rw [hup]
    change (s₂.data now _ >>= _) = _
    rw [hs₃]
    rfl
  · rw [urlRows, rows, hfind]
    exact hplaced.urls

/-- Where the URL is the article's own, the transaction stores it. -/
theorem commit_owned {s : Store} (hS : Shelf s.db) {u : Upsert} (howns : u.Owns s.db)
    (hadm : scrapedArticles.schema.admits (candidate now u.insertRow) = true) (e : Env)
    (hhash : u.contentHash e ≠ "") :
    ∃ r, Placed (s.commit now (u.statements e)).db u r ∧
      r.get "content_hash" = .text (u.contentHash e) ∧
      r.get "scraped_at" = u.storedScrapedAt s.db ∧
      ∀ v ∈ u.vector, BackedUp (s.commit now (u.statements e)).db v.1 (.text u.articleId) := by
  obtain ⟨s₁, r₁, hup, hplaced, hscraped, _⟩ := placed_upsert hS howns hadm
  have hvector : ∃ s₂ r₂, u.buildUpsertStatements.foldlM (Store.exec now) s = .ok s₂ ∧
      Placed s₂.db u r₂ ∧ r₂.get "scraped_at" = r₁.get "scraped_at" ∧
      ∀ v ∈ u.vector, BackedUp s₂.db v.1 (.text u.articleId) := by
    rw [Upsert.buildUpsertStatements, List.foldlM_cons]
    change ∃ s₂ r₂, (s.upsert now u.insertRow >>= _) = _ ∧ _
    rw [hup]
    cases hv : u.vector with
    | none =>
      refine ⟨s₁, r₁, rfl, hplaced, rfl, ?_⟩
      intro v hm
      cases hm
    | some p =>
      obtain ⟨v, bs⟩ := p
      obtain ⟨s₂, r₂, hfold, hplaced₂, hkeep, hback⟩ :=
        placed_vector hplaced (vector_some hv).2.2 now v bs
      refine ⟨s₂, r₂, hfold, hplaced₂, hkeep, ?_⟩
      intro p hm
      cases hm
      exact hback
  obtain ⟨s₂, r₂, hfold, hplaced₂, hkeep, hback⟩ := hvector
  obtain ⟨s₃, r₃, hset, hplaced₃, hcell, hother, hfind⟩ := placed_update hplaced₂ (.inr rfl)
    (fun he => absurd he (by decide)) (v := .text (u.contentHash e)) Value.noConfusion
  have hcommit : s.commit now (u.statements e) = s₃ := by
    apply commit_ok
    rw [Upsert.statements, if_neg hhash, List.foldlM_append, hfold]
    change (s₂.update _ _ >>= _) = _
    rw [hset]
    rfl
  rw [hcommit]
  refine ⟨r₃, hplaced₃, hcell, ?_, ?_⟩
  · rw [hother "scraped_at" (by decide), hkeep, hscraped]
  · intro v hm
    obtain ⟨b, hb, hid⟩ := hback v hm
    rw [rows, ← hfind, ← rows] at hb
    exact ⟨b, hb, hid⟩

/-- An id that belongs to another URL is refused. -/
theorem commit_conflict {s : Store} (hS : Shelf s.db) (e : Env) {u : Upsert}
    (hr : r ∈ s.db.rows "scraped_articles") (hid : r.get "id" = .text u.articleId)
    (hnone : ∀ q ∈ s.db.rows "scraped_articles", q.get "url" ≠ u.url) :
    s.commit now (u.statements e) = s := by
  obtain ⟨T, hT, hSchema⟩ := hS.articles
  have hrows : s.db.rows "scraped_articles" = T.rows := rows_of_find hT
  rw [u.statements_cons e]
  suffices herr : s.exec now (.upsert u.insertRow) = .error .constraint from commit_error herr _
  change s.upsert now u.insertRow = _
  by_cases hadm : scrapedArticles.schema.admits (candidate now u.insertRow) = true
  · have hany : ¬ T.rows.any (Row.sameKey ["url"] (candidate now u.insertRow)) = true := by
      intro hany
      obtain ⟨q, hq, hk⟩ := List.any_eq_true.1 hany
      have hk := (Row.sameKey_iff.1 hk "url" (List.mem_singleton_self _)).2
      rw [u.get_candidate now (by decide) (by decide)] at hk
      exact hnone q (hrows ▸ hq) hk.symm
    have hconf : T.rows.any (T.schema.conflicts (candidate now u.insertRow)) = true := by
      rw [hrows] at hr
      refine List.any_eq_true.2 ⟨r, hr, Schema.conflicts_iff.2 ⟨["id"], ?_, Row.sameKey_iff.2 ?_⟩⟩
      · rw [hSchema]
        decide
      · intro c hc
        rw [List.mem_singleton.1 hc, u.get_candidate now (by decide) (by decide), hid]
        exact ⟨Value.noConfusion, rfl⟩
    rw [Store.upsert, hT]
    dsimp only
    rw [hSchema, if_neg (not_not.2 hadm), if_neg hany, if_pos (hSchema ▸ hconf)]
  · exact upsert_refused hS hadm

end Articles
