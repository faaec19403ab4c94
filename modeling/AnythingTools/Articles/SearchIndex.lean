import AnythingTools.Articles.OneArticle
import AnythingTools.Machine

namespace Articles
open Relational Relational.Database Sync Schemas
set_option autoImplicit true

/-- The text index has one entry for each article, and each vector is an article's. -/
structure Indexed (s : Store) : Prop where
  fts : s.fts.Perm ((s.db.rows "scraped_articles").map ftsEntry)
  vec : ∀ p ∈ s.vec, ∃ r ∈ s.db.rows "scraped_articles", r.get "vec_rowid" = p.1

/-- The indexes follow the articles, which are stored as their table declares them. -/
structure Kept (s : Store) : Prop extends Indexed s where
  stocked : Stocked s.db
  shaped : ∀ r ∈ s.db.rows "scraped_articles", r.columns = scrapedArticles.schema.names

theorem mem_deleteVec {s : Store} : p ∈ (s.deleteVec v).vec ↔ p ∈ s.vec ∧ p.1 ≠ v := by
  rw [Store.deleteVec, List.mem_filter, decide_eq_true_eq]

/-- The cells of an updated row move to a new entry. -/
theorem fts_afterUpdate (s : Store) (old new : Row) :
    (afterUpdate s old new).fts = s.fts.erase (ftsEntry old) ++ [ftsEntry new] := by
  rw [afterUpdate]
  split <;> rfl

/-- A vector that an update leaves is not under a row id that its article has given up. -/
theorem vec_afterUpdate {s : Store} (h : p ∈ (afterUpdate s old new).vec) :
    p ∈ s.vec ∧ (old.get "vec_rowid" ≠ new.get "vec_rowid" → p.1 ≠ old.get "vec_rowid") := by
  rw [afterUpdate] at h
  split at h
  next => exact ⟨(mem_deleteVec.1 h).1, fun _ => (mem_deleteVec.1 h).2⟩
  next hn =>
    rw [not_or, not_not] at hn
    exact ⟨h, fun hne => absurd hn.1 hne⟩

theorem fts_foldl_update {s : Store} (f : Row → Row) (p : Row → Bool) {rows : List Row}
    (others : List FtsEntry) (h : s.fts.Perm (others ++ rows.map ftsEntry)) :
    ((rows.filter p).foldl (fun s old => afterUpdate s old (f old)) s).fts.Perm
      (others ++ rows.map fun r => ftsEntry (if p r then f r else r)) := by
  induction rows generalizing s others with
  | nil => exact h
  | cons r rows ih =>
    rw [List.map_cons] at h
    by_cases hp : p r = true
    · rw [List.filter_cons_of_pos hp, List.foldl_cons]
      have hstep : (afterUpdate s r (f r)).fts.Perm
          ((others ++ [ftsEntry (f r)]) ++ rows.map ftsEntry) := by
        rw [fts_afterUpdate, List.append_assoc, List.singleton_append]
        have herase : (s.fts.erase (ftsEntry r)).Perm (others ++ rows.map ftsEntry) := by
          have hrem := (h.trans List.perm_middle).erase (ftsEntry r)
          rw [List.erase_cons_head] at hrem
          exact hrem
        exact (herase.append_right _).trans
          ((List.perm_append_singleton _ _).trans List.perm_middle.symm)
      have hrest := ih _ hstep
      rw [List.append_assoc, List.singleton_append] at hrest
      rw [List.map_cons, if_pos hp]
      exact hrest
    · rw [List.filter_cons_of_neg hp]
      have hpassed : s.fts.Perm ((others ++ [ftsEntry r]) ++ rows.map ftsEntry) := by
        rw [List.append_assoc, List.singleton_append]
        exact h
      have hrest := ih _ hpassed
      rw [List.append_assoc, List.singleton_append] at hrest
      rw [List.map_cons, if_neg hp]
      exact hrest

theorem vec_foldl_update {s : Store} (f : Row → Row) {olds : List Row}
    (h : q ∈ (olds.foldl (fun s old => afterUpdate s old (f old)) s).vec) :
    q ∈ s.vec ∧ ∀ old ∈ olds, old.get "vec_rowid" ≠ (f old).get "vec_rowid" →
      q.1 ≠ old.get "vec_rowid" := by
  induction olds generalizing s with
  | nil => exact ⟨h, fun old hm => nomatch hm⟩
  | cons r olds ih =>
    obtain ⟨hq, hrest⟩ := ih h
    obtain ⟨hq, hfirst⟩ := vec_afterUpdate hq
    refine ⟨hq, ?_⟩
    intro old hm
    rcases List.mem_cons.1 hm with rfl | hm
    · exact hfirst
    · exact hrest old hm

/-- The triggers keep the indexes through an update. -/
theorem kept_update {s : Store} (hk : Kept s) (h : s.update cells p = .ok s') : Kept s' := by
  have hdb := update_ok h
  have hrows := rows_update hdb
  have hs' : s' = ((s.db.rows "scraped_articles").filter p).foldl
      (fun s old => afterUpdate s old (old.assign cells)) { s with db := s'.db } := by
    rw [Store.update, hdb] at h
    exact (Except.ok.inj h).symm
  refine ⟨⟨?_, ?_⟩, stocked_update hdb hk.stocked, ?_⟩
  · rw [hrows, hs', List.map_map]
    exact fts_foldl_update _ p [] hk.fts
  · intro q hq
    rw [hs'] at hq
    obtain ⟨hq, hmoved⟩ := vec_foldl_update _ hq
    obtain ⟨r, hr, hv⟩ := hk.vec q hq
    rw [hrows]
    refine ⟨_, List.mem_map.2 ⟨r, hr, rfl⟩, ?_⟩
    split
    next hp =>
      by_contra hne
      apply hmoved r (List.mem_filter.2 ⟨hr, hp⟩)
      · exact fun he => hne (he.symm.trans hv)
      · exact hv.symm
    next => exact hv
  · intro q hq
    rw [hrows] at hq
    obtain ⟨r, hr, rfl⟩ := List.mem_map.1 hq
    split
    · rw [Row.columns_assign]
      exact hk.shaped r hr
    · exact hk.shaped r hr

theorem rows_append {db : Database} (hs : Stocked db) (row : Row) :
    (db.append "scraped_articles" row).rows "scraped_articles" =
      db.rows "scraped_articles" ++ [row] := by
  obtain ⟨T, hT, _⟩ := hs
  have hfind : (db.append "scraped_articles" row).find "scraped_articles" =
      some { T with rows := T.rows ++ [row] } := by
    rw [append, find_update_self, hT]
    rfl
  rw [rows_of_find hfind, rows_of_find hT]

theorem stocked_of_same {db : Database} (h : SameSchemas db db') (hs : Stocked db) :
    Stocked db' := by
  obtain ⟨T, hT, hS⟩ := hs
  obtain ⟨T', hT', he⟩ := h.find hT
  exact ⟨T', hT', he.trans hS⟩

/-- The insert trigger enters a new article. -/
theorem kept_insert {s : Store} (hk : Kept s) (hshape : row.columns = scrapedArticles.schema.names)
    (hrows : db.rows "scraped_articles" = s.db.rows "scraped_articles" ++ [row])
    (hs : Stocked db) : Kept (afterInsert { s with db } row) := by
  have hrows' : (afterInsert { s with db } row).db.rows "scraped_articles" =
      s.db.rows "scraped_articles" ++ [row] := hrows
  refine ⟨⟨?_, ?_⟩, hs, ?_⟩
  · rw [hrows', List.map_append, List.map_singleton]
    exact hk.fts.append_right _
  · intro p hp
    obtain ⟨r, hr, hv⟩ := hk.vec p hp
    rw [hrows']
    exact ⟨r, List.mem_append_left _ hr, hv⟩
  · intro r hr
    rw [hrows'] at hr
    rcases List.mem_append.1 hr with hr | hr
    · exact hk.shaped r hr
    · rw [List.mem_singleton.1 hr]
      exact hshape

/-- After the upsert an article has the row id of the call. -/
theorem kept_upsert {s : Store} (hk : Kept s) (h : s.upsert now row = .ok s') :
    Kept s' ∧ ∃ r ∈ s'.db.rows "scraped_articles",
      r.get "vec_rowid" = (candidate now row).get "vec_rowid" := by
  obtain ⟨T, hT, hSchema⟩ := hk.stocked
  have hrows : s.db.rows "scraped_articles" = T.rows := rows_of_find hT
  rw [Store.upsert, hT] at h
  dsimp only at h
  split at h
  · cases h
  · split at h
    next hany =>
      refine ⟨kept_update hk h, ?_⟩
      obtain ⟨r, hr, hkey⟩ := List.any_eq_true.1 hany
      rw [← hrows] at hr
      rw [rows_update (update_ok h)]
      refine ⟨_, List.mem_map.2 ⟨r, hr, rfl⟩, ?_⟩
      rw [if_pos hkey, Row.get_assign_build r _ _ (by rw [hk.shaped r hr]; decide),
        if_pos (by decide)]
    · split at h
      · cases h
      · cases h
        have happend := rows_append hk.stocked (candidate now row)
        refine ⟨kept_insert hk ?_ happend
          (stocked_of_same (sameSchemas_append _ _ _) hk.stocked), candidate now row, ?_, rfl⟩
        · rw [candidate, Schema.fill, Row.columns_build]
        · change _ ∈ (s.db.append "scraped_articles" (candidate now row)).rows _
          rw [happend]
          exact List.mem_append_right _ (List.mem_singleton_self _)

theorem kept_deleteVec {s : Store} (hk : Kept s) (v : Value) : Kept (s.deleteVec v) :=
  ⟨⟨hk.fts, fun p hp => hk.vec p (mem_deleteVec.1 hp).1⟩, hk.stocked, hk.shaped⟩

theorem kept_insertVec {s : Store} (hk : Kept s) (h : s.exec now (.insertVec v bs) = .ok s')
    (hv : ∃ r ∈ s.db.rows "scraped_articles", r.get "vec_rowid" = .int v) : Kept s' := by
  rw [Store.exec] at h
  split at h
  · cases h
  · cases h
    refine ⟨⟨hk.fts, ?_⟩, hk.stocked, hk.shaped⟩
    intro p hp
    rcases List.mem_append.1 hp with hp | hp
    · exact hk.vec p hp
    · rw [List.mem_singleton.1 hp]
      exact hv

theorem fts_foldl_delete {s : Store} (p : Row → Bool) {rows : List Row} (others : List FtsEntry)
    (h : s.fts.Perm (others ++ rows.map ftsEntry)) :
    ((rows.filter p).foldl afterDelete s).fts.Perm
      (others ++ (rows.filter fun r => !p r).map ftsEntry) := by
  induction rows generalizing s others with
  | nil => exact h
  | cons r rows ih =>
    rw [List.map_cons] at h
    by_cases hp : p r = true
    · rw [List.filter_cons_of_pos hp, List.foldl_cons, List.filter_cons_of_neg (by rw [hp]; decide)]
      have herase := (h.trans List.perm_middle).erase (ftsEntry r)
      rw [List.erase_cons_head] at herase
      exact ih (s := afterDelete s r) _ herase
    · rw [List.filter_cons_of_neg hp]
      rw [List.filter_cons_of_pos (by rw [Bool.not_eq_true] at hp; rw [hp]; rfl), List.map_cons]
      have hpassed : s.fts.Perm ((others ++ [ftsEntry r]) ++ rows.map ftsEntry) := by
        rw [List.append_assoc, List.singleton_append]
        exact h
      have hrest := ih _ hpassed
      rw [List.append_assoc, List.singleton_append] at hrest
      exact hrest

theorem vec_foldl_delete {s : Store} {olds : List Row} (h : q ∈ (olds.foldl afterDelete s).vec) :
    q ∈ s.vec ∧ ∀ old ∈ olds, q.1 ≠ old.get "vec_rowid" := by
  induction olds generalizing s with
  | nil => exact ⟨h, fun old hm => nomatch hm⟩
  | cons r olds ih =>
    obtain ⟨hq, hrest⟩ := ih h
    obtain ⟨hq, hfirst⟩ := mem_deleteVec.1 hq
    refine ⟨hq, ?_⟩
    intro old hm
    rcases List.mem_cons.1 hm with rfl | hm
    · exact hfirst
    · exact hrest old hm

/-- A deletion of articles reaches no other article. -/
theorem rows_deleteRows {db : Database} (hs : Stocked db) (p : Row → Bool) :
    (db.deleteRows "scraped_articles" p).rows "scraped_articles" =
      (db.rows "scraped_articles").filter fun r => !p r := by
  obtain ⟨T, hT, hSchema⟩ := hs
  have hkept : (db.update "scraped_articles" fun T =>
      { T with rows := T.rows.filter fun r => !p r }).find "scraped_articles" =
        some { T with rows := T.rows.filter fun r => !p r } := by
    rw [find_update_self, hT]
    rfl
  have hfind : (db.deleteRows "scraped_articles" p).find "scraped_articles" =
      some { T with rows := T.rows.filter fun r => !p r } := by
    rw [deleteRows, find, lookup_cascade_keep]
    · exact hkept
    · exact fun r => articles_not_doomed ⟨_, hkept, hSchema⟩
  rw [rows_of_find hfind, rows_of_find hT]

/-- The delete triggers keep the indexes through a deletion. -/
theorem kept_delete {s : Store} (hk : Kept s) (p : Row → Bool)
    (hrows : db.rows "scraped_articles" = (s.db.rows "scraped_articles").filter fun r => !p r)
    (hs : Stocked db) :
    Kept (((s.db.rows "scraped_articles").filter p).foldl afterDelete { s with db }) := by
  have hdb : (((s.db.rows "scraped_articles").filter p).foldl afterDelete { s with db }).db = db :=
    db_foldl (f := afterDelete) (fun s r => rfl) _ _
  refine ⟨⟨?_, ?_⟩, by rw [hdb]; exact hs, ?_⟩
  · rw [hdb, hrows]
    exact fts_foldl_delete p [] hk.fts
  · intro q hq
    obtain ⟨hq, hgone⟩ := vec_foldl_delete hq
    obtain ⟨r, hr, hv⟩ := hk.vec q hq
    rw [hdb, hrows]
    refine ⟨r, List.mem_filter.2 ⟨hr, ?_⟩, hv⟩
    cases hp : p r with
    | false => rfl
    | true => exact absurd hv.symm (hgone r (List.mem_filter.2 ⟨hr, hp⟩))
  · rw [hdb, hrows]
    exact fun r hr => hk.shaped r (List.mem_filter.1 hr).1

/-- The statement replaces no article that is there. -/
def Fresh (now : String) (db : Database) : Stmt → Prop
  | .replace t row => t = "scraped_articles" → ∀ r ∈ db.rows "scraped_articles",
      ¬ scrapedArticles.schema.conflicts (scrapedArticles.schema.coerce now row) r = true
  | .delete _ _ => True

instance (now : String) (db : Database) (stmt : Stmt) : Decidable (Fresh now db stmt) := by
  cases stmt <;> rw [Fresh] <;> infer_instance

theorem insertedArticles_ne (ht : stmt.target ≠ "scraped_articles") :
    insertedArticles now db stmt = [] := by
  unfold insertedArticles
  split
  · exact absurd rfl ht
  · rfl

theorem deletedArticles_ne (ht : stmt.target ≠ "scraped_articles") :
    deletedArticles db stmt = [] := by
  unfold deletedArticles
  split
  · exact absurd rfl ht
  · rfl

/-- A statement on another table leaves the articles. -/
theorem exec_other {db : Database} (hs : Stocked db) (ht : stmt.target ≠ "scraped_articles")
    (h : db.exec now stmt = .ok db') :
    db'.find "scraped_articles" = db.find "scraped_articles" := by
  have hfree := fun (p : Row → Bool) => find_deleteRows_keep (p := p) ht.symm
    fun r => articles_not_doomed hs
  cases stmt with
  | replace t row =>
    have ht : "scraped_articles" ≠ t := Ne.symm ht
    obtain ⟨T, _, _, he, _⟩ := replaceRow_ok h
    rw [he, append, find_update_ne _ _ ht]
    exact hfree _
  | delete t key =>
    rw [exec] at h
    split at h
    · cases h
    · cases h
      exact hfree _

/-- A statement that replaces no article keeps the indexes. -/
theorem kept_data {s : Store} (hk : Kept s) (hfresh : Fresh now s.db stmt)
    (h : s.data now stmt = .ok s') : Kept s' := by
  have hdb := data_ok h
  have hs' : s' = (insertedArticles now s.db stmt).foldl afterInsert
      ((deletedArticles s.db stmt).foldl afterDelete { s with db := s'.db }) := by
    rw [Store.data, hdb] at h
    exact (Except.ok.inj h).symm
  by_cases ht : stmt.target = "scraped_articles"
  case neg =>
    have hfind := exec_other hk.stocked ht hdb
    have hrows : s'.db.rows "scraped_articles" = s.db.rows "scraped_articles" := by
      rw [rows, rows, hfind]
    rw [insertedArticles_ne ht, deletedArticles_ne ht] at hs'
    rw [hs']
    refine ⟨⟨?_, ?_⟩, ?_, ?_⟩
    · exact hrows ▸ hk.fts
    · exact hrows ▸ hk.vec
    · rw [Stocked]
      exact hfind ▸ hk.stocked
    · exact hrows ▸ hk.shaped
  obtain ⟨T, hT, hSchema⟩ := hk.stocked
  cases stmt with
  | delete t key =>
    cases ht
    have hdeleted : deletedArticles s.db (.delete "scraped_articles" key) =
        (s.db.rows "scraped_articles").filter (T.schema.matchesKey key) := by
      rw [rows_of_find hT]
      simp only [deletedArticles, hT]
    have hdelete : s'.db = s.db.deleteRows "scraped_articles" fun r => T.schema.matchesKey key r := by
      rw [exec, hT] at hdb
      exact (Except.ok.inj hdb).symm
    rw [hs', hdeleted]
    apply kept_delete hk
    · rw [hdelete]
      exact rows_deleteRows hk.stocked _
    · rw [hdelete]
      exact stocked_of_same (sameSchemas_deleteRows _ _ _) hk.stocked
  | replace t row =>
    cases ht
    have hinserted : insertedArticles now s.db (.replace "scraped_articles" row) =
        [scrapedArticles.schema.coerce now row] := by
      simp only [insertedArticles, hT, hSchema]
    obtain ⟨T', hT', _, he, _⟩ := replaceRow_ok hdb
    obtain rfl : T' = T := Option.some.inj (hT'.symm.trans hT)
    rw [hSchema] at he
    have hsame := sameSchemas_deleteRows s.db "scraped_articles"
      fun r => scrapedArticles.schema.conflicts (scrapedArticles.schema.coerce now row) r
    have hrows : s'.db.rows "scraped_articles" = s.db.rows "scraped_articles" ++
        [scrapedArticles.schema.coerce now row] := by
      rw [he, rows_append (stocked_of_same hsame hk.stocked), rows_deleteRows hk.stocked,
        List.filter_eq_self.2]
      intro r hr
      rw [Bool.not_eq_true', ← Bool.not_eq_true]
      exact hfresh rfl r hr
    rw [hs', hinserted]
    apply kept_insert hk _ hrows
    · rw [he]
      exact stocked_of_same (sameSchemas_append _ _ _) (stocked_of_same hsame hk.stocked)
    · rw [Schema.coerce, Row.columns_build]

/-- What the statements after the vector do to the indexes. -/
def Maintains : ArticleStmt → Prop
  | .update _ _ => True
  | .data stmt => stmt.target ≠ "scraped_articles"
  | _ => False

theorem kept_maintain {s : Store} {stmts : List ArticleStmt} (hk : Kept s)
    (hm : ∀ stmt ∈ stmts, Maintains stmt) (h : stmts.foldlM (Store.exec now) s = .ok s') : Kept s' := by
  induction stmts generalizing s with
  | nil =>
    cases h
    exact hk
  | cons stmt stmts ih =>
    obtain ⟨s₁, he, hrest⟩ := foldlM_cons_ok h
    refine ih ?_ (fun stmt hs => hm stmt (List.mem_cons_of_mem _ hs)) hrest
    have hstmt := hm stmt List.mem_cons_self
    cases stmt with
    | update cells id => exact kept_update hk he
    | data stmt =>
      have hfresh : Fresh now s.db stmt := by
        cases stmt with
        | replace t row => exact fun ht => absurd ht hstmt
        | delete t key => trivial
      exact kept_data hk hfresh he
    | upsert row => exact hstmt.elim
    | deleteVec v => exact hstmt.elim
    | insertVec v bs => exact hstmt.elim

/-- `upsert_article` keeps the indexes, whatever articles there are. -/
theorem kept_upsertArticle {s : Store} (hk : Kept s) (now : String) (e : Env) (u : Upsert) :
    Kept (s.commit now (u.statements e)) := by
  apply commit_inv Kept hk
  intro s' h
  have hhash : ∀ stmt ∈ if u.contentHash e = "" then []
      else [ArticleStmt.update [("content_hash", .text (u.contentHash e))] u.articleId],
      Maintains stmt := by
    intro stmt hm
    split at hm
    · cases hm
    · rw [List.mem_singleton.1 hm]
      trivial
  rw [Upsert.statements, Upsert.buildUpsertStatements, List.cons_append] at h
  obtain ⟨s₁, hup, hrest⟩ := foldlM_cons_ok h
  obtain ⟨hk₁, hnew⟩ := kept_upsert hk hup
  cases hv : u.vector with
  | none =>
    rw [hv] at hrest
    exact kept_maintain hk₁ hhash hrest
  | some p =>
    obtain ⟨v, bs⟩ := p
    rw [hv] at hrest
    obtain ⟨s₂, hdel, hrest⟩ := foldlM_cons_ok hrest
    cases hdel
    obtain ⟨s₃, hins, hrest⟩ := foldlM_cons_ok hrest
    have hrow : ∃ r ∈ s₁.db.rows "scraped_articles", r.get "vec_rowid" = .int v := by
      obtain ⟨r, hr, hid⟩ := hnew
      have hcell : (candidate now u.insertRow).get "vec_rowid" = .int v := by
        rw [u.get_candidate now (by decide) (by decide)]
        change (u.info.vecRowid.map Value.int).getD .null = _
        rw [(vector_some hv).1]
        rfl
      exact ⟨r, hr, hid.trans hcell⟩
    refine kept_maintain (kept_insertVec (kept_deleteVec hk₁ _) hins hrow) ?_ hrest
    intro stmt hm
    rcases List.mem_cons.1 hm with rfl | hm
    · trivial
    rcases List.mem_cons.1 hm with rfl | hm
    · exact (by decide : "scraped_articles_vec_backup" ≠ "scraped_articles")
    · exact hhash stmt hm

theorem kept_deleteArticle {s : Store} (hk : Kept s) (now : String) (articleId : String) :
    Kept (s.commit now (deleteArticle articleId)) := by
  apply commit_inv Kept hk
  intro s' h
  obtain ⟨s₁, hdel, hrest⟩ := foldlM_cons_ok h
  cases hrest
  have hfresh : Fresh now s.db (.delete "scraped_articles" [("id", .text articleId)]) := trivial
  exact kept_data hk hfresh hdel

def dataStep (now : String) (db : Database) (stmt : Stmt) : Option Database :=
  (db.exec now stmt).toOption

/-- The transaction of a sync keeps the indexes where each statement replaces no article. -/
theorem kept_sync {s : Store} (hk : Kept s)
    (hm : Machine.Meets (dataStep now) (Fresh now) s.db stmts)
    (h : (stmts.map ArticleStmt.data).foldlM (Store.exec now) s = .ok s') : Kept s' := by
  induction stmts generalizing s with
  | nil =>
    cases h
    exact hk
  | cons stmt stmts ih =>
    rw [List.map_cons] at h
    obtain ⟨s₁, he, hrest⟩ := foldlM_cons_ok h
    have hdb : dataStep now s.db stmt = some s₁.db := by
      rw [dataStep, data_ok he]
      rfl
    exact ih (kept_data hk hm.1 he) (hm.2 s₁.db hdb) hrest

/-- What writes to the articles, each in a transaction of its own at a time of the database. -/
inductive IndexStep where
  | upsertArticle (now : String) (e : Env) (u : Upsert)
  | deleteArticle (now : String) (articleId : String)
  | syncBidirectional (now : String) (opTransactions : List Stmt)

def indexStep (s : Store) : IndexStep → Option Store
  | .upsertArticle now e u => some (s.commit now (u.statements e))
  | .deleteArticle now articleId => some (s.commit now (deleteArticle articleId))
  | .syncBidirectional now stmts => some (s.commit now (stmts.map .data))

theorem indexStep_total (s : Store) (a : IndexStep) : ∃ s', indexStep s a = some s' := by
  cases a <;> exact ⟨_, rfl⟩

/-- No transaction of a sync that goes through replaces an article that is there. -/
def NoOverwrite (s : Store) : IndexStep → Prop
  | .syncBidirectional now stmts =>
    ((stmts.map ArticleStmt.data).foldlM (Store.exec now) s).isOk = true →
      Machine.Meets (dataStep now) (Fresh now) s.db stmts
  | _ => True

theorem kept_step (hcond : NoOverwrite s a) (h : indexStep s a = some s') (hk : Kept s) :
    Kept s' := by
  cases a with
  | upsertArticle now e u =>
    cases h
    exact kept_upsertArticle hk now e u
  | deleteArticle now articleId =>
    cases h
    exact kept_deleteArticle hk now articleId
  | syncBidirectional now stmts =>
    cases h
    apply commit_inv Kept hk
    intro s' hok
    apply kept_sync hk (hcond _) hok
    rw [hok]
    rfl

/-- In every run whose syncs replace no article that is there, the indexes follow the articles. -/
theorem indexed_run (hk : Kept s) (hm : Machine.Meets indexStep NoOverwrite s as)
    (hr : Machine.run indexStep s as = some s') : Indexed s' :=
  (Machine.run_invariant (fun _ _ _ => kept_step) hm hr hk).toIndexed

instance (s : Store) : (a : IndexStep) → Decidable (NoOverwrite s a)
  | .upsertArticle _ _ _ => isTrue trivial
  | .deleteArticle _ _ => isTrue trivial
  | .syncBidirectional now stmts =>
    inferInstanceAs (Decidable (_ = true → Machine.Meets (dataStep now) (Fresh now) s.db stmts))

/-- The row of the article with a newer title, as the sync pulls it from the cloud. -/
def newerRow : Row := (firstUpsert.rowData hashEnv).set "title" (.text "Newer title")

/-- The row of another article. -/
def otherRow : Row :=
  { secondUpsert with info := { articleMeta with
      texts := ("url", some "https://example.org/b") :: articleMeta.texts } }.rowData hashEnv

def scrape : IndexStep := .upsertArticle "2024-05-01 10:00:00" hashEnv firstUpsert

def pulledOver : List IndexStep :=
  [scrape, .syncBidirectional "2024-05-02 10:00:00" [.replace "scraped_articles" newerRow]]

def pulledBeside : List IndexStep :=
  [scrape, .syncBidirectional "2024-05-02 10:00:00" [.replace "scraped_articles" otherRow],
    .deleteArticle "2024-05-03 10:00:00" firstUpsert.articleId]

def indexEnd (as : List IndexStep) : Store := (Machine.run indexStep bareStore as).getD bareStore

theorem run_indexEnd (as : List IndexStep) :
    Machine.run indexStep bareStore as = some (indexEnd as) := by
  obtain ⟨s', h⟩ := Machine.run_total indexStep_total bareStore as
  rw [indexEnd, h]
  rfl

/-- The replaced article leaves its entry behind. -/
theorem stale_entry :
    Machine.run indexStep bareStore pulledOver = some (indexEnd pulledOver) ∧
      ((indexEnd pulledOver).db.rows "scraped_articles").map (fun r => r.get "title") =
        [.text "Newer title"] ∧
      (indexEnd pulledOver).fts.map FtsEntry.title = [.text "Title", .text "Newer title"] ∧
      ¬ Indexed (indexEnd pulledOver) := by
  refine ⟨run_indexEnd pulledOver, by decide +kernel, by decide +kernel, ?_⟩
  intro h
  have hlen := h.fts.length_eq
  revert hlen
  decide +kernel

theorem kept_bare : Kept bareStore := by
  have hrows : bareStore.db.rows "scraped_articles" = [] := by decide +kernel
  refine ⟨⟨?_, ?_⟩, shelf_bare.articles, shelf_bare.shaped⟩
  · rw [hrows]
    exact .refl _
  · exact fun p hp => nomatch hp

theorem indexed_pulledBeside : Indexed (indexEnd pulledBeside) :=
  indexed_run kept_bare (by decide +kernel) (run_indexEnd pulledBeside)

end Articles
