import AnythingTools.Relational.Transaction
import AnythingTools.Relational.Update
import AnythingTools.Sync.CloudWriter
import AnythingTools.Sync.PullToLocal

namespace Articles
open Relational Relational.Database Sync
set_option autoImplicit true

/-- An entry of `scraped_articles_fts`. -/
structure FtsEntry where
  rowid : Value
  title : Value
  conclusion : Value
  summary : Value
deriving DecidableEq, Repr

/-- The local database with its two search indexes, which the triggers keep. -/
structure Store where
  db : Database
  fts : List FtsEntry
  vec : List (Value × List UInt8)

def ftsEntry (r : Row) : FtsEntry :=
  ⟨r.get "vec_rowid", r.get "title", r.get "conclusion", r.get "summary"⟩

/-- `DELETE FROM scraped_articles_vec WHERE rowid = ?`. -/
def Store.deleteVec (s : Store) (rowid : Value) : Store :=
  { s with vec := s.vec.filter fun p => decide (p.1 ≠ rowid) }

/-- The trigger `scraped_articles_ai`. -/
def afterInsert (s : Store) (new : Row) : Store := { s with fts := s.fts ++ [ftsEntry new] }

/-- The trigger `scraped_articles_ad`. -/
def afterDelete (s : Store) (old : Row) : Store :=
  { s with fts := s.fts.erase (ftsEntry old) }.deleteVec (old.get "vec_rowid")

/-- The triggers `scraped_articles_au` and `scraped_articles_au_vec`. -/
def afterUpdate (s : Store) (old new : Row) : Store :=
  let s := { s with fts := s.fts.erase (ftsEntry old) ++ [ftsEntry new] }
  if old.get "vec_rowid" ≠ new.get "vec_rowid" ∨ new.get "embedding_status" = .text "PENDING" then
    s.deleteVec (old.get "vec_rowid")
  else s

/-- A statement on the articles, their indexes and the tables that refer to them. -/
inductive ArticleStmt where
  | upsert (row : Row)
  | deleteVec (rowid : Int)
  | insertVec (rowid : Int) (embedding : List UInt8)
  | update (cells : Row) (articleId : String)
  | data (s : Stmt)
deriving DecidableEq, Repr

/-- `UPDATE scraped_articles SET ... WHERE ...`. -/
def Store.update (s : Store) (cells : Row) (p : Row → Bool) : Except SqlError Store :=
  match s.db.updateRows "scraped_articles" cells p with
  | .ok db => .ok (((s.db.rows "scraped_articles").filter p).foldl
      (fun s old => afterUpdate s old (old.assign cells)) { s with db })
  | .error e => .error e

/-- The columns that the upsert of an article overwrites. -/
def upsertColumns : List String :=
  ["vec_rowid", "title", "conclusion", "summary", "metadata_json", "embedding_status", "updated_at"]

/-- The row that an insert would store. -/
def candidate (now : String) (row : Row) : Row := Schemas.scrapedArticles.schema.fill now row

/-- `INSERT INTO scraped_articles ... ON CONFLICT(url) DO UPDATE SET c = excluded.c, ...`: the
conflict target is tested before the other keys. -/
def Store.upsert (now : String) (s : Store) (row : Row) : Except SqlError Store :=
  match s.db.find "scraped_articles" with
  | none => .error (.noSuchTable "scraped_articles")
  | some T =>
    let new := candidate now row
    if ¬ T.schema.admits new = true then .error .constraint
    else if T.rows.any (Row.sameKey ["url"] new) = true then
      s.update (Row.build upsertColumns new.get) (Row.sameKey ["url"] new)
    else if T.rows.any (T.schema.conflicts new) = true then .error .constraint
    else .ok (afterInsert { s with db := s.db.append "scraped_articles" new } new)

/-- The rows of the articles that a statement deletes with the delete triggers. A `REPLACE` deletes
without them. -/
def deletedArticles (db : Database) : Stmt → List Row
  | .delete "scraped_articles" key =>
    match db.find "scraped_articles" with
    | some T => T.rows.filter (T.schema.matchesKey key)
    | none => []
  | _ => []

/-- The rows of the articles that a statement inserts. -/
def insertedArticles (now : String) (db : Database) : Stmt → List Row
  | .replace "scraped_articles" row =>
    match db.find "scraped_articles" with
    | some T => [T.schema.coerce now row]
    | none => []
  | _ => []

def Store.data (now : String) (s : Store) (stmt : Stmt) : Except SqlError Store :=
  match s.db.exec now stmt with
  | .ok db => .ok ((insertedArticles now s.db stmt).foldl afterInsert
      ((deletedArticles s.db stmt).foldl afterDelete { s with db }))
  | .error e => .error e

def hasId (articleId : String) (r : Row) : Bool := decide (r.get "id" = .text articleId)

def Store.exec (now : String) (s : Store) : ArticleStmt → Except SqlError Store
  | .upsert row => s.upsert now row
  | .deleteVec rowid => .ok (s.deleteVec (.int rowid))
  | .insertVec rowid embedding =>
    if s.vec.any fun p => decide (p.1 = .int rowid) then .error .constraint
    else .ok { s with vec := s.vec ++ [(.int rowid, embedding)] }
  | .update cells articleId => s.update cells (hasId articleId)
  | .data stmt => s.data now stmt

/-- A transaction: all of its statements or none. -/
def Store.commit (now : String) (s : Store) (stmts : List ArticleStmt) : Store :=
  ((stmts.foldlM (Store.exec now) s).toOption).getD s

/-- What is known of an article; a text that is there may still be `None`. -/
structure Meta where
  texts : List (String × Option String) := []
  vecRowid : Option Int := none
deriving DecidableEq, Repr

def textOrNone (s : Option String) : Value := (s.map Value.text).getD .null

/-- `meta.get(key, default)`. -/
def Meta.get (m : Meta) (key : String) (default : Value) : Value :=
  ((m.texts.lookup key).map textOrNone).getD default

def Meta.row (m : Meta) : Row := m.texts.map fun p => (p.1, textOrNone p.2)

/-- A call of `upsert_article` with its two readings of the clock, the row id already made unique. -/
structure Upsert where
  articleId : String
  info : Meta
  embedding : Option (List UInt8) := none
  now : String
  later : String
deriving DecidableEq, Repr

namespace Upsert

def updatedAt (u : Upsert) : Value := u.info.get "updated_at" (.text u.now)

def embeddingStatus (u : Upsert) : Value := u.info.get "embedding_status" (.text "PENDING")

def contentHash (e : Env) (u : Upsert) : String :=
  computeRowHash e "scraped_articles" (("id", .text u.articleId) :: u.info.row)

def vecRowid (u : Upsert) : Value := (u.info.vecRowid.map Value.int).getD .null

def scrapedAt (u : Upsert) (default : Value) : Value := u.info.get "scraped_at" default

/-- The columns that the local statement and the cloud record have in common. -/
def texts (u : Upsert) : Row :=
  [("url", u.info.get "url" (.text "")), ("title", u.info.get "title" .null),
    ("conclusion", u.info.get "conclusion" .null), ("summary", u.info.get "summary" .null),
    ("metadata_json", u.info.get "metadata_json" (.text "\x7b\x7d")),
    ("embedding_status", u.embeddingStatus)]

def insertRow (u : Upsert) : Row :=
  [("id", .text u.articleId), ("vec_rowid", u.vecRowid)] ++ u.texts ++
    [("scraped_at", u.scrapedAt u.updatedAt), ("updated_at", u.updatedAt)]

/-- The row id and the bytes of an embedding that is written. -/
def vector (u : Upsert) : Option (Int × List UInt8) :=
  match u.info.vecRowid, u.embedding with
  | some v, some bs =>
    if bs ≠ [] ∧ u.embeddingStatus = .text "EMBEDDED" then some (v, bs) else none
  | _, _ => none

def backupRow (u : Upsert) (v : Int) (embedding : List UInt8) : Row :=
  [("rowid", .int v), ("article_id", .text u.articleId), ("embedding", .blob embedding),
    ("hashed_at", u.updatedAt)]

/-- `_build_upsert_statements`. -/
def buildUpsertStatements (u : Upsert) : List ArticleStmt :=
  .upsert u.insertRow ::
    match u.vector with
    | some (v, embedding) =>
      [.deleteVec v, .insertVec v embedding,
        .update [("embedding_status", .text "EMBEDDED")] u.articleId,
        .data (.replace "scraped_articles_vec_backup" (u.backupRow v embedding))]
    | none => []

def statements (e : Env) (u : Upsert) : List ArticleStmt :=
  u.buildUpsertStatements ++
    if u.contentHash e = "" then []
    else [.update [("content_hash", .text (u.contentHash e))] u.articleId]

/-- The record for the cloud. -/
def rowData (e : Env) (u : Upsert) : Row :=
  [("id", .text u.articleId)] ++ u.texts ++
    [("vec_rowid", u.vecRowid), ("content_hash", .text (u.contentHash e)),
      ("scraped_at", u.scrapedAt (.text u.later)), ("updated_at", u.updatedAt)]

/-- The task for the backup of the embedding. -/
def backupTasks (u : Upsert) : List CloudWriteTask :=
  match u.vector with
  | some (v, embedding) =>
    [cloudWrite "scraped_articles_vec_backup" (u.backupRow v embedding) (.one "rowid")]
  | none => []

def cloudTasks (e : Env) (u : Upsert) : List CloudWriteTask :=
  cloudWrite "scraped_articles" (u.rowData e) (.one "id") :: u.backupTasks

end Upsert

/-- `delete_article`: the local statement. -/
def deleteArticle (articleId : String) : List ArticleStmt :=
  [.data (.delete "scraped_articles" [("id", .text articleId)])]

/-- And the task for the cloud. -/
def deleteTask (articleId : String) : CloudWriteTask :=
  cloudDelete "scraped_articles" (.text articleId) "id"

end Articles
