import AnythingTools.Scraper.Article

namespace Scraper
open Relational Relational.Database Sync Articles JobItems
set_option autoImplicit true

/-- The tables that a run of the scraper works on: the items, the articles with their indexes, and the
status of its job. -/
structure Db where
  items : List (Item LocalMeta)
  store : Store
  job : Option String := none

/-- What the writer is given: a statement on an item or on the job, or an article together with the
completion of its item. -/
inductive Write where
  | item (w : ItemWrite LocalMeta)
  | job (status : String)
  | article (now : String) (u : Upsert) (completed : ItemWrite LocalMeta)

/-- A transaction of an article is refused as a whole. -/
def Db.commit (e : Env) (db : Db) : Write → Db
  | .item w => { db with items := JobItems.commit db.items w }
  | .job status => { db with job := db.job.map fun _ => status }
  | .article now u completed =>
    match (u.statements e).foldlM (Store.exec now) db.store with
    | .ok store => { db with items := JobItems.commit db.items completed, store }
    | .error _ => db

def Db.commitAll (e : Env) (db : Db) (ws : List Write) : Db := ws.foldl (Db.commit e) db

def Db.articles (db : Db) : List Row := db.store.db.rows "scraped_articles"

def Db.stored (db : Db) (link : String) : Bool :=
  db.articles.any fun r => decide (r.get "url" = .text link)

/-- The item of a link. -/
def Db.item (db : Db) (jobId link : String) : Option (Item LocalMeta) :=
  itemRow db.items jobId "scrape" link

/-- The status and the flags of a link: those of its item, if there is one. -/
def Db.known (db : Db) (jobId link : String) : ItemStatus × LocalMeta :=
  (((db.item jobId link).map Item.status).getD .pending,
    ((db.item jobId link).bind Item.outputData).getD {})

/-- `json_extract(item_metadata, '$.step') = 'scrape'`. -/
def Db.scrapeItems (db : Db) (jobId : String) : List (Item LocalMeta) :=
  db.items.filter fun i =>
    decide (i.jobId = jobId ∧ jsonExtract i.itemMetadata "step" = .text "scrape")

/-- The link of an item, if it has one. -/
def itemUrl (i : Item LocalMeta) : Option String :=
  match jsonExtract i.itemMetadata "ulid" with
  | .text url => if url = "" then none else some url
  | _ => none

/-- A run of the scraper, with the links that the page of the site shows, and whether they could be
compared with the articles; it may be cancelled before it starts. Rows and sets come in any order. -/
structure Scrape where
  env : Env
  jobId : String
  db : Db
  now : String
  target : Option String
  targets : List String
  stopped : Bool := false
  extracted : List String := []
  named : "" ∉ extracted
  apart : extracted.Nodup
  compared : Bool := true
  order : List String → List String
  listed : ∀ links, (order links).Perm links

namespace Scrape

/-- The site is known, and no one has stopped the run. -/
def starts (x : Scrape) : Bool := x.target.any (· ∈ x.targets) && !x.stopped

/-- The links that the run goes through: those of its failed items, else of its items, else the new
ones of the page. -/
def links (x : Scrape) : List String :=
  if x.starts then
    let existing := x.db.scrapeItems x.jobId
    let failed := (existing.filter fun i => decide (i.status = .failed)).filterMap itemUrl
    if failed ≠ [] then x.order failed.dedup
    else if existing ≠ [] then x.order (existing.filterMap itemUrl)
    else if x.compared then x.extracted.filter fun link => !x.db.stored link
    else x.extracted
  else []

/-- `make_metadata("scrape", link)`. -/
def metadata (now link : String) : Metadata := makeMetadata now "scrape" (some link)

/-- `add_job_item` for every link. -/
def preflight (x : Scrape) : List Write :=
  x.links.map fun link => .item (.add x.jobId (metadata x.now link) x.now)

/-- `math.ceil(len(deduped_urls) * 1.2)`. -/
def maxNavFailures (x : Scrape) : Nat :=
  if x.links = [] then 1 else (6 * x.links.length + 4) / 5

end Scrape

/-- What a run meets at one link: the flag, the answers, the new ULID, the embedding, the random row
ids, the receipt, the clock, and how much of its own writes each of its reads sees. -/
structure Turn where
  link : String
  stopped : Bool := false
  answers : Answers
  ulid : String
  embedding : Option (List UInt8)
  draws : List Int := []
  draws' : List Int := []
  late : Bool := false
  now : String
  later : String
  metadataJson : String
  committedAt : String
  itemLag : Nat := 0
  articleLag : Nat := 0
  rowidLag : Nat := 0
  rowidLag' : Nat := 0

/-- `validate_embedding_bytes`. -/
def validateEmbeddingBytes (bs : List UInt8) : Bool := decide (bs.length = 1024 * 4)

/-- How far a run is: what it has queued, how much of that it knows to be committed, and the links
that it has attempted. -/
structure Progress where
  queued : List Write
  waited : Nat := 0
  attempted : List String := []
  cancelled : Bool := false
  navFailures : Nat := 0
  aborted : Bool := false

def Progress.queue (s : Progress) (ws : List Write) : Progress := { s with queued := s.queued ++ ws }

/-- What is persisted of an article, as far as its members are there. -/
structure Entry where
  status : Option String := none
  ulid : Option String := none
  url : Option String := none
  title : Option String
  conclusion : Option String
  summary : Option String := none

def textOf : Value → Option String
  | .text s => some s
  | _ => none

/-- The entry of a stored article that is to be embedded again. -/
def embedOnly (r : Row) : Entry where
  title := textOf (r.get "title")
  conclusion := textOf (r.get "conclusion")

/-- The entry of a new article. -/
def articleEntry (t : Turn) (title conclusion summary : String) : Entry where
  status := some "SUCCESS"
  ulid := some t.ulid
  url := some t.link
  title := some title
  conclusion := some conclusion
  summary := some summary

/-- "Navigation failed" in the reason. -/
def navigationFailed (reason : String) : Bool :=
  decide ("Navigation failed".toList <:+: reason.toList)

/-- Whether the loop goes on with an item. -/
def proceeds (status : ItemStatus) (info : LocalMeta) : Bool :=
  match status with
  | .completed => false
  | .skipped => false
  | .failed => info.retryable
  | .pending => true
  | .running => true

namespace Scrape

/-- What a read sees of the run's own writes: at least what it has waited for. -/
def view (x : Scrape) (s : Progress) (lag : Nat) : Db :=
  x.db.commitAll x.env (s.queued.take (max s.waited lag))

/-- The database once everything is committed. -/
def final (x : Scrape) (s : Progress) : Db := x.db.commitAll x.env s.queued

def updateItem (x : Scrape) (t : Turn) (status : ItemStatus) (info : LocalMeta) :
    ItemWrite LocalMeta := .update x.jobId (metadata t.now t.link) status info t.now

/-- `enqueue_article_write`: the row id is checked there and in `upsert_article`. The inner `none`: no
row id is found; the outer one: the random row ids are not those that the checks draw. -/
def enqueueArticleWrite (x : Scrape) (s : Progress) (t : Turn) (ulid : String)
    (texts : List (String × Option String)) (embedding : Option (List UInt8)) :
    Option (Option Upsert) :=
  match ensureUniqueVecRowid (x.view s t.rowidLag).articles ulid 10 (Ulid.parsedId ulid) t.draws with
  | none => none
  | some none => some none
  | some (some v) =>
    match ensureUniqueVecRowid (x.view s t.rowidLag').articles ulid 10 v t.draws' with
    | none => none
    | some none => some none
    | some (some v') =>
      some (some ⟨ulid, ⟨texts, some v'⟩, embedding, t.now, t.later⟩)

/-- `_sync_scraped_article_atomic`: what is handed to the writer, and whether it has an embedding. A
member that is missing is an exception, which is caught. -/
def syncScrapedArticleAtomic (x : Scrape) (s : Progress) (t : Turn) (entry : Entry) :
    Option (Option Upsert × Bool) :=
  let success := decide (entry.status = some "SUCCESS")
  let embedding := if success then t.embedding else none
  let embedded := embedding.any validateEmbeddingBytes
  let status := if embedded then "EMBEDDED" else if success then "PENDING" else "SKIPPED"
  match entry.ulid, entry.url, entry.title, entry.conclusion, entry.summary with
  | some ulid, some url, some title, some conclusion, some summary =>
    (x.enqueueArticleWrite s t ulid
      [("url", some url), ("title", some title), ("conclusion", some conclusion),
        ("summary", some summary), ("metadata_json", some t.metadataJson),
        ("embedding_status", some status), ("updated_at", some t.now)] embedding).map
      fun u => (u, embedded)
  | _, _, _, _, _ => some (none, false)

/-- The article is written, and the job is `PARTIAL` where it has no embedding. -/
def persisted (x : Scrape) (t : Turn) (info : LocalMeta) (p : Option Upsert × Bool) : List Write :=
  (p.1.toList.map fun u => .article t.committedAt u
    (x.updateItem t .completed { info with embeddingSynced := info.embeddingSynced || p.2 })) ++
    if p.2 then [] else [.job "PARTIAL"]

/-- The writer refuses the article. -/
def refuses (x : Scrape) (s : Progress) (t : Turn) (u : Upsert) : Bool :=
  match (u.statements x.env).foldlM (Store.exec t.committedAt) (x.final s).store with
  | .ok _ => false
  | .error _ => true

/-- A new article is persisted, and its receipt is awaited. -/
def persist (x : Scrape) (s : Progress) (t : Turn) (info : LocalMeta)
    (title conclusion summary : String) : Option Progress :=
  -- A ULID is nobody's.
  if (x.final s).articles.any (hasId t.ulid) then none
  else
    match x.syncScrapedArticleAtomic s t (articleEntry t title conclusion summary) with
    | none => none
    | some p =>
      let s' := { s.queue (x.persisted t info p) with navFailures := 0 }
      match p.1 with
      | none => some s'
      | some u =>
        if t.late || x.refuses s t u then some { s' with aborted := true }
        else some { s' with waited := s.queued.length + 1 }

/-- What becomes of the result of an article. -/
def settle (x : Scrape) (s : Progress) (t : Turn) (p : Processed) (result : Result) : Progress :=
  if navigationFailed result.reason then
    { s with navFailures := s.navFailures + 1
             aborted := decide (x.maxNavFailures ≤ s.navFailures + 1) }
  else
    match result with
    | .skipped _ => { s.queue [.item (x.updateItem t .skipped p.info)] with navFailures := 0 }
    | _ => s.queue [.item (x.updateItem t .failed { p.info with retryable := true })]

def report (x : Scrape) (t : Turn) : Report → Write
  | .item status info => .item (x.updateItem t status info)
  | .job status => .job status

/-- The article is processed. -/
def process (x : Scrape) (s : Progress) (t : Turn) (info : LocalMeta) : Option Progress :=
  let p := processArticle t.answers info
  let s := { s.queue (p.reports.map (x.report t)) with cancelled := s.cancelled || p.cancels }
  match p.result with
  | none => none
  | some result =>
    match parseArticleResult result with
    | .article title conclusion summary => x.persist s t p.info title conclusion summary
    | .other result => some (x.settle s t p result)

/-- An item that is gone on with. -/
def attempt (x : Scrape) (s : Progress) (t : Turn) (info : LocalMeta) : Option Progress :=
  let s := { s.queue [.item (x.updateItem t .running info)] with
    attempted := s.attempted ++ [t.link] }
  if info.summarized then
    match (x.view s t.articleLag).articles.find? fun r => decide (r.get "url" = .text t.link) with
    | some r =>
      if info.embeddingSynced then some s
      else (x.syncScrapedArticleAtomic s t (embedOnly r)).map fun p =>
        s.queue (x.persisted t info p)
    | none => x.process s t { info with retryable := true }
  else x.process s t info

/-- One link of the loop. -/
def turn (x : Scrape) (s : Progress) (t : Turn) : Option Progress :=
  if s.aborted then some s
  else if s.cancelled || t.stopped then some { s with cancelled := true }
  else
    let known := (x.view s t.itemLag).known x.jobId t.link
    if proceeds known.1 known.2 then x.attempt s t known.2 else some s

def begun (x : Scrape) : Progress := { queued := x.preflight }

/-- `_run_botasaurus_scraper_inner`, as far as a sequence of turns goes. -/
def run (x : Scrape) (ts : List Turn) : Option Progress := Machine.run x.turn x.begun ts

end Scrape

end Scraper
