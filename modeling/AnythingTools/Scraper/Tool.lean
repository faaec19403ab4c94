import AnythingTools.Broadcast.Batch
import AnythingTools.Jobs.ItemRow
import AnythingTools.Scraper.Article
import AnythingTools.Scraper.Curation

namespace Scraper
open Relational JobItems
set_option autoImplicit true

/-! ### The results of the scraper -/

/-- `results`: the links with what came of them, and how many entries it has besides, for its own
counts and status. -/
structure Results where
  entries : List (String × Fields)
  internal : Nat

/-- The rows of the articles whose item of the job is completed. -/
def completedRows (items : List (Item ω)) (articles : List Row) (jobId : String) : List Row :=
  articles.filter fun r => items.any fun i =>
    decide (i.jobId = jobId ∧ i.status = .completed ∧
      jsonExtract i.itemMetadata "step" = .text "scrape" ∧
      jsonExtract i.itemMetadata "ulid" = r.get "url" ∧ r.get "url" ≠ .null)

/-- The entry of an article that an earlier run completed. -/
def mergedFields (r : Row) : Fields := fun key =>
  if key = "status" then some (some "SUCCESS")
  else if key = "ulid" then some (Broadcast.textOf (r.get "id"))
  else if key ∈ ["url", "title", "conclusion", "summary"] then some (Broadcast.textOf (r.get key))
  else none

/-- `if url not in results`, for one row. -/
def mergeRow (results : Results) (r : Row) : Results :=
  let url := (Broadcast.textOf (r.get "url")).getD ""
  if url ∈ results.entries.map Prod.fst then results
  else { results with entries := results.entries ++ [(url, mergedFields r)] }

/-- `{k: v for k, v in results.items() if not k.startswith("_")}` -/
def Results.valid (results : Results) : List Fields :=
  (results.entries.filter fun p => decide (p.1.toList.head? ≠ some '_')).map Prod.snd

/-- `_res.get("status") == "SUCCESS" and _res.get("ulid")` -/
def Fields.isArticle (f : Fields) : Bool :=
  decide (f.get "status" none = some "SUCCESS") && f.ulid.isSome

/-- An entry of `_build_slim_list`. -/
def slimFields (f : Fields) : Fields := fun key =>
  if key = "ulid" then some f.ulid
  else if key ∈ ["url", "title", "conclusion", "summary"] then some (f.get key (some ""))
  else none

def buildSlimList (valid : List Fields) : List Fields := (valid.filter Fields.isArticle).map slimFields

/-! ### Curation -/

/-- The dictionary of a curated article. -/
def candidateFields (c : CurationCandidate) : Fields := fun key =>
  if key = "ulid" then some (some c.ulid)
  else if key = "title" then some c.title
  else if key = "conclusion" then some c.conclusion
  else if key = "normalized_url" then some c.url
  else none

/-- What the curation step leaves; the curator may crash, for want of a client. -/
structure Curated where
  top10 : List Fields
  targetCount : Nat
  fallbackUsed : Bool
  crashed : Bool := false

def curation (budget : Nat) (replies : Nat → Reply) (client : Bool) (slim : List Fields) : Curated :=
  if slim.isEmpty then { top10 := [], targetCount := 10, fallbackUsed := false }
  else if (packedCandidates budget slim).targetCount ≠ 0 ∧ client = false then
    { top10 := slim.take 10, targetCount := min 10 slim.length, fallbackUsed := true, crashed := true }
  else
    let result := curate budget replies slim
    { top10 := result.curatedList.map candidateFields, targetCount := result.targetCount
      fallbackUsed := result.fallbackUsed }

/-! ### The report -/

/-- `ulid` and `title` of an article in the list of the top 10, counted from 1. -/
def topLine (p : Fields × Nat) : String :=
  "\n**" ++ toString (p.2 + 1) ++ ". [" ++ strText (p.1.get "ulid" (some "unknown")) ++ "] " ++
    strText (p.1.get "title" (some "Untitled")) ++ "**\nConclusion: " ++
    strText (p.1.get "conclusion" (some "")) ++ "\nSummary: " ++
    strText (p.1.get "summary" (some ""))

/-- A line of the other articles; the length of a title that is `None` raises. -/
def otherLine (p : Fields × Nat) : Option String :=
  (p.1.get "title" (some "Untitled")).map fun title =>
    toString (p.2 + 1) ++ ". [" ++ strText (p.1.get "ulid" (some "unknown")) ++ "] " ++
      (if 120 < title.length then String.ofList (title.toList.take 117) ++ "..." else title)

/-- `rest_articles`: the articles that are not among the top 10. -/
def restArticles (valid top10 : List Fields) : List Fields :=
  valid.filter fun f => f.isArticle && !(top10.map fun t => t.get "ulid" none).contains
    (f.get "ulid" none)

/-- `enriched_summary`, unless it raises. -/
def enrichedSummary (targetSite batchId : String) (top10 rest : List Fields) : Option String :=
  (rest.zipIdx.mapM otherLine).map fun others =>
    "\n".intercalate
      (["Scraped and curated top " ++ toString top10.length ++ " articles from " ++ targetSite ++
          " (Batch ID: " ++ batchId ++ ").\nSorted based on potential global impact."] ++
        (if top10.isEmpty then []
          else "\n### Top 10 Curated Articles" :: top10.zipIdx.map topLine) ++
        (if rest.isEmpty then [] else "\n\n### Other Articles" :: others))

structure Artifact where
  filename : String
  description : String
deriving DecidableEq, Repr

/-- `result_payload`. `top10` and `rest` are the articles that the summary lists. -/
structure Payload where
  summary : String
  top10 : List Fields
  rest : List Fields
  targetSite : String
  batchId : String
  extractedCount : Nat
  slimCount : Nat
  curatedCount : Nat
  targetCuratedCount : Nat
  fallbackUsed : Bool
  artifacts : List Artifact

/-- How a run ends: with the payload of `_fail_internal`, with its own, or with an error that is not
caught. -/
inductive Outcome where
  | failed (summary nextSteps : String)
  | completed (payload : Payload)
  | raised (error : String)

/-- What the items of the steps are given. -/
inductive Output where
  | flags (info : LocalMeta)
  | emptyResults
  | extracted (count : Nat) (batchId : String)
  | slim (slimCount : Nat) (batchId : String)
  | curated (c : Curated)
  | artifact (path : Option String)
  | finished (payload : Payload)

/-- What the tool hands to the writer. -/
inductive ToolWrite where
  | item (w : ItemWrite Output)
  | createBatch (now : String) (row : Row)
  | addDetails (now batchId : String) (articles top10 : List Broadcast.Article)

structure ToolDb where
  items : List (Item Output)
  db : Database

/-- A transaction that is refused leaves nothing. -/
def ToolDb.commit (s : ToolDb) : ToolWrite → ToolDb
  | .item w => { s with items := JobItems.commit s.items w }
  | .createBatch now row =>
    { s with db := (Broadcast.createBroadcastBatch now s.db row).toOption.getD s.db }
  | .addDetails now batchId articles top10 =>
    { s with
      db := ((Broadcast.Op.addDetailsBulk batchId articles top10).write now s.db).toOption.getD s.db }

def ToolDb.commitAll (s : ToolDb) (ws : List ToolWrite) : ToolDb := ws.foldl ToolDb.commit s

/-! ### A run -/

/-- What a run is given, and what its calls come to: the scraper, the query of the completed
articles, the model, the files that are written, the readings of the flag and the telemetry. -/
structure ToolRun where
  jobId : Option String
  batchId : String
  targetSite : Option String
  validTargets : List String
  dryRun : Bool := false
  now : String → String
  budget : Nat
  replies : Nat → Reply
  client : Bool := true
  scraped : Except String Results
  completed : Option (List Row) := none
  written : String → Option String
  stopped : Nat → Bool := fun _ => false
  telemetry : Nat → Option String := fun _ => none

namespace ToolRun

def job (x : ToolRun) : Option String := x.jobId.filter fun j => decide (j ≠ "")

/-- `make_metadata(step, batch_id)` -/
def metadata (x : ToolRun) (step : String) : Metadata :=
  makeMetadata (x.now step) step (some x.batchId)

def addItem (x : ToolRun) (step : String) : List ToolWrite :=
  x.job.toList.map fun j => .item (.add j (x.metadata step) (x.now step))

def updateItem (x : ToolRun) (step : String) (status : ItemStatus) (output : Output) :
    List ToolWrite :=
  x.job.toList.map fun j => .item (.update j (x.metadata step) status output (x.now step))

/-- `_merge_completed_articles`; a query that fails leaves the results. -/
def mergeCompletedArticles (x : ToolRun) (results : Results) : Results :=
  if x.job.isSome then (x.completed.getD []).foldl mergeRow results else results

/-- The artifact of a type, if it could be written. -/
def artifact (x : ToolRun) (artifactType description : String) : List Artifact :=
  (x.written artifactType).toList.map fun _ => { filename := artifactType ++ ".json", description }

def unexpected (error : String) : Outcome :=
  .failed ("Unexpected error: " ++ error) "Contact administrator for investigation."

def canceled (summary : String) : List ToolWrite × Outcome := ([], .failed summary "Job canceled.")

/-- Hand writes over and go on. -/
def after (ws : List ToolWrite) (rest : List ToolWrite × Outcome) : List ToolWrite × Outcome :=
  (ws ++ rest.1, rest.2)

/-- The articles that the batch is made of. -/
def articleOf (f : Fields) : Broadcast.Article := { ulid := f.get "ulid" none, id := f.get "id" none }

/-- The statements of `create_broadcast_batch` and `add_broadcast_details_bulk`. -/
def broadcast (x : ToolRun) (targetSite : String) (valid top10 : List Fields) : List ToolWrite :=
  let articles := valid.filter Fields.isArticle
  [.createBatch (x.now "broadcast")
      (Broadcast.batchRow x.batchId targetSite articles.length
        (top10.filterMap Fields.ulid).dedup.length x.jobId (x.now "broadcast")),
    .addDetails (x.now "broadcast") x.batchId (articles.map articleOf) (top10.map articleOf)]

def finalize (x : ToolRun) (targetSite : String) (results : Results) (slim : List Fields)
    (c : Curated) (artifacts : List Artifact) : List ToolWrite × Outcome :=
  let rest := restArticles results.valid c.top10
  after (x.broadcast targetSite results.valid c.top10)
    (match enrichedSummary targetSite x.batchId c.top10 rest with
    | none => ([], unexpected "object of type \x27NoneType\x27 has no len()")
    | some summary =>
      let payload : Payload :=
        { summary, top10 := c.top10, rest, targetSite, batchId := x.batchId
          extractedCount := results.entries.length + results.internal
          slimCount := slim.length, curatedCount := c.top10.length
          targetCuratedCount := c.targetCount, fallbackUsed := c.fallbackUsed, artifacts }
      after (x.addItem "finalize" ++ x.updateItem "finalize" .completed (.finished payload))
        (match x.telemetry 3 with
        | some e => ([], unexpected e)
        | none => ([], .completed payload)))

/-- The file of the curated articles, and the flag three times more. -/
def writeTop10 (x : ToolRun) (targetSite : String) (results : Results) (slim : List Fields)
    (c : Curated) (artifacts : List Artifact) : List ToolWrite × Outcome :=
  if x.stopped 2 then canceled "Scraper canceled before artifact generation."
  else
    after
      (x.addItem "artifacts" ++
        match x.written "top10" with
        | some path => x.updateItem "artifacts" .completed (.artifact (some path))
        | none => x.updateItem "artifacts" .failed (.artifact none))
      (if x.stopped 3 then canceled "Scraper canceled before backup acknowledgment."
      else if x.stopped 4 then canceled "Scraper canceled before finalization."
      else
        x.finalize targetSite results slim c
          (artifacts ++ x.artifact "top10" ("Curated Top " ++ toString c.targetCount ++ " articles")))

/-- Without candidates the item of this step is left as it was added. -/
def curate (x : ToolRun) (targetSite : String) (results : Results) (slim : List Fields)
    (artifacts : List Artifact) : List ToolWrite × Outcome :=
  if x.stopped 1 then canceled "Scraper canceled before curation."
  else
    let c := curation x.budget x.replies x.client slim
    after
      (x.addItem "curate" ++
        if slim.isEmpty then [] else x.updateItem "curate" .completed (.curated c))
      (x.writeTop10 targetSite results slim c artifacts)

def slimList (x : ToolRun) (targetSite : String) (results : Results) (artifacts : List Artifact) :
    List ToolWrite × Outcome :=
  if x.stopped 0 then canceled "Scraper canceled before processing candidate list."
  else
    match x.telemetry 2 with
    | some e => ([], unexpected e)
    | none =>
      let slim := buildSlimList results.valid
      after
        (x.addItem "slim" ++ x.updateItem "slim" .completed (.slim slim.length x.batchId))
        (x.curate targetSite results slim
          (artifacts ++
            x.artifact "slim_candidates" ("Pre-curation candidate pool for " ++ targetSite)))

def extract (x : ToolRun) (targetSite : String) (results : Results) : List ToolWrite × Outcome :=
  match x.telemetry 1 with
  | some e => ([], unexpected e)
  | none =>
    after (x.addItem "extract")
      (if results.valid.isEmpty then
        (x.updateItem "extract" .failed .emptyResults,
          .failed "No results extracted." "Check target site validity and network connectivity.")
      else
        after (x.updateItem "extract" .completed (.extracted results.valid.length x.batchId))
          (x.slimList targetSite results
            (x.artifact "scraper_output" ("Raw scraper output for " ++ targetSite))))

/-- `_run_internal`: what it hands to the writer, and how it ends. -/
def runInternal (x : ToolRun) : List ToolWrite × Outcome :=
  if x.dryRun then
    ([], .failed "[DRY RUN] Scraper tool execution skipped." "Disable dry run to execute.")
  else
    match x.targetSite.filter fun t => decide (t ≠ "") with
    | none =>
      ([], .failed "Error: target_site argument is required."
        "Provide a valid \x27target_site\x27 argument.")
    | some targetSite =>
      if targetSite ∉ x.validTargets then
        let valid := ", ".intercalate (x.validTargets.insertionSort fun a b => a ≤ b)
        ([], .failed
          ("Error: \x27" ++ targetSite ++ "\x27 is not a valid target site. Valid options: " ++ valid)
          ("Use one of the valid options: " ++ valid))
      else
        match x.telemetry 0 with
        | some e => ([], .raised e)
        | none =>
          match x.scraped with
          | .error e => ([], unexpected e)
          | .ok results => x.extract targetSite (x.mergeCompletedArticles results)

end ToolRun

end Scraper
