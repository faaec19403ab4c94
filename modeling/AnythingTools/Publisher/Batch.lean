import Mathlib.Algebra.GroupWithZero.Nat
import Mathlib.Data.List.Sort
import AnythingTools.Jobs.Items

namespace Publisher
open JobItems
set_option autoImplicit true

/-- What the `CHECK` of `broadcast_batches.status` lets in. -/
inductive BatchStatus where
  | pending
  | publishing
  | partialResult
  | completed
  | failed
deriving DecidableEq, Repr

def BatchStatus.text : BatchStatus → String
  | .pending => "PENDING"
  | .publishing => "PUBLISHING"
  | .partialResult => "PARTIAL"
  | .completed => "COMPLETED"
  | .failed => "FAILED"

/-- What the `CHECK` of `broadcast_details.publish_status` lets in. -/
inductive PublishStatus where
  | pending
  | translating
  | publishedBriefing
  | publishedArchive
  | failed
  | skipped
deriving DecidableEq, Repr

def PublishStatus.all : List PublishStatus :=
  [.pending, .translating, .publishedBriefing, .publishedArchive, .failed, .skipped]

/-- The texts of a translation. One without a title counts as none. -/
structure Translation where
  title : String
  summary : String
  conclusion : String
  titled : title ≠ ""
deriving DecidableEq

instance : Inhabited Translation := ⟨{ title := "T", summary := "S", conclusion := "C", titled := by decide }⟩

/-- The row of `scraped_articles` that a detail is joined with. -/
structure Article where
  ulid : String
  url : String
  title : Option String
  conclusion : Option String := none
  summary : Option String := none
deriving DecidableEq, Repr

/-- A row of `broadcast_details`. -/
structure Detail where
  detailId : Nat
  article : Article
  isTop10 : Bool
  top10Rank : Option Int
  publishStatus : PublishStatus := .pending
  translated : Option Translation := none
deriving DecidableEq

def Detail.ulid (d : Detail) : String := d.article.ulid

/-- A row of `broadcast_batches` with its details, of which each has an article of its own. -/
structure Batch where
  batchId : String
  articleCount : Nat
  status : BatchStatus
  details : List Detail
  unique : (details.map Detail.ulid).Nodup
deriving DecidableEq

/-- The JSON of an item of the publisher. -/
inductive Output where
  | empty
  | chunksSent (n : Nat)
  | translation (t : Translation)
deriving DecidableEq

structure Db where
  batch : Batch
  items : List (Item Output)

/-- The statements of the publisher and of the draft editor in the queue of the writer. -/
inductive Write where
  | setBatchStatus (status : BatchStatus)
  | setDetail (ulid : String) (status : PublishStatus) (translated : Option Translation)
  | resetDetails
  | skipUnpublished
  | editTop10 (ranks : List (String × Option Int))
  | item (w : ItemWrite Output)

/-- The `SET` of one statement on the details of the batch. -/
def Write.onDetail (d : Detail) : Write → Detail
  | .setDetail ulid status translated =>
    if d.ulid = ulid then { d with publishStatus := status, translated := translated.or d.translated }
    else d
  | .resetDetails => { d with publishStatus := .pending, translated := none }
  | .skipUnpublished =>
    if d.publishStatus = .publishedArchive then d else { d with publishStatus := .skipped }
  | .editTop10 ranks =>
    ranks.foldl (fun d r =>
      if d.ulid = r.1 then { d with isTop10 := r.2.isSome, top10Rank := r.2 } else d) d
  | _ => d

theorem article_editTop10 (d : Detail) (ranks : List (String × Option Int)) :
    ((Write.editTop10 ranks).onDetail d).article = d.article := by
  rw [Write.onDetail]
  induction ranks generalizing d with
  | nil => rfl
  | cons r ranks ih =>
    rw [List.foldl_cons, ih]
    split
    next => rfl
    next => rfl

/-- No statement gives a detail another article. -/
@[simp] theorem article_onDetail (d : Detail) (w : Write) : (w.onDetail d).article = d.article := by
  cases w with
  | setDetail ulid status translated =>
    rw [Write.onDetail]
    split
    next => rfl
    next => rfl
  | skipUnpublished =>
    rw [Write.onDetail]
    split
    next => rfl
    next => rfl
  | editTop10 ranks => exact article_editTop10 d ranks
  | _ => rfl

@[simp] theorem ulid_onDetail (d : Detail) (w : Write) : (w.onDetail d).ulid = d.ulid :=
  congrArg Article.ulid (article_onDetail d w)

theorem map_ulid_onDetail (w : Write) (details : List Detail) :
    (details.map w.onDetail).map Detail.ulid = details.map Detail.ulid := by
  rw [List.map_map]
  exact List.map_congr_left fun d _ => ulid_onDetail d w

def Batch.onDetails (b : Batch) (w : Write) : Batch :=
  { b with
    details := b.details.map fun d => w.onDetail d
    unique := (map_ulid_onDetail w b.details).symm ▸ b.unique }

def Db.commit (db : Db) : Write → Db
  | .setBatchStatus status => { db with batch := { db.batch with status } }
  | .item w => { db with items := JobItems.commit db.items w }
  | w => { db with batch := db.batch.onDetails w }

def Db.commitAll (db : Db) (ws : List Write) : Db := ws.foldl Db.commit db

theorem details_commit (db : Db) (w : Write) :
    (db.commit w).batch.details = db.batch.details.map fun d => w.onDetail d := by
  cases w with
  | setBatchStatus status => exact (List.map_id' _).symm
  | item w => exact (List.map_id' _).symm
  | _ => rfl

theorem details_commitAll (db : Db) (ws : List Write) : (db.commitAll ws).batch.details =
    db.batch.details.map fun d => ws.foldl (fun d w => w.onDetail d) d := by
  induction ws generalizing db with
  | nil => exact (List.map_id' _).symm
  | cons w ws ih =>
    rw [Db.commitAll, List.foldl_cons]
    change ((db.commit w).commitAll ws).batch.details = _
    rw [ih, details_commit, List.map_map]
    rfl

@[simp] theorem commitAll_nil (db : Db) : db.commitAll [] = db := rfl

@[simp] theorem commitAll_cons (db : Db) (w : Write) (ws : List Write) :
    db.commitAll (w :: ws) = (db.commit w).commitAll ws := rfl

theorem commitAll_append (db : Db) (ws ws' : List Write) :
    db.commitAll (ws ++ ws') = (db.commitAll ws).commitAll ws' := List.foldl_append

/-- The statement leaves the status of the batch alone. -/
def Write.keepsStatus : Write → Bool
  | .setBatchStatus _ => false
  | _ => true

theorem status_commit (db : Db) {w : Write} (h : w.keepsStatus = true) :
    (db.commit w).batch.status = db.batch.status := by
  cases w with
  | setBatchStatus status => cases h
  | _ => rfl

theorem status_commitAll (db : Db) {ws : List Write} (h : ∀ w ∈ ws, w.keepsStatus = true) :
    (db.commitAll ws).batch.status = db.batch.status := by
  induction ws generalizing db with
  | nil => rfl
  | cons w ws ih =>
    rw [commitAll_cons, ih _ fun w' hw' => h w' (List.mem_cons_of_mem w hw'),
      status_commit db (h w List.mem_cons_self)]

/-- A rank that is NULL comes first. -/
def rankBefore : Option Int → Option Int → Bool
  | none, none => false
  | none, some _ => true
  | some _, none => false
  | some m, some n => m < n

/-- `ORDER BY bd.is_top10 DESC, bd.top10_rank ASC, bd.detail_id ASC`. -/
def Detail.before (a b : Detail) : Bool :=
  if a.isTop10 ≠ b.isTop10 then a.isTop10
  else if a.top10Rank ≠ b.top10Rank then rankBefore a.top10Rank b.top10Rank
  else a.detailId ≤ b.detailId

def sorted (details : List Detail) : List Detail :=
  details.insertionSort fun a b => a.before b = true

theorem mem_sorted : d ∈ sorted details ↔ d ∈ details := List.mem_insertionSort _

def getBatchArticles (b : Batch) : List Detail := sorted b.details

def toPublish (status : PublishStatus) : Bool :=
  decide (status ∈ [.pending, .failed, .translating, .publishedBriefing])

def getDetailsForPublish (b : Batch) : List Detail :=
  sorted (b.details.filter fun d => toPublish d.publishStatus)

/-- How many details have the status; one that none has is missing from the counts. -/
def getBatchPublishProgress (details : List Detail) (status : PublishStatus) : Nat :=
  details.countP fun d => d.publishStatus = status

/-- The counts of all statuses are the details. -/
theorem sum_progress (details : List Detail) :
    (PublishStatus.all.map (getBatchPublishProgress details)).sum = details.length := by
  induction details with
  | nil => rfl
  | cons d details ih =>
    rw [List.length_cons, ← ih]
    simp only [PublishStatus.all, getBatchPublishProgress, List.map_cons, List.map_nil,
      List.sum_cons, List.sum_nil, List.countP_cons]
    cases d.publishStatus <;> simp only [decide_true, decide_false, reduceCtorEq, ↓reduceIte,
      Bool.false_eq_true] <;> omega

/-- The status that `update_batch_status_from_details` finds; a batch without details keeps its
own. -/
def statusFromDetails (details : List Detail) : Option BatchStatus :=
  let total := details.length
  let published := getBatchPublishProgress details .publishedArchive
  let failed := getBatchPublishProgress details .failed
  let skipped := getBatchPublishProgress details .skipped
  if total = 0 then none
  else if published + skipped = total ∧ 0 < published then some .completed
  else if failed = total ∨ failed + skipped = total then some .failed
  else if 0 < published ∨ 0 < failed then some .partialResult
  else some .pending

/-- A batch of one article, of the top 10. -/
def oneArticle (status : BatchStatus) (publishStatus : PublishStatus) : Db where
  batch :=
    { batchId := "b1", articleCount := 1, status
      details := [{ detailId := 1, isTop10 := true, top10Rank := some 0, publishStatus
                    article := { ulid := "a1", url := "https://example.org/a", title := some "T" } }]
      unique := List.nodup_singleton _ }
  items := []

end Publisher
