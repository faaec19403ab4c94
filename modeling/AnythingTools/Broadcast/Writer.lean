import AnythingTools.Relational.Insert
import AnythingTools.Relational.Update
import AnythingTools.Sync.SyncOperations

namespace Broadcast
open Relational Relational.Database Sync Schemas
set_option autoImplicit true

structure Article where
  ulid : Option String := none
  id : Option String := none
deriving DecidableEq, Repr

/-- `article.get("ulid") or article.get("id")`, where it is not empty. -/
def articleId (a : Article) : Option String :=
  (a.ulid.filter fun s => decide (s ≠ "")).or (a.id.filter fun s => decide (s ≠ ""))

/-- The place of an article in the list; of several the last. -/
def top10Rank (top10 : List Article) (articleId : String) : Option Nat :=
  (top10.zipIdx.filter fun p => decide (p.1.ulid = some articleId)).getLast?.map Prod.snd

def detailRow (batchId articleId : String) (isTop10 : Bool) (rank : Option Nat) (now : String) :
    Row :=
  [("batch_id", .text batchId), ("article_id", .text articleId),
    ("is_top10", .int (if isTop10 then 1 else 0)),
    ("top10_rank", (rank.map fun n => Value.int n).getD .null), ("publish_status", .text "PENDING"),
    ("created_at", .text now), ("updated_at", .text now)]

/-- The texts of a translation: the title decides whether any of them is written. -/
structure Translation where
  title : String
  summary : Option String
  conclusion : Option String
deriving DecidableEq, Repr

def textOrNull (s : Option String) : Value := (s.map Value.text).getD .null

/-- A write of the broadcast module, with the time it carries. -/
inductive Op where
  | addDetail (batchId articleId : String) (isTop10 : Bool) (rank : Option Nat)
  | addDetailsBulk (batchId : String) (articles top10 : List Article)
  | updateDetailPublishStatus (batchId articleId publishStatus : String)
      (translated : Option Translation)
  | markDetailPublished (batchId articleId phase : String)
  | resetBatchPublishStatus (batchId : String)
deriving DecidableEq, Repr

def statusMap (phase : String) : Option String :=
  if phase = "briefing" then some "PUBLISHED_BRIEFING"
  else if phase = "archive" then some "PUBLISHED_ARCHIVE"
  else none

def ofBatch (batchId : String) (r : Row) : Bool := decide (r.get "batch_id" = .text batchId)

def ofArticle (batchId articleId : String) (r : Row) : Bool :=
  ofBatch batchId r && decide (r.get "article_id" = .text articleId)

/-- The cells that a change of status writes. -/
def statusCells (publishStatus : String) (translated : Option Translation) (now : String) : Row :=
  ("publish_status", .text publishStatus) ::
    (match translated with
    | some t => [("translated_title", .text t.title), ("translated_summary", textOrNull t.summary),
        ("translated_conclusion", textOrNull t.conclusion)]
    | none => []) ++ [("updated_at", .text now)]

def insertDetail (now : String) (db : Database) (r : Row) : Except SqlError Database :=
  db.insertOrIgnore now "broadcast_details" r

/-- The statements that an operation hands to the writer. -/
def Op.write (now : String) (db : Database) : Op → Except SqlError Database
  | .addDetail batchId articleId isTop10 rank =>
    insertDetail now db (detailRow batchId articleId isTop10 rank now)
  | .addDetailsBulk batchId articles top10 =>
    (articles.filterMap articleId).foldlM
      (fun db id => insertDetail now db
        (detailRow batchId id (top10Rank top10 id).isSome (top10Rank top10 id) now))
      db
  | .updateDetailPublishStatus batchId articleId publishStatus translated =>
    db.updateRows "broadcast_details" (statusCells publishStatus translated now)
      (ofArticle batchId articleId)
  | .markDetailPublished batchId articleId phase =>
    match statusMap phase with
    | none => .ok db
    | some status =>
      db.updateRows "broadcast_details" (statusCells status none now) (ofArticle batchId articleId)
  | .resetBatchPublishStatus batchId =>
    db.updateRows "broadcast_details"
      [("publish_status", .text "PENDING"), ("translated_title", .null),
        ("translated_summary", .null), ("translated_conclusion", .null),
        ("updated_at", .text now)]
      (ofBatch batchId)

/-- The first row of an article, with the cells that were written. -/
def statusRecord (db : Database) (batchId articleId : String) (cells : Row) : List Row :=
  (((db.rows "broadcast_details").find? (ofArticle batchId articleId)).map fun r =>
    r.assign cells).toList

/-- The records that an operation queues for the cloud, read after its write. -/
def Op.records (now : String) (db : Database) : Op → List Row
  | .addDetail .. => []
  | .addDetailsBulk batchId articles _ =>
    (db.rows "broadcast_details").filter fun r =>
      (articles.filterMap articleId).any fun id => ofArticle batchId id r
  | .updateDetailPublishStatus batchId articleId publishStatus translated =>
    statusRecord db batchId articleId (statusCells publishStatus translated now)
  | .markDetailPublished batchId articleId phase =>
    match statusMap phase with
    | none => []
    | some status => statusRecord db batchId articleId (statusCells status none now)
  | .resetBatchPublishStatus _ => []

/-- The bulk write waits for its receipt, the others do not. -/
def Op.queues (op : Op) (written : Bool) : Bool :=
  match op with
  | .addDetailsBulk .. => written
  | _ => true

/-- The cloud writer merges a batch; one that fails goes to the dead letter queue. -/
def flushBatch (engine : CloudEngine) (cloud : Database) (t pkCol : String) :
    List Row → Database
  | [] => cloud
  | r :: rs =>
    match cloud.find t with
    | none => cloud
    | some C =>
      match C.merge engine.now [pkCol] r.columns (deduped [pkCol] (r :: rs)) with
      | .ok C' => cloud.update t fun _ => C'
      | .error _ => cloud

/-- The local database and the cloud. -/
structure Sides where
  db : Database
  cloud : Database

/-- An operation at a time; its inline cloud write may be dropped. -/
structure Event where
  op : Op
  now : String
  delivered : Bool
deriving DecidableEq, Repr

def step (engine : CloudEngine) (s : Sides) (ev : Event) : Sides :=
  let written := ev.op.write ev.now s.db
  let db := written.toOption.getD s.db
  { db
    cloud :=
      if ev.delivered = true ∧ ev.op.queues written.toOption.isSome = true then
        flushBatch engine s.cloud "broadcast_details" "detail_id" (ev.op.records ev.now db)
      else s.cloud }

def run (engine : CloudEngine) (s : Sides) (evs : List Event) : Sides := evs.foldl (step engine) s

/-- The rows of the details carry no hash. -/
structure Unhashed (db : Database) : Prop where
  schema : ∀ T, db.find "broadcast_details" = some T → T.schema = broadcastDetails.schema
  rows : AllRows db "broadcast_details" fun r => r.get "content_hash" = .text ""

theorem Unhashed.of_same {db db' : Database} (h : Unhashed db) (hs : SameSchemas db db')
    (hr : AllRows db' "broadcast_details" fun r => r.get "content_hash" = .text "") :
    Unhashed db' where
  schema T' hT' := by
    obtain ⟨T, hT, he⟩ := hs.symm.find hT'
    rw [← he]
    exact h.schema T hT
  rows := hr

theorem unhashed_insertDetail {r : Row} (hr : "content_hash" ∉ r.columns)
    (h : insertDetail now db r = .ok db') (hu : Unhashed db) : Unhashed db' := by
  apply hu.of_same
  · rcases insertOrIgnore_ok h with he | ⟨T, _, he⟩
    · rw [he]
      exact .refl db
    · rw [he]
      exact sameSchemas_append db _ _
  · apply allRows_insertOrIgnore h hu.rows
    intro T hT _
    have hS := hu.schema T hT
    rw [Table.assign, hS]
    have hfill : (broadcastDetails.schema.fill now r).get "content_hash" = .text "" := by
      rw [Schema.fill, Row.get_build_of_mem (by decide)]
      have hc : broadcastDetails.schema.column? "content_hash" =
          some ((col "content_hash" "TEXT").notNull.defaultText "") := by decide
      rw [hc]
      dsimp only
      rw [if_neg hr]
      rfl
    split
    · exact hfill
    next n hn =>
      split
      · have hne : "content_hash" ≠ n := by
          have he : some n = some "detail_id" := by
            rw [← hn]
            decide
          rw [Option.some.inj he]
          decide
        rw [Row.get_set_ne _ _ hne]
        exact hfill
      · exact hfill

theorem unhashed_updateRows {cells : Row} (hc : "content_hash" ∉ cells.columns)
    (h : updateRows db "broadcast_details" cells p = .ok db') (hu : Unhashed db) :
    Unhashed db' := by
  apply hu.of_same
  · rw [updateRows_ok h]
    apply sameSchemas_update
    intro T
    rfl
  · apply allRows_updateRows h hu.rows
    intro r hr
    rw [Row.get_assign hc]
    exact hr

theorem columns_statusCells (status : String) (translated : Option Translation) (now : String) :
    "content_hash" ∉ (statusCells status translated now).columns := by
  cases translated with
  | none =>
    change "content_hash" ∉ ["publish_status", "updated_at"]
    decide
  | some t =>
    change "content_hash" ∉ ["publish_status", "translated_title", "translated_summary",
      "translated_conclusion", "updated_at"]
    decide

/-- No operation hashes what it writes. -/
theorem unhashed_write {op : Op} (h : op.write now db = .ok db') (hu : Unhashed db) :
    Unhashed db' := by
  have hdetail (batchId id : String) (b : Bool) (rank : Option Nat) :
      "content_hash" ∉ (detailRow batchId id b rank now).columns := by
    change "content_hash" ∉ ["batch_id", "article_id", "is_top10", "top10_rank", "publish_status",
      "created_at", "updated_at"]
    decide
  cases op with
  | addDetail batchId articleId isTop10 rank => exact unhashed_insertDetail (hdetail _ _ _ _) h hu
  | addDetailsBulk batchId articles top10 =>
    rw [Op.write] at h
    generalize articles.filterMap articleId = ids at h
    induction ids generalizing db with
    | nil =>
      cases h
      exact hu
    | cons id ids ih =>
      rw [List.foldlM_cons] at h
      cases hi : insertDetail now db
          (detailRow batchId id (top10Rank top10 id).isSome (top10Rank top10 id) now) with
      | error e =>
        rw [hi] at h
        cases h
      | ok db₁ =>
        rw [hi] at h
        exact ih (unhashed_insertDetail (hdetail _ _ _ _) hi hu) h
  | updateDetailPublishStatus batchId articleId status translated =>
    exact unhashed_updateRows (columns_statusCells _ _ _) h hu
  | markDetailPublished batchId articleId phase =>
    rw [Op.write] at h
    split at h
    · cases h
      exact hu
    · exact unhashed_updateRows (columns_statusCells _ _ _) h hu
  | resetBatchPublishStatus batchId =>
    apply unhashed_updateRows _ h hu
    change "content_hash" ∉ ["publish_status", "translated_title", "translated_summary",
      "translated_conclusion", "updated_at"]
    decide

theorem unhashed_statusRecord {cells : Row} (hc : "content_hash" ∉ cells.columns)
    (hu : Unhashed db) (hr : r ∈ statusRecord db b a cells) :
    r.get "content_hash" = .text "" := by
  rw [statusRecord, Option.mem_toList, Option.map_eq_some_iff] at hr
  obtain ⟨r₀, hf, he⟩ := hr
  rw [← he, Row.get_assign hc]
  exact hu.rows r₀ (List.mem_of_find?_eq_some hf)

/-- Nor what it queues for the cloud. -/
theorem unhashed_records {op : Op} (hu : Unhashed db) (hr : r ∈ op.records now db) :
    r.get "content_hash" = .text "" := by
  cases op with
  | addDetail batchId articleId isTop10 rank => cases hr
  | addDetailsBulk batchId articles top10 => exact hu.rows r (List.mem_filter.1 hr).1
  | updateDetailPublishStatus batchId articleId status translated =>
    exact unhashed_statusRecord (columns_statusCells _ _ _) hu hr
  | markDetailPublished batchId articleId phase =>
    rw [Op.records] at hr
    split at hr
    · cases hr
    · exact unhashed_statusRecord (columns_statusCells _ _ _) hu hr
  | resetBatchPublishStatus batchId => cases hr

theorem mem_deduped_subset (h : r ∈ deduped pkCols rs) : r ∈ rs := by
  have hgen (acc l : List Row) (hm : r ∈ l.foldl (fun acc r =>
      if acc.any (Row.sameKey pkCols r) then
        acc.map fun a => if Row.sameKey pkCols r a then r else a
      else acc ++ [r]) acc) : r ∈ acc ∨ r ∈ l := by
    induction l generalizing acc with
    | nil => exact .inl hm
    | cons a l ih =>
      rw [List.foldl_cons] at hm
      rcases ih _ hm with hacc | hl
      · split at hacc
        · obtain ⟨b, hb, he⟩ := List.mem_map.1 hacc
          split at he
          · exact .inr (he ▸ List.mem_cons_self)
          · exact .inl (he ▸ hb)
        · rcases List.mem_append.1 hacc with hacc | hone
          · exact .inl hacc
          · exact .inr (List.mem_singleton.1 hone ▸ List.mem_cons_self)
      · exact .inr (List.mem_cons_of_mem a hl)
  rcases hgen [] rs h with h | h
  · cases h
  · exact h

/-- The cloud's details have the column, and no hash in it. -/
structure UnhashedCloud (cloud : Database) : Prop where
  column : ∀ C, cloud.find "broadcast_details" = some C → "content_hash" ∈ C.schema.names
  rows : AllRows cloud "broadcast_details" fun r => r.get "content_hash" = .text ""

theorem unhashed_merge (h : Table.merge now key cols C src = .ok C')
    (hcol : "content_hash" ∈ C.schema.names)
    (hC : ∀ r ∈ C.rows, r.get "content_hash" = .text "")
    (hsrc : ∀ s ∈ src, s.get "content_hash" = .text "") :
    "content_hash" ∈ C'.schema.names ∧ ∀ r ∈ C'.rows, r.get "content_hash" = .text "" := by
  obtain ⟨_, hschema, hrows⟩ := Table.merge_ok h
  rw [hschema, hrows]
  refine ⟨hcol, ?_⟩
  intro r hr
  rcases List.mem_append.1 hr with hr | hr
  · obtain ⟨q, hq, he⟩ := List.mem_map.1 hr
    rw [← he]
    split
    next s hf =>
      rw [Schema.overwrite, Row.get_build_of_mem hcol]
      split
      · exact hsrc s (List.mem_of_find?_eq_some hf)
      · exact hC q hq
    next => exact hC q hq
  · obtain ⟨s, hs, he⟩ := List.mem_map.1 hr
    have hs := hsrc s (List.mem_filter.1 hs).1
    obtain ⟨c, hc⟩ : ∃ c, C.schema.column? "content_hash" = some c := by
      obtain ⟨d, hd, hn⟩ := List.mem_map.1 hcol
      rw [← hn]
      exact Schema.column?_of_mem hd
    rw [← he, Schema.fill, Row.get_build_of_mem hcol, hc]
    dsimp only
    rw [if_pos, hs]
    by_contra hno
    rw [Row.get_of_not_mem hno] at hs
    cases hs

theorem unhashed_flushBatch {recs : List Row} (engine : CloudEngine) (hu : UnhashedCloud cloud)
    (hr : ∀ r ∈ recs, r.get "content_hash" = .text "") :
    UnhashedCloud (flushBatch engine cloud "broadcast_details" "detail_id" recs) := by
  unfold flushBatch
  split
  · exact hu
  · split
    · exact hu
    next C hC =>
      split
      next C' hm =>
        have hmerged := unhashed_merge hm (hu.column C hC)
          (fun r hr => hu.rows r (by rw [rows_of_find hC]; exact hr))
          (fun s hs => hr s (mem_deduped_subset hs))
        have hfind : (cloud.update "broadcast_details" fun _ => C').find "broadcast_details" =
            some C' := by
          rw [find_update_self, hC]
          rfl
        constructor
        · intro C₁ hC₁
          rw [hfind, Option.some.injEq] at hC₁
          rw [← hC₁]
          exact hmerged.1
        · intro r hr
          rw [rows_of_find hfind] at hr
          exact hmerged.2 r hr
      · exact hu

/-- Over any run the details never get a hash, here or in the cloud, whichever of the inline
writes come through. -/
theorem unhashed_run (engine : CloudEngine) (evs : List Event) (hu : Unhashed s.db)
    (hc : UnhashedCloud s.cloud) :
    Unhashed (run engine s evs).db ∧ UnhashedCloud (run engine s evs).cloud := by
  induction evs generalizing s with
  | nil => exact ⟨hu, hc⟩
  | cons ev evs ih =>
    have hdb : Unhashed (step engine s ev).db := by
      rw [step]
      dsimp only
      cases hw : ev.op.write ev.now s.db with
      | ok db => exact unhashed_write hw hu
      | error e => exact hu
    apply ih hdb
    rw [step]
    dsimp only
    split
    · apply unhashed_flushBatch engine hc
      intro r hr
      exact unhashed_records hdb hr
    · exact hc

end Broadcast
