import AnythingTools.Python
import AnythingTools.Relational.Statement
import Mathlib.Data.List.Sort

namespace Sync
open Relational
set_option autoImplicit true

/-- The primary key columns in key order, `id` when there are none, and whether the table has a
`content_hash`. -/
def detectPkColumns (db : Database) (tableName : String) : List String × Bool :=
  match db.find tableName with
  | none => (["id"], false)
  | some T =>
    let pkCols := (T.schema.columns.filter fun c => decide (0 < c.pk)).insertionSort
      (fun a b => a.pk ≤ b.pk) |>.map Column.name
    (if pkCols = [] then ["id"] else pkCols, decide ("content_hash" ∈ T.schema.names))

def hasUpdatedAt (db : Database) (tableName : String) : Bool :=
  match db.find tableName with
  | none => false
  | some T => decide ("updated_at" ∈ T.schema.names)

/-- A fetched row: the key cells, the hash and the time stamp. -/
structure Fetched where
  key : List Value
  contentHash : Value
  ts : Value
deriving DecidableEq, Repr

/-- `SELECT <pk>, <hash or ''>, <updated_at or ''> FROM table`; a failing query gives no rows. -/
def fetchRows (db : Database) (tableName : String) (pkCol : List String)
    (hasHash hasUpdatedAt : Bool) : List Fetched :=
  match db.find tableName with
  | none => []
  | some T =>
    let wanted := pkCol ++ (if hasHash then ["content_hash"] else []) ++
      (if hasUpdatedAt then ["updated_at"] else [])
    if wanted.all fun c => decide (c ∈ T.schema.names) then
      T.rows.map fun r =>
        { key := pkCol.map r.get
          contentHash := if hasHash then r.get "content_hash" else .text ""
          ts := if hasUpdatedAt then r.get "updated_at" else .text "" }
    else []

/-- A row of the in-memory tables `diff_op` and `diff_cloud`. -/
structure DiffRow where
  pk : String
  contentHash : String
  ts : String
deriving DecidableEq, Repr

/-- The key text of a row: its cells joined with a bar when there are several. -/
def pkStr (key : List Value) : String := "|".intercalate (key.map Python.str)

/-- `INSERT OR IGNORE`: the first row with a key text stays. -/
def insertDiffRows (rows : List Fetched) : List DiffRow :=
  rows.foldl
    (fun mem r =>
      let d : DiffRow :=
        { pk := pkStr r.key
          contentHash := Python.strOr r.contentHash
          ts := Python.strOr r.ts }
      if mem.any fun m => decide (m.pk = d.pk) then mem else mem ++ [d])
    []

inductive Classification where
  | timestampDrift
  | genuineConflict
  | legacyTimestampConflict
deriving DecidableEq, Repr

/-- A row that both sides have; the hashes are given for a genuine conflict. -/
structure Conflict where
  id : String
  opTs : String
  cloudTs : String
  hashes : Option (String × String) := none
  classification : Classification
deriving DecidableEq, Repr

structure Deltas where
  pkCol : List String
  opOnly : List String := []
  cloudOnly : List String := []
  contentIdentical : List String := []
  timestampDrift : List Conflict := []
  genuineConflicts : List Conflict := []
  opRows : Nat := 0
  cloudRows : Nat := 0
deriving DecidableEq, Repr

def Deltas.totalRows (d : Deltas) : Nat :=
  d.opOnly.length + d.cloudOnly.length + d.contentIdentical.length

section
variable (parseTs : String → Int)

/-- The instant of a time stamp: `parseTs` where it is not empty. -/
def instant (t : String) : Int := if t = "" then 0 else parseTs t

/-- The sign of the difference of two time stamps. -/
def safeTsCompare (ts1 ts2 : String) : Int :=
  (instant parseTs ts1 - instant parseTs ts2).sign

/-- One row of the joined diff tables. -/
def classify (hashed : Bool) (d : Deltas) : Option DiffRow → Option DiffRow → Deltas
  | some o, none => { d with opOnly := d.opOnly ++ [o.pk] }
  | none, some c => { d with cloudOnly := d.cloudOnly ++ [c.pk] }
  | none, none => d
  | some o, some c =>
    if hashed = true ∧ o.contentHash ≠ "" ∧ c.contentHash ≠ "" then
      if o.contentHash = c.contentHash then
        { d with
          contentIdentical := d.contentIdentical ++ [o.pk]
          timestampDrift := d.timestampDrift ++
            if safeTsCompare parseTs o.ts c.ts ≠ 0 then
              [{ id := o.pk, opTs := o.ts, cloudTs := c.ts, classification := .timestampDrift }]
            else [] }
      else
        { d with
          genuineConflicts := d.genuineConflicts ++
            [{ id := o.pk, opTs := o.ts, cloudTs := c.ts
               hashes := some (o.contentHash, c.contentHash)
               classification := .genuineConflict }] }
    else if safeTsCompare parseTs o.ts c.ts ≠ 0 then
      { d with
        genuineConflicts := d.genuineConflicts ++
          [{ id := o.pk, opTs := o.ts, cloudTs := c.ts
             classification := .legacyTimestampConflict }] }
    else { d with contentIdentical := d.contentIdentical ++ [o.pk] }

/-- The left join of the operational side, then the cloud rows without a partner. -/
def joined (op cloud : List DiffRow) : List (Option DiffRow × Option DiffRow) :=
  (op.map fun o => (some o, cloud.find? fun c => decide (c.pk = o.pk))) ++
    (cloud.filter fun c => !op.any fun o => decide (o.pk = c.pk)).map fun c => (none, some c)

def computeDeltas (opConn cloudConn : Database) (tableName : String) : Deltas :=
  let (pkCol, hasContentHashOp) := detectPkColumns opConn tableName
  let hasUpdatedAt := hasUpdatedAt opConn tableName
  let opRows := fetchRows opConn tableName pkCol hasContentHashOp hasUpdatedAt
  let hasContentHashCloud := (detectPkColumns cloudConn tableName).2
  let cloudRows := fetchRows cloudConn tableName pkCol hasContentHashCloud hasUpdatedAt
  let hashed := hasContentHashOp && hasContentHashCloud
  (joined (insertDiffRows opRows) (insertDiffRows cloudRows)).foldl
    (fun d p => classify parseTs hashed d p.1 p.2)
    { pkCol, opRows := opRows.length, cloudRows := cloudRows.length }

def Deltas.opNewer (d : Deltas) : Nat :=
  d.timestampDrift.countP fun c => decide (0 < safeTsCompare parseTs c.opTs c.cloudTs)

def Deltas.cloudNewer (d : Deltas) : Nat :=
  d.timestampDrift.countP fun c => decide (0 < safeTsCompare parseTs c.cloudTs c.opTs)

end

theorem foldl_append {f : σ → List β} {step : σ → α → σ} {g : α → List β}
    (h : ∀ s a, f (step s a) = f s ++ g a) (l : List α) (s : σ) :
    f (l.foldl step s) = f s ++ l.flatMap g := by
  induction l generalizing s with
  | nil => rw [List.foldl_nil, List.flatMap_nil, List.append_nil]
  | cons a l ih => rw [List.foldl_cons, ih, h, List.flatMap_cons, List.append_assoc]

theorem primaryKey_subset (S : Schema) (hc : c ∈ S.primaryKey) : c ∈ S.names := by
  obtain ⟨d, hd, he⟩ := List.mem_map.1 hc
  exact List.mem_map.2 ⟨d, (List.mem_filter.1 hd).1, he⟩

end Sync
