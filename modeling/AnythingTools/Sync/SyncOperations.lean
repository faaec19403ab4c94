import AnythingTools.Relational.Merge
import AnythingTools.Sync.Bidirectional

namespace Sync
open Relational Relational.Database Schemas
set_option autoImplicit true

structure SyncSettings where
  batchSize : Nat := 500
  batchSize_ge : 50 ≤ batchSize := by decide
  batchSize_le : batchSize ≤ 5000 := by decide

/-- The reads and writes of a push, each of which may fail. -/
inductive PushCall where
  | upload (t : String)
  | readManifest (t : String)
  | diff (t : String)
  | fetch (t : String) (chunk : Nat)
  | merge (t : String)
  | commit
deriving DecidableEq, Repr

/-- The connection to the cloud. `textVector` gives the vector that a JSON text stands for, unless
the text is no vector of the right dimension. -/
structure CloudEngine where
  enabled : Bool := true
  useNativeVectorType : Bool := true
  fails : PushCall → Bool := fun _ => false
  textVector : String → Option (List UInt8) := fun _ => none
  now : String

/-- What a push of one table reads locally: each of its queries sees the database of its time. -/
structure Reads where
  manifest : Database
  fetch : Nat → Database

/-- Nothing is written while the push reads. -/
def Reads.still (db : Database) : Reads where
  manifest := db
  fetch _ := db

/-- `str(v)`, except for NULL. -/
def strOrNull : Value → Value
  | .null => .null
  | v => .text (Python.str v)

/-- `COALESCE(CAST(v AS VARCHAR), '')`. -/
def coalesceStr : Value → String
  | .null => ""
  | v => Python.str v

structure ManifestRow where
  key : List Value
  contentHash : Value
deriving DecidableEq, Repr

def manifestRow (pkCols : List String) (hashed : Bool) (r : Row) : ManifestRow where
  key := pkCols.map fun c => strOrNull (r.get c)
  contentHash := if hashed then strOrNull (r.get "content_hash") else .text ""

/-- The manifest of a table; a query that fails gives an empty one. -/
def uploadLocalManifest (engine : CloudEngine) (db : Database) (t : String) (pkCols : List String)
    (hashed : Bool) : List ManifestRow :=
  match db.find t with
  | none => []
  | some T =>
    if engine.fails (.readManifest t) = true ∨ ∃ c ∈ pkCols, c ∉ T.schema.names then []
    else T.rows.map (manifestRow pkCols hashed)

/-- `m.<pk> = CAST(c.<pk> AS VARCHAR)` in every key column. -/
def joinsManifest (pkCols : List String) (m : ManifestRow) (c : Row) : Bool :=
  (pkCols.zip m.key).all fun p => decide (p.2 ≠ .null) && decide (p.2 = strOrNull (c.get p.1))

def hashDiffers (hashed : Bool) (m : ManifestRow) (c : Row) : Bool :=
  hashed && decide (coalesceStr m.contentHash ≠ coalesceStr (c.get "content_hash"))

/-- The keys of the left join of the manifest with the cloud table that pass its filter. -/
def diffManifest (pkCols : List String) (hashed : Bool) (C : Table) (manifest : List ManifestRow) :
    List (List Value) :=
  manifest.flatMap fun m =>
    match C.rows.filter (joinsManifest pkCols m) with
    | [] => [m.key]
    | partners => (partners.filter (hashDiffers hashed m)).map fun _ => m.key

/-- The cloud table has the columns that the diff query names. -/
def diffable (cloud : Database) (t : String) (pkCols : List String) (hashed : Bool) : Bool :=
  match cloud.find t with
  | none => false
  | some C => (pkCols.all fun c => decide (c ∈ C.schema.names)) &&
      (!hashed || decide ("content_hash" ∈ C.schema.names))

/-- The keys to push: where the diff query fails, those of all local rows. -/
def idsToPush (engine : CloudEngine) (db cloud : Database) (t : String) (pkCols : List String)
    (hashed : Bool) : Except Python.Error (List (List Value)) :=
  match diffable cloud t pkCols hashed && !engine.fails (.diff t), cloud.find t, db.find t with
  | true, some C, _ =>
    .ok (diffManifest pkCols hashed C (uploadLocalManifest engine db t pkCols hashed))
  | _, _, some T =>
    if ∃ c ∈ pkCols, c ∉ T.schema.names then .error .database
    else .ok (T.rows.map fun r => pkCols.map r.get)
  | _, _, none => .error .database

def sqliteHostParamLimit : Nat := 999

def maxChunkSize : Nat := 900

def computeChunkSize (pkCols : List String) : Nat :=
  min (sqliteHostParamLimit / max 1 pkCols.length) maxChunkSize

/-- `SELECT * FROM t WHERE <pk> IN (...)`, as dictionaries. -/
def fetchChunk (engine : CloudEngine) (db : Database) (t : String) (pkCols : List String)
    (chunk : List (List Value) × Nat) : Except Python.Error (List Row) :=
  match db.find t with
  | none => .error .database
  | some T =>
    if engine.fails (.fetch t chunk.2) = true then .error .database
    else .ok ((selectKeys db t (chunk.1.map pkCols.zip)).map fun r => Row.build T.schema.names r.get)

def fetchDirty (engine : CloudEngine) (fetch : Nat → Database) (t : String) (pkCols : List String)
    (ids : List (List Value)) : Except Python.Error (List Row) :=
  ((Python.chunks (computeChunkSize pkCols) ids).zipIdx.mapM fun chunk =>
    fetchChunk engine (fetch chunk.2) t pkCols chunk).map List.flatten

/-- The embedding as it is bound: valid vectors only. -/
def normalizeEmbedding (engine : CloudEngine) : Value → Option Value
  | .null => some .null
  | .blob bs => if validVector bs = true then some (.blob bs) else none
  | .text s => (engine.textVector s).map .blob
  | _ => none

/-- Rows with an embedding that cannot be read go to the dead letter queue. -/
def validateAndNormalize (engine : CloudEngine) (rows : List Row) : List Row :=
  rows.filterMap fun r =>
    (normalizeEmbedding engine (r.get "embedding")).map fun v => r.set "embedding" v

/-- The last row of each key, in the order of the keys. -/
def deduped (pkCols : List String) (rows : List Row) : List Row :=
  rows.foldl
    (fun acc r =>
      if acc.any (Row.sameKey pkCols r) then
        acc.map fun a => if Row.sameKey pkCols r a then r else a
      else acc ++ [r])
    []

def raised (x : Except SqlError α) : Except Python.Error α := x.mapError fun _ => .database

/-- The rows were deduplicated, so the `QUALIFY` of the source keeps all of them. -/
def mergeToCloud (engine : CloudEngine) (pkCols columns : List String) (C : Table)
    (rows : List Row) : Except Python.Error Table :=
  raised (C.merge engine.now pkCols columns (deduped pkCols rows))

def pushVectors (engine : CloudEngine) (settings : SyncSettings) (pkCols columns : List String)
    (C : Table) (rows : List Row) : Except Python.Error Table :=
  match pkCols with
  | [_] =>
    raised ((Python.chunks (min settings.batchSize 250) (validateAndNormalize engine rows)).foldlM
      (Table.merge engine.now pkCols columns) C)
  | _ => .error .database

/-- The fetched rows go to the cloud. -/
def pushRows (engine : CloudEngine) (settings : SyncSettings) (t : String) (pkCols : List String)
    (cloud : Database) (rows : List Row) : Except Python.Error Database :=
  match rows with
  | [] => .ok cloud
  | r :: _ =>
    match cloud.find t with
    | none => .error .database
    | some C =>
      if engine.fails (.merge t) = true then .error .database
      else do
        let C' ← (if "embedding" ∈ r.columns ∧ engine.useNativeVectorType = true then
            pushVectors engine settings pkCols r.columns C rows
          else mergeToCloud engine pkCols r.columns C rows)
        return cloud.update t fun _ => C'

/-- The push of one table. -/
def pushTable (engine : CloudEngine) (settings : SyncSettings) (t : String) (reads : Reads)
    (cloud : Database) : Except Python.Error Database :=
  let (pkCols, hashed) := detectPkColumns reads.manifest t
  if engine.fails (.upload t) = true then .error .database
  else do
    let ids ← idsToPush engine reads.manifest cloud t pkCols hashed
    if ids = [] then return cloud
    else if computeChunkSize pkCols = 0 then throw .valueError
    else
      let rows ← fetchDirty engine reads.fetch t pkCols ids
      pushRows engine settings t pkCols cloud rows

def pushTables (engine : CloudEngine) (settings : SyncSettings) (reads : String → Reads) :
    List String → Database → Except Python.Error Database
  | [], cloud => if engine.fails .commit = true then .error .database else .ok cloud
  | t :: ts, cloud => do
    let cloud ← pushTable engine settings t (reads t) cloud
    pushTables engine settings reads ts cloud

/-- The tables that a push goes through. -/
def pushedTables (tables : List (String × TableDdl)) : List String :=
  (tables.filter fun p => !isVirtual p.2).map Prod.fst

def syncData (engine : CloudEngine) (settings : SyncSettings) (tables : List (String × TableDdl))
    (reads : String → Reads) (cloud : Database) : Except Python.Error Database :=
  if engine.enabled = true then pushTables engine settings reads (pushedTables tables) cloud
  else .ok cloud

/-- The local database: the tables of the registry, each row alone under its keys. -/
structure LocalDb (tables : List (String × TableDdl)) where
  db : Database
  schemas : ∀ p ∈ tables, isVirtual p.2 = false →
    ∃ T, db.find p.1 = some T ∧ T.schema = p.2.schema
  keyed : ∀ t T, db.find t = some T → T.rows.Pairwise fun r r' => ¬ T.schema.conflicts r r' = true

/-- The key that a local row hands to the push, if the diff finds that the cloud needs it. -/
def pushId (engine : CloudEngine) (cloud : Database) (t : String) (pkCols : List String)
    (hashed : Bool) (r : Row) : Option (List Value) :=
  let m := manifestRow pkCols hashed r
  let partners := (cloud.rows t).filter (joinsManifest pkCols m)
  if diffable cloud t pkCols hashed = true ∧ engine.fails (.diff t) = false then
    if engine.fails (.readManifest t) = false ∧
        (partners = [] ∨ partners.any (hashDiffers hashed m) = true) then some m.key
    else none
  else some (pkCols.map r.get)

/-- The push reads the row: its key, or the like key of another row, is on the list. -/
def Selected (engine : CloudEngine) (cloud : Database) (t : String) (T : Table)
    (pkCols : List String) (hashed : Bool) (r : Row) : Prop :=
  ∃ r₀ ∈ T.rows, ∃ id, pushId engine cloud t pkCols hashed r₀ = some id ∧
    T.schema.matchesKey (pkCols.zip id) r = true

/-- The row as it is handed to the merge. -/
def outgoing (engine : CloudEngine) (S : Schema) (r : Row) : Option Row :=
  let row := Row.build S.names r.get
  if "embedding" ∈ S.names ∧ engine.useNativeVectorType = true then
    (normalizeEmbedding engine (row.get "embedding")).map fun v => row.set "embedding" v
  else some row

/-- After the push the cloud holds the row: it was sent as it is, or the cloud held it before and
it was not sent. -/
def Arrives (engine : CloudEngine) (cloud : Database) (t : String) (T : Table)
    (pkCols : List String) (hashed : Bool) (r : Row) : Prop :=
  (Selected engine cloud t T pkCols hashed r ∧
    ∃ s, outgoing engine T.schema r = some s ∧ Row.Agree T.schema.names r s) ∨
  (¬ (Selected engine cloud t T pkCols hashed r ∧ (outgoing engine T.schema r).isSome = true) ∧
    ∃ q ∈ cloud.rows t, Row.Agree T.schema.names r q)

theorem mem_diffManifest {m : List ManifestRow} :
    k ∈ diffManifest pkCols hashed C m ↔ ∃ x ∈ m, x.key = k ∧
      (C.rows.filter (joinsManifest pkCols x) = [] ∨
        (C.rows.filter (joinsManifest pkCols x)).any (hashDiffers hashed x) = true) := by
  rw [diffManifest, List.mem_flatMap]
  apply exists_congr
  intro x
  apply and_congr_right
  intro _
  cases hp : C.rows.filter (joinsManifest pkCols x) with
  | nil =>
    dsimp only
    rw [List.mem_singleton]
    constructor
    · exact fun h => ⟨h.symm, .inl rfl⟩
    · exact fun h => h.1.symm
  | cons c cs =>
    dsimp only
    rw [List.mem_map, List.any_eq_true]
    constructor
    · intro ⟨q, hq, he⟩
      exact ⟨he, .inr ⟨q, (List.mem_filter.1 hq).1, (List.mem_filter.1 hq).2⟩⟩
    · intro ⟨he, hor⟩
      obtain ⟨q, hq, hd⟩ := hor.resolve_left (by simp)
      exact ⟨q, List.mem_filter.2 ⟨hq, hd⟩, he⟩

/-- The keys to push are those that the rows hand in. -/
theorem mem_idsToPush (h : idsToPush engine db cloud t pkCols hashed = .ok ids)
    (hT : db.find t = some T) (hn : ∀ c ∈ pkCols, c ∈ T.schema.names) (k : List Value) :
    k ∈ ids ↔ ∃ r ∈ T.rows, pushId engine cloud t pkCols hashed r = some k := by
  have hnot : ¬ ∃ c ∈ pkCols, c ∉ T.schema.names := fun ⟨c, hc, h⟩ => h (hn c hc)
  rw [idsToPush, hT] at h
  by_cases hd : diffable cloud t pkCols hashed = true ∧ engine.fails (.diff t) = false
  · rw [hd.1, hd.2] at h
    have hpush (r : Row) : pushId engine cloud t pkCols hashed r =
        if engine.fails (.readManifest t) = false ∧
          ((cloud.rows t).filter (joinsManifest pkCols (manifestRow pkCols hashed r)) = [] ∨
            ((cloud.rows t).filter (joinsManifest pkCols (manifestRow pkCols hashed r))).any
              (hashDiffers hashed (manifestRow pkCols hashed r)) = true) then
          some (manifestRow pkCols hashed r).key
        else none := if_pos hd
    cases hC : cloud.find t with
    | none =>
      rw [diffable, hC] at hd
      cases hd.1
    | some C =>
      rw [hC] at h
      cases h
      rw [mem_diffManifest, uploadLocalManifest, hT]
      dsimp only
      by_cases hm : engine.fails (.readManifest t) = true
      · rw [if_pos (.inl hm)]
        constructor
        · intro ⟨x, hx, _⟩
          cases hx
        · intro ⟨r, _, hr⟩
          rw [hpush, if_neg fun h => by rw [hm] at h; cases h.1] at hr
          cases hr
      · rw [if_neg fun h => h.elim hm hnot]
        rw [Bool.not_eq_true] at hm
        simp only [List.mem_map, exists_exists_and_eq_and, hpush, rows_of_find hC, hm, true_and]
        apply exists_congr
        intro r
        apply and_congr_right
        intro _
        split <;> simp_all
  · have hpush (r : Row) : pushId engine cloud t pkCols hashed r = some (pkCols.map r.get) :=
      if_neg hd
    have hids : ids = T.rows.map fun r => pkCols.map r.get := by
      have hb : (diffable cloud t pkCols hashed && !engine.fails (.diff t)) = false := by
        rw [Bool.and_eq_false_iff, Bool.not_eq_false']
        by_cases h1 : diffable cloud t pkCols hashed = true
        · right
          by_contra hc
          rw [Bool.not_eq_true] at hc
          exact hd ⟨h1, hc⟩
        · left
          rw [Bool.not_eq_true] at h1
          exact h1
      rw [hb] at h
      dsimp only at h
      rw [if_neg hnot] at h
      cases h
      rfl
    rw [hids, List.mem_map]
    simp only [hpush, Option.some.injEq]

end Sync
