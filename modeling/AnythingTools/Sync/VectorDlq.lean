import AnythingTools.Sync.FlushRetry

namespace Sync
open Relational Relational.Database
set_option autoImplicit true

/-- The texts of a push of vectors: what an embedding fails with, and a row as JSON. -/
structure VectorEnv extends FlushEnv where
  reason : Value → String
  rowJson : Row → String

/-- The message that `_validate_and_normalize` gives a row for its embedding. -/
def embeddingError (env : VectorEnv) : Value → Option String
  | .null => none
  | .blob bs =>
    if validVector bs = true then none
    else if bs.length = vectorDim * 4 then
      some ("Vector validation failed: " ++ env.reason (.blob bs))
    else some ("Vector validation failed: BLOB length mismatch: expected " ++
      toString (vectorDim * 4) ++ " bytes, got " ++ toString bs.length ++ " bytes")
  | .text s =>
    if (env.engine.textVector s).isSome = true then none
    else some ("Vector validation failed: " ++ env.reason (.text s))
  | .int _ => some "Unexpected embedding type: int"
  | .real _ => some "Unexpected embedding type: float"

/-- The name that the key column of a dead letter gets. -/
def PkCol.label : PkCol → String
  | .one c => c
  | .several cs => "(" ++ ", ".intercalate (cs.map fun c => "'" ++ c ++ "'") ++ ")"

/-- The record of a row in `_route_to_dlq`. -/
def dlqRecord (env : VectorEnv) (t : String) (pkCol : PkCol) (r : Row) (message : String) : Row :=
  let safe : Row := (safeRecord r).filter fun p => decide (p.1 ≠ "_error_msg")
  let key := if pkCol.label ∈ safe.columns then Row.get safe pkCol.label else .text ""
  setItem (setItem (setItem [(pkCol.label, key)] "table_name" (.text t))
    "row_data" (.text (env.rowJson safe))) "_error_msg" (.text message)

/-- The rows that fail go to the cloud writer as tasks for a table of its own. Their operation
`DLQ` is none that a flush knows, so it merges them. -/
def routeToDlq (env : VectorEnv) (t : String) (pkCol : PkCol) (rows : List Row) :
    List CloudWriteTask :=
  rows.filterMap fun r => (embeddingError env (r.get "embedding")).map fun message =>
    { tableName := "dead_letter_queue"
      operation := .upsert
      records := [dlqRecord env t pkCol r message]
      pkCol }

/-- What an attempt to flush a group routes, before it comes to a statement. -/
def routed (env : VectorEnv) (k : BatchKey) (depth : Nat) (records : List Row) :
    List CloudWriteTask :=
  if env.contact depth ≠ .unreachable ∧ k.operation = .upsert ∧
      "embedding" ∈ columnsOf records then
    routeToDlq env k.tableName k.pkCol (dedupedRecords k.pkCol records)
  else []

/-- The tasks that a flush with its retries routes, and whether an attempt goes through. -/
def flushRouted (env : VectorEnv) (cloud : Database) (k : BatchKey) :
    (retries depth : Nat) → List Row → List CloudWriteTask × Bool
  | 0, depth, records =>
    (routed env k depth records, (flushAttempt env.toFlushEnv cloud k depth records).isOk)
  | retries + 1, depth, records =>
    match flushAttempt env.toFlushEnv cloud k depth records with
    | .ok _ => (routed env k depth records, true)
    | .error _ =>
      let next := flushRouted env cloud k retries (depth + 1) (rebound env.toFlushEnv k depth records)
      (routed env k depth records ++ next.1, next.2)

/-- The queue of the cloud writer with the group it collects, the cloud, and the dead letters that
the local database has got. -/
structure VectorState where
  queue : List CloudWriteTask := []
  batch : List CloudWriteTask := []
  cloud : Database
  dlq : List DeadLetter := []

/-- `put_nowait`: a full queue drops the task. -/
def putTask (queue : List CloudWriteTask) (task : CloudWriteTask) : List CloudWriteTask :=
  if queue.length < cloudQueueSize then queue ++ [task] else queue

/-- A batch of rows that was handed to `push_vectors`, and whether its statements went through. -/
structure VectorBatch where
  tableName : String
  pkCol : PkCol
  rows : List Row
  through : Bool

/-- How the flush of each group meets the cloud and the local queue. -/
structure Meeting where
  contact : BatchKey → Nat → Contact := fun _ _ => .reached
  takes : BatchKey → Nat → Bool := fun _ _ => true

def VectorEnv.at (env : VectorEnv) (m : Meeting) (k : BatchKey) : VectorEnv :=
  { env with contact := m.contact k, takes := m.takes k }

/-- One group of the buffer is flushed. -/
def VectorState.flushOne (env : VectorEnv) (m : Meeting) (s : VectorState)
    (g : BatchKey × List Row) : VectorState :=
  let out := flushBatch (env.at m g.1).toFlushEnv s.cloud g.1 g.2
  { s with
    cloud := out.cloud
    dlq := s.dlq ++ out.dlq
    queue := (flushRouted (env.at m g.1) s.cloud g.1 retryLimit 0 g.2).1.foldl putTask s.queue }

/-- The group as it is handed to `push_vectors`, if it has embeddings and a transaction is
opened. -/
def groupCall (env : VectorEnv) (m : Meeting) (s : VectorState) (g : BatchKey × List Row) :
    List VectorBatch :=
  if g.1.operation = .upsert ∧ "embedding" ∈ columnsOf g.2 ∧
      (List.range (retryLimit + 1)).any fun d => decide (m.contact g.1 d ≠ .unreachable) then
    [{ tableName := g.1.tableName
       pkCol := g.1.pkCol
       rows := dedupedRecords g.1.pkCol g.2
       through := (flushRouted (env.at m g.1) s.cloud g.1 retryLimit 0 g.2).2 }]
  else []

inductive VectorStep where
  | put (task : CloudWriteTask)
  | take
  | flush (m : Meeting)
  -- a push of `sync_data`, in a transaction that is committed or not
  | push (settings : SyncSettings) (t c : String) (columns : List String) (rows : List Row)
      (committed : Bool)

def pushed (env : VectorEnv) (s : VectorState) (settings : SyncSettings) (t c : String)
    (columns : List String) (rows : List Row) : Except Python.Error Database :=
  match s.cloud.find t with
  | none => .error .database
  | some C => (pushVectors env.engine settings [c] columns C rows).map fun C' =>
    s.cloud.update t fun _ => C'

def vectorStep (env : VectorEnv) (s : VectorState) : VectorStep → Option VectorState
  | .put task => some { s with queue := putTask s.queue task }
  | .take =>
    match s.queue with
    | [] => none
    | task :: queue => some { s with queue, batch := s.batch ++ [task] }
  | .flush m => some { (bufferOf s.batch).foldl (VectorState.flushOne env m) s with batch := [] }
  | .push settings t c columns rows committed =>
    some { s with
      queue := (routeToDlq env t (.one c) rows).foldl putTask s.queue
      cloud :=
        match pushed env s settings t c columns rows, committed with
        | .ok cloud, true => cloud
        | _, _ => s.cloud }

/-- The batches that a step hands to `push_vectors`. -/
def calls (env : VectorEnv) (s : VectorState) : VectorStep → List VectorBatch
  | .flush m =>
    ((bufferOf s.batch).foldl
      (fun p g => (p.1.flushOne env m g, p.2 ++ groupCall env m p.1 g)) (s, [])).2
  | .push settings t c columns rows committed =>
    [{ tableName := t
       pkCol := .one c
       rows
       through := committed && (pushed env s settings t c columns rows).isOk }]
  | _ => []

/-- The dead letter is one of the row, with its table, its id and the message it failed with. -/
def IsLetterOf (env : VectorEnv) (b : VectorBatch) (r : Row) (message : String) (e : DeadLetter) :
    Prop :=
  e.tableName = b.tableName ∧ e.rowId = buildRowId env.toFlushEnv b.pkCol r ∧
    e.errorMessage = message

instance (env : VectorEnv) (b : VectorBatch) (r : Row) (message : String) (e : DeadLetter) :
    Decidable (IsLetterOf env b r message e) := inferInstanceAs (Decidable (_ ∧ _))

/-- Each row that fails has one dead letter, and the others are pushed. -/
structure Handled (env : VectorEnv) (b : VectorBatch) (dlq : List DeadLetter) : Prop where
  invalid : ∀ r ∈ b.rows, ∀ message, embeddingError env (r.get "embedding") = some message →
    (dlq.countP fun e => decide (IsLetterOf env b r message e)) = 1
  valid : (∃ r ∈ b.rows, embeddingError env (r.get "embedding") = none) → b.through = true

/-- A row fails exactly when its embedding stands for no vector. -/
theorem embeddingError_none (env : VectorEnv) (v : Value) :
    embeddingError env v = none ↔ (normalizeEmbedding env.engine v).isSome = true := by
  cases v with
  | null => exact iff_of_true rfl rfl
  | blob bs =>
    rw [embeddingError, normalizeEmbedding]
    by_cases hv : validVector bs = true
    · rw [if_pos hv, if_pos hv]
      exact iff_of_true rfl rfl
    · rw [if_neg hv, if_neg hv]
      refine iff_of_false ?_ Bool.false_ne_true
      split <;> exact Option.some_ne_none _
  | text s =>
    rw [embeddingError, normalizeEmbedding, Option.isSome_map]
    split
    next h => exact iff_of_true rfl h
    next h => exact iff_of_false (Option.some_ne_none _) h
  | int n => exact iff_of_false (Option.some_ne_none _) Bool.false_ne_true
  | real x => exact iff_of_false (Option.some_ne_none _) Bool.false_ne_true

section
variable {env : VectorEnv}

/-- Every dead letter has the text of an error of the database. -/
def FromDatabase (env : VectorEnv) (s : VectorState) : Prop :=
  ∀ e ∈ s.dlq, ∃ error, e.errorMessage = env.message error

theorem fromDatabase_flush (env : FlushEnv) (cloud : Database) (k : BatchKey) (n d : Nat)
    (records : List Row) : ∀ e ∈ (flushFrom env cloud k n d records).dlq,
      ∃ error, e.errorMessage = env.message error := by
  have hroute (records : List Row) (error : Option SqlError) :
      ∀ e ∈ routeFailedBatch env k records error, ∃ error, e.errorMessage = env.message error := by
    intro e he
    obtain ⟨p, _, rfl⟩ := List.mem_map.1 he
    exact ⟨error, rfl⟩
  induction n generalizing d records with
  | zero =>
    rw [flushFrom]
    split
    · exact fun e he => absurd he List.not_mem_nil
    · exact hroute _ _
  | succ n ih =>
    rw [flushFrom]
    split
    · exact fun e he => absurd he List.not_mem_nil
    · exact ih _ _

theorem fromDatabase_flushOne (m : Meeting) (g : BatchKey × List Row) {s : VectorState}
    (hs : FromDatabase env s) : FromDatabase env (s.flushOne env m g) := by
  intro e he
  rcases List.mem_append.1 he with he | he
  · exact hs e he
  · exact fromDatabase_flush (env.at m g.1).toFlushEnv _ _ _ _ _ e he

theorem fromDatabase_step (h : vectorStep env s a = some s') (hs : FromDatabase env s) :
    FromDatabase env s' := by
  cases a with
  | put task =>
    cases h
    exact hs
  | take =>
    rw [vectorStep] at h
    split at h
    · cases h
    · cases h
      exact hs
  | flush m =>
    cases h
    have hgroups (gs : BatchBuffer) : ∀ s : VectorState, FromDatabase env s →
        FromDatabase env (gs.foldl (VectorState.flushOne env m) s) := by
      induction gs with
      | nil => exact fun _ hs => hs
      | cons g gs ih => exact fun s hs => ih _ (fromDatabase_flushOne m g hs)
    exact hgroups _ s hs
  | push settings t c columns rows committed =>
    cases h
    exact hs

end

def vectorEnv : VectorEnv where
  engine := bytesEngine
  json := bytesJson
  digest _ := ""
  message _ := "(sqlalchemy.exc.ProgrammingError) SQL compilation error"
  reason _ := ""
  rowJson _ := ""

theorem embeddingError_ne_message (error : Option SqlError) (v : Value) :
    embeddingError vectorEnv v ≠ some (vectorEnv.message error) := by
  have hhead (p x : String) (hp : p.toList.head? = some 'V') :
      some (p ++ x) ≠ some "(sqlalchemy.exc.ProgrammingError) SQL compilation error" := by
    intro h
    have hfirst := congrArg (fun s => s.toList.head?) (Option.some.inj h)
    simp [hp] at hfirst
  change _ ≠ some "(sqlalchemy.exc.ProgrammingError) SQL compilation error"
  cases v with
  | null => exact fun h => nomatch h
  | blob bs =>
    rw [embeddingError]
    split
    · exact fun h => nomatch h
    · split
      · exact hhead _ _ (by decide)
      · rw [String.append_assoc, String.append_assoc, String.append_assoc]
        exact hhead _ _ (by decide)
  | text s =>
    rw [embeddingError]
    split
    · exact fun h => nomatch h
    · exact hhead _ _ (by decide)
  | int n => exact fun h => absurd (Option.some.inj h) (by decide)
  | real x => exact fun h => absurd (Option.some.inj h) (by decide)

/-- A row whose embedding is three bytes long. -/
def brokenVector : Row :=
  [("rowid", .int 7), ("article_id", .text "A1"), ("embedding", .blob [0, 0, 0]),
    ("hashed_at", .text "2024-05-01T10:00:00+00:00")]

def vectorStart : VectorState where
  cloud :=
    { tables := AList.singleton "scraped_articles_vec_backup"
        { schema := Schemas.scrapedArticlesVecBackup.schema, rows := [] }
      indexes := ∅ }

def brokenRun : List VectorStep :=
  [.put (cloudWrite "scraped_articles_vec_backup" brokenVector (.one "rowid")), .take, .flush {},
    .take, .flush {}]

def brokenEnd : VectorState × List VectorBatch :=
  (Machine.run (Machine.traced (vectorStep vectorEnv) (calls vectorEnv)) (vectorStart, [])
    brokenRun).getD (vectorStart, [])

end Sync
