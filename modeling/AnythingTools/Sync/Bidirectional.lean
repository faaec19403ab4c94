import AnythingTools.Relational.Transaction
import AnythingTools.Sync.DiffEngine
import AnythingTools.Sync.PullToLocal

namespace Sync
open Relational Schemas
set_option autoImplicit true

inductive Strategy where
  | operationalWins
  | cloudWins
  | newestOverallWins
  | abort
deriving DecidableEq, Repr

inductive Verdict where
  | operational
  | cloud
  | manual
  | skip
deriving DecidableEq, Repr

def resolveConflict (c : Conflict) : Strategy → Verdict
  | .operationalWins => .operational
  | .cloudWins => .cloud
  | .newestOverallWins =>
    if c.classification = .timestampDrift then
      if c.cloudTs < c.opTs then .operational else .cloud
    else if c.cloudTs < c.opTs then .operational
    else if c.opTs < c.cloudTs then .cloud
    else .manual
  | .abort => .manual

/-- The settings of a run and the operator's answers in it. -/
structure SyncOptions where
  defaultStrategy : Strategy := .newestOverallWins
  interactive : Bool := false
  autoAcceptOnNoConflict : Bool := true
  prompt : Strategy := .abort
  waitForOperator : String → Conflict → Verdict := fun _ _ => .skip
  cloudEnabled : Bool := true

def verdict (o : SyncOptions) (strategy : Strategy) (t : String) (c : Conflict) : Verdict :=
  match resolveConflict c strategy with
  | .manual => o.waitForOperator t c
  | v => v

/-- The rows of a staged table that one of the keys selects. -/
def selectKeys (temp : Database) (t : String) (keys : List Row) : List Row :=
  match temp.find t with
  | none => []
  | some T => T.rows.filter fun r => keys.any fun k => T.schema.matchesKey k r

/-- The statement that writes a staged row, column by column. -/
def insertOrReplace (temp : Database) (t : String) (r : Row) : Stmt :=
  match temp.find t with
  | none => .replace t r
  | some T => .replace t (Row.build T.schema.names r.get)

/-- The values that a key text stands for. A text that is no JSON is skipped, a value without
a length raises. -/
def loadKey (id : String) : Except Python.Error (Option (List Json)) :=
  match Json.loads id with
  | none => .ok none
  | some v =>
    match v.items with
    | none => .error .typeError
    | some xs => .ok (some xs)

def bindKey (pkCol : List String) (xs : List Json) : Except Python.Error Row :=
  (xs.mapM Python.bind).map fun vs => pkCol.zip vs

/-- The key of a composite text, if it has the right number of values. -/
def decodeKey (pkCol : List String) (id : String) : Except Python.Error (Option Row) := do
  match ← loadKey id with
  | none => return none
  | some xs =>
    if xs.length = pkCol.length then return some (← bindKey pkCol xs) else return none

theorem decodeKey_some {id : String} (h : decodeKey pkCol id = .ok (some key)) :
    ∃ v xs vs, Json.loads id = some v ∧ v.items = some xs ∧ xs.length = pkCol.length ∧
      xs.mapM Python.bind = .ok vs ∧ key = pkCol.zip vs := by
  rw [decodeKey, loadKey] at h
  cases hv : Json.loads id with
  | none =>
    rw [hv] at h
    cases h
  | some v =>
    cases hi : v.items with
    | none =>
      simp only [hv, hi] at h
      cases h
    | some xs =>
      simp only [hv, hi] at h
      change (if xs.length = pkCol.length then _ else _) = _ at h
      split at h
      case isFalse => cases h
      case isTrue hx =>
        rw [bindKey] at h
        cases hb : xs.mapM Python.bind with
        | error e =>
          rw [hb] at h
          cases h
        | ok vs =>
          rw [hb] at h
          cases h
          exact ⟨v, xs, vs, rfl, hi, hx, hb, rfl⟩

def decodeKeys (pkCol : List String) : List String → Except Python.Error (List Row)
  | [] => .ok []
  | id :: ids => do
    let k ← decodeKey pkCol id
    let ks ← decodeKeys pkCol ids
    return k.toList ++ ks

/-- The inserts that restore the rows the cloud alone has. -/
def restoreStatements (temp : Database) (t : String) (pkCol ids : List String) :
    Except Python.Error (List Stmt) :=
  match pkCol with
  | [pk] =>
    .ok ((Python.chunks 900 ids).flatMap fun chunk =>
      (selectKeys temp t (chunk.map fun id => [(pk, .text id)])).map (insertOrReplace temp t))
  | _ =>
    let chunkSize := 900 / max 1 pkCol.length
    if chunkSize = 0 ∧ ids ≠ [] then .error .valueError
    else do
      let keys ← (Python.chunks chunkSize ids).mapM (decodeKeys pkCol)
      return keys.flatMap fun ks => (selectKeys temp t ks).map (insertOrReplace temp t)

/-- The deletes of the rows the operational side alone has; a key that cannot be bound fails
when its statement is executed. -/
def deleteStatements (t : String) (pkCol : List String) :
    List String → Except Python.Error (List (Except Python.Error Stmt))
  | [] => .ok []
  | id :: ids => do
    let rest ← deleteStatements t pkCol ids
    match pkCol with
    | [pk] => return .ok (.delete t [(pk, .text id)]) :: rest
    | _ =>
      match ← loadKey id with
      | none => return rest
      | some xs =>
        if xs.length = pkCol.length then return (bindKey pkCol xs).map (.delete t) :: rest
        else return rest

/-- The staged row of a conflict. No arity is checked before the key is bound. -/
def conflictRow (temp : Database) (t : String) (pkCol : List String) (c : Conflict) :
    Except Python.Error (Option Row) :=
  match pkCol with
  | [pk] => .ok (selectKeys temp t [[(pk, .text c.id)]]).head?
  | _ => do
    match ← loadKey c.id with
    | none => return none
    | some xs =>
      let key ← bindKey pkCol xs
      if xs.length = pkCol.length then return (selectKeys temp t [key]).head?
      else throw .programming

def conflictStatements (o : SyncOptions) (strategy : Strategy) (temp : Database) (t : String)
    (pkCol : List String) : List Conflict → Except Python.Error (List Stmt)
  | [] => .ok []
  | c :: cs =>
    if verdict o strategy t c = .cloud then do
      let r ← conflictRow temp t pkCol c
      let rest ← conflictStatements o strategy temp t pkCol cs
      return (r.map (insertOrReplace temp t)).toList ++ rest
    else conflictStatements o strategy temp t pkCol cs

/-- What one table adds to `op_transactions`. -/
def tableStatements (o : SyncOptions) (strategy : Strategy) (temp : Database) (t : String)
    (d : Deltas) : Except Python.Error (List (Except Python.Error Stmt)) := do
  let restored ← (if strategy = .cloudWins ∨ strategy = .newestOverallWins then
      restoreStatements temp t d.pkCol d.cloudOnly
    else .ok [])
  let deleted ← (if strategy = .cloudWins then deleteStatements t d.pkCol d.opOnly else .ok [])
  let resolved ← conflictStatements o strategy temp t d.pkCol d.genuineConflicts
  return restored.map .ok ++ deleted ++ resolved.map .ok

/-- The tables that are compared: no virtual ones and none without `updated_at`. -/
def triadTables (tables : List (String × TableDdl)) : List String :=
  (tables.filter fun p => !isVirtual p.2 && decide ("updated_at" ∈ p.2.schema.names)).map Prod.fst

def triadDeltas (e : Env) (db temp : Database) : List (String × Deltas) :=
  (triadTables e.tables).map fun t => (t, computeDeltas e.parseTs db temp t)

/-- The strategy of a run, asked from the operator unless the settings bypass the question. -/
def selectStrategy (o : SyncOptions) (triad : List (String × Deltas)) : Strategy :=
  let totalConflicts : Nat := (triad.map fun p => p.2.genuineConflicts.length).sum
  let totalCloudOnly : Nat := (triad.map fun p => p.2.cloudOnly.length).sum
  if o.interactive = false then o.defaultStrategy
  else if o.autoAcceptOnNoConflict = true ∧ totalConflicts = 0 ∧ totalCloudOnly = 0 then
    .operationalWins
  else o.prompt

def opTransactions (o : SyncOptions) (strategy : Strategy) (temp : Database) :
    List (String × Deltas) → Except Python.Error (List (Except Python.Error Stmt))
  | [] => .ok []
  | (t, d) :: rest => do
    let ss ← tableStatements o strategy temp t d
    let rest ← opTransactions o strategy temp rest
    return ss ++ rest

/-- The statements that a run hands to the writer as one transaction. -/
def bidirectionalStatements (e : Env) (o : SyncOptions) (db temp : Database) :
    Except Python.Error (List (Except Python.Error Stmt)) :=
  let triad := triadDeltas e db temp
  let strategy := selectStrategy o triad
  if strategy = .abort then .ok [] else opTransactions o strategy temp triad

/-- What a bidirectional run stages: nothing when there is no cloud. -/
def stagedFor (e : Env) (o : SyncOptions) (cloud : Database) : Except SqlError Database :=
  if o.cloudEnabled = true then pullToLocal e cloud else .ok (stagingTables e)

end Sync
