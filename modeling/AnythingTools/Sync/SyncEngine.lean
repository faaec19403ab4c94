import AnythingTools.Relational.Order
import AnythingTools.Sync.SafetyNet

namespace Sync
open Relational Relational.Database Schemas
set_option autoImplicit true

def defaultWatermark : Value := .text "1970-01-01T00:00:00"

/-- The completion times of the ledger that count for a table. -/
def completedAt (db : Database) (tableName : String) : List Value :=
  ((db.rows "sync_ledger").filter fun r => decide (r.get "state" = .text "COMPLETED") &&
    (decide (r.get "table_name" = .text tableName) || decide (r.get "table_name" = .text "ALL"))).map
      fun r => r.get "completed_at"

def getTableWatermark (db : Database) (tableName : String) : Value :=
  let val := sqlMax (completedAt db tableName)
  if Python.truthy val = true then val else defaultWatermark

/-- `updated_at > ?`. -/
def isPending (watermark : Value) (r : Row) : Bool := sqlLt watermark (r.get "updated_at")

/-- The rows above the watermark; of a table without `updated_at` all of them. -/
def pendingDeltaRows (db : Database) (delta : Bool) (p : String × TableDdl) : Nat :=
  match db.find p.1 with
  | none => 0
  | some T =>
    if "updated_at" ∈ p.2.schema.names ∧ "updated_at" ∈ T.schema.names then
      T.rows.countP (isPending (if delta then getTableWatermark db p.1 else defaultWatermark))
    else T.rows.length

def totalPendingRows (tables : List (String × TableDdl)) (delta : Bool) (db : Database) : Nat :=
  ((tables.filter fun p => !isVirtual p.2).map (pendingDeltaRows db delta)).sum

/-- How a run of `sync_all` ended; an error of the push is only recorded. -/
structure SyncAll where
  cloud : Database
  cloudError : Option Python.Error := none
  completed : Bool := false

def syncAll (engine : CloudEngine) (settings : SyncSettings) (tables : List (String × TableDdl))
    (delta : Bool) (reads : String → Reads) (db cloud : Database) : SyncAll :=
  if engine.enabled = false then { cloud }
  else if totalPendingRows tables delta db = 0 then { cloud }
  else
    match syncData engine settings tables reads cloud with
    | .ok cloud' => { cloud := cloud', completed := true }
    | .error err => { cloud, cloudError := some err }

inductive SyncAction where
  | pushOnly
  | bidirectional
  | pullOnly
  | skip
  | abort
deriving DecidableEq, Repr

structure SyncDecision where
  action : SyncAction
  divergenceDetected : Bool := false
  hitlRequired : Bool := false
  recommendedStrategy : Strategy := .operationalWins
deriving DecidableEq, Repr

def computeLocalProofs (tables : List (String × TableDdl)) (db : Database) : List (String × Int) :=
  (tables.filter fun p => !isVirtual p.2).map fun p => (p.1, (db.rows p.1).length)

/-- A table that the cloud does not have counts for minus one. -/
def computeCloudProofs (engine : CloudEngine) (tables : List (String × TableDdl))
    (cloud : Database) : List (String × Int) :=
  if engine.enabled = true then
    (tables.filter fun p => !isVirtual p.2).map fun p =>
      (p.1, if (cloud.find p.1).isSome then ((cloud.rows p.1).length : Int) else -1)
  else []

def hasData (proofs : List (String × Int)) : Bool := proofs.any fun p => decide (0 < p.2)

def decideStartupAction (localProofs cloudProofs : List (String × Int)) : SyncDecision :=
  if cloudProofs = [] then { action := .skip }
  else
    match hasData localProofs, hasData cloudProofs with
    | false, false => { action := .skip }
    | false, true =>
      { action := .pullOnly, divergenceDetected := true, hitlRequired := true
        recommendedStrategy := .cloudWins }
    | true, false => { action := .pushOnly }
    | true, true =>
      if localProofs.all fun p => decide (p.2 = (cloudProofs.lookup p.1).getD 0) then
        { action := .skip }
      else
        { action := .bidirectional, divergenceDetected := true, hitlRequired := true
          recommendedStrategy := .newestOverallWins }

/-- What a start goes on to do; the operator chooses a strategy where one is asked for. -/
inductive StartupRun where
  | idle
  | pushed (r : SyncAll)
  | restore
  | bidirectional (strategy : Strategy)

def startupRun (engine : CloudEngine) (settings : SyncSettings)
    (tables : List (String × TableDdl)) (prompt : Strategy) (db cloud : Database)
    (decision : SyncDecision) : StartupRun :=
  match decision.action with
  | .pushOnly => .pushed (syncAll engine settings tables true (fun _ => .still db) db cloud)
  | .pullOnly =>
    if decision.hitlRequired = true ∧ (prompt = .cloudWins ∨ prompt = .newestOverallWins) then
      .restore
    else .idle
  | .bidirectional =>
    if decision.hitlRequired = true ∧ prompt ≠ .abort then .bidirectional prompt else .idle
  | _ => .idle

def startupDecision (engine : CloudEngine) (tables : List (String × TableDdl))
    (db cloud : Database) : SyncDecision :=
  decideStartupAction (computeLocalProofs tables db) (computeCloudProofs engine tables cloud)

def syncStartup (engine : CloudEngine) (settings : SyncSettings)
    (tables : List (String × TableDdl)) (prompt : Strategy) (db cloud : Database) : StartupRun :=
  startupRun engine settings tables prompt db cloud (startupDecision engine tables db cloud)

/-- The row of the ledger that a completed run writes. -/
def ledgerEntry (nowIso : String) (pushedTotal : Nat) : Row :=
  [("operation_id", .text nowIso), ("table_name", .text "ALL"),
    ("direction", .text "LOCAL_TO_CLOUD"), ("row_count", .int pushedTotal),
    ("state", .text "COMPLETED"), ("completed_at", .text nowIso)]

end Sync
