import AnythingTools.Sync.PushOutcome

namespace Sync
open Relational Relational.Database Schemas
set_option autoImplicit true

/-- The calls of a pull, each of which may fail. -/
inductive PullCall where
  | begin
  | upload (t : String)
  | readManifest (t : String)
  | diff (t : String)
  | write (t : String)
  | commit (t : String)
  | finish
deriving DecidableEq, Repr

inductive PullError where
  | sessionExpired
  | other
deriving DecidableEq, Repr

/-- An order in which a query without ORDER BY may return its rows. -/
structure RowOrder where
  sort : List Row → List Row
  perm : ∀ rows, (sort rows).Perm rows

def RowOrder.given : RowOrder := ⟨id, fun _ => .refl _⟩

/-- What one run of `_execute_pull` meets: the calls that fail, the order of the rows that it
fetches for a table, and the clock of the local database as it writes them. -/
structure Attempt where
  fails : PullCall → Option PullError := fun _ => none
  order : String → RowOrder := fun _ => .given
  now : String → String

def Attempt.call (a : Attempt) (c : PullCall) : Except PullError Unit :=
  match a.fails c with
  | some err => .error err
  | none => .ok ()

/-- A local read that fails is swallowed by the upload of the manifest. -/
def Attempt.engine (a : Attempt) : CloudEngine where
  fails
    | .readManifest t => (a.fails (.readManifest t)).isSome
    | _ => false
  now := ""

/-- The left join of the cloud table with the manifest: the rows without a partner, and those with
another hash. -/
def diffCloud (pkCols : List String) (hashed : Bool) (C : Table) (manifest : List ManifestRow) :
    List Row :=
  C.rows.flatMap fun c =>
    match manifest.filter fun m => joinsManifest pkCols m c with
    | [] => [c]
    | partners => (partners.filter fun m => hashDiffers hashed m c).map fun _ => c

/-- The records of one table are written in one transaction. -/
def writeRecords (a : Attempt) (t : String) (db : Database) (records : List Row) :
    Except PullError Database := do
  if records = [] then return db
  else
    a.call (.write t)
    match db.find t with
    | none => throw .other
    | some T =>
      match T.upsertAll (a.now t) records with
      | .error _ => throw .other
      | .ok T' =>
        a.call (.commit t)
        return db.update t fun _ => T'

def pullTable (e : Env) (cloud : Database) (a : Attempt) (t : String) (db : Database) :
    Except PullError Database := do
  let (pkCols, hashed) := detectPkColumns db t
  a.call (.upload t)
  let manifest := uploadLocalManifest a.engine db t pkCols hashed
  a.call (.diff t)
  match cloud.find t with
  | none => throw .other
  | some C =>
    if diffable cloud t pkCols hashed = true then
      let rows := (a.order t).sort (diffCloud pkCols hashed C manifest)
      writeRecords a t db (pullRecords e t { C with rows })
    else throw .other

/-- Each table is committed on its own: what was pulled before an error stays. -/
def executeTables (e : Env) (cloud : Database) (a : Attempt) :
    List (String × TableDdl) → Database → Database × Option PullError
  | [], db => (db, a.fails .finish)
  | (t, d) :: rest, db =>
    if isVirtual d then executeTables e cloud a rest db
    else
      match pullTable e cloud a t db with
      | .ok db' => executeTables e cloud a rest db'
      | .error err => (db, some err)

def executePull (e : Env) (cloud : Database) (a : Attempt) (db : Database) :
    Database × Option PullError :=
  match a.fails .begin with
  | some err => (db, some err)
  | none => executeTables e cloud a e.tables db

/-- A run that loses its session is repeated once. -/
def withSessionRecovery (fn : Attempt → Database → Database × Option PullError)
    (first retry : Attempt) (db : Database) : Database × Option PullError :=
  match fn first db with
  | (db', some .sessionExpired) => fn retry db'
  | result => result

/-- A call of `pull_to_local`, with the run that repeats the first one if it must. -/
structure Pull where
  first : Attempt
  retry : Attempt

/-- `pull_to_local` with a database that need not be empty. -/
def pullInto (e : Env) (cloud : Database) (p : Pull) (db : Database) :
    Database × Option PullError :=
  withSessionRecovery (executePull e cloud) p.first p.retry db

theorem call_of_none {a : Attempt} (h : a.fails c = none) : a.call c = .ok () := by
  rw [Attempt.call, h]

theorem writeRecords_ok (h : writeRecords a t db records = .ok db') (hT : db.find t = some T) :
    ∃ T', T.upsertAll (a.now t) records = .ok T' ∧ db'.find t = some T' ∧
      ∀ u, u ≠ t → db'.find u = db.find u := by
  rw [writeRecords] at h
  split at h
  next hnil =>
    cases h
    exact ⟨T, by rw [hnil]; rfl, hT, fun _ _ => rfl⟩
  · obtain ⟨_, _, h⟩ := bind_ok h
    rw [hT] at h
    dsimp only at h
    split at h
    · cases h
    next T' hu =>
      obtain ⟨_, _, h⟩ := bind_ok h
      cases h
      refine ⟨T', hu, ?_, fun u hne => find_update_ne db _ hne⟩
      rw [find_update_self, hT]
      rfl

/-- What a table holds after its pull. -/
theorem pullTable_ok (h : pullTable e cloud a t db = .ok db') (hT : db.find t = some T)
    (hd : detectPkColumns db t = (pkCols, hashed)) :
    ∃ C T', cloud.find t = some C ∧ diffable cloud t pkCols hashed = true ∧
      T.upsertAll (a.now t) (pullRecords e t { C with rows := (a.order t).sort (diffCloud pkCols
        hashed C (uploadLocalManifest a.engine db t pkCols hashed)) }) = .ok T' ∧
      db'.find t = some T' ∧ ∀ u, u ≠ t → db'.find u = db.find u := by
  rw [pullTable, hd] at h
  dsimp only at h
  obtain ⟨_, _, h⟩ := bind_ok h
  obtain ⟨_, _, h⟩ := bind_ok h
  split at h
  · cases h
  next C hC =>
    split at h
    next hdiff =>
      obtain ⟨T', hu, hfind, hframe⟩ := writeRecords_ok h hT
      exact ⟨C, T', hC, hdiff, hu, hfind, hframe⟩
    · cases h

end Sync
