import AnythingTools.Relational.Ddl
import AnythingTools.Relational.Transaction
import AnythingTools.Relational.Upsert
import AnythingTools.Session

namespace Relational
set_option autoImplicit true

/-- Keep the entries of a catalog that pass the test. -/
def filterVals (p : α → Bool) (s : AList fun _ : String => α) : AList fun _ : String => α where
  entries := s.entries.filter fun e => p e.2
  nodupKeys := s.nodupKeys.sublist List.filter_sublist

@[simp] theorem lookup_filterVals (p : α → Bool) (s : AList fun _ : String => α) (a : String) :
    (filterVals p s).lookup a = (s.lookup a).filter p := by
  apply Option.ext
  intro b
  rw [Option.filter_eq_some_iff]
  have hl := @AList.mem_lookup_iff _ _ _ a b (filterVals p s)
  have hs := @AList.mem_lookup_iff _ _ _ a b s
  rw [Option.mem_def] at hl hs
  rw [hl, hs]
  exact List.mem_filter

def ForeignKey.retarget (a b : String) (f : ForeignKey) : ForeignKey :=
  if f.refTable = a then { f with refTable := b } else f

/-- Renaming a table renames it in every reference. -/
def Schema.retarget (a b : String) (S : Schema) : Schema :=
  { S with foreignKeys := S.foreignKeys.map (ForeignKey.retarget a b) }

def Table.retarget (a b : String) (T : Table) : Table :=
  { T with schema := T.schema.retarget a b }

/-- The row a plain `INSERT` stores: only a column it leaves out takes its default. -/
def Schema.fill (S : Schema) (now : String) (r : Row) : Row :=
  Row.build S.names fun n =>
    match S.column? n with
    | none => .null
    | some c => if n ∈ r.columns then r.get n else c.default now

def Table.insert (now : String) (T : Table) (r : Row) : Except SqlError Table :=
  let row := T.assign (T.schema.fill now r)
  if T.schema.admits row = true ∧ ¬ T.rows.any (T.schema.conflicts row) = true then
    .ok { T with rows := T.rows ++ [row] }
  else .error .constraint

def Table.insertAll (now : String) (T : Table) : List Row → Except SqlError Table
  | [] => .ok T
  | r :: rs =>
    match T.insert now r with
    | .ok T' => T'.insertAll now rs
    | .error e => .error e

namespace Database

/-- Tables and indexes have names apart, and every index is on a table. -/
structure Wf (db : Database) : Prop where
  apart : ∀ {n T}, db.find n = some T → db.indexes.lookup n = none
  onTable : ∀ {n ix}, db.indexes.lookup n = some ix → (db.find ix.table).isSome = true

/-- The indexes of a table, by name. -/
def indexesOn (db : Database) (t n : String) : Option Index :=
  (db.indexes.lookup n).filter fun ix => decide (ix.table = t)

def createTable (db : Database) (ifNotExists : Bool) (t : String) (S : Schema) :
    Except SqlError Database :=
  match db.find t with
  | some _ => if ifNotExists then .ok db else .error (.nameTaken t)
  | none =>
    if (db.indexes.lookup t).isSome then .error (.nameTaken t)
    else .ok { db with tables := db.tables.insert t { schema := S, rows := [] } }

def createIndex (db : Database) (t : String) (d : IndexDdl) : Except SqlError Database :=
  match db.find t with
  | none => .error (.noSuchTable t)
  | some T =>
    if (db.find d.name).isSome then .error (.nameTaken d.name)
    else if (db.indexes.lookup d.name).isSome then
      if d.ifNotExists then .ok db else .error (.nameTaken d.name)
    else if d.terms.all fun m => match m with
        | .column c => decide (c ∈ T.schema.names)
        | .expr _ => true
      then .ok { db with indexes := db.indexes.insert d.name { table := t, terms := d.terms } }
    else .error (.noSuchColumn d.name)

/-- One statement of a table script. -/
inductive DdlStmt where
  | table (ifNotExists : Bool) (t : String) (S : Schema)
  | index (t : String) (d : IndexDdl)
deriving DecidableEq, Repr

def execDdl (db : Database) : DdlStmt → Except SqlError Database
  | .table ifNotExists t S => db.createTable ifNotExists t S
  | .index t d => db.createIndex t d

/-- The statements of a script, each one lasting whatever becomes of the next. -/
def executescript (ss : List DdlStmt) : Session Database SqlError Unit :=
  ss.forM fun s => Session.stmt fun db => db.execDdl s

/-- `DROP TABLE IF EXISTS`; where foreign keys are enforced, its rows are deleted first. -/
def dropTable (db : Database) (enforced : Bool) (t : String) : Database :=
  let db' := if enforced then db.deleteRows t fun _ => true else db
  { tables := db'.tables.erase t
    indexes := filterVals (fun ix => decide (ix.table ≠ t)) db'.indexes }

/-- `ALTER TABLE a RENAME TO b`: indexes and references follow the table. -/
def renameTable (db : Database) (a b : String) : Except SqlError Database :=
  match db.find a with
  | none => .error (.noSuchTable a)
  | some T =>
    if db.taken b then .error (.nameTaken b)
    else
      let tables := mapVals (fun _ U => U.retarget a b) db.tables
      .ok { tables := (tables.erase a).insert b (T.retarget a b)
            indexes := mapVals (fun _ ix => if ix.table = a then { ix with table := b } else ix)
              db.indexes }

/-- `INSERT INTO t (...) SELECT ...`: all the rows or none. -/
def insertRows (now : String) (db : Database) (t : String) (rs : List Row) :
    Except SqlError Database :=
  match db.find t with
  | none => .error (.noSuchTable t)
  | some T =>
    match T.insertAll now rs with
    | .error e => .error e
    | .ok T' =>
      let db' := db.update t fun _ => T'
      if (T'.rows.drop T.rows.length).all fun r => db'.parentsPresent T.schema r then .ok db'
      else .error .foreignKey

/-- `UPDATE t SET c = v WHERE ...`: all the rows or none. -/
def updateWhere (db : Database) (t c : String) (v : Value) (p : Row → Bool) :
    Except SqlError Database :=
  match db.find t with
  | none => .error (.noSuchTable t)
  | some T =>
    if c ∉ T.schema.names then .error (.noSuchColumn c)
    else
      let rows := T.rows.map fun r => if p r then r.set c v else r
      let db' := db.update t fun T => { T with rows }
      if (rows.all T.schema.admits) = true ∧ rows.Pairwise (fun r r' => ¬ T.schema.conflicts r r') then
        if ((T.rows.filter p).map fun r => r.set c v).all (db'.parentsPresent T.schema) then .ok db'
        else .error .foreignKey
      else .error .constraint

theorem renameTable_ok (h : renameTable db a b = .ok db') :
    ∃ T, db.find a = some T ∧ db.taken b = false ∧ db'.find b = some (T.retarget a b) ∧
      (∀ u, u ≠ b → db'.find u = if u = a then none else (db.find u).map (Table.retarget a b)) ∧
      ∀ n, db'.indexes.lookup n =
        (db.indexes.lookup n).map fun ix => if ix.table = a then { ix with table := b } else ix := by
  rw [renameTable] at h
  cases hT : db.find a with
  | none =>
    rw [hT] at h
    cases h
  | some T =>
    rw [hT] at h
    dsimp only at h
    split at h
    case isTrue => cases h
    case isFalse ht =>
      cases h
      refine ⟨T, rfl, by simpa using ht, AList.lookup_insert _, ?_, ?_⟩
      · intro u hu
        rw [find, AList.lookup_insert_ne hu]
        by_cases ha : u = a
        · subst u
          rw [AList.lookup_erase, if_pos rfl]
        · rw [AList.lookup_erase_ne ha, lookup_mapVals, if_neg ha]
          rfl
      · intro n
        exact lookup_mapVals _ _ _

theorem find_dropTable_self (db : Database) (enforced : Bool) (t : String) :
    (db.dropTable enforced t).find t = none :=
  AList.lookup_erase t _

theorem find_dropTable_ne (db : Database) (enforced : Bool) (h : u ≠ t) :
    (db.dropTable enforced t).find u =
      (if enforced then db.deleteRows t fun _ => true else db).find u :=
  AList.lookup_erase_ne h

@[simp] theorem indexes_deleteRows (db : Database) (t : String) (p : Row → Bool) :
    (db.deleteRows t p).indexes = db.indexes := rfl

theorem indexes_dropTable (db : Database) (enforced : Bool) (t n : String) :
    (db.dropTable enforced t).indexes.lookup n =
      (db.indexes.lookup n).filter fun ix => decide (ix.table ≠ t) := by
  cases enforced <;> exact lookup_filterVals _ _ _

end Database
end Relational
