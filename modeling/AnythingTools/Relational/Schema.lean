import AnythingTools.Relational.Affinity

namespace Relational
set_option autoImplicit true

/-- The DEFAULT clause of a column. -/
inductive Default where
  | currentTimestamp
  | int (n : Int)
  | text (s : String)
deriving DecidableEq, Repr

/-- A column as `PRAGMA table_info` reports it; `pk` is its 1-based place in the primary key. -/
structure Column where
  name : String
  type : String
  notnull : Bool := false
  dfltValue : Option Default := none
  pk : Nat := 0
deriving DecidableEq, Repr

/-- `CHECK (column IN (...))`. -/
structure Check where
  column : String
  allowed : List String
deriving DecidableEq, Repr

/-- `FOREIGN KEY (column) REFERENCES refTable(refColumn) ON DELETE CASCADE`. -/
structure ForeignKey where
  column : String
  refTable : String
  refColumn : String
deriving DecidableEq, Repr

/-- What `CREATE TABLE` declares. A virtual table names its module. -/
structure Schema where
  columns : List Column
  uniques : List (List String) := []
  checks : List Check := []
  foreignKeys : List ForeignKey := []
  module : Option String := none
deriving DecidableEq, Repr

structure Table where
  schema : Schema
  rows : List Row
deriving DecidableEq, Repr

/-- What an index orders by. -/
inductive IndexTerm where
  | column (name : String)
  | expr (sql : String)
deriving DecidableEq, Repr

structure Index where
  table : String
  terms : List IndexTerm
deriving DecidableEq, Repr

abbrev Tables := AList fun _ : String => Table

/-- Tables and indexes, each under a name that is unique in the database. -/
structure Database where
  tables : Tables
  indexes : AList fun _ : String => Index

/-- Apply a function to every entry of a catalog. -/
def mapVals (f : String → α → β) (s : AList fun _ : String => α) : AList fun _ : String => β where
  entries := s.entries.map fun e => ⟨e.1, f e.1 e.2⟩
  nodupKeys := by
    have h := s.nodupKeys
    simpa only [List.NodupKeys, List.keys, List.map_map, Function.comp_def] using h

@[simp] theorem lookup_mapVals (f : String → α → β) (s : AList fun _ : String => α)
    (a : String) : (mapVals f s).lookup a = (s.lookup a).map (f a) := by
  have h := @List.dlookup_map _ _ (fun _ => α) (fun _ => β) _ _ s.entries _
    Function.injective_id f a
  exact h

def Schema.names (S : Schema) : List String := S.columns.map Column.name

def Schema.primaryKey (S : Schema) : List String :=
  (S.columns.filter fun c => decide (0 < c.pk)).map Column.name

/-- The column sets on which two rows may not coincide. -/
def Schema.keys (S : Schema) : List (List String) :=
  (S.primaryKey :: S.uniques).filter fun k => decide (k ≠ [])

def Schema.conflicts (S : Schema) (r r' : Row) : Bool := S.keys.any fun k => Row.sameKey k r r'

theorem Schema.conflicts_iff : Schema.conflicts S r r' = true ↔
    ∃ k ∈ S.keys, Row.sameKey k r r' = true := by
  simp only [Schema.conflicts, List.any_eq_true]

theorem Schema.conflicts_comm (S : Schema) (r r' : Row) :
    S.conflicts r r' = S.conflicts r' r := by
  simp only [Schema.conflicts, Row.sameKey_comm]

theorem Schema.conflicts_of_primaryKey {S : Schema} (h : S.primaryKey ≠ [])
    (hk : Row.sameKey S.primaryKey r r' = true) : S.conflicts r r' = true := by
  rw [Schema.conflicts_iff]
  refine ⟨S.primaryKey, ?_, hk⟩
  simp only [Schema.keys, List.mem_filter, List.mem_cons, true_or, decide_eq_true_eq, true_and]
  exact h

/-- A NULL satisfies a check. -/
def Check.holds (k : Check) (r : Row) : Bool :=
  match r.get k.column with
  | .null => true
  | .text s => k.allowed.contains s
  | _ => false

/-- The NOT NULL constraints of one row. -/
def Schema.notNulls (S : Schema) (r : Row) : Bool :=
  S.columns.all fun c => !c.notnull || decide (r.get c.name ≠ .null)

/-- The NOT NULL and CHECK constraints of one row. -/
def Schema.admits (S : Schema) (r : Row) : Bool :=
  S.notNulls r && S.checks.all fun k => k.holds r

/-- The columns that may not be NULL. -/
def Schema.notNullNames (S : Schema) : List String :=
  (S.columns.filter fun c => c.notnull).map Column.name

theorem Schema.mem_notNullNames : n ∈ Schema.notNullNames S ↔
    ∃ c ∈ S.columns, c.notnull = true ∧ c.name = n := by
  simp only [Schema.notNullNames, List.mem_map, List.mem_filter, and_assoc]

theorem Schema.notNulls_iff : Schema.notNulls S r = true ↔
    ∀ n ∈ S.notNullNames, Row.get r n ≠ .null := by
  simp only [Schema.notNulls, List.all_eq_true, Bool.or_eq_true, Bool.not_eq_true',
    decide_eq_true_eq, mem_notNullNames]
  constructor
  · rintro h n ⟨c, hc, hnn, rfl⟩
    rcases h c hc with hf | hne
    · rw [hnn] at hf
      cases hf
    · exact hne
  · intro h c hc
    cases hnn : c.notnull with
    | false => exact .inl rfl
    | true => exact .inr (h c.name ⟨c, hc, hnn, rfl⟩)

theorem Schema.admits_iff : Schema.admits S r = true ↔
    (∀ c ∈ S.columns, c.notnull = true → Row.get r c.name ≠ .null) ∧
      ∀ k ∈ S.checks, k.holds r = true := by
  rw [Schema.admits, Bool.and_eq_true, notNulls_iff, List.all_eq_true]
  constructor
  · exact fun ⟨hn, hk⟩ => ⟨fun c hc hnn => hn c.name (mem_notNullNames.2 ⟨c, hc, hnn, rfl⟩), hk⟩
  · rintro ⟨hn, hk⟩
    refine ⟨fun n hm => ?_, hk⟩
    obtain ⟨c, hc, hnn, rfl⟩ := mem_notNullNames.1 hm
    exact hn c hc hnn

/-- A child row refers to a parent row; a NULL reference refers to nothing. -/
def ForeignKey.links (f : ForeignKey) (child parent : Row) : Bool :=
  decide (child.get f.column ≠ .null) &&
    decide (child.get f.column = parent.get f.refColumn)

theorem ForeignKey.links_iff : ForeignKey.links f c p = true ↔
    c.get f.column ≠ .null ∧ c.get f.column = p.get f.refColumn := by
  simp only [ForeignKey.links, Bool.and_eq_true, decide_eq_true_eq]

/-- The value a column takes when a statement gives none. -/
def Default.value (now : String) : Default → Value
  | .currentTimestamp => .text now
  | .int n => .int n
  | .text s => .text s

theorem Default.value_ne_null (now : String) (d : Default) : d.value now ≠ .null := by
  cases d <;> exact Value.noConfusion

def Column.default (now : String) (c : Column) : Value :=
  (c.dfltValue.map (Default.value now)).getD .null

namespace Database

def find (db : Database) (t : String) : Option Table := db.tables.lookup t

/-- The rows of a table; a missing table has none. -/
def rows (db : Database) (t : String) : List Row :=
  match db.find t with
  | some T => T.rows
  | none => []

/-- A table or an index already has the name. -/
def taken (db : Database) (n : String) : Bool :=
  (db.find n).isSome || (db.indexes.lookup n).isSome

theorem rows_of_find (h : find db t = some T) : rows db t = T.rows := by
  simp only [rows, h]

theorem rows_of_none (h : find db t = none) : rows db t = [] := by
  simp only [rows, h]

theorem mem_rows (h : r ∈ rows db t) : ∃ T, find db t = some T ∧ r ∈ T.rows := by
  cases hf : find db t with
  | none => rw [rows_of_none hf] at h; cases h
  | some T => rw [rows_of_find hf] at h; exact ⟨T, rfl, h⟩

/-- A database of empty tables. -/
def ofSchemas (l : List (String × Schema)) : Database where
  tables := l.foldl (fun m p => m.insert p.1 { schema := p.2, rows := [] }) ∅
  indexes := ∅

theorem rows_ofSchemas (l : List (String × Schema)) (t : String) : rows (ofSchemas l) t = [] := by
  have hempty (m : Tables) (h : ∀ t T, m.lookup t = some T → T.rows = []) :
      ∀ t T, (l.foldl (fun m p => m.insert p.1 { schema := p.2, rows := [] }) m).lookup t = some T →
        T.rows = [] := by
    induction l generalizing m with
    | nil => exact h
    | cons p l ih =>
      apply ih
      intro t T ht
      by_cases he : t = p.1
      · rw [he, AList.lookup_insert] at ht
        cases ht
        rfl
      · rw [AList.lookup_insert_ne he] at ht
        exact h t T ht
  cases hf : find (ofSchemas l) t with
  | none => exact rows_of_none hf
  | some T =>
    rw [rows_of_find hf]
    exact hempty ∅ (fun t T ht => by cases ht) t T hf

theorem find_ofSchemas (hn : (l.map Prod.fst).Nodup) (hp : p ∈ l) :
    find (ofSchemas l) p.1 = some { schema := p.2, rows := [] } := by
  have hkept (l : List (String × Schema)) (m : Tables) (t : String) (ht : t ∉ l.map Prod.fst) :
      (l.foldl (fun m p => m.insert p.1 { schema := p.2, rows := [] }) m).lookup t =
        m.lookup t := by
    induction l generalizing m with
    | nil => rfl
    | cons q l ih =>
      rw [List.map_cons, List.mem_cons, not_or] at ht
      rw [List.foldl_cons, ih _ ht.2, AList.lookup_insert_ne ht.1]
  have hstored (m : Tables) :
      (l.foldl (fun m p => m.insert p.1 { schema := p.2, rows := [] }) m).lookup p.1 =
        some { schema := p.2, rows := [] } := by
    induction l generalizing m with
    | nil => cases hp
    | cons q l ih =>
      rw [List.map_cons, List.nodup_cons] at hn
      rw [List.foldl_cons]
      rcases List.mem_cons.1 hp with he | hm
      · subst he
        rw [hkept l _ p.1 hn.1, AList.lookup_insert]
      · exact ih hn.2 hm _
  exact hstored ∅

/-- Apply a function to one table. -/
def update (db : Database) (t : String) (f : Table → Table) : Database :=
  { db with tables := mapVals (fun n T => if n = t then f T else T) db.tables }

@[simp] theorem find_update_self (db : Database) (t : String) (f : Table → Table) :
    (db.update t f).find t = (db.find t).map f := by
  simp only [update, find, lookup_mapVals, ↓reduceIte]

theorem find_update_ne (db : Database) (f : Table → Table) (h : u ≠ t) :
    (db.update t f).find u = db.find u := by
  simp only [update, find, lookup_mapVals, if_neg h, Option.map_id']

@[simp] theorem indexes_update (db : Database) (t : String) (f : Table → Table) :
    (db.update t f).indexes = db.indexes := rfl

end Database

end Relational
