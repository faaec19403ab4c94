import AnythingTools.Relational.Frame

namespace Relational
set_option autoImplicit true

/-- SQLite adds a column to rows that are there only with a constant default. -/
def Table.takes (T : Table) (c : Column) : Bool :=
  T.rows.isEmpty ||
    match c.dfltValue with
    | none => !c.notnull
    | some .currentTimestamp => false
    | some _ => true

/-- A column that `DROP COLUMN` refuses: one of a key, a reference or an index, or the last. -/
def Database.holdsColumn (db : Database) (t : String) (T : Table) (c : String) : Bool :=
  decide (c ∈ T.schema.primaryKey) || T.schema.uniques.any (fun u => decide (c ∈ u)) ||
    T.schema.foreignKeys.any (fun f => decide (f.column = c)) ||
    db.indexes.entries.any (fun e => decide (e.2.table = t) && e.2.terms.contains (.column c)) ||
    decide (T.schema.names = [c])

namespace Database

/-- `ALTER TABLE t ADD COLUMN`. -/
def addColumn (db : Database) (t : String) (c : Column) : Except SqlError Database :=
  match db.find t with
  | none => .error (.noSuchTable t)
  | some T =>
    if c.name ∈ T.schema.names then .error (.nameTaken c.name)
    else if T.takes c = true then
      .ok (db.update t fun T =>
        { schema := { T.schema with columns := T.schema.columns ++ [c] }
          rows := T.rows.map fun r => r.add c.name (c.default "") })
    else .error .refused

/-- `ALTER TABLE t DROP COLUMN`. -/
def dropColumn (db : Database) (t c : String) : Except SqlError Database :=
  match db.find t with
  | none => .error (.noSuchTable t)
  | some T =>
    if c ∉ T.schema.names then .error (.noSuchColumn c)
    else if db.holdsColumn t T c = true then .error .refused
    else
      .ok (db.update t fun T =>
        { schema := { T.schema with
            columns := T.schema.columns.filter fun d => decide (d.name ≠ c)
            checks := T.schema.checks.filter fun k => decide (k.column ≠ c) }
          rows := T.rows.map fun r => r.drop c })

/-- `DROP INDEX IF EXISTS`. -/
def dropIndex (db : Database) (n : String) : Database := { db with indexes := db.indexes.erase n }

end Database

/-- The rows of the first table are in the second, with the same cells in the columns that matter. -/
structure Table.Keeps (cols : String → Prop) (T T' : Table) : Prop where
  names : ∀ c ∈ T.schema.names, cols c → c ∈ T'.schema.names
  rows : ∀ r ∈ T.rows, ∃ r' ∈ T'.rows, ∀ c ∈ T.schema.names, cols c → r'.get c = r.get c
  module : T'.schema.module = T.schema.module

theorem Table.Keeps.refl (cols : String → Prop) (T : Table) : Table.Keeps cols T T where
  names _ hc _ := hc
  rows r hr := ⟨r, hr, fun _ _ _ => rfl⟩
  module := rfl

theorem Table.Keeps.trans (h : Table.Keeps cols T₁ T₂) (h' : Table.Keeps cols T₂ T₃) :
    Table.Keeps cols T₁ T₃ where
  names c hc hs := h'.names c (h.names c hc hs) hs
  rows r hr := by
    obtain ⟨r₂, hr₂, h₂⟩ := h.rows r hr
    obtain ⟨r₃, hr₃, h₃⟩ := h'.rows r₂ hr₂
    exact ⟨r₃, hr₃, fun c hc hs => (h₃ c (h.names c hc hs) hs).trans (h₂ c hc hs)⟩
  module := h'.module.trans h.module

namespace Database

theorem addColumn_ok (h : addColumn db t c = .ok db') :
    ∃ T T', db.find t = some T ∧ db'.find t = some T' ∧ (∀ cols, T.Keeps cols T') ∧
      ∀ u, u ≠ t → db'.find u = db.find u := by
  rw [addColumn] at h
  cases hT : db.find t with
  | none =>
    rw [hT] at h
    cases h
  | some T =>
    rw [hT] at h
    dsimp only at h
    split at h
    next => cases h
    next hnew =>
      split at h
      next =>
        cases h
        refine ⟨T, _, rfl, (find_update_self db t _).trans (by rw [hT]; rfl), ?_,
          fun u hu => find_update_ne db _ hu⟩
        intro cols
        constructor
        · intro d hd _
          rw [Schema.names, List.map_append]
          exact List.mem_append_left _ hd
        · intro r hr
          refine ⟨r.add c.name (c.default ""), List.mem_map_of_mem hr, ?_⟩
          intro d hd _
          exact Row.get_add_ne r _ fun he => hnew (he ▸ hd)
        · rfl
      next => cases h

theorem dropColumn_ok (h : dropColumn db t c = .ok db') :
    ∃ T T', db.find t = some T ∧ db'.find t = some T' ∧
      (∀ cols : String → Prop, ¬ cols c → T.Keeps cols T') ∧
      ∀ u, u ≠ t → db'.find u = db.find u := by
  rw [dropColumn] at h
  cases hT : db.find t with
  | none =>
    rw [hT] at h
    cases h
  | some T =>
    rw [hT] at h
    dsimp only at h
    split at h
    next => cases h
    next =>
      split at h
      next => cases h
      next =>
        cases h
        refine ⟨T, _, rfl, (find_update_self db t _).trans (by rw [hT]; rfl), ?_,
          fun u hu => find_update_ne db _ hu⟩
        intro cols hc
        have hne (d : String) (hd : cols d) : d ≠ c := fun he => hc (he ▸ hd)
        constructor
        · intro d hd hs
          obtain ⟨k, hk, rfl⟩ := List.mem_map.1 hd
          exact List.mem_map.2 ⟨k, List.mem_filter.2 ⟨hk, decide_eq_true (hne k.name hs)⟩, rfl⟩
        · intro r hr
          refine ⟨r.drop c, List.mem_map_of_mem hr, ?_⟩
          intro d _ hs
          exact Row.get_drop_ne r (hne d hs)
        · rfl

theorem addColumn_eq (hT : db.find t = some T) (hc : c.name ∉ T.schema.names) :
    addColumn db t c =
      if T.takes c = true then
        .ok (db.update t fun T =>
          { schema := { T.schema with columns := T.schema.columns ++ [c] }
            rows := T.rows.map fun r => r.add c.name (c.default "") })
      else .error .refused := by
  rw [addColumn, hT]
  dsimp only
  rw [if_neg hc]

theorem dropColumn_columns (h : dropColumn db t c = .ok db') (hT : db.find t = some T) :
    ∃ T', db'.find t = some T' ∧
      T'.schema.columns = T.schema.columns.filter fun d => decide (d.name ≠ c) := by
  rw [dropColumn, hT] at h
  dsimp only at h
  split at h
  next => cases h
  next =>
    split at h
    next => cases h
    next =>
      cases h
      exact ⟨_, (find_update_self db t _).trans (by rw [hT]; rfl), rfl⟩

theorem find_dropIndex (db : Database) (n u : String) : (db.dropIndex n).find u = db.find u := rfl

/-- A table script makes a table that was not there. -/
theorem createTable_find (h : createTable db b t S = .ok db') :
    db' = db ∨ db.find t = none ∧ ∀ u, u ≠ t → db'.find u = db.find u := by
  rw [createTable] at h
  cases hT : db.find t with
  | some T =>
    rw [hT] at h
    dsimp only at h
    split at h
    · cases h
      exact .inl rfl
    · cases h
  | none =>
    rw [hT] at h
    dsimp only at h
    split at h
    · cases h
    · cases h
      exact .inr ⟨rfl, fun u hu => AList.lookup_insert_ne hu⟩

theorem createIndex_find (h : createIndex db t d = .ok db') (u : String) :
    db'.find u = db.find u := by
  rw [createIndex] at h
  cases hT : db.find t with
  | none =>
    rw [hT] at h
    cases h
  | some T =>
    rw [hT] at h
    dsimp only at h
    split at h
    · cases h
    · split at h
      · split at h
        · cases h
          rfl
        · cases h
      · split at h
        · cases h
          rfl
        · cases h

/-- An update writes one column. -/
theorem updateWhere_ok (h : updateWhere db t c v p = .ok db') :
    ∃ T, db.find t = some T ∧
      db'.find t = some { T with rows := T.rows.map fun r => if p r then r.set c v else r } ∧
      ∀ u, u ≠ t → db'.find u = db.find u := by
  rw [updateWhere] at h
  cases hT : db.find t with
  | none =>
    rw [hT] at h
    cases h
  | some T =>
    rw [hT] at h
    dsimp only at h
    split at h
    · cases h
    · split at h
      · split at h
        · cases h
          refine ⟨T, rfl, ?_, fun u hu => find_update_ne db _ hu⟩
          rw [find_update_self, hT]
          rfl
        · cases h
      · cases h

end Database
end Relational
