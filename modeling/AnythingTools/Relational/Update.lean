import AnythingTools.Relational.Alter

namespace Relational
set_option autoImplicit true

/-- Write the cells of an assignment. -/
def Row.assign (r cells : Row) : Row := cells.foldl (fun r p => r.set p.1 p.2) r

theorem Row.get_assign (h : c ∉ cells.columns) (r : Row) : (r.assign cells).get c = r.get c := by
  induction cells generalizing r with
  | nil => rfl
  | cons p cells ih =>
    rw [Row.columns, List.map_cons, List.mem_cons, not_or] at h
    rw [Row.assign, List.foldl_cons]
    change (Row.assign (r.set p.1 p.2) cells).get c = _
    rw [ih h.2, Row.get_set_ne _ _ h.1]

@[simp] theorem Row.columns_assign (r cells : Row) : (r.assign cells).columns = r.columns := by
  induction cells generalizing r with
  | nil => rfl
  | cons p cells ih =>
    rw [Row.assign, List.foldl_cons]
    exact (ih _).trans (Row.columns_set r p.1 p.2)

theorem Row.get_assign_build (r : Row) (cols : List String) (f : String → Value)
    (hc : c ∈ r.columns) :
    (r.assign (Row.build cols f)).get c = if c ∈ cols then f c else r.get c := by
  induction cols generalizing r with
  | nil => rfl
  | cons d cols ih =>
    have hset : c ∈ (r.set d (f d)).columns := by
      rw [Row.columns_set]
      exact hc
    change ((r.set d (f d)).assign (Row.build cols f)).get c = _
    rw [ih _ hset]
    by_cases hd : c = d
    · subst hd
      rw [Row.get_set_self r _ hc, if_pos List.mem_cons_self]
      split <;> rfl
    · rw [Row.get_set_ne r _ hd]
      simp only [List.mem_cons, hd, false_or]

/-- Rows that differ only in assigned columns are equal after the assignment. -/
theorem Row.assign_agree {r r' cells : Row} (hcols : r.columns = r'.columns)
    (h : ∀ c, c ∉ cells.columns → r.get c = r'.get c) (c : String) :
    (r.assign cells).get c = (r'.assign cells).get c := by
  induction cells generalizing r r' with
  | nil => exact h c List.not_mem_nil
  | cons p cells ih =>
    rw [Row.assign, Row.assign, List.foldl_cons, List.foldl_cons]
    apply ih
    · rw [Row.columns_set, Row.columns_set, hcols]
    · intro d hd
      by_cases hp : d = p.1
      · subst hp
        by_cases hc : p.1 ∈ r.columns
        · rw [Row.get_set_self r p.2 hc, Row.get_set_self r' p.2 (hcols ▸ hc)]
        · have hn : p.1 ∉ (r.set p.1 p.2).columns := by
            rw [Row.columns_set]
            exact hc
          have hn' : p.1 ∉ (r'.set p.1 p.2).columns := by
            rw [Row.columns_set, ← hcols]
            exact hc
          rw [Row.get_of_not_mem hn, Row.get_of_not_mem hn']
      · rw [Row.get_set_ne r p.2 hp, Row.get_set_ne r' p.2 hp]
        apply h
        rw [Row.columns, List.map_cons, List.mem_cons, not_or]
        exact ⟨hp, hd⟩

namespace Database

/-- `INSERT OR IGNORE`. -/
def insertOrIgnore (now : String) (db : Database) (t : String) (r : Row) :
    Except SqlError Database :=
  match db.find t with
  | none => .error (.noSuchTable t)
  | some T =>
    let row := T.assign (T.schema.fill now r)
    if T.schema.admits row = true ∧ ¬ T.rows.any (T.schema.conflicts row) = true then
      if (db.append t row).parentsPresent T.schema row then .ok (db.append t row)
      else .error .foreignKey
    else .ok db

/-- `UPDATE t SET ... WHERE ...`: all the rows or none. -/
def updateRows (db : Database) (t : String) (cells : Row) (p : Row → Bool) :
    Except SqlError Database :=
  match db.find t with
  | none => .error (.noSuchTable t)
  | some T =>
    match cells.columns.find? fun c => decide (c ∉ T.schema.names) with
    | some c => .error (.noSuchColumn c)
    | none =>
      let rows := T.rows.map fun r => if p r then r.assign cells else r
      let db' := db.update t fun T =>
        { T with rows := T.rows.map fun r => if p r then r.assign cells else r }
      if rows.all T.schema.admits = true ∧
          rows.Pairwise (fun r r' => ¬ T.schema.conflicts r r' = true) then
        if ((T.rows.filter p).map fun r => r.assign cells).all (db'.parentsPresent T.schema) then
          .ok db'
        else .error .foreignKey
      else .error .constraint

/-- Every row of a table is such. -/
def AllRows (db : Database) (t : String) (P : Row → Prop) : Prop := ∀ r ∈ db.rows t, P r

theorem insertOrIgnore_ok (h : insertOrIgnore now db t r = .ok db') :
    db' = db ∨ ∃ T, db.find t = some T ∧ db' = db.append t (T.assign (T.schema.fill now r)) := by
  rw [insertOrIgnore] at h
  cases hT : db.find t with
  | none =>
    rw [hT] at h
    cases h
  | some T =>
    rw [hT] at h
    dsimp only at h
    split at h
    · split at h
      · cases h
        exact .inr ⟨T, rfl, rfl⟩
      · cases h
    · cases h
      exact .inl rfl

theorem updateRows_ok (h : updateRows db t cells p = .ok db') :
    db' = db.update t fun T =>
      { T with rows := T.rows.map fun r => if p r then r.assign cells else r } := by
  rw [updateRows] at h
  cases hT : db.find t with
  | none =>
    rw [hT] at h
    cases h
  | some T =>
    rw [hT] at h
    dsimp only at h
    split at h
    · cases h
    · split at h
      · split at h
        · cases h
          rfl
        · cases h
      · cases h

/-- An update that keeps the constraints succeeds. -/
theorem updateRows_succeeds (hT : db.find t = some T) (hcols : ∀ c ∈ cells.columns, c ∈ T.schema.names)
    (hadm : ∀ r ∈ T.rows, T.schema.admits (if p r then r.assign cells else r) = true)
    (hkeys : (T.rows.map fun r => if p r then r.assign cells else r).Pairwise
      fun r r' => ¬ T.schema.conflicts r r' = true) (hfk : T.schema.foreignKeys = []) :
    updateRows db t cells p = .ok (db.update t fun T =>
      { T with rows := T.rows.map fun r => if p r then r.assign cells else r }) := by
  rw [updateRows, hT]
  dsimp only
  have hfind : (cells.columns.find? fun c => decide (c ∉ T.schema.names)) = none := by
    rw [List.find?_eq_none]
    intro c hc
    simpa using hcols c hc
  have hall : (T.rows.map fun r => if p r then r.assign cells else r).all T.schema.admits = true := by
    rw [List.all_map, List.all_eq_true]
    exact hadm
  rw [hfind]
  dsimp only
  rw [if_pos ⟨hall, hkeys⟩, if_pos]
  rw [List.all_eq_true]
  intro r _
  rw [parentsPresent, hfk]
  rfl

/-- After an update no two rows have a key in common. -/
theorem updateRows_keys (h : updateRows db t cells p = .ok db') (hT : db.find t = some T) :
    (T.rows.map fun r => if p r then r.assign cells else r).Pairwise
      fun r r' => ¬ T.schema.conflicts r r' = true := by
  rw [updateRows, hT] at h
  dsimp only at h
  split at h
  · cases h
  · split at h
    next hok => exact hok.2
    next => cases h

theorem allRows_insertOrIgnore {P : Row → Prop} (h : insertOrIgnore now db t r = .ok db')
    (hP : AllRows db u P)
    (hr : ∀ T, db.find u = some T → u = t → P (T.assign (T.schema.fill now r))) :
    AllRows db' u P := by
  rcases insertOrIgnore_ok h with he | ⟨T, hT, he⟩
  · rw [he]
    exact hP
  · rw [he]
    intro r' hr'
    rcases (mem_append hT).1 hr' with hr' | ⟨hu, hr'⟩
    · exact hP r' hr'
    · rw [hr']
      exact hr T (hu ▸ hT) hu

theorem allRows_updateRows {P : Row → Prop} (h : updateRows db t cells p = .ok db')
    (hP : AllRows db u P) (hr : ∀ r, P r → P (r.assign cells)) : AllRows db' u P := by
  rw [updateRows_ok h]
  intro r' hr'
  by_cases hu : u = t
  · subst hu
    rw [Database.rows, find_update_self] at hr'
    cases hT : db.find u with
    | none =>
      rw [hT] at hr'
      cases hr'
    | some T =>
      rw [hT] at hr'
      obtain ⟨r, hm, he⟩ := List.mem_map.1 hr'
      have hold := hP r (by rw [rows_of_find hT]; exact hm)
      rw [← he]
      split
      · exact hr r hold
      · exact hold
  · rw [Database.rows, find_update_ne db _ hu] at hr'
    exact hP r' hr'

end Database
end Relational
