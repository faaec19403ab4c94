import AnythingTools.Relational.Cascade

namespace Relational
set_option autoImplicit true

inductive SqlError where
  | noSuchTable (t : String)
  | noSuchColumn (c : String)
  | nameTaken (n : String)
  | constraint
  | foreignKey
  | refused
  | io
deriving DecidableEq, Repr

/-- A data statement with its bound parameters. -/
inductive Stmt where
  | replace (t : String) (row : Row)
  | delete (t : String) (key : Row)
deriving DecidableEq, Repr

def Stmt.target : Stmt → String
  | .replace t _ => t
  | .delete t _ => t

def Schema.column? (S : Schema) (n : String) : Option Column :=
  S.columns.find? fun c => decide (c.name = n)

theorem Schema.column?_name {S : Schema} (h : S.column? n = some c) : c ∈ S.columns ∧ c.name = n := by
  have hm := List.mem_of_find?_eq_some h
  have hn := List.find?_some h
  exact ⟨hm, by simpa only [decide_eq_true_eq] using hn⟩

theorem Schema.column?_of_mem {S : Schema} (hc : c ∈ S.columns) : ∃ d, S.column? c.name = some d := by
  cases h : S.column? c.name with
  | some d => exact ⟨d, rfl⟩
  | none =>
    have hn := List.find?_eq_none.1 h c hc
    simp at hn

def Schema.affinity (S : Schema) (n : String) : Affinity :=
  ((S.column? n).map fun c => Affinity.ofType c.type).getD .blob

/-- Bound values as a comparison with the columns of the table sees them. -/
def Schema.bind (S : Schema) (r : Row) : Row := r.map fun p => (p.1, (S.affinity p.1).convert p.2)

@[simp] theorem Schema.columns_bind (S : Schema) (r : Row) : (S.bind r).columns = r.columns := by
  simp only [Row.columns, Schema.bind, List.map_map, Function.comp_def]

theorem Schema.get_bind (S : Schema) (r : Row) (c : String) :
    (S.bind r).get c = (S.affinity c).convert (r.get c) := by
  induction r with
  | nil => rw [Schema.bind, List.map_nil, Row.get_nil, Affinity.convert_null]
  | cons p r ih =>
    rw [Schema.bind, List.map_cons, Row.get_cons, Row.get_cons]
    change (if c = p.1 then _ else (S.bind r).get c) = _
    rw [ih]
    by_cases h : c = p.1
    · simp only [h, ↓reduceIte]
    · simp only [h, ↓reduceIte]

/-- `WHERE c = ? AND ...` with the bound values of `key`. -/
def Schema.matchesKey (S : Schema) (key r : Row) : Bool := Row.sameKey key.columns (S.bind key) r

/-- The row `INSERT OR REPLACE` stores: a column the statement leaves out takes its default,
and so does a NULL bound for a NOT NULL column. -/
def Schema.coerce (S : Schema) (now : String) (r : Row) : Row :=
  Row.build S.names fun n =>
    match S.column? n with
    | none => .null
    | some c =>
      if n ∈ r.columns ∧ ¬ (c.notnull = true ∧ r.get n = .null) then r.get n else c.default now

namespace Database

/-- Every non-NULL reference of the row meets a parent row. -/
def parentsPresent (db : Database) (S : Schema) (r : Row) : Bool :=
  S.foreignKeys.all fun f =>
    decide (r.get f.column = .null) || (db.rows f.refTable).any fun p => f.links r p

/-- Delete the matching rows of a table and everything that refers to them. -/
def deleteRows (db : Database) (t : String) (p : Row → Bool) : Database :=
  let dead := ((db.rows t).filter p).map fun r => (t, r)
  let kept := db.update t fun T => { T with rows := T.rows.filter fun r => !p r }
  { kept with tables := cascade (rowCount kept.tables) kept.tables dead }

def append (db : Database) (t : String) (r : Row) : Database :=
  db.update t fun T => { T with rows := T.rows ++ [r] }

/-- `INSERT OR REPLACE`: the rows it collides with are deleted first. -/
def replaceRow (now : String) (db : Database) (t : String) (r : Row) :
    Except SqlError Database :=
  match db.find t with
  | none => .error (.noSuchTable t)
  | some T =>
    let row := T.schema.coerce now r
    if T.schema.admits row then
      let db' := (db.deleteRows t fun r' => T.schema.conflicts row r').append t row
      if db'.parentsPresent T.schema row then .ok db' else .error .foreignKey
    else .error .constraint

def exec (now : String) (db : Database) : Stmt → Except SqlError Database
  | .replace t r => db.replaceRow now t r
  | .delete t key =>
    match db.find t with
    | none => .error (.noSuchTable t)
    | some T => .ok (db.deleteRows t fun r => T.schema.matchesKey key r)

/-- The statements of one transaction, in order; the first error abandons it. -/
def execAll (now : String) (db : Database) : List Stmt → Except SqlError Database
  | [] => .ok db
  | s :: ss =>
    match db.exec now s with
    | .ok db' => db'.execAll now ss
    | .error e => .error e

theorem execAll_cons_ok (h : execAll now db (s :: ss) = .ok db') :
    ∃ db₁, exec now db s = .ok db₁ ∧ execAll now db₁ ss = .ok db' := by
  rw [execAll] at h
  cases he : db.exec now s with
  | ok db₁ =>
    rw [he] at h
    exact ⟨db₁, rfl, h⟩
  | error e =>
    rw [he] at h
    cases h

theorem execAll_append (now : String) (db : Database) (ss ss' : List Stmt) :
    execAll now db (ss ++ ss') =
      match execAll now db ss with
      | .ok db₁ => execAll now db₁ ss'
      | .error e => .error e := by
  induction ss generalizing db with
  | nil => rfl
  | cons s ss ih =>
    simp only [List.cons_append, execAll]
    cases db.exec now s with
    | ok db₁ => exact ih db₁
    | error e => rfl

/-- The rows of a table that the statement itself deletes. -/
def strikes (now : String) (db : Database) (s : Stmt) (t : String) (r : Row) : Bool :=
  decide (t = s.target) &&
    match db.find s.target with
    | none => false
    | some T =>
      match s with
      | .replace _ row => T.schema.conflicts (T.schema.coerce now row) r
      | .delete _ key => T.schema.matchesKey key r

/-- The row that the statement stores. -/
def stores (now : String) (db : Database) (s : Stmt) (t : String) (r : Row) : Prop :=
  ∃ row T, s = .replace t row ∧ db.find t = some T ∧ r = T.schema.coerce now row

theorem mem_rows_iff_holds : r ∈ rows db t ↔ Holds db.tables t r := by
  constructor
  · intro h
    exact mem_rows h
  · rintro ⟨T, hT, hr⟩
    rw [rows_of_find hT]
    exact hr

theorem mem_deleteRows : r ∈ (deleteRows db t p).rows u ↔
    r ∈ db.rows u ∧ ¬ (u = t ∧ p r = true) ∧
      ¬ Doomed db.tables (fun v q => v = t ∧ q ∈ db.rows t ∧ p q = true) u r := by
  have hdead {v q} : (v, q) ∈ ((db.rows t).filter p).map (fun r => (t, r)) ↔
      v = t ∧ q ∈ db.rows t ∧ p q = true := by
    simp only [List.mem_map, List.mem_filter, Prod.mk.injEq]
    constructor
    · rintro ⟨q', ⟨hq, hp⟩, rfl, rfl⟩
      exact ⟨rfl, hq, hp⟩
    · rintro ⟨rfl, hq, hp⟩
      exact ⟨q, ⟨hq, hp⟩, rfl, rfl⟩
  have hkept {v q} : Holds (db.update t fun T =>
      { T with rows := T.rows.filter fun r => !p r }).tables v q ↔
      Holds db.tables v q ∧ ¬ (v = t ∧ p q = true) := by
    rw [← mem_rows_iff_holds, ← mem_rows_iff_holds]
    by_cases hv : v = t
    · subst v
      cases hf : db.find t with
      | none =>
        have hf' : (db.update t fun T => { T with rows := T.rows.filter fun r => !p r }).find t
            = none := by rw [find_update_self, hf]; rfl
        simp [rows_of_none hf, rows_of_none hf']
      | some T =>
        have hf' : (db.update t fun T => { T with rows := T.rows.filter fun r => !p r }).find t
            = some { T with rows := T.rows.filter fun r => !p r } := by
          rw [find_update_self, hf]; rfl
        rw [rows_of_find hf, rows_of_find hf', List.mem_filter]
        simp
    · have hf := find_update_ne db (fun T => { T with rows := T.rows.filter fun r => !p r }) hv
      simp only [rows, hf, hv, false_and, not_false_eq_true, and_true]
  have hschema {v T'} (h : (db.update t fun T =>
      { T with rows := T.rows.filter fun r => !p r }).tables.lookup v = some T') :
      ∃ T, db.tables.lookup v = some T ∧ T'.schema = T.schema := by
    rw [update, lookup_mapVals, Option.map_eq_some_iff] at h
    obtain ⟨T, hT, he⟩ := h
    subst T'
    refine ⟨T, hT, ?_⟩
    split <;> rfl
  rw [mem_rows_iff_holds, deleteRows, holds_cascade (Nat.le_refl _), hkept, mem_rows_iff_holds,
    and_assoc]
  simp only [hdead]
  refine and_congr_right fun hr => and_congr_right fun hn => not_congr ⟨fun h => ?_, fun h => ?_⟩
  · -- a chain through the rows that are left is a chain through all of them
    induction h with
    | @direct f q v T' r hd hT hm hf hl =>
      obtain ⟨T, hT', hs⟩ := hschema hT
      obtain ⟨U, hU, hm'⟩ := (hkept.1 ⟨T', hT, hm⟩).1
      rw [hT', Option.some.injEq] at hU
      subst U
      exact .direct hd hT' hm' (hs ▸ hf) hl
    | @chain f q v T' r hd hT hm hf hl ih =>
      obtain ⟨T, hT', hs⟩ := hschema hT
      obtain ⟨U, hU, hm'⟩ := (hkept.1 ⟨T', hT, hm⟩).1
      rw [hT', Option.some.injEq] at hU
      subst U
      have hq := hkept.1 hd.holds
      exact .chain (ih hq.1 hq.2) hT' hm' (hs ▸ hf) hl
  · -- a chain that meets a deleted row starts again from that row
    clear hr
    induction h with
    | @direct f q v T r hd hT hm hf hl =>
      obtain ⟨T', hT', hm'⟩ := hkept.2 ⟨⟨T, hT, hm⟩, hn⟩
      obtain ⟨U, hU, hs⟩ := hschema hT'
      rw [hT, Option.some.injEq] at hU
      subst U
      exact .direct hd hT' hm' (hs ▸ hf) hl
    | @chain f q v T r hd hT hm hf hl ih =>
      obtain ⟨T', hT', hm'⟩ := hkept.2 ⟨⟨T, hT, hm⟩, hn⟩
      obtain ⟨U, hU, hs⟩ := hschema hT'
      rw [hT, Option.some.injEq] at hU
      subst U
      by_cases hq : f.refTable = t ∧ p q = true
      · refine .direct ⟨hq.1, ?_, hq.2⟩ hT' hm' (hs ▸ hf) hl
        rw [mem_rows_iff_holds, ← hq.1]
        exact hd.holds
      · exact .chain (ih hq) hT' hm' (hs ▸ hf) hl

/-- A deletion reaches only tables that refer, directly or not, to the table of the rows. -/
theorem find_deleteRows_keep (hu : u ≠ t)
    (h : ∀ r, ¬ Doomed db.tables (fun v _ => v = t) u r) :
    (deleteRows db t p).find u = db.find u := by
  have hkept (v : String) (hv : v ≠ t) :
      (db.update t fun T => { T with rows := T.rows.filter fun r => !p r }).tables.lookup v =
        db.tables.lookup v := find_update_ne db _ hv
  rw [deleteRows, find, lookup_cascade_keep]
  · exact hkept u hu
  · intro r hd
    apply h r
    have hschema {v T'} (hT' : (db.update t fun T =>
        { T with rows := T.rows.filter fun r => !p r }).tables.lookup v = some T') :
        ∃ T, db.tables.lookup v = some T ∧ T'.schema = T.schema ∧ ∀ r ∈ T'.rows, r ∈ T.rows := by
      rw [update, lookup_mapVals, Option.map_eq_some_iff] at hT'
      obtain ⟨T, hT, he⟩ := hT'
      subst he
      refine ⟨T, hT, ?_, ?_⟩
      · split <;> rfl
      · intro r hr
        split at hr
        · exact (List.mem_filter.1 hr).1
        · exact hr
    clear h
    induction hd with
    | @direct f q v T' r hd hT hm hf hl =>
      obtain ⟨T, hT, hs, hr⟩ := hschema hT
      obtain ⟨q', hq', he⟩ := List.mem_map.1 hd
      exact .direct (Prod.mk.inj he).1.symm hT (hr r hm) (hs ▸ hf) hl
    | @chain f q v T' r hd hT hm hf hl ih =>
      obtain ⟨T, hT, hs, hr⟩ := hschema hT
      by_cases hq : f.refTable = t
      · exact .direct hq hT (hr r hm) (hs ▸ hf) hl
      · exact .chain (ih hq) hT (hr r hm) (hs ▸ hf) hl

theorem find_deleteRows (h : (deleteRows db t p).find u = some T') :
    ∃ T, db.find u = some T ∧ T'.schema = T.schema ∧ T'.rows.Sublist T.rows := by
  obtain ⟨K, hK, hs, hl⟩ := lookup_cascade h
  change (db.update t _).find u = some K at hK
  by_cases hu : u = t
  · subst u
    rw [find_update_self, Option.map_eq_some_iff] at hK
    obtain ⟨T, hT, he⟩ := hK
    subst K
    exact ⟨T, hT, hs, hl.trans List.filter_sublist⟩
  · rw [find_update_ne _ _ hu] at hK
    exact ⟨K, hK, hs, hl⟩

theorem find_deleteRows_isSome (db : Database) (t : String) (p : Row → Bool) (u : String) :
    ((deleteRows db t p).find u).isSome = (db.find u).isSome := by
  rw [deleteRows, find, lookup_cascade_isSome]
  change ((db.update t _).find u).isSome = _
  by_cases hu : u = t
  · subst u
    rw [find_update_self, Option.isSome_map]
  · rw [find_update_ne _ _ hu]

theorem mem_append (h : find db t = some T) : r ∈ (append db t row).rows u ↔
    r ∈ db.rows u ∨ u = t ∧ r = row := by
  by_cases hu : u = t
  · subst u
    have hf : (append db t row).find t = some { T with rows := T.rows ++ [row] } := by
      rw [append, find_update_self, h]
      rfl
    rw [rows_of_find hf, rows_of_find h]
    simp
  · have hf := find_update_ne db (fun T => { T with rows := T.rows ++ [row] }) hu
    simp only [append, rows, hf, hu, false_and, or_false]

end Database

end Relational
