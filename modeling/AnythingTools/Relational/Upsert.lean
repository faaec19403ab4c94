import AnythingTools.Displace
import AnythingTools.Relational.Statement

namespace Relational
set_option autoImplicit true

/-- The column that is the rowid itself. -/
def Schema.rowidAlias (S : Schema) : Option String :=
  match S.columns.filter fun c => decide (0 < c.pk) with
  | [c] => if c.type.toList.map Char.toUpper = "INTEGER".toList then some c.name else none
  | _ => none

/-- One more than the largest rowid. -/
def Table.nextRowid (T : Table) (n : String) : Int :=
  1 + T.rows.foldl (fun m r => match r.get n with | .int k => max m k | _ => m) 0

/-- A row stored without a rowid gets the next one. -/
def Table.assign (T : Table) (row : Row) : Row :=
  match T.schema.rowidAlias with
  | none => row
  | some n => if row.get n = .null then row.set n (.int (T.nextRowid n)) else row

/-- `INSERT OR REPLACE` while foreign keys are not enforced. -/
def Table.upsert (now : String) (T : Table) (r : Row) : Except SqlError Table :=
  match r.columns.find? fun c => decide (c ∉ T.schema.names) with
  | some c => .error (.noSuchColumn c)
  | none =>
    let row := T.assign (T.schema.coerce now r)
    if T.schema.admits row then
      .ok { T with rows := (T.rows.filter fun r' => !T.schema.conflicts row r') ++ [row] }
    else .error .constraint

def Table.upsertAll (now : String) (T : Table) : List Row → Except SqlError Table
  | [] => .ok T
  | r :: rs =>
    match T.upsert now r with
    | .ok T' => T'.upsertAll now rs
    | .error e => .error e

theorem Table.upsert_ok (h : Table.upsert now T r = .ok T') :
    T'.schema = T.schema ∧ T.schema.admits (T.assign (T.schema.coerce now r)) = true ∧
      T'.rows = (T.rows.filter fun r' =>
        !T.schema.conflicts (T.assign (T.schema.coerce now r)) r') ++
          [T.assign (T.schema.coerce now r)] := by
  rw [Table.upsert] at h
  split at h
  · cases h
  · dsimp only at h
    split at h
    case isFalse => cases h
    case isTrue ha =>
      cases h
      exact ⟨rfl, ha, rfl⟩

theorem Table.upsertAll_cons (h : Table.upsertAll now T (r :: rs) = .ok T') :
    ∃ T₁, T.upsert now r = .ok T₁ ∧ T₁.upsertAll now rs = .ok T' := by
  rw [Table.upsertAll] at h
  cases hu : T.upsert now r with
  | error e =>
    rw [hu] at h
    cases h
  | ok T₁ =>
    rw [hu] at h
    exact ⟨T₁, rfl, h⟩

theorem Table.upsertAll_append (h : Table.upsertAll now T (rs ++ rs') = .ok T') :
    ∃ T₁, T.upsertAll now rs = .ok T₁ ∧ T₁.upsertAll now rs' = .ok T' := by
  induction rs generalizing T with
  | nil => exact ⟨T, rfl, h⟩
  | cons r rs ih =>
    obtain ⟨T₁, hu, h⟩ := Table.upsertAll_cons h
    obtain ⟨T₂, hrs, h⟩ := ih h
    refine ⟨T₂, ?_, h⟩
    rw [Table.upsertAll, hu]
    exact hrs

theorem Table.upsertAll_schema (h : Table.upsertAll now T rs = .ok T') :
    T'.schema = T.schema := by
  induction rs generalizing T with
  | nil =>
    cases h
    rfl
  | cons r rs ih =>
    obtain ⟨T₁, hu, h⟩ := Table.upsertAll_cons h
    exact (ih h).trans (Table.upsert_ok hu).1

theorem Table.upsert_apart (h : Table.upsert now T r = .ok T')
    (hT : T.rows.Pairwise fun r r' => ¬ T.schema.conflicts r r' = true) :
    T'.rows.Pairwise fun r r' => ¬ T'.schema.conflicts r r' = true := by
  obtain ⟨hs, _, hrows⟩ := Table.upsert_ok h
  rw [hs, hrows, List.pairwise_append]
  refine ⟨hT.sublist List.filter_sublist, List.pairwise_singleton _ _, ?_⟩
  intro a ha b hb
  rw [List.mem_singleton] at hb
  subst hb
  rw [Schema.conflicts_comm]
  simpa using (List.mem_filter.1 ha).2

theorem Table.upsertAll_apart (h : Table.upsertAll now T rs = .ok T')
    (hT : T.rows.Pairwise fun r r' => ¬ T.schema.conflicts r r' = true) :
    T'.rows.Pairwise fun r r' => ¬ T'.schema.conflicts r r' = true := by
  induction rs generalizing T with
  | nil =>
    cases h
    exact hT
  | cons r rs ih =>
    obtain ⟨T₁, hu, h⟩ := Table.upsertAll_cons h
    exact ih h (Table.upsert_apart hu hT)

/-- What is stored of the record has a rowid of its own, if the table has a column for it. -/
def Schema.Numbered (S : Schema) (now : String) (r : Row) : Prop :=
  ∀ n, S.rowidAlias = some n → (S.coerce now r).get n ≠ .null

theorem Table.assign_numbered {T : Table} (h : T.schema.Numbered now r) :
    T.assign (T.schema.coerce now r) = T.schema.coerce now r := by
  rw [Table.assign]
  split
  · rfl
  next n hn => rw [if_neg (h n hn)]

/-- Each record displaces the rows that it conflicts with. -/
theorem Table.upsertAll_putAll (h : Table.upsertAll now T rs = .ok T')
    (hr : ∀ r ∈ rs, T.schema.Numbered now r) :
    T'.rows = Displace.putAll T.schema.conflicts T.rows (rs.map (T.schema.coerce now)) := by
  induction rs generalizing T with
  | nil =>
    cases h
    rfl
  | cons r rs ih =>
    rw [List.forall_mem_cons] at hr
    obtain ⟨T₁, hu, h⟩ := Table.upsertAll_cons h
    obtain ⟨hs, _, hrows⟩ := Table.upsert_ok hu
    rw [ih h (by rw [hs]; exact hr.2), hs, hrows, Table.assign_numbered hr.1]
    rfl

/-- The constraints of the table let the record in. -/
def Schema.Accepts (S : Schema) (r : Row) : Prop :=
  (∀ c ∈ r.columns, c ∈ S.names) ∧
    ∀ (now : String) (T : Table), T.schema = S → S.admits (T.assign (S.coerce now r)) = true

theorem Table.upsertAll_accepts {T : Table} (h : ∀ r ∈ rs, T.schema.Accepts r) (now : String) :
    ∃ T', T.upsertAll now rs = .ok T' := by
  induction rs generalizing T with
  | nil => exact ⟨T, rfl⟩
  | cons r rs ih =>
    rw [List.forall_mem_cons] at h
    have hnone : r.columns.find? (fun c => decide (c ∉ T.schema.names)) = none := by
      rw [List.find?_eq_none]
      intro c hc
      simpa using h.1.1 c hc
    have hu : ∃ T₁, T.upsert now r = .ok T₁ := by
      rw [Table.upsert, hnone]
      dsimp only
      rw [if_pos (h.1.2 now T rfl)]
      exact ⟨_, rfl⟩
    obtain ⟨T₁, hu⟩ := hu
    have hs := (Table.upsert_ok hu).1
    obtain ⟨T', h'⟩ := ih (T := T₁) (by rw [hs]; exact h.2)
    exact ⟨T', by rw [Table.upsertAll, hu]; exact h'⟩

theorem Table.lt_nextRowid {T : Table} (hr : r ∈ T.rows) (hk : r.get n = .int k) :
    k < T.nextRowid n := by
  have hfold (l : List Row) (m : Int) : m ≤ l.foldl (fun m r =>
      match r.get n with | .int k => max m k | _ => m) m ∧ ∀ r ∈ l, ∀ k, r.get n = .int k →
      k ≤ l.foldl (fun m r => match r.get n with | .int k => max m k | _ => m) m := by
    induction l generalizing m with
    | nil => exact ⟨le_refl m, fun r hr => by cases hr⟩
    | cons a l ih =>
      rw [List.foldl_cons, List.forall_mem_cons]
      obtain ⟨hle, hall⟩ := ih (match a.get n with | .int k => max m k | _ => m)
      refine ⟨le_trans ?_ hle, fun k hk => le_trans ?_ hle, hall⟩
      · split
        · exact le_max_left _ _
        · exact le_refl m
      · rw [hk]
        exact le_max_right _ _
  have hle := (hfold T.rows 0).2 r hr k hk
  rw [Table.nextRowid]
  omega

theorem Schema.primaryKey_of_alias {S : Schema} (h : S.rowidAlias = some n) :
    S.primaryKey = [n] := by
  rw [Schema.rowidAlias] at h
  rw [Schema.primaryKey]
  split at h
  next c hc =>
    split at h
    · cases h
      rw [hc]
      rfl
    · cases h
  · cases h

theorem Schema.mem_names_of_primaryKey {S : Schema} (h : n ∈ S.primaryKey) : n ∈ S.names := by
  obtain ⟨d, hd, he⟩ := List.mem_map.1 h
  exact List.mem_map.2 ⟨d, (List.mem_filter.1 hd).1, he⟩

/-- A record without a rowid gets one that is larger than any before. -/
theorem Table.upsertAll_grows {T : Table} (h : Table.upsertAll now T rs = .ok T') (hne : rs ≠ [])
    (hn : T.schema.rowidAlias = some n)
    (hnull : ∀ r ∈ rs, (T.schema.coerce now r).get n = .null) :
    ∃ q ∈ T'.rows, ∃ k, q.get n = .int k ∧ T.nextRowid n ≤ k := by
  induction rs generalizing T with
  | nil => exact absurd rfl hne
  | cons r rs ih =>
    rw [List.forall_mem_cons] at hnull
    obtain ⟨T₁, hu, h⟩ := Table.upsertAll_cons h
    obtain ⟨hs, _, hrows⟩ := Table.upsert_ok hu
    have hassign : (T.assign (T.schema.coerce now r)).get n = .int (T.nextRowid n) := by
      rw [Table.assign, hn]
      dsimp only
      rw [if_pos hnull.1, Row.get_set_self]
      rw [Schema.coerce, Row.columns_build]
      apply Schema.mem_names_of_primaryKey
      rw [Schema.primaryKey_of_alias hn]
      exact List.mem_singleton_self n
    have hmem : T.assign (T.schema.coerce now r) ∈ T₁.rows := by
      rw [hrows]
      simp
    by_cases hnil : rs = []
    · subst hnil
      cases h
      exact ⟨_, hmem, _, hassign, le_refl _⟩
    · obtain ⟨q, hq, k, hk, hle⟩ := ih h hnil (by rw [hs]; exact hn) (by rw [hs]; exact hnull.2)
      have hlt := Table.lt_nextRowid hmem hassign
      exact ⟨q, hq, k, hk, by omega⟩

/-- The row that an upsert makes of a record. -/
def Schema.Stores (S : Schema) (now : String) (r q : Row) : Prop :=
  (∀ c ∈ r.columns, c ∈ S.names) ∧ S.admits q = true ∧
    ∃ T : Table, T.schema = S ∧ q = T.assign (S.coerce now r)

theorem Table.mem_upsert (h : Table.upsert now T r = .ok T') (hq : q ∈ T'.rows) :
    q ∈ T.rows ∨ T.schema.Stores now r q := by
  obtain ⟨_, ha, hrows⟩ := Table.upsert_ok h
  rw [hrows, List.mem_append, List.mem_singleton] at hq
  rcases hq with hq | hq
  · exact .inl (List.mem_filter.1 hq).1
  · refine .inr ⟨?_, hq ▸ ha, T, rfl, hq⟩
    rw [Table.upsert] at h
    split at h
    · cases h
    next hf =>
      intro c hc
      have hn := List.find?_eq_none.1 hf c hc
      simpa using hn

theorem Table.mem_upsertAll (h : Table.upsertAll now T rs = .ok T') (hq : q ∈ T'.rows) :
    q ∈ T.rows ∨ ∃ r ∈ rs, T.schema.Stores now r q := by
  induction rs generalizing T with
  | nil =>
    cases h
    exact .inl hq
  | cons r rs ih =>
    obtain ⟨T₁, hu, h⟩ := Table.upsertAll_cons h
    rcases ih h with hm | ⟨r', hr', hs⟩
    · rcases Table.mem_upsert hu hm with hm | hs
      · exact .inl hm
      · exact .inr ⟨r, List.mem_cons_self, hs⟩
    · exact .inr ⟨r', List.mem_cons_of_mem _ hr', (Table.upsert_ok hu).1 ▸ hs⟩

/-- A cell of the record is stored as it is, but for a NULL that gives way to a default or to a
new rowid. -/
theorem Schema.Stores.get {S : Schema} (h : S.Stores now r q) (hc : c ∈ r.columns)
    (hn : ∀ d ∈ S.columns, d.name = c → d.notnull = true → r.get c ≠ .null)
    (ha : S.rowidAlias = some c → r.get c ≠ .null) : q.get c = r.get c := by
  obtain ⟨hcols, _, T, hT, hq⟩ := h
  have hname := hcols c hc
  have hcoerce : (S.coerce now r).get c = r.get c := by
    obtain ⟨d, hd, he⟩ := List.mem_map.1 hname
    obtain ⟨d', hd'⟩ := S.column?_of_mem hd
    obtain ⟨hm, hn'⟩ := S.column?_name hd'
    rw [he] at hd' hn'
    rw [Schema.coerce, Row.get_build_of_mem hname, hd']
    exact if_pos ⟨hc, fun hk => hn d' hm hn' hk.1 hk.2⟩
  rw [hq, Table.assign, hT]
  split
  · exact hcoerce
  next n hn' =>
    split
    next hnull =>
      have hne : c ≠ n := by
        intro he
        subst he
        rw [hcoerce] at hnull
        exact ha hn' hnull
      rw [Row.get_set_ne _ _ hne, hcoerce]
    · exact hcoerce

end Relational
