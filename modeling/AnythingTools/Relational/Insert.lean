import AnythingTools.Relational.Alter

namespace Relational
set_option autoImplicit true

/-- The row that holds `f c` in the columns for which there is one. -/
def Row.select (cols : List String) (f : String → Option Value) : Row :=
  cols.filterMap fun c => (f c).map fun v => (c, v)

theorem Row.get_select (cols : List String) (f : String → Option Value) (c : String) :
    Row.get (Row.select cols f) c = if c ∈ cols then (f c).getD .null else .null := by
  induction cols with
  | nil => rfl
  | cons d cols ih =>
    rw [Row.select] at ih ⊢
    by_cases hc : c = d
    · subst hc
      cases hf : f c with
      | none =>
        rw [List.filterMap_cons_none (by rw [hf]; rfl), ih]
        simp [hf]
      | some v =>
        rw [List.filterMap_cons_some (by rw [hf]; rfl), Row.get_cons]
        simp
    · cases hf : f d with
      | none =>
        rw [List.filterMap_cons_none (by rw [hf]; rfl), ih]
        simp [hc]
      | some v =>
        rw [List.filterMap_cons_some (by rw [hf]; rfl), Row.get_cons, ih]
        simp [hc]

theorem Row.mem_columns_select : c ∈ (Row.select cols f).columns ↔ c ∈ cols ∧ (f c).isSome = true := by
  simp only [Row.columns, Row.select, List.mem_map, List.mem_filterMap, Option.map_eq_some_iff]
  apply Iff.intro
  · rintro ⟨p, ⟨d, hd, v, hv, he⟩, hc⟩
    subst he
    subst hc
    exact ⟨hd, by rw [hv]; rfl⟩
  · rintro ⟨hc, hs⟩
    obtain ⟨v, hv⟩ := Option.isSome_iff_exists.1 hs
    exact ⟨(c, v), ⟨c, hc, v, hv, rfl⟩, rfl⟩

/-- What an insert stores in a column: the selected value, or the default. -/
theorem Schema.get_fill_select {S : Schema} (h : S.column? n = some c) (now : String)
    (f : String → Option Value) :
    (S.fill now (Row.select S.names f)).get n = (f n).getD (c.default now) := by
  have hn : n ∈ S.names := by
    obtain ⟨hm, he⟩ := S.column?_name h
    rw [← he]
    exact List.mem_map.2 ⟨c, hm, rfl⟩
  rw [Schema.fill, Row.get_build_of_mem hn, h]
  dsimp only
  cases hf : f n with
  | none =>
    rw [if_neg]
    · rfl
    · intro hc
      have hs := (Row.mem_columns_select.1 hc).2
      rw [hf] at hs
      cases hs
  | some v =>
    rw [if_pos (Row.mem_columns_select.2 ⟨hn, by rw [hf]; rfl⟩), Row.get_select, if_pos hn, hf]
    rfl

theorem Table.assign_of_none {T : Table} (h : T.schema.rowidAlias = none) (r : Row) :
    T.assign r = r := by
  rw [Table.assign, h]

/-- Rows that meet the constraints and do not collide are all inserted. -/
theorem Table.insertAll_ok {T : Table} (ha : T.schema.rowidAlias = none)
    (hadm : ∀ r ∈ rs, T.schema.admits (T.schema.fill now r) = true)
    (hp : (T.rows ++ rs.map (T.schema.fill now)).Pairwise
      fun a b => ¬ T.schema.conflicts a b = true) :
    T.insertAll now rs = .ok { T with rows := T.rows ++ rs.map (T.schema.fill now) } := by
  induction rs generalizing T with
  | nil => simp [Table.insertAll]
  | cons r rs ih =>
    rw [List.map_cons] at hp
    have hfree : ¬ T.rows.any (T.schema.conflicts (T.schema.fill now r)) = true := by
      intro hany
      obtain ⟨a, hm, hk⟩ := List.any_eq_true.1 hany
      rw [Schema.conflicts_comm] at hk
      exact (List.pairwise_append.1 hp).2.2 a hm _ List.mem_cons_self hk
    have hins : T.insert now r = .ok { T with rows := T.rows ++ [T.schema.fill now r] } := by
      rw [Table.insert, Table.assign_of_none ha]
      exact if_pos ⟨hadm r List.mem_cons_self, hfree⟩
    rw [Table.insertAll, hins]
    dsimp only
    rw [ih]
    · simp
    · exact ha
    · exact fun r' hr' => hadm r' (List.mem_cons_of_mem r hr')
    · simpa using hp

theorem Table.insertAll_refused {T : Table} (ha : T.schema.rowidAlias = none)
    (h : T.schema.admits (T.schema.fill now r) = false) :
    T.insertAll now (r :: rs) = .error .constraint := by
  rw [Table.insertAll, Table.insert, Table.assign_of_none ha, if_neg]
  intro hadm
  rw [h] at hadm
  cases hadm.1

end Relational
