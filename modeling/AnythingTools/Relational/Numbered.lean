import AnythingTools.Relational.Update
import AnythingTools.Relational.Upsert

namespace Relational
set_option autoImplicit true

/-! ### Tables that number their rows -/

theorem le_foldl {f : Int → α → Int} (h : ∀ m a, m ≤ f m a) (l : List α) (m : Int) :
    m ≤ l.foldl f m := by
  induction l generalizing m with
  | nil => exact Int.le_refl m
  | cons a l ih => exact Int.le_trans (h m a) (ih (f m a))

theorem Table.nextRowid_pos (T : Table) (n : String) : 0 < T.nextRowid n := by
  rw [Table.nextRowid]
  refine Int.add_pos_of_pos_of_nonneg Int.one_pos (le_foldl (fun m r => ?_) T.rows 0)
  split
  next => exact Int.le_max_left _ _
  next => exact Int.le_refl m

/-- A row without a number gets the next one, and keeps its other cells. -/
theorem Table.assign_unnumbered {T : Table} (hn : T.schema.rowidAlias = some n)
    (hnull : row.get n = .null) (hc : n ∈ row.columns) :
    (T.assign row).get n = .int (T.nextRowid n) ∧
      ∀ c, c ≠ n → (T.assign row).get c = row.get c := by
  rw [Table.assign, hn]
  dsimp only
  rw [if_pos hnull]
  exact ⟨Row.get_set_self row _ hc, fun c hne => Row.get_set_ne row _ hne⟩

/-- The numbers of the rows, in the order in which they were inserted. -/
def Numbered (n : String) (rows : List Row) : Prop :=
  (∀ r ∈ rows, ∃ k : Int, r.get n = .int k ∧ 0 < k) ∧
    rows.Pairwise fun r r' => ∀ k k' : Int, r.get n = .int k → r'.get n = .int k' → k < k'

theorem Numbered.concat (h : Numbered n rows) (hk : r.get n = .int k) (hpos : 0 < k)
    (hlt : ∀ r' ∈ rows, ∀ k', r'.get n = .int k' → k' < k) : Numbered n (rows ++ [r]) := by
  refine ⟨fun r' hr' => ?_, ?_⟩
  · rcases List.mem_append.1 hr' with hr' | hr'
    · exact h.1 r' hr'
    · rw [List.mem_singleton.1 hr']
      exact ⟨k, hk, hpos⟩
  · rw [List.pairwise_append]
    refine ⟨h.2, List.pairwise_singleton _ _, fun r' hr' r'' hr'' k' k'' hk' hk'' => ?_⟩
    rw [List.mem_singleton.1 hr'', hk, Value.int.injEq] at hk''
    rw [← hk'']
    exact hlt r' hr' k' hk'

namespace Database

theorem rows_append_self (hT : find db t = some T) (row : Row) :
    (append db t row).rows t = db.rows t ++ [row] := by
  have hf : (append db t row).find t = some { T with rows := T.rows ++ [row] } := by
    rw [append, find_update_self, hT]
    rfl
  rw [rows_of_find hf, rows_of_find hT]

theorem rows_append_ne (row : Row) (h : u ≠ t) : (append db t row).rows u = db.rows u := by
  rw [append, Database.rows, find_update_ne db _ h, Database.rows]

/-- An `INSERT OR IGNORE` that the constraints let in and that collides with no row. -/
theorem insertOrIgnore_appends (hT : find db t = some T)
    (ha : T.schema.admits (T.assign (T.schema.fill now r)) = true)
    (hc : ∀ r' ∈ T.rows, T.schema.conflicts (T.assign (T.schema.fill now r)) r' = false)
    (h : insertOrIgnore now db t r = .ok db') :
    db' = append db t (T.assign (T.schema.fill now r)) ∧
      db'.parentsPresent T.schema (T.assign (T.schema.fill now r)) = true := by
  rw [insertOrIgnore, hT] at h
  dsimp only at h
  have hany : ¬ T.rows.any (T.schema.conflicts (T.assign (T.schema.fill now r))) = true := by
    rw [Bool.not_eq_true, List.any_eq_false]
    exact fun r' hr' => Bool.eq_false_iff.1 (hc r' hr')
  rw [if_pos ⟨ha, hany⟩] at h
  split at h
  next hp =>
    cases h
    exact ⟨rfl, hp⟩
  next => cases h

end Database
end Relational
