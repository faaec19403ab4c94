import AnythingTools.Relational.Alter

namespace Relational
namespace Database
open Session
set_option autoImplicit true

/-- The second database differs from the first only in one table and in new indexes on it. -/
structure OnlyTable (t : String) (db db' : Database) : Prop where
  find : ∀ {u}, u ≠ t → db'.find u = db.find u
  kept : ∀ {n ix}, db.indexes.lookup n = some ix → db'.indexes.lookup n = some ix
  added : ∀ {n ix}, db'.indexes.lookup n = some ix →
    ix.table = t ∧ n ≠ t ∨ db.indexes.lookup n = some ix

theorem OnlyTable.refl (t : String) (db : Database) : OnlyTable t db db where
  find _ := rfl
  kept h := h
  added h := .inr h

theorem OnlyTable.trans (h : OnlyTable t db₁ db₂) (h' : OnlyTable t db₂ db₃) :
    OnlyTable t db₁ db₃ where
  find hu := (h'.find hu).trans (h.find hu)
  kept hn := h'.kept (h.kept hn)
  added hn := by
    rcases h'.added hn with ht | hn
    · exact .inl ht
    · exact h.added hn

instance : IsPreorder Database (OnlyTable t) where
  refl := OnlyTable.refl t
  trans _ _ _ := OnlyTable.trans

theorem onlyTable_update (db : Database) (t : String) (f : Table → Table) :
    OnlyTable t db (db.update t f) where
  find hu := find_update_ne db f hu
  kept h := h
  added h := .inr h

theorem createTable_onlyTable (h : createTable db b t S = .ok db') : OnlyTable t db db' := by
  rw [createTable] at h
  cases hf : db.find t with
  | some T =>
    rw [hf] at h
    dsimp only at h
    split at h
    case isTrue =>
      cases h
      exact .refl t db
    case isFalse => cases h
  | none =>
    rw [hf] at h
    dsimp only at h
    split at h
    case isTrue => cases h
    case isFalse =>
      cases h
      exact ⟨fun hu => AList.lookup_insert_ne hu, fun hn => hn, fun hn => .inr hn⟩

theorem createIndex_onlyTable (h : createIndex db t d = .ok db') : OnlyTable t db db' := by
  rw [createIndex] at h
  cases hf : db.find t with
  | none =>
    rw [hf] at h
    cases h
  | some T =>
    rw [hf] at h
    dsimp only at h
    split at h
    case isTrue => cases h
    case isFalse hfree =>
      split at h
      case isTrue =>
        split at h
        case isTrue =>
          cases h
          exact .refl t db
        case isFalse => cases h
      case isFalse hn =>
        split at h
        case isFalse => cases h
        case isTrue =>
          cases h
          refine ⟨fun _ => rfl, ?_, ?_⟩
          · intro n ix hx
            by_cases he : n = d.name
            · subst he
              rw [hx] at hn
              exact (hn rfl).elim
            · exact (AList.lookup_insert_ne he).trans hx
          · intro n ix hx
            by_cases he : n = d.name
            · subst he
              have hx' := (AList.lookup_insert db.indexes).symm.trans hx
              cases hx'
              refine .inl ⟨rfl, fun he => ?_⟩
              rw [he, hf] at hfree
              exact hfree rfl
            · exact .inr ((AList.lookup_insert_ne he).symm.trans hx)

/-- The statement is about the table. -/
def DdlStmt.On (t : String) : DdlStmt → Prop
  | .table _ u _ => u = t
  | .index u _ => u = t

theorem execDdl_onlyTable (hs : s.On t) (h : execDdl db s = .ok db') : OnlyTable t db db' := by
  cases s with
  | table b u S =>
    cases hs
    exact createTable_onlyTable h
  | index u d =>
    cases hs
    exact createIndex_onlyTable h

/-- A script on one table changes nothing else, however far it gets. -/
theorem executescript_onlyTable (hs : ∀ s ∈ ss, DdlStmt.On t s) :
    Frames (OnlyTable t) (executescript ss) := by
  apply Frames.forM
  intro s hm
  apply Frames.stmt
  intro db db' h
  exact execDdl_onlyTable (hs s hm) h

theorem insertRows_onlyTable (h : insertRows now db t rs = .ok db') : OnlyTable t db db' := by
  rw [insertRows] at h
  cases hf : db.find t with
  | none =>
    rw [hf] at h
    cases h
  | some T =>
    rw [hf] at h
    dsimp only at h
    cases hi : T.insertAll now rs with
    | error e =>
      rw [hi] at h
      cases h
    | ok T' =>
      rw [hi] at h
      dsimp only at h
      split at h
      case isFalse => cases h
      case isTrue =>
        cases h
        exact onlyTable_update db t _

theorem updateWhere_onlyTable (h : updateWhere db t c v p = .ok db') : OnlyTable t db db' := by
  rw [updateWhere] at h
  cases hf : db.find t with
  | none =>
    rw [hf] at h
    cases h
  | some T =>
    rw [hf] at h
    dsimp only at h
    split at h
    case isTrue => cases h
    case isFalse =>
      split at h
      case isFalse => cases h
      case isTrue =>
        split at h
        case isFalse => cases h
        case isTrue =>
          cases h
          exact onlyTable_update db t _

end Database
end Relational
