import AnythingTools.Relational.Transaction
import AnythingTools.Sync.PullToLocal

namespace Sync
open Relational Relational.Database Schemas
set_option autoImplicit true

/-- The record of a cloud row; an empty hash is computed anew. -/
theorem mem_pullRecords (h : r ∈ pullRecords e t C) : ∃ p ∈ C.rows, r.columns = C.schema.names ∧
    ∀ c ∈ C.schema.names, (c = "content_hash" → Python.truthy (p.get c) = true) →
      r.get c = p.get c := by
  rw [pullRecords] at h
  obtain ⟨b, hb, he⟩ := List.mem_map.1 h
  have hbuilt : ∃ p ∈ C.rows, b = Row.build C.schema.names p.get := by
    split at hb
    · obtain ⟨p, hp, hbp⟩ := List.mem_map.1 (List.mem_filter.1 hb).1
      exact ⟨p, hp, hbp.symm⟩
    · obtain ⟨p, hp, hbp⟩ := List.mem_map.1 hb
      exact ⟨p, hp, hbp.symm⟩
  obtain ⟨p, hp, hbp⟩ := hbuilt
  refine ⟨p, hp, ?_, ?_⟩
  · rw [← he]
    split
    · rw [Row.columns_set, hbp, Row.columns_build]
    · rw [hbp, Row.columns_build]
  · intro c hc hhash
    rw [← he]
    split
    next hset =>
      have hne : c ≠ "content_hash" := by
        intro hch
        subst hch
        rw [hbp, Row.get_build_of_mem hc] at hset
        exact hset.2 (hhash rfl)
      rw [Row.get_set_ne _ _ hne, hbp, Row.get_build_of_mem hc]
    · rw [hbp, Row.get_build_of_mem hc]

/-- What a staging database holds: the registered tables, their rows apart, each of them made of
a cloud row. -/
structure Staged (e : Env) (cloud temp : Database) : Prop where
  schemas : ∀ p ∈ e.tables, isVirtual p.2 = false →
    ∃ T, temp.find p.1 = some T ∧ T.schema = p.2.schema
  apart : RowsApart temp
  rows : ∀ t T, temp.find t = some T → ∀ q ∈ T.rows,
    ∃ C, cloud.find t = some C ∧ ∃ r ∈ pullRecords e t C, T.schema.Stores e.now r q

theorem staged_stagingTables (e : Env) (cloud : Database) : Staged e cloud (stagingTables e) := by
  have hempty (t : String) (T : Table) (hT : (stagingTables e).find t = some T) : T.rows = [] := by
    rw [← rows_of_find hT]
    exact rows_ofSchemas _ t
  refine ⟨?_, ?_, ?_⟩
  · intro p hp hv
    have hnodup : (((e.tables.filter fun p => !isVirtual p.2).map fun p =>
        (p.1, p.2.schema)).map Prod.fst).Nodup := by
      rw [Env.tables]
      cases e.sqliteVecAvailable <;> decide
    have hm : (p.1, p.2.schema) ∈ (e.tables.filter fun p => !isVirtual p.2).map fun p =>
        (p.1, p.2.schema) :=
      List.mem_map.2 ⟨p, List.mem_filter.2 ⟨hp, by rw [hv]; rfl⟩, rfl⟩
    exact ⟨_, find_ofSchemas hnodup hm, rfl⟩
  · intro t T hT
    rw [hempty t T hT]
    exact .nil
  · intro t T hT q hq
    rw [hempty t T hT] at hq
    cases hq

/-- The rows of one table are pulled. -/
theorem Staged.pull (h : Staged e cloud temp) (hC : cloud.find t = some C)
    (hT : temp.find t = some T) (hu : T.upsertAll e.now (pullRecords e t C) = .ok T') :
    Staged e cloud (temp.update t fun _ => T') := by
  have hs := Table.upsertAll_schema hu
  have hfind : (temp.update t fun _ => T').find t = some T' := by
    rw [find_update_self, hT]
    rfl
  have hfind_ne {u : String} (hu : u ≠ t) :
      (temp.update t fun _ => T').find u = temp.find u := find_update_ne temp _ hu
  refine ⟨?_, ?_, ?_⟩
  · intro p hp hv
    obtain ⟨U, hU, hd⟩ := h.schemas p hp hv
    by_cases hpt : p.1 = t
    · rw [hpt, hT, Option.some.injEq] at hU
      subst hU
      exact ⟨T', by rw [hpt]; exact hfind, hs.trans hd⟩
    · exact ⟨U, by rw [hfind_ne hpt]; exact hU, hd⟩
  · intro u U hU
    by_cases hut : u = t
    · subst hut
      rw [hfind, Option.some.injEq] at hU
      subst hU
      exact Table.upsertAll_apart hu (h.apart u T hT)
    · rw [hfind_ne hut] at hU
      exact h.apart u U hU
  · intro u U hU q hq
    by_cases hut : u = t
    · subst hut
      rw [hfind, Option.some.injEq] at hU
      subst hU
      rw [hs]
      rcases Table.mem_upsertAll hu hq with hold | ⟨r, hr, hst⟩
      · exact h.rows u T hT q hold
      · exact ⟨C, hC, r, hr, hst⟩
    · rw [hfind_ne hut] at hU
      exact h.rows u U hU q hq

theorem Staged.pullTables {l : List (String × TableDdl)} (h : Staged e cloud temp)
    (hp : pullTables e cloud l temp = .ok temp') : Staged e cloud temp' := by
  induction l generalizing temp with
  | nil =>
    cases hp
    exact h
  | cons p l ih =>
    obtain ⟨t, d⟩ := p
    rw [Sync.pullTables] at hp
    split at hp
    case isTrue => exact ih h hp
    case isFalse =>
      split at hp
      next C T hC hT =>
        split at hp
        next T' hu => exact ih (h.pull hC hT hu) hp
        next => cases hp
      next => cases hp

theorem staged_pullToLocal (h : pullToLocal e cloud = .ok temp) : Staged e cloud temp :=
  (staged_stagingTables e cloud).pullTables h

end Sync
