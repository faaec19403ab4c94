import AnythingTools.Relational.Alter

namespace Relational
set_option autoImplicit true

/-- The matched row of a `MERGE`: the source's cells, in the columns outside the key. -/
def Schema.overwrite (S : Schema) (key cols : List String) (q s : Row) : Row :=
  Row.build S.names fun n => if n ∈ cols ∧ n ∉ key then s.get n else q.get n

/-- `MERGE ... ON <key> WHEN MATCHED THEN UPDATE WHEN NOT MATCHED THEN INSERT`. -/
def Table.mergeRows (now : String) (key cols : List String) (C : Table) (src : List Row) :
    List Row :=
  (C.rows.map fun q =>
    match src.find? (Row.sameKey key q) with
    | some s => C.schema.overwrite key cols q s
    | none => q) ++
  (src.filter fun s => !C.rows.any fun q => Row.sameKey key q s).map (C.schema.fill now)

/-- A row that two sources match is an error. -/
def Table.merge (now : String) (key cols : List String) (C : Table) (src : List Row) :
    Except SqlError Table :=
  match cols.find? fun c => decide (c ∉ C.schema.names) with
  | some c => .error (.noSuchColumn c)
  | none =>
    if C.rows.any fun q => decide (1 < src.countP (Row.sameKey key q)) then .error .constraint
    else if (C.mergeRows now key cols src).all C.schema.notNulls then
      .ok { C with rows := C.mergeRows now key cols src }
    else .error .constraint

/-- Some row of the table holds the same cells. -/
def Table.Held (C : Table) (cols : List String) (r : Row) : Prop := ∃ q ∈ C.rows, Row.Agree cols r q

/-- The sources of a merge: rows of the given columns, one to a key. -/
structure Sources (key cols : List String) (src : List Row) : Prop where
  columns : ∀ s ∈ src, s.columns = cols
  single : ∀ s ∈ src, ∀ s' ∈ src, Row.sameKey key s s' = true → s = s'

theorem Sources.subset (h : Sources key cols src) (hs : ∀ s ∈ src', s ∈ src) :
    Sources key cols src' where
  columns s hm := h.columns s (hs s hm)
  single s hm s' hm' := h.single s (hs s hm) s' (hs s' hm')

theorem Schema.overwrite_agree {S : Schema} (hc : ∀ c ∈ cols, c ∈ S.names)
    (hk : Row.sameKey key q s = true) : Row.Agree cols (S.overwrite key cols q s) s := by
  intro c hm
  rw [Schema.overwrite, Row.get_build_of_mem (hc c hm)]
  by_cases hcol : c ∈ key
  · rw [if_neg fun h => h.2 hcol]
    exact (Row.sameKey_iff.1 hk c hcol).2
  · rw [if_pos ⟨hm, hcol⟩]

theorem Schema.fill_agree {S : Schema} (hc : ∀ c ∈ cols, c ∈ S.names) (hs : s.columns = cols)
    (now : String) : Row.Agree cols (S.fill now s) s := by
  intro c hm
  have hn := hc c hm
  rw [Schema.fill, Row.get_build_of_mem hn]
  cases hcol : S.column? c with
  | none =>
    obtain ⟨d, hd, he⟩ := List.mem_map.1 hn
    have hnone := List.find?_eq_none.1 hcol d hd
    rw [he] at hnone
    simp at hnone
  | some d =>
    dsimp only
    rw [if_pos (hs ▸ hm)]

theorem Table.merge_ok (h : Table.merge now key cols C src = .ok C') :
    (∀ c ∈ cols, c ∈ C.schema.names) ∧ C'.schema = C.schema ∧
      C'.rows = C.mergeRows now key cols src := by
  rw [Table.merge] at h
  split at h
  · cases h
  next hf =>
    split at h
    · cases h
    · split at h
      · cases h
        refine ⟨?_, rfl, rfl⟩
        intro c hc
        have hn := List.find?_eq_none.1 hf c hc
        simpa using hn
      · cases h

/-- After a merge, what the sources hold is there, and of the rest what no source has the key of. -/
theorem Table.held_merge (h : Table.merge now key cols C src = .ok C')
    (hk : ∀ c ∈ key, c ∈ cols) (hsrc : Sources key cols src) (r : Row) :
    C'.Held cols r ↔ (∃ s ∈ src, Row.Agree cols r s) ∨
      (∀ s ∈ src, Row.sameKey key r s = false) ∧ C.Held cols r := by
  obtain ⟨hc, _, hrows⟩ := Table.merge_ok h
  rw [Table.Held, hrows]
  constructor
  · intro ⟨q, hq, ha⟩
    rcases List.mem_append.1 hq with hq | hq
    · obtain ⟨q₀, hq₀, he⟩ := List.mem_map.1 hq
      cases hf : src.find? (Row.sameKey key q₀) with
      | some s =>
        rw [hf] at he
        have hs := List.mem_of_find?_eq_some hf
        have hm := List.find?_some hf
        subst he
        exact .inl ⟨s, hs, ha.trans (Schema.overwrite_agree hc hm)⟩
      | none =>
        rw [hf] at he
        subst he
        refine .inr ⟨?_, q₀, hq₀, ha⟩
        intro s hs
        rw [Row.sameKey_agree (ha.subset hk), ← Bool.not_eq_true]
        exact List.find?_eq_none.1 hf s hs
    · obtain ⟨s, hs, he⟩ := List.mem_map.1 hq
      have hs := (List.mem_filter.1 hs).1
      subst he
      exact .inl ⟨s, hs, ha.trans (Schema.fill_agree hc (hsrc.columns s hs) now)⟩
  · intro hor
    rcases hor with ⟨s, hs, ha⟩ | ⟨hno, q, hq, ha⟩
    · by_cases hany : C.rows.any (fun q => Row.sameKey key q s) = true
      · obtain ⟨q, hq, hm⟩ := List.any_eq_true.1 hany
        refine ⟨_, List.mem_append_left _ (List.mem_map.2 ⟨q, hq, rfl⟩), ?_⟩
        cases hf : src.find? (Row.sameKey key q) with
        | none => exact absurd hm (List.find?_eq_none.1 hf s hs)
        | some s' =>
          have hm' := List.find?_some hf
          have he := hsrc.single s hs s' (List.mem_of_find?_eq_some hf)
            (Row.sameKey_trans (Row.sameKey_symm hm) hm')
          subst he
          exact ha.trans (Schema.overwrite_agree hc hm').symm
      · refine ⟨C.schema.fill now s, ?_, ha.trans
          (Schema.fill_agree hc (hsrc.columns s hs) now).symm⟩
        apply List.mem_append_right
        apply List.mem_map_of_mem
        rw [List.mem_filter]
        exact ⟨hs, by rw [Bool.not_eq_true] at hany; rw [hany]; rfl⟩
    · refine ⟨q, ?_, ha⟩
      apply List.mem_append_left
      rw [List.mem_map]
      refine ⟨q, hq, ?_⟩
      have hf : src.find? (Row.sameKey key q) = none := by
        rw [List.find?_eq_none]
        intro s hs
        rw [← Row.sameKey_agree (ha.subset hk), hno s hs]
        exact Bool.false_ne_true
      rw [hf]

/-- Merges in batches hold what one merge would. -/
theorem Table.held_mergeAll {C : Table} {bs : List (List Row)}
    (h : bs.foldlM (Table.merge now key cols) C = .ok C') (hk : ∀ c ∈ key, c ∈ cols)
    (hsrc : Sources key cols bs.flatten) (r : Row) :
    C'.Held cols r ↔ (∃ s ∈ bs.flatten, Row.Agree cols r s) ∨
      (∀ s ∈ bs.flatten, Row.sameKey key r s = false) ∧ C.Held cols r := by
  induction bs generalizing C with
  | nil =>
    cases h
    simp
  | cons b bs ih =>
    rw [List.foldlM_cons] at h
    cases hm : C.merge now key cols b with
    | error e =>
      rw [hm] at h
      cases h
    | ok C₁ =>
      rw [hm] at h
      have hb : ∀ s ∈ b, s ∈ (b :: bs).flatten := by
        intro s hs
        rw [List.flatten_cons]
        exact List.mem_append_left _ hs
      have hbs : ∀ s ∈ bs.flatten, s ∈ (b :: bs).flatten := by
        intro s hs
        rw [List.flatten_cons]
        exact List.mem_append_right _ hs
      rw [ih h (hsrc.subset hbs), Table.held_merge hm hk (hsrc.subset hb), List.flatten_cons]
      simp only [List.mem_append]
      constructor
      · intro hor
        rcases hor with ⟨s, hs, ha⟩ | ⟨hno, ⟨s, hs, ha⟩ | ⟨hno', hq⟩⟩
        · exact .inl ⟨s, .inr hs, ha⟩
        · exact .inl ⟨s, .inl hs, ha⟩
        · refine .inr ⟨?_, hq⟩
          intro s hs
          rcases hs with hs | hs
          · exact hno' s hs
          · exact hno s hs
      · intro hor
        rcases hor with ⟨s, hs | hs, ha⟩ | ⟨hno, hq⟩
        · by_cases hex : ∃ s' ∈ bs.flatten, Row.sameKey key r s' = true
          · obtain ⟨s', hs', hkey⟩ := hex
            rw [Row.sameKey_agree (ha.subset hk)] at hkey
            have he := hsrc.single s (hb s hs) s' (hbs s' hs') hkey
            exact .inl ⟨s', hs', he ▸ ha⟩
          · refine .inr ⟨?_, .inl ⟨s, hs, ha⟩⟩
            intro s' hs'
            rw [← Bool.not_eq_true]
            exact fun hkey => hex ⟨s', hs', hkey⟩
        · exact .inl ⟨s, hs, ha⟩
        · exact .inr ⟨fun s hs => hno s (.inr hs), .inr ⟨fun s hs => hno s (.inl hs), hq⟩⟩

/-- The rows with the key of `p` hold its cells, and one of them is there. -/
def Table.Shows (T : Table) (key cols : List String) (p : Row) : Prop :=
  T.Held cols p ∧ ∀ q ∈ T.rows, Row.sameKey key p q = true → Row.Agree cols p q

end Relational
