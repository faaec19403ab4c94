import AnythingTools.Relational.Merge
import Mathlib.Data.List.Induction
import Mathlib.Data.List.Perm.Basic

namespace Relational
set_option autoImplicit true

/-- The `MERGE` of a single row. -/
def Schema.mergeRow (S : Schema) (now : String) (key : List String) (s : Row) (rows : List Row) :
    List Row :=
  if rows.any fun q => Row.sameKey key q s then
    rows.map fun q => if Row.sameKey key q s = true then S.overwrite key s.columns q s else q
  else rows ++ [S.fill now s]

/-- The row has the key columns, and only columns of the table. -/
structure Fits (S : Schema) (key : List String) (s : Row) : Prop where
  keyed : ∀ c ∈ key, c ∈ s.columns
  named : ∀ c ∈ s.columns, c ∈ S.names

theorem Schema.overwrite_key {S : Schema} (hk : ∀ c ∈ key, c ∈ S.names) (cols : List String)
    (q s : Row) : Row.Agree key (S.overwrite key cols q s) q := by
  intro c hc
  rw [Schema.overwrite, Row.get_build_of_mem (hk c hc), if_neg fun h => h.2 hc]

theorem Fits.keyNames (h : Fits S key s) : ∀ c ∈ key, c ∈ S.names :=
  fun c hc => h.named c (h.keyed c hc)

theorem Fits.fill (h : Fits S key s) (now : String) : Row.Agree s.columns (S.fill now s) s :=
  Schema.fill_agree h.named rfl now

theorem Fits.fill_key (h : Fits S key s) (now : String) : Row.Agree key (S.fill now s) s :=
  (h.fill now).subset h.keyed

/-- What the merge does to a row that is there. -/
def Schema.touch (S : Schema) (key : List String) (s q : Row) : Row :=
  if Row.sameKey key q s = true then S.overwrite key s.columns q s else q

theorem touch_key {S : Schema} (h : Fits S key s) (q : Row) : Row.Agree key (S.touch key s q) q := by
  rw [Schema.touch]
  split
  · exact Schema.overwrite_key h.keyNames _ _ _
  · exact Row.Agree.refl _ _

theorem mergeRow_map {S : Schema} {rows : List Row}
    (h : rows.any (fun q => Row.sameKey key q s) = true) :
    S.mergeRow now key s rows = rows.map (S.touch key s) := if_pos h

theorem mergeRow_append {S : Schema} {rows : List Row}
    (h : rows.any (fun q => Row.sameKey key q s) = false) :
    S.mergeRow now key s rows = rows ++ [S.fill now s] := by
  rw [Schema.mergeRow, if_neg]
  rw [h]
  exact Bool.false_ne_true

theorem any_touch {S : Schema} {rows : List Row} (h : Fits S key p) :
    ((rows.map (S.touch key p)).any fun q => Row.sameKey key q s) =
      rows.any fun q => Row.sameKey key q s := by
  rw [List.any_map]
  congr 1
  funext q
  exact Row.sameKey_agree (touch_key h q) s

theorem touch_comm {S : Schema} (hs : Fits S key s) (hp : Fits S key p)
    (hne : Row.sameKey key s p = false) (q : Row) :
    S.touch key s (S.touch key p q) = S.touch key p (S.touch key s q) := by
  by_cases h : Row.sameKey key q s = true
  · have hqp : ¬ Row.sameKey key q p = true := by
      intro hqp
      have hsp := Row.sameKey_trans (Row.sameKey_symm h) hqp
      rw [hne] at hsp
      cases hsp
    have hp' : S.touch key p q = q := if_neg hqp
    have hs' : ¬ Row.sameKey key (S.touch key s q) p = true := by
      rw [Row.sameKey_agree (touch_key hs q)]
      exact hqp
    rw [hp']
    exact (if_neg hs').symm
  · have hs' : S.touch key s q = q := if_neg h
    have hp' : ¬ Row.sameKey key (S.touch key p q) s = true := by
      rw [Row.sameKey_agree (touch_key hp q)]
      exact h
    rw [hs']
    exact if_neg hp'

theorem touch_fill {S : Schema} (hp : Fits S key p) (hne : Row.sameKey key s p = false) :
    S.touch key s (S.fill now p) = S.fill now p := by
  rw [Schema.touch, if_neg]
  rw [Row.sameKey_agree (hp.fill_key now), Row.sameKey_comm, hne]
  exact Bool.false_ne_true

theorem any_fill {S : Schema} {rows : List Row} (hp : Fits S key p)
    (hne : Row.sameKey key s p = false) :
    ((rows ++ [S.fill now p]).any fun q => Row.sameKey key q s) =
      rows.any fun q => Row.sameKey key q s := by
  rw [List.any_append, List.any_cons, List.any_nil, Row.sameKey_agree (hp.fill_key now),
    Row.sameKey_comm, hne, Bool.or_false, Bool.or_false]

/-- Rows of different keys merge in any order. -/
theorem mergeRow_swap {S : Schema} {rows : List Row} (hs : Fits S key s) (hp : Fits S key p)
    (hne : Row.sameKey key s p = false) :
    (S.mergeRow now key s (S.mergeRow now key p rows)).Perm
      (S.mergeRow now key p (S.mergeRow now key s rows)) := by
  have hne' : Row.sameKey key p s = false := by rw [Row.sameKey_comm, hne]
  have hmaps : (rows.map (S.touch key p)).map (S.touch key s) =
      (rows.map (S.touch key s)).map (S.touch key p) := by
    rw [List.map_map, List.map_map]
    apply List.map_congr_left
    intro q _
    exact touch_comm hs hp hne q
  by_cases has : (rows.any fun q => Row.sameKey key q s) = true <;>
    by_cases hap : (rows.any fun q => Row.sameKey key q p) = true
  · rw [mergeRow_map hap, mergeRow_map has, mergeRow_map (by rw [any_touch hp]; exact has),
      mergeRow_map (by rw [any_touch hs]; exact hap), hmaps]
  · rw [Bool.not_eq_true] at hap
    rw [mergeRow_append hap, mergeRow_map has, mergeRow_map (by rw [any_fill hp hne]; exact has),
      mergeRow_append (by rw [any_touch hs]; exact hap), List.map_append, List.map_singleton,
      touch_fill hp hne]
  · rw [Bool.not_eq_true] at has
    rw [mergeRow_map hap, mergeRow_append has, mergeRow_append (by rw [any_touch hp]; exact has),
      mergeRow_map (by rw [any_fill hs hne']; exact hap), List.map_append, List.map_singleton,
      touch_fill hs hne']
  · rw [Bool.not_eq_true] at has hap
    rw [mergeRow_append hap, mergeRow_append has, mergeRow_append (by rw [any_fill hp hne]; exact has),
      mergeRow_append (by rw [any_fill hs hne']; exact hap), List.append_assoc, List.append_assoc]
    exact (List.Perm.swap _ _ []).append_left rows

/-- The same cells in the same columns. -/
def SameCells (r s : Row) : Prop := (∀ c, c ∈ r.columns ↔ c ∈ s.columns) ∧ ∀ c, r.get c = s.get c

theorem fill_congr {S : Schema} (h : SameCells r s) : S.fill now r = S.fill now s := by
  apply List.map_congr_left
  intro n _
  simp only [h.1, h.2]

theorem overwrite_congr {S : Schema} (h : SameCells r s) :
    S.overwrite key r.columns q r = S.overwrite key s.columns q s := by
  apply List.map_congr_left
  intro n _
  simp only [h.1, h.2]

theorem mergeRow_congr {S : Schema} (h : SameCells r s) (rows : List Row) :
    S.mergeRow now key r rows = S.mergeRow now key s rows := by
  have hkey (q : Row) : Row.sameKey key q r = Row.sameKey key q s :=
    Row.sameKey_agree_right (fun c _ => h.2 c) q
  rw [Schema.mergeRow, Schema.mergeRow]
  simp only [hkey, overwrite_congr h, fill_congr h]

/-- A later row of the same key and columns covers an earlier one. -/
theorem mergeRow_absorb {S : Schema} {rows : List Row} (ha : Fits S key a)
    (hcols : ∀ c, c ∈ a.columns ↔ c ∈ s.columns) (hk : Row.sameKey key a s = true) :
    S.mergeRow now key s (S.mergeRow now key a rows) = S.mergeRow now key s rows := by
  have hsame (q : Row) : Row.sameKey key q a = Row.sameKey key q s := by
    rw [Bool.eq_iff_iff]
    constructor
    · exact fun h => Row.sameKey_trans h hk
    · exact fun h => Row.sameKey_trans h (Row.sameKey_symm hk)
  by_cases hany : (rows.any fun q => Row.sameKey key q s) = true
  · have hany' : (rows.any fun q => Row.sameKey key q a) = true := by
      simp only [hsame]
      exact hany
    rw [mergeRow_map hany', mergeRow_map (by rw [any_touch ha]; exact hany), mergeRow_map hany,
      List.map_map]
    apply List.map_congr_left
    intro q _
    rw [Function.comp_apply]
    by_cases hq : Row.sameKey key q s = true
    · have hq' : Row.sameKey key (S.touch key a q) s = true := by
        rw [Row.sameKey_agree (touch_key ha q)]
        exact hq
      rw [Schema.touch, if_pos hq', Schema.touch, if_pos (hsame q ▸ hq), Schema.touch, if_pos hq]
      apply List.map_congr_left
      intro n hn
      dsimp only
      rw [Schema.overwrite, Row.get_build_of_mem hn]
      simp only [hcols]
      split <;> rfl
    · have hq' : ¬ Row.sameKey key (S.touch key a q) s = true := by
        rw [Row.sameKey_agree (touch_key ha q)]
        exact hq
      rw [Schema.touch, if_neg hq', Schema.touch, if_neg (hsame q ▸ hq), Schema.touch, if_neg hq]
  · rw [Bool.not_eq_true] at hany
    have hany' : (rows.any fun q => Row.sameKey key q a) = false := by
      simp only [hsame]
      exact hany
    have hfill : Row.sameKey key (S.fill now a) s = true := by
      rw [Row.sameKey_agree (ha.fill_key now)]
      exact hk
    rw [mergeRow_append hany', mergeRow_map (by
      rw [List.any_append, List.any_cons, hfill, Bool.true_or, Bool.or_true]),
      mergeRow_append hany, List.map_append, List.map_singleton]
    have hold : rows.map (S.touch key s) = rows := by
      refine (List.map_congr_left (g := fun q => q) fun q hq => ?_).trans (List.map_id' _)
      rw [Schema.touch, if_neg]
      intro hqs
      have ht : (rows.any fun q => Row.sameKey key q s) = true := List.any_eq_true.2 ⟨q, hq, hqs⟩
      rw [hany] at ht
      cases ht
    rw [hold, Schema.touch, if_pos hfill]
    congr 2
    apply List.map_congr_left
    intro n hn
    dsimp only
    rw [Schema.fill, Row.get_build_of_mem hn]
    by_cases hs' : n ∈ s.columns
    · cases hcol : S.column? n with
      | none =>
        -- every name has a column
        obtain ⟨d, hd, he⟩ := List.mem_map.1 hn
        have hnone := List.find?_eq_none.1 hcol d hd
        rw [he] at hnone
        simp at hnone
      | some d =>
        dsimp only
        rw [if_pos hs', if_pos ((hcols n).2 hs')]
        split
        · rfl
        next h =>
          have hkn : n ∈ key := by
            by_contra hno
            exact h ⟨hs', hno⟩
          rw [(Row.sameKey_iff.1 hk n hkn).2]
    · rw [if_neg fun h => hs' h.1]
      cases S.column? n with
      | none => rfl
      | some d =>
        dsimp only
        rw [if_neg hs', if_neg fun h => hs' ((hcols n).1 h)]

/-- A row after the merge was there before, or holds the cells of the source. -/
theorem mem_mergeRow {S : Schema} {rows : List Row} (h : Fits S key s)
    (hq : q ∈ S.mergeRow now key s rows) : q ∈ rows ∨ Row.Agree s.columns q s := by
  rw [Schema.mergeRow] at hq
  split at hq
  · obtain ⟨q₀, hq₀, he⟩ := List.mem_map.1 hq
    subst he
    split
    next hk => exact .inr (Schema.overwrite_agree h.named hk)
    next => exact .inl hq₀
  · rcases List.mem_append.1 hq with hq | hq
    · exact .inl hq
    · rw [List.mem_singleton.1 hq]
      exact .inr (h.fill now)

/-- A row after the merge holds the cells of the source. -/
theorem exists_mergeRow {S : Schema} (h : Fits S key s) (now : String) (rows : List Row) :
    ∃ q ∈ S.mergeRow now key s rows, Row.Agree s.columns q s := by
  rw [Schema.mergeRow]
  split
  next hany =>
    obtain ⟨q, hq, hk⟩ := List.any_eq_true.1 hany
    refine ⟨_, List.mem_map.2 ⟨q, hq, rfl⟩, ?_⟩
    rw [if_pos hk]
    exact Schema.overwrite_agree h.named hk
  next => exact ⟨_, List.mem_append_right _ (List.mem_singleton_self _), h.fill now⟩

theorem mergeRow_perm {S : Schema} {rows rows' : List Row} (h : rows.Perm rows') :
    (S.mergeRow now key s rows).Perm (S.mergeRow now key s rows') := by
  have hany : (rows.any fun q => Row.sameKey key q s) = rows'.any fun q => Row.sameKey key q s := by
    rw [Bool.eq_iff_iff, List.any_eq_true, List.any_eq_true]
    simp only [h.mem_iff]
  rw [Schema.mergeRow, Schema.mergeRow, hany]
  split
  · exact h.map _
  · exact h.append_right _

/-- Rows that stay clear of a deletion merge before or after it. -/
theorem mergeRow_filter {S : Schema} {rows : List Row} {keep : Row → Bool}
    (hold : ∀ q ∈ rows, Row.sameKey key q s = true → keep q = true)
    (hnew : ∀ q, Row.sameKey key q s = true → keep (S.overwrite key s.columns q s) = true)
    (hfill : keep (S.fill now s) = true) :
    (S.mergeRow now key s rows).filter keep = S.mergeRow now key s (rows.filter keep) := by
  have hany : ((rows.filter keep).any fun q => Row.sameKey key q s) =
      rows.any fun q => Row.sameKey key q s := by
    rw [Bool.eq_iff_iff, List.any_eq_true, List.any_eq_true]
    constructor
    · exact fun ⟨q, hq, hs⟩ => ⟨q, (List.mem_filter.1 hq).1, hs⟩
    · exact fun ⟨q, hq, hs⟩ => ⟨q, List.mem_filter.2 ⟨hq, hold q hq hs⟩, hs⟩
  by_cases h : (rows.any fun q => Row.sameKey key q s) = true
  · rw [mergeRow_map h, mergeRow_map (by rw [hany]; exact h), List.filter_map]
    congr 1
    apply List.filter_congr
    intro q hq
    rw [Function.comp_apply, Schema.touch]
    split
    next hs => rw [hnew q hs, hold q hq hs]
    next => rfl
  · rw [Bool.not_eq_true] at h
    rw [mergeRow_append h, mergeRow_append (by rw [hany]; exact h), List.filter_append,
      List.filter_cons_of_pos hfill, List.filter_nil]

/-- A row of the table after the merge. -/
def Schema.matched (S : Schema) (key cols : List String) (src : List Row) (q : Row) : Row :=
  match src.find? (Row.sameKey key q) with
  | some s => S.overwrite key cols q s
  | none => q

theorem mergeRows_matched (now : String) (key cols : List String) (C : Table) (src : List Row) :
    C.mergeRows now key cols src = C.rows.map (C.schema.matched key cols src) ++
      (src.filter fun s => !C.rows.any fun q => Row.sameKey key q s).map (C.schema.fill now) := rfl

theorem matched_key {S : Schema} (h : ∀ s ∈ src, Fits S key s) (q : Row) :
    Row.Agree key (S.matched key cols src q) q := by
  rw [Schema.matched]
  split
  next s hf => exact Schema.overwrite_key (h s (List.mem_of_find?_eq_some hf)).keyNames _ _ _
  next => exact Row.Agree.refl _ _

theorem matched_append {S : Schema} (h : ∀ p ∈ src, Fits S key p) (hcols : s.columns = cols)
    (hother : ∀ p ∈ src, Row.sameKey key p s = false) (q : Row) :
    S.matched key cols (src ++ [s]) q = S.touch key s (S.matched key cols src q) := by
  rw [Schema.matched, Schema.matched, List.find?_append]
  cases hf : src.find? (Row.sameKey key q) with
  | some p =>
    have hp := List.mem_of_find?_eq_some hf
    rw [Option.some_or, Schema.touch, if_neg]
    rw [Row.sameKey_agree (Schema.overwrite_key (h p hp).keyNames _ _ _)]
    intro hqs
    have hps := Row.sameKey_trans (Row.sameKey_symm (List.find?_some hf)) hqs
    rw [hother p hp] at hps
    cases hps
  | none =>
    rw [Option.none_or]
    by_cases hq : Row.sameKey key q s = true
    · rw [List.find?_cons_of_pos hq, Schema.touch, if_pos hq, hcols]
    · rw [List.find?_cons_of_neg hq, Schema.touch, if_neg hq]
      rfl

theorem any_mergeRows (now : String) (cols : List String) {C : Table} (h : ∀ p ∈ src, Fits C.schema key p)
    (hother : ∀ p ∈ src, Row.sameKey key p s = false) :
    ((C.mergeRows now key cols src).any fun q => Row.sameKey key q s) =
      C.rows.any fun q => Row.sameKey key q s := by
  rw [mergeRows_matched, List.any_append, List.any_map, List.any_map]
  have hmatched : ((fun q => Row.sameKey key q s) ∘ C.schema.matched key cols src) =
      fun q => Row.sameKey key q s := by
    funext q
    exact Row.sameKey_agree (matched_key h q) s
  rw [hmatched, Bool.or_eq_left_iff_imp, List.any_eq_true]
  intro ⟨p, hp, hps⟩
  have hp := (List.mem_filter.1 hp).1
  rw [Function.comp_apply, Row.sameKey_agree ((h p hp).fill_key now), hother p hp] at hps
  cases hps

/-- A merge whose sources have different keys merges them one by one. -/
theorem mergeRows_eq {C : Table} (hsrc : src.Pairwise fun s s' => Row.sameKey key s s' = false)
    (hfit : ∀ s ∈ src, Fits C.schema key s) (hcols : ∀ s ∈ src, s.columns = cols) :
    C.mergeRows now key cols src =
      src.foldl (fun rows s => C.schema.mergeRow now key s rows) C.rows := by
  induction src using List.reverseRecOn with
  | nil =>
    rw [mergeRows_matched, List.filter_nil, List.map_nil, List.append_nil, List.foldl_nil]
    exact (List.map_congr_left fun q _ => rfl).trans (List.map_id' _)
  | append_singleton src s ih =>
    rw [List.pairwise_append] at hsrc
    have hfitp : ∀ p ∈ src, Fits C.schema key p := fun p hp => hfit p (List.mem_append_left _ hp)
    have hother : ∀ p ∈ src, Row.sameKey key p s = false :=
      fun p hp => hsrc.2.2 p hp s (List.mem_singleton_self s)
    have hscols := hcols s (List.mem_append_right _ (List.mem_singleton_self s))
    have hany := any_mergeRows now cols hfitp hother
    rw [List.foldl_append, ← ih hsrc.1 hfitp fun s hs => hcols s (List.mem_append_left _ hs),
      List.foldl_cons, List.foldl_nil]
    have hrows : C.rows.map (C.schema.matched key cols (src ++ [s])) =
        (C.rows.map (C.schema.matched key cols src)).map (C.schema.touch key s) := by
      rw [List.map_map]
      exact List.map_congr_left fun q _ => matched_append hfitp hscols hother q
    have hnew : ((src ++ [s]).filter fun s => !C.rows.any fun q => Row.sameKey key q s) =
        (src.filter fun s => !C.rows.any fun q => Row.sameKey key q s) ++
          if C.rows.any fun q => Row.sameKey key q s then [] else [s] := by
      rw [List.filter_append, List.filter_singleton]
      cases C.rows.any fun q => Row.sameKey key q s <;> rfl
    rw [mergeRows_matched, hrows, hnew]
    by_cases hq : (C.rows.any fun q => Row.sameKey key q s) = true
    · have hfills : (((src.filter fun s => !C.rows.any fun q => Row.sameKey key q s).map
          (C.schema.fill now)).map (C.schema.touch key s)) =
          (src.filter fun s => !C.rows.any fun q => Row.sameKey key q s).map
            (C.schema.fill now) := by
        rw [List.map_map]
        apply List.map_congr_left
        intro p hp
        have hp := (List.mem_filter.1 hp).1
        apply touch_fill (hfitp p hp)
        rw [Row.sameKey_comm]
        exact hother p hp
      rw [if_pos hq, List.append_nil, mergeRow_map (by rw [hany]; exact hq), mergeRows_matched,
        List.map_append, hfills]
    · have hold : (C.rows.map (C.schema.matched key cols src)).map (C.schema.touch key s) =
          C.rows.map (C.schema.matched key cols src) := by
        refine (List.map_congr_left (g := fun q => q) fun q hm => ?_).trans (List.map_id' _)
        rw [Schema.touch, if_neg]
        intro hqs
        apply hq
        rw [← hany, mergeRows_matched]
        exact List.any_eq_true.2 ⟨q, List.mem_append_left _ hm, hqs⟩
      rw [hold, if_neg hq, List.map_append, List.map_singleton, ← List.append_assoc,
        ← mergeRows_matched, mergeRow_append]
      rw [hany, ← Bool.not_eq_true]
      exact hq

/-- The merge of a single source, where the constraints of the cloud allow it. -/
theorem merge_single {C : Table} (hs : Fits C.schema key s) :
    C.merge now key s.columns [s] =
      if (C.schema.mergeRow now key s C.rows).all C.schema.notNulls = true then
        .ok { C with rows := C.schema.mergeRow now key s C.rows }
      else .error .constraint := by
  have hrows : C.mergeRows now key s.columns [s] = C.schema.mergeRow now key s C.rows := by
    rw [mergeRows_eq (List.pairwise_singleton _ s)]
    · rfl
    · intro r hr
      rw [List.mem_singleton.1 hr]
      exact hs
    · intro r hr
      rw [List.mem_singleton.1 hr]
  have hnamed : (s.columns.find? fun c => decide (c ∉ C.schema.names)) = none := by
    rw [List.find?_eq_none]
    intro c hc
    simpa using hs.named c hc
  have hcount : ¬ (C.rows.any fun q => decide (1 < [s].countP (Row.sameKey key q))) = true := by
    intro hany
    obtain ⟨q, _, hq⟩ := List.any_eq_true.1 hany
    have hlt := of_decide_eq_true hq
    have hle : [s].countP (Row.sameKey key q) ≤ 1 := List.countP_le_length
    omega
  rw [Table.merge, hnamed]
  dsimp only
  rw [if_neg hcount, hrows]

/-- Merges in batches merge the sources one by one. -/
theorem mergeAll_eq {C : Table} {bs : List (List Row)}
    (h : bs.foldlM (Table.merge now key cols) C = .ok C')
    (hsrc : bs.flatten.Pairwise fun s s' => Row.sameKey key s s' = false)
    (hfit : ∀ s ∈ bs.flatten, Fits C.schema key s) (hcols : ∀ s ∈ bs.flatten, s.columns = cols) :
    C'.schema = C.schema ∧
      C'.rows = bs.flatten.foldl (fun rows s => C.schema.mergeRow now key s rows) C.rows := by
  induction bs generalizing C with
  | nil =>
    cases h
    exact ⟨rfl, rfl⟩
  | cons b bs ih =>
    rw [List.foldlM_cons] at h
    cases hm : C.merge now key cols b with
    | error e =>
      rw [hm] at h
      cases h
    | ok C₁ =>
      rw [hm] at h
      obtain ⟨_, hS, hrows⟩ := Table.merge_ok hm
      rw [List.flatten_cons] at hsrc hfit hcols
      rw [List.pairwise_append] at hsrc
      have hfit' : ∀ s ∈ bs.flatten, Fits C₁.schema key s := by
        rw [hS]
        exact fun s hs => hfit s (List.mem_append_right _ hs)
      obtain ⟨hS', hrows'⟩ := ih h hsrc.2.1 hfit' fun s hs => hcols s (List.mem_append_right _ hs)
      refine ⟨hS'.trans hS, ?_⟩
      rw [hrows', hS, hrows, mergeRows_eq hsrc.1 (fun s hs => hfit s (List.mem_append_left _ hs))
        (fun s hs => hcols s (List.mem_append_left _ hs)), List.flatten_cons, List.foldl_append]

end Relational
