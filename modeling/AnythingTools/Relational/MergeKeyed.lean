import AnythingTools.Relational.MergeRow

namespace Relational
set_option autoImplicit true

/-- The sources of a merge as a stage holds them: rows of the given columns, keys included, each
key once. -/
structure Staged (S : Schema) (key cols : List String) (src : List Row) : Prop where
  keyed : ∀ c ∈ key, c ∈ cols
  named : ∀ c ∈ cols, c ∈ S.names
  columns : ∀ s ∈ src, s.columns = cols
  apart : src.Pairwise fun s s' => Row.sameKey key s s' = false

variable {S : Schema} {C : Table}

theorem Staged.fits (h : Staged S key cols src) (hs : s ∈ src) : Fits S key s where
  keyed c hc := h.columns s hs ▸ h.keyed c hc
  named c hc := h.named c (h.columns s hs ▸ hc)

theorem Staged.keyNames (h : Staged S key cols src) : ∀ c ∈ key, c ∈ S.names :=
  fun c hc => h.named c (h.keyed c hc)

theorem Staged.eq_of_sameKey (h : Staged S key cols src) (hs : s ∈ src) (hs' : s' ∈ src)
    (hk : Row.sameKey key s s' = true) : s = s' := by
  by_contra hne
  have hsymm : Std.Symm fun s s' : Row => Row.sameKey key s s' = false :=
    ⟨fun a b hab => by rw [Row.sameKey_comm]; exact hab⟩
  rw [h.apart.forall hs hs' hne] at hk
  cases hk

/-- A row has the key of one source at most. -/
theorem Staged.countP_eq_one (h : Staged S key cols src) (hs : s ∈ src)
    (hk : Row.sameKey key q s = true) : src.countP (Row.sameKey key q) = 1 := by
  obtain ⟨front, back, rfl⟩ := List.append_of_mem hs
  obtain ⟨_, hback, hfront⟩ := List.pairwise_append.1 h.apart
  have hother (a : Row) (hka : Row.sameKey key q a = true) : Row.sameKey key s a = true :=
    Row.sameKey_trans (Row.sameKey_symm hk) hka
  rw [List.countP_append, List.countP_cons_of_pos hk, List.countP_eq_zero.2, List.countP_eq_zero.2]
  · intro a ha hka
    have hsa := hother a hka
    rw [(List.pairwise_cons.1 hback).1 a ha] at hsa
    cases hsa
  · intro a ha hka
    have hsa := Row.sameKey_symm (hother a hka)
    rw [hfront a ha s List.mem_cons_self] at hsa
    cases hsa

/-- Each row finds the source of its key. -/
theorem Staged.find_eq (h : Staged S key cols src) (hs : s ∈ src)
    (hk : Row.sameKey key q s = true) : src.find? (Row.sameKey key q) = some s := by
  cases hf : src.find? (Row.sameKey key q) with
  | none => exact absurd hk (List.find?_eq_none.1 hf s hs)
  | some s' =>
    rw [h.eq_of_sameKey (List.mem_of_find?_eq_some hf) hs
      (Row.sameKey_trans (Row.sameKey_symm (List.find?_some hf)) hk)]

theorem Staged.matched_eq (h : Staged S key cols src) (hs : s ∈ src)
    (hk : Row.sameKey key q s = true) :
    S.matched key cols src q = S.overwrite key cols q s := by
  rw [Schema.matched, h.find_eq hs hk]

theorem matched_eq_self (h : ∀ s ∈ src, Row.sameKey key q s = false) :
    S.matched key cols src q = q := by
  have hf : src.find? (Row.sameKey key q) = none :=
    List.find?_eq_none.2 fun s hs => by rw [h s hs]; exact Bool.false_ne_true
  rw [Schema.matched, hf]

theorem Staged.matched_key (h : Staged S key cols src) (q : Row) :
    Row.Agree key (S.matched key cols src q) q :=
  Relational.matched_key (fun _ hs => h.fits hs) q

/-- A row of the key of a source holds the cells of the source. -/
theorem Staged.agree_of_sameKey (h : Staged C.schema key cols src) (hs : s ∈ src)
    (hq : q ∈ C.mergeRows now key cols src) (hk : Row.sameKey key s q = true) :
    Row.Agree cols s q := by
  rw [mergeRows_matched, List.mem_append, List.mem_map, List.mem_map] at hq
  rcases hq with ⟨q₀, hq₀, rfl⟩ | ⟨s', hs', rfl⟩
  · rw [Row.sameKey_agree_right (h.matched_key q₀), Row.sameKey_comm] at hk
    rw [h.matched_eq hs hk]
    exact (Schema.overwrite_agree h.named hk).symm
  · have hs' := (List.mem_filter.1 hs').1
    rw [Row.sameKey_agree_right ((h.fits hs').fill_key now)] at hk
    rw [h.eq_of_sameKey hs hs' hk]
    exact (Schema.fill_agree h.named (h.columns s' hs') now).symm

theorem Staged.countP_matched (h : Staged C.schema key cols src) (s : Row) :
    (C.rows.map (C.schema.matched key cols src)).countP (Row.sameKey key s) =
      C.rows.countP (Row.sameKey key s) := by
  rw [List.countP_map]
  congr 1
  funext q
  exact Row.sameKey_agree_right (h.matched_key q) s

/-- A key that was not there is there once, the others as often as before. -/
theorem Staged.countP_mergeRows (h : Staged C.schema key cols src) (hs : s ∈ src)
    (hself : Row.sameKey key s s = true) (now : String) :
    (C.mergeRows now key cols src).countP (Row.sameKey key s) =
      max 1 (C.rows.countP (Row.sameKey key s)) := by
  rw [mergeRows_matched, List.countP_append, h.countP_matched]
  have hnew : ((src.filter fun s => !C.rows.any fun q => Row.sameKey key q s).map
      (C.schema.fill now)).countP (Row.sameKey key s) =
      if C.rows.countP (Row.sameKey key s) = 0 then 1 else 0 := by
    rw [List.countP_map, List.countP_filter]
    have hkey (s' : Row) (hs' : s' ∈ src) :
        Row.sameKey key s (C.schema.fill now s') = Row.sameKey key s s' :=
      Row.sameKey_agree_right ((h.fits hs').fill_key now) s
    by_cases hz : C.rows.countP (Row.sameKey key s) = 0
    · rw [if_pos hz, ← h.countP_eq_one hs hself]
      refine List.countP_congr fun s' hs' => ?_
      rw [Function.comp_apply, hkey s' hs', Bool.and_eq_true]
      refine and_iff_left_of_imp fun hss => ?_
      rw [Bool.not_eq_true', ← Bool.not_eq_true, List.any_eq_true]
      rintro ⟨q, hq, hqs⟩
      rw [List.countP_eq_zero] at hz
      rw [Row.sameKey_comm] at hqs
      exact hz q hq (Row.sameKey_trans hss hqs)
    · rw [if_neg hz, List.countP_eq_zero]
      intro s' hs' hand
      rw [Function.comp_apply, hkey s' hs', Bool.and_eq_true, Bool.not_eq_true',
        ← Bool.not_eq_true, List.any_eq_true] at hand
      obtain ⟨q, hq, hqs⟩ := List.countP_pos_iff.1 (Nat.pos_of_ne_zero hz)
      apply hand.2
      rw [h.eq_of_sameKey hs hs' hand.1, Row.sameKey_comm] at hqs
      exact ⟨q, hq, hqs⟩
  rw [hnew]
  split <;> omega

/-- The rows with the key of a source: those that had it, written over, or else a new one. -/
theorem Staged.mem_mergeRows_key (h : Staged C.schema key cols src) (hs : s ∈ src)
    (hself : Row.sameKey key s s = true) (now : String) :
    q ∈ C.mergeRows now key cols src ∧ Row.sameKey key s q = true ↔
      (∃ q₀ ∈ C.rows, Row.sameKey key s q₀ = true ∧ q = C.schema.overwrite key cols q₀ s) ∨
        (∀ q₀ ∈ C.rows, Row.sameKey key s q₀ = false) ∧ q = C.schema.fill now s := by
  rw [mergeRows_matched, List.mem_append, List.mem_map, List.mem_map]
  constructor
  · rintro ⟨⟨q₀, hq₀, rfl⟩ | ⟨s', hs', rfl⟩, hk⟩
    · rw [Row.sameKey_agree_right (h.matched_key q₀)] at hk
      exact .inl ⟨q₀, hq₀, hk, h.matched_eq hs (Row.sameKey_symm hk)⟩
    · obtain ⟨hs', hnew⟩ := List.mem_filter.1 hs'
      rw [Row.sameKey_agree_right ((h.fits hs').fill_key now)] at hk
      obtain rfl := h.eq_of_sameKey hs hs' hk
      refine .inr ⟨fun q₀ hq₀ => ?_, rfl⟩
      rw [Bool.not_eq_true', List.any_eq_false] at hnew
      rw [← Bool.not_eq_true, Row.sameKey_comm]
      exact hnew q₀ hq₀
  · rintro (⟨q₀, hq₀, hk, rfl⟩ | ⟨hnew, rfl⟩)
    · have hm := h.matched_eq hs (Row.sameKey_symm hk)
      refine ⟨.inl ⟨q₀, hq₀, hm⟩, ?_⟩
      rw [← hm, Row.sameKey_agree_right (h.matched_key q₀)]
      exact hk
    · refine ⟨.inr ⟨s, List.mem_filter.2 ⟨hs, ?_⟩, rfl⟩, ?_⟩
      · rw [Bool.not_eq_true', List.any_eq_false]
        intro q₀ hq₀
        rw [Row.sameKey_comm, hnew q₀ hq₀]
        exact Bool.false_ne_true
      · rw [Row.sameKey_agree_right ((h.fits hs).fill_key now)]
        exact hself

/-- Rows of no key of a source stay as they are, in their order. -/
theorem Staged.filter_others (h : Staged C.schema key cols src)
    (hself : ∀ s ∈ src, Row.sameKey key s s = true) :
    (C.mergeRows now key cols src).filter (fun q => !src.any fun s => Row.sameKey key s q) =
      C.rows.filter fun q => !src.any fun s => Row.sameKey key s q := by
  have hany (q : Row) : (src.any fun s => Row.sameKey key s (C.schema.matched key cols src q)) =
      src.any fun s => Row.sameKey key s q := by
    congr 1
    funext s
    exact Row.sameKey_agree_right (h.matched_key q) s
  rw [mergeRows_matched, List.filter_append, List.filter_map]
  have hnew : ((src.filter fun s => !C.rows.any fun q => Row.sameKey key q s).map
      (C.schema.fill now)).filter (fun q => !src.any fun s => Row.sameKey key s q) = [] := by
    rw [List.filter_eq_nil_iff]
    intro q hq
    obtain ⟨s, hs, rfl⟩ := List.mem_map.1 hq
    have hs := (List.mem_filter.1 hs).1
    rw [Bool.not_eq_true', Bool.not_eq_false, List.any_eq_true]
    refine ⟨s, hs, ?_⟩
    rw [Row.sameKey_agree_right ((h.fits hs).fill_key now)]
    exact hself s hs
  rw [hnew, List.append_nil]
  have hfilter : C.rows.filter ((fun q => !src.any fun s => Row.sameKey key s q) ∘
      C.schema.matched key cols src) =
      C.rows.filter fun q => !src.any fun s => Row.sameKey key s q := by
    congr 1
    funext q
    rw [Function.comp_apply, hany]
  rw [hfilter]
  refine (List.map_congr_left (g := fun q => q) fun q hq => ?_).trans (List.map_id' _)
  have hno := (List.mem_filter.1 hq).2
  rw [Bool.not_eq_true', ← Bool.not_eq_true, List.any_eq_true, not_exists] at hno
  refine matched_eq_self fun s hs => ?_
  rw [← Bool.not_eq_true, Row.sameKey_comm]
  exact fun hk => hno s ⟨hs, hk⟩

theorem Schema.overwrite_overwrite (S : Schema) (key cols : List String) (q s : Row) :
    S.overwrite key cols (S.overwrite key cols q s) s = S.overwrite key cols q s := by
  rw [Schema.overwrite, Schema.overwrite]
  refine List.map_congr_left fun n hn => ?_
  dsimp only
  by_cases hc : n ∈ cols ∧ n ∉ key
  · rw [if_pos hc, if_pos hc]
  · rw [if_neg hc, Row.get_build_of_mem hn]

theorem Staged.overwrite_fill (h : Staged S key cols src) (hs : s ∈ src) (now : String) :
    S.overwrite key cols (S.fill now s) s = S.fill now s := by
  have hf := Schema.fill_agree h.named (h.columns s hs) now
  have hb : S.fill now s = Row.build S.names (S.fill now s).get := by
    rw [Schema.fill, Row.build_get]
  rw [Schema.overwrite]
  conv_rhs => rw [hb]
  refine List.map_congr_left fun n _ => ?_
  dsimp only
  split
  next hc => rw [hf n hc.1]
  next => rfl

/-- The sources again change nothing. -/
theorem Staged.mergeRows_again (h : Staged C.schema key cols src)
    (hself : ∀ s ∈ src, Row.sameKey key s s = true) (now' : String) :
    ({ C with rows := C.mergeRows now key cols src } : Table).mergeRows now' key cols src =
      C.mergeRows now key cols src := by
  rw [mergeRows_matched]
  dsimp only
  have hnew : (src.filter fun s => !(C.mergeRows now key cols src).any fun q =>
      Row.sameKey key q s) = [] := by
    rw [List.filter_eq_nil_iff]
    intro s hs
    have hpos : 0 < (C.mergeRows now key cols src).countP (Row.sameKey key s) := by
      rw [h.countP_mergeRows hs (hself s hs) _]
      omega
    obtain ⟨q, hq, hk⟩ := List.countP_pos_iff.1 hpos
    rw [Bool.not_eq_true', Bool.not_eq_false, List.any_eq_true]
    exact ⟨q, hq, by rw [Row.sameKey_comm]; exact hk⟩
  rw [hnew, List.map_nil, List.append_nil]
  refine (List.map_congr_left (g := fun q => q) fun q hq => ?_).trans (List.map_id' _)
  rw [mergeRows_matched, List.mem_append, List.mem_map, List.mem_map] at hq
  rcases hq with ⟨q₀, _, rfl⟩ | ⟨s, hs, rfl⟩
  · by_cases hex : ∃ s ∈ src, Row.sameKey key q₀ s = true
    · obtain ⟨s, hs, hk⟩ := hex
      have hk' : Row.sameKey key (C.schema.matched key cols src q₀) s = true := by
        rw [Row.sameKey_agree (h.matched_key q₀)]
        exact hk
      rw [h.matched_eq hs hk', h.matched_eq hs hk, Schema.overwrite_overwrite]
    · have hno : ∀ s ∈ src, Row.sameKey key q₀ s = false := fun s hs => by
        rw [← Bool.not_eq_true]
        exact fun hk => hex ⟨s, hs, hk⟩
      rw [matched_eq_self hno, matched_eq_self hno]
  · have hs := (List.mem_filter.1 hs).1
    have hk : Row.sameKey key (C.schema.fill now s) s = true := by
      rw [Row.sameKey_agree ((h.fits hs).fill_key now)]
      exact hself s hs
    rw [h.matched_eq hs hk, h.overwrite_fill hs]

/-- Sources of different keys never meet in one row, so only a NOT NULL column can refuse them. -/
theorem Staged.merge_eq (h : Staged C.schema key cols src) (now : String) :
    C.merge now key cols src =
      if (C.mergeRows now key cols src).all C.schema.notNulls = true then
        .ok { C with rows := C.mergeRows now key cols src }
      else .error .constraint := by
  have hnamed : (cols.find? fun c => decide (c ∉ C.schema.names)) = none := by
    rw [List.find?_eq_none]
    intro c hc
    simpa using h.named c hc
  have hcount : ¬ (C.rows.any fun q => decide (1 < src.countP (Row.sameKey key q))) = true := by
    rw [List.any_eq_true]
    rintro ⟨q, _, hq⟩
    rw [decide_eq_true_eq] at hq
    obtain ⟨s, hs, hk⟩ := List.countP_pos_iff.1 (Nat.zero_lt_of_lt hq)
    rw [h.countP_eq_one hs hk] at hq
    omega
  rw [Table.merge, hnamed]
  dsimp only
  rw [if_neg hcount]

end Relational
