import Mathlib.Algebra.Order.Field.Rat
import AnythingTools.Ranking
import AnythingTools.Search.HybridSearch

namespace Search
open Ranking
set_option autoImplicit true

def ids (results : List (Hit δ)) : List String := results.map (·.article.id)

/-- The ulids in the order in which `weighted_rrf` first meets them. -/
def appearance (vectorUlids keywordUlids : List String) : List String :=
  vectorUlids ++ keywordUlids.filter fun u => decide (u ∉ vectorUlids)

/-- What a list of results adds to a score. -/
def share [Zero σ] (weight : Nat → σ) (ulids : List String) (u : String) : σ :=
  if u ∈ ulids then weight (ulids.idxOf u + 1) else 0

theorem keys_setKey (d : List (String × β)) (k : String) (v : β) :
    (setKey d k v).map Prod.fst =
      if k ∈ d.map Prod.fst then d.map Prod.fst else d.map Prod.fst ++ [k] := by
  rw [setKey]
  split
  next h =>
    rw [List.map_map]
    refine List.map_congr_left fun p _ => ?_
    rw [Function.comp_apply]
    split
    next hp => exact hp.symm
    next => rfl
  next => rw [List.map_append, List.map_singleton]

theorem getKey_cons (p : String × β) (d : List (String × β)) (k : String) :
    getKey (p :: d) k = if p.1 = k then some p.2 else getKey d k := by
  rw [getKey, List.find?_cons]
  by_cases h : p.1 = k
  · rw [decide_eq_true h, if_pos h]
    rfl
  · rw [decide_eq_false h, if_neg h]
    rfl

theorem getKey_of_notMem {d : List (String × β)} (h : k ∉ d.map Prod.fst) : getKey d k = none := by
  rw [getKey, Option.map_eq_none_iff, List.find?_eq_none]
  intro p hp hk
  exact h (List.mem_map.2 ⟨p, hp, of_decide_eq_true hk⟩)

theorem getKey_append (d d' : List (String × β)) (k : String) :
    getKey (d ++ d') k = (getKey d k).or (getKey d' k) := by
  induction d with
  | nil => rfl
  | cons p d ih =>
    rw [List.cons_append, getKey_cons, getKey_cons]
    split
    · rfl
    · exact ih

theorem getKey_replace_ne (d : List (String × β)) (v : β) (h : k' ≠ k) :
    getKey (d.map fun p => if p.1 = k then (k, v) else p) k' = getKey d k' := by
  induction d with
  | nil => rfl
  | cons p d ih =>
    rw [List.map_cons, getKey_cons, getKey_cons, ih]
    by_cases hp : p.1 = k
    · rw [if_pos hp, if_neg h.symm, if_neg fun he => h (he.symm.trans hp)]
    · rw [if_neg hp]

theorem getKey_replace_self {d : List (String × β)} (v : β) (h : k ∈ d.map Prod.fst) :
    getKey (d.map fun p => if p.1 = k then (k, v) else p) k = some v := by
  induction d with
  | nil => cases h
  | cons p d ih =>
    rw [List.map_cons, getKey_cons]
    by_cases hp : p.1 = k
    · rw [if_pos hp, if_pos rfl]
    · rw [if_neg hp, if_neg hp]
      exact ih ((List.mem_cons.1 h).resolve_left (Ne.symm hp))

theorem getKey_setKey (d : List (String × β)) (k : String) (v : β) (k' : String) :
    getKey (setKey d k v) k' = if k' = k then some v else getKey d k' := by
  rw [setKey]
  by_cases hk : k' = k
  · rw [hk, if_pos rfl]
    split
    next h => exact getKey_replace_self v h
    next h =>
      rw [getKey_append, getKey_of_notMem h, getKey_cons, if_pos rfl]
      rfl
  · rw [if_neg hk]
    split
    next => exact getKey_replace_ne d v hk
    next =>
      rw [getKey_append, getKey_cons, if_neg (Ne.symm hk)]
      exact Option.or_none

theorem eq_map_getKey {d : List (String × σ)} [Zero σ] (h : (d.map Prod.fst).Nodup) :
    d = (d.map Prod.fst).map fun k => (k, (getKey d k).getD 0) := by
  rw [List.map_map]
  refine (List.map_id d).symm.trans (List.map_congr_left fun p hp => ?_)
  induction d with
  | nil => cases hp
  | cons q d ih =>
    rw [List.map_cons, List.nodup_cons] at h
    rw [Function.comp_apply, getKey_cons]
    rcases List.mem_cons.1 hp with rfl | hp
    · rw [if_pos rfl]
      rfl
    · have hne : q.1 ≠ p.1 := fun he => h.1 (he ▸ List.mem_map_of_mem hp)
      rw [if_neg hne]
      exact ih h.2 hp

section
variable [AddZeroClass σ]

/-- The dictionary of the scores after a list of results, counted from any rank. -/
theorem scores_run (weight : Nat → σ) {ulids : List String} (h : ulids.Nodup)
    (scores : List (String × σ)) (n : Nat) :
    let run := (ulids.zipIdx n).foldl
      (fun scores p => setKey scores p.1 ((getKey scores p.1).getD 0 + weight p.2)) scores
    run.map Prod.fst = appearance (scores.map Prod.fst) ulids ∧
      ∀ u, (getKey run u).getD 0 = (getKey scores u).getD 0 +
        if u ∈ ulids then weight (ulids.idxOf u + n) else 0 := by
  induction ulids generalizing scores n with
  | nil =>
    refine ⟨(List.append_nil _).symm, ?_⟩
    intro u
    rw [if_neg List.not_mem_nil, add_zero]
    rfl
  | cons v vs ih =>
    rw [List.nodup_cons] at h
    obtain ⟨hkeys, hget⟩ := ih h.2 (setKey scores v ((getKey scores v).getD 0 + weight n)) (n + 1)
    rw [List.zipIdx_cons, List.foldl_cons]
    refine ⟨?_, ?_⟩
    · rw [hkeys, appearance, appearance, keys_setKey, List.filter_cons]
      split
      next hv => rw [if_neg (by simpa using hv)]
      next hv =>
        rw [if_pos (by simpa using hv), List.append_assoc, List.singleton_append]
        congr 2
        refine List.filter_congr fun u hu => ?_
        have hne : u ≠ v := fun he => h.1 (he ▸ hu)
        rw [decide_eq_decide, List.mem_append, List.mem_singleton, or_iff_left hne]
    · intro u
      rw [hget, getKey_setKey]
      by_cases hu : u = v
      · rw [if_pos hu, hu, if_neg h.1, if_pos List.mem_cons_self, List.idxOf_cons_self,
          Option.getD_some, add_zero, Nat.zero_add]
      · rw [if_neg hu, List.idxOf_cons_ne _ (Ne.symm hu), Nat.succ_add_eq_add_succ]
        simp only [List.mem_cons, hu, false_or]

theorem keys_addScores (weight : Nat → σ) (scores : List (String × σ)) {ulids : List String}
    (h : ulids.Nodup) :
    (addScores weight scores ulids).map Prod.fst = appearance (scores.map Prod.fst) ulids :=
  (scores_run weight h scores 1).1

theorem getKey_addScores (weight : Nat → σ) (scores : List (String × σ)) {ulids : List String}
    (h : ulids.Nodup) (u : String) :
    (getKey (addScores weight scores ulids) u).getD 0 =
      (getKey scores u).getD 0 + share weight ulids u :=
  (scores_run weight h scores 1).2 u

end

theorem appearance_nil (ulids : List String) : appearance [] ulids = ulids := by
  rw [appearance, List.nil_append, List.filter_eq_self]
  intro u _
  exact decide_eq_true List.not_mem_nil

theorem nodup_appearance (h : vectorUlids.Nodup) (h' : keywordUlids.Nodup) :
    (appearance vectorUlids keywordUlids).Nodup := by
  rw [appearance, List.nodup_append]
  refine ⟨h, h'.filter _, ?_⟩
  rintro u hu v hv rfl
  exact of_decide_eq_true (List.mem_filter.1 hv).2 hu

theorem mem_appearance :
    u ∈ appearance vectorUlids keywordUlids ↔ u ∈ vectorUlids ∨ u ∈ keywordUlids := by
  rw [appearance, List.mem_append, List.mem_filter, decide_eq_true_iff]
  by_cases hu : u ∈ vectorUlids
  · exact iff_of_true (.inl hu) (.inl hu)
  · exact or_congr_right (and_iff_left hu)

/-- The score of an article: the sum of what the two lists add. -/
def score [Add σ] [Zero σ] (weightVec weightKw : Nat → σ) (vectorUlids keywordUlids : List String)
    (u : String) : σ :=
  share weightVec vectorUlids u + share weightKw keywordUlids u

theorem insertionSort_scored [LinearOrder σ] (f : String → σ) (ulids : List String) :
    (ulids.map fun u => (u, f u)).insertionSort (fun a b => b.2 ≤ a.2) =
      (ulids.insertionSort fun a b => f b ≤ f a).map fun u => (u, f u) := by
  have hmap := List.map_insertionSort (r := fun a b => f b ≤ f a)
    (s := fun a b : String × σ => b.2 ≤ a.2) (fun u => (u, f u)) ulids fun _ _ _ _ => Iff.rfl
  exact hmap.symm

/-- What `weighted_rrf` returns: the ulids in the order of their scores, with these rounded. -/
theorem weightedRrf_eq [AddZeroClass σ] [LinearOrder σ] (weightVec weightKw : Nat → σ)
    (round : σ → σ) {vectorResults : List (Hit δ)} {keywordResults : List (Hit ρ)}
    (hv : (ids vectorResults).Nodup) (hk : (ids keywordResults).Nodup) :
    (weightedRrf weightVec weightKw round vectorResults keywordResults).map
        (fun p => (ulidOf p.1, p.2)) =
      ((appearance (ids vectorResults) (ids keywordResults)).insertionSort fun a b =>
          score weightVec weightKw (ids vectorResults) (ids keywordResults) b ≤
            score weightVec weightKw (ids vectorResults) (ids keywordResults) a).map
        fun u => (u, round (score weightVec weightKw (ids vectorResults) (ids keywordResults) u)) := by
  have hkeys : (addScores weightKw (addScores weightVec [] (ids vectorResults))
      (ids keywordResults)).map Prod.fst = appearance (ids vectorResults) (ids keywordResults) := by
    rw [keys_addScores _ _ hk, keys_addScores _ _ hv, List.map_nil, appearance_nil]
  have hget (u : String) : (getKey (addScores weightKw (addScores weightVec [] (ids vectorResults))
      (ids keywordResults)) u).getD 0 =
        score weightVec weightKw (ids vectorResults) (ids keywordResults) u := by
    rw [getKey_addScores _ _ hk, getKey_addScores _ _ hv, getKey_of_notMem List.not_mem_nil,
      Option.getD_none, zero_add, score]
  have hscores := eq_map_getKey (hkeys ▸ nodup_appearance hv hk)
  rw [hkeys] at hscores
  simp only [hget] at hscores
  have hitem (u : String) (hu : u ∈ appearance (ids vectorResults) (ids keywordResults)) :
      ∃ item, getKey (rrfItems vectorResults keywordResults) u = some item ∧ ulidOf item = u := by
    obtain ⟨item, hi⟩ := exists_getKey
      ((rrfItems_keys vectorResults keywordResults).2 (mem_appearance.1 hu))
    exact ⟨item, hi, rrfItems_ulid _ _ _ (mem_of_getKey hi)⟩
  rw [weightedRrf, ← ids, ← ids, hscores, List.map_filterMap, insertionSort_scored,
    List.filterMap_map, ← List.filterMap_eq_map]
  refine List.filterMap_congr fun u hu => ?_
  obtain ⟨item, hi, hulid⟩ := hitem u ((List.perm_insertionSort _ _).subset hu)
  rw [Function.comp_apply, hi, Option.map_some, Option.map_some, hulid]
  rfl

/-- `w / (k + rank)`. -/
def rankWeight (w k : Rat) (rank : Nat) : Rat := w / (k + rank)

theorem rankWeight_lt (hw : 0 < w) (hk : 0 < k) (h : rank < rank') :
    rankWeight w k rank' < rankWeight w k rank := by
  have hrank : (rank : Rat) < rank' := by exact_mod_cast h
  have hpos : 0 < k + (rank : Rat) := add_pos_of_pos_of_nonneg hk (Nat.cast_nonneg rank)
  exact div_lt_div_of_pos_left hw hpos (by gcongr)

theorem rankWeight_le (hw : 0 < w) (hk : 0 < k) (h : rank ≤ rank') :
    rankWeight w k rank' ≤ rankWeight w k rank := by
  rcases Nat.lt_or_eq_of_le h with hlt | rfl
  · exact (rankWeight_lt hw hk hlt).le
  · exact le_refl _

/-- A promotion raises what the list adds to the promoted article, and to no other, or it moves
nothing. -/
theorem share_promoted {l l' : List String} (hw : 0 < w) (hk : 0 < k) (h : Promoted x l l')
    (hnd : l.Nodup) :
    l' = l ∨ share (rankWeight w k) l x < share (rankWeight w k) l' x ∧
      ∀ y, y ≠ x → share (rankWeight w k) l' y ≤ share (rankWeight w k) l y := by
  have hmem (y : String) : y ∈ l' ↔ y ∈ l := h.perm.mem_iff
  refine (h.idxOf hnd).imp_right ?_
  rintro ⟨hlt, hle⟩
  refine ⟨?_, ?_⟩
  · rw [share, share, if_pos ((hmem x).2 h.mem), if_pos h.mem]
    exact rankWeight_lt hw hk (Nat.succ_lt_succ hlt)
  · intro y hy
    rw [share, share]
    by_cases hyl : y ∈ l
    · rw [if_pos hyl, if_pos ((hmem y).2 hyl)]
      exact rankWeight_le hw hk (Nat.succ_le_succ (hle y hy))
    · rw [if_neg hyl, if_neg fun hy' => hyl ((hmem y).1 hy')]

section
variable (wVec wKw k : Rat) (round : Rat → Rat)

/-- The ulids that `weighted_rrf` returns. -/
def fused (vectorResults : List (Hit δ)) (keywordResults : List (Hit ρ)) : List String :=
  (weightedRrf (rankWeight wVec k) (rankWeight wKw k) round vectorResults keywordResults).map
    fun p => ulidOf p.1

def fusionScore (vectorResults : List (Hit δ)) (keywordResults : List (Hit ρ)) (u : String) : Rat :=
  score (rankWeight wVec k) (rankWeight wKw k) (ids vectorResults) (ids keywordResults) u

variable {wVec wKw k} {vectorResults vectorResults' : List (Hit δ)}
variable {keywordResults keywordResults' : List (Hit ρ)}

theorem fused_eq (hv : (ids vectorResults).Nodup) (hk : (ids keywordResults).Nodup) :
    fused wVec wKw k round vectorResults keywordResults =
      (appearance (ids vectorResults) (ids keywordResults)).insertionSort fun a b =>
        fusionScore wVec wKw k vectorResults keywordResults b ≤
          fusionScore wVec wKw k vectorResults keywordResults a := by
  have h := congrArg (List.map Prod.fst)
    (weightedRrf_eq (rankWeight wVec k) (rankWeight wKw k) round hv hk)
  rw [List.map_map, List.map_map] at h
  exact h.trans (List.map_id _)

theorem mem_fused (hv : (ids vectorResults).Nodup) (hk : (ids keywordResults).Nodup) :
    u ∈ fused wVec wKw k round vectorResults keywordResults ↔
      u ∈ ids vectorResults ∨ u ∈ ids keywordResults := by
  rw [fused_eq round hv hk, List.mem_insertionSort, mem_appearance]

theorem ranked_fused (hv : (ids vectorResults).Nodup) (hk : (ids keywordResults).Nodup) :
    Ranked (fusionScore wVec wKw k vectorResults keywordResults)
      (appearance (ids vectorResults) (ids keywordResults))
      (fused wVec wKw k round vectorResults keywordResults) := by
  rw [fused_eq round hv hk]
  exact ranked_insertionSort _ (nodup_appearance hv hk)

/-- An article whose score has grown, while the others' have not, does not come later. -/
theorem fused_le (hv : (ids vectorResults).Nodup) (hk : (ids keywordResults).Nodup)
    (hpv : (ids vectorResults').Perm (ids vectorResults))
    (hpk : (ids keywordResults').Perm (ids keywordResults))
    (hu : u ∈ ids vectorResults ∨ u ∈ ids keywordResults)
    (hup : fusionScore wVec wKw k vectorResults keywordResults u <
      fusionScore wVec wKw k vectorResults' keywordResults' u)
    (hdown : ∀ y, y ≠ u → fusionScore wVec wKw k vectorResults' keywordResults' y ≤
      fusionScore wVec wKw k vectorResults keywordResults y) :
    (fused wVec wKw k round vectorResults' keywordResults').idxOf u ≤
      (fused wVec wKw k round vectorResults keywordResults).idxOf u := by
  have hv' := hpv.nodup_iff.2 hv
  have hk' := hpk.nodup_iff.2 hk
  have hmem (y : String) : y ∈ fused wVec wKw k round vectorResults' keywordResults' ↔
      y ∈ fused wVec wKw k round vectorResults keywordResults := by
    rw [mem_fused round hv' hk', mem_fused round hv hk, hpv.mem_iff, hpk.mem_iff]
  refine (ranked_fused round hv hk).idxOf_le (ranked_fused round hv' hk') ?_ ?_ hup hdown
  · exact fun y => (hmem y).1
  · rw [hmem, mem_fused round hv hk]
    exact hu

theorem fused_promoted_vector (hVec : 0 < wVec) (hpos : 0 < k) (hv : (ids vectorResults).Nodup)
    (hk : (ids keywordResults).Nodup) (h : Promoted x vectorResults vectorResults') :
    (fused wVec wKw k round vectorResults' keywordResults).idxOf x.article.id ≤
      (fused wVec wKw k round vectorResults keywordResults).idxOf x.article.id := by
  have hids : Promoted x.article.id (ids vectorResults) (ids vectorResults') :=
    h.map (·.article.id)
  rcases share_promoted hVec hpos hids hv with he | ⟨hup, hdown⟩
  · have hv' : (ids vectorResults').Nodup := he ▸ hv
    rw [fused_eq round hv hk, fused_eq round hv' hk]
    unfold fusionScore
    rw [he]
  · refine fused_le round hv hk hids.perm (List.Perm.refl _) (.inl hids.mem) ?_ ?_
    · exact add_lt_add_left hup _
    · exact fun y hy => add_le_add_left (hdown y hy) _

theorem fused_promoted_keyword (hKw : 0 < wKw) (hpos : 0 < k) (hv : (ids vectorResults).Nodup)
    (hk : (ids keywordResults).Nodup) (h : Promoted x keywordResults keywordResults') :
    (fused wVec wKw k round vectorResults keywordResults').idxOf x.article.id ≤
      (fused wVec wKw k round vectorResults keywordResults).idxOf x.article.id := by
  have hids : Promoted x.article.id (ids keywordResults) (ids keywordResults') :=
    h.map (·.article.id)
  rcases share_promoted hKw hpos hids hk with he | ⟨hup, hdown⟩
  · have hk' : (ids keywordResults').Nodup := he ▸ hk
    rw [fused_eq round hv hk, fused_eq round hv hk']
    unfold fusionScore
    rw [he]
  · refine fused_le round hv hk (List.Perm.refl _) hids.perm (.inr hids.mem) ?_ ?_
    · exact add_lt_add_right hup _
    · exact fun y hy => add_le_add_right (hdown y hy) _

variable (wVec wKw k vectorResults keywordResults)

/-- The fusion returns every article of the two lists once, in the order of the scores and then of
the first appearance, and does not put an article later that is moved up in one of the lists. -/
theorem weightedRrf_ranks (hVec : 0 < wVec) (hKw : 0 < wKw) (hpos : 0 < k)
    (hv : (ids vectorResults).Nodup) (hk : (ids keywordResults).Nodup) :
    (fused wVec wKw k round vectorResults keywordResults).Nodup ∧
      (∀ u, u ∈ fused wVec wKw k round vectorResults keywordResults ↔
        u ∈ ids vectorResults ∨ u ∈ ids keywordResults) ∧
      Ranked (fusionScore wVec wKw k vectorResults keywordResults)
        (appearance (ids vectorResults) (ids keywordResults))
        (fused wVec wKw k round vectorResults keywordResults) ∧
      (∀ p ∈ weightedRrf (rankWeight wVec k) (rankWeight wKw k) round vectorResults keywordResults,
        p.2 = round (fusionScore wVec wKw k vectorResults keywordResults (ulidOf p.1))) ∧
      (∀ x vectorResults', Promoted x vectorResults vectorResults' →
        (fused wVec wKw k round vectorResults' keywordResults).idxOf x.article.id ≤
          (fused wVec wKw k round vectorResults keywordResults).idxOf x.article.id) ∧
      ∀ x keywordResults', Promoted x keywordResults keywordResults' →
        (fused wVec wKw k round vectorResults keywordResults').idxOf x.article.id ≤
          (fused wVec wKw k round vectorResults keywordResults).idxOf x.article.id := by
  refine ⟨(ranked_fused round hv hk).nodup, fun u => mem_fused round hv hk,
    ranked_fused round hv hk, ?_, ?_, ?_⟩
  · intro p hp
    have hmap := List.mem_map_of_mem (f := fun p : (Hit δ ⊕ Hit ρ) × Rat => (ulidOf p.1, p.2)) hp
    rw [weightedRrf_eq _ _ round hv hk, List.mem_map] at hmap
    obtain ⟨u, -, he⟩ := hmap
    rw [Prod.mk.injEq] at he
    rw [← he.1, ← he.2, fusionScore]
  · exact fun x _ h => fused_promoted_vector round hVec hpos hv hk h
  · exact fun x _ h => fused_promoted_keyword round hKw hpos hv hk h

end

def vectorHits : List (Hit Nat) :=
  [⟨⟨"01HX1", "Rates", "", "", 1⟩, 1⟩, ⟨⟨"01HX2", "Oil", "", "", 2⟩, 4⟩]

def keywordHits : List (Hit Nat) :=
  [⟨⟨"01HX2", "Oil", "", "", 2⟩, 1⟩, ⟨⟨"01HX3", "Gold", "", "", 3⟩, 2⟩]

theorem weightedRrf_ranks_hits :
    fused (7 / 10) (3 / 10) 60 id vectorHits keywordHits = ["01HX2", "01HX1", "01HX3"] ∧
      (fused (7 / 10) (3 / 10) 60 id vectorHits keywordHits).Nodup ∧
      ∀ x keywordHits', Promoted x keywordHits keywordHits' →
        (fused (7 / 10) (3 / 10) 60 id vectorHits keywordHits').idxOf x.article.id ≤
          (fused (7 / 10) (3 / 10) 60 id vectorHits keywordHits).idxOf x.article.id := by
  have h := weightedRrf_ranks (7 / 10) (3 / 10) 60 id vectorHits keywordHits (by decide +kernel)
    (by decide +kernel) (by decide +kernel) (by decide) (by decide)
  exact ⟨by decide +kernel, h.1, h.2.2.2.2.2⟩

end Search
