import AnythingTools.Nearest

namespace Search
open Nearest
set_option autoImplicit true

/-- What the searches read of a row of `scraped_articles`. -/
structure Article where
  id : String
  title : String
  summary : String
  conclusion : String
  vecRowid : Int
deriving DecidableEq

/-- A row of `scraped_articles_vec`. -/
structure VecRow (E : Type) where
  rowid : Int
  embedding : E

structure Store (E : Type) where
  articles : List Article
  articleKey : (articles.map Article.id).Nodup
  vec : List (VecRow E)
  vecKey : (vec.map VecRow.rowid).Nodup

/-- An article that a search has found, with its distance or its rank. -/
structure Hit (δ : Type) where
  article : Article
  score : δ
deriving DecidableEq

/-- The articles of the batch that a row of an index joins. -/
def joined (store : Store E) (validUlids : List String) (rowid : Int) : List Article :=
  store.articles.filter fun a => decide (a.vecRowid = rowid ∧ a.id ∈ validUlids)

def hits (store : Store E) (validUlids : List String) (rows : List (Int × δ)) : List (Hit δ) :=
  rows.flatMap fun r => (joined store validUlids r.1).map fun a => ⟨a, r.2⟩

theorem mem_hits {store : Store E} {h : Hit δ} {rows : List (Int × δ)} :
    h ∈ hits store validUlids rows ↔
      ∃ r ∈ rows, h.article ∈ joined store validUlids r.1 ∧ h.score = r.2 := by
  simp only [hits, List.mem_flatMap, List.mem_map]
  apply Iff.intro
  · rintro ⟨r, hr, a, ha, rfl⟩
    exact ⟨r, hr, ha, rfl⟩
  · rintro ⟨r, hr, ha, hs⟩
    exact ⟨r, hr, h.article, ha, by rw [← hs]⟩

theorem vecRowid_of_joined {store : Store E} (h : a ∈ joined store validUlids rowid) :
    a.vecRowid = rowid := by
  have hp := (List.mem_filter.1 h).2
  exact (of_decide_eq_true hp).1

theorem nodup_hits (store : Store E) (validUlids : List String) {rows : List (Int × δ)}
    (h : (rows.map Prod.fst).Nodup) : (hits store validUlids rows).Nodup := by
  have hstore : store.articles.Nodup := List.Nodup.of_map Article.id store.articleKey
  rw [hits, List.nodup_flatMap]
  constructor
  · intro r _
    exact (hstore.filter _).map fun a b he => congrArg Hit.article he
  · refine (List.pairwise_map.1 h).imp ?_
    intro r r' hne x hx hx'
    obtain ⟨a, ha, rfl⟩ := List.mem_map.1 hx
    obtain ⟨b, hb, he⟩ := List.mem_map.1 hx'
    have hab : b = a := congrArg Hit.article he
    rw [hab] at hb
    exact hne ((vecRowid_of_joined ha).symm.trans (vecRowid_of_joined hb))

section
variable {E δ ρ σ : Type} [LinearOrder δ] [LinearOrder ρ] [LinearOrder σ] [Add σ] [Zero σ]
variable (distance : E → E → δ)

/-- The stored embeddings by their distance from the query. -/
def ranked (store : Store E) (query : E) : List (Int × δ) :=
  byKey Prod.snd (store.vec.map fun v => (v.rowid, distance query v.embedding))

/-- `v.embedding MATCH ? AND k = ?`, joined to the articles of the batch. -/
def vectorCandidates (store : Store E) (query : E) (validUlids : List String) (limit : Nat) :
    List (Hit δ) :=
  byKey Hit.score (hits store validUlids ((ranked distance store query).take (limit * 3)))

/-- The rows of `scraped_articles_fts` that match, with their ranks; here the `LIMIT` comes after
the join. -/
def keywordCandidates (store : Store E) (matching : List (Int × ρ)) (validUlids : List String)
    (limit : Nat) : List (Hit ρ) :=
  (byKey Hit.score (hits store validUlids matching)).take (limit * 3)

/-- `d[k] = v`. -/
def setKey (d : List (String × β)) (k : String) (v : β) : List (String × β) :=
  if k ∈ d.map Prod.fst then d.map fun p => if p.1 = k then (k, v) else p else d ++ [(k, v)]

def getKey (d : List (String × β)) (k : String) : Option β :=
  (d.find? fun p => decide (p.1 = k)).map Prod.snd

/-- The scores of a list of results, where the weight of a rank is `w / (k + rank)`. -/
def addScores (weight : Nat → σ) (scores : List (String × σ)) (ulids : List String) :
    List (String × σ) :=
  (ulids.zipIdx 1).foldl
    (fun scores p => setKey scores p.1 ((getKey scores p.1).getD 0 + weight p.2)) scores

/-- The dictionaries of the articles: that of the vector result, if there is one. -/
def rrfItems (vectorResults : List (Hit δ)) (keywordResults : List (Hit ρ)) :
    List (String × (Hit δ ⊕ Hit ρ)) :=
  keywordResults.foldl
    (fun items h => if h.article.id ∈ items.map Prod.fst then items
      else setKey items h.article.id (.inr h))
    (vectorResults.foldl (fun items h => setKey items h.article.id (.inl h)) [])

def weightedRrf (weightVec weightKw : Nat → σ) (round : σ → σ) (vectorResults : List (Hit δ))
    (keywordResults : List (Hit ρ)) : List ((Hit δ ⊕ Hit ρ) × σ) :=
  let scores := addScores weightKw
    (addScores weightVec [] (vectorResults.map (·.article.id))) (keywordResults.map (·.article.id))
  let items := rrfItems vectorResults keywordResults
  (scores.insertionSort fun a b => b.2 ≤ a.2).filterMap fun p =>
    (getKey items p.1).map fun item => (item, round p.2)

/-- There is no query embedding where sqlite-vec is not available or the vector search fails. -/
def executeHybridSearch (weightVec weightKw : Nat → σ) (round : σ → σ) (store : Store E)
    (query : Option E) (matching : List (Int × ρ)) (validUlids : List String) (limit : Nat) :
    List ((Hit δ ⊕ Hit ρ) × σ) :=
  if validUlids = [] then []
  else
    (weightedRrf weightVec weightKw round
      ((query.map fun q => vectorCandidates distance store q validUlids limit).getD [])
      (keywordCandidates store matching validUlids limit)).take limit

/-- The embedded articles of the batch. -/
def embedded (store : Store E) (query : E) (validUlids : List String) : List (Hit δ) :=
  hits store validUlids (store.vec.map fun v => (v.rowid, distance query v.embedding))

/-- How many stored embeddings come before that of the row id. -/
def place (store : Store E) (query : E) (rowid : Int) : Nat :=
  ((ranked distance store query).map Prod.fst).idxOf rowid

theorem pairwise_hits (store : Store E) (validUlids : List String) {rows : List (Int × δ)}
    (h : rows.Pairwise fun a b => a.2 ≤ b.2) :
    (hits store validUlids rows).Pairwise fun a b => a.score ≤ b.score := by
  rw [hits, List.pairwise_flatMap]
  constructor
  · intro r _
    rw [List.pairwise_map]
    exact List.pairwise_of_forall fun _ _ => le_refl r.2
  · refine h.imp ?_
    intro r r' hle x hx y hy
    obtain ⟨a, -, rfl⟩ := List.mem_map.1 hx
    obtain ⟨b, -, rfl⟩ := List.mem_map.1 hy
    exact hle

theorem nodup_ranked (store : Store E) (query : E) :
    ((ranked distance store query).map Prod.fst).Nodup := by
  have hperm := (perm_byKey Prod.snd
    (store.vec.map fun v => (v.rowid, distance query v.embedding))).map Prod.fst
  rw [ranked, hperm.nodup_iff, List.map_map]
  exact store.vecKey

/-- The `ORDER BY` finds the rows in order. -/
theorem vectorCandidates_eq (store : Store E) (query : E) (validUlids : List String)
    (limit : Nat) :
    vectorCandidates distance store query validUlids limit =
      hits store validUlids ((ranked distance store query).take (limit * 3)) := by
  have hsorted := (pairwise_byKey Prod.snd
    (store.vec.map fun v => (v.rowid, distance query v.embedding))).sublist
      (List.take_sublist (limit * 3) _)
  exact (pairwise_hits store validUlids hsorted).insertionSort_eq

/-- The candidates contain a choice of the nearest exactly when they contain the first. -/
theorem covers_iff_take (store : Store E) (query : E) (validUlids : List String) (limit : Nat) :
    (∃ found, IsNearest Hit.score limit (embedded distance store query validUlids) found ∧
        found ⊆ vectorCandidates distance store query validUlids limit) ↔
      (hits store validUlids (ranked distance store query)).take limit ⊆
        vectorCandidates distance store query validUlids limit := by
  have hsorted := pairwise_hits store validUlids (pairwise_byKey Prod.snd
    (store.vec.map fun v => (v.rowid, distance query v.embedding)))
  have hperm : (hits store validUlids (ranked distance store query)).Perm
      (embedded distance store query validUlids) := (perm_byKey _ _).flatMap_right _
  have hnodup := hperm.nodup_iff.1 (nodup_hits store validUlids (nodup_ranked distance store query))
  have hprefix : vectorCandidates distance store query validUlids limit <+:
      hits store validUlids (ranked distance store query) := by
    rw [vectorCandidates_eq]
    exact (List.take_prefix _ _).flatMap _
  exact exists_isNearest_subset_iff hsorted hperm hnodup hprefix limit

theorem mem_hits_take {store : Store E} {query : E} {h : Hit δ}
    (hh : h ∈ hits store validUlids (ranked distance store query)) (k : Nat) :
    h ∈ hits store validUlids ((ranked distance store query).take k) ↔
      place distance store query h.article.vecRowid < k := by
  obtain ⟨r, hr, ha, hs⟩ := mem_hits.1 hh
  rw [vecRowid_of_joined ha, place, ← List.mem_take_iff_idxOf_lt (List.mem_map_of_mem hr),
    ← List.map_take]
  apply Iff.intro
  · intro hmem
    obtain ⟨r', hr', ha', -⟩ := mem_hits.1 hmem
    rw [← vecRowid_of_joined ha, vecRowid_of_joined ha']
    exact List.mem_map_of_mem hr'
  · intro hmem
    obtain ⟨r', hr', hid⟩ := List.mem_map.1 hmem
    have hrr' : r' = r := List.inj_on_of_nodup_map (nodup_ranked distance store query)
      (List.mem_of_mem_take hr') hr hid
    rw [hrr'] at hr'
    exact mem_hits.2 ⟨r, hr', ha, hs⟩

/-- The vector candidates contain the nearest embedded articles of the batch exactly when fewer than
three times as many stored embeddings as are asked for come before that of each of these. -/
theorem covers_iff (store : Store E) (query : E) (validUlids : List String) (limit : Nat) :
    (∃ found, IsNearest Hit.score limit (embedded distance store query validUlids) found ∧
        found ⊆ vectorCandidates distance store query validUlids limit) ↔
      ∀ h ∈ (hits store validUlids (ranked distance store query)).take limit,
        place distance store query h.article.vecRowid < limit * 3 := by
  rw [covers_iff_take, vectorCandidates_eq]
  refine forall₂_congr fun h hh => ?_
  exact mem_hits_take distance (List.mem_of_mem_take hh) (limit * 3)

/-- The keyword results always contain the best of the batch that match. -/
theorem keywordCandidates_cover (store : Store E) (matching : List (Int × ρ))
    (hkey : (matching.map Prod.fst).Nodup) (validUlids : List String) (limit : Nat) :
    ∃ found, IsNearest Hit.score limit (hits store validUlids matching) found ∧
      found ⊆ keywordCandidates store matching validUlids limit :=
  ⟨_, isNearest_take (pairwise_byKey _ _) (perm_byKey _ _) (nodup_hits store validUlids hkey) limit,
    List.take_subset_take_left _ (Nat.le_mul_of_pos_right limit (by decide))⟩

end

/-- Three articles of other batches, and one of the batch. -/
def crowded : Store Int where
  articles := [⟨"01HW1", "Rates", "", "", 1⟩, ⟨"01HW2", "Oil", "", "", 2⟩,
    ⟨"01HW3", "Gold", "", "", 3⟩, ⟨"01HX1", "Chips", "", "", 4⟩]
  articleKey := by decide
  vec := [⟨1, 1⟩, ⟨2, 2⟩, ⟨3, 3⟩, ⟨4, 9⟩]
  vecKey := by decide

/-- The only article of the batch is not among the three that are nearest to the query. -/
theorem nearest_of_batch_missed :
    ¬ ∃ found, IsNearest Hit.score 1
        (embedded (fun a b : Int => (a - b).natAbs) crowded 0 ["01HX1"]) found ∧
      found ⊆ vectorCandidates (fun a b : Int => (a - b).natAbs) crowded 0 ["01HX1"] 1 := by
  rw [covers_iff_take]
  decide +kernel

theorem mem_setKey {d : List (String × β)} :
    k' ∈ (setKey d k v).map Prod.fst ↔ k' ∈ d.map Prod.fst ∨ k' = k := by
  rw [setKey]
  split
  next h =>
    have hkeys : (d.map fun p => if p.1 = k then (k, v) else p).map Prod.fst = d.map Prod.fst := by
      rw [List.map_map]
      refine List.map_congr_left fun p _ => ?_
      rw [Function.comp_apply]
      split
      next hp => exact hp.symm
      next => rfl
    rw [hkeys]
    exact ⟨Or.inl, fun hk => hk.elim id fun hk => hk ▸ h⟩
  next => simp

theorem mem_of_getKey {d : List (String × β)} (h : getKey d k = some v) : (k, v) ∈ d := by
  rw [getKey, Option.map_eq_some_iff] at h
  obtain ⟨p, hp, rfl⟩ := h
  have hk := List.find?_some hp
  rw [← of_decide_eq_true hk]
  exact List.mem_of_find?_eq_some hp

theorem exists_getKey {d : List (String × β)} (h : k ∈ d.map Prod.fst) :
    ∃ v, getKey d k = some v := by
  obtain ⟨p, hp, hk⟩ := List.mem_map.1 h
  have hsome : (d.find? fun p => decide (p.1 = k)).isSome = true :=
    List.find?_isSome.2 ⟨p, hp, decide_eq_true hk⟩
  obtain ⟨q, hq⟩ := Option.isSome_iff_exists.1 hsome
  exact ⟨q.2, by rw [getKey, hq, Option.map_some]⟩

theorem mem_setKey_cases {d : List (String × β)} (h : p ∈ setKey d k v) : p ∈ d ∨ p = (k, v) := by
  rw [setKey] at h
  split at h
  next =>
    obtain ⟨q, hq, rfl⟩ := List.mem_map.1 h
    split
    next => exact .inr rfl
    next => exact .inl hq
  next =>
    rw [List.mem_append, List.mem_singleton] at h
    exact h

theorem mem_addScores [Add σ] [Zero σ] (weight : Nat → σ) (scores : List (String × σ))
    (ulids : List String) :
    k ∈ (addScores weight scores ulids).map Prod.fst ↔ k ∈ scores.map Prod.fst ∨ k ∈ ulids := by
  have hrun (n : Nat) : k ∈ ((ulids.zipIdx n).foldl (fun scores p =>
      setKey scores p.1 ((getKey scores p.1).getD 0 + weight p.2)) scores).map Prod.fst ↔
        k ∈ scores.map Prod.fst ∨ k ∈ ulids := by
    induction ulids generalizing scores n with
    | nil => simp
    | cons u ulids ih =>
      rw [List.zipIdx_cons, List.foldl_cons, ih, mem_setKey, List.mem_cons, or_assoc]
  exact hrun 1

def ulidOf : Hit δ ⊕ Hit ρ → String := Sum.elim (·.article.id) (·.article.id)

theorem rrfItems_keys (vectorResults : List (Hit δ)) (keywordResults : List (Hit ρ)) :
    k ∈ (rrfItems vectorResults keywordResults).map Prod.fst ↔
      k ∈ vectorResults.map (·.article.id) ∨ k ∈ keywordResults.map (·.article.id) := by
  have hvector (items : List (String × (Hit δ ⊕ Hit ρ))) :
      k ∈ (vectorResults.foldl (fun items h => setKey items h.article.id (.inl h)) items).map
          Prod.fst ↔ k ∈ items.map Prod.fst ∨ k ∈ vectorResults.map (·.article.id) := by
    induction vectorResults generalizing items with
    | nil => simp
    | cons h rest ih => rw [List.foldl_cons, ih, mem_setKey, List.map_cons, List.mem_cons, or_assoc]
  have hkeyword (items : List (String × (Hit δ ⊕ Hit ρ))) :
      k ∈ (keywordResults.foldl (fun items h => if h.article.id ∈ items.map Prod.fst then items
          else setKey items h.article.id (.inr h)) items).map Prod.fst ↔
        k ∈ items.map Prod.fst ∨ k ∈ keywordResults.map (·.article.id) := by
    induction keywordResults generalizing items with
    | nil => simp
    | cons h rest ih =>
      rw [List.foldl_cons, ih, List.map_cons, List.mem_cons]
      split
      next hmem =>
        apply Iff.intro
        · exact fun hk => hk.imp_right .inr
        · rintro (hk | rfl | hk)
          · exact .inl hk
          · exact .inl hmem
          · exact .inr hk
      next => rw [mem_setKey, or_assoc]
  rw [rrfItems, hkeyword, hvector, List.map_nil]
  simp

theorem rrfItems_ulid (vectorResults : List (Hit δ)) (keywordResults : List (Hit ρ)) :
    ∀ p ∈ rrfItems vectorResults keywordResults, ulidOf p.2 = p.1 := by
  have hvector (items : List (String × (Hit δ ⊕ Hit ρ))) (hi : ∀ p ∈ items, ulidOf p.2 = p.1) :
      ∀ p ∈ vectorResults.foldl (fun items h => setKey items h.article.id (.inl h)) items,
        ulidOf p.2 = p.1 := by
    induction vectorResults generalizing items with
    | nil => exact hi
    | cons h rest ih =>
      refine ih _ fun p hp => ?_
      rcases mem_setKey_cases hp with hp | rfl
      · exact hi p hp
      · rfl
  have hkeyword (items : List (String × (Hit δ ⊕ Hit ρ))) (hi : ∀ p ∈ items, ulidOf p.2 = p.1) :
      ∀ p ∈ keywordResults.foldl (fun items h => if h.article.id ∈ items.map Prod.fst then items
          else setKey items h.article.id (.inr h)) items, ulidOf p.2 = p.1 := by
    induction keywordResults generalizing items with
    | nil => exact hi
    | cons h rest ih =>
      rw [List.foldl_cons]
      refine ih _ fun p hp => ?_
      split at hp
      next => exact hi p hp
      next =>
        rcases mem_setKey_cases hp with hp | rfl
        · exact hi p hp
        · rfl
  exact hkeyword _ (hvector [] (List.forall_mem_nil _))

/-- What is fused are the articles of the two lists. -/
theorem mem_weightedRrf [LinearOrder σ] [Add σ] [Zero σ] (weightVec weightKw : Nat → σ)
    (round : σ → σ) (vectorResults : List (Hit δ)) (keywordResults : List (Hit ρ)) :
    (∃ p ∈ weightedRrf weightVec weightKw round vectorResults keywordResults, ulidOf p.1 = k) ↔
      k ∈ vectorResults.map (·.article.id) ∨ k ∈ keywordResults.map (·.article.id) := by
  simp only [weightedRrf, List.mem_filterMap, Option.map_eq_some_iff]
  apply Iff.intro
  · rintro ⟨p, ⟨q, hq, item, hitem, rfl⟩, rfl⟩
    have hulid : ulidOf item = q.1 := rrfItems_ulid _ _ _ (mem_of_getKey hitem)
    rw [hulid, ← rrfItems_keys]
    exact List.mem_map_of_mem (mem_of_getKey hitem)
  · intro hk
    obtain ⟨item, hitem⟩ := exists_getKey ((rrfItems_keys vectorResults keywordResults).2 hk)
    have hscored : k ∈ (addScores weightKw
        (addScores weightVec [] (vectorResults.map (·.article.id)))
        (keywordResults.map (·.article.id))).map Prod.fst := by
      rw [mem_addScores, mem_addScores, List.map_nil]
      simpa using hk
    obtain ⟨q, hq, rfl⟩ := List.mem_map.1 hscored
    exact ⟨(item, round q.2),
      ⟨q, (List.perm_insertionSort _ _).mem_iff.2 hq, item, hitem, rfl⟩,
      rrfItems_ulid _ _ _ (mem_of_getKey hitem)⟩

end Search
