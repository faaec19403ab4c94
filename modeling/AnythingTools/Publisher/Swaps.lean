import Mathlib.Data.List.Perm.Basic
import AnythingTools.Publisher.DraftEditor

namespace Publisher
open JobItems
set_option autoImplicit true

/-! ### The swaps -/

def Draft.articles (draft : Draft) : List Detail := draft.top10 ++ draft.inventory

/-- The one element with a key, in front of the others. -/
theorem cons_filter_perm {key : α → String} {xs : List α} (hn : (xs.map key).Nodup)
    (h : xs.find? (fun y => decide (key y = k)) = some x) :
    (x :: xs.filter fun y => decide (key y ≠ k)).Perm xs := by
  induction xs with
  | nil => cases h
  | cons y xs ih =>
    rw [List.map_cons, List.nodup_cons] at hn
    by_cases hk : key y = k
    · rw [List.find?_cons_of_pos (by simpa using hk)] at h
      cases h
      have hothers : xs.filter (fun y => decide (key y ≠ k)) = xs := by
        rw [List.filter_eq_self]
        intro z hz
        refine decide_eq_true fun hkz => hn.1 ?_
        rw [hk, ← hkz]
        exact List.mem_map_of_mem hz
      rw [List.filter_cons_of_neg (by simpa using hk), hothers]
    · rw [List.find?_cons_of_neg (by simpa using hk)] at h
      rw [List.filter_cons_of_pos (by simpa using hk)]
      exact (List.Perm.swap y x _).trans ((ih hn.2 h).cons y)

/-- Two elements of two lists change places. -/
theorem set_append_perm {xs ys : List α} {i : Nat} (hi : xs[i]? = some old)
    (h : (new :: ys).Perm zs) : (xs.set i new ++ (ys ++ [old])).Perm (xs ++ zs) := by
  obtain ⟨hlt, rfl⟩ := List.getElem?_eq_some_iff.1 hi
  have hset : (xs.set i new ++ (ys ++ [xs[i]])).Perm (xs[i] :: new :: (xs.eraseIdx i ++ ys)) := by
    refine ((List.set_perm_cons_eraseIdx hlt new).append
      (List.perm_append_singleton xs[i] ys)).trans ?_
    exact (List.perm_middle.cons new).trans (List.Perm.swap _ _ _)
  have hall : (xs ++ zs).Perm (xs[i] :: new :: (xs.eraseIdx i ++ ys)) := by
    refine ((List.getElem_cons_eraseIdx_perm hlt).symm.append h.symm).trans ?_
    exact List.perm_middle.cons xs[i]
  exact hset.trans hall.symm

/-- A swap leaves the draft as it is, swaps two ranked articles, or a ranked one for another. -/
theorem swap_cases (draft : Draft) (op : SwapOperation) :
    draft.swap op = draft ∨
    (∃ i j old other, draft.top10[i]? = some old ∧ draft.top10[j]? = some other ∧
      draft.swap op = { draft with top10 := (draft.top10.set i other).set j old }) ∨
    ∃ i old target replacement, draft.top10[i]? = some old ∧
      draft.inventory.find? (fun d => decide (d.ulid = target)) = some replacement ∧
      draft.swap op =
        { top10 := draft.top10.set i replacement
          inventory := (draft.inventory ++ [old]).filter fun d => decide (d.ulid ≠ target) } := by
  rw [Draft.swap]
  split
  next => exact .inl rfl
  next =>
    split
    next => exact .inl rfl
    next old hold =>
      split
      next n _ =>
        split
        next => exact .inl rfl
        next =>
          split
          next => exact .inl rfl
          next other hother => exact .inr (.inl ⟨_, _, old, other, hold, hother, rfl⟩)
      next target _ =>
        split
        next => exact .inl rfl
        next replacement hfind =>
          exact .inr (.inr ⟨_, old, target, replacement, hold, hfind, rfl⟩)

theorem swap_length (draft : Draft) (op : SwapOperation) :
    (draft.swap op).top10.length = draft.top10.length := by
  rcases swap_cases draft op with he | ⟨i, j, old, other, -, -, he⟩ | ⟨i, old, target, new, -, -, he⟩
  · rw [he]
  · rw [he, List.length_set, List.length_set]
  · rw [he, List.length_set]

/-- A swap loses no article and doubles none. -/
theorem swap_perm (draft : Draft) (op : SwapOperation)
    (hn : (draft.articles.map Detail.ulid).Nodup) :
    (draft.swap op).articles.Perm draft.articles := by
  rcases swap_cases draft op with
    he | ⟨i, j, old, other, hold, hother, he⟩ | ⟨i, old, target, new, hold, hfind, he⟩
  · rw [he]
  · obtain ⟨hi, rfl⟩ := List.getElem?_eq_some_iff.1 hold
    obtain ⟨hj, rfl⟩ := List.getElem?_eq_some_iff.1 hother
    rw [he]
    exact (List.set_set_perm hi hj).append_right draft.inventory
  · rw [Draft.articles, List.map_append, List.nodup_append] at hn
    obtain ⟨htop, hinv, hapart⟩ := hn
    have hne : old.ulid ≠ target := by
      have htarget : new.ulid = target := by simpa using List.find?_some hfind
      rw [← htarget]
      exact hapart _ (List.mem_map_of_mem (List.mem_of_getElem? hold)) _
        (List.mem_map_of_mem (List.mem_of_find?_eq_some hfind))
    have hfilter : (draft.inventory ++ [old]).filter (fun d => decide (d.ulid ≠ target)) =
        (draft.inventory.filter fun d => decide (d.ulid ≠ target)) ++ [old] := by
      rw [List.filter_append, List.filter_singleton, decide_eq_true hne]
      rfl
    rw [he, Draft.articles, hfilter]
    exact set_append_perm hold (cons_filter_perm hinv hfind)

theorem nodup_of_perm {draft draft' : Draft} (h : draft'.articles.Perm draft.articles)
    (hn : (draft.articles.map Detail.ulid).Nodup) : (draft'.articles.map Detail.ulid).Nodup :=
  (h.map Detail.ulid).nodup_iff.2 hn

/-- So it is with any number of swaps. -/
theorem swaps_keep (ops : List SwapOperation) (draft : Draft)
    (hn : (draft.articles.map Detail.ulid).Nodup) :
    (ops.foldl Draft.swap draft).top10.length = draft.top10.length ∧
      (ops.foldl Draft.swap draft).articles.Perm draft.articles := by
  induction ops generalizing draft with
  | nil => exact ⟨rfl, List.Perm.refl _⟩
  | cons op ops ih =>
    have hone := swap_perm draft op hn
    obtain ⟨hlength, hperm⟩ := ih (draft.swap op) (nodup_of_perm hone hn)
    exact ⟨hlength.trans (swap_length draft op), hperm.trans hone⟩

/-- The draft holds the articles of the batch. -/
theorem load_perm (b : Batch) : (Draft.load b).articles.Perm b.details := by
  have hsorted : (getBatchArticles b).Perm b.details := List.perm_insertionSort _ _
  refine List.Perm.trans ?_ hsorted
  exact ((List.perm_insertionSort _ _).append_right _).trans
    (List.filter_append_perm Detail.isTop10 (getBatchArticles b))

theorem load_nodup (b : Batch) : ((Draft.load b).articles.map Detail.ulid).Nodup :=
  ((load_perm b).map Detail.ulid).nodup_iff.2 b.unique

/-! ### The transaction -/

theorem keys_ranks (draft : Draft) :
    draft.ranks.map Prod.fst = draft.articles.map Detail.ulid := by
  have htop : (draft.top10.zipIdx.map fun p => (p.1.ulid, some (p.2 : Int))).map Prod.fst =
      (draft.top10.zipIdx.map Prod.fst).map Detail.ulid := by
    rw [List.map_map, List.map_map]
    rfl
  rw [Draft.ranks, List.map_append, htop, List.zipIdx_map_fst, List.map_map, Draft.articles,
    List.map_append]
  rfl

/-- Where an article is in the draft, it is in the statements. -/
theorem mem_ranks_top10 {draft : Draft} {i : Nat} (h : draft.top10[i]? = some d) :
    (d.ulid, some (i : Int)) ∈ draft.ranks := by
  refine List.mem_append_left _ (List.mem_map.2 ⟨(d, i), ?_, rfl⟩)
  rw [List.mk_mem_zipIdx_iff_getElem?]
  exact h

theorem mem_ranks_inventory {draft : Draft} (h : d ∈ draft.inventory) :
    (d.ulid, none) ∈ draft.ranks :=
  List.mem_append_right _ (List.mem_map.2 ⟨d, h, rfl⟩)

/-- A transaction leaves a row alone that none of its statements is about. -/
theorem onDetail_editTop10_of_notMem {d : Detail} {ranks : List (String × Option Int)}
    (h : d.ulid ∉ ranks.map Prod.fst) : (Write.editTop10 ranks).onDetail d = d := by
  rw [Write.onDetail]
  induction ranks with
  | nil => rfl
  | cons r ranks ih =>
    rw [List.map_cons, List.mem_cons, not_or] at h
    rw [List.foldl_cons, if_neg h.1]
    exact ih h.2

/-- A row becomes what the one statement about it makes of it. -/
theorem onDetail_editTop10 {d : Detail} {ranks : List (String × Option Int)}
    (hn : (ranks.map Prod.fst).Nodup) (hm : (d.ulid, rank) ∈ ranks) :
    (Write.editTop10 ranks).onDetail d = { d with isTop10 := rank.isSome, top10Rank := rank } := by
  induction ranks generalizing d with
  | nil => cases hm
  | cons r ranks ih =>
    rw [List.map_cons, List.nodup_cons] at hn
    by_cases hr : d.ulid = r.1
    · have hhead : (d.ulid, rank) = r := by
        rcases List.mem_cons.1 hm with heq | hm
        · exact heq
        · exact absurd (hr ▸ List.mem_map_of_mem hm) hn.1
      have hrest := onDetail_editTop10_of_notMem
        (d := { d with isTop10 := rank.isSome, top10Rank := rank }) (hr ▸ hn.1)
      rw [Write.onDetail] at hrest ⊢
      rw [List.foldl_cons, if_pos hr, ← hhead]
      exact hrest
    · have hm : (d.ulid, rank) ∈ ranks := by
        rcases List.mem_cons.1 hm with heq | hm
        · exact absurd (congrArg Prod.fst heq) hr
        · exact hm
      have hrest := ih hn.2 hm
      rw [Write.onDetail] at hrest ⊢
      rw [List.foldl_cons, if_neg hr]
      exact hrest

/-- The rows have the ranks of the list, and no others have one. -/
structure Ranked (top10 rows : List Detail) : Prop where
  placed : ∀ (i : Nat) (d : Detail), top10[i]? = some d →
    ∃ row ∈ rows, row.ulid = d.ulid ∧ row.isTop10 = true ∧ row.top10Rank = some (i : Int)
  others : ∀ row ∈ rows, row.ulid ∉ top10.map Detail.ulid →
    row.isTop10 = false ∧ row.top10Rank = none

theorem map_ulid_commit (db : Db) (w : Write) :
    (db.commit w).batch.details.map Detail.ulid = db.batch.details.map Detail.ulid := by
  rw [details_commit]
  exact map_ulid_onDetail w db.batch.details

theorem map_ulid_commitAll (db : Db) (ws : List Write) :
    (db.commitAll ws).batch.details.map Detail.ulid = db.batch.details.map Detail.ulid := by
  induction ws generalizing db with
  | nil => rfl
  | cons w ws ih => exact (ih (db.commit w)).trans (map_ulid_commit db w)

/-- The transaction of a draft of all articles of the batch ranks its rows. -/
theorem ranked_commit {draft : Draft} (db : Db)
    (h : (draft.articles.map Detail.ulid).Perm (db.batch.details.map Detail.ulid)) :
    Ranked draft.top10 (db.commit (.editTop10 draft.ranks)).batch.details := by
  have hn : (draft.articles.map Detail.ulid).Nodup := h.nodup_iff.2 db.batch.unique
  have hkeys : (draft.ranks.map Prod.fst).Nodup := (keys_ranks draft).symm ▸ hn
  rw [details_commit]
  constructor
  · intro i d hd
    have hmem : d ∈ draft.articles := List.mem_append_left _ (List.mem_of_getElem? hd)
    obtain ⟨row, hrow, hulid⟩ := List.mem_map.1 (h.mem_iff.1 (List.mem_map_of_mem hmem))
    have hedit := onDetail_editTop10 hkeys (hulid ▸ mem_ranks_top10 hd)
    refine ⟨_, List.mem_map_of_mem hrow, ?_⟩
    rw [hedit]
    exact ⟨hulid, rfl, rfl⟩
  · intro row hrow hout
    obtain ⟨d, hd, rfl⟩ := List.mem_map.1 hrow
    rw [ulid_onDetail] at hout
    obtain ⟨a, ha, hulid⟩ := List.mem_map.1 (h.mem_iff.2 (List.mem_map_of_mem hd))
    rcases List.mem_append.1 ha with ha | ha
    · exact absurd (hulid ▸ List.mem_map_of_mem ha) hout
    · rw [onDetail_editTop10 hkeys (hulid ▸ mem_ranks_inventory ha)]
      exact ⟨rfl, rfl⟩

/-- An edit keeps the articles of the draft apart, and its transaction, whatever is committed
between, ranks the rows as the draft does. -/
theorem draftEditor_ranks (db : Db) (ops : List SwapOperation) (ws : List Write) :
    let loaded := Draft.load db.batch
    let edited := ops.foldl Draft.swap loaded
    edited.top10.length = loaded.top10.length ∧ edited.articles.Perm loaded.articles ∧
      (edited.articles.map Detail.ulid).Nodup ∧
      Ranked edited.top10 ((db.commitAll ws).commit (.editTop10 edited.ranks)).batch.details := by
  intro loaded edited
  obtain ⟨hlength, hperm⟩ := swaps_keep ops loaded (load_nodup db.batch)
  refine ⟨hlength, hperm, nodup_of_perm hperm (load_nodup db.batch), ranked_commit _ ?_⟩
  rw [map_ulid_commitAll]
  exact (hperm.trans (load_perm db.batch)).map Detail.ulid

/-! ### Edits of a run -/

/-- A draft of all articles of the batch, with as many ranked as in the batch. -/
def Drafted (b : Batch) (ranks : List (String × Option Int)) : Prop :=
  ∃ draft : Draft, draft.ranks = ranks ∧
    (draft.articles.map Detail.ulid).Perm (b.details.map Detail.ulid) ∧
      draft.top10.length = b.details.countP Detail.isTop10

/-- Every edit that waits for its transaction is of a draft of the batch. -/
structure EditsDrafted (s : System) : Prop where
  queued : ∀ ranks, .editTop10 ranks ∈ s.queue → Drafted s.db.batch ranks
  loaded : ∀ ranks, .loaded ranks ∈ s.edits → Drafted s.db.batch ranks

theorem top10_load (b : Batch) :
    (Draft.load b).top10.length = b.details.countP Detail.isTop10 := by
  have hsorted : (getBatchArticles b).Perm b.details := List.perm_insertionSort _ _
  rw [← hsorted.countP_eq, List.countP_eq_length_filter]
  exact List.length_insertionSort _ _

theorem drafted_checked (db : Db) (ops : List SwapOperation) :
    Drafted db.batch (ops.foldl Draft.swap (Draft.load db.batch)).ranks := by
  obtain ⟨hlength, hperm⟩ := swaps_keep ops (Draft.load db.batch) (load_nodup db.batch)
  exact ⟨_, rfl, (hperm.trans (load_perm db.batch)).map Detail.ulid,
    hlength.trans (top10_load db.batch)⟩

/-- A list of the ranked articles of a batch is as long as the batch has ranked rows. -/
theorem Ranked.countP (h : Ranked top10 rows) (hn : (top10.map Detail.ulid).Nodup)
    (hrows : (rows.map Detail.ulid).Nodup) :
    rows.countP Detail.isTop10 = top10.length := by
  have hperm : ((rows.filter Detail.isTop10).map Detail.ulid).Perm (top10.map Detail.ulid) := by
    rw [List.perm_ext_iff_of_nodup (hrows.sublist (List.filter_sublist.map _)) hn]
    intro u
    constructor
    · intro hu
      obtain ⟨row, hrow, rfl⟩ := List.mem_map.1 hu
      obtain ⟨hmem, htop⟩ := List.mem_filter.1 hrow
      by_contra hout
      rw [(h.others row hmem hout).1] at htop
      cases htop
    · intro hu
      obtain ⟨d, hd, rfl⟩ := List.mem_map.1 hu
      obtain ⟨i, hi⟩ := List.getElem?_of_mem hd
      obtain ⟨row, hrow, hulid, htop, _⟩ := h.placed i d hi
      exact List.mem_map.2 ⟨row, List.mem_filter.2 ⟨hrow, htop⟩, hulid⟩
  have hlength := hperm.length_eq
  rwa [List.length_map, List.length_map, ← List.countP_eq_length_filter] at hlength

/-- A statement that is no edit keeps the ranked rows. -/
theorem isTop10_onDetail {w : Write} (h : w.edits = false) (d : Detail) :
    (w.onDetail d).isTop10 = d.isTop10 := by
  cases w with
  | editTop10 ranks => cases h
  | setDetail ulid status translated =>
    rw [Write.onDetail]
    split
    next => rfl
    next => rfl
  | skipUnpublished =>
    rw [Write.onDetail]
    split
    next => rfl
    next => rfl
  | _ => rfl

theorem drafted_congr {b b' : Batch} (hulids : b'.details.map Detail.ulid = b.details.map Detail.ulid)
    (hcount : b'.details.countP Detail.isTop10 = b.details.countP Detail.isTop10)
    (h : Drafted b ranks) : Drafted b' ranks := by
  obtain ⟨draft, hranks, hperm, hlength⟩ := h
  exact ⟨draft, hranks, hulids ▸ hperm, hcount ▸ hlength⟩

/-- The transaction of a draft of the batch keeps the number of its ranked rows. -/
theorem drafted_commit {db : Db} (h : Drafted db.batch ranks) :
    (∃ draft : Draft, draft.ranks = ranks ∧
      Ranked draft.top10 (db.commit (.editTop10 ranks)).batch.details) ∧
    (db.commit (.editTop10 ranks)).batch.details.countP Detail.isTop10 =
      db.batch.details.countP Detail.isTop10 := by
  obtain ⟨draft, rfl, hperm, hlength⟩ := h
  have hranked := ranked_commit db hperm
  have hn : (draft.articles.map Detail.ulid).Nodup := hperm.nodup_iff.2 db.batch.unique
  have htop : (draft.top10.map Detail.ulid).Nodup :=
    hn.sublist ((List.sublist_append_left _ _).map Detail.ulid)
  refine ⟨⟨draft, rfl, hranked⟩, ?_⟩
  rw [hranked.countP htop (db.commit _).batch.unique, hlength]

/-- What a transaction of an edit does, and what every step keeps. -/
def EditsRanked (s : System) (e : SystemEvent) (s' : System) : Prop :=
  (e = .write → ∀ ranks, s.queue.head? = some (.editTop10 ranks) →
    ∃ draft : Draft, draft.ranks = ranks ∧ Ranked draft.top10 s'.db.batch.details) ∧
  s'.db.batch.details.countP Detail.isTop10 = s.db.batch.details.countP Detail.isTop10

/-- A call of the publisher changes no row and queues no edit. -/
theorem editsDrafted_act {s s' : System} (h : s.step (.act i) = some s') (hs : EditsDrafted s) :
    EditsDrafted s' ∧ s'.db.batch.details = s.db.batch.details := by
  rw [System.step] at h
  obtain ⟨stage, hi, h⟩ := Option.bind_eq_some_iff.1 h
  obtain ⟨⟨stage', ws, lock⟩, hact, h⟩ := Option.bind_eq_some_iff.1 h
  cases h
  have hsame : (if lock then s.db.withStatus .publishing else s.db).batch.details =
      s.db.batch.details := by
    cases lock <;> rfl
  have hdrafted {ranks : List (String × Option Int)} (hd : Drafted s.db.batch ranks) :
      Drafted (if lock then s.db.withStatus .publishing else s.db).batch ranks :=
    drafted_congr (congrArg _ hsame) (congrArg _ hsame) hd
  refine ⟨⟨?_, fun ranks hm => hdrafted (hs.loaded ranks hm)⟩, hsame⟩
  intro ranks hm
  rcases List.mem_append.1 hm with hm | hm
  · exact hdrafted (hs.queued ranks hm)
  · have hnone := List.any_eq_false.1 (act_edits hact) _ hm
    exact absurd rfl hnone

theorem editsDrafted_actEdit {s s' : System} (h : s.step (.actEdit i) = some s')
    (hs : EditsDrafted s) : EditsDrafted s' ∧ s'.db = s.db := by
  rw [System.step] at h
  obtain ⟨stage, hi, h⟩ := Option.bind_eq_some_iff.1 h
  obtain ⟨⟨stage', ws⟩, hact, h⟩ := Option.bind_eq_some_iff.1 h
  cases h
  have hnew : (∀ ranks, .editTop10 ranks ∈ ws → Drafted s.db.batch ranks) ∧
      ∀ ranks, .loaded ranks = stage' → Drafted s.db.batch ranks := by
    cases stage with
    | started ops =>
      cases hact
      refine ⟨fun _ hm => absurd hm List.not_mem_nil, fun ranks hr => ?_⟩
      split at hr <;> cases hr
    | checked ops =>
      cases hact
      refine ⟨fun _ hm => absurd hm List.not_mem_nil, fun ranks hr => ?_⟩
      cases hr
      exact drafted_checked s.db ops
    | loaded ranks =>
      cases hact
      refine ⟨fun ranks' hm => ?_, fun _ hr => EditStage.noConfusion hr⟩
      cases List.mem_singleton.1 hm
      exact hs.loaded ranks (List.mem_of_getElem? hi)
    | done => cases hact
  refine ⟨⟨?_, ?_⟩, rfl⟩
  · intro ranks hm
    rcases List.mem_append.1 hm with hm | hm
    · exact hs.queued ranks hm
    · exact hnew.1 ranks hm
  · intro ranks hm
    rcases List.mem_or_eq_of_mem_set hm with hm | hm
    · exact hs.loaded ranks hm
    · exact hnew.2 ranks hm

theorem editsDrafted_write {s s' : System} (h : s.step .write = some s') (hs : EditsDrafted s) :
    EditsDrafted s' ∧ EditsRanked s .write s' := by
  rw [System.step] at h
  split at h
  next w queue hq =>
    cases h
    have hcommit : EditsRanked s .write { s with db := s.db.commit w, queue } := by
      rw [EditsRanked, hq]
      cases hw : w.edits with
      | true =>
        cases w with
        | editTop10 ranks =>
          obtain ⟨hranked, hcount⟩ := drafted_commit (hs.queued ranks (hq ▸ List.mem_cons_self))
          refine ⟨fun _ ranks' hr => ?_, hcount⟩
          cases hr
          exact hranked
        | _ => cases hw
      | false =>
        constructor
        · intro _ ranks hr
          cases hr
          cases hw
        · rw [details_commit, List.countP_map]
          exact List.countP_congr fun d _ => by rw [Function.comp, isTop10_onDetail hw]
    have hdrafted {ranks : List (String × Option Int)} (hd : Drafted s.db.batch ranks) :
        Drafted (s.db.commit w).batch ranks :=
      drafted_congr (map_ulid_commit s.db w) hcommit.2 hd
    refine ⟨⟨fun ranks hm => ?_, fun ranks hm => hdrafted (hs.loaded ranks hm)⟩, hcommit⟩
    exact hdrafted (hs.queued ranks (hq ▸ List.mem_cons_of_mem w hm))
  next => cases h

theorem editsDrafted_step (s : System) (e : SystemEvent) (s' : System) (h : s.step e = some s')
    (hs : EditsDrafted s) : EditsDrafted s' ∧ EditsRanked s e s' := by
  cases e with
  | publish args =>
    cases h
    exact ⟨⟨hs.queued, hs.loaded⟩, SystemEvent.noConfusion, rfl⟩
  | edit ops =>
    cases h
    refine ⟨⟨hs.queued, fun ranks hm => ?_⟩, SystemEvent.noConfusion, rfl⟩
    rcases List.mem_append.1 hm with hm | hm
    · exact hs.loaded ranks hm
    · cases List.mem_singleton.1 hm
  | act i =>
    obtain ⟨hdrafted, hsame⟩ := editsDrafted_act h hs
    exact ⟨hdrafted, SystemEvent.noConfusion, congrArg _ hsame⟩
  | emit i w =>
    rw [System.step] at h
    split at h
    next hw =>
      cases h
      refine ⟨⟨fun ranks hm => ?_, hs.loaded⟩, SystemEvent.noConfusion, rfl⟩
      rcases List.mem_append.1 hm with hm | hm
      · exact hs.queued ranks hm
      · rw [← List.mem_singleton.1 hm] at hw
        cases hw.2
    next => cases h
  | raise i =>
    rw [System.step] at h
    split at h
    next =>
      cases h
      exact ⟨⟨hs.queued, hs.loaded⟩, SystemEvent.noConfusion, rfl⟩
    next => cases h
  | actEdit i =>
    obtain ⟨hdrafted, hsame⟩ := editsDrafted_actEdit h hs
    exact ⟨hdrafted, SystemEvent.noConfusion, by rw [hsame]⟩
  | write => exact editsDrafted_write h hs
  | restart =>
    cases h
    exact ⟨⟨fun _ hm => absurd hm List.not_mem_nil, fun _ hm => absurd hm List.not_mem_nil⟩,
      SystemEvent.noConfusion, rfl⟩

/-- In every run, whatever comes between the steps of an edit, its transaction ranks the rows as a
draft of the batch does, and the top 10 keeps its size. -/
theorem edits_ranked_run (db : Db) (es : List SystemEvent) :
    Machine.Always System.step EditsRanked { db } es := by
  have hinit : EditsDrafted { db } :=
    ⟨fun _ hm => absurd hm List.not_mem_nil, fun _ hm => absurd hm List.not_mem_nil⟩
  have hmeets : Machine.Meets System.step (fun _ _ => True) { db } es :=
    Machine.meets_of_forall fun _ _ _ => trivial
  exact Machine.always_of_invariant (fun s e s' _ h hs => editsDrafted_step s e s' h hs) hmeets
    hinit

end Publisher
