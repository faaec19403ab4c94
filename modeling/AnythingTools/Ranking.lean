import Mathlib.Data.List.Nodup
import Mathlib.Data.List.Perm.Subperm
import Mathlib.Data.List.Sort

namespace Ranking
set_option autoImplicit true

/-- The entry is moved to a better place, and the others keep their order. -/
def Promoted (x : α) (l l' : List α) : Prop :=
  ∃ before between after,
    l = before ++ between ++ x :: after ∧ l' = before ++ x :: (between ++ after)

theorem Promoted.perm (h : Promoted x l l') : l'.Perm l := by
  obtain ⟨before, between, after, rfl, rfl⟩ := h
  rw [List.append_assoc]
  exact List.Perm.append_left before List.perm_middle.symm

theorem Promoted.mem (h : Promoted x l l') : x ∈ l := by
  obtain ⟨before, between, after, rfl, -⟩ := h
  exact List.mem_append_right _ List.mem_cons_self

theorem Promoted.map {l l' : List α} (h : Promoted x l l') (f : α → β) :
    Promoted (f x) (l.map f) (l'.map f) := by
  obtain ⟨before, between, after, rfl, rfl⟩ := h
  refine ⟨before.map f, between.map f, after.map f, ?_, ?_⟩
  · rw [List.map_append, List.map_append, List.map_cons]
  · rw [List.map_append, List.map_cons, List.map_append]

variable [DecidableEq α]

theorem pair_sublist_iff {l : List α} (h : l.Nodup) :
    [a, b].Sublist l ↔ l.idxOf a < l.idxOf b ∧ b ∈ l := by
  induction l with
  | nil =>
    rw [List.sublist_nil]
    exact iff_of_false (List.cons_ne_nil _ _) fun hb => nomatch hb.2
  | cons c l ih =>
    rw [List.nodup_cons] at h
    rw [List.sublist_cons_iff, ih h.2]
    by_cases hac : a = c
    · subst hac
      constructor
      · rintro (⟨hlt, hb⟩ | ⟨r, he, hr⟩)
        · have ha : a ∈ l := List.idxOf_lt_length_iff.1 (hlt.trans_le List.idxOf_le_length)
          exact absurd ha h.1
        · cases he
          have hb : b ∈ l := List.singleton_sublist.1 hr
          have hne : b ≠ a := fun he => h.1 (he ▸ hb)
          rw [List.idxOf_cons_self, List.idxOf_cons_ne _ hne.symm]
          exact ⟨Nat.succ_pos _, List.mem_cons_of_mem a hb⟩
      · rintro ⟨hlt, hb⟩
        rw [List.idxOf_cons_self] at hlt
        rcases List.mem_cons.1 hb with rfl | hb
        · rw [List.idxOf_cons_self] at hlt
          cases hlt
        · exact .inr ⟨[b], rfl, List.singleton_sublist.2 hb⟩
    · rw [List.idxOf_cons_ne _ (Ne.symm hac)]
      by_cases hbc : b = c
      · subst hbc
        rw [List.idxOf_cons_self]
        apply iff_of_false
        · rintro (⟨-, hb⟩ | ⟨r, he, -⟩)
          · exact h.1 hb
          · cases he
            exact hac rfl
        · exact fun hlt => Nat.not_lt_zero _ hlt.1
      · rw [List.idxOf_cons_ne _ (Ne.symm hbc), List.mem_cons]
        constructor
        · rintro (⟨hlt, hb⟩ | ⟨r, he, -⟩)
          · exact ⟨Nat.succ_lt_succ hlt, .inr hb⟩
          · cases he
            exact absurd rfl hac
        · rintro ⟨hlt, hb⟩
          exact .inl ⟨Nat.lt_of_succ_lt_succ hlt, hb.resolve_left hbc⟩

/-- The promoted entry passes others, which fall by one place, or nothing is moved. -/
theorem Promoted.idxOf {l l' : List α} (h : Promoted x l l') (hnd : l.Nodup) :
    l' = l ∨ l'.idxOf x < l.idxOf x ∧ ∀ y, y ≠ x → l.idxOf y ≤ l'.idxOf y := by
  obtain ⟨before, between, after, rfl, rfl⟩ := h
  rw [List.append_assoc] at hnd ⊢
  rw [List.nodup_append] at hnd
  have hx : x ∈ between ++ x :: after := List.mem_append_right _ List.mem_cons_self
  have hxb : x ∉ before := fun hm => hnd.2.2 x hm x hx rfl
  have hxm : x ∉ between := by
    intro hm
    exact (List.nodup_append.1 hnd.2.1).2.2 x hm x List.mem_cons_self rfl
  cases between with
  | nil => exact .inl rfl
  | cons c between =>
    refine .inr ⟨?_, ?_⟩
    · rw [List.idxOf_append_of_notMem hxb, List.idxOf_append_of_notMem hxb,
        List.idxOf_append_of_notMem hxm, List.idxOf_cons_self, List.length_cons]
      omega
    · intro y hy
      by_cases hyb : y ∈ before
      · rw [List.idxOf_append_of_mem hyb, List.idxOf_append_of_mem hyb]
      · rw [List.idxOf_append_of_notMem hyb, List.idxOf_append_of_notMem hyb,
          List.idxOf_cons_ne _ (Ne.symm hy)]
        by_cases hym : y ∈ c :: between
        · rw [List.idxOf_append_of_mem hym, List.idxOf_append_of_mem hym]
          omega
        · rw [List.idxOf_append_of_notMem hym, List.idxOf_append_of_notMem hym,
            List.idxOf_cons_ne _ (Ne.symm hy)]
          omega

variable [LinearOrder σ]

/-- The higher scores come first, equal ones in the order in which they have been seen. -/
def Ranked (score : α → σ) (seen l : List α) : Prop :=
  l.Pairwise fun a b => score b < score a ∨ score a = score b ∧ seen.idxOf a < seen.idxOf b

theorem Ranked.nodup {score : α → σ} (h : Ranked score seen l) : l.Nodup := by
  refine h.imp ?_
  rintro a b (hlt | ⟨-, hlt⟩) rfl
  · exact lt_irrefl _ hlt
  · exact Nat.lt_irrefl _ hlt

/-- A stable sort by the scores ranks. -/
theorem ranked_insertionSort (score : α → σ) {l : List α} (h : l.Nodup) :
    Ranked score l (l.insertionSort fun a b => score b ≤ score a) := by
  have htrans : IsTrans α fun a b => score b ≤ score a := ⟨fun _ _ _ hab hbc => hbc.trans hab⟩
  have htotal : Std.Total fun a b : α => score b ≤ score a := ⟨fun _ _ => le_total _ _⟩
  have hsorted := List.pairwise_insertionSort (fun a b => score b ≤ score a) l
  have hperm := List.perm_insertionSort (fun a b => score b ≤ score a) l
  have hnodup := hperm.nodup_iff.2 h
  rw [Ranked, List.pairwise_iff_forall_sublist]
  intro a b hab
  rcases ((List.pairwise_iff_forall_sublist.1 hsorted) hab).lt_or_eq with hlt | heq
  · exact .inl hlt
  · refine .inr ⟨heq.symm, ?_⟩
    have ha : a ∈ l := hperm.subset (hab.subset List.mem_cons_self)
    have hb : b ∈ l := hperm.subset (hab.subset (List.mem_cons_of_mem a List.mem_cons_self))
    have horder := (pair_sublist_iff hnodup).1 hab
    rcases Nat.lt_trichotomy (l.idxOf a) (l.idxOf b) with hlt | hi | hgt
    · exact hlt
    · rw [(List.idxOf_inj ha).1 hi] at horder
      exact absurd horder.1 (Nat.lt_irrefl _)
    · -- the sort would have kept them in the other order
      have hpair : [b, a].Sublist l := (pair_sublist_iff h).2 ⟨hgt, ha⟩
      have hba := List.pair_sublist_insertionSort (r := fun a b => score b ≤ score a) heq.ge hpair
      exact absurd ((pair_sublist_iff hnodup).1 hba).1 (Nat.lt_asymm horder.1)

/-- An entry with fewer entries before it has a smaller index. -/
theorem idxOf_le_of_before {l l' : List α} (h : l'.Nodup)
    (hbefore : ∀ y, l'.idxOf y < l'.idxOf x → l.idxOf y < l.idxOf x) :
    l'.idxOf x ≤ l.idxOf x := by
  have hsub : l'.take (l'.idxOf x) ⊆ l.take (l.idxOf x) := by
    intro y hy
    have hlt := hbefore y ((List.mem_take_iff_idxOf_lt (List.mem_of_mem_take hy)).1 hy)
    have hyl : y ∈ l := List.idxOf_lt_length_iff.1 (hlt.trans_le List.idxOf_le_length)
    exact (List.mem_take_iff_idxOf_lt hyl).2 hlt
  have hlen := (List.subperm_of_subset (h.sublist (List.take_sublist _ _)) hsub).length_le
  rw [List.length_take, Nat.min_eq_left List.idxOf_le_length] at hlen
  exact hlen.trans (List.length_take_le _ _)

/-- An entry whose score has grown, while the others' have not, is not ranked later. -/
theorem Ranked.idxOf_le {score score' : α → σ} (h : Ranked score seen l)
    (h' : Ranked score' seen' l') (hsub : l' ⊆ l) (hx : x ∈ l') (hup : score x < score' x)
    (hdown : ∀ y, y ≠ x → score' y ≤ score y) : l'.idxOf x ≤ l.idxOf x := by
  apply idxOf_le_of_before h'.nodup
  intro y hlt
  have hpair := List.pairwise_iff_forall_sublist.1 h' ((pair_sublist_iff h'.nodup).2 ⟨hlt, hx⟩)
  have hne : y ≠ x := by
    rintro rfl
    exact Nat.lt_irrefl _ hlt
  have hyx : score x < score y := by
    have hle : score' x ≤ score' y := hpair.elim le_of_lt fun he => he.1.ge
    exact (hup.trans_le hle).trans_le (hdown y hne)
  have hy : y ∈ l := hsub (List.idxOf_lt_length_iff.1 (hlt.trans_le List.idxOf_le_length))
  rcases Nat.lt_trichotomy (l.idxOf y) (l.idxOf x) with hi | hi | hi
  · exact hi
  · exact absurd ((List.idxOf_inj hy).1 hi) hne
  · have hxy := List.pairwise_iff_forall_sublist.1 h ((pair_sublist_iff h.nodup).2 ⟨hi, hy⟩)
    rcases hxy with hgt | ⟨heq, -⟩
    · exact absurd hgt hyx.not_gt
    · exact absurd heq hyx.ne

end Ranking
