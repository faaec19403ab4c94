import Mathlib.Data.List.Sort

namespace Paging
set_option autoImplicit true

variable [LinearOrder κ] {key : α → κ} {l : List α}

/-- The list is in the order of its keys, no two of which are the same. -/
def Ordered (key : α → κ) (l : List α) : Prop := l.Pairwise fun a b => key a < key b

instance (key : α → κ) (l : List α) : Decidable (Ordered key l) :=
  inferInstanceAs (Decidable (l.Pairwise _))

/-- How many entries come before one with the key. -/
def before (key : α → κ) (l : List α) (k : κ) : Nat := l.countP fun a => decide (key a < k)

theorem Ordered.nodup (h : Ordered key l) : l.Nodup := by
  refine List.Pairwise.imp (fun {a b} (hlt : key a < key b) he => ?_) h
  rw [he] at hlt
  exact lt_irrefl _ hlt

theorem Ordered.before_getElem (h : Ordered key l) (i : Nat) (hi : i < l.length) :
    before key l (key l[i]) = i := by
  have hlt := List.pairwise_iff_getElem.1 h
  have hsplit : before key l (key l[i]) =
      (l.take i).countP (fun a => decide (key a < key l[i])) +
        (l.drop i).countP (fun a => decide (key a < key l[i])) := by
    rw [← List.countP_append, List.take_append_drop]
    rfl
  rw [hsplit, List.countP_eq_length.2, List.countP_eq_zero.2, List.length_take]
  · omega
  · intro a ha
    obtain ⟨j, hj, rfl⟩ := List.mem_drop_iff_getElem.1 ha
    rw [decide_eq_true_eq, not_lt]
    rcases Nat.eq_zero_or_pos j with rfl | hpos
    · exact le_of_eq (by simp)
    · exact (hlt i (i + j) hi (by omega) (by omega)).le
  · intro a ha
    obtain ⟨j, hj, rfl⟩ := List.mem_take_iff_getElem.1 ha
    exact decide_eq_true (hlt j i (by omega) hi (by omega))

theorem Ordered.before_lt (h : Ordered key l) (ha : a ∈ l) (hb : b ∈ l) (hlt : key a < key b) :
    before key l (key a) < before key l (key b) := by
  obtain ⟨i, hi, rfl⟩ := List.getElem_of_mem ha
  obtain ⟨j, hj, rfl⟩ := List.getElem_of_mem hb
  rw [h.before_getElem i hi, h.before_getElem j hj]
  by_contra hle
  rcases Nat.lt_or_eq_of_le (Nat.le_of_not_lt hle) with hji | rfl
  · exact lt_asymm hlt (List.pairwise_iff_getElem.1 h j i hj hi hji)
  · exact lt_irrefl _ hlt

/-- An entry is on the page where it stands. -/
theorem Ordered.mem_page (h : Ordered key l) (ha : a ∈ l) (offset size : Nat) :
    a ∈ (l.drop offset).take size ↔
      offset ≤ before key l (key a) ∧ before key l (key a) < offset + size := by
  obtain ⟨i, hi, rfl⟩ := List.getElem_of_mem ha
  rw [h.before_getElem i hi, List.mem_take_iff_getElem]
  constructor
  · rintro ⟨j, hj, he⟩
    rw [List.length_drop] at hj
    rw [List.getElem_drop, h.nodup.getElem_inj_iff] at he
    omega
  · rintro ⟨hle, hlt⟩
    refine ⟨i - offset, by rw [List.length_drop]; omega, ?_⟩
    rw [List.getElem_drop, h.nodup.getElem_inj_iff]
    omega

theorem Ordered.mem_take (h : Ordered key l) (ha : a ∈ l) (n : Nat) :
    a ∈ l.take n ↔ before key l (key a) < n := by
  have hp := h.mem_page ha 0 n
  rw [List.drop_zero] at hp
  rw [hp]
  omega

theorem before_lt_length (h : a ∈ l) : before key l (key a) < l.length := by
  have hle := List.countP_le_length (p := fun b => decide (key b < key a)) (l := l)
  refine lt_of_le_of_ne hle fun he => ?_
  exact absurd (List.countP_eq_length.1 he a h) (by simp)

theorem before_insert (key : α → κ) (l : List α) (x : α) (k : κ) :
    before key (l.orderedInsert (fun a b => key a ≤ key b) x) k =
      before key l k + if key x < k then 1 else 0 := by
  rw [before, (List.perm_orderedInsert _ x l).countP_eq, List.countP_cons]
  simp only [before, decide_eq_true_eq]

theorem Ordered.insert (h : Ordered key l) (hx : ∀ a ∈ l, key a ≠ key x) :
    Ordered key (l.orderedInsert (fun a b => key a ≤ key b) x) := by
  induction l with
  | nil => exact List.pairwise_singleton _ x
  | cons a l ih =>
    obtain ⟨ha, hl⟩ := List.pairwise_cons.1 h
    have ih := ih hl fun b hb => hx b (List.mem_cons_of_mem a hb)
    have hne := hx a List.mem_cons_self
    rw [List.orderedInsert_cons]
    split
    next hle =>
      refine List.pairwise_cons.2 ⟨fun b hb => ?_, h⟩
      have hlt := lt_of_le_of_ne hle hne.symm
      rcases List.mem_cons.1 hb with rfl | hb
      · exact hlt
      · exact hlt.trans (ha b hb)
    next hle =>
      refine List.pairwise_cons.2 ⟨fun b hb => ?_, ih⟩
      rcases List.mem_cons.1 ((List.perm_orderedInsert _ x l).mem_iff.1 hb) with rfl | hb
      · exact not_le.1 hle
      · exact ha b hb

/-- The entry with the key is taken out. -/
theorem Ordered.before_delete (h : Ordered key l) (i k : κ) :
    before key (l.filter fun a => decide (key a ≠ i)) k +
      (if i < k ∧ i ∈ l.map key then 1 else 0) = before key l k := by
  induction l with
  | nil => simp [before]
  | cons a l ih =>
    obtain ⟨ha, hl⟩ := List.pairwise_cons.1 h
    have ih := ih hl
    have hcons (l : List α) : before key (a :: l) k =
        before key l k + if key a < k then 1 else 0 := by
      simp only [before, List.countP_cons, decide_eq_true_eq]
    by_cases he : key a = i
    · have hno : i ∉ l.map key := by
        rw [List.mem_map]
        rintro ⟨b, hb, hbi⟩
        exact absurd (ha b hb) (by rw [he, hbi]; exact lt_irrefl i)
      rw [List.filter_cons_of_neg (by simp [he]), hcons]
      simp only [hno, and_false, ↓reduceIte, List.map_cons, he, List.mem_cons, true_or,
        and_true] at ih ⊢
      omega
    · have hne : i ≠ key a := fun h => he h.symm
      rw [List.filter_cons_of_pos (by simp [he]), hcons, hcons]
      simp only [List.map_cons, List.mem_cons, hne, false_or] at ih ⊢
      omega

end Paging
