import Mathlib.Data.List.Induction

namespace Grouping
set_option autoImplicit true

variable [DecidableEq κ] {key : α → κ}

/-- Add an element to the group of its key; a new key comes last. -/
def insert (key : α → κ) (a : α) : List (κ × List α) → List (κ × List α)
  | [] => [(key a, [a])]
  | (k, as) :: gs => if k = key a then (k, as ++ [a]) :: gs else (k, as) :: insert key a gs

/-- The elements by their keys, the keys in the order of their first element. -/
def groups (key : α → κ) (l : List α) : List (κ × List α) :=
  l.foldl (fun gs a => insert key a gs) []

/-- The elements in the order of the groups. -/
def flat (gs : List (κ × List α)) : List α := gs.flatMap Prod.snd

/-- The elements of the groups after the group of a key. -/
def behind (k : κ) : List (κ × List α) → List α
  | [] => []
  | (k', _) :: gs => if k' = k then flat gs else behind k gs

/-- The pairs of an element and a later one that grouping brings before it. -/
def overtaken (key : α → κ) : List (κ × List α) → List α → List (α × α)
  | _, [] => []
  | gs, a :: l => (behind (key a) gs).map (fun b => (b, a)) ++ overtaken key (insert key a gs) l

theorem flat_insert (key : α → κ) (a : α) (gs : List (κ × List α)) :
    ∃ front, flat gs = front ++ behind (key a) gs ∧
      flat (insert key a gs) = front ++ a :: behind (key a) gs := by
  induction gs with
  | nil => exact ⟨[], rfl, rfl⟩
  | cons g gs ih =>
    obtain ⟨k, as⟩ := g
    rw [insert, behind]
    by_cases hk : k = key a
    · rw [if_pos hk, if_pos hk]
      refine ⟨as, rfl, ?_⟩
      rw [flat, List.flatMap_cons, List.append_assoc]
      rfl
    · obtain ⟨front, hf, hi⟩ := ih
      rw [if_neg hk, if_neg hk]
      refine ⟨as ++ front, ?_, ?_⟩
      · rw [flat, List.flatMap_cons, List.append_assoc, ← hf]
        rfl
      · rw [flat, List.flatMap_cons, List.append_assoc, ← hi]
        rfl

theorem mem_flat_insert (a : α) (gs : List (κ × List α)) :
    b ∈ flat (insert key a gs) ↔ b = a ∨ b ∈ flat gs := by
  obtain ⟨front, hf, hi⟩ := flat_insert key a gs
  rw [hf, hi]
  simp only [List.mem_append, List.mem_cons]
  constructor
  · intro h
    rcases h with h | h | h
    · exact .inr (.inl h)
    · exact .inl h
    · exact .inr (.inr h)
  · intro h
    rcases h with h | h | h
    · exact .inr (.inl h)
    · exact .inl h
    · exact .inr (.inr h)

/-- A group holds the elements of its key. -/
theorem key_of_mem_insert {gs : List (κ × List α)} (h : ∀ g ∈ gs, ∀ b ∈ g.2, key b = g.1)
    (hg : g ∈ insert key a gs) (hb : b ∈ g.2) : key b = g.1 := by
  induction gs with
  | nil =>
    rw [insert, List.mem_singleton] at hg
    subst hg
    rw [List.mem_singleton.1 hb]
  | cons g' gs ih =>
    obtain ⟨k, as⟩ := g'
    rw [insert] at hg
    split at hg
    next hk =>
      rcases List.mem_cons.1 hg with he | hg
      · subst he
        rcases List.mem_append.1 hb with hb | hb
        · exact h (k, as) List.mem_cons_self b hb
        · rw [List.mem_singleton.1 hb, hk]
      · exact h g (List.mem_cons_of_mem _ hg) b hb
    · rcases List.mem_cons.1 hg with he | hg
      · subst he
        exact h (k, as) List.mem_cons_self b hb
      · exact ih (fun g hg => h g (List.mem_cons_of_mem _ hg)) hg

theorem groups_append (key : α → κ) (l : List α) (a : α) :
    groups key (l ++ [a]) = insert key a (groups key l) := by
  rw [groups, List.foldl_append]
  rfl

theorem lookup_group (k k' : κ) (as : List α) (gs : List (κ × List α)) :
    (((k', as) :: gs).lookup k).getD [] = if k = k' then as else (gs.lookup k).getD [] := by
  rw [List.lookup_cons]
  by_cases hk : k = k'
  · rw [beq_iff_eq.2 hk, if_pos hk]
    rfl
  · rw [beq_eq_false_iff_ne.2 hk, if_neg hk]

theorem lookup_insert (key : α → κ) (a : α) (gs : List (κ × List α)) (k : κ) :
    ((insert key a gs).lookup k).getD [] =
      (gs.lookup k).getD [] ++ if k = key a then [a] else [] := by
  induction gs with
  | nil =>
    rw [insert, lookup_group]
    rfl
  | cons g gs ih =>
    obtain ⟨k', as⟩ := g
    rw [insert, lookup_group]
    split
    next hk' =>
      subst hk'
      rw [lookup_group]
      split
      · rfl
      · rw [List.append_nil]
    next hk' =>
      rw [lookup_group, ih]
      by_cases hk : k = k'
      · rw [if_pos hk, if_pos hk, if_neg fun h => hk' (hk.symm.trans h), List.append_nil]
      · rw [if_neg hk, if_neg hk]

/-- The group of a key has the elements with that key, in their order. -/
theorem lookup_groups (key : α → κ) (l : List α) (k : κ) :
    ((groups key l).lookup k).getD [] = l.filter fun a => decide (k = key a) := by
  induction l using List.reverseRecOn with
  | nil => rfl
  | append_singleton l a ih =>
    rw [groups_append, lookup_insert, ih, List.filter_append]
    congr 1
    by_cases hk : k = key a
    · rw [if_pos hk, List.filter_cons, if_pos (decide_eq_true hk), List.filter_nil]
    · rw [if_neg hk, List.filter_cons, if_neg fun h => hk (of_decide_eq_true h), List.filter_nil]

theorem key_of_mem_groups {l : List α} (hg : g ∈ groups key l) (hb : b ∈ g.2) :
    key b = g.1 := by
  induction l using List.reverseRecOn generalizing g b with
  | nil => cases hg
  | append_singleton l a ih =>
    rw [groups_append] at hg
    exact key_of_mem_insert (fun g hg b hb => ih hg hb) hg hb

theorem mem_flat_groups (key : α → κ) {l : List α} : b ∈ flat (groups key l) ↔ b ∈ l := by
  induction l using List.reverseRecOn with
  | nil => rfl
  | append_singleton l a ih =>
    rw [groups_append, mem_flat_insert, ih, List.mem_append, List.mem_singleton, or_comm]

theorem mem_behind {gs : List (κ × List α)} (h : b ∈ behind k gs) : b ∈ flat gs := by
  induction gs with
  | nil => exact h
  | cons g gs ih =>
    obtain ⟨k', as⟩ := g
    rw [flat, List.flatMap_cons]
    apply List.mem_append_right
    rw [behind] at h
    split at h
    · exact h
    · exact ih h

theorem mem_overtaken {gs : List (κ × List α)} {l : List α} (h : p ∈ overtaken key gs l) :
    (p.1 ∈ flat gs ∨ p.1 ∈ l) ∧ p.2 ∈ l := by
  induction l generalizing gs with
  | nil => cases h
  | cons a l ih =>
    rw [overtaken] at h
    rcases List.mem_append.1 h with h | h
    · obtain ⟨b, hb, he⟩ := List.mem_map.1 h
      subst he
      exact ⟨.inl (mem_behind hb), List.mem_cons_self⟩
    · obtain ⟨hfst, hsnd⟩ := ih h
      refine ⟨?_, List.mem_cons_of_mem a hsnd⟩
      rcases hfst with hf | hl
      · rcases (mem_flat_insert a gs).1 hf with he | hf
        · exact .inr (he ▸ List.mem_cons_self)
        · exact .inl hf
      · exact .inr (List.mem_cons_of_mem a hl)

section
variable {act : σ → α → σ} {Inv : σ → Prop}

theorem foldl_inv {l : List α} (hinv : ∀ a ∈ l, ∀ s, Inv s → Inv (act s a)) (hs : Inv s) :
    Inv (l.foldl act s) := by
  induction l generalizing s with
  | nil => exact hs
  | cons a l ih =>
    exact ih (fun b hb => hinv b (List.mem_cons_of_mem a hb)) (hinv a List.mem_cons_self s hs)

/-- What commutes with every element of a list may come before or after it. -/
theorem foldl_comm {f : σ → σ} {l : List α} (hinv : ∀ a ∈ l, ∀ s, Inv s → Inv (act s a))
    (hcomm : ∀ a ∈ l, ∀ s, Inv s → f (act s a) = act (f s) a) (hs : Inv s) :
    f (l.foldl act s) = l.foldl act (f s) := by
  induction l generalizing s with
  | nil => rfl
  | cons a l ih =>
    rw [List.foldl_cons, List.foldl_cons, ← hcomm a List.mem_cons_self s hs]
    exact ih (fun b hb => hinv b (List.mem_cons_of_mem a hb))
      (fun b hb => hcomm b (List.mem_cons_of_mem a hb)) (hinv a List.mem_cons_self s hs)

/-- Grouping changes nothing when each element commutes with those that it overtakes. -/
theorem foldl_groups {l : List α} {gs : List (κ × List α)}
    (hinv : ∀ a, a ∈ flat gs ∨ a ∈ l → ∀ s, Inv s → Inv (act s a))
    (hcomm : ∀ p ∈ overtaken key gs l, ∀ s, Inv s →
      act (act s p.1) p.2 = act (act s p.2) p.1) (hs : Inv s) :
    (flat (l.foldl (fun gs a => insert key a gs) gs)).foldl act s =
      l.foldl act ((flat gs).foldl act s) := by
  induction l generalizing gs with
  | nil => rfl
  | cons a l ih =>
    rw [List.foldl_cons, List.foldl_cons, ih]
    · congr 1
      obtain ⟨front, hf, hi⟩ := flat_insert key a gs
      rw [hi, hf, List.foldl_append, List.foldl_append, List.foldl_cons]
      have hfront : Inv (front.foldl act s) := by
        apply foldl_inv _ hs
        intro b hb
        apply hinv b
        rw [hf]
        exact .inl (List.mem_append_left _ hb)
      refine (foldl_comm (f := fun s => act s a) ?_ ?_ hfront).symm
      · intro b hb
        apply hinv b
        rw [hf]
        exact .inl (List.mem_append_right _ hb)
      · intro b hb s hs
        apply hcomm (b, a) _ s hs
        rw [overtaken]
        exact List.mem_append_left _ (List.mem_map.2 ⟨b, hb, rfl⟩)
    · intro b hb
      apply hinv b
      rcases hb with hb | hb
      · rcases (mem_flat_insert a gs).1 hb with he | hb
        · exact .inr (he ▸ List.mem_cons_self)
        · exact .inl hb
      · exact .inr (List.mem_cons_of_mem a hb)
    · intro p hp
      apply hcomm p
      rw [overtaken]
      exact List.mem_append_right _ hp

theorem foldl_flat_groups (key : α → κ) {l : List α} (hinv : ∀ a ∈ l, ∀ s, Inv s → Inv (act s a))
    (hcomm : ∀ p ∈ overtaken key [] l, ∀ s, Inv s →
      act (act s p.1) p.2 = act (act s p.2) p.1) (hs : Inv s) :
    (flat (groups key l)).foldl act s = l.foldl act s := by
  apply foldl_groups _ hcomm hs
  intro a ha
  rcases ha with hn | hl
  · cases hn
  · exact hinv a hl

end

theorem filter_or_perm {p q : α → Bool} {l : List α} (h : ∀ a ∈ l, ¬ (p a = true ∧ q a = true)) :
    (l.filter fun a => p a || q a).Perm (l.filter p ++ l.filter q) := by
  have hsplit := List.filter_append_perm p (l.filter fun a => p a || q a)
  have hp : (l.filter fun a => p a || q a).filter p = l.filter p := by
    rw [List.filter_filter]
    apply List.filter_congr
    intro a _
    cases p a <;> rfl
  have hq : (l.filter fun a => p a || q a).filter (fun a => !p a) = l.filter q := by
    rw [List.filter_filter]
    apply List.filter_congr
    intro a ha
    have hnot := h a ha
    cases hpa : p a with
    | true => simpa [hpa] using hnot
    | false => rfl
  rw [hp, hq] at hsplit
  exact hsplit.symm

/-- Of the elements with one of two properties there is one, where the first property has one. -/
theorem countP_or_eq_one {p q : α → Bool} {l : List α} (h : l.any p = true) :
    l.countP (fun a => p a || q a) = 1 ↔
      (∀ a ∈ l, q a = true → p a = true) ∧ l.countP p ≤ 1 := by
  have hpos : 0 < l.countP p := by
    rw [List.countP_pos_iff]
    exact List.any_eq_true.1 h
  constructor
  · intro hone
    have hle : l.countP p ≤ l.countP fun a => p a || q a := by
      apply List.countP_mono_left
      intro a _ ha
      rw [ha, Bool.true_or]
    refine ⟨?_, by omega⟩
    intro a ha hq
    by_contra hp
    -- an element beside those of the first property
    have hsplit := List.countP_eq_countP_filter_add l (fun a => p a || q a) p
    have hfirst : (l.filter p).countP (fun a => p a || q a) = l.countP p := by
      rw [List.countP_filter]
      apply List.countP_congr
      intro b _
      cases p b <;> simp
    have hsecond : 0 < (l.filter fun a => !p a).countP fun a => p a || q a := by
      rw [List.countP_pos_iff]
      refine ⟨a, List.mem_filter.2 ⟨ha, ?_⟩, ?_⟩
      · rw [Bool.not_eq_true] at hp
        rw [hp]
        rfl
      · rw [hq, Bool.or_true]
    omega
  · intro ⟨hall, hle⟩
    have heq : (l.countP fun a => p a || q a) = l.countP p := by
      apply List.countP_congr
      intro a ha
      cases hq : q a with
      | false => rw [Bool.or_false]
      | true => rw [hall a ha hq, Bool.true_or]
    omega

theorem singleton_iff_countP {p : α → Bool} {l : List α} :
    (∃ a, l.filter p = [a]) ↔ l.countP p = 1 := by
  rw [List.countP_eq_length_filter, List.length_eq_one_iff]

end Grouping
