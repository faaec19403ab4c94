import Mathlib.Data.List.Basic
import Mathlib.Data.List.Pairwise
import Mathlib.Data.List.Perm.Basic

namespace Displace
set_option autoImplicit true

/-- Write an element; what clashes with it gives way. -/
def put (clash : α → α → Bool) (l : List α) (a : α) : List α :=
  l.filter (fun b => !clash a b) ++ [a]

def putAll (clash : α → α → Bool) (l as : List α) : List α := as.foldl (put clash) l

/-- No two places of the list clash. -/
def Apart (clash : α → α → Bool) (l : List α) : Prop := l.Pairwise fun a b => ¬ clash a b = true

section
variable {clash : α → α → Bool}

theorem mem_put : b ∈ put clash l a ↔ (b ∈ l ∧ clash a b = false) ∨ b = a := by
  rw [put, List.mem_append, List.mem_filter, List.mem_singleton, Bool.not_eq_true']

theorem putAll_cons (l : List α) (a : α) (as : List α) :
    putAll clash l (a :: as) = putAll clash (put clash l a) as := rfl

theorem putAll_append (l as bs : List α) :
    putAll clash l (as ++ bs) = putAll clash (putAll clash l as) bs := List.foldl_append

/-- What is there in the end was there and met no clash, or was written and met none after that. -/
theorem mem_putAll : b ∈ putAll clash l as ↔
    (b ∈ l ∧ ∀ a ∈ as, clash a b = false) ∨
      ∃ as₁ as₂, as = as₁ ++ b :: as₂ ∧ ∀ a ∈ as₂, clash a b = false := by
  induction as generalizing l with
  | nil =>
    constructor
    · intro h
      exact .inl ⟨h, fun a ha => by cases ha⟩
    · rintro (h | ⟨as₁, as₂, he, _⟩)
      · exact h.1
      · cases as₁ <;> cases he
  | cons a as ih =>
    rw [putAll_cons, ih, mem_put]
    constructor
    · rintro (⟨⟨hb, hab⟩ | rfl, has⟩ | ⟨as₁, as₂, rfl, hc⟩)
      · exact .inl ⟨hb, List.forall_mem_cons.2 ⟨hab, has⟩⟩
      · exact .inr ⟨[], as, rfl, has⟩
      · exact .inr ⟨a :: as₁, as₂, rfl, hc⟩
    · rintro (⟨hb, has⟩ | ⟨as₁, as₂, he, hc⟩)
      · rw [List.forall_mem_cons] at has
        exact .inl ⟨.inl ⟨hb, has.1⟩, has.2⟩
      · cases as₁ with
        | nil =>
          cases he
          exact .inl ⟨.inr rfl, hc⟩
        | cons a' as₁ =>
          cases he
          exact .inr ⟨as₁, as₂, rfl, hc⟩

theorem perm_last (l₁ l₂ : List α) (a : α) : (l₁ ++ l₂ ++ [a]).Perm (l₁ ++ a :: l₂) :=
  (List.perm_append_singleton a (l₁ ++ l₂)).trans List.perm_middle.symm

/-- A list has a last element with a property that one of them has. -/
theorem exists_last {P : α → Prop} (h : ∃ a ∈ as, P a) :
    ∃ as₁ a as₂, as = as₁ ++ a :: as₂ ∧ P a ∧ ∀ a' ∈ as₂, ¬ P a' := by
  induction as with
  | nil =>
    obtain ⟨a, ha, _⟩ := h
    cases ha
  | cons a as ih =>
    by_cases hlater : ∃ a' ∈ as, P a'
    · obtain ⟨as₁, a', as₂, rfl, hP, hn⟩ := ih hlater
      exact ⟨a :: as₁, a', as₂, rfl, hP, hn⟩
    · rw [List.exists_mem_cons_iff] at h
      exact ⟨[], a, as, rfl, h.resolve_right hlater, fun a' ha' hP => hlater ⟨a', ha', hP⟩⟩

theorem mem_putAll_last (l as : List α) (a : α) : a ∈ putAll clash l (as ++ [a]) := by
  rw [putAll_append]
  exact mem_put.2 (.inr rfl)

theorem Apart.put (hs : ∀ a b, clash a b = clash b a) (h : Apart clash l) (a : α) :
    Apart clash (put clash l a) := by
  rw [Apart, Displace.put, List.pairwise_append]
  refine ⟨h.sublist List.filter_sublist, List.pairwise_singleton _ _, ?_⟩
  intro b hb c hc
  rw [List.mem_singleton] at hc
  subst hc
  rw [hs]
  simpa using (List.mem_filter.1 hb).2

theorem Apart.putAll (hs : ∀ a b, clash a b = clash b a) (h : Apart clash l) (as : List α) :
    Apart clash (putAll clash l as) := by
  induction as generalizing l with
  | nil => exact h
  | cons a as ih => exact ih (h.put hs a)

/-- Two elements of such a list that clash are the same. -/
theorem Apart.eq_of_clash (hs : ∀ a b, clash a b = clash b a) (h : Apart clash l) (ha : a ∈ l)
    (hb : b ∈ l) (hc : clash a b = true) : a = b := by
  by_contra hne
  have hsymm : Std.Symm fun a b => ¬ clash a b = true :=
    ⟨fun a b hab => by
      rw [hs]
      exact hab⟩
  exact h.forall ha hb hne hc

/-- What is there stays while only what is there is written again. -/
theorem Apart.mem_putAll (hs : ∀ a b, clash a b = clash b a) (h : Apart clash l) (hb : b ∈ l)
    (has : ∀ a ∈ as, a ∈ l) : b ∈ Displace.putAll clash l as := by
  by_cases hc : ∃ a ∈ as, clash a b = true
  · obtain ⟨as₁, a, as₂, rfl, hab, hlast⟩ := exists_last hc
    have he := h.eq_of_clash hs (has a (by simp)) hb hab
    subst he
    exact Displace.mem_putAll.2 (.inr ⟨as₁, as₂, rfl, fun a' ha' => by simpa using hlast a' ha'⟩)
  · refine Displace.mem_putAll.2 (.inl ⟨hb, fun a ha => ?_⟩)
    by_contra hn
    exact hc ⟨a, ha, by simpa using hn⟩

/-- Writing again what is there changes nothing, unless the element does not even displace
itself. -/
theorem put_perm (hs : ∀ a b, clash a b = clash b a) (h : Apart clash l) (ha : a ∈ l)
    (hc : clash a a = true) : (put clash l a).Perm l := by
  obtain ⟨l₁, l₂, rfl⟩ := List.append_of_mem ha
  have hpair := List.pairwise_append.1 h
  have hkeep₁ : l₁.filter (fun b => !clash a b) = l₁ := by
    rw [List.filter_eq_self]
    intro b hb
    have hn := hpair.2.2 b hb a List.mem_cons_self
    rw [hs] at hn
    simpa using hn
  have hkeep₂ : l₂.filter (fun b => !clash a b) = l₂ := by
    rw [List.filter_eq_self]
    intro b hb
    have hn := List.rel_of_pairwise_cons hpair.2.1 hb
    simpa using hn
  rw [put, List.filter_append, List.filter_cons, hc, hkeep₁, hkeep₂]
  simp only [Bool.not_true, Bool.false_eq_true, ↓reduceIte, List.append_assoc]
  exact List.Perm.append_left l₁ List.perm_append_comm

theorem putAll_perm (hs : ∀ a b, clash a b = clash b a) (h : Apart clash l)
    (has : ∀ a ∈ as, a ∈ l ∧ clash a a = true) : (putAll clash l as).Perm l := by
  induction as generalizing l with
  | nil => exact .refl _
  | cons a as ih =>
    rw [List.forall_mem_cons] at has
    have hp := put_perm hs h has.1.1 has.1.2
    exact (ih (h.put hs a) fun b hb => ⟨hp.mem_iff.2 (has.2 b hb).1, (has.2 b hb).2⟩).trans hp

/-- An element that does not displace itself is there once more when it is written. -/
theorem put_fresh (h : Apart clash l) (hs : ∀ a b, clash a b = clash b a) (ha : a ∈ l)
    (hc : clash a a = false) : put clash l a = l ++ [a] := by
  rw [put, List.filter_eq_self.2]
  intro b hb
  by_contra hn
  simp only [Bool.not_eq_true', Bool.not_eq_false] at hn
  have he := h.eq_of_clash hs ha hb hn
  rw [← he, hc] at hn
  cases hn

theorem length_putAll (hs : ∀ a b, clash a b = clash b a) (h : Apart clash l)
    (has : ∀ a ∈ as, a ∈ l) :
    (putAll clash l as).length = l.length + as.countP fun a => !clash a a := by
  induction as generalizing l with
  | nil => rfl
  | cons a as ih =>
    rw [List.forall_mem_cons] at has
    have hmem : ∀ b ∈ as, b ∈ put clash l a := by
      intro b hb
      have hm : b ∈ putAll clash l [a] := h.mem_putAll hs (has.2 b hb) (by simpa using has.1)
      exact hm
    rw [putAll_cons, ih (h.put hs a) hmem, List.countP_cons]
    cases hc : clash a a with
    | true =>
      rw [(put_perm hs h has.1 hc).length_eq]
      rfl
    | false =>
      rw [put_fresh h hs has.1 hc, List.length_append]
      simp only [List.length_singleton, Bool.not_false, ↓reduceIte]
      omega

/-- What a repeated writing leaves as it was, it found there, and each element displaces itself. -/
theorem clash_of_perm (hs : ∀ a b, clash a b = clash b a) (h : Apart clash l)
    (has : ∀ a ∈ as, a ∈ l) (hp : (putAll clash l as).Perm l) : ∀ a ∈ as, clash a a = true := by
  have hlen := length_putAll hs h has
  rw [hp.length_eq] at hlen
  have hzero : as.countP (fun a => !clash a a) = 0 := by omega
  intro a ha
  have hn := List.countP_eq_zero.1 hzero a ha
  simpa using hn

end

end Displace
