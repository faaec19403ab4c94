import Mathlib.Data.List.Infix

namespace Find
set_option autoImplicit true

/-- The greatest index below a bound that passes the test. -/
def lastBelow (p : Nat → Bool) : Nat → Option Nat
  | 0 => none
  | n + 1 => if p n = true then some n else lastBelow p n

theorem lastBelow_some (h : lastBelow p n = some i) :
    i < n ∧ p i = true ∧ ∀ j, i < j → j < n → p j = false := by
  induction n with
  | zero => cases h
  | succ n ih =>
    rw [lastBelow] at h
    split at h
    · rename_i hp
      cases h
      exact ⟨Nat.lt_succ_self _, hp, fun j hlt hle => absurd hlt (by omega)⟩
    · rename_i hp
      obtain ⟨hlt, hi, hafter⟩ := ih h
      refine ⟨Nat.lt_succ_of_lt hlt, hi, ?_⟩
      intro j hij hjn
      obtain rfl | hj := Nat.lt_succ_iff_lt_or_eq.1 hjn |>.symm
      · simpa using hp
      · exact hafter j hij hj

theorem lastBelow_none (h : lastBelow p n = none) (hi : i < n) : p i = false := by
  induction n with
  | zero => cases hi
  | succ n ih =>
    rw [lastBelow] at h
    split at h
    · cases h
    · rename_i hp
      obtain hj | rfl := Nat.lt_succ_iff_lt_or_eq.1 hi
      · exact ih h hj
      · simpa using hp

/-- An index into a sequence, counted from its end where it is negative. -/
def clamp (length : Nat) (i : Int) : Nat := if i < 0 then (i + length).toNat else i.toNat

@[simp] theorem clamp_zero (n : Nat) : clamp n 0 = 0 := rfl

@[simp] theorem clamp_natCast (n i : Nat) : clamp n i = i := by
  rw [clamp, if_neg (Int.not_lt.2 (Int.natCast_nonneg i)), Int.toNat_natCast]

/-- Where a word last occurs between two indices. -/
def rfind [DecidableEq α] (s word : List α) (start stop : Int) : Option Nat :=
  lastBelow (fun i => decide (clamp s.length start ≤ i) && word.isPrefixOf (s.drop i))
    (min (clamp s.length stop) s.length + 1 - word.length)

/-- Where a letter next occurs. -/
def find [DecidableEq α] (s : List α) (letter : α) (start : Nat) : Option Nat :=
  ((s.drop start).findIdx? fun x => decide (x = letter)).map fun i => start + i

section

variable [DecidableEq α] {s word : List α}

theorem rfind_some (h : rfind s word start stop = some i) :
    clamp s.length start ≤ i ∧ i + word.length ≤ min (clamp s.length stop) s.length ∧
      word <+: s.drop i := by
  obtain ⟨hlt, hp, _⟩ := lastBelow_some h
  rw [Bool.and_eq_true, decide_eq_true_eq, List.isPrefixOf_iff_prefix] at hp
  exact ⟨hp.1, by omega, hp.2⟩

/-- Nothing of the word between the indices after where it last occurs. -/
theorem rfind_last (h : rfind s word start stop = some i) (hij : i < j)
    (hj : j + word.length ≤ min (clamp s.length stop) s.length) : ¬word <+: s.drop j := by
  obtain ⟨_, hp, hafter⟩ := lastBelow_some h
  rw [Bool.and_eq_true, decide_eq_true_eq] at hp
  have hpj := hafter j hij (by omega)
  rw [Bool.and_eq_false_iff, decide_eq_false_iff_not] at hpj
  obtain hlt | hn := hpj
  · exact absurd (Nat.le_trans hp.1 (Nat.le_of_lt hij)) hlt
  · rw [← List.isPrefixOf_iff_prefix, hn]
    decide

theorem rfind_none (h : rfind s word start stop = none) (hstart : clamp s.length start ≤ i)
    (hi : i + word.length ≤ min (clamp s.length stop) s.length) : ¬word <+: s.drop i := by
  have hp := lastBelow_none h (show i < _ by omega)
  rw [Bool.and_eq_false_iff, decide_eq_false_iff_not] at hp
  obtain hlt | hn := hp
  · exact absurd hstart hlt
  · rw [← List.isPrefixOf_iff_prefix, hn]
    decide

omit [DecidableEq α] in
theorem singleton_prefix_drop {a : α} : [a] <+: s.drop i ↔ s[i]? = some a := by
  rw [← List.head?_drop]
  cases s.drop i with
  | nil => simp
  | cons b rest => simp [eq_comm]

theorem find_some {a : α} (h : find s a start = some i) :
    start ≤ i ∧ s[i]? = some a ∧ ∀ j, start ≤ j → j < i → s[j]? ≠ some a := by
  rw [find, Option.map_eq_some_iff] at h
  obtain ⟨k, hk, rfl⟩ := h
  rw [List.findIdx?_eq_some_iff_getElem] at hk
  obtain ⟨hlt, hp, hbefore⟩ := hk
  refine ⟨Nat.le_add_right _ _, ?_, ?_⟩
  · rw [← List.getElem?_drop, List.getElem?_eq_getElem hlt, of_decide_eq_true hp]
  · intro j hle hj ha
    have hjk : j - start < k := by omega
    apply hbefore (j - start) hjk
    have hget : (s.drop start)[j - start]? = some a := by
      rw [List.getElem?_drop, Nat.add_sub_cancel' hle, ha]
    rw [List.getElem?_eq_getElem (Nat.lt_trans hjk hlt)] at hget
    exact decide_eq_true (Option.some.inj hget)

omit [DecidableEq α] in
theorem mem_take_tail {a : α} : a ∈ (s.take n).tail ↔ ∃ i, 1 ≤ i ∧ i < n ∧ s[i]? = some a := by
  rw [List.mem_iff_getElem?]
  apply Iff.intro
  · rintro ⟨i, hi⟩
    rw [List.getElem?_tail, List.getElem?_take] at hi
    split at hi
    · rename_i hlt
      exact ⟨i + 1, Nat.le_add_left 1 i, hlt, hi⟩
    · cases hi
  · rintro ⟨i, hpos, hlt, hi⟩
    refine ⟨i - 1, ?_⟩
    rw [List.getElem?_tail, Nat.sub_add_cancel hpos, List.getElem?_take, if_pos hlt, hi]

/-- A letter is last found at the front where it stands there and no further time in reach. -/
theorem rfind_front {a : α} (hpos : 1 ≤ n) (hle : n ≤ s.length) :
    rfind s [a] 0 n = some 0 ↔ s.head? = some a ∧ a ∉ (s.take n).tail := by
  rw [List.head?_eq_getElem?, mem_take_tail]
  have hmin : min (clamp s.length (n : Int)) s.length = n := by
    rw [clamp_natCast]
    omega
  apply Iff.intro
  · intro h
    obtain ⟨_, _, hp⟩ := rfind_some h
    refine ⟨singleton_prefix_drop.1 hp, ?_⟩
    rintro ⟨j, hj, hlt, hget⟩
    apply rfind_last h hj
    · rw [hmin, List.length_singleton]
      omega
    · exact singleton_prefix_drop.2 hget
  · rintro ⟨hhead, hnone⟩
    cases h : rfind s [a] 0 n with
    | none =>
      have hzero := rfind_none h (Nat.zero_le 0) (by
        rw [hmin, List.length_singleton]
        omega)
      exact absurd (singleton_prefix_drop.2 hhead) hzero
    | some i =>
      obtain ⟨_, hi, hp⟩ := rfind_some h
      rw [hmin, List.length_singleton] at hi
      by_contra hne
      refine hnone ⟨i, ?_, by omega, singleton_prefix_drop.1 hp⟩
      exact Nat.pos_of_ne_zero fun h0 => hne (by rw [h0])

theorem find_of_mem {a : α} (h : a ∈ s.drop start) : ∃ i, find s a start = some i := by
  have hsome : ((s.drop start).findIdx? fun x => decide (x = a)).isSome = true := by
    rw [List.findIdx?_isSome, List.any_eq_true]
    exact ⟨a, h, decide_eq_true rfl⟩
  obtain ⟨i, hi⟩ := Option.isSome_iff_exists.1 hsome
  exact ⟨start + i, by rw [find, hi, Option.map_some]⟩

/-- A letter is first found beyond a point where it stands after that point and not before. -/
theorem find_beyond {a : α} :
    (∃ i, find s a 0 = some i ∧ n ≤ i) ↔ a ∉ s.take n ∧ a ∈ s.drop n := by
  apply Iff.intro
  · rintro ⟨i, hfind, hle⟩
    obtain ⟨_, hi, hbefore⟩ := find_some hfind
    apply And.intro
    · intro hmem
      obtain ⟨j, hj⟩ := List.mem_iff_getElem?.1 hmem
      rw [List.getElem?_take] at hj
      split at hj
      · exact hbefore j (Nat.zero_le j) (by omega) hj
      · cases hj
    · refine List.mem_iff_getElem?.2 ⟨i - n, ?_⟩
      rw [List.getElem?_drop, Nat.add_sub_cancel' hle, hi]
  · rintro ⟨hnone, hmem⟩
    obtain ⟨i, hfind⟩ := show ∃ i, find s a 0 = some i from
      find_of_mem (List.mem_of_mem_drop hmem)
    refine ⟨i, hfind, ?_⟩
    obtain ⟨_, hi, _⟩ := find_some hfind
    by_contra hlt
    apply hnone
    refine List.mem_iff_getElem?.2 ⟨i, ?_⟩
    rw [List.getElem?_take, if_pos (by omega), hi]

end

end Find
