import Mathlib.Algebra.Order.Group.Defs
import Mathlib.Data.List.Nodup
import Mathlib.Data.List.Perm.Subperm

namespace Spacing
set_option autoImplicit true

section

variable [Add α] [LinearOrder α]

/-- Each entry lies at least a period after the one that stands `n` places before it. -/
def Spaced (n : Nat) (period : α) (ts : List α) : Prop :=
  ∀ i t t', ts[i]? = some t → ts[i + n]? = some t' → t + period ≤ t'

/-- The entry lies in the half-open window that starts at `a`. -/
def inWindow (a period t : α) : Bool := decide (a ≤ t ∧ t < a + period)

theorem inWindow_iff {a period t : α} : inWindow a period t = true ↔ a ≤ t ∧ t < a + period :=
  decide_eq_true_iff

theorem spaced_nil (n : Nat) (period : α) : Spaced n period [] := by
  intro i t t' h
  cases h

/-- A new entry keeps the spacing if it keeps its distance to the entry `n` places before it. -/
theorem Spaced.concat {ts : List α} (h : Spaced n period ts) (hn : 0 < n)
    (hlast : ∀ t', n ≤ ts.length → ts[ts.length - n]? = some t' → t' + period ≤ t) :
    Spaced n period (ts ++ [t]) := by
  intro i t₁ t₂ h₁ h₂
  have hi : i + n < (ts ++ [t]).length := (List.getElem?_eq_some_iff.1 h₂).1
  rw [List.length_append, List.length_singleton] at hi
  rw [List.getElem?_append_left (by omega)] at h₁
  by_cases hlt : i + n < ts.length
  · rw [List.getElem?_append_left hlt] at h₂
    exact h i t₁ t₂ h₁ h₂
  · have he : i + n = ts.length := by omega
    rw [he, List.getElem?_concat_length] at h₂
    cases h₂
    apply hlast t₁ (by omega)
    rw [← h₁]
    congr 1
    omega

theorem Spaced.of_append {ts ts' : List α} (h : Spaced n period (ts ++ ts')) :
    Spaced n period ts := by
  intro i t t' ht ht'
  have hlt := (List.getElem?_eq_some_iff.1 ht).1
  have hlt' := (List.getElem?_eq_some_iff.1 ht').1
  apply h i t t'
  · rw [List.getElem?_append_left hlt, ht]
  · rw [List.getElem?_append_left hlt', ht']

/-- Where no window holds more than `n` entries of a sequence in order, the entries are spaced. -/
theorem spaced_of_countP_window {ts : List α} (hsorted : ts.Pairwise (· ≤ ·))
    (h : ∀ a, ts.countP (inWindow a period) ≤ n) : Spaced n period ts := by
  intro i t t' ht ht'
  by_contra hclose
  obtain ⟨hi, rfl⟩ := List.getElem?_eq_some_iff.1 ht
  obtain ⟨hj, rfl⟩ := List.getElem?_eq_some_iff.1 ht'
  -- the entries between the two, and they themselves, are in the window that starts at the first
  have hmem : ∀ x ∈ (ts.drop i).take (n + 1), inWindow ts[i] period x = true := by
    intro x hx
    obtain ⟨k, hk, rfl⟩ := List.getElem_of_mem hx
    rw [List.length_take, lt_min_iff, List.length_drop] at hk
    rw [List.getElem_take, List.getElem_drop, inWindow_iff]
    rw [List.pairwise_iff_getElem] at hsorted
    have hle (a b : Nat) (hb : b < ts.length) (hab : a ≤ b) : ts[a] ≤ ts[b] := by
      rcases Nat.lt_or_eq_of_le hab with hlt | heq
      · exact hsorted a b (by omega) hb hlt
      · subst heq
        exact le_refl _
    exact ⟨hle i (i + k) (by omega) (by omega),
      (hle (i + k) (i + n) hj (by omega)).trans_lt (not_le.1 hclose)⟩
  have hlen : ((ts.drop i).take (n + 1)).length = n + 1 := by
    rw [List.length_take, List.length_drop]
    omega
  have hsub : ((ts.drop i).take (n + 1)).Sublist ts :=
    (List.take_sublist _ _).trans (List.drop_sublist _ _)
  have hcount := hsub.countP_le (p := inWindow ts[i] period)
  rw [List.countP_eq_length.2 hmem, hlen] at hcount
  exact absurd (hcount.trans (h ts[i])) (by omega)

end

variable [AddCommGroup α] [LinearOrder α] [IsOrderedAddMonoid α]

/-- Entries of one chain, every `n`th of the sequence, are apart from each other. -/
theorem Spaced.chain {ts : List α} (h : Spaced n period ts) (hperiod : 0 ≤ period) (m : Nat) :
    ∀ i t t', ts[i]? = some t → ts[i + n * (m + 1)]? = some t' → t + period ≤ t' := by
  induction m with
  | zero =>
    intro i t t' ht ht'
    rw [Nat.zero_add, Nat.mul_one] at ht'
    exact h i t t' ht ht'
  | succ m ih =>
    intro i t t' ht ht'
    have hlen := (List.getElem?_eq_some_iff.1 ht').1
    have hmid : i + n * (m + 1) < ts.length := by
      have hle : n * (m + 1) ≤ n * (m + 1 + 1) := Nat.mul_le_mul_left n (by omega)
      omega
    obtain ⟨t₁, h₁⟩ : ∃ t₁, ts[i + n * (m + 1)]? = some t₁ :=
      ⟨_, List.getElem?_eq_getElem hmid⟩
    have hfirst := ih i t t₁ ht h₁
    have hlast := h (i + n * (m + 1)) t₁ t' h₁ (by rw [← ht', Nat.mul_succ n (m + 1), Nat.add_assoc])
    calc t + period ≤ t₁ := hfirst
      _ ≤ t₁ + period := le_add_of_nonneg_right hperiod
      _ ≤ t' := hlast

theorem Spaced.same_chain {ts : List α} (h : Spaced n period ts) (hperiod : 0 ≤ period)
    (hi : ts[i]? = some t) (hj : ts[j]? = some t') (hlt : i < j) (hmod : i % n = j % n) :
    t + period ≤ t' := by
  obtain ⟨m, hm⟩ : ∃ m, j = i + n * (m + 1) := by
    have hdvd : n ∣ j - i := Nat.dvd_of_mod_eq_zero (Nat.sub_mod_eq_zero_of_mod_eq hmod.symm)
    obtain ⟨k, hk⟩ := hdvd
    cases k with
    | zero => omega
    | succ m => exact ⟨m, by omega⟩
  rw [hm] at hj
  exact h.chain hperiod m i t t' hi hj

/-- No window holds more entries than there are chains. -/
theorem Spaced.countP_window {ts : List α} (h : Spaced n period ts) (hn : 0 < n)
    (hperiod : 0 ≤ period) (a : α) : ts.countP (inWindow a period) ≤ n := by
  let hits := ts.zipIdx.filter fun p => inWindow a period p.1
  have hcount : ts.countP (inWindow a period) = hits.length := by
    have hmap : (ts.zipIdx.map Prod.fst).countP (inWindow a period) =
        ts.zipIdx.countP fun p => inWindow a period p.1 := List.countP_map
    rw [← List.countP_eq_length_filter, ← hmap, List.zipIdx_map_fst]
  -- two hits of one chain are the same hit
  have hinj : ∀ p ∈ hits, ∀ q ∈ hits, p.2 % n = q.2 % n → p = q := by
    intro p hp q hq hmod
    obtain ⟨hp, hpw⟩ := List.mem_filter.1 hp
    obtain ⟨hq, hqw⟩ := List.mem_filter.1 hq
    rw [List.mem_zipIdx_iff_getElem?] at hp hq
    rw [inWindow_iff] at hpw hqw
    rcases lt_trichotomy p.2 q.2 with hlt | heq | hlt
    · have hfar := h.same_chain hperiod hp hq hlt hmod
      have hclose : q.1 < p.1 + period := hqw.2.trans_le (by gcongr; exact hpw.1)
      exact absurd hfar (not_le_of_gt hclose)
    · have hfst : p.1 = q.1 := by
        rw [heq, hq] at hp
        exact (Option.some.inj hp).symm
      exact Prod.ext hfst heq
    · have hfar := h.same_chain hperiod hq hp hlt hmod.symm
      have hclose : p.1 < q.1 + period := hpw.2.trans_le (by gcongr; exact hqw.1)
      exact absurd hfar (not_le_of_gt hclose)
  have hnodup : (hits.map fun p => p.2 % n).Nodup := by
    have hall : ts.zipIdx.Nodup := by
      apply List.Nodup.of_map Prod.snd
      rw [List.zipIdx_map_snd]
      exact List.nodup_range'
    exact (hall.filter _).map_on hinj
  have hsub : (hits.map fun p => p.2 % n) ⊆ List.range n := by
    intro k hk
    obtain ⟨p, _, rfl⟩ := List.mem_map.1 hk
    exact List.mem_range.2 (Nat.mod_lt _ hn)
  have hlen := (List.subperm_of_subset hnodup hsub).length_le
  rw [List.length_map, List.length_range] at hlen
  rw [hcount]
  exact hlen

end Spacing
