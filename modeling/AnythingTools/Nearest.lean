import Mathlib.Data.List.Infix
import Mathlib.Data.List.Sort

namespace Nearest
set_option autoImplicit true

variable {α δ : Type} [LinearOrder δ]

/-- The rows by their keys, those of one key in their own order. -/
def byKey (key : α → δ) (rows : List α) : List α :=
  rows.insertionSort fun a b => key a ≤ key b

/-- A choice of the `k` rows with the smallest keys, or of all if there are fewer. -/
structure IsNearest (key : α → δ) (k : Nat) (rows found : List α) : Prop where
  nodup : found.Nodup
  subset : found ⊆ rows
  length : found.length = min k rows.length
  le : ∀ a ∈ found, ∀ b ∈ rows, b ∉ found → key a ≤ key b

theorem perm_byKey (key : α → δ) (rows : List α) : (byKey key rows).Perm rows :=
  List.perm_insertionSort _ rows

theorem pairwise_byKey (key : α → δ) (rows : List α) :
    (byKey key rows).Pairwise fun a b => key a ≤ key b := by
  have htrans : IsTrans α fun a b => key a ≤ key b := ⟨fun _ _ _ => le_trans⟩
  have htotal : Std.Total fun a b : α => key a ≤ key b := ⟨fun _ _ => le_total _ _⟩
  exact List.pairwise_insertionSort _ rows

/-- The first of the rows in order are the nearest. -/
theorem isNearest_take {key : α → δ} {rows ordered : List α}
    (hs : ordered.Pairwise fun a b => key a ≤ key b) (hp : ordered.Perm rows) (hn : rows.Nodup)
    (k : Nat) : IsNearest key k rows (ordered.take k) where
  nodup := (hp.nodup_iff.2 hn).sublist (List.take_sublist k ordered)
  subset := fun _ ha => hp.subset (List.mem_of_mem_take ha)
  length := by rw [List.length_take, hp.length_eq]
  le := by
    intro a ha b hb hnot
    rw [← List.take_append_drop k ordered, List.pairwise_append] at hs
    have hmem : b ∈ ordered.take k ++ ordered.drop k := by
      rw [List.take_append_drop]
      exact hp.mem_iff.2 hb
    exact hs.2.2 a ha b ((List.mem_append.1 hmem).resolve_left hnot)

/-- A beginning of the rows in order contains the `k` nearest exactly when it contains the first
`k`. -/
theorem exists_isNearest_subset_iff {key : α → δ} {rows ordered covered : List α}
    (hs : ordered.Pairwise fun a b => key a ≤ key b) (hp : ordered.Perm rows) (hn : rows.Nodup)
    (hc : covered <+: ordered) (k : Nat) :
    (∃ found, IsNearest key k rows found ∧ found ⊆ covered) ↔ ordered.take k ⊆ covered := by
  apply Iff.intro
  · rintro ⟨found, hfound, hsub⟩
    have hlen : min k ordered.length ≤ covered.length := by
      rw [hp.length_eq, ← hfound.length]
      exact hfound.nodup.length_le_of_subset hsub
    rw [List.prefix_iff_eq_take.1 hc, List.take_eq_take_min]
    exact List.take_subset_take_left ordered hlen
  · exact fun h => ⟨ordered.take k, isNearest_take hs hp hn k, h⟩

end Nearest
