import Mathlib.Order.WithBot
import Mathlib.Data.Prod.Lex
import Mathlib.Data.Int.ConditionallyCompleteOrder
import Mathlib.Order.ConditionallyCompleteLattice.Basic
import AnythingTools.Publisher.Batch

namespace Publisher
set_option autoImplicit true

/-! ### The order of the articles of a batch -/

/-- A rank as `ORDER BY` compares it. -/
def rankKey : Option Int → WithBot Int
  | none => ⊥
  | some n => n

theorem rankBefore_iff (a b : Option Int) : rankBefore a b = true ↔ rankKey a < rankKey b := by
  cases a with
  | none =>
    cases b with
    | none => exact iff_of_false Bool.false_ne_true (lt_irrefl _)
    | some n => exact iff_of_true rfl (WithBot.bot_lt_coe n)
  | some m =>
    cases b with
    | none => exact iff_of_false Bool.false_ne_true (WithBot.not_lt_bot _)
    | some n => exact decide_eq_true_iff.trans WithBot.coe_lt_coe.symm

theorem rankKey_inj {a b : Option Int} : rankKey a = rankKey b ↔ a = b := by
  cases a with
  | none =>
    cases b with
    | none => exact iff_of_true rfl rfl
    | some n => exact iff_of_false (WithBot.bot_ne_coe) (by simp)
  | some m =>
    cases b with
    | none => exact iff_of_false (WithBot.coe_ne_bot) (by simp)
    | some n => exact WithBot.coe_inj.trans Option.some_inj.symm

/-- The columns of `ORDER BY`, the lesser first. -/
def Detail.orderKey (d : Detail) : Bool ×ₗ WithBot Int ×ₗ Nat :=
  toLex (!d.isTop10, toLex (rankKey d.top10Rank, d.detailId))

theorem before_iff (a b : Detail) : a.before b = true ↔ a.orderKey ≤ b.orderKey := by
  rw [Detail.before, Detail.orderKey, Detail.orderKey, Prod.Lex.toLex_le_toLex,
    Prod.Lex.toLex_le_toLex]
  split
  next hne =>
    cases ha : a.isTop10 <;> cases hb : b.isTop10 <;> simp_all
  next heq =>
    rw [not_ne_iff.1 heq]
    split
    next hne =>
      rw [rankBefore_iff]
      constructor
      · exact fun h => .inr ⟨rfl, .inl h⟩
      · rintro (h | ⟨-, h | ⟨h, -⟩⟩)
        · exact absurd h (lt_irrefl _)
        · exact h
        · exact absurd (rankKey_inj.1 h) hne
    next heq' =>
      rw [not_ne_iff.1 heq', decide_eq_true_iff]
      constructor
      · exact fun h => .inr ⟨rfl, .inr ⟨rfl, h⟩⟩
      · rintro (h | ⟨-, h | ⟨-, h⟩⟩)
        · exact absurd h (lt_irrefl _)
        · exact absurd h (lt_irrefl _)
        · exact h

/-- The details that are listed in order are the sorted ones. -/
theorem sorted_eq {details listed : List Detail} (hids : (details.map Detail.detailId).Nodup)
    (hperm : listed.Perm details) (h : listed.Pairwise fun a b => a.before b = true) :
    sorted details = listed := by
  have htotal : Std.Total fun a b : Detail => a.before b = true :=
    ⟨fun a b => by rw [before_iff, before_iff]; exact le_total _ _⟩
  have htrans : IsTrans Detail fun a b => a.before b = true :=
    ⟨fun a b c hab hbc => by rw [before_iff] at hab hbc ⊢; exact hab.trans hbc⟩
  refine List.Perm.eq_of_pairwise (fun a b ha hb hab hba => ?_)
    (List.pairwise_insertionSort (fun a b : Detail => a.before b = true) details) h
    ((List.perm_insertionSort _ details).trans hperm.symm)
  rw [before_iff] at hab hba
  have hkey := le_antisymm hab hba
  have hid : a.detailId = b.detailId :=
    (Prod.ext_iff.1 (toLex.injective (Prod.ext_iff.1 (toLex.injective hkey)).2)).2
  exact List.inj_on_of_nodup_map hids (mem_sorted.1 ha) (hperm.subset hb) hid

end Publisher
