import Mathlib.Algebra.GroupWithZero.Nat
import Mathlib.Algebra.Order.Group.Nat
import Mathlib.Algebra.Order.BigOperators.Group.List
import Mathlib.Data.List.Infix

namespace Bot
set_option autoImplicit true

/-- An item of the context. Without a count it counts nothing. -/
structure ContextItem where
  content : String
  charCount : Option Nat := none
  attachmentCharCount : Option Nat := none
deriving DecidableEq, Repr

def ContextItem.size (item : ContextItem) : Nat :=
  item.charCount.getD 0 + item.attachmentCharCount.getD 0

def calculateTotalSize (items : List ContextItem) : Nat := (items.map ContextItem.size).sum

/-- The budget of a `BudgetEnforcer`; zero counts as not given. `default` is four fifths of
`LLM_CONTEXT_CHAR_LIMIT`. -/
def initBudget (default : Nat) : Option Nat → Nat
  | none => default
  | some budget => if budget = 0 then default else budget

/-- The loop, which drops items from the front. -/
def evict (budget : Nat) : List ContextItem → List ContextItem
  | [] => []
  | item :: items =>
    if calculateTotalSize (item :: items) ≤ budget then item :: items else evict budget items

/-- The item with the first characters of its content. -/
def ContextItem.truncate (item : ContextItem) (available : Nat) : ContextItem :=
  let content := item.content.toList.take available
  { content := String.ofList content, charCount := some content.length,
    attachmentCharCount := some 0 }

def enforce (budget : Nat) (items : List ContextItem) : List ContextItem :=
  match evict budget items with
  | [item] => if budget < item.size then [item.truncate (max (budget - 1000) 1000)] else [item]
  | items => items

/-- The longest part at the end that fits the budget. -/
def LongestSuffix (budget : Nat) (items kept : List ContextItem) : Prop :=
  kept <:+ items ∧ calculateTotalSize kept ≤ budget ∧
    ∀ s, s <:+ items → calculateTotalSize s ≤ budget → s <:+ kept

/-- What is kept of a context: something within the budget, the longest suffix that fits or, where
the last item does not fit, that item alone with its content cut off. -/
structure Enforced (budget : Nat) (items kept : List ContextItem) : Prop where
  nonempty : kept ≠ []
  within : calculateTotalSize kept ≤ budget
  longest : ∀ last ∈ items.getLast?, last.size ≤ budget → LongestSuffix budget items kept
  truncated : ∀ last ∈ items.getLast?, budget < last.size → ∃ n, kept = [last.truncate n]

@[simp] theorem total_cons (item : ContextItem) (items : List ContextItem) :
    calculateTotalSize (item :: items) = item.size + calculateTotalSize items := rfl

theorem total_of_suffix (h : s <:+ items) : calculateTotalSize s ≤ calculateTotalSize items := by
  obtain ⟨p, rfl⟩ := h
  rw [calculateTotalSize, calculateTotalSize, List.map_append, List.sum_append]
  exact Nat.le_add_left _ _

theorem evict_suffix (budget : Nat) (items : List ContextItem) : evict budget items <:+ items := by
  induction items with
  | nil => exact List.suffix_refl []
  | cons item items ih =>
    rw [evict]
    split
    · exact List.suffix_refl _
    · exact ih.trans (List.suffix_cons item items)

theorem total_evict (budget : Nat) (items : List ContextItem) :
    calculateTotalSize (evict budget items) ≤ budget := by
  induction items with
  | nil => exact Nat.zero_le budget
  | cons item items ih =>
    rw [evict]
    split
    · assumption
    · exact ih

/-- The loop goes no further than it has to. -/
theorem evict_longest (budget : Nat) (items : List ContextItem) :
    LongestSuffix budget items (evict budget items) := by
  refine ⟨evict_suffix budget items, total_evict budget items, ?_⟩
  induction items with
  | nil => exact fun s hs _ => hs
  | cons item items ih =>
    intro s hs htotal
    rw [evict]
    split
    next => exact hs
    next hover =>
      rcases List.suffix_cons_iff.1 hs with rfl | hs
      · exact absurd htotal hover
      · exact ih s hs htotal

/-- After the loop no item is over the budget, so nothing is ever cut off. -/
theorem enforce_eq_evict (budget : Nat) (items : List ContextItem) :
    enforce budget items = evict budget items := by
  have htotal := total_evict budget items
  rw [enforce]
  split
  next item heq =>
    rw [heq] at htotal ⊢
    exact if_neg (Nat.not_lt.2 htotal)
  next => rfl

theorem last_suffix (h : items.getLast? = some last) : [last] <:+ items := by
  obtain ⟨init, rfl⟩ := List.getLast?_eq_some_iff.1 h
  exact List.suffix_append init [last]

/-- What is kept ends with the last item. -/
theorem last_suffix_of_suffix (h : items.getLast? = some last) (hs : s <:+ items) (hne : s ≠ []) :
    [last] <:+ s := by
  rcases List.suffix_or_suffix_of_suffix (last_suffix h) hs with hlast | hshort
  · exact hlast
  · rcases List.suffix_cons_iff.1 hshort with rfl | hnil
    · exact List.suffix_refl _
    · exact absurd (List.suffix_nil.1 hnil) hne

theorem total_singleton (item : ContextItem) : calculateTotalSize [item] = item.size :=
  Nat.add_zero item.size

theorem evict_ne_nil_iff (h : items.getLast? = some last) :
    evict budget items ≠ [] ↔ last.size ≤ budget := by
  obtain ⟨hsuffix, htotal, hlongest⟩ := evict_longest budget items
  constructor
  · intro hne
    have hle := total_of_suffix (last_suffix_of_suffix h hsuffix hne)
    rw [total_singleton] at hle
    exact hle.trans htotal
  · intro hfits hnil
    have hlast := hlongest [last] (last_suffix h) (by rw [total_singleton]; exact hfits)
    rw [hnil] at hlast
    exact absurd (List.suffix_nil.1 hlast) (List.cons_ne_nil _ _)

/-- A context is kept as it should be exactly if its last item fits the budget. -/
theorem enforce_iff (budget : Nat) (items : List ContextItem) (h : items ≠ []) :
    Enforced budget items (enforce budget items) ↔ (items.getLast h).size ≤ budget := by
  have hlast : items.getLast? = some (items.getLast h) := List.getLast?_eq_some_getLast h
  rw [enforce_eq_evict, ← evict_ne_nil_iff hlast]
  constructor
  · exact Enforced.nonempty
  · intro hne
    have hfits := (evict_ne_nil_iff hlast).1 hne
    refine ⟨hne, total_evict budget items, fun _ _ _ => evict_longest budget items, ?_⟩
    intro last hmem hover
    rw [hlast, Option.mem_some_iff] at hmem
    rw [hmem] at hfits
    exact absurd hover (Nat.not_lt.2 hfits)

def question : ContextItem := { content := "What changed?", charCount := some 13 }

def pastedLog : ContextItem where
  content := String.ofList (List.replicate 1001 'x')
  charCount := some 1001

theorem enforce_iff_question :
    Enforced 1000 [pastedLog, question] (enforce 1000 [pastedLog, question]) ↔
      question.size ≤ 1000 :=
  enforce_iff 1000 [pastedLog, question] (List.cons_ne_nil _ _)

/-- One item over the budget is dropped, and nothing is left. -/
theorem pastedLog_dropped : ¬ Enforced 1000 [pastedLog] (enforce 1000 [pastedLog]) := by
  intro h
  exact h.nonempty rfl

end Bot
