import AnythingTools.Machine
import AnythingTools.Telegram.RateLimiter

namespace Edgar
open Spacing Telegram
set_option autoImplicit true

def maxRate : Nat := 8

def timePeriod : Rat := 1

/-- `EdgarRateLimiter`, with what the clock showed last. -/
structure Limiter where
  clock : Rat
  timestamps : List Rat := []
deriving DecidableEq

/-- What a call reads off the clock: when it has the lock, and when it returns. -/
structure Readings where
  now : Rat
  returned : Rat

/-- How long the call sleeps: until the oldest timestamp is a period old. -/
def sleepTime (timestamps : List Rat) (now : Rat) : Rat :=
  match timestamps with
  | [] => 0
  | oldest :: _ =>
    if maxRate ≤ timestamps.length ∧ 0 < oldest + timePeriod - now then oldest + timePeriod - now
    else 0

def Limiter.kept (l : Limiter) (now : Rat) : List Rat := prune (now - timePeriod) l.timestamps

/-- One call, if the clock does not go back and a sleep lasts at least as long as it should. -/
def Limiter.wait (l : Limiter) (r : Readings) : Option Limiter :=
  if l.clock ≤ r.now ∧ r.now + sleepTime (l.kept r.now) r.now ≤ r.returned then
    some { clock := r.returned, timestamps := l.kept r.now ++ [r.returned] }
  else none

/-- The limiter together with when its calls have returned. -/
def waiting : Limiter × List Rat → Readings → Option (Limiter × List Rat) :=
  Machine.traced Limiter.wait fun _ r => [r.returned]

/-- A call that finds more timestamps than the rate allows returns a period after the one that
stands the rate's number of places from the end. -/
def Late (l : Limiter) (r : Readings) : Prop :=
  maxRate < (l.kept r.now).length →
    (l.kept r.now).getD ((l.kept r.now).length - maxRate) 0 + timePeriod ≤ r.returned

instance (l : Limiter) (r : Readings) : Decidable (Late l r) := inferInstanceAs (Decidable (_ → _))

theorem sleepTime_nonneg (timestamps : List Rat) (now : Rat) : 0 ≤ sleepTime timestamps now := by
  cases timestamps with
  | nil => exact le_refl 0
  | cons oldest rest =>
    rw [sleepTime]
    split
    next h => exact h.2.le
    next => exact le_refl 0

theorem oldest_le_wake (h : maxRate ≤ (oldest :: rest).length) (now : Rat) :
    oldest + timePeriod ≤ now + sleepTime (oldest :: rest) now := by
  rw [sleepTime]
  split
  next => linarith
  next hn =>
    have hover : ¬0 < oldest + timePeriod - now := fun hpos => hn ⟨h, hpos⟩
    linarith

/-- The timestamps are the end of the returns, which are in order; the others are over. -/
structure Kept (l : Limiter) (returns : List Rat) : Prop where
  holds : Holds timePeriod l.clock returns l.timestamps
  sorted : returns.Pairwise (· ≤ ·)
  clock : ∀ t ∈ returns, t ≤ l.clock

/-- What a call finds and what it returns. -/
theorem Kept.wait (h : Kept l returns) (hs : l.wait r = some l') :
    Holds timePeriod r.now returns (l.kept r.now) ∧ r.now ≤ r.returned ∧
      r.now + sleepTime (l.kept r.now) r.now ≤ r.returned ∧ Kept l' (returns ++ [r.returned]) := by
  rw [Limiter.wait] at hs
  split at hs
  next hlegal =>
    cases hs
    have hnow : r.now ≤ r.returned :=
      (le_add_of_nonneg_right (sleepTime_nonneg _ _)).trans hlegal.2
    have hholds := (h.holds.later hlegal.1).prune
    refine ⟨hholds, hnow, hlegal.2, ?_, ?_, ?_⟩
    · exact (hholds.later hnow).concat r.returned
    · rw [List.pairwise_append]
      refine ⟨h.sorted, List.pairwise_singleton _ _, ?_⟩
      intro t ht t' ht'
      rw [List.mem_singleton.1 ht']
      exact ((h.clock t ht).trans hlegal.1).trans hnow
    · intro t ht
      rcases List.mem_append.1 ht with ht | ht
      · exact ((h.clock t ht).trans hlegal.1).trans hnow
      · rw [List.mem_singleton.1 ht]
  next => cases hs

/-- A call keeps the distance to the return the rate's number of places before, exactly if it is
late where it finds too many timestamps. -/
theorem spaced_wait_iff (h : Kept l returns) (hs : l.wait r = some l')
    (hspaced : Spaced maxRate timePeriod returns) :
    Spaced maxRate timePeriod (returns ++ [r.returned]) ↔ Late l r := by
  obtain ⟨hholds, hnow, hwake, -⟩ := h.wait hs
  obtain ⟨dropped, he, hd⟩ := id hholds
  constructor
  · intro hall hlen
    have hindex : returns.length - maxRate = dropped.length + ((l.kept r.now).length - maxRate) := by
      rw [he, List.length_append]
      omega
    have hlast : (returns ++ [r.returned])[returns.length - maxRate + maxRate]? =
        some r.returned := by
      have hle : maxRate ≤ returns.length := by
        rw [he, List.length_append]
        omega
      rw [Nat.sub_add_cancel hle, List.getElem?_concat_length]
    have hget : (l.kept r.now)[(l.kept r.now).length - maxRate]? =
        some ((l.kept r.now).getD ((l.kept r.now).length - maxRate) 0) := by
      have hlt : (l.kept r.now).length - maxRate < (l.kept r.now).length :=
        Nat.sub_lt (Nat.lt_of_le_of_lt (Nat.zero_le _) hlen) (by decide)
      rw [List.getD_eq_getElem?_getD, List.getElem?_eq_getElem hlt, Option.getD_some]
    apply hall (returns.length - maxRate) _ _ _ hlast
    rw [hindex, he, List.append_assoc, List.getElem?_append_right (Nat.le_add_right _ _),
      Nat.add_sub_cancel_left, List.getElem?_append_left, hget]
    exact Nat.sub_lt (Nat.lt_of_le_of_lt (Nat.zero_le _) hlen) (by decide)
  · intro hlate
    apply hholds.spaced hspaced (by decide) hnow
    rw [keepRate]
    split
    next hle =>
      rw [max_le_iff]
      refine ⟨hnow, ?_⟩
      rcases Nat.lt_or_eq_of_le hle with hlt | heq
      · exact hlate hlt
      · rw [heq, Nat.sub_self]
        cases hk : l.kept r.now with
        | nil =>
          rw [hk] at hle
          cases hle
        | cons oldest rest =>
          rw [hk] at hle hwake
          exact (oldest_le_wake hle r.now).trans hwake
    next => exact hnow

theorem returns_prefix (h : Machine.run waiting (l, returns) calls = some (l', returns')) :
    ∃ more, returns' = returns ++ more := by
  induction calls generalizing l returns with
  | nil =>
    cases h
    exact ⟨[], (List.append_nil _).symm⟩
  | cons r rs ih =>
    obtain ⟨⟨l₁, returns₁⟩, hstep, hrest⟩ := Machine.run_cons_some h
    obtain ⟨-, rfl⟩ := Machine.traced_some hstep
    obtain ⟨more, rfl⟩ := ih hrest
    exact ⟨[r.returned] ++ more, List.append_assoc _ _ _⟩

theorem sorted_run (h : Kept l returns)
    (hrun : Machine.run waiting (l, returns) calls = some (l', returns')) :
    returns'.Pairwise (· ≤ ·) := by
  induction calls generalizing l returns with
  | nil =>
    cases hrun
    exact h.sorted
  | cons r rs ih =>
    obtain ⟨⟨l₁, returns₁⟩, hstep, hrest⟩ := Machine.run_cons_some hrun
    obtain ⟨hwait, rfl⟩ := Machine.traced_some hstep
    exact ih (h.wait hwait).2.2.2 hrest

/-- The returns of a run are spaced exactly if its calls are late where they should be. -/
theorem spaced_run_iff (h : Kept l returns) (hspaced : Spaced maxRate timePeriod returns)
    (hrun : Machine.run waiting (l, returns) calls = some (l', returns')) :
    Spaced maxRate timePeriod returns' ↔ Machine.Meets Limiter.wait Late l calls := by
  induction calls generalizing l returns with
  | nil =>
    cases hrun
    exact iff_of_true hspaced trivial
  | cons r rs ih =>
    obtain ⟨⟨l₁, returns₁⟩, hstep, hrest⟩ := Machine.run_cons_some hrun
    obtain ⟨hwait, rfl⟩ := Machine.traced_some hstep
    have hkept := (h.wait hwait).2.2.2
    have hone := spaced_wait_iff h hwait hspaced
    by_cases hlate : Late l r
    · rw [ih hkept (hone.2 hlate) hrest, Machine.Meets]
      constructor
      · intro hm
        refine ⟨hlate, ?_⟩
        intro l₂ hl₂
        rw [hwait] at hl₂
        cases hl₂
        exact hm
      · exact fun hm => hm.2 l₁ hwait
    · obtain ⟨more, rfl⟩ := returns_prefix hrest
      exact iff_of_false (fun hall => hlate (hone.1 hall.of_append)) fun hm => hlate hm.1

/-- No window of a period holds more returns than the rate allows, exactly if each call that finds
more timestamps than that is late. -/
theorem windows_bounded_iff (start : Rat) (calls : List Readings) (l : Limiter)
    (returns : List Rat)
    (hrun : Machine.run waiting ({ clock := start }, []) calls = some (l, returns)) :
    (∀ a, returns.countP (inWindow a timePeriod) ≤ maxRate) ↔
      Machine.Meets Limiter.wait Late { clock := start } calls := by
  have hstart : Kept { clock := start } [] :=
    ⟨holds_nil _ _, List.Pairwise.nil, List.forall_mem_nil _⟩
  rw [← spaced_run_iff hstart (spaced_nil _ _) hrun]
  constructor
  · exact spaced_of_countP_window (sorted_run hstart hrun)
  · exact fun h a => h.countP_window (by decide) (by decide +kernel) a

/-- Nine requests at once. -/
def nine : List Readings := List.replicate 8 ⟨0, 0⟩ ++ [⟨0, 1⟩]

def nineReturns : List Rat := List.replicate 8 0 ++ [1]

theorem windows_bounded_nine :
    Machine.run waiting ({ clock := 0 }, []) nine = some (⟨1, nineReturns⟩, nineReturns) ∧
      ∀ a, nineReturns.countP (inWindow a timePeriod) ≤ maxRate := by
  have hrun : Machine.run waiting ({ clock := 0 }, []) nine =
      some (⟨1, nineReturns⟩, nineReturns) := by
    decide +kernel
  exact ⟨hrun, (windows_bounded_iff 0 nine _ _ hrun).2 (by decide +kernel)⟩

/-- The ninth request sleeps until the first is exactly a second old, and the tenth reads the same
time off the clock. -/
def sameReading : List Readings :=
  ⟨0, 0⟩ :: List.replicate 7 ⟨1 / 2, 1 / 2⟩ ++ [⟨1 / 2, 1⟩, ⟨1, 1⟩]

def sameReturns : List Rat := 0 :: List.replicate 7 (1 / 2) ++ [1, 1]

theorem window_exceeded_sameReading :
    Machine.run waiting ({ clock := 0 }, []) sameReading = some (⟨1, sameReturns⟩, sameReturns) ∧
      ¬sameReturns.countP (inWindow (1 / 2) timePeriod) ≤ maxRate := by
  decide +kernel

end Edgar
