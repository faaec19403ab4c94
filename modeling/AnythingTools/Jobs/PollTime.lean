import Mathlib.Data.String.Basic
import AnythingTools.Calendar

namespace Jobs
open Calendar
set_option autoImplicit true

def nowIso (t : Instant) : String := isoformat t

/-- `datetime('now', '-' || ? || ' seconds')`. Before the year 1 there is nothing to select. -/
def retryCutoff (now : Instant) (delay : Nat) : Option String :=
  if delay ≤ now.seconds then some (sqlDatetime (now.seconds - delay)) else none

/-- `updated_at < datetime(...)`, a comparison of texts. -/
def retryDue (updatedAt : String) (cutoff : Option String) : Bool :=
  match cutoff with
  | none => false
  | some c => decide (updatedAt < c)

/-- The poll selects the job once the delay has elapsed, to the query's resolution of a second. -/
structure SelectsInTime (updatedAt now : Instant) (delay : Nat) : Prop where
  onlyThen : retryDue (nowIso updatedAt) (retryCutoff now delay) = true →
    updatedAt.micros + delay * 1000000 ≤ now.micros
  always : updatedAt.micros + (delay + 1) * 1000000 ≤ now.micros →
    retryDue (nowIso updatedAt) (retryCutoff now delay) = true

/-- The texts of one day differ first where one has a `T` and the other a blank. -/
theorem isoformat_lt_sqlDatetime (t : Instant) (hc : seconds / 86400 < days) :
    isoformat t < sqlDatetime seconds ↔ t.seconds / 86400 < seconds / 86400 := by
  have hvalid : t.seconds / 86400 < days := t.valid
  simp only [isoformat, sqlDatetime, String.lt_iff_toList_lt, String.toList_ofList]
  rw [append_lt_append_iff (by rw [length_dateText, length_dateText]),
    dateText_lt_iff hvalid hc, List.cons_lt_cons_iff]
  have hlt : ¬ 'T' < ' ' := by decide
  have hne : 'T' ≠ ' ' := by decide
  simp only [hlt, hne, false_and, or_self, and_false, or_false]

theorem retryDue_iff (updatedAt now : Instant) (delay : Nat) :
    retryDue (nowIso updatedAt) (retryCutoff now delay) = true ↔
      delay ≤ now.seconds ∧ updatedAt.seconds / 86400 < (now.seconds - delay) / 86400 := by
  rw [retryCutoff]
  split
  next h =>
    have hvalid := now.valid
    have hday : (now.seconds - delay) / 86400 < days := by
      rw [Instant.seconds]
      omega
    rw [retryDue, decide_eq_true_eq, nowIso, isoformat_lt_sqlDatetime updatedAt hday]
    simp only [h, true_and]
  next h => simp only [h, false_and, retryDue, Bool.false_eq_true]

/-- The poll is in time exactly when the delay has not elapsed yet or the job was updated on an
earlier day than the delay reaches back to. -/
theorem selectsInTime_iff (updatedAt now : Instant) (delay : Nat) :
    SelectsInTime updatedAt now delay ↔
      now.micros < updatedAt.micros + (delay + 1) * 1000000 ∨
        updatedAt.seconds / 86400 < (now.seconds - delay) / 86400 := by
  have hdue := retryDue_iff updatedAt now delay
  rw [Instant.seconds, Instant.seconds] at hdue ⊢
  apply Iff.intro
  · intro h
    by_cases he : updatedAt.micros + (delay + 1) * 1000000 ≤ now.micros
    · exact .inr (hdue.1 (h.always he)).2
    · exact .inl (Nat.lt_of_not_le he)
  · intro h
    constructor
    · intro hs
      have hday := (hdue.1 hs).2
      omega
    · intro he
      refine hdue.2 ⟨by omega, ?_⟩
      rcases h with hlt | hday
      · omega
      · exact hday

/-- The first of May 2024, so many seconds after ten o'clock. -/
def may1 (seconds : Nat) (h : seconds < 3600) : Instant where
  micros := (739006 * 86400 + 36000 + seconds) * 1000000
  valid := by
    have hdays := days_eq
    omega

example : nowIso (may1 5 (by decide)) = "2024-05-01T10:00:05+00:00" := by decide +kernel

/-- A job that failed its delivery at ten is not selected an hour minus a second later, with a delay
of 30 seconds. -/
theorem not_selected_on_same_day :
    ¬ SelectsInTime (may1 0 (by decide)) (may1 3599 (by decide)) 30 := by
  intro h
  have hselected := h.always (by decide +kernel)
  rw [retryDue_iff] at hselected
  exact absurd hselected.2 (by decide +kernel)

end Jobs
