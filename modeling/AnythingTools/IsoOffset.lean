import Mathlib.Data.String.Basic
import AnythingTools.IsoFormat

namespace IsoFormat
open Calendar
set_option autoImplicit true

theorem Sorts.congr (h : Sorts x x' n n') (hlt : n < n' ↔ k < k') (heq : n = n' ↔ k = k') :
    Sorts x x' k k' :=
  ⟨h.length, h.lt.trans hlt, h.eq.trans heq⟩

theorem sorts_date (h : n < days) (h' : n' < days) :
    Sorts (Calendar.dateText n) (Calendar.dateText n') n n' := by
  refine ⟨by rw [length_dateText, length_dateText], dateText_lt_iff h h', ?_⟩
  constructor
  · intro he
    rcases Nat.lt_trichotomy n n' with hlt | heq | hgt
    · exact absurd (he ▸ (dateText_lt_iff h h').2 hlt) (List.lt_irrefl _)
    · exact heq
    · exact absurd (he ▸ (dateText_lt_iff h' h).2 hgt) (List.lt_irrefl _)
  · exact fun he => by rw [he]

theorem sorts_time (h : s < 86400) (h' : s' < 86400) :
    Sorts (Calendar.timeText s) (Calendar.timeText s') s s' := by
  have hhours := sorts_pad 2 (by omega : s / 3600 < 10 ^ 2) (by omega : s' / 3600 < 10 ^ 2)
  have hfields := (hhours.field ':' (by omega : s / 60 % 60 < 100)
    (by omega : s' / 60 % 60 < 100)).field ':' (by omega : s % 60 < 100) (by omega : s' % 60 < 100)
  rw [List.append_assoc, List.append_assoc, List.cons_append, List.cons_append] at hfields
  have hhour : s / 60 / 60 = s / 3600 := Nat.div_div_eq_div_mul s 60 60
  have hhour' : s' / 60 / 60 = s' / 3600 := Nat.div_div_eq_div_mul s' 60 60
  exact hfields.congr (by omega) (by omega)

/-- Two texts with a separator between, of which the first decides. -/
theorem Sorts.append (h : Sorts x x' n n') (hy : Sorts y y' m m') (c : Char) (hm : m < k)
    (hm' : m' < k) : Sorts (x ++ c :: y) (x' ++ c :: y') (n * k + m) (n' * k + m') := by
  have hmul (i j : Nat) (hij : i < j) : i * k + k ≤ j * k := by
    rw [← Nat.succ_mul]
    exact Nat.mul_le_mul_right k hij
  have hirrefl : ¬ c < c := Char.lt_irrefl c
  refine ⟨by simp [h.length, hy.length], ?_, ?_⟩
  · rw [append_lt_append_iff h.length, List.cons_lt_cons_iff, h.lt, h.eq, hy.lt]
    simp only [hirrefl, false_or, true_and]
    rcases Nat.lt_trichotomy n n' with hlt | rfl | hgt
    · have hle := hmul n n' hlt
      omega
    · omega
    · have hle := hmul n' n hgt
      omega
  · constructor
    · intro he
      obtain ⟨hx, ht⟩ := List.append_inj he h.length
      rw [h.eq.1 hx, hy.eq.1 (List.cons.inj ht).2]
    · intro he
      rcases Nat.lt_trichotomy n n' with hlt | rfl | hgt
      · have hle := hmul n n' hlt
        omega
      · rw [h.eq.2 rfl, hy.eq.2 (by omega)]
      · have hle := hmul n' n hgt
        omega

/-- A time of the calendar with its offset from UTC in microseconds. -/
structure Aware where
  wall : Instant
  offset : Int
  valid : offset.natAbs < 86400000000

namespace Aware

def utc (t : Instant) : Aware := ⟨t, 0, by decide⟩

/-- The point in time, in microseconds. -/
def instant (a : Aware) : Int := a.wall.micros - a.offset

/-- The digits of a second's fraction, if it has one. -/
def fractionText (micros : Nat) : List Char := if micros = 0 then [] else '.' :: pad 6 micros

/-- `datetime.isoformat`. -/
def isoformat (a : Aware) : String :=
  String.ofList (Calendar.dateText (a.wall.seconds / 86400) ++
    'T' :: (Calendar.timeText (a.wall.seconds % 86400) ++
      fractionText (a.wall.micros % 1000000) ++ offsetText a.offset))

theorem isoformat_utc (t : Instant) : (utc t).isoformat = Calendar.isoformat t := by
  have hzero : offsetText 0 = "+00:00".toList := by decide
  rw [isoformat, Calendar.isoformat, utc, hzero]
  rfl

/-- The text up to the seconds. -/
def secondsText (a : Aware) : List Char :=
  Calendar.dateText (a.wall.seconds / 86400) ++ 'T' :: Calendar.timeText (a.wall.seconds % 86400)

theorem sorts_seconds (a b : Aware) :
    Sorts a.secondsText b.secondsText a.wall.seconds b.wall.seconds := by
  have hmod (n : Nat) : n % 86400 < 86400 := Nat.mod_lt n (by omega)
  have h := (sorts_date a.wall.valid b.wall.valid).append
    (sorts_time (hmod a.wall.seconds) (hmod b.wall.seconds)) 'T' (hmod _) (hmod _)
  rw [show a.wall.micros / 1000000 = a.wall.seconds from rfl,
    show b.wall.micros / 1000000 = b.wall.seconds from rfl, Nat.div_add_mod', Nat.div_add_mod'] at h
  exact h

theorem offsetText_cons (o : Int) : ∃ c rest, offsetText o = c :: rest ∧ (c = '+' ∨ c = '-') := by
  rw [offsetText]
  refine ⟨_, _, rfl, ?_⟩
  split
  · exact .inr rfl
  · exact .inl rfl

/-- A sign sorts before the point of a fraction. -/
theorem fraction_lt_iff (o o' : Int) (hm : m < 10 ^ 6) (hm' : m' < 10 ^ 6) :
    fractionText m ++ offsetText o < fractionText m' ++ offsetText o' ↔
      m < m' ∨ m = m' ∧ offsetText o < offsetText o' := by
  obtain ⟨c, rest, ho, hc⟩ := offsetText_cons o
  obtain ⟨c', rest', ho', hc'⟩ := offsetText_cons o'
  have hpoint : c < '.' := by rcases hc with rfl | rfl <;> decide
  have hpoint' : c' < '.' := by rcases hc' with rfl | rfl <;> decide
  have hirrefl : ¬ '.' < '.' := Char.lt_irrefl '.'
  rw [fractionText, fractionText]
  by_cases h : m = 0
  · by_cases h' : m' = 0
    · simp [h, h']
    · rw [if_pos h, if_neg h', List.nil_append, ho, List.cons_append, List.cons_lt_cons_iff]
      exact iff_of_true (.inl hpoint) (.inl (by omega))
  · by_cases h' : m' = 0
    · rw [if_neg h, if_pos h', List.nil_append, ho', List.cons_append, List.cons_lt_cons_iff]
      refine iff_of_false ?_ (by omega)
      rintro (hlt | ⟨heq, -⟩)
      · exact absurd hlt (Char.lt_asymm hpoint')
      · exact absurd (heq ▸ hpoint') hirrefl
    · have hpad := sorts_pad 6 hm hm'
      rw [if_neg h, if_neg h', List.cons_append, List.cons_append, List.cons_lt_cons_iff,
        append_lt_append_iff hpad.length, hpad.lt, hpad.eq]
      simp only [hirrefl, false_or, true_and]

/-- The clock decides the order of the texts, and between equal clocks the text of the offset. -/
theorem isoformat_lt_iff (a b : Aware) :
    a.isoformat < b.isoformat ↔ a.wall.micros < b.wall.micros ∨
      a.wall.micros = b.wall.micros ∧ offsetText a.offset < offsetText b.offset := by
  have hseconds := sorts_seconds a b
  have hmod (n : Nat) : n % 1000000 < 10 ^ 6 := Nat.mod_lt n (by omega)
  have htext (a : Aware) : a.isoformat.toList =
      a.secondsText ++ (fractionText (a.wall.micros % 1000000) ++ offsetText a.offset) := by
    rw [isoformat, String.toList_ofList, secondsText]
    simp only [List.append_assoc, List.cons_append]
  rw [String.lt_iff_toList_lt, htext, htext, append_lt_append_iff hseconds.length, hseconds.lt,
    hseconds.eq, fraction_lt_iff _ _ (hmod _) (hmod _), Instant.seconds, Instant.seconds]
  have ha := Nat.div_add_mod a.wall.micros 1000000
  have hb := Nat.div_add_mod b.wall.micros 1000000
  constructor
  · rintro (hlt | ⟨heq, hlt | ⟨hmicros, hoff⟩⟩)
    · exact .inl (by omega)
    · exact .inl (by omega)
    · exact .inr ⟨by omega, hoff⟩
  · rintro (hlt | ⟨heq, hoff⟩)
    · omega
    · exact .inr ⟨by rw [heq], .inr ⟨by rw [heq], hoff⟩⟩

/-- The text of UTC sorts before that of every other offset. -/
theorem offsetText_zero_lt (o : Int) (h : o.natAbs < 86400000000) :
    offsetText 0 < offsetText o ↔ o ≠ 0 := by
  have hzero : offsetText 0 = '+' :: (pad 2 0 ++ ':' :: (pad 2 0 ++ [])) := by decide
  constructor
  · rintro hlt rfl
    exact List.lt_irrefl _ hlt
  · intro hne
    rw [hzero, offsetText]
    by_cases hneg : o < 0
    · rw [if_pos hneg, List.cons_lt_cons_iff]
      exact .inl (by decide)
    · have hh := sorts_pad 2 (by omega : 0 < 10 ^ 2)
        (by omega : o.natAbs / 1000000 / 3600 < 10 ^ 2)
      have hm := sorts_pad 2 (by omega : 0 < 10 ^ 2)
        (by omega : o.natAbs / 1000000 / 60 % 60 < 10 ^ 2)
      rw [if_neg hneg, List.cons_lt_cons_iff, append_lt_append_iff hh.length,
        List.cons_lt_cons_iff, append_lt_append_iff hm.length, hh.lt, hh.eq, hm.lt, hm.eq]
      have hirrefl : ¬ ':' < ':' := Char.lt_irrefl ':'
      simp only [hirrefl, false_or, true_and]
      refine .inr ?_
      -- Where hours and minutes are zero, the seconds are written and make the text longer.
      by_cases hrest : o.natAbs % 60000000 = 0
      · omega
      · rw [if_neg hrest]
        have hlonger : ∀ x : List Char, [] < ':' :: x := fun x => List.nil_lt_cons ':' x
        simp only [hlonger, and_true]
        omega

/-- A text in UTC is at or after another one exactly if its clock is later, or the same and that
one is in UTC as well. -/
theorem le_utc_iff (a : Aware) (t : Instant) :
    a.isoformat ≤ Calendar.isoformat t ↔
      a.wall.micros < t.micros ∨ a.wall.micros = t.micros ∧ a.offset = 0 := by
  rw [← isoformat_utc, ← not_lt, isoformat_lt_iff, utc, offsetText_zero_lt _ a.valid]
  dsimp only
  omega

end Aware

end IsoFormat
