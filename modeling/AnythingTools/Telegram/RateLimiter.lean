import Mathlib.Algebra.Order.Field.Rat
import Mathlib.Data.List.AList
import Mathlib.Data.List.TakeWhile
import Mathlib.Tactic.Linarith
import AnythingTools.Spacing

namespace Telegram
open Spacing
set_option autoImplicit true

/-- The settings of the limiter. -/
structure Limits where
  overallMaxRate : Nat := 28
  overallTimePeriod : Rat := 1
  groupMaxRate : Nat := 18
  groupTimePeriod : Rat := 60
  overallRate_pos : 0 < overallMaxRate := by decide
  overallPeriod_pos : 0 < overallTimePeriod := by decide
  groupRate_pos : 0 < groupMaxRate := by decide
  groupPeriod_pos : 0 < groupTimePeriod := by decide

/-- `SlidingWindowRateLimiter`. -/
structure RateLimiter where
  overallTimestamps : List Rat := []
  groupTimestamps : AList fun _ : String => List Rat := ∅
  frozenUntil : Rat := 0

def RateLimiter.group (l : RateLimiter) (chatId : String) : List Rat :=
  (l.groupTimestamps.lookup chatId).getD []

/-- Drop the stale timestamps at the front. -/
def prune (horizon : Rat) (timestamps : List Rat) : List Rat :=
  timestamps.dropWhile fun t => decide (t < horizon)

/-- Not before the period after the reservation that stands `maxRate` places from the end. -/
def keepRate (maxRate : Nat) (timePeriod : Rat) (timestamps : List Rat) (target : Rat) : Rat :=
  if maxRate ≤ timestamps.length then
    max target (timestamps.getD (timestamps.length - maxRate) 0 + timePeriod)
  else target

/-- Not before a second after the last reservation. -/
def keepSecond (timestamps : List Rat) (target : Rat) : Rat :=
  match timestamps.getLast? with
  | some t => max target (t + 1)
  | none => target

/-- A send time that was reserved. -/
structure Reservation where
  chatId : String
  isGroup : Bool
  target : Rat
deriving DecidableEq, Repr

/-- The calls of the limiter with what they read off the clock. -/
inductive Call where
  | waitAndBlock (now : Rat) (chatId : String) (isGroup : Bool)
  | recordRetryAfter (now retryAfter : Rat)

def Call.now : Call → Rat
  | .waitAndBlock now _ _ => now
  | .recordRetryAfter now _ => now

/-- The limiter after its stale timestamps are gone. -/
def RateLimiter.pruned (cfg : Limits) (l : RateLimiter) (now : Rat) (chatId : String)
    (isGroup : Bool) : RateLimiter :=
  { l with
    overallTimestamps := prune (now - cfg.overallTimePeriod) l.overallTimestamps
    groupTimestamps :=
      if isGroup then
        l.groupTimestamps.insert chatId (prune (now - cfg.groupTimePeriod) (l.group chatId))
      else l.groupTimestamps }

/-- The send time that `wait_and_block` reserves. -/
def RateLimiter.target (cfg : Limits) (l : RateLimiter) (now : Rat) (chatId : String)
    (isGroup : Bool) : Rat :=
  let target := keepRate cfg.overallMaxRate cfg.overallTimePeriod l.overallTimestamps now
  let target :=
    if isGroup then keepRate cfg.groupMaxRate cfg.groupTimePeriod (l.group chatId) target
    else keepSecond l.overallTimestamps target
  if target < l.frozenUntil then l.frozenUntil else target

def RateLimiter.reserve (l : RateLimiter) (r : Reservation) : RateLimiter :=
  { l with
    overallTimestamps := l.overallTimestamps ++ [r.target]
    groupTimestamps :=
      if r.isGroup then l.groupTimestamps.insert r.chatId (l.group r.chatId ++ [r.target])
      else l.groupTimestamps }

/-- One call: the limiter after it, and what it reserves. -/
def RateLimiter.call (cfg : Limits) (l : RateLimiter) : Call → RateLimiter × List Reservation
  | .waitAndBlock now chatId isGroup =>
    let l := l.pruned cfg now chatId isGroup
    let r := ⟨chatId, isGroup, l.target cfg now chatId isGroup⟩
    (l.reserve r, [r])
  | .recordRetryAfter now retryAfter => ({ l with frozenUntil := now + retryAfter + 1 / 10 }, [])

/-- The reservations of a sequence of calls. -/
def RateLimiter.reservations (cfg : Limits) (l : RateLimiter) : List Call → List Reservation
  | [] => []
  | c :: cs => (l.call cfg c).2 ++ (l.call cfg c).1.reservations cfg cs

def targets (rs : List Reservation) : List Rat := rs.map Reservation.target

def groupTargets (chatId : String) (rs : List Reservation) : List Rat :=
  targets (rs.filter fun r => r.isGroup && decide (r.chatId = chatId))

/-- The deque holds the end of what was reserved, and what it no longer holds lies more than a
period before the clock. -/
def Holds (period clock : Rat) (reserved timestamps : List Rat) : Prop :=
  ∃ dropped, reserved = dropped ++ timestamps ∧ ∀ t ∈ dropped, t + period < clock

theorem holds_nil (period clock : Rat) : Holds period clock [] [] := by
  refine ⟨[], rfl, ?_⟩
  intro t ht
  cases ht

theorem Holds.later (h : Holds period clock reserved timestamps) (hle : clock ≤ clock') :
    Holds period clock' reserved timestamps := by
  obtain ⟨dropped, he, hd⟩ := h
  exact ⟨dropped, he, fun t ht => (hd t ht).trans_le hle⟩

theorem Holds.prune (h : Holds period clock reserved timestamps) :
    Holds period clock reserved (prune (clock - period) timestamps) := by
  obtain ⟨dropped, he, hd⟩ := h
  refine ⟨dropped ++ timestamps.takeWhile fun t => decide (t < clock - period), ?_, ?_⟩
  · rw [Telegram.prune, List.append_assoc, List.takeWhile_append_dropWhile]
    exact he
  · intro t ht
    rcases List.mem_append.1 ht with ht | ht
    · exact hd t ht
    · have hlt : t < clock - period := by simpa using List.mem_takeWhile_imp ht
      linarith

theorem Holds.concat (h : Holds period clock reserved timestamps) (t : Rat) :
    Holds period clock (reserved ++ [t]) (timestamps ++ [t]) := by
  obtain ⟨dropped, he, hd⟩ := h
  refine ⟨dropped, ?_, hd⟩
  rw [he, List.append_assoc]

theorem le_keepRate (n : Nat) (period : Rat) (timestamps : List Rat) (target : Rat) :
    target ≤ keepRate n period timestamps target := by
  unfold keepRate
  split
  · exact le_max_left _ _
  · exact le_refl _

theorem le_keepSecond (timestamps : List Rat) (target : Rat) :
    target ≤ keepSecond timestamps target := by
  unfold keepSecond
  split
  · exact le_max_left _ _
  · exact le_refl _

/-- A send time that keeps the rate of the deque keeps its distance to everything reserved: what the
deque no longer holds is over for a period. -/
theorem Holds.spaced (hholds : Holds period clock reserved timestamps)
    (h : Spaced n period reserved) (hn : 0 < n) (hclock : clock ≤ t)
    (hrate : keepRate n period timestamps target ≤ t) : Spaced n period (reserved ++ [t]) := by
  obtain ⟨dropped, he, hd⟩ := hholds
  apply h.concat hn
  intro t' hlen hget
  rw [he, List.length_append] at hlen
  rw [he, List.length_append] at hget
  by_cases hn' : n ≤ timestamps.length
  · have hindex : dropped.length + timestamps.length - n - dropped.length =
        timestamps.length - n := by omega
    rw [List.getElem?_append_right (by omega), hindex] at hget
    rw [keepRate, if_pos hn', List.getD_eq_getElem?_getD, hget, Option.getD_some] at hrate
    exact (le_max_right _ _).trans hrate
  · rw [List.getElem?_append_left (by omega)] at hget
    have hover := hd t' (List.mem_of_getElem? hget)
    exact hover.le.trans hclock

theorem le_target (cfg : Limits) (l : RateLimiter) (now : Rat) (chatId : String) (isGroup : Bool) :
    now ≤ l.target cfg now chatId isGroup ∧
      keepRate cfg.overallMaxRate cfg.overallTimePeriod l.overallTimestamps now ≤
        l.target cfg now chatId isGroup ∧
      (isGroup = true → ∃ target, keepRate cfg.groupMaxRate cfg.groupTimePeriod (l.group chatId)
        target ≤ l.target cfg now chatId isGroup) := by
  have hlast : ∀ target, target ≤ if target < l.frozenUntil then l.frozenUntil else target := by
    intro target
    split
    next hlt => exact hlt.le
    next => exact le_refl _
  have hrate : keepRate cfg.overallMaxRate cfg.overallTimePeriod l.overallTimestamps now ≤
      l.target cfg now chatId isGroup := by
    unfold RateLimiter.target
    refine le_trans ?_ (hlast _)
    cases isGroup with
    | true => exact le_keepRate _ _ _ _
    | false => exact le_keepSecond _ _
  refine ⟨(le_keepRate _ _ _ _).trans hrate, hrate, ?_⟩
  rintro rfl
  exact ⟨_, hlast _⟩

@[simp] theorem targets_append (rs rs' : List Reservation) :
    targets (rs ++ rs') = targets rs ++ targets rs' := List.map_append

theorem groupTargets_concat (chatId : String) (rs : List Reservation) (r : Reservation) :
    groupTargets chatId (rs ++ [r]) =
      groupTargets chatId rs ++ if r.isGroup = true ∧ r.chatId = chatId then [r.target] else [] := by
  rw [groupTargets, List.filter_append, targets_append, ← groupTargets, List.filter_singleton]
  congr 1
  by_cases h : r.isGroup = true ∧ r.chatId = chatId
  · rw [if_pos h, h.1, h.2]
    simp [targets]
  · rw [if_neg h]
    have hfalse : (r.isGroup && decide (r.chatId = chatId)) = false := by
      simpa using h
    rw [hfalse]
    rfl

theorem group_insert (l : RateLimiter) (chatId : String) (timestamps : List Rat) (k : String) :
    ((l.groupTimestamps.insert chatId timestamps).lookup k).getD [] =
      if k = chatId then timestamps else l.group k := by
  by_cases h : k = chatId
  · rw [h, AList.lookup_insert, if_pos rfl, Option.getD_some]
  · rw [AList.lookup_insert_ne h, if_neg h, RateLimiter.group]

theorem group_pruned (cfg : Limits) (l : RateLimiter) (now : Rat) (chatId : String)
    (isGroup : Bool) (k : String) : (l.pruned cfg now chatId isGroup).group k =
      if isGroup = true ∧ k = chatId then prune (now - cfg.groupTimePeriod) (l.group k)
      else l.group k := by
  cases isGroup with
  | false => rfl
  | true =>
    change ((l.groupTimestamps.insert chatId _).lookup k).getD [] = _
    rw [group_insert]
    by_cases h : k = chatId
    · simp [h]
    · simp [h]

theorem group_reserve (l : RateLimiter) (r : Reservation) (k : String) : (l.reserve r).group k =
    l.group k ++ if r.isGroup = true ∧ r.chatId = k then [r.target] else [] := by
  cases hg : r.isGroup with
  | false =>
    rw [RateLimiter.group, RateLimiter.reserve, hg]
    simp [RateLimiter.group]
  | true =>
    rw [RateLimiter.group, RateLimiter.reserve, hg]
    change ((l.groupTimestamps.insert r.chatId _).lookup k).getD [] = _
    rw [group_insert]
    by_cases h : k = r.chatId
    · simp [h]
    · simp [h, Ne.symm h]

/-- The deques hold the end of the reservations, which keep their distances. -/
structure Kept (cfg : Limits) (clock : Rat) (rs : List Reservation) (l : RateLimiter) : Prop where
  overall : Holds cfg.overallTimePeriod clock (targets rs) l.overallTimestamps
  group (chatId : String) :
    Holds cfg.groupTimePeriod clock (groupTargets chatId rs) (l.group chatId)
  overallSpaced : Spaced cfg.overallMaxRate cfg.overallTimePeriod (targets rs)
  groupSpaced (chatId : String) :
    Spaced cfg.groupMaxRate cfg.groupTimePeriod (groupTargets chatId rs)

theorem Kept.later (h : Kept cfg clock rs l) (hle : clock ≤ clock') : Kept cfg clock' rs l where
  overall := h.overall.later hle
  group chatId := (h.group chatId).later hle
  overallSpaced := h.overallSpaced
  groupSpaced := h.groupSpaced

theorem Kept.pruned (h : Kept cfg now rs l) (chatId : String) (isGroup : Bool) :
    Kept cfg now rs (l.pruned cfg now chatId isGroup) where
  overall := h.overall.prune
  group k := by
    rw [group_pruned]
    split
    · exact (h.group k).prune
    · exact h.group k
  overallSpaced := h.overallSpaced
  groupSpaced := h.groupSpaced

theorem Kept.reserve (h : Kept cfg now rs l) (chatId : String) (isGroup : Bool) :
    Kept cfg now (rs ++ [⟨chatId, isGroup, l.target cfg now chatId isGroup⟩])
      (l.reserve ⟨chatId, isGroup, l.target cfg now chatId isGroup⟩) := by
  obtain ⟨hnow, hoverall, hgroup⟩ := le_target cfg l now chatId isGroup
  refine ⟨?_, ?_, ?_, ?_⟩
  · rw [targets_append]
    exact h.overall.concat _
  · intro k
    rw [groupTargets_concat, group_reserve]
    split
    · exact (h.group k).concat _
    · rw [List.append_nil, List.append_nil]
      exact h.group k
  · rw [targets_append]
    exact h.overall.spaced h.overallSpaced cfg.overallRate_pos hnow hoverall
  · intro k
    rw [groupTargets_concat]
    split
    next hk =>
      obtain ⟨target, htarget⟩ := hgroup hk.1
      have hid : chatId = k := hk.2
      rw [hid] at htarget
      rw [hid] at hnow
      have hspaced := (h.group k).spaced (h.groupSpaced k) cfg.groupRate_pos hnow htarget
      rw [← hid] at hspaced ⊢
      exact hspaced
    next =>
      rw [List.append_nil]
      exact h.groupSpaced k

/-- One call keeps what the deques hold, if the clock has not gone back. -/
theorem Kept.call (h : Kept cfg clock rs l) (c : Call) (hclock : clock ≤ c.now) :
    Kept cfg c.now (rs ++ (l.call cfg c).2) (l.call cfg c).1 := by
  cases c with
  | waitAndBlock now chatId isGroup =>
    have hpruned := (h.later hclock).pruned chatId isGroup
    exact hpruned.reserve chatId isGroup
  | recordRetryAfter now retryAfter =>
    have hsame := h.later hclock
    rw [RateLimiter.call, List.append_nil]
    exact ⟨hsame.overall, hsame.group, hsame.overallSpaced, hsame.groupSpaced⟩

theorem Kept.reservations (h : Kept cfg clock rs l)
    (hclock : (clock :: calls.map Call.now).Pairwise (· ≤ ·)) :
    ∃ clock' l', Kept cfg clock' (rs ++ l.reservations cfg calls) l' := by
  induction calls generalizing clock rs l with
  | nil =>
    refine ⟨clock, l, ?_⟩
    rw [RateLimiter.reservations, List.append_nil]
    exact h
  | cons c cs ih =>
    rw [List.map_cons, List.pairwise_cons] at hclock
    have hle := hclock.1 c.now List.mem_cons_self
    have hrest := ih (h.call c hle) hclock.2
    rw [List.append_assoc] at hrest
    exact hrest

theorem kept_init (cfg : Limits) (clock : Rat) : Kept cfg clock [] {} where
  overall := holds_nil _ _
  group _ := holds_nil _ _
  overallSpaced := spaced_nil _ _
  groupSpaced _ := spaced_nil _ _

theorem kept_run (cfg : Limits) (calls : List Call)
    (hclock : (calls.map Call.now).Pairwise (· ≤ ·)) :
    ∃ clock l, Kept cfg clock (({} : RateLimiter).reservations cfg calls) l := by
  cases calls with
  | nil => exact ⟨0, {}, kept_init cfg 0⟩
  | cons c cs =>
    have hsorted : (c.now :: (c :: cs).map Call.now).Pairwise (· ≤ ·) := by
      rw [List.pairwise_cons]
      refine ⟨?_, hclock⟩
      intro t ht
      rcases List.mem_cons.1 ht with rfl | ht
      · exact le_refl _
      · exact (List.pairwise_cons.1 hclock).1 t ht
    have hkept := (kept_init cfg c.now).reservations hsorted
    rw [List.nil_append] at hkept
    exact hkept

theorem countP_targets (rs : List Reservation) (a period : Rat) :
    (targets rs).countP (inWindow a period) = rs.countP fun r => inWindow a period r.target :=
  List.countP_map

theorem countP_groupTargets (chatId : String) (rs : List Reservation) (a period : Rat) :
    (groupTargets chatId rs).countP (inWindow a period) =
      rs.countP fun r => (r.isGroup && decide (r.chatId = chatId)) && inWindow a period r.target := by
  rw [groupTargets, countP_targets, List.countP_filter]
  congr 1
  funext r
  exact Bool.and_comm _ _

/-- No window of the overall period holds more send times than the overall rate, and none of the
group period more of one group than the rate of a group. -/
theorem windows_bounded (cfg : Limits) (calls : List Call)
    (hclock : (calls.map Call.now).Pairwise (· ≤ ·)) (a : Rat) :
    (({} : RateLimiter).reservations cfg calls).countP
        (fun r => inWindow a cfg.overallTimePeriod r.target) ≤ cfg.overallMaxRate ∧
      ∀ chatId, (({} : RateLimiter).reservations cfg calls).countP
        (fun r => (r.isGroup && decide (r.chatId = chatId)) &&
          inWindow a cfg.groupTimePeriod r.target) ≤ cfg.groupMaxRate := by
  obtain ⟨clock, l, h⟩ := kept_run cfg calls hclock
  constructor
  · rw [← countP_targets]
    exact h.overallSpaced.countP_window cfg.overallRate_pos cfg.overallPeriod_pos.le a
  · intro chatId
    rw [← countP_groupTargets]
    exact (h.groupSpaced chatId).countP_window cfg.groupRate_pos cfg.groupPeriod_pos.le a

/-- Two messages a second and one to a group every ten: the group waits, the others pass it. -/
def tightLimits : Limits where
  overallMaxRate := 2
  groupMaxRate := 1
  groupTimePeriod := 10

def burst : List Call :=
  [.waitAndBlock 0 "-100" true, .waitAndBlock 0 "-100" true, .waitAndBlock 0 "@news" true,
    .recordRetryAfter 0 3, .waitAndBlock (1 / 2) "42" false]

theorem windows_bounded_burst :
    targets (({} : RateLimiter).reservations tightLimits burst) = [0, 10, 1, 11] ∧
      (({} : RateLimiter).reservations tightLimits burst).countP
        (fun r => inWindow 10 1 r.target) ≤ 2 :=
  ⟨by decide +kernel, (windows_bounded tightLimits burst (by decide +kernel) 10).1⟩

end Telegram
