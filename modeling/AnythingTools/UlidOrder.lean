import Mathlib.Data.String.Basic
import Mathlib.Tactic.Linarith
import AnythingTools.Ulid

namespace Ulid
set_option autoImplicit true

/-- What a call of `generate` may read: the clock, the ten random bytes as a number, and the clock
again for as long as it waits. -/
structure Call where
  timestampMs : Nat
  urandom : BitVec 80
  waits : List Nat := []
deriving DecidableEq, Repr

/-- The readings of the call have 48 bits. -/
def Call.InRange (c : Call) : Prop := c.timestampMs < 2 ^ 48 ∧ ∀ t ∈ c.waits, t < 2 ^ 48

instance (c : Call) : Decidable c.InRange := inferInstanceAs (Decidable (_ ∧ _))

/-- The loop that waits for a later millisecond; there is none while it has not come. -/
def waitLoop (last : Int) : List Nat → Option Nat
  | [] => none
  | t :: ts => if t ≤ last then waitLoop last ts else some t

/-- `generate`, which does not return as long as it waits. -/
def Generator.call (g : Generator) (c : Call) : Option Generator :=
  if g.lastTimestampMs < c.timestampMs then some ⟨c.timestampMs, c.urandom.toNat⟩
  else
    let random := (g.lastRandom + 1) &&& (2 ^ 80 - 1)
    if random = 0 then
      (waitLoop g.lastTimestampMs c.waits).map fun t : Nat => ⟨t, c.urandom.toNat⟩
    else some ⟨g.lastTimestampMs, random⟩

/-- The strings of successive calls; a call that waits holds the lock. -/
def Generator.returned (g : Generator) : List Call → List String
  | [] => []
  | c :: cs =>
    match g.call c with
    | none => []
    | some g' => g'.ulid :: g'.returned cs

theorem waitLoop_some (h : waitLoop last ts = some t) : t ∈ ts ∧ last < t := by
  induction ts with
  | nil => cases h
  | cons t' ts ih =>
    rw [waitLoop] at h
    split at h
    next =>
      obtain ⟨hm, hlt⟩ := ih h
      exact ⟨List.mem_cons_of_mem _ hm, hlt⟩
    next hlt =>
      cases h
      exact ⟨List.mem_cons_self, by omega⟩

/-- A call that returns has seen a new millisecond, on its first reading or after waiting, or it has
counted the random part up. -/
theorem Generator.call_cases (h : Generator.call g c = some g') :
    (∃ t : Nat, (t = c.timestampMs ∨ t ∈ c.waits) ∧ g.lastTimestampMs < t ∧
      g' = ⟨t, c.urandom.toNat⟩) ∨
    (g.lastRandom + 1) % 2 ^ 80 ≠ 0 ∧
      g' = ⟨g.lastTimestampMs, (g.lastRandom + 1) % 2 ^ 80⟩ := by
  rw [Generator.call] at h
  split at h
  next hlt =>
    cases h
    exact .inl ⟨c.timestampMs, .inl rfl, hlt, rfl⟩
  next =>
    simp only [Nat.and_two_pow_sub_one_eq_mod] at h
    split at h
    next =>
      obtain ⟨t, hwait, he⟩ := Option.map_eq_some_iff.1 h
      obtain ⟨hm, hlt⟩ := waitLoop_some hwait
      exact .inl ⟨t, .inr hm, hlt, he.symm⟩
    next hne =>
      cases h
      exact .inr ⟨hne, rfl⟩

theorem Generator.Sound.call (h : Generator.Sound g) (hc : Call.InRange c)
    (hcall : g.call c = some g') : g'.Sound := by
  rcases Generator.call_cases hcall with ⟨t, ht, -, rfl⟩ | ⟨-, rfl⟩
  · constructor
    · rcases ht with rfl | ht
      · exact hc.1
      · exact hc.2 t ht
    · exact c.urandom.isLt
  · exact ⟨h.timestamp, Nat.mod_lt _ (by decide)⟩

/-- After a call the last time is a reading. -/
theorem Generator.call_nonneg (h : Generator.call g c = some g')
    (hg : 0 ≤ g.lastTimestampMs ∨ g = {}) : 0 ≤ g'.lastTimestampMs := by
  rcases Generator.call_cases h with ⟨t, -, -, rfl⟩ | ⟨hne, rfl⟩
  · exact Int.natCast_nonneg t
  · rcases hg with hg | rfl
    · exact hg
    · -- the first call finds every reading later
      have hlater : ({} : Generator).lastTimestampMs < c.timestampMs := by
        change (-1 : Int) < c.timestampMs
        omega
      rw [Generator.call, if_pos hlater, Option.some.injEq] at h
      rw [← h]
      exact Int.natCast_nonneg c.timestampMs

theorem Generator.Sound.value_lt (h : Generator.Sound g) (hc : Call.InRange c)
    (hg : 0 ≤ g.lastTimestampMs) (hcall : g.call c = some g') : g.value < g'.value := by
  have h' := h.call hc hcall
  have hr := h.random
  rw [h.value, h'.value]
  rcases Generator.call_cases hcall with ⟨t, -, hlt, rfl⟩ | ⟨hne, rfl⟩
  · have hnat : g.lastTimestampMs.toNat + 1 ≤ t := by omega
    calc g.lastTimestampMs.toNat * 2 ^ 80 + g.lastRandom
        < (g.lastTimestampMs.toNat + 1) * 2 ^ 80 := by omega
      _ ≤ t * 2 ^ 80 := Nat.mul_le_mul_right _ hnat
      _ ≤ t * 2 ^ 80 + c.urandom.toNat := Nat.le_add_right _ _
  · have hnext : (g.lastRandom + 1) % 2 ^ 80 = g.lastRandom + 1 := by
      apply Nat.mod_eq_of_lt
      have hmax : g.lastRandom + 1 ≠ 2 ^ 80 := by
        intro he
        rw [he] at hne
        exact hne rfl
      omega
    dsimp only
    omega

theorem Generator.Sound.value_bound (h : Generator.Sound g) : g.value < 32 ^ 26 := by
  have ht := h.timestamp
  have hr := h.random
  rw [h.value]
  omega

theorem takeDigits_mod (n value : Nat) : takeDigits n (value % 32 ^ n) = takeDigits n value := by
  induction n generalizing value with
  | zero => rfl
  | succ n ih =>
    have hlow : value % 32 ^ (n + 1) % 32 = value % 32 :=
      Nat.mod_mod_of_dvd _ (Dvd.intro_left (32 ^ n) rfl)
    have hhigh : value % 32 ^ (n + 1) / 32 = value / 32 % 32 ^ n := by
      rw [Nat.pow_succ', Nat.mod_mul_right_div_self]
    rw [takeDigits_succ, takeDigits_succ, hlow, hhigh, ih]

/-- The digits from the highest down. -/
theorem reverse_takeDigits_succ (n value : Nat) : (takeDigits (n + 1) value).reverse =
    value / 32 ^ n % 32 :: (takeDigits n value).reverse := by
  have hlast : takeDigits 1 (value / 32 ^ n) = [value / 32 ^ n % 32] := takeDigits_succ 0 _
  rw [takeDigits_add n 1, hlast, List.reverse_append]
  rfl

/-- They are in the order of the values. -/
theorem reverse_takeDigits_lt {a b : Nat} (hb : b < 32 ^ n) (hab : a < b) :
    (takeDigits n a).reverse < (takeDigits n b).reverse := by
  induction n generalizing a b with
  | zero => omega
  | succ n ih =>
    rw [Nat.pow_succ] at hb
    have ha : a / 32 ^ n < 32 := Nat.div_lt_of_lt_mul (by omega)
    have hb' : b / 32 ^ n < 32 := Nat.div_lt_of_lt_mul (by omega)
    rw [reverse_takeDigits_succ, reverse_takeDigits_succ, Nat.mod_eq_of_lt ha, Nat.mod_eq_of_lt hb',
      List.cons_lt_cons_iff]
    rcases (Nat.div_le_div_right hab.le : a / 32 ^ n ≤ b / 32 ^ n).lt_or_eq with hlt | heq
    · exact .inl hlt
    · refine .inr ⟨heq, ?_⟩
      have hmod : a % 32 ^ n < b % 32 ^ n := by
        have hda := Nat.div_add_mod a (32 ^ n)
        have hdb := Nat.div_add_mod b (32 ^ n)
        rw [heq] at hda
        omega
      have hlow := ih (Nat.mod_lt b (Nat.pow_pos (by decide))) hmod
      rw [takeDigits_mod, takeDigits_mod] at hlow
      exact hlow

theorem map_digitChar_lt {l l' : List Nat} (hl : ∀ d ∈ l, d < 32) (hl' : ∀ d ∈ l', d < 32)
    (h : l < l') : l.map digitChar < l'.map digitChar := by
  have hall : ∀ d < 32, ∀ d' < 32, d < d' → digitChar d < digitChar d' := by decide
  induction l generalizing l' with
  | nil =>
    cases l' with
    | nil => exact absurd h (List.lt_irrefl [])
    | cons d' l' => exact List.nil_lt_cons _ _
  | cons d l ih =>
    cases l' with
    | nil => exact absurd h (List.not_lt_nil _)
    | cons d' l' =>
      rw [List.forall_mem_cons] at hl hl'
      rw [List.map_cons, List.map_cons, List.cons_lt_cons_iff]
      rcases List.cons_lt_cons_iff.1 h with hlt | ⟨rfl, htail⟩
      · exact .inl (hall d hl.1 d' hl'.1 hlt)
      · exact .inr ⟨rfl, ih hl.2 hl'.2 htail⟩

/-- The encoding keeps the order of all values of 130 bits. -/
theorem encode128bit_lt {a b : Nat} (hb : b < 32 ^ 26) (hab : a < b) :
    encode128bit a < encode128bit b := by
  rw [String.lt_iff_toList_lt, encode128bit, encode128bit, String.toList_ofList,
    String.toList_ofList, ← List.map_reverse, ← List.map_reverse]
  apply map_digitChar_lt
  · exact fun d hd => takeDigits_lt d (List.mem_reverse.1 hd)
  · exact fun d hd => takeDigits_lt d (List.mem_reverse.1 hd)
  · exact reverse_takeDigits_lt hb hab

theorem length_encode128bit (value : Nat) : (encode128bit value).length = 26 := by
  simp [encode128bit]

theorem mem_encode128bit (value : Nat) : ∀ c ∈ (encode128bit value).toList, c ∈ encoding := by
  have hall : ∀ d < 32, digitChar d ∈ encoding := by decide
  intro c hc
  rw [encode128bit, String.toList_ofList, List.mem_reverse] at hc
  obtain ⟨d, hd, rfl⟩ := List.mem_map.1 hc
  exact hall d (takeDigits_lt d hd)

theorem Generator.mem_returned {g : Generator} (h : s ∈ g.returned cs) :
    ∃ g' : Generator, s = g'.ulid := by
  induction cs generalizing g with
  | nil => cases h
  | cons c cs ih =>
    rw [Generator.returned] at h
    split at h
    next => cases h
    next g' _ =>
      rcases List.mem_cons.1 h with rfl | h
      · exact ⟨g', rfl⟩
      · exact ih h

/-- Everything that is returned later is greater. -/
theorem Generator.Sound.lt_returned (h : Generator.Sound g) (hg : 0 ≤ g.lastTimestampMs)
    (hcs : ∀ c ∈ cs, Call.InRange c) : ∀ s ∈ g.returned cs, g.ulid < s := by
  induction cs generalizing g with
  | nil =>
    intro s hs
    cases hs
  | cons c cs ih =>
    intro s hs
    rw [Generator.returned] at hs
    split at hs
    next => cases hs
    next g' hcall =>
      have hc := hcs c List.mem_cons_self
      have h' := h.call hc hcall
      have hg' := Generator.call_nonneg hcall (.inl hg)
      have hlt : g.ulid < g'.ulid := encode128bit_lt h'.value_bound (h.value_lt hc hg hcall)
      rcases List.mem_cons.1 hs with rfl | hs
      · exact hlt
      · exact hlt.trans (ih h' hg' (fun c hc => hcs c (List.mem_cons_of_mem _ hc)) s hs)

theorem Generator.Sound.pairwise_returned (h : Generator.Sound g)
    (hg : 0 ≤ g.lastTimestampMs ∨ g = {}) (hcs : ∀ c ∈ cs, Call.InRange c) :
    (g.returned cs).Pairwise (· < ·) := by
  induction cs generalizing g with
  | nil => exact List.Pairwise.nil
  | cons c cs ih =>
    rw [Generator.returned]
    split
    next => exact List.Pairwise.nil
    next g' hcall =>
      have h' := h.call (hcs c List.mem_cons_self) hcall
      have hg' := Generator.call_nonneg hcall hg
      have hrest : ∀ c ∈ cs, Call.InRange c := fun c hc => hcs c (List.mem_cons_of_mem _ hc)
      exact List.pairwise_cons.2 ⟨h'.lt_returned hg' hrest, ih h' (.inl hg') hrest⟩

/-- Successive ULIDs are strictly increasing, each of 26 characters of the alphabet. -/
theorem returned_increasing (cs : List Call) (hcs : ∀ c ∈ cs, c.InRange) :
    (({} : Generator).returned cs).Pairwise (· < ·) ∧
      ∀ s ∈ ({} : Generator).returned cs, s.length = 26 ∧ ∀ c ∈ s.toList, c ∈ encoding := by
  have hinit : Generator.Sound {} := ⟨by decide, by decide⟩
  refine ⟨hinit.pairwise_returned (.inr rfl) hcs, ?_⟩
  intro s hs
  obtain ⟨g, rfl⟩ := Generator.mem_returned hs
  exact ⟨length_encode128bit _, mem_encode128bit _⟩

/-- The random part is exhausted, and the clock goes back while the call waits. -/
def exhaustedCalls : List Call :=
  [⟨5, BitVec.allOnes 80, []⟩, ⟨4, 0, [3, 5, 6]⟩, ⟨6, 0, []⟩]

theorem returned_increasing_exhausted :
    ({} : Generator).returned exhaustedCalls = ["0000000005ZZZZZZZZZZZZZZZZ",
      "00000000060000000000000000", "00000000060000000000000001"] ∧
      (({} : Generator).returned exhaustedCalls).Pairwise (· < ·) :=
  ⟨by decide, (returned_increasing exhaustedCalls (by decide)).1⟩

end Ulid
