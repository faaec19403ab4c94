import Mathlib.Data.Nat.Digits.Defs
import Mathlib.Data.Nat.Digits.Lemmas

namespace Ulid
set_option autoImplicit true

def encoding : List Char := "0123456789ABCDEFGHJKMNPQRSTVWXYZ".toList

/-- The five-bit digits that `_encode_128bit` takes off a value, the lowest first. -/
def takeDigits : Nat → Nat → List Nat
  | 0, _ => []
  | n + 1, value => (value &&& 0x1F) :: takeDigits n (value >>> 5)

def digitChar (d : Nat) : Char := encoding.getD d '0'

/-- `_encode_128bit`. -/
def encode128bit (value : Nat) : String :=
  String.ofList ((takeDigits 26 value).map digitChar).reverse

/-- The state of the generator. -/
structure Generator where
  lastTimestampMs : Int := -1
  lastRandom : Nat := 0
deriving DecidableEq, Repr

/-- What a call of `generate` reads: the clock, the random bytes, and the clock after a wait. -/
structure Reading where
  timestampMs : Nat
  urandom : Nat
  waitedMs : Nat := 0
deriving DecidableEq, Repr

namespace Generator

def generate (g : Generator) (x : Reading) : Generator :=
  if g.lastTimestampMs < x.timestampMs then ⟨x.timestampMs, x.urandom⟩
  else
    let random := (g.lastRandom + 1) &&& (2 ^ 80 - 1)
    if random = 0 then ⟨x.waitedMs, x.urandom⟩ else ⟨g.lastTimestampMs, random⟩

def value (g : Generator) : Nat := (g.lastTimestampMs.toNat <<< 80) ||| g.lastRandom

def ulid (g : Generator) : String := encode128bit g.value

/-- The time and the random part have their bits. -/
structure Sound (g : Generator) : Prop where
  timestamp : g.lastTimestampMs.toNat < 2 ^ 48
  random : g.lastRandom < 2 ^ 80

theorem Sound.generate (h : Sound g) {x : Reading} (ht : x.timestampMs < 2 ^ 48)
    (hw : x.waitedMs < 2 ^ 48) (hr : x.urandom < 2 ^ 80) : Sound (g.generate x) := by
  rw [Generator.generate]
  split
  · exact ⟨ht, hr⟩
  · dsimp only
    split
    · exact ⟨hw, hr⟩
    · exact ⟨h.timestamp, Nat.and_lt_two_pow _ (by decide)⟩

end Generator

/-- `_id` of `_parse_article_result`: the first eight characters, each one byte, as a number. -/
def parsedId (ulid : String) : Nat :=
  Nat.ofDigits 256 ((ulid.toList.take 8).map Char.toNat).reverse % 0x7FFFFFFFFFFFFFFE + 1

theorem takeDigits_succ (n value : Nat) :
    takeDigits (n + 1) value = value % 32 :: takeDigits n (value / 32) := by
  rw [takeDigits, Nat.shiftRight_eq_div_pow]
  congr 1
  exact Nat.and_two_pow_sub_one_eq_mod value 5

@[simp] theorem length_takeDigits (n value : Nat) : (takeDigits n value).length = n := by
  induction n generalizing value with
  | zero => rfl
  | succ n ih => rw [takeDigits_succ, List.length_cons, ih]

theorem takeDigits_lt {n value : Nat} : ∀ d ∈ takeDigits n value, d < 32 := by
  induction n generalizing value with
  | zero => exact fun d hd => nomatch hd
  | succ n ih =>
    intro d hd
    rw [takeDigits_succ] at hd
    rcases List.mem_cons.1 hd with rfl | hd
    · exact Nat.mod_lt _ (by decide)
    · exact ih d hd

theorem takeDigits_add (m n value : Nat) :
    takeDigits (m + n) value = takeDigits m value ++ takeDigits n (value / 32 ^ m) := by
  induction m generalizing value with
  | zero => rw [Nat.zero_add, Nat.pow_zero, Nat.div_one, takeDigits, List.nil_append]
  | succ m ih =>
    rw [Nat.succ_add_eq_add_succ, Nat.add_succ, takeDigits_succ, takeDigits_succ, ih,
      List.cons_append, Nat.div_div_eq_div_mul, Nat.pow_succ']

/-- The digits determine a value that has no more of them. -/
theorem takeDigits_injective {a b : Nat} (ha : a < 32 ^ n) (hb : b < 32 ^ n)
    (h : takeDigits n a = takeDigits n b) : a = b := by
  induction n generalizing a b with
  | zero => omega
  | succ n ih =>
    rw [takeDigits_succ, takeDigits_succ, List.cons.injEq] at h
    rw [Nat.pow_succ] at ha hb
    have hdiv := ih (Nat.div_lt_of_lt_mul (by omega)) (Nat.div_lt_of_lt_mul (by omega)) h.2
    have hmod := h.1
    omega

theorem codes_injective {l l' : List Nat} (hl : ∀ d ∈ l, d < 32) (hl' : ∀ d ∈ l', d < 32)
    (h : l.map (fun d => (digitChar d).toNat) = l'.map fun d => (digitChar d).toNat) : l = l' := by
  have hall : ∀ d < 32, ∀ d' < 32, (digitChar d).toNat = (digitChar d').toNat → d = d' := by
    decide
  induction l generalizing l' with
  | nil => exact (List.map_eq_nil_iff.1 h.symm).symm
  | cons d l ih =>
    cases l' with
    | nil => cases h
    | cons d' l' =>
      rw [List.map_cons, List.map_cons, List.cons.injEq] at h
      rw [List.forall_mem_cons] at hl hl'
      rw [hall d hl.1 d' hl'.1 h.1, ih hl.2 hl'.2 h.2]

theorem digitChar_toNat {d : Nat} (hd : d < 32) : (digitChar d).toNat ≤ 90 := by
  have hall : ∀ d < 32, (digitChar d).toNat ≤ 90 := by decide
  exact hall d hd

/-- Five bits a character, the first eight characters hold the value without its last 90 bits. -/
theorem take_encode (value : Nat) : (encode128bit value).toList.take 8 =
    ((takeDigits 8 (value / 32 ^ 18)).map digitChar).reverse := by
  have hlen : ((takeDigits 8 (value / 32 ^ 18)).map digitChar).reverse.length = 8 := by
    rw [List.length_reverse, List.length_map, length_takeDigits]
  rw [encode128bit, String.toList_ofList, takeDigits_add 18 8 value, List.map_append,
    List.reverse_append]
  exact List.take_left' hlen

theorem Generator.Sound.value (h : Sound g) :
    g.value = g.lastTimestampMs.toNat * 2 ^ 80 + g.lastRandom := by
  rw [Generator.value, ← Nat.shiftLeft_add_eq_or_of_lt h.random, Nat.shiftLeft_eq]

/-- These are the time without its last ten bits. -/
theorem Generator.Sound.head (h : Sound g) :
    g.value / 32 ^ 18 = g.lastTimestampMs.toNat / 1024 := by
  have hr := h.random
  rw [h.value]
  omega

theorem parsedId_encode (value : Nat) : parsedId (encode128bit value) =
    Nat.ofDigits 256 ((takeDigits 8 (value / 32 ^ 18)).map fun d => (digitChar d).toNat) + 1 := by
  have hdigits : ((encode128bit value).toList.take 8 |>.map Char.toNat).reverse =
      (takeDigits 8 (value / 32 ^ 18)).map fun d => (digitChar d).toNat := by
    rw [take_encode, List.map_reverse, List.reverse_reverse, List.map_map]
    rfl
  rw [parsedId, hdigits, Nat.mod_eq_of_lt]
  have hsplit := takeDigits_add 7 1 (value / 32 ^ 18)
  have hlow : Nat.ofDigits 256 ((takeDigits 7 (value / 32 ^ 18)).map
      fun d => (digitChar d).toNat) < 256 ^ 7 := by
    have hlt := Nat.ofDigits_lt_base_pow_length (b := 256) (by decide)
      (l := (takeDigits 7 (value / 32 ^ 18)).map fun d => (digitChar d).toNat) (by
        intro x hx
        obtain ⟨d, hd, rfl⟩ := List.mem_map.1 hx
        exact Nat.lt_of_le_of_lt (digitChar_toNat (takeDigits_lt d hd)) (by decide))
    rw [List.length_map, length_takeDigits] at hlt
    exact hlt
  -- the first character is at most Z, so the number has no 64th bit
  have htop : (digitChar (value / 32 ^ 18 / 32 ^ 7 % 32)).toNat ≤ 90 :=
    digitChar_toNat (Nat.mod_lt _ (by decide))
  have hlast : takeDigits 1 (value / 32 ^ 18 / 32 ^ 7) = [value / 32 ^ 18 / 32 ^ 7 % 32] :=
    takeDigits_succ 0 _
  rw [hsplit, hlast, List.map_append, Nat.ofDigits_append, List.length_map, length_takeDigits,
    List.map_singleton, Nat.ofDigits_singleton]
  omega

/-- Two ULIDs give the same row id exactly where their times are in one window of 1024 ms. -/
theorem parsedId_eq_iff (h : Generator.Sound g) (h' : Generator.Sound g') :
    parsedId g.ulid = parsedId g'.ulid ↔
      g.lastTimestampMs.toNat / 1024 = g'.lastTimestampMs.toNat / 1024 := by
  rw [Generator.ulid, Generator.ulid, parsedId_encode, parsedId_encode, h.head, h'.head]
  constructor
  · intro heq
    have hbytes : ∀ n : Nat, ∀ x ∈ (takeDigits 8 n).map fun d => (digitChar d).toNat, x < 256 := by
      intro n x hx
      obtain ⟨d, hd, rfl⟩ := List.mem_map.1 hx
      exact Nat.lt_of_le_of_lt (digitChar_toNat (takeDigits_lt d hd)) (by decide)
    have hlist := Nat.ofDigits_inj_of_len_eq (b := 256) (by decide)
      (by rw [List.length_map, List.length_map, length_takeDigits, length_takeDigits])
      (hbytes _) (hbytes _) (Nat.succ.inj heq)
    have ht := h.timestamp
    have ht' := h'.timestamp
    refine takeDigits_injective (n := 8) (by omega) (by omega) ?_
    exact codes_injective takeDigits_lt takeDigits_lt hlist
  · exact fun heq => by rw [heq]

end Ulid
