import Mathlib.Algebra.GroupWithZero.Nat
import Mathlib.Algebra.Order.BigOperators.Group.List
import Mathlib.Algebra.Order.Group.Nat
import Mathlib.Data.List.Dedup
import Mathlib.Data.List.TakeWhile
import Mathlib.Tactic.SplitIfs

/-- A value that `json.loads` returns. A string is a list of code points, since an escape can
spell a lone surrogate; the members of an object stand in the order of the text. -/
inductive Json where
  | null
  | bool (b : Bool)
  | int (n : Int)
  | float (lexeme : String)
  | str (s : List Nat)
  | list (xs : List Json)
  | dict (members : List (List Nat × Json))

namespace Json
set_option autoImplicit true

def isWs (c : Char) : Bool := c = ' ' || c = '\t' || c = '\n' || c = '\r'

def skipWs (cs : List Char) : List Char := cs.dropWhile isWs

def hexDigit (c : Char) : Option Nat :=
  if c.isDigit then some (c.toNat - '0'.toNat)
  else if 'a' ≤ c ∧ c ≤ 'f' then some (c.toNat - 'a'.toNat + 10)
  else if 'A' ≤ c ∧ c ≤ 'F' then some (c.toNat - 'A'.toNat + 10)
  else none

def hex4 (a b c d : Char) : Option Nat := do
  let a ← hexDigit a
  let b ← hexDigit b
  let c ← hexDigit c
  let d ← hexDigit d
  return ((a * 16 + b) * 16 + c) * 16 + d

/-- The character that follows a backslash. -/
def escape : Char → Option Nat
  | '"' => some '"'.toNat
  | '\\' => some '\\'.toNat
  | '/' => some '/'.toNat
  | 'b' => some 8
  | 'f' => some 12
  | 'n' => some 10
  | 'r' => some 13
  | 't' => some 9
  | _ => none

/-- The rest of a string literal, as code units. Control characters are refused. -/
def units : List Char → Option (List Nat × List Char)
  | [] => none
  | '"' :: cs => some ([], cs)
  | '\\' :: 'u' :: a :: b :: c :: d :: cs => do
    let u ← hex4 a b c d
    let (us, cs) ← units cs
    return (u :: us, cs)
  | '\\' :: c :: cs => do
    let u ← escape c
    let (us, cs) ← units cs
    return (u :: us, cs)
  | c :: cs =>
    if c.toNat ≤ 31 ∨ c = '\\' then none
    else do
      let (us, cs) ← units cs
      return (c.toNat :: us, cs)

/-- A high surrogate and the low one after it are one character. -/
def joinSurrogates : List Nat → List Nat
  | [] => []
  | [u] => [u]
  | u :: v :: us =>
    if 0xD800 ≤ u ∧ u ≤ 0xDBFF ∧ 0xDC00 ≤ v ∧ v ≤ 0xDFFF then
      (0x10000 + (u - 0xD800) * 1024 + (v - 0xDC00)) :: joinSurrogates us
    else u :: joinSurrogates (v :: us)

def string (cs : List Char) : Option (List Nat × List Char) := do
  let (us, cs) ← units cs
  return (joinSurrogates us, cs)

def digits (cs : List Char) : List Char × List Char :=
  (cs.takeWhile Char.isDigit, cs.dropWhile Char.isDigit)

def fraction : List Char → List Char × List Char
  | '.' :: cs =>
    let (ds, rest) := digits cs
    if ds = [] then ([], '.' :: cs) else ('.' :: ds, rest)
  | cs => ([], cs)

/-- A sign out of the given ones, if the text starts with one. -/
def sign (signs : List Char) : List Char → List Char × List Char
  | [] => ([], [])
  | c :: cs => if c ∈ signs then ([c], cs) else ([], c :: cs)

def exponent : List Char → List Char × List Char
  | [] => ([], [])
  | e :: cs =>
    if e = 'e' ∨ e = 'E' then
      let (sg, rest) := sign ['+', '-'] cs
      let (ds, rest) := digits rest
      if ds = [] then ([], e :: cs) else (e :: (sg ++ ds), rest)
    else ([], e :: cs)

/-- The integer part: a zero stands alone. -/
def whole : List Char → Option (List Char × List Char)
  | '0' :: cs => some (['0'], cs)
  | cs =>
    let (ds, rest) := digits cs
    if ds = [] then none else some (ds, rest)

def number (cs : List Char) : Option (Json × List Char) := do
  let (sg, cs) := sign ['-'] cs
  let (ds, cs) ← whole cs
  let (fr, cs) := fraction cs
  let (ex, cs) := exponent cs
  let n := Nat.ofDigitChars 10 ds 0
  if fr = [] ∧ ex = [] then
    return (.int (if sg = [] then n else -n), cs)
  else
    return (.float (String.ofList (sg ++ ds ++ fr ++ ex)), cs)

/-- The words that stand for a value. -/
def constants : List (String × Json) :=
  [("null", .null), ("true", .bool true), ("false", .bool false), ("NaN", .float "nan"),
    ("Infinity", .float "inf"), ("-Infinity", .float "-inf")]

def constant (cs : List Char) : Option (Json × List Char) :=
  constants.findSome? fun w =>
    if w.1.toList.isPrefixOf cs then some (w.2, cs.drop w.1.length) else none

mutual

/-- One value at the front of the text, and what follows it. -/
def value : Nat → List Char → Option (Json × List Char)
  | 0, _ => none
  | _ + 1, [] => none
  | f + 1, c :: cs =>
    if c = '"' then do
      let (s, cs) ← string cs
      return (.str s, cs)
    else if c = '\x7b' then
      match skipWs cs with
      | '\x7d' :: cs => some (.dict [], cs)
      | cs => do
        let (ms, cs) ← members f cs
        return (.dict ms, cs)
    else if c = '[' then
      match skipWs cs with
      | ']' :: cs => some (.list [], cs)
      | cs => do
        let (xs, cs) ← elements f cs
        return (.list xs, cs)
    else
      match constant (c :: cs) with
      | some r => some r
      | none => number (c :: cs)

/-- The elements of an array, up to its closing bracket. -/
def elements : Nat → List Char → Option (List Json × List Char)
  | 0, _ => none
  | f + 1, cs => do
    let (x, cs) ← value f cs
    match skipWs cs with
    | ']' :: cs => return ([x], cs)
    | ',' :: cs => do
      let (xs, cs) ← elements f (skipWs cs)
      return (x :: xs, cs)
    | _ => none

/-- The members of an object, up to its closing brace. -/
def members : Nat → List Char → Option (List (List Nat × Json) × List Char)
  | 0, _ => none
  | _ + 1, [] => none
  | f + 1, c :: cs =>
    if c = '"' then do
      let (k, cs) ← string cs
      match skipWs cs with
      | ':' :: cs => do
        let (x, cs) ← value f (skipWs cs)
        match skipWs cs with
        | '\x7d' :: cs => return ([(k, x)], cs)
        | ',' :: cs => do
          let (ms, cs) ← members f (skipWs cs)
          return ((k, x) :: ms, cs)
        | _ => none
      | _ => none
    else none

end

/-- `json.loads`: one value with white space around it, and no byte order mark before it. -/
def loads (text : String) : Option Json :=
  let cs := text.toList
  if cs.head? = some '\uFEFF' then none
  else do
    let (v, rest) ← value (2 * cs.length + 2) (skipWs cs)
    if skipWs rest = [] then some v else none


mutual

/-- No text shorter than its weight spells the value. -/
def weight : Json → Nat
  | .str s => s.length + 2
  | .list xs => 1 + elementWeights xs
  | .dict ms => 1 + memberWeights ms
  | _ => 0

def elementWeights : List Json → Nat
  | [] => 0
  | x :: xs => weight x + 1 + elementWeights xs

def memberWeights : List (List Nat × Json) → Nat
  | [] => 0
  | (k, x) :: ms => k.length + 3 + weight x + 1 + memberWeights ms

end

theorem skipWs_length (cs : List Char) : (skipWs cs).length ≤ cs.length :=
  List.length_dropWhile_le _ cs

theorem units_length (h : units cs = some (us, rest)) :
    us.length + rest.length + 1 ≤ cs.length := by
  fun_induction units cs generalizing us rest with
  | case1 => cases h
  | case2 cs =>
    cases h
    simp only [List.length_nil, List.length_cons]
    omega
  | case3 a b c d cs ih =>
    simp only [Option.bind_eq_bind, Option.bind_eq_some_iff] at h
    obtain ⟨u, hu, ⟨us', rest'⟩, hr, h⟩ := h
    cases h
    have hl := ih hr
    simp only [List.length_cons] at hl ⊢
    omega
  | case4 c cs hne ih =>
    simp only [Option.bind_eq_bind, Option.bind_eq_some_iff] at h
    obtain ⟨u, hu, ⟨us', rest'⟩, hr, h⟩ := h
    cases h
    have hl := ih hr
    simp only [List.length_cons] at hl ⊢
    omega
  | case5 c cs => cases h
  | case6 c cs _ _ _ _ ih =>
    simp only [Option.bind_eq_bind, Option.bind_eq_some_iff] at h
    obtain ⟨⟨us', rest'⟩, hr, h⟩ := h
    cases h
    have hl := ih hr
    simp only [List.length_cons] at hl ⊢
    omega

theorem joinSurrogates_length (us : List Nat) : (joinSurrogates us).length ≤ us.length := by
  fun_induction joinSurrogates us with
  | case1 => exact Nat.le_refl _
  | case2 u => exact Nat.le_refl _
  | case3 u v us hp ih =>
    simp only [List.length_cons]
    omega
  | case4 u v us hp ih =>
    simp only [List.length_cons] at ih ⊢
    omega

theorem string_length (h : string cs = some (s, rest)) :
    s.length + rest.length + 1 ≤ cs.length := by
  rw [string, Option.bind_eq_bind, Option.bind_eq_some_iff] at h
  obtain ⟨⟨us, rest'⟩, hu, h⟩ := h
  cases h
  have hl := units_length hu
  have hj := joinSurrogates_length us
  omega

theorem digits_length (cs : List Char) : (digits cs).2.length ≤ cs.length :=
  List.length_dropWhile_le _ cs

theorem sign_length (signs cs : List Char) : (sign signs cs).2.length ≤ cs.length := by
  fun_cases sign signs cs with
  | case1 => exact Nat.le_refl _
  | case2 c cs hc => exact Nat.le_succ _
  | case3 c cs hc => exact Nat.le_refl _

theorem fraction_length (cs : List Char) : (fraction cs).2.length ≤ cs.length := by
  fun_cases fraction cs with
  | case1 cs rest hd => exact Nat.le_refl _
  | case2 cs ds rest hd hne =>
    have hl := digits_length cs
    rw [hd] at hl
    exact Nat.le_succ_of_le hl
  | case3 cs hne => exact Nat.le_refl _

theorem exponent_length (cs : List Char) : (exponent cs).2.length ≤ cs.length := by
  fun_cases exponent cs with
  | case1 => exact Nat.le_refl _
  | case2 e cs he sg rest hs rest' hd => exact Nat.le_refl _
  | case3 e cs he sg rest hs ds rest' hd hne =>
    have hl := sign_length ['+', '-'] cs
    have hl' := digits_length rest
    rw [hs] at hl
    rw [hd] at hl'
    exact Nat.le_succ_of_le (hl'.trans hl)
  | case4 e cs he => exact Nat.le_refl _

theorem whole_length (h : whole cs = some (ds, rest)) : rest.length + 1 ≤ cs.length := by
  unfold whole at h
  split at h
  next cs =>
    cases h
    exact Nat.le_refl _
  next _ hz =>
    dsimp only at h
    split_ifs at h with hne
    cases h
    have hl := congrArg List.length (List.takeWhile_append_dropWhile (p := Char.isDigit) (l := cs))
    have hpos := List.length_pos_iff.2 hne
    rw [List.length_append] at hl
    simp only [digits] at hpos ⊢
    omega

theorem number_length (h : number cs = some (v, rest)) :
    weight v = 0 ∧ rest.length + 1 ≤ cs.length := by
  simp only [number, Option.bind_eq_bind, Option.bind_eq_some_iff] at h
  obtain ⟨⟨ds, cs'⟩, hw, h⟩ := h
  have hs := sign_length ['-'] cs
  have hw' := whole_length hw
  have hf := fraction_length cs'
  have he := exponent_length (fraction cs').2
  dsimp only at h
  split at h
  all_goals
    cases h
    refine ⟨rfl, ?_⟩
    omega

theorem constant_length (h : constant cs = some (v, rest)) :
    weight v = 0 ∧ rest.length + 1 ≤ cs.length := by
  obtain ⟨⟨w, u⟩, hm, hw⟩ := List.exists_of_findSome?_eq_some h
  dsimp only at hw
  split at hw
  case isFalse => cases hw
  case isTrue hp =>
    cases hw
    have hle := (List.isPrefixOf_iff_prefix.1 hp).length_le
    have hc : weight v = 0 ∧ 1 ≤ w.toList.length := by
      simp only [constants, List.mem_cons, Prod.mk.injEq, List.not_mem_nil, or_false] at hm
      rcases hm with ⟨rfl, rfl⟩ | ⟨rfl, rfl⟩ | ⟨rfl, rfl⟩ | ⟨rfl, rfl⟩ | ⟨rfl, rfl⟩ | ⟨rfl, rfl⟩
      all_goals exact ⟨rfl, by decide⟩
    refine ⟨hc.1, ?_⟩
    rw [List.length_drop, ← String.length_toList]
    omega

/-- A value takes at least its weight off the text. -/
theorem parse_length (f : Nat) :
    (∀ {cs v rest}, value f cs = some (v, rest) →
      weight v + rest.length ≤ cs.length ∧ rest.length + 1 ≤ cs.length) ∧
    (∀ {cs xs rest}, elements f cs = some (xs, rest) →
      elementWeights xs + rest.length ≤ cs.length) ∧
    (∀ {cs ms rest}, members f cs = some (ms, rest) →
      memberWeights ms + rest.length ≤ cs.length) := by
  induction f with
  | zero =>
    refine ⟨?_, ?_, ?_⟩
    · intro cs v rest h
      cases cs <;> cases h
    · intro cs v rest h
      cases h
    · intro cs v rest h
      cases cs <;> cases h
  | succ f ih =>
    obtain ⟨ihv, ihe, ihm⟩ := ih
    refine ⟨?_, ?_, ?_⟩
    · intro cs v rest h
      cases cs with
      | nil => cases h
      | cons c cs =>
        rw [value] at h
        have hl := skipWs_length cs
        simp only [List.length_cons]
        split_ifs at h
        · simp only [Option.bind_eq_bind, Option.bind_eq_some_iff] at h
          obtain ⟨⟨s, rest'⟩, hs, h⟩ := h
          cases h
          have hs' := string_length hs
          simp only [weight]
          omega
        · split at h
          next cs' he =>
            cases h
            rw [he] at hl
            simp only [weight, memberWeights, List.length_cons] at hl ⊢
            omega
          next =>
            simp only [Option.bind_eq_bind, Option.bind_eq_some_iff] at h
            obtain ⟨⟨ms, rest'⟩, hm, h⟩ := h
            cases h
            have hm' := ihm hm
            simp only [weight]
            omega
        · split at h
          next cs' he =>
            cases h
            rw [he] at hl
            simp only [weight, elementWeights, List.length_cons] at hl ⊢
            omega
          next =>
            simp only [Option.bind_eq_bind, Option.bind_eq_some_iff] at h
            obtain ⟨⟨ms, rest'⟩, hm, h⟩ := h
            cases h
            have hm' := ihe hm
            simp only [weight]
            omega
        · split at h
          next r hc =>
            cases h
            have hc' := constant_length hc
            rw [hc'.1]
            simp only [List.length_cons] at hc'
            omega
          next hc =>
            have hn := number_length h
            rw [hn.1]
            simp only [List.length_cons] at hn
            omega
    · intro cs xs rest h
      simp only [elements, Option.bind_eq_bind, Option.bind_eq_some_iff] at h
      obtain ⟨⟨x, rest'⟩, hx, h⟩ := h
      have hx' := (ihv hx).1
      have hl := skipWs_length rest'
      dsimp only at h
      split at h
      next cs' he =>
        cases h
        rw [he] at hl
        simp only [elementWeights, List.length_cons] at hl ⊢
        omega
      next cs' he =>
        simp only [Option.bind_eq_some_iff] at h
        obtain ⟨⟨xs', rest''⟩, hxs, h⟩ := h
        cases h
        have hxs' := ihe hxs
        have hl' := skipWs_length cs'
        rw [he] at hl
        simp only [elementWeights, List.length_cons] at hl ⊢
        omega
      next => cases h
    · intro cs ms rest h
      cases cs with
      | nil => cases h
      | cons c cs =>
        rw [members] at h
        split_ifs at h
        simp only [Option.bind_eq_bind, Option.bind_eq_some_iff] at h
        obtain ⟨⟨k, rest₁⟩, hk, h⟩ := h
        have hk' := string_length hk
        have hl₁ := skipWs_length rest₁
        dsimp only at h
        split at h
        next rest₂ he =>
          rw [he] at hl₁
          simp only [Option.bind_eq_some_iff] at h
          obtain ⟨⟨x, rest₃⟩, hx, h⟩ := h
          have hx' := (ihv hx).1
          have hl₂ := skipWs_length rest₂
          have hl₃ := skipWs_length rest₃
          dsimp only at h
          split at h
          next rest₄ he' =>
            cases h
            rw [he'] at hl₃
            simp only [memberWeights, List.length_cons] at hl₁ hl₃ ⊢
            omega
          next rest₄ he' =>
            simp only [Option.bind_eq_some_iff] at h
            obtain ⟨⟨ms', rest₅⟩, hms, h⟩ := h
            cases h
            have hms' := ihm hms
            have hl₄ := skipWs_length rest₄
            rw [he'] at hl₃
            simp only [memberWeights, List.length_cons] at hl₁ hl₃ ⊢
            omega
          next => cases h
        next => cases h

/-- No text shorter than the weight of a value spells it. -/
theorem loads_weight (h : loads text = some v) : weight v ≤ text.length := by
  unfold loads at h
  dsimp only at h
  split_ifs at h
  simp only [Option.bind_eq_bind, Option.bind_eq_some_iff] at h
  obtain ⟨⟨u, rest⟩, hv, h⟩ := h
  dsimp only at h
  split_ifs at h
  cases h
  have hl := ((parse_length _).1 hv).1
  have hs := skipWs_length text.toList
  rw [String.length_toList] at hs
  omega

/-- Fuel beyond twice the length of the text changes nothing. -/
theorem parse_fuel (f : Nat) :
    (∀ {g cs}, 2 * cs.length + 1 ≤ f → 2 * cs.length + 1 ≤ g → value f cs = value g cs) ∧
    (∀ {g cs}, 2 * cs.length + 2 ≤ f → 2 * cs.length + 2 ≤ g →
      elements f cs = elements g cs) ∧
    (∀ {g cs}, 2 * cs.length + 2 ≤ f → 2 * cs.length + 2 ≤ g →
      members f cs = members g cs) := by
  induction f with
  | zero =>
    refine ⟨?_, ?_, ?_⟩
    all_goals
      intro g cs hf hg
      omega
  | succ f ih =>
    obtain ⟨ihv, ihe, ihm⟩ := ih
    refine ⟨?_, ?_, ?_⟩
    · intro g cs hf hg
      cases g with
      | zero => omega
      | succ g =>
        cases cs with
        | nil => rfl
        | cons c cs =>
          have hl := skipWs_length cs
          simp only [List.length_cons] at hf hg
          have he := @ihe g (skipWs cs) (by omega) (by omega)
          have hm := @ihm g (skipWs cs) (by omega) (by omega)
          simp only [value]
          generalize skipWs cs = ws at he hm
          split_ifs
          · rfl
          · split
            next => rfl
            next => rw [hm]
          · split
            next => rfl
            next => rw [he]
          · rfl
    · intro g cs hf hg
      cases g with
      | zero => omega
      | succ g =>
        have hv := @ihv g cs (by omega) (by omega)
        simp only [elements, hv]
        cases hx : value g cs with
        | none => rfl
        | some r =>
          obtain ⟨x, rest⟩ := r
          have hl := ((parse_length g).1 hx).2
          have hw := skipWs_length rest
          simp only [Option.bind_eq_bind, Option.bind_some]
          split
          next => rfl
          next rest' hc =>
            have hw' := skipWs_length rest'
            rw [hc, List.length_cons] at hw
            rw [@ihe g (skipWs rest') (by omega) (by omega)]
          next => rfl
    · intro g cs hf hg
      cases g with
      | zero => omega
      | succ g =>
        cases cs with
        | nil => rfl
        | cons c cs =>
          simp only [List.length_cons] at hf hg
          simp only [members]
          split_ifs
          · cases hk : string cs with
            | none => rfl
            | some r =>
              obtain ⟨k, rest⟩ := r
              have hl := string_length hk
              have hw := skipWs_length rest
              simp only [Option.bind_eq_bind, Option.bind_some]
              split
              next rest₁ hc =>
                have hw₁ := skipWs_length rest₁
                rw [hc, List.length_cons] at hw
                rw [@ihv g (skipWs rest₁) (by omega) (by omega)]
                cases hx : value g (skipWs rest₁) with
                | none => rfl
                | some r =>
                  obtain ⟨x, rest₂⟩ := r
                  have hl₂ := ((parse_length g).1 hx).2
                  have hw₂ := skipWs_length rest₂
                  simp only [Option.bind_some]
                  split
                  next => rfl
                  next rest₃ hc₃ =>
                    have hw₃ := skipWs_length rest₃
                    rw [hc₃, List.length_cons] at hw₂
                    rw [@ihm g (skipWs rest₃) (by omega) (by omega)]
                  next => rfl
              next => rfl
          · rfl

theorem value_str (h : value f (c :: cs) = some (.str s, rest)) :
    c = '"' ∧ ∃ rest', string cs = some (s, rest') := by
  cases f with
  | zero => cases h
  | succ f =>
    rw [value] at h
    split_ifs at h with hq
    · simp only [Option.bind_eq_bind, Option.bind_eq_some_iff] at h
      obtain ⟨⟨s', rest'⟩, hs, h⟩ := h
      cases h
      exact ⟨hq, rest', hs⟩
    · split at h
      · cases h
      · simp only [Option.bind_eq_bind, Option.bind_eq_some_iff] at h
        obtain ⟨ms, hm, h⟩ := h
        cases h
    · split at h
      · cases h
      · simp only [Option.bind_eq_bind, Option.bind_eq_some_iff] at h
        obtain ⟨xs, hx, h⟩ := h
        cases h
    · split at h
      next hc =>
        cases h
        exact absurd (constant_length hc).1 (by simp only [weight]; omega)
      next =>
        exact absurd (number_length h).1 (by simp only [weight]; omega)

/-- The text of a string is a quotation mark, after white space. -/
theorem loads_str (h : loads text = some (.str s)) :
    ∃ cs rest, skipWs text.toList = '"' :: cs ∧ string cs = some (s, rest) := by
  unfold loads at h
  dsimp only at h
  split_ifs at h
  simp only [Option.bind_eq_bind, Option.bind_eq_some_iff] at h
  obtain ⟨⟨u, rest⟩, hv, h⟩ := h
  dsimp only at h
  split_ifs at h
  cases h
  cases hw : skipWs text.toList with
  | nil =>
    rw [hw] at hv
    cases hv
  | cons c cs =>
    rw [hw] at hv
    obtain ⟨hc, rest', hs⟩ := value_str hv
    subst hc
    exact ⟨cs, rest', rfl, hs⟩

theorem joinSurrogates_char (c : Char) (us : List Nat) :
    (joinSurrogates (c.toNat :: us)).head? = some c.toNat := by
  have hv : c.toNat < 0xD800 ∨ 0xDFFF < c.toNat := by
    rcases c.valid with h | h
    · exact .inl h
    · exact .inr h.1
  cases us with
  | nil => rfl
  | cons u us =>
    rw [joinSurrogates, if_neg (by omega)]
    rfl

/-- A plain character at the front of a literal is the first of the string. -/
theorem string_head (h : string (c :: cs) = some (s, rest)) (hq : c ≠ '"') (hb : c ≠ '\\') :
    s.head? = some c.toNat := by
  rw [string, Option.bind_eq_bind, Option.bind_eq_some_iff] at h
  obtain ⟨⟨us, rest'⟩, hu, h⟩ := h
  cases h
  unfold units at hu
  split at hu
  next he => cases he
  next he => exact (hq (List.cons.inj he).1).elim
  next he => exact (hb (List.cons.inj he).1).elim
  next he => exact (hb (List.cons.inj he).1).elim
  next he =>
    cases he
    split_ifs at hu
    simp only [Option.bind_eq_bind, Option.bind_eq_some_iff] at hu
    obtain ⟨⟨us', rest''⟩, _, hu⟩ := hu
    cases hu
    exact joinSurrogates_char c us'

/-- The string with the characters of a text. -/
def text (s : String) : Json := .str (s.toList.map Char.toNat)

@[simp] theorem weight_text (s : String) : weight (text s) = s.length + 2 := by
  rw [text, weight, List.length_map, String.length_toList]

/-- The keys of an object, each once, where it first stands. -/
def keys (ms : List (List Nat × Json)) : List (List Nat) :=
  ((ms.map Prod.fst).reverse.dedup).reverse

/-- What iterating over a value yields; a number, a constant or null has no length. -/
def items : Json → Option (List Json)
  | .str s => some (s.map fun u => .str [u])
  | .list xs => some xs
  | .dict ms => some ((keys ms).map .str)
  | _ => none

theorem keys_weight (ms : List (List Nat × Json)) :
    ((keys ms).map fun k => k.length + 4).sum ≤ memberWeights ms := by
  have hs : (keys ms).Sublist (ms.map Prod.fst) := by
    have h := (List.dedup_sublist (ms.map Prod.fst).reverse).reverse
    rwa [List.reverse_reverse] at h
  have hle : ((keys ms).map fun k => k.length + 4).sum ≤
      ((ms.map Prod.fst).map fun k => k.length + 4).sum := (hs.map _).sum_le_sum (by simp)
  apply hle.trans
  clear hs hle
  induction ms with
  | nil => exact Nat.le_refl _
  | cons m ms ih =>
    obtain ⟨k, x⟩ := m
    simp only [List.map_cons, List.sum_cons, memberWeights] at ih ⊢
    omega

theorem elementWeights_eq (xs : List Json) :
    elementWeights xs = (xs.map fun x => weight x + 1).sum := by
  induction xs with
  | nil => rfl
  | cons x xs ih => rw [elementWeights, ih, List.map_cons, List.sum_cons]

end Json
