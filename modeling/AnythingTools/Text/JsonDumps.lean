import AnythingTools.Text.JsonDocuments

namespace Text
open Json
set_option autoImplicit true

variable {c d : Char} {cs rest : List Char}

/-! ### Floats -/

/-- The digits of an integer part: a zero stands alone. -/
def IsWhole (ds : List Char) : Prop :=
  ds = ['0'] ∨ ds ≠ [] ∧ ds.head? ≠ some '0' ∧ ∀ c ∈ ds, c.isDigit = true

def IsFraction (fr : List Char) : Prop :=
  fr = [] ∨ ∃ ds, ds ≠ [] ∧ (∀ c ∈ ds, c.isDigit = true) ∧ fr = '.' :: ds

def IsExponent (ex : List Char) : Prop :=
  ex = [] ∨ ∃ sg ds, (sg = [] ∨ sg = ['-'] ∨ sg = ['+']) ∧ ds ≠ [] ∧
    (∀ c ∈ ds, c.isDigit = true) ∧ ex = 'e' :: (sg ++ ds)

/-- The number that is no integer: it has a fraction or an exponent. -/
def IsFloat (cs : List Char) : Prop :=
  ∃ sg ds fr ex, (sg = [] ∨ sg = ['-']) ∧ IsWhole ds ∧ IsFraction fr ∧ IsExponent ex ∧
    ¬(fr = [] ∧ ex = []) ∧ cs = sg ++ ds ++ fr ++ ex

/-- `repr` of the float that a lexeme stands for. Reading it back gives the same float. -/
structure FloatText where
  repr : String → String
  idem : ∀ lexeme, repr (repr lexeme) = repr lexeme
  spelled : ∀ lexeme, repr lexeme ∈ ["nan", "inf", "-inf"] ∨ IsFloat (repr lexeme).toList

/-- `float.__repr__` in the encoder, which has words of its own for what is no number. -/
def floatText (repr : String) : List Char :=
  if repr = "nan" then "NaN".toList
  else if repr = "inf" then "Infinity".toList
  else if repr = "-inf" then "-Infinity".toList
  else repr.toList

/-! ### The encoder -/

def intText (n : Int) : List Char :=
  if n < 0 then '-' :: Nat.toDigits 10 n.natAbs else Nat.toDigits 10 n.natAbs

/-- `\uXXXX`. -/
def unitText (u : Nat) : List Char :=
  ['\\', 'u', (u / 4096 % 16).digitChar, (u / 256 % 16).digitChar, (u / 16 % 16).digitChar,
    (u % 16).digitChar]

/-- A character in a literal. With `ensure_ascii` one beyond the first plane is a pair of
surrogates. -/
def charText (ensureAscii : Bool) (u : Nat) : List Char :=
  if u = 34 then ['\\', '"']
  else if u = 92 then ['\\', '\\']
  else if u = 10 then ['\\', 'n']
  else if u = 13 then ['\\', 'r']
  else if u = 9 then ['\\', 't']
  else if u = 8 then ['\\', 'b']
  else if u = 12 then ['\\', 'f']
  else if u < 32 then unitText u
  else if ensureAscii = false ∨ u < 127 then [Char.ofNat u]
  else if u < 0x10000 then unitText u
  else unitText (0xD800 + (u - 0x10000) / 1024) ++ unitText (0xDC00 + (u - 0x10000) % 1024)

def stringText (ensureAscii : Bool) (s : List Nat) : List Char :=
  '"' :: (s.flatMap (charText ensureAscii) ++ ['"'])

mutual

/-- `json.dumps` with the default separators. -/
def dumps (F : FloatText) (ensureAscii : Bool) : Json → List Char
  | .null => "null".toList
  | .bool b => if b then "true".toList else "false".toList
  | .int n => intText n
  | .float lexeme => floatText (F.repr lexeme)
  | .str s => stringText ensureAscii s
  | .list xs => '[' :: (elementTexts F ensureAscii xs ++ [']'])
  | .dict ms => '\x7b' :: (memberTexts F ensureAscii ms ++ ['\x7d'])

def elementTexts (F : FloatText) (ensureAscii : Bool) : List Json → List Char
  | [] => []
  | x :: xs =>
    dumps F ensureAscii x ++ match xs with
      | [] => []
      | _ :: _ => ',' :: ' ' :: elementTexts F ensureAscii xs

def memberTexts (F : FloatText) (ensureAscii : Bool) : List (List Nat × Json) → List Char
  | [] => []
  | (k, x) :: ms =>
    stringText ensureAscii k ++ ':' :: ' ' :: (dumps F ensureAscii x ++ match ms with
      | [] => []
      | _ :: _ => ',' :: ' ' :: memberTexts F ensureAscii ms)

end

mutual

/-- The value with its floats as `repr` spells them. -/
def canonical (F : FloatText) : Json → Json
  | .float lexeme => .float (F.repr lexeme)
  | .list xs => .list (canonicals F xs)
  | .dict ms => .dict (canonicalMembers F ms)
  | v => v

def canonicals (F : FloatText) : List Json → List Json
  | [] => []
  | x :: xs => canonical F x :: canonicals F xs

def canonicalMembers (F : FloatText) : List (List Nat × Json) → List (List Nat × Json)
  | [] => []
  | (k, x) :: ms => (k, canonical F x) :: canonicalMembers F ms

end

def isHigh (u : Nat) : Bool := decide (0xD800 ≤ u ∧ u ≤ 0xDBFF)

def isLow (u : Nat) : Bool := decide (0xDC00 ≤ u ∧ u ≤ 0xDFFF)

/-- A high surrogate is not followed by a low one: such a pair is one character. -/
def joined : List Nat → Bool
  | u :: v :: us => !(isHigh u && isLow v) && joined (v :: us)
  | _ => true

/-- Without `ensure_ascii` no code point is a surrogate, which no text outside Python can hold. -/
def writableString (ensureAscii : Bool) (s : List Nat) : Bool :=
  joined s && s.all fun u => decide (u < 0x110000) && (ensureAscii || decide u.isValidChar)

mutual

/-- The strings and keys of the value can be written. -/
def writable (ensureAscii : Bool) : Json → Bool
  | .str s => writableString ensureAscii s
  | .list xs => writables ensureAscii xs
  | .dict ms => writableMembers ensureAscii ms
  | _ => true

def writables (ensureAscii : Bool) : List Json → Bool
  | [] => true
  | x :: xs => writable ensureAscii x && writables ensureAscii xs

def writableMembers (ensureAscii : Bool) : List (List Nat × Json) → Bool
  | [] => true
  | (k, x) :: ms =>
    writableString ensureAscii k && writable ensureAscii x && writableMembers ensureAscii ms

end

/-! ### Numbers -/

/-- No number goes on with this text. -/
def Ends (rest : List Char) : Prop :=
  ∀ c, rest.head? = some c → c.isDigit = false ∧ c ≠ '.' ∧ c ≠ 'e' ∧ c ≠ 'E'

theorem digits_append (hds : ∀ c ∈ ds, c.isDigit = true)
    (hrest : ∀ c, rest.head? = some c → c.isDigit = false) : digits (ds ++ rest) = (ds, rest) := by
  have hnone := digits_of_head hrest
  rw [digits, Prod.mk.injEq] at hnone
  rw [digits, List.takeWhile_append_of_pos hds, List.dropWhile_append_of_pos hds, hnone.1, hnone.2,
    List.append_nil]

theorem IsWhole.ne_nil (h : IsWhole ds) : ds ≠ [] := by
  rcases h with rfl | h
  · exact List.cons_ne_nil _ _
  · exact h.1

theorem IsWhole.isDigit (h : IsWhole ds) : ∀ c ∈ ds, c.isDigit = true := by
  rcases h with rfl | h
  · exact List.forall_mem_singleton.2 rfl
  · exact h.2.2

theorem IsWhole.append (h : IsWhole ds) (hrest : ∀ c, rest.head? = some c → c.isDigit = false) :
    whole (ds ++ rest) = some (ds, rest) := by
  rcases h with rfl | ⟨hne, hzero, hds⟩
  · rfl
  · rw [whole_of_head (by rwa [List.head?_append_of_ne_nil _ hne]), digits_append hds hrest,
      if_neg hne]

theorem IsFraction.append (h : IsFraction fr) (hrest : ∀ c, rest.head? = some c → c.isDigit = false)
    (hpoint : fr = [] → rest.head? ≠ some '.') : fraction (fr ++ rest) = (fr, rest) := by
  rcases h with rfl | ⟨ds, hne, hds, rfl⟩
  · exact fraction_of_head (hpoint rfl)
  · rw [List.cons_append, fraction, digits_append hds hrest]
    dsimp only
    rw [if_neg hne]

theorem exponent_of_head (h : ∀ c, cs.head? = some c → c ≠ 'e' ∧ c ≠ 'E') :
    exponent cs = ([], cs) := by
  cases cs with
  | nil => rfl
  | cons c cs =>
    obtain ⟨he, hE⟩ := h c rfl
    rw [exponent, if_neg (by rintro (h | h); exacts [he h, hE h])]

theorem IsExponent.append (h : IsExponent ex) (hrest : Ends rest) :
    exponent (ex ++ rest) = (ex, rest) := by
  rcases h with rfl | ⟨sg, ds, hsg, hne, hds, rfl⟩
  · exact exponent_of_head fun c hc => (hrest c hc).2.2
  · have hdigits := digits_append hds fun c hc => (hrest c hc).1
    have hsign : sign ['+', '-'] (sg ++ ds ++ rest) = (sg, ds ++ rest) := by
      rcases hsg with rfl | rfl | rfl
      · apply sign_of_head
        intro d hd hmem
        rw [List.nil_append, List.head?_append_of_ne_nil _ hne] at hd
        have hdigit := hds d (List.mem_of_mem_head? hd)
        have hplain : ∀ c ∈ ['+', '-'], c.isDigit = false :=
          List.forall_mem_cons.2 ⟨rfl, List.forall_mem_singleton.2 rfl⟩
        rw [hplain d hmem] at hdigit
        cases hdigit
      · rfl
      · rfl
    rw [List.cons_append, exponent, if_pos (.inl rfl), hsign]
    dsimp only
    rw [hdigits]
    dsimp only
    rw [if_neg hne]

theorem IsFraction.ends (h : IsFraction fr) (hrest : Ends rest) :
    ∀ c, (fr ++ rest).head? = some c → c.isDigit = false := by
  rcases h with rfl | ⟨ds, _, _, rfl⟩
  · exact fun c hc => (hrest c hc).1
  · intro c hc
    cases hc
    rfl

theorem IsExponent.ends (h : IsExponent ex) (hrest : Ends rest) :
    ∀ c, (ex ++ rest).head? = some c → c.isDigit = false ∧ c ≠ '.' := by
  rcases h with rfl | ⟨sg, ds, _, _, _, rfl⟩
  · exact fun c hc => ⟨(hrest c hc).1, (hrest c hc).2.1⟩
  · intro c hc
    cases hc
    decide

theorem sign_append (hsg : sg = [] ∨ sg = ['-']) (hds : IsWhole ds) (rest : List Char) :
    sign ['-'] (sg ++ (ds ++ rest)) = (sg, ds ++ rest) := by
  rcases hsg with rfl | rfl
  · apply sign_of_head
    intro d hd hmem
    rw [List.nil_append, List.head?_append_of_ne_nil _ hds.ne_nil] at hd
    have hdigit := hds.isDigit d (List.mem_of_mem_head? hd)
    rw [List.mem_singleton.1 hmem] at hdigit
    cases hdigit
  · rfl

/-- The parts of a number are read back one after the other. -/
theorem number_append (hsg : sg = [] ∨ sg = ['-']) (hds : IsWhole ds) (hfr : IsFraction fr)
    (hex : IsExponent ex) (hrest : Ends rest) :
    number (sg ++ (ds ++ (fr ++ (ex ++ rest)))) = some
      (if fr = [] ∧ ex = [] then
        .int (if sg = [] then Nat.ofDigitChars 10 ds 0 else -Nat.ofDigitChars 10 ds 0)
      else .float (String.ofList (sg ++ ds ++ fr ++ ex)), rest) := by
  have hpoint : fr = [] → (ex ++ rest).head? ≠ some '.' :=
    fun _ h => (hex.ends hrest _ h).2 rfl
  have hdigit : ∀ c, (ex ++ rest).head? = some c → c.isDigit = false :=
    fun c hc => (hex.ends hrest c hc).1
  have hdigit' : ∀ c, (fr ++ (ex ++ rest)).head? = some c → c.isDigit = false := by
    rcases hfr with rfl | ⟨_, _, _, rfl⟩
    · exact hdigit
    · intro c hc
      cases hc
      rfl
  rw [number, sign_append hsg hds]
  dsimp only [Option.bind_eq_bind]
  rw [hds.append hdigit']
  dsimp only [Option.bind_some]
  rw [hfr.append hdigit hpoint]
  dsimp only
  rw [hex.append hrest]
  dsimp only
  split_ifs <;> rfl

/-- The first characters of the words that stand for a value are none of a number. -/
theorem constants_head : ∀ w ∈ constants, ∃ c t, w.1.toList = c :: t ∧ c.isDigit = false ∧
    (c = '-' → t.head? = some 'I') := by
  intro w hw
  have hwords : ∀ w ∈ constants, ((w.1.toList.head?.map Char.isDigit) = some false) ∧
      (w.1.toList.head? = some '-' → w.1.toList.tail.head? = some 'I') := by decide
  obtain ⟨hd, hm⟩ := hwords w hw
  cases hl : w.1.toList with
  | nil =>
    rw [hl] at hd
    cases hd
  | cons c t =>
    rw [hl] at hd hm
    refine ⟨c, t, rfl, Option.some.inj hd, ?_⟩
    rintro rfl
    exact hm rfl

theorem constant_number (hsg : sg = [] ∨ sg = ['-']) (hds : IsWhole ds) (rest : List Char) :
    constant (sg ++ (ds ++ rest)) = none := by
  rw [constant, List.findSome?_eq_none_iff]
  intro w hw
  obtain ⟨c, t, hl, hc, hm⟩ := constants_head w hw
  rw [hl]
  obtain ⟨d, ds, rfl⟩ := List.exists_cons_of_ne_nil hds.ne_nil
  have hd := hds.isDigit d List.mem_cons_self
  apply if_neg
  intro hp
  rw [List.isPrefixOf_iff_prefix] at hp
  rcases hsg with rfl | rfl
  · rw [List.nil_append, List.cons_append, List.cons_prefix_cons] at hp
    rw [hp.1, hd] at hc
    cases hc
  · rw [List.cons_append, List.nil_append, List.cons_prefix_cons] at hp
    have ht := hm hp.1
    obtain ⟨t, rfl⟩ := List.head?_eq_some_iff.1 ht
    rw [List.cons_append, List.cons_prefix_cons] at hp
    rw [← hp.2.1] at hd
    cases hd

theorem head?_toDigits (h : 0 < n) : (Nat.toDigits 10 n).head? ≠ some '0' := by
  induction n using Nat.strongRecOn with
  | _ n ih =>
    rcases Nat.lt_or_ge n 10 with hlt | hle
    · have hdigits : ∀ n < 10, 0 < n → [n.digitChar].head? ≠ some '0' := by decide
      rw [Nat.toDigits_of_lt_base hlt]
      exact hdigits n hlt h
    · rw [Nat.toDigits_of_base_le (by decide) hle, List.head?_append_of_ne_nil _ Nat.toDigits_ne_nil]
      exact ih (n / 10) (by omega) (by omega)

theorem isWhole_toDigits (n : Nat) : IsWhole (Nat.toDigits 10 n) := by
  rcases Nat.eq_zero_or_pos n with rfl | hpos
  · exact .inl rfl
  · exact .inr ⟨Nat.toDigits_ne_nil, head?_toDigits hpos, fun c hc =>
      Nat.isDigit_of_mem_toDigits (by decide) (by decide) hc⟩

theorem scalar_int (n : Int) (hrest : Ends rest) :
    scalar (intText n ++ rest) = some (.int n, rest) := by
  have hds := isWhole_toDigits n.natAbs
  have hparse (sg : List Char) (hsg : sg = [] ∨ sg = ['-']) :
      scalar (sg ++ (Nat.toDigits 10 n.natAbs ++ rest)) =
        some (.int (if sg = [] then n.natAbs else -n.natAbs), rest) := by
    have hnumber := number_append hsg hds (.inl rfl) (.inl rfl) hrest
    rw [List.nil_append, List.nil_append, if_pos ⟨rfl, rfl⟩, Nat.ofDigitChars_ten_toDigits]
      at hnumber
    rw [scalar, constant_number hsg hds]
    exact hnumber
  rw [intText]
  split_ifs with hn
  · have hneg := hparse ['-'] (.inr rfl)
    rw [if_neg (List.cons_ne_nil _ _)] at hneg
    rw [List.cons_append]
    refine hneg.trans ?_
    rw [show -(n.natAbs : Int) = n by omega]
  · have hpos := hparse [] (.inl rfl)
    rw [if_pos rfl] at hpos
    refine hpos.trans ?_
    rw [show (n.natAbs : Int) = n by omega]

theorem scalar_float (h : IsFloat lexeme.toList) (hrest : Ends rest) :
    scalar (lexeme.toList ++ rest) = some (.float lexeme, rest) := by
  obtain ⟨sg, ds, fr, ex, hsg, hds, hfr, hex, hnot, hl⟩ := h
  have hnumber := number_append hsg hds hfr hex hrest
  rw [if_neg hnot, ← hl, String.ofList_toList] at hnumber
  rw [hl, List.append_assoc, List.append_assoc, List.append_assoc, scalar,
    constant_number hsg hds]
  exact hnumber

theorem scalar_floatText (F : FloatText) (lexeme : String) (hrest : Ends rest) :
    scalar (floatText (F.repr lexeme) ++ rest) = some (.float (F.repr lexeme), rest) := by
  rw [floatText]
  split_ifs with hnan hinf hneg
  · rw [hnan]
    rfl
  · rw [hinf]
    rfl
  · rw [hneg]
    rfl
  · rcases F.spelled lexeme with hword | hfloat
    · simp only [List.mem_cons, List.not_mem_nil, or_false] at hword
      rcases hword with h | h | h
      · exact (hnan h).elim
      · exact (hinf h).elim
      · exact (hneg h).elim
    · exact scalar_float hfloat hrest

/-! ### Strings -/

theorem hexDigit_digitChar : ∀ d < 16, hexDigit d.digitChar = some d := by decide

theorem units_unitText (hu : u < 0x10000) (cs : List Char) :
    units (unitText u ++ cs) = (units cs).map fun r => (u :: r.1, r.2) := by
  have hhex : hex4 (u / 4096 % 16).digitChar (u / 256 % 16).digitChar (u / 16 % 16).digitChar
      (u % 16).digitChar = some u := by
    rw [hex4, hexDigit_digitChar _ (by omega), hexDigit_digitChar _ (by omega),
      hexDigit_digitChar _ (by omega), hexDigit_digitChar _ (by omega)]
    dsimp only [Option.bind_eq_bind, Option.bind_some, Option.pure_def]
    congr 1
    omega
  rw [unitText, List.cons_append, List.cons_append, List.cons_append, List.cons_append,
    List.cons_append, List.cons_append, List.nil_append, units, hhex]
  cases units cs <;> rfl

theorem units_escape (h : escape c = some u) (cs : List Char) :
    units ('\\' :: c :: cs) = (units cs).map fun r => (u :: r.1, r.2) := by
  rw [units, h]
  · cases units cs <;> rfl
  · rintro _ _ _ _ _ rfl
    cases h

/-- The code units that a character is read back as. -/
def codeUnits (ensureAscii : Bool) (u : Nat) : List Nat :=
  if ensureAscii = true ∧ 0x10000 ≤ u then
    [0xD800 + (u - 0x10000) / 1024, 0xDC00 + (u - 0x10000) % 1024]
  else [u]

theorem codeUnits_of_lt (ensureAscii : Bool) (h : u < 0x10000) : codeUnits ensureAscii u = [u] :=
  if_neg fun h' => absurd h'.2 (by omega)

theorem toNat_ofNat (h : u.isValidChar) : (Char.ofNat u).toNat = u := by
  rw [Char.ofNat, dif_pos h]
  rfl

theorem units_charText (hmax : u < 0x110000) (h : ensureAscii = true ∨ u.isValidChar)
    (cs : List Char) : units (charText ensureAscii u ++ cs) =
      (units cs).map fun r => (codeUnits ensureAscii u ++ r.1, r.2) := by
  rw [charText]
  split_ifs with hq hb hn hr ht hbs hff hctl hplain hplane
  · subst hq
    rw [codeUnits_of_lt _ (by decide)]
    exact units_escape (c := '"') rfl cs
  · subst hb
    rw [codeUnits_of_lt _ (by decide)]
    exact units_escape (c := '\\') rfl cs
  · subst hn
    rw [codeUnits_of_lt _ (by decide)]
    exact units_escape (c := 'n') rfl cs
  · subst hr
    rw [codeUnits_of_lt _ (by decide)]
    exact units_escape (c := 'r') rfl cs
  · subst ht
    rw [codeUnits_of_lt _ (by decide)]
    exact units_escape (c := 't') rfl cs
  · subst hbs
    rw [codeUnits_of_lt _ (by decide)]
    exact units_escape (c := 'b') rfl cs
  · subst hff
    rw [codeUnits_of_lt _ (by decide)]
    exact units_escape (c := 'f') rfl cs
  · rw [codeUnits_of_lt _ (by omega)]
    exact units_unitText (by omega) cs
  · have hunits : codeUnits ensureAscii u = [u] := by
      rcases hplain with rfl | hlt
      · rfl
      · exact codeUnits_of_lt _ (by omega)
    have hvalid : u.isValidChar := by
      rcases h with htrue | h
      · refine .inl ?_
        have hlt := hplain.resolve_left (by rw [htrue]; decide)
        omega
      · exact h
    have hquote : Char.ofNat u ≠ '"' := by
      intro he
      apply hq
      rw [← toNat_ofNat hvalid, he]
      rfl
    have hslash : Char.ofNat u ≠ '\\' := by
      intro he
      apply hb
      rw [← toNat_ofNat hvalid, he]
      rfl
    rw [hunits, List.singleton_append, units_letter hquote hslash
      (by rw [toNat_ofNat hvalid]; omega), toNat_ofNat hvalid]
    rfl
  · rw [codeUnits_of_lt _ hplane]
    exact units_unitText hplane cs
  · rw [codeUnits, if_pos ⟨by simpa using (not_or.1 hplain).1, by omega⟩, List.append_assoc,
      units_unitText (by omega), units_unitText (by omega), Option.map_map]
    rfl

theorem joinSurrogates_cons (h : isHigh u = true → ∀ v, us.head? = some v → isLow v = false) :
    joinSurrogates (u :: us) = u :: joinSurrogates us := by
  cases us with
  | nil => rfl
  | cons v us =>
    rw [joinSurrogates, if_neg]
    rintro ⟨hlo, hhi, hv⟩
    have hlow := h (decide_eq_true ⟨hlo, hhi⟩) v rfl
    rw [isLow, decide_eq_true hv] at hlow
    cases hlow

theorem joinSurrogates_pair (hu : 0xD800 ≤ u ∧ u ≤ 0xDBFF) (hv : 0xDC00 ≤ v ∧ v ≤ 0xDFFF)
    (us : List Nat) : joinSurrogates (u :: v :: us) =
      (0x10000 + (u - 0xD800) * 1024 + (v - 0xDC00)) :: joinSurrogates us := by
  rw [joinSurrogates, if_pos ⟨hu.1, hu.2, hv.1, hv.2⟩]

theorem joined_cons_iff : joined (u :: us) = true ↔
    (isHigh u = true → ∀ v, us.head? = some v → isLow v = false) ∧ joined us = true := by
  cases us with
  | nil => exact iff_of_true rfl ⟨fun _ _ hv => absurd hv (by simp), rfl⟩
  | cons v us =>
    rw [joined, Bool.and_eq_true, Bool.not_eq_true', Bool.and_eq_false_imp]
    refine and_congr_left' ⟨fun h hu w hw => ?_, fun h hu => h hu v rfl⟩
    cases hw
    exact h hu

/-- The code units begin with a low surrogate only where the string does. -/
theorem head?_codeUnits (hmax : u < 0x110000) (hv : (codeUnits ensureAscii u ++ us).head? = some v)
    (hu : isLow u = false) : isLow v = false := by
  rw [codeUnits] at hv
  split_ifs at hv
  · cases hv
    exact decide_eq_false (by omega)
  · cases hv
    exact hu

theorem joinSurrogates_flatMap (hs : joined s = true) (hmax : ∀ u ∈ s, u < 0x110000) :
    joinSurrogates (s.flatMap (codeUnits ensureAscii)) = s := by
  induction s with
  | nil => rfl
  | cons u s ih =>
    obtain ⟨hhead, hjoined⟩ := joined_cons_iff.1 hs
    have hu := hmax u List.mem_cons_self
    have ih := ih hjoined fun v hv => hmax v (List.mem_cons_of_mem u hv)
    rw [List.flatMap_cons]
    by_cases h : ensureAscii = true ∧ 0x10000 ≤ u
    · rw [codeUnits, if_pos h, List.cons_append, List.cons_append, List.nil_append,
        joinSurrogates_pair (by omega) (by omega), ih, List.cons.injEq]
      exact ⟨by omega, rfl⟩
    · rw [codeUnits, if_neg h, List.singleton_append, joinSurrogates_cons, ih]
      intro hhigh v hv
      cases s with
      | nil => cases hv
      | cons w s =>
        rw [List.flatMap_cons] at hv
        exact head?_codeUnits (hmax w (by simp)) hv (hhead hhigh w rfl)

theorem writableString_iff : writableString ensureAscii s = true ↔ joined s = true ∧
    ∀ u ∈ s, u < 0x110000 ∧ (ensureAscii = true ∨ u.isValidChar) := by
  rw [writableString, Bool.and_eq_true, List.all_eq_true]
  simp only [Bool.and_eq_true, Bool.or_eq_true, decide_eq_true_eq]

theorem units_flatMap {s : List Nat} (hs : ∀ u ∈ s, u < 0x110000 ∧ (ensureAscii = true ∨ u.isValidChar))
    (rest : List Char) :
    units (s.flatMap (charText ensureAscii) ++ '"' :: rest) =
      some (s.flatMap (codeUnits ensureAscii), rest) := by
  induction s with
  | nil => exact units_quote rest
  | cons u s ih =>
    obtain ⟨hmax, hu⟩ := hs u List.mem_cons_self
    rw [List.flatMap_cons, List.append_assoc, units_charText hmax hu,
      ih fun v hv => hs v (List.mem_cons_of_mem u hv), List.flatMap_cons]
    rfl

/-- A literal is read back as the string. -/
theorem string_stringText (hs : writableString ensureAscii s = true) (rest : List Char) :
    string (s.flatMap (charText ensureAscii) ++ '"' :: rest) = some (s, rest) := by
  rw [writableString_iff] at hs
  rw [string, units_flatMap hs.2]
  dsimp only [Option.bind_eq_bind, Option.bind_some, Option.pure_def]
  rw [joinSurrogates_flatMap hs.1 fun u hu => (hs.2 u hu).1]

theorem stringText_append (ensureAscii : Bool) (s : List Nat) (rest : List Char) :
    stringText ensureAscii s ++ rest = '"' :: (s.flatMap (charText ensureAscii) ++ '"' :: rest) := by
  rw [stringText, List.cons_append, List.append_assoc]
  rfl

/-! ### The round trip -/

theorem Ends.of_mem (h : c ∈ [',', ']', '\x7d']) (rest : List Char) : Ends (c :: rest) := by
  intro d hd
  cases hd
  simp only [List.mem_cons, List.not_mem_nil, or_false] at h
  rcases h with rfl | rfl | rfl
  · decide
  · decide
  · decide

theorem ends_nil : Ends [] := by
  intro c hc
  cases hc

theorem skipWs_plain (h : Plain c) (cs : List Char) : skipWs (c :: cs) = c :: cs := by
  apply skipWs_cons
  rw [← Bool.not_eq_true]
  intro hw
  rw [Plain, isSpace_of_isWs hw] at h
  cases h.1

theorem elements_last (hx : value f cs = some (x, t)) (h : skipWs t = ']' :: rest) :
    elements (f + 1) cs = some ([x], rest) := by
  rw [elements, hx]
  dsimp only [Option.bind_eq_bind, Option.bind_some]
  rw [h]
  rfl

theorem elements_more (hx : value f cs = some (x, t)) (h : skipWs t = ',' :: t')
    (hxs : elements f (skipWs t') = some (xs, rest)) :
    elements (f + 1) cs = some (x :: xs, rest) := by
  rw [elements, hx]
  dsimp only [Option.bind_eq_bind, Option.bind_some]
  rw [h]
  change (elements f (skipWs t')).bind _ = _
  rw [hxs]
  rfl

theorem skipWs_elements (h : elements f cs = some r) : skipWs cs = cs := by
  obtain ⟨c, t, rfl, hplain, _⟩ := elements_start h
  exact skipWs_plain hplain t

theorem skipWs_members (h : members f cs = some r) : skipWs cs = cs := by
  obtain ⟨t, rfl⟩ := members_start h
  rfl

theorem skipWs_value (h : value f cs = some r) : skipWs cs = cs := by
  obtain ⟨c, t, rfl, hplain, _⟩ := value_start h
  exact skipWs_plain hplain t

theorem skipWs_blank (cs : List Char) : skipWs (' ' :: cs) = skipWs cs := rfl

theorem scalar_none (h : c ∈ ['"', '\x7b', '[', '\uFEFF']) (cs : List Char) :
    scalar (c :: cs) = none := by
  simp only [List.mem_cons, List.not_mem_nil, or_false] at h
  rcases h with rfl | rfl | rfl | rfl
  · rfl
  · rfl
  · rfl
  · rfl

theorem value_of_scalar (h : scalar cs = some r) (f : Nat) : value (f + 1) cs = some r := by
  cases cs with
  | nil => cases h
  | cons c cs =>
    have hc : c ∉ ['"', '\x7b', '[', '\uFEFF'] := by
      intro hc
      rw [scalar_none hc] at h
      cases h
    simp only [List.mem_cons, List.not_mem_nil, or_false, not_or] at hc
    rw [value_scalar hc.1 hc.2.1 hc.2.2.1, h]

theorem intText_ne_nil (n : Int) : intText n ≠ [] := by
  rw [intText]
  split_ifs
  · exact List.cons_ne_nil _ _
  · exact Nat.toDigits_ne_nil

theorem floatText_ne_nil (F : FloatText) (lexeme : String) : floatText (F.repr lexeme) ≠ [] := by
  intro h
  have hscalar := scalar_floatText F lexeme ends_nil
  rw [h] at hscalar
  cases hscalar

theorem elementTexts_cons (F : FloatText) (a : Bool) (x y : Json) (xs : List Json) :
    elementTexts F a (x :: y :: xs) = dumps F a x ++ ',' :: ' ' :: elementTexts F a (y :: xs) := by
  rw [elementTexts]

theorem elementTexts_single (F : FloatText) (a : Bool) (x : Json) :
    elementTexts F a [x] = dumps F a x := by
  rw [elementTexts]
  exact List.append_nil _

theorem memberTexts_cons (F : FloatText) (a : Bool) (k : List Nat) (x : Json)
    (m : List Nat × Json) (ms : List (List Nat × Json)) :
    memberTexts F a ((k, x) :: m :: ms) =
      stringText a k ++ ':' :: ' ' :: (dumps F a x ++ ',' :: ' ' :: memberTexts F a (m :: ms)) := by
  rw [memberTexts]

theorem memberTexts_single (F : FloatText) (a : Bool) (k : List Nat) (x : Json) :
    memberTexts F a [(k, x)] = stringText a k ++ ':' :: ' ' :: dumps F a x := by
  rw [memberTexts]
  exact congrArg _ (congrArg _ (congrArg _ (List.append_nil _)))

mutual

/-- A value is read back from its text, and what follows it is left. -/
theorem value_dumps (F : FloatText) (a : Bool) : ∀ v, writable a v = true → ∀ f rest, Ends rest →
    2 * (dumps F a v).length ≤ f → value f (dumps F a v ++ rest) = some (canonical F v, rest)
  | .null, _, f, rest, _, hf => by
    cases f with
    | zero => cases hf
    | succ f => rfl
  | .bool b, _, f, rest, _, hf => by
    cases f with
    | zero => cases b <;> cases hf
    | succ f => cases b <;> rfl
  | .int n, _, f, rest, hrest, hf => by
    rw [dumps] at hf ⊢
    have hscalar := scalar_int n hrest
    cases f with
    | zero => exact absurd (List.eq_nil_of_length_eq_zero (by omega)) (intText_ne_nil n)
    | succ f => exact value_of_scalar hscalar f
  | .float lexeme, _, f, rest, hrest, hf => by
    rw [dumps] at hf ⊢
    have hscalar := scalar_floatText F lexeme hrest
    cases f with
    | zero => exact absurd (List.eq_nil_of_length_eq_zero (by omega)) (floatText_ne_nil F lexeme)
    | succ f => exact value_of_scalar hscalar f
  | .str s, hv, f, rest, _, hf => by
    rw [dumps, stringText, List.length_cons] at hf
    rw [dumps, stringText_append]
    cases f with
    | zero => omega
    | succ f =>
      exact value_string (string_stringText hv rest) f
  | .list [], _, f, rest, _, hf => by
    cases f with
    | zero => cases hf
    | succ f => rfl
  | .list (x :: xs), hv, f, rest, _, hf => by
    rw [dumps] at hf ⊢
    rw [List.length_cons, List.length_append, List.length_singleton] at hf
    cases f with
    | zero => omega
    | succ f =>
      have hxs := elements_dumps F a (x :: xs) (List.cons_ne_nil _ _) hv f rest (by omega)
      rw [List.cons_append, List.append_assoc, canonical]
      exact value_list ((congrArg _ (skipWs_elements hxs)).trans hxs)
  | .dict [], _, f, rest, _, hf => by
    cases f with
    | zero => cases hf
    | succ f => rfl
  | .dict (m :: ms), hv, f, rest, _, hf => by
    rw [dumps] at hf ⊢
    rw [List.length_cons, List.length_append, List.length_singleton] at hf
    cases f with
    | zero => omega
    | succ f =>
      have hms := members_dumps F a (m :: ms) (List.cons_ne_nil _ _) hv f rest (by omega)
      rw [List.cons_append, List.append_assoc, canonical]
      exact value_dict ((congrArg _ (skipWs_members hms)).trans hms)

theorem elements_dumps (F : FloatText) (a : Bool) : ∀ xs, xs ≠ [] → writables a xs = true →
    ∀ f rest, 2 * (elementTexts F a xs).length + 1 ≤ f →
      elements f (elementTexts F a xs ++ ']' :: rest) = some (canonicals F xs, rest)
  | [], hne, _, _, _, _ => (hne rfl).elim
  | [x], _, hv, f, rest, hf => by
    rw [writables, Bool.and_eq_true] at hv
    rw [elementTexts_single] at hf ⊢
    cases f with
    | zero => omega
    | succ f =>
      exact elements_last (value_dumps F a x hv.1 f (']' :: rest) (Ends.of_mem (by decide) rest)
        (by omega)) rfl
  | x :: y :: xs, _, hv, f, rest, hf => by
    rw [writables, Bool.and_eq_true] at hv
    rw [elementTexts_cons, List.length_append, List.length_cons, List.length_cons] at hf
    rw [elementTexts_cons, List.append_assoc]
    cases f with
    | zero => omega
    | succ f =>
      have hxs := elements_dumps F a (y :: xs) (List.cons_ne_nil _ _) hv.2 f rest (by omega)
      rw [List.cons_append, List.cons_append]
      apply elements_more (value_dumps F a x hv.1 f _ (Ends.of_mem (by decide) _) (by omega)) rfl
      rw [skipWs_blank, skipWs_elements hxs]
      exact hxs

theorem members_dumps (F : FloatText) (a : Bool) : ∀ ms, ms ≠ [] → writableMembers a ms = true →
    ∀ f rest, 2 * (memberTexts F a ms).length + 1 ≤ f →
      members f (memberTexts F a ms ++ '\x7d' :: rest) = some (canonicalMembers F ms, rest)
  | [], hne, _, _, _, _ => (hne rfl).elim
  | [(k, x)], _, hv, f, rest, hf => by
    rw [writableMembers, Bool.and_eq_true, Bool.and_eq_true] at hv
    simp only [memberTexts_single, List.length_append, List.length_cons] at hf
    cases f with
    | zero => omega
    | succ f =>
      have hx := value_dumps F a x hv.1.2 f ('\x7d' :: rest) (Ends.of_mem (by decide) rest)
        (by omega)
      rw [memberTexts_single, List.append_assoc, stringText_append, List.cons_append,
        List.cons_append]
      rw [← skipWs_value hx, ← skipWs_blank] at hx
      exact members_last (string_stringText hv.1.1 _) rfl hx rfl
  | (k, x) :: m :: ms, _, hv, f, rest, hf => by
    rw [writableMembers, Bool.and_eq_true, Bool.and_eq_true] at hv
    simp only [memberTexts_cons, List.length_append, List.length_cons] at hf
    cases f with
    | zero => omega
    | succ f =>
      have hms := members_dumps F a (m :: ms) (List.cons_ne_nil _ _) hv.2 f rest (by omega)
      have hx := value_dumps F a x hv.1.2 f (',' :: ' ' :: (memberTexts F a (m :: ms) ++
        '\x7d' :: rest)) (Ends.of_mem (by decide) _) (by omega)
      rw [memberTexts_cons, List.append_assoc, stringText_append, List.cons_append,
        List.cons_append, List.append_assoc, List.cons_append, List.cons_append]
      rw [← skipWs_value hx, ← skipWs_blank] at hx
      rw [← skipWs_members hms, ← skipWs_blank] at hms
      exact members_more (string_stringText hv.1.1 _) rfl hx rfl hms

end

end Text
