import AnythingTools.Json
import AnythingTools.Text.TrailingCommas

namespace Text
open Sync Json
set_option autoImplicit true

/-- Between two places in a text so many commas are dropped; where none is, nothing changes. -/
def Dropped (cs rest : List Char) (size size' : Nat) (same : Prop) : Prop :=
  ∃ n, commaHits cs = n + commaHits rest ∧ size' + n = size ∧ (n = 0 → same)

theorem Dropped.none (h : commaHits cs = commaHits rest) : Dropped cs rest size size True :=
  ⟨0, by rw [h, Nat.zero_add], rfl, fun _ => trivial⟩

theorem isSpace_of_isWs (h : isWs c = true) : isSpace c = true := by
  simp only [isWs, Bool.or_eq_true, decide_eq_true_eq] at h
  obtain ((rfl | rfl) | rfl) | rfl := h
  all_goals decide

theorem space_not_comma (h : isSpace c = true) : c ≠ ',' := by
  rintro rfl
  rw [comma_not_space] at h
  cases h

theorem skipWs_cons_ws (h : isWs c = true) (cs : List Char) : skipWs (c :: cs) = skipWs cs :=
  List.dropWhile_cons_of_pos h

theorem skipWs_cons (h : isWs c = false) (cs : List Char) : skipWs (c :: cs) = c :: cs :=
  List.dropWhile_cons_of_neg (by rw [h]; decide)

theorem isWs_closer (h : isCloser c = true) : isWs c = false := by
  simp only [isCloser, Bool.or_eq_true, decide_eq_true_eq] at h
  obtain rfl | rfl := h
  · decide
  · decide

theorem isSpace_closer (h : isCloser c = true) : isSpace c = false := by
  simp only [isCloser, Bool.or_eq_true, decide_eq_true_eq] at h
  obtain rfl | rfl := h
  · decide
  · decide

theorem closer_not_comma (h : isCloser c = true) : c ≠ ',' := by
  rintro rfl
  revert h
  decide

/-- After a comma that is matched comes a closing bracket. -/
theorem trailing_closer (h : trailingComma (',' :: cs) = true) :
    ∃ d rest, isCloser d = true ∧ lstrip cs = d :: rest := by
  rw [trailingComma] at h
  cases hl : lstrip cs with
  | nil =>
    rw [hl] at h
    cases h
  | cons d rest =>
    rw [hl] at h
    exact ⟨d, rest, h, rfl⟩

/-- What is put in place of a text begins as the text does, unless a comma goes. -/
theorem mend_head (c : Char) (cs : List Char) :
    mend (c :: cs) = [] ∨ mend (c :: cs) = c :: mend cs ∨
      ∃ d rest, isCloser d = true ∧ c = ',' ∧ mend (c :: cs) = d :: mend rest := by
  by_cases hall : ∀ d ∈ c :: cs, isSpace d = true
  · exact .inl (mend_blank hall)
  · cases hc : isSpace c with
    | true =>
      refine .inr (.inl (mend_space hc ?_))
      exact fun h => hall (List.forall_mem_cons.2 ⟨hc, h⟩)
    | false =>
      cases ht : trailingComma (c :: cs) with
      | false => exact .inr (.inl (mend_letter hc ht))
      | true =>
        obtain rfl := comma_of_trailing ht
        obtain ⟨d, rest, hd, hl⟩ := trailing_closer ht
        refine .inr (.inr ⟨d, rest, hd, rfl, ?_⟩)
        rw [mend_trailing ht, hl,
          mend_letter (isSpace_closer hd) (trailingComma_of_ne (closer_not_comma hd) _)]

theorem skipWs_mend (cs : List Char) : skipWs (mend cs) = mend (skipWs cs) := by
  induction cs with
  | nil => rfl
  | cons c cs ih =>
    cases hc : isWs c with
    | true =>
      rw [skipWs_cons_ws hc]
      by_cases hall : ∀ d ∈ cs, isSpace d = true
      · have hall' : ∀ d ∈ c :: cs, isSpace d = true :=
          List.forall_mem_cons.2 ⟨isSpace_of_isWs hc, hall⟩
        rw [mend_blank hall', ← ih, mend_blank hall]
      · rw [mend_space (isSpace_of_isWs hc) hall, skipWs_cons_ws hc, ih]
    | false =>
      rw [skipWs_cons hc]
      obtain h | h | ⟨d, rest, hd, _, h⟩ := mend_head c cs
      · rw [h]
        rfl
      · rw [h, skipWs_cons hc]
      · rw [h, skipWs_cons (isWs_closer hd)]

theorem commaHits_skipWs (cs : List Char) : commaHits (skipWs cs) = commaHits cs := by
  induction cs with
  | nil => rfl
  | cons c cs ih =>
    cases hc : isWs c with
    | true => rw [skipWs_cons_ws hc, ih, commaHits_of_ne (space_not_comma (isSpace_of_isWs hc))]
    | false => rw [skipWs_cons hc]

theorem lstrip_skipWs (cs : List Char) : lstrip (skipWs cs) = lstrip cs := by
  induction cs with
  | nil => rfl
  | cons c cs ih =>
    cases hc : isWs c with
    | true => rw [skipWs_cons_ws hc, ih, lstrip_cons_space (isSpace_of_isWs hc)]
    | false => rw [skipWs_cons hc]

/-- A letter that is neither blank nor a comma. -/
def Plain (c : Char) : Prop := isSpace c = false ∧ c ≠ ','

instance (c : Char) : Decidable (Plain c) := inferInstanceAs (Decidable (_ ∧ _))

theorem mend_cons_plain (h : Plain c) (cs : List Char) : mend (c :: cs) = c :: mend cs :=
  mend_letter h.1 (trailingComma_of_ne h.2 cs)

theorem mend_plain (h : ∀ c ∈ a, Plain c) (r : List Char) : mend (a ++ r) = a ++ mend r := by
  induction a with
  | nil => rfl
  | cons c a ih =>
    rw [List.forall_mem_cons] at h
    rw [List.cons_append, mend_cons_plain h.1, ih h.2, List.cons_append]

theorem commaHits_plain (h : ∀ c ∈ a, Plain c) (r : List Char) :
    commaHits (a ++ r) = commaHits r := by
  induction a with
  | nil => rfl
  | cons c a ih =>
    rw [List.forall_mem_cons] at h
    rw [List.cons_append, commaHits_of_ne h.1.2, ih h.2]

theorem plain_of_between (hlo : 44 < c.toNat) (hhi : c.toNat < 133) : Plain c := by
  refine ⟨?_, ?_⟩
  · simp only [isSpace, Bool.or_eq_false_iff, Bool.and_eq_false_iff, decide_eq_false_iff_not,
      List.mem_cons, List.not_mem_nil, or_false]
    omega
  · rintro rfl
    exact absurd hlo (by decide)

theorem escape_plain (h : escape c = some u) : Plain c := by
  unfold escape at h
  split at h
  all_goals first | decide | cases h

theorem hexDigit_plain (h : hexDigit c = some u) : Plain c := by
  unfold hexDigit at h
  have hr : 44 < c.toNat ∧ c.toNat < 133 := by
    simp only [Char.isDigit, Bool.and_eq_true, decide_eq_true_eq, Char.le_def,
      UInt32.le_iff_toNat_le] at h
    change (if 48 ≤ c.toNat ∧ c.toNat ≤ 57 then _ else if 97 ≤ c.toNat ∧ c.toNat ≤ 102 then _
      else if 65 ≤ c.toNat ∧ c.toNat ≤ 70 then _ else _) = _ at h
    split_ifs at h
    all_goals omega
  exact plain_of_between hr.1 hr.2

theorem units_quote (cs : List Char) : units ('"' :: cs) = some ([], cs) := by
  rw [units]

theorem units_letter (hq : c ≠ '"') (hb : c ≠ '\\') (hc : 31 < c.toNat) (cs : List Char) :
    units (c :: cs) = (units cs).map fun r => (c.toNat :: r.1, r.2) := by
  rw [units]
  · rw [if_neg (by rintro (hle | heq); exacts [absurd hle (by omega), hb heq])]
    cases units cs with
    | none => rfl
    | some r => rfl
  · exact hq
  · exact fun _ _ _ _ _ h _ => hb h
  · exact fun _ _ h _ => hb h

/-- What a literal may go on with: its closing quote, an escape or a letter. -/
theorem units_cases (h : units cs = some (us, rest)) :
    (cs = '"' :: rest ∧ us = []) ∨
      (∃ e tail u vs, cs = '\\' :: (e ++ tail) ∧ (∀ c ∈ e, Plain c) ∧ us = u :: vs ∧
        units tail = some (vs, rest) ∧
        ∀ t, units ('\\' :: (e ++ t)) = (units t).map fun r => (u :: r.1, r.2)) ∨
      ∃ c tail vs, cs = c :: tail ∧ c ≠ '"' ∧ c ≠ '\\' ∧ 31 < c.toNat ∧ us = c.toNat :: vs ∧
        units tail = some (vs, rest) := by
  unfold units at h
  split at h
  · cases h
  · cases h
    exact .inl ⟨rfl, rfl⟩
  · rename_i a b c d tail
    simp only [Option.bind_eq_bind, Option.bind_eq_some_iff] at h
    obtain ⟨u, hu, ⟨vs, rest'⟩, hr, h⟩ := h
    cases h
    refine .inr (.inl ⟨['u', a, b, c, d], tail, u, vs, rfl, ?_, rfl, hr, ?_⟩)
    · simp only [hex4, Option.bind_eq_bind, Option.bind_eq_some_iff] at hu
      obtain ⟨ua, ha, ub, hb, uc, hc, ud, hd, _⟩ := hu
      simp only [List.forall_mem_cons]
      exact ⟨by decide, hexDigit_plain ha, hexDigit_plain hb, hexDigit_plain hc,
        hexDigit_plain hd, fun _ hn => nomatch hn⟩
    · intro t
      change units ('\\' :: 'u' :: a :: b :: c :: d :: t) = _
      rw [units, hu]
      cases units t with
      | none => rfl
      | some r => rfl
  · rename_i c tail hne
    simp only [Option.bind_eq_bind, Option.bind_eq_some_iff] at h
    obtain ⟨u, hu, ⟨vs, rest'⟩, hr, h⟩ := h
    cases h
    have hcu : c ≠ 'u' := by
      rintro rfl
      cases hu
    refine .inr (.inl ⟨[c], tail, u, vs, rfl, ?_, rfl, hr, ?_⟩)
    · exact List.forall_mem_singleton.2 (escape_plain hu)
    · intro t
      change units ('\\' :: c :: t) = _
      rw [units, hu]
      · cases units t with
        | none => rfl
        | some r => rfl
      · exact fun _ _ _ _ _ he _ => hcu he
  · rename_i c tail hq _ _
    split_ifs at h with hc
    simp only [Option.bind_eq_bind, Option.bind_eq_some_iff] at h
    obtain ⟨⟨vs, rest'⟩, hr, h⟩ := h
    cases h
    rw [not_or, Nat.not_le] at hc
    exact .inr (.inr ⟨c, tail, vs, rfl, hq, hc.2, hc.1, rfl, hr⟩)

theorem units_not_blank (h : units cs = some (us, rest)) : ¬∀ c ∈ cs, isSpace c = true := by
  intro hall
  induction cs generalizing us with
  | nil => cases h
  | cons c cs ih =>
    rw [List.forall_mem_cons] at hall
    obtain ⟨heq, _⟩ | ⟨e, tail, u, vs, heq, _⟩ | ⟨_, _, _, heq, _, _, _, _, hr⟩ := units_cases h
    · cases heq
      exact absurd hall.1 (by decide)
    · cases heq
      exact absurd hall.1 (by decide)
    · cases heq
      exact ih hr hall.2

/-- The blanks at the front of a literal are letters of it. -/
theorem units_lstrip (h : units cs = some (us, rest)) :
    ∃ vs, units (lstrip cs) = some (vs, rest) ∧ vs.count 44 = us.count 44 := by
  induction cs generalizing us with
  | nil => cases h
  | cons c cs ih =>
    cases hc : isSpace c with
    | false => exact ⟨us, by rw [lstrip_cons_letter hc, h], rfl⟩
    | true =>
      obtain ⟨heq, _⟩ | ⟨e, tail, u, vs, heq, _⟩ | ⟨_, _, vs, heq, _, _, hn, hus, hr⟩ :=
        units_cases h
      · cases heq
        exact absurd hc (by decide)
      · cases heq
        exact absurd hc (by decide)
      · cases heq
        obtain ⟨ws, hw, hcount⟩ := ih hr
        have hne : c.toNat ≠ 44 := fun h44 =>
          space_not_comma hc (Char.toNat_inj.1 (h44.trans (by decide)))
        refine ⟨ws, by rw [lstrip_cons_space hc, hw], ?_⟩
        rw [hcount, hus, List.count_cons_of_ne hne]

/-- A literal is read to its end from what is put in place of the text, the commas dropped. -/
theorem units_mend (h : units cs = some (us, rest)) :
    ∃ us', units (mend cs) = some (us', mend rest) ∧
      Dropped cs rest (us.count 44) (us'.count 44) (us' = us) := by
  induction hl : cs.length using Nat.strongRecOn generalizing cs us with
  | ind l ih =>
    subst hl
    obtain ⟨heq, hus⟩ | ⟨e, tail, u, vs, heq, he, hus, hr, hall⟩ |
      ⟨c, tail, vs, heq, hq, hb, hn, hus, hr⟩ := units_cases h
    · subst heq hus
      refine ⟨[], ?_, 0, ?_, rfl, fun _ => rfl⟩
      · rw [mend_cons_plain (by decide), units_quote]
      · rw [commaHits_of_ne (by decide), Nat.zero_add]
    · subst heq hus
      have hlen : tail.length < ('\\' :: (e ++ tail)).length := by
        rw [List.length_cons, List.length_append]
        omega
      obtain ⟨vs', hv, n, hits, hsize, hsame⟩ := ih _ hlen hr rfl
      refine ⟨u :: vs', ?_, n, ?_, ?_, fun hn => by rw [hsame hn]⟩
      · rw [mend_cons_plain (by decide), mend_plain he, hall, hv]
        rfl
      · rw [commaHits_of_ne (by decide), commaHits_plain he, hits]
      · rw [List.count_cons, List.count_cons, ← hsize]
        omega
    · subst heq hus
      have hlen : tail.length < (c :: tail).length := Nat.lt_succ_self _
      by_cases ht : trailingComma (c :: tail) = true
      · obtain rfl := comma_of_trailing ht
        obtain ⟨ws, hw, hcount⟩ := units_lstrip hr
        have hlen' : (lstrip tail).length < (',' :: tail).length :=
          Nat.lt_succ_of_le (List.length_dropWhile_le _ tail)
        obtain ⟨vs', hv, n, hits, hsize, _⟩ := ih _ hlen' hw rfl
        refine ⟨vs', by rw [mend_trailing ht, hv], n + 1, ?_, ?_, fun hn => nomatch hn⟩
        · rw [commaHits, if_pos ht, ← commaHits_lstrip, hits]
          omega
        · change _ = List.count 44 (44 :: vs)
          rw [List.count_cons_self, ← hcount, ← hsize]
          omega
      · obtain ⟨vs', hv, n, hits, hsize, hsame⟩ := ih _ hlen hr rfl
        have hmend : mend (c :: tail) = c :: mend tail := by
          cases hc : isSpace c with
          | true => exact mend_space hc (units_not_blank hr)
          | false => exact mend_letter hc (Bool.eq_false_iff.2 ht)
        refine ⟨c.toNat :: vs', ?_, n, ?_, ?_, fun hn => by rw [hsame hn]⟩
        · rw [hmend, units_letter hq hb hn, hv]
          rfl
        · rw [commaHits, if_neg ht, Nat.zero_add, hits]
        · rw [List.count_cons, List.count_cons, ← hsize]
          omega

theorem joinSurrogates_count (us : List Nat) : (joinSurrogates us).count 44 = us.count 44 := by
  fun_induction joinSurrogates us with
  | case1 => rfl
  | case2 u => rfl
  | case3 u v us hp ih =>
    rw [List.count_cons_of_ne (by omega), List.count_cons_of_ne (by omega),
      List.count_cons_of_ne (by omega), ih]
  | case4 u v us hp ih =>
    simp only [List.count_cons] at ih ⊢
    rw [ih]

theorem string_mend (h : string cs = some (s, rest)) :
    ∃ s', string (mend cs) = some (s', mend rest) ∧
      Dropped cs rest (s.count 44) (s'.count 44) (s' = s) := by
  rw [string, Option.bind_eq_bind, Option.bind_eq_some_iff] at h
  obtain ⟨⟨us, rest'⟩, hu, h⟩ := h
  cases h
  obtain ⟨us', hu', n, hits, hsize, hsame⟩ := units_mend hu
  refine ⟨joinSurrogates us', ?_, n, hits, ?_, fun hn => by rw [hsame hn]⟩
  · rw [string, hu']
    rfl
  · rw [joinSurrogates_count, joinSurrogates_count, hsize]

end Text
