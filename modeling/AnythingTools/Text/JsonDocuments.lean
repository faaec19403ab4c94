import AnythingTools.Text.JsonNumbers

namespace Text
open Sync Json
set_option autoImplicit true

variable {c d : Char} {cs rest : List Char}

mutual

/-- The commas of a value: those in its strings and in its keys. -/
def commas : Json → Nat
  | .str s => s.count 44
  | .list xs => elementCommas xs
  | .dict ms => memberCommas ms
  | _ => 0

def elementCommas : List Json → Nat
  | [] => 0
  | x :: xs => commas x + elementCommas xs

def memberCommas : List (List Nat × Json) → Nat
  | [] => 0
  | (k, x) :: ms => k.count 44 + commas x + memberCommas ms

end

theorem scalar_weight (h : scalar cs = some (v, rest)) : weight v = 0 := by
  rw [scalar] at h
  cases hc : constant cs with
  | some r =>
    rw [hc] at h
    cases h
    exact (constant_length hc).1
  | none =>
    rw [hc] at h
    exact (number_length h).1

theorem Dropped.trans (h₁ : Dropped cs ds a a' p) (h₂ : Dropped ds rest b b' q) :
    Dropped cs rest (a + b) (a' + b') (p ∧ q) := by
  obtain ⟨n, hits, hsize, hsame⟩ := h₁
  obtain ⟨m, hits', hsize', hsame'⟩ := h₂
  refine ⟨n + m, by rw [hits, hits', Nat.add_assoc], by omega, ?_⟩
  intro hnm
  exact ⟨hsame (by omega), hsame' (by omega)⟩

theorem Dropped.imp (h : Dropped cs rest a a' p) (hpq : p → q) : Dropped cs rest a a' q := by
  obtain ⟨n, hits, hsize, hsame⟩ := h
  exact ⟨n, hits, hsize, fun hn => hpq (hsame hn)⟩

theorem Dropped.after (h : Dropped cs rest a a' p) (hcs : commaHits bs = commaHits cs) :
    Dropped bs rest a a' p := by
  rw [Dropped, hcs]
  exact h

theorem Dropped.before (h : Dropped cs ds a a' p) (hds : commaHits ds = commaHits rest) :
    Dropped cs rest a a' p := by
  rw [Dropped, ← hds]
  exact h

theorem value_scalar (hq : c ≠ '"') (hb : c ≠ '\x7b') (ha : c ≠ '[') (f : Nat) (cs : List Char) :
    value (f + 1) (c :: cs) = scalar (c :: cs) := by
  rw [value, if_neg hq, if_neg hb, if_neg ha]
  unfold scalar
  cases constant (c :: cs) with
  | none => rfl
  | some r => rfl

/-- A value begins with a letter that is no closing bracket. -/
theorem value_head (h : value f (c :: cs) = some r) : Plain c ∧ isCloser c = false := by
  cases f with
  | zero => cases h
  | succ f =>
    by_cases hq : c = '"'
    · subst hq
      decide
    · by_cases hb : c = '\x7b'
      · subst hb
        decide
      · by_cases ha : c = '['
        · subst ha
          decide
        · rw [value_scalar hq hb ha] at h
          exact scalar_head h

theorem value_start (h : value f cs = some r) :
    ∃ c t, cs = c :: t ∧ Plain c ∧ isCloser c = false := by
  cases cs with
  | nil =>
    cases f with
    | zero => cases h
    | succ f => cases h
  | cons c t => exact ⟨c, t, rfl, value_head h⟩

theorem elements_start (h : elements f cs = some r) :
    ∃ c t, cs = c :: t ∧ Plain c ∧ isCloser c = false := by
  cases f with
  | zero => cases h
  | succ f =>
    rw [elements, Option.bind_eq_bind, Option.bind_eq_some_iff] at h
    obtain ⟨⟨x, t⟩, hx, _⟩ := h
    exact value_start hx

theorem members_start (h : members f cs = some r) : ∃ t, cs = '"' :: t := by
  cases f with
  | zero => cases h
  | succ f =>
    cases cs with
    | nil => cases h
    | cons c t =>
      rw [members] at h
      split_ifs at h with hc
      exact ⟨t, by rw [hc]⟩

/-- A comma with another item after it stays. -/
theorem mend_separator (h : skipWs cs = c :: t) (hp : Plain c) (hc : isCloser c = false) :
    mend (',' :: cs) = ',' :: mend cs ∧ commaHits (',' :: cs) = commaHits cs := by
  have ht : trailingComma (',' :: cs) = false := by
    rw [trailingComma, ← lstrip_skipWs, h, lstrip_cons_letter hp.1]
    exact hc
  refine ⟨mend_letter comma_not_space ht, ?_⟩
  rw [commaHits, ht, if_neg (by decide), Nat.zero_add]

theorem mend_closer (hc : isCloser c = true) (cs : List Char) :
    mend (c :: cs) = c :: mend cs ∧ commaHits (c :: cs) = commaHits cs :=
  ⟨mend_cons_plain ⟨isSpace_closer hc, closer_not_comma hc⟩ cs,
    commaHits_of_ne (closer_not_comma hc) cs⟩

def ValueMends (f : Nat) : Prop :=
  ∀ cs v rest, value f cs = some (v, rest) → ∃ v', value f (mend cs) = some (v', mend rest) ∧
    Dropped cs rest (commas v) (commas v') (v' = v)

def ElementsMend (f : Nat) : Prop :=
  ∀ cs xs rest, elements f cs = some (xs, rest) →
    ∃ xs', elements f (mend cs) = some (xs', mend rest) ∧
      Dropped cs rest (elementCommas xs) (elementCommas xs') (xs' = xs)

def MembersMend (f : Nat) : Prop :=
  ∀ cs ms rest, members f cs = some (ms, rest) →
    ∃ ms', members f (mend cs) = some (ms', mend rest) ∧
      Dropped cs rest (memberCommas ms) (memberCommas ms') (ms' = ms)

theorem value_string (h : string cs = some (s, rest)) (f : Nat) :
    value (f + 1) ('"' :: cs) = some (.str s, rest) := by
  rw [value, if_pos rfl, h]
  rfl

theorem value_dict (h : members f (skipWs cs) = some (ms, rest)) :
    value (f + 1) ('\x7b' :: cs) = some (.dict ms, rest) := by
  obtain ⟨t, ht⟩ := members_start h
  rw [value, if_neg (by decide), if_pos rfl]
  split
  next heq =>
    rw [heq] at ht
    cases ht
  next =>
    rw [h]
    rfl

theorem value_list (h : elements f (skipWs cs) = some (xs, rest)) :
    value (f + 1) ('[' :: cs) = some (.list xs, rest) := by
  obtain ⟨c, t, ht, _, hc⟩ := elements_start h
  rw [value, if_neg (by decide), if_neg (by decide), if_pos rfl]
  split
  next heq =>
    rw [heq] at ht
    cases ht
    cases hc
  next =>
    rw [h]
    rfl

theorem value_mends (he : ElementsMend f) (hm : MembersMend f) : ValueMends (f + 1) := by
  intro cs v rest h
  obtain ⟨c, t, rfl, hplain, _⟩ := value_start h
  have hits := commaHits_of_ne hplain.2 t
  by_cases hq : c = '"'
  · subst hq
    rw [value, if_pos rfl, Option.bind_eq_bind, Option.bind_eq_some_iff] at h
    obtain ⟨⟨s, rest'⟩, hs, h⟩ := h
    cases h
    obtain ⟨s', hs', hd⟩ := string_mend hs
    refine ⟨.str s', ?_, (hd.imp fun heq => by rw [heq]).after hits⟩
    rw [mend_cons_plain hplain, value_string hs']
  · by_cases hb : c = '\x7b'
    · subst hb
      rw [value, if_neg hq, if_pos rfl] at h
      split at h
      next t' heq =>
        cases h
        have hc := mend_closer (c := '\x7d') (by decide) rest
        refine ⟨.dict [], ?_, 0, ?_, rfl, fun _ => rfl⟩
        · rw [mend_cons_plain hplain, value, if_neg hq, if_pos rfl, skipWs_mend, heq, hc.1]
          rfl
        · rw [hits, ← commaHits_skipWs, heq, hc.2, Nat.zero_add]
      next =>
        rw [Option.bind_eq_bind, Option.bind_eq_some_iff] at h
        obtain ⟨⟨ms, rest'⟩, hms, h⟩ := h
        cases h
        obtain ⟨ms', hms', hd⟩ := hm _ _ _ hms
        rw [← skipWs_mend] at hms'
        refine ⟨.dict ms', ?_, (hd.imp fun heq => by rw [heq]).after ?_⟩
        · rw [mend_cons_plain hplain, value_dict hms']
        · rw [hits, commaHits_skipWs]
    · by_cases ha : c = '['
      · subst ha
        rw [value, if_neg hq, if_neg hb, if_pos rfl] at h
        split at h
        next t' heq =>
          cases h
          have hc := mend_closer (c := ']') (by decide) rest
          refine ⟨.list [], ?_, 0, ?_, rfl, fun _ => rfl⟩
          · rw [mend_cons_plain hplain, value, if_neg hq, if_neg hb, if_pos rfl, skipWs_mend, heq,
              hc.1]
            rfl
          · rw [hits, ← commaHits_skipWs, heq, hc.2, Nat.zero_add]
        next =>
          rw [Option.bind_eq_bind, Option.bind_eq_some_iff] at h
          obtain ⟨⟨xs, rest'⟩, hxs, h⟩ := h
          cases h
          obtain ⟨xs', hxs', hd⟩ := he _ _ _ hxs
          rw [← skipWs_mend] at hxs'
          refine ⟨.list xs', ?_, (hd.imp fun heq => by rw [heq]).after ?_⟩
          · rw [mend_cons_plain hplain, value_list hxs']
          · rw [hits, commaHits_skipWs]
      · rw [value_scalar hq hb ha] at h
        obtain ⟨hs, hsteady⟩ := scalar_steady (c :: t)
        refine ⟨v, ?_, 0, ?_, rfl, fun _ => rfl⟩
        · rw [h] at hs
          rw [mend_cons_plain hplain, value_scalar hq hb ha, ← mend_cons_plain hplain, hs]
          rfl
        · rw [hsteady _ h, Nat.zero_add]

theorem elements_mend (hv : ValueMends f) (he : ElementsMend f) : ElementsMend (f + 1) := by
  intro cs xs rest h
  rw [elements, Option.bind_eq_bind, Option.bind_eq_some_iff] at h
  obtain ⟨⟨x, t⟩, hx, h⟩ := h
  obtain ⟨x', hx', hd⟩ := hv _ _ _ hx
  dsimp only at h
  split at h
  next t' heq =>
    cases h
    have hc := mend_closer (c := ']') (by decide) rest
    refine ⟨[x'], ?_, (hd.imp fun hsame => by rw [hsame]).before ?_⟩
    · rw [elements, hx']
      dsimp only [Option.bind_eq_bind, Option.bind_some]
      rw [skipWs_mend, heq, hc.1]
      rfl
    · rw [← commaHits_skipWs, heq, hc.2]
  next t' heq =>
    rw [Option.bind_eq_bind, Option.bind_eq_some_iff] at h
    obtain ⟨⟨ys, rest'⟩, hys, h⟩ := h
    cases h
    obtain ⟨ys', hys', hd'⟩ := he _ _ _ hys
    obtain ⟨c, u, hskip, hplain, hcloser⟩ := elements_start hys
    obtain ⟨hsep, hits⟩ := mend_separator hskip hplain hcloser
    refine ⟨x' :: ys', ?_, ?_⟩
    · rw [elements, hx']
      dsimp only [Option.bind_eq_bind, Option.bind_some]
      rw [skipWs_mend, heq, hsep]
      change (elements f (skipWs (mend t'))).bind (fun q => some (x' :: q.1, q.2)) = _
      rw [skipWs_mend, hys']
      rfl
    · have hgap : commaHits t = commaHits (skipWs t') := by
        rw [← commaHits_skipWs, heq, hits, commaHits_skipWs]
      exact (hd.trans (hd'.after hgap)).imp fun hsame => by rw [hsame.1, hsame.2]
  next => cases h

theorem members_last (hk : string t = some (k, t₁)) (hcolon : skipWs t₁ = ':' :: t₂)
    (hx : value f (skipWs t₂) = some (x, t₃)) (h : skipWs t₃ = '\x7d' :: rest) :
    members (f + 1) ('"' :: t) = some ([(k, x)], rest) := by
  rw [members, if_pos rfl, hk]
  dsimp only [Option.bind_eq_bind, Option.bind_some]
  rw [hcolon]
  change (value f (skipWs t₂)).bind _ = _
  rw [hx]
  dsimp only [Option.bind_some]
  rw [h]
  rfl

theorem members_more (hk : string t = some (k, t₁)) (hcolon : skipWs t₁ = ':' :: t₂)
    (hx : value f (skipWs t₂) = some (x, t₃)) (h : skipWs t₃ = ',' :: t₄)
    (hms : members f (skipWs t₄) = some (ms, rest)) :
    members (f + 1) ('"' :: t) = some ((k, x) :: ms, rest) := by
  rw [members, if_pos rfl, hk]
  dsimp only [Option.bind_eq_bind, Option.bind_some]
  rw [hcolon]
  change (value f (skipWs t₂)).bind _ = _
  rw [hx]
  dsimp only [Option.bind_some]
  rw [h]
  change (members f (skipWs t₄)).bind _ = _
  rw [hms]
  rfl

theorem members_mend (hv : ValueMends f) (hm : MembersMend f) : MembersMend (f + 1) := by
  intro cs ms rest h
  obtain ⟨t, rfl⟩ := members_start h
  rw [members, if_pos rfl, Option.bind_eq_bind, Option.bind_eq_some_iff] at h
  obtain ⟨⟨k, t₁⟩, hk, h⟩ := h
  obtain ⟨k', hk', hd₁⟩ := string_mend hk
  have hquote : mend ('"' :: t) = '"' :: mend t := mend_cons_plain (by decide) t
  replace hd₁ : Dropped ('"' :: t) t₁ _ _ _ := hd₁.after (commaHits_of_ne (by decide) t)
  dsimp only at h
  split at h
  next t₂ hcolon =>
    rw [Option.bind_eq_bind, Option.bind_eq_some_iff] at h
    obtain ⟨⟨x, t₃⟩, hx, h⟩ := h
    obtain ⟨x', hx', hd₂⟩ := hv _ _ _ hx
    have hgap : commaHits t₁ = commaHits (skipWs t₂) := by
      rw [← commaHits_skipWs, hcolon, commaHits_of_ne (by decide), commaHits_skipWs]
    have hd := hd₁.trans (hd₂.after hgap)
    have hcolon' : skipWs (mend t₁) = ':' :: mend t₂ := by
      rw [skipWs_mend, hcolon, mend_cons_plain (by decide)]
    replace hx' : value f (skipWs (mend t₂)) = some (x', mend t₃) := by
      rw [skipWs_mend, hx']
    dsimp only at h
    split at h
    next t₄ heq =>
      cases h
      have hc := mend_closer (c := '\x7d') (by decide) rest
      refine ⟨[(k', x')], ?_, (hd.imp fun hsame => by rw [hsame.1, hsame.2]).before ?_⟩
      · rw [hquote]
        apply members_last hk' hcolon' hx'
        rw [skipWs_mend, heq, hc.1]
      · rw [← commaHits_skipWs, heq, hc.2]
    next t₄ heq =>
      rw [Option.bind_eq_bind, Option.bind_eq_some_iff] at h
      obtain ⟨⟨ns, rest'⟩, hns, h⟩ := h
      cases h
      obtain ⟨ns', hns', hd₃⟩ := hm _ _ _ hns
      obtain ⟨u, hskip⟩ := members_start hns
      obtain ⟨hsep, hits⟩ := mend_separator hskip (by decide) (by decide)
      refine ⟨(k', x') :: ns', ?_, ?_⟩
      · have hcomma : skipWs (mend t₃) = ',' :: mend t₄ := by rw [skipWs_mend, heq, hsep]
        rw [hquote]
        apply members_more hk' hcolon' hx' hcomma
        rw [skipWs_mend, hns']
      · have hgap' : commaHits t₃ = commaHits (skipWs t₄) := by
          rw [← commaHits_skipWs, heq, hits, commaHits_skipWs]
        exact (hd.trans (hd₃.after hgap')).imp fun hsame => by
          rw [hsame.1.1, hsame.1.2, hsame.2]
    next => cases h
  next => cases h

/-- A text that is a value is one after the repair, less the commas that the repair drops. -/
theorem parse_mends (f : Nat) : ValueMends f ∧ ElementsMend f ∧ MembersMend f := by
  induction f with
  | zero =>
    refine ⟨?_, ?_, ?_⟩
    · intro cs v rest h
      cases cs <;> cases h
    · intro cs xs rest h
      cases h
    · intro cs ms rest h
      cases cs <;> cases h
  | succ f ih =>
    obtain ⟨hv, he, hm⟩ := ih
    exact ⟨value_mends he hm, elements_mend hv he, members_mend hv hm⟩

/-- Where two members have one key, the place is the first's and the value the last's. -/
def setFirst (k : List Nat) (x : Json) (ms : List (List Nat × Json)) : List (List Nat × Json) :=
  (k, (ms.lookup k).getD x) :: ms.filter fun m => decide (m.1 ≠ k)

mutual

/-- What Python makes of a value: the members of an object are the items of a dict. -/
def asDict : Json → Json
  | .list xs => .list (elementDicts xs)
  | .dict ms => .dict (memberDicts ms)
  | v => v

def elementDicts : List Json → List Json
  | [] => []
  | x :: xs => asDict x :: elementDicts xs

def memberDicts : List (List Nat × Json) → List (List Nat × Json)
  | [] => []
  | (k, x) :: ms => setFirst k (asDict x) (memberDicts ms)

end

section

local instance lawfulBEq_codes : LawfulBEq (List Nat) := inferInstance

mutual

/-- No object in the value has two members with one key. -/
def distinctKeys : Json → Bool
  | .list xs => elementsDistinct xs
  | .dict ms => membersDistinct ms
  | _ => true

def elementsDistinct : List Json → Bool
  | [] => true
  | x :: xs => distinctKeys x && elementsDistinct xs

def membersDistinct : List (List Nat × Json) → Bool
  | [] => true
  | (k, x) :: ms => decide (k ∉ ms.map Prod.fst) && distinctKeys x && membersDistinct ms

end

end

theorem memberCommas_filter (p : List Nat × Json → Bool) (ms : List (List Nat × Json)) :
    memberCommas (ms.filter p) ≤ memberCommas ms := by
  induction ms with
  | nil => exact Nat.le_refl _
  | cons m ms ih =>
    obtain ⟨k, x⟩ := m
    rw [List.filter_cons]
    split_ifs
    · rw [memberCommas, memberCommas]
      omega
    · rw [memberCommas]
      omega

theorem memberCommas_lookup (h : ms.lookup k = some y) :
    commas y + memberCommas (ms.filter fun m => decide (m.1 ≠ k)) ≤ memberCommas ms := by
  induction ms with
  | nil => cases h
  | cons m ms ih =>
    obtain ⟨j, x⟩ := m
    rw [List.lookup_cons] at h
    by_cases hk : j = k
    · subst hk
      rw [beq_self_eq_true] at h
      cases h
      have hle := memberCommas_filter (fun m => decide (m.1 ≠ j)) ms
      rw [List.filter_cons_of_neg (by simp), memberCommas]
      omega
    · rw [beq_false_of_ne (Ne.symm hk)] at h
      have hle := ih h
      rw [List.filter_cons_of_pos (by simpa using hk), memberCommas, memberCommas]
      omega

theorem memberCommas_setFirst (k : List Nat) (x : Json) (ms : List (List Nat × Json)) :
    memberCommas (setFirst k x ms) ≤ k.count 44 + commas x + memberCommas ms := by
  rw [setFirst, memberCommas]
  cases h : ms.lookup k with
  | none =>
    have hle := memberCommas_filter (fun m => decide (m.1 ≠ k)) ms
    rw [Option.getD_none]
    omega
  | some y =>
    have hle := memberCommas_lookup h
    rw [Option.getD_some]
    omega

mutual

theorem commas_asDict : ∀ v, commas (asDict v) ≤ commas v
  | .null => Nat.le_refl _
  | .bool _ => Nat.le_refl _
  | .int _ => Nat.le_refl _
  | .float _ => Nat.le_refl _
  | .str _ => Nat.le_refl _
  | .list xs => by
    rw [asDict, commas, commas]
    exact elementCommas_asDict xs
  | .dict ms => by
    rw [asDict, commas, commas]
    exact memberCommas_asDict ms

theorem elementCommas_asDict : ∀ xs, elementCommas (elementDicts xs) ≤ elementCommas xs
  | [] => Nat.le_refl _
  | x :: xs => by
    rw [elementDicts, elementCommas, elementCommas]
    exact Nat.add_le_add (commas_asDict x) (elementCommas_asDict xs)

theorem memberCommas_asDict : ∀ ms, memberCommas (memberDicts ms) ≤ memberCommas ms
  | [] => Nat.le_refl _
  | (k, x) :: ms => by
    have hx := commas_asDict x
    have hms := memberCommas_asDict ms
    have hset := memberCommas_setFirst k (asDict x) (memberDicts ms)
    rw [memberDicts, memberCommas]
    omega

end

theorem setFirst_of_not_mem (h : k ∉ ms.map Prod.fst) (x : Json) :
    setFirst k x ms = (k, x) :: ms := by
  have hlookup : ms.lookup k = none := by
    rw [List.lookup_eq_none_iff]
    intro m hm
    apply bne_iff_ne.2
    rintro rfl
    exact h (List.mem_map_of_mem hm)
  have hfilter : ms.filter (fun m => decide (m.1 ≠ k)) = ms := by
    rw [List.filter_eq_self]
    intro m hm
    apply decide_eq_true
    rintro rfl
    exact h (List.mem_map_of_mem hm)
  rw [setFirst, hlookup, hfilter, Option.getD_none]

mutual

theorem asDict_of_distinct : ∀ v, distinctKeys v = true → asDict v = v
  | .null, _ => rfl
  | .bool _, _ => rfl
  | .int _, _ => rfl
  | .float _, _ => rfl
  | .str _, _ => rfl
  | .list xs, h => by rw [asDict, elementDicts_of_distinct xs h]
  | .dict ms, h => by rw [asDict, memberDicts_of_distinct ms h]

theorem elementDicts_of_distinct : ∀ xs, elementsDistinct xs = true → elementDicts xs = xs
  | [], _ => rfl
  | x :: xs, h => by
    rw [elementsDistinct, Bool.and_eq_true] at h
    rw [elementDicts, asDict_of_distinct x h.1, elementDicts_of_distinct xs h.2]

theorem memberDicts_of_distinct : ∀ ms, membersDistinct ms = true → memberDicts ms = ms
  | [], _ => rfl
  | (k, x) :: ms, h => by
    rw [membersDistinct, Bool.and_eq_true, Bool.and_eq_true, decide_eq_true_eq] at h
    rw [memberDicts, asDict_of_distinct x h.1.2, memberDicts_of_distinct ms h.2,
      setFirst_of_not_mem h.1.1]

end

end Text
