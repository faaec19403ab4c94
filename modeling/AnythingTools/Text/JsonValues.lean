import AnythingTools.Text.JsonDumps
import AnythingTools.Text.ParseLlmJson

namespace Text
open Json
set_option autoImplicit true

variable {cs rest : List Char}

/-! ### What a parser returns can be written -/

theorem hexDigit_lt (h : hexDigit c = some d) : d < 16 := by
  rw [hexDigit] at h
  split_ifs at h with hdec hlower hupper
  · cases h
    rw [Char.isDigit, Bool.and_eq_true, decide_eq_true_eq, decide_eq_true_eq] at hdec
    have hle : c.toNat ≤ 57 := hdec.2
    have hzero : '0'.toNat = 48 := rfl
    omega
  · cases h
    have hle : c.toNat ≤ 102 := hlower.2
    have ha : 'a'.toNat = 97 := rfl
    omega
  · cases h
    have hle : c.toNat ≤ 70 := hupper.2
    have ha : 'A'.toNat = 65 := rfl
    omega

theorem hex4_lt (h : hex4 a b c d = some u) : u < 0x10000 := by
  simp only [hex4, Option.bind_eq_bind, Option.bind_eq_some_iff] at h
  obtain ⟨a', ha, b', hb, c', hc, d', hd, h⟩ := h
  cases h
  have ha := hexDigit_lt ha
  have hb := hexDigit_lt hb
  have hc := hexDigit_lt hc
  have hd := hexDigit_lt hd
  omega

theorem escape_lt (h : escape c = some u) : u < 0x10000 := by
  rw [escape.eq_def] at h
  split at h <;> cases h <;> decide

theorem toNat_lt (c : Char) : c.toNat < 0x110000 :=
  c.valid.elim (fun h => lt_trans h (by decide)) fun h => h.2

theorem units_lt (h : units cs = some (us, rest)) : ∀ u ∈ us, u < 0x110000 := by
  fun_induction units cs generalizing us rest with
  | case1 => cases h
  | case2 cs =>
    cases h
    exact fun u hu => absurd hu List.not_mem_nil
  | case3 a b c d cs ih =>
    simp only [Option.bind_eq_bind, Option.bind_eq_some_iff] at h
    obtain ⟨u, hu, ⟨us', rest'⟩, hr, h⟩ := h
    cases h
    exact List.forall_mem_cons.2 ⟨lt_trans (hex4_lt hu) (by decide), ih hr⟩
  | case4 c cs hne ih =>
    simp only [Option.bind_eq_bind, Option.bind_eq_some_iff] at h
    obtain ⟨u, hu, ⟨us', rest'⟩, hr, h⟩ := h
    cases h
    exact List.forall_mem_cons.2 ⟨lt_trans (escape_lt hu) (by decide), ih hr⟩
  | case5 c cs => cases h
  | case6 c cs _ _ _ _ ih =>
    simp only [Option.bind_eq_bind, Option.bind_eq_some_iff] at h
    obtain ⟨⟨us', rest'⟩, hr, h⟩ := h
    cases h
    exact List.forall_mem_cons.2 ⟨toNat_lt c, ih hr⟩

/-- The code points of a string are those of its units, but a joined pair is no surrogate. -/
theorem head?_joinSurrogates (h : (joinSurrogates us).head? = some w) (hw : isLow w = true) :
    us.head? = some w := by
  cases us with
  | nil => exact h
  | cons u us =>
    cases us with
    | nil => exact h
    | cons v us =>
      rw [joinSurrogates] at h
      split_ifs at h with hp
      · have hcode := Option.some.inj h
        have hlow := of_decide_eq_true hw
        omega
      · exact h

theorem joined_joinSurrogates (us : List Nat) : joined (joinSurrogates us) = true := by
  fun_induction joinSurrogates us with
  | case1 => rfl
  | case2 u => rfl
  | case3 u v us hp ih =>
    apply joined_cons_iff.2
    refine ⟨fun hhigh => ?_, ih⟩
    have hhigh := of_decide_eq_true hhigh
    omega
  | case4 u v us hp ih =>
    apply joined_cons_iff.2
    refine ⟨fun hhigh w hw => ?_, ih⟩
    rw [← Bool.not_eq_true]
    intro hlow
    have hv := head?_joinSurrogates hw hlow
    cases hv
    have hhigh := of_decide_eq_true hhigh
    have hlow := of_decide_eq_true hlow
    exact hp ⟨hhigh.1, hhigh.2, hlow.1, hlow.2⟩

theorem joinSurrogates_lt (h : ∀ u ∈ us, u < 0x110000) : ∀ u ∈ joinSurrogates us, u < 0x110000 := by
  fun_induction joinSurrogates us with
  | case1 => exact h
  | case2 u => exact h
  | case3 u v us hp ih =>
    refine List.forall_mem_cons.2 ⟨by omega, ih ?_⟩
    exact fun w hw => h w (List.mem_cons_of_mem _ (List.mem_cons_of_mem _ hw))
  | case4 u v us hp ih =>
    rw [List.forall_mem_cons] at h
    exact List.forall_mem_cons.2 ⟨h.1, ih h.2⟩

theorem writable_string (h : string cs = some (s, rest)) : writableString true s = true := by
  rw [string, Option.bind_eq_bind, Option.bind_eq_some_iff] at h
  obtain ⟨⟨us, rest'⟩, hu, h⟩ := h
  cases h
  rw [writableString_iff]
  exact ⟨joined_joinSurrogates us, fun u hu' => ⟨joinSurrogates_lt (units_lt hu) u hu', .inl rfl⟩⟩

/-- A value without weight is a number or a word. -/
theorem writable_of_weight (h : weight v = 0) : writable a v = true := by
  cases v with
  | str s => exact absurd h (by simp only [weight]; omega)
  | list xs => exact absurd h (by simp only [weight]; omega)
  | dict ms => exact absurd h (by simp only [weight]; omega)
  | _ => rfl

theorem parse_writable (f : Nat) :
    (∀ {cs v rest}, value f cs = some (v, rest) → writable true v = true) ∧
    (∀ {cs xs rest}, elements f cs = some (xs, rest) → writables true xs = true) ∧
    ∀ {cs ms rest}, members f cs = some (ms, rest) → writableMembers true ms = true := by
  induction f with
  | zero =>
    refine ⟨?_, ?_, ?_⟩ <;> intro _ _ _ h <;> cases h
  | succ f ih =>
    obtain ⟨ihv, ihe, ihm⟩ := ih
    refine ⟨?_, ?_, ?_⟩
    · intro cs v rest h
      cases cs with
      | nil => cases h
      | cons c cs =>
        rw [value] at h
        split_ifs at h
        · simp only [Option.bind_eq_bind, Option.bind_eq_some_iff] at h
          obtain ⟨⟨s, rest'⟩, hs, h⟩ := h
          cases h
          exact writable_string hs
        · split at h
          · cases h
            rfl
          · simp only [Option.bind_eq_bind, Option.bind_eq_some_iff] at h
            obtain ⟨⟨ms, rest'⟩, hms, h⟩ := h
            cases h
            exact ihm hms
        · split at h
          · cases h
            rfl
          · simp only [Option.bind_eq_bind, Option.bind_eq_some_iff] at h
            obtain ⟨⟨xs, rest'⟩, hxs, h⟩ := h
            cases h
            exact ihe hxs
        · split at h
          next hc =>
            cases h
            exact writable_of_weight (constant_length hc).1
          next => exact writable_of_weight (number_length h).1
    · intro cs xs rest h
      simp only [elements, Option.bind_eq_bind, Option.bind_eq_some_iff] at h
      obtain ⟨⟨x, rest'⟩, hx, h⟩ := h
      dsimp only at h
      split at h
      next cs' he =>
        cases h
        rw [writables, ihv hx]
        rfl
      next cs' he =>
        simp only [Option.bind_eq_some_iff] at h
        obtain ⟨⟨xs', rest''⟩, hxs, h⟩ := h
        cases h
        rw [writables, ihv hx, ihe hxs]
        rfl
      next => cases h
    · intro cs ms rest h
      cases cs with
      | nil => cases h
      | cons c cs =>
        rw [members] at h
        split_ifs at h
        simp only [Option.bind_eq_bind, Option.bind_eq_some_iff] at h
        obtain ⟨⟨k, rest₁⟩, hk, h⟩ := h
        dsimp only at h
        split at h
        next rest₂ he =>
          simp only [Option.bind_eq_some_iff] at h
          obtain ⟨⟨x, rest₃⟩, hx, h⟩ := h
          dsimp only at h
          split at h
          next rest₄ he' =>
            cases h
            rw [writableMembers, writable_string hk, ihv hx]
            rfl
          next rest₄ he' =>
            simp only [Option.bind_eq_some_iff] at h
            obtain ⟨⟨ms', rest₅⟩, hms, h⟩ := h
            cases h
            rw [writableMembers, writable_string hk, ihv hx, ihm hms]
            rfl
          next => cases h
        next => cases h

/-! ### Dicts -/

theorem writableMembers_iff {ms : List (List Nat × Json)} : writableMembers a ms = true ↔
    ∀ m ∈ ms, writableString a m.1 = true ∧ writable a m.2 = true := by
  induction ms with
  | nil => exact iff_of_true rfl fun m hm => absurd hm List.not_mem_nil
  | cons m ms ih =>
    obtain ⟨k, x⟩ := m
    rw [writableMembers, Bool.and_eq_true, Bool.and_eq_true, ih, List.forall_mem_cons]

theorem writableMembers_setFirst (hk : writableString a k = true) (hx : writable a x = true)
    (hms : writableMembers a ms = true) : writableMembers a (setFirst k x ms) = true := by
  rw [writableMembers_iff] at hms ⊢
  refine List.forall_mem_cons.2 ⟨⟨hk, ?_⟩, fun m hm => hms m (List.mem_filter.1 hm).1⟩
  cases h : ms.lookup k with
  | none => exact hx
  | some y =>
    obtain ⟨before, after, rfl, _⟩ := List.lookup_eq_some_iff.1 h
    exact (hms (k, y) (by simp)).2

mutual

theorem writable_asDict : ∀ v, writable a v = true → writable a (asDict v) = true
  | .null, _ => rfl
  | .bool _, _ => rfl
  | .int _, _ => rfl
  | .float _, _ => rfl
  | .str _, h => h
  | .list xs, h => writables_elementDicts xs h
  | .dict ms, h => writableMembers_memberDicts ms h

theorem writables_elementDicts : ∀ xs, writables a xs = true → writables a (elementDicts xs) = true
  | [], _ => rfl
  | x :: xs, h => by
    rw [writables, Bool.and_eq_true] at h
    rw [elementDicts, writables, writable_asDict x h.1, writables_elementDicts xs h.2]
    rfl

theorem writableMembers_memberDicts : ∀ ms, writableMembers a ms = true →
    writableMembers a (memberDicts ms) = true
  | [], _ => rfl
  | (k, x) :: ms, h => by
    rw [writableMembers, Bool.and_eq_true, Bool.and_eq_true] at h
    rw [memberDicts]
    exact writableMembers_setFirst h.1.1 (writable_asDict x h.1.2)
      (writableMembers_memberDicts ms h.2)

end

theorem membersDistinct_iff {ms : List (List Nat × Json)} : membersDistinct ms = true ↔
    (ms.map Prod.fst).Nodup ∧ ∀ m ∈ ms, distinctKeys m.2 = true := by
  induction ms with
  | nil => exact iff_of_true rfl ⟨List.nodup_nil, fun m hm => absurd hm List.not_mem_nil⟩
  | cons m ms ih =>
    obtain ⟨k, x⟩ := m
    rw [membersDistinct, Bool.and_eq_true, Bool.and_eq_true, decide_eq_true_eq, ih, List.map_cons,
      List.nodup_cons, List.forall_mem_cons]
    exact and_and_and_comm

theorem membersDistinct_setFirst (hx : distinctKeys x = true) (hms : membersDistinct ms = true) :
    membersDistinct (setFirst k x ms) = true := by
  rw [membersDistinct_iff] at hms ⊢
  obtain ⟨hkeys, hvalues⟩ := hms
  rw [setFirst, List.map_cons, List.nodup_cons]
  refine ⟨⟨?_, hkeys.sublist (List.filter_sublist.map _)⟩, List.forall_mem_cons.2 ⟨?_, ?_⟩⟩
  · intro hk
    obtain ⟨m, hm, hmk⟩ := List.mem_map.1 hk
    exact absurd hmk (of_decide_eq_true (List.mem_filter.1 hm).2)
  · cases h : ms.lookup k with
    | none => exact hx
    | some y =>
      obtain ⟨before, after, rfl, _⟩ := List.lookup_eq_some_iff.1 h
      exact hvalues (k, y) (by simp)
  · exact fun m hm => hvalues m (List.mem_filter.1 hm).1

mutual

theorem distinctKeys_asDict : ∀ v, distinctKeys (asDict v) = true
  | .null => rfl
  | .bool _ => rfl
  | .int _ => rfl
  | .float _ => rfl
  | .str _ => rfl
  | .list xs => elementsDistinct_elementDicts xs
  | .dict ms => membersDistinct_memberDicts ms

theorem elementsDistinct_elementDicts : ∀ xs, elementsDistinct (elementDicts xs) = true
  | [] => rfl
  | x :: xs => by
    rw [elementDicts, elementsDistinct, distinctKeys_asDict x, elementsDistinct_elementDicts xs]
    rfl

theorem membersDistinct_memberDicts : ∀ ms, membersDistinct (memberDicts ms) = true
  | [] => rfl
  | (k, x) :: ms => by
    rw [memberDicts]
    exact membersDistinct_setFirst (distinctKeys_asDict x) (membersDistinct_memberDicts ms)

end

/-! ### Floats as `repr` spells them -/

theorem keys_canonicalMembers (F : FloatText) (ms : List (List Nat × Json)) :
    (canonicalMembers F ms).map Prod.fst = ms.map Prod.fst := by
  induction ms with
  | nil => rfl
  | cons m ms ih =>
    obtain ⟨k, x⟩ := m
    rw [canonicalMembers, List.map_cons, List.map_cons, ih]

mutual

theorem canonical_canonical (F : FloatText) : ∀ v, canonical F (canonical F v) = canonical F v
  | .null => rfl
  | .bool _ => rfl
  | .int _ => rfl
  | .float lexeme => congrArg Json.float (F.idem lexeme)
  | .str _ => rfl
  | .list xs => congrArg Json.list (canonicals_canonicals F xs)
  | .dict ms => congrArg Json.dict (canonicalMembers_canonicalMembers F ms)

theorem canonicals_canonicals (F : FloatText) :
    ∀ xs, canonicals F (canonicals F xs) = canonicals F xs
  | [] => rfl
  | x :: xs => by
    rw [canonicals, canonicals, canonical_canonical F x, canonicals_canonicals F xs]

theorem canonicalMembers_canonicalMembers (F : FloatText) :
    ∀ ms, canonicalMembers F (canonicalMembers F ms) = canonicalMembers F ms
  | [] => rfl
  | (k, x) :: ms => by
    rw [canonicalMembers, canonicalMembers, canonical_canonical F x,
      canonicalMembers_canonicalMembers F ms]

end

mutual

theorem distinctKeys_canonical (F : FloatText) : ∀ v, distinctKeys (canonical F v) = distinctKeys v
  | .null => rfl
  | .bool _ => rfl
  | .int _ => rfl
  | .float _ => rfl
  | .str _ => rfl
  | .list xs => elementsDistinct_canonicals F xs
  | .dict ms => membersDistinct_canonicalMembers F ms

theorem elementsDistinct_canonicals (F : FloatText) :
    ∀ xs, elementsDistinct (canonicals F xs) = elementsDistinct xs
  | [] => rfl
  | x :: xs => by
    rw [canonicals, elementsDistinct, elementsDistinct, distinctKeys_canonical F x,
      elementsDistinct_canonicals F xs]

theorem membersDistinct_canonicalMembers (F : FloatText) :
    ∀ ms, membersDistinct (canonicalMembers F ms) = membersDistinct ms
  | [] => rfl
  | (k, x) :: ms => by
    rw [canonicalMembers, membersDistinct, membersDistinct, distinctKeys_canonical F x,
      membersDistinct_canonicalMembers F ms, keys_canonicalMembers]

end

mutual

theorem writable_canonical (F : FloatText) : ∀ v, writable a (canonical F v) = writable a v
  | .null => rfl
  | .bool _ => rfl
  | .int _ => rfl
  | .float _ => rfl
  | .str _ => rfl
  | .list xs => writables_canonicals F xs
  | .dict ms => writableMembers_canonicalMembers F ms

theorem writables_canonicals (F : FloatText) : ∀ xs, writables a (canonicals F xs) = writables a xs
  | [] => rfl
  | x :: xs => by
    rw [canonicals, writables, writables, writable_canonical F x, writables_canonicals F xs]

theorem writableMembers_canonicalMembers (F : FloatText) :
    ∀ ms, writableMembers a (canonicalMembers F ms) = writableMembers a ms
  | [] => rfl
  | (k, x) :: ms => by
    rw [canonicalMembers, writableMembers, writableMembers, writable_canonical F x,
      writableMembers_canonicalMembers F ms]

end

/-! ### With `ensure_ascii` the text is ASCII -/

def IsAscii (cs : List Char) : Prop := ∀ c ∈ cs, c.toNat < 128

instance (cs : List Char) : Decidable (IsAscii cs) := List.decidableBAll _ cs

theorem IsAscii.append (hcs : IsAscii cs) (hrest : IsAscii rest) : IsAscii (cs ++ rest) :=
  List.forall_mem_append.2 ⟨hcs, hrest⟩

theorem IsAscii.cons (hc : c.toNat < 128) (hcs : IsAscii cs) : IsAscii (c :: cs) :=
  List.forall_mem_cons.2 ⟨hc, hcs⟩

theorem isAscii_nil : IsAscii [] := fun _ h => absurd h List.not_mem_nil

theorem isAscii_digits (h : ∀ c ∈ cs, c.isDigit = true) : IsAscii cs := by
  intro c hc
  have hle : c.toNat ≤ '9'.toNat := (Char.isDigit_iff_toNat.1 (h c hc)).2
  have hnine : '9'.toNat = 57 := rfl
  omega

theorem isAscii_intText (n : Int) : IsAscii (intText n) := by
  have hdigits : IsAscii (Nat.toDigits 10 n.natAbs) := isAscii_digits (isWhole_toDigits _).isDigit
  rw [intText]
  split_ifs
  · exact hdigits.cons (by decide)
  · exact hdigits

theorem isAscii_sign (h : sg = [] ∨ sg = ['-'] ∨ sg = ['+']) : IsAscii sg := by
  rcases h with rfl | rfl | rfl
  · exact isAscii_nil
  · exact isAscii_nil.cons (by decide)
  · exact isAscii_nil.cons (by decide)

theorem IsFloat.isAscii (h : IsFloat cs) : IsAscii cs := by
  obtain ⟨sg, ds, fr, ex, hsg, hds, hfr, hex, _, rfl⟩ := h
  have hsg : IsAscii sg := isAscii_sign (hsg.imp_right .inl)
  have hfr : IsAscii fr := by
    rcases hfr with rfl | ⟨ds, _, hds, rfl⟩
    · exact isAscii_nil
    · exact (isAscii_digits hds).cons (by decide)
  have hex : IsAscii ex := by
    rcases hex with rfl | ⟨sg, ds, hsg, _, hds, rfl⟩
    · exact isAscii_nil
    · exact ((isAscii_sign hsg).append (isAscii_digits hds)).cons (by decide)
  exact ((hsg.append (isAscii_digits hds.isDigit)).append hfr).append hex

theorem isAscii_floatText (F : FloatText) (lexeme : String) :
    IsAscii (floatText (F.repr lexeme)) := by
  rw [floatText]
  split_ifs with hnan hinf hneg
  · decide
  · decide
  · decide
  · rcases F.spelled lexeme with hword | hfloat
    · simp only [List.mem_cons, List.not_mem_nil, or_false] at hword
      rcases hword with h | h | h
      · exact (hnan h).elim
      · exact (hinf h).elim
      · exact (hneg h).elim
    · exact hfloat.isAscii

theorem isAscii_unitText (u : Nat) : IsAscii (unitText u) := by
  have hdigit : ∀ d < 16, d.digitChar.toNat < 128 := by decide
  refine .cons (by decide) (.cons (by decide) (.cons (hdigit _ (by omega)) (.cons (hdigit _ (by omega))
    (.cons (hdigit _ (by omega)) (.cons (hdigit _ (by omega)) isAscii_nil)))))

theorem isAscii_charText (u : Nat) : IsAscii (charText true u) := by
  rw [charText]
  split_ifs with _ _ _ _ _ _ _ _ hplain
  iterate 7 exact .cons (by decide) (.cons (by decide) isAscii_nil)
  · exact isAscii_unitText u
  · have hlt : u < 127 := hplain.resolve_left (by decide)
    refine .cons ?_ isAscii_nil
    rw [toNat_ofNat (.inl (by omega))]
    omega
  · exact isAscii_unitText u
  · exact (isAscii_unitText _).append (isAscii_unitText _)

theorem isAscii_stringText (s : List Nat) : IsAscii (stringText true s) := by
  refine .cons (by decide) (.append ?_ (.cons (by decide) isAscii_nil))
  intro c hc
  obtain ⟨u, _, hu⟩ := List.mem_flatMap.1 hc
  exact isAscii_charText u c hu

mutual

theorem isAscii_dumps (F : FloatText) : ∀ v, IsAscii (dumps F true v)
  | .null => show IsAscii "null".toList by decide
  | .bool true => show IsAscii "true".toList by decide
  | .bool false => show IsAscii "false".toList by decide
  | .int n => isAscii_intText n
  | .float lexeme => isAscii_floatText F lexeme
  | .str s => isAscii_stringText s
  | .list xs => .cons (by decide) ((isAscii_elementTexts F xs).append (by decide))
  | .dict ms => .cons (by decide) ((isAscii_memberTexts F ms).append (by decide))

theorem isAscii_elementTexts (F : FloatText) : ∀ xs, IsAscii (elementTexts F true xs)
  | [] => isAscii_nil
  | [x] => by
    rw [elementTexts_single]
    exact isAscii_dumps F x
  | x :: y :: xs => by
    rw [elementTexts_cons]
    exact (isAscii_dumps F x).append
      (.cons (by decide) (.cons (by decide) (isAscii_elementTexts F (y :: xs))))

theorem isAscii_memberTexts (F : FloatText) : ∀ ms, IsAscii (memberTexts F true ms)
  | [] => isAscii_nil
  | [(k, x)] => by
    rw [memberTexts_single]
    exact (isAscii_stringText k).append (.cons (by decide) (.cons (by decide) (isAscii_dumps F x)))
  | (k, x) :: m :: ms => by
    rw [memberTexts_cons]
    exact (isAscii_stringText k).append (.cons (by decide) (.cons (by decide)
      ((isAscii_dumps F x).append
        (.cons (by decide) (.cons (by decide) (isAscii_memberTexts F (m :: ms)))))))

end

/-! ### Values -/

/-- `json.loads`, with the floats of the value as `repr` spells them. -/
def loadsValue (F : FloatText) (text : List Char) : Option Json := (loads text).map (canonical F)

/-- A value as Python holds it. -/
structure IsValue (F : FloatText) (v : Json) : Prop where
  canonical : canonical F v = v
  distinct : distinctKeys v = true

theorem canonicalMembers_eq_iff (F : FloatText) (ms : List (List Nat × Json)) :
    canonicalMembers F ms = ms ↔ ∀ m ∈ ms, Text.canonical F m.2 = m.2 := by
  induction ms with
  | nil => exact iff_of_true rfl fun m hm => absurd hm List.not_mem_nil
  | cons m ms ih =>
    obtain ⟨k, x⟩ := m
    rw [canonicalMembers, List.cons.injEq, ih, List.forall_mem_cons, Prod.mk.injEq]
    exact and_congr_left' (and_iff_right rfl)

theorem isValue_dict {ms : List (List Nat × Json)} : IsValue F (.dict ms) ↔
    (ms.map Prod.fst).Nodup ∧ ∀ m ∈ ms, IsValue F m.2 := by
  have hcanonical := canonicalMembers_eq_iff F ms
  constructor
  · rintro ⟨hc, hd⟩
    obtain ⟨hkeys, hvalues⟩ := membersDistinct_iff.1 hd
    exact ⟨hkeys, fun m hm => ⟨hcanonical.1 (Json.dict.inj hc) m hm, hvalues m hm⟩⟩
  · rintro ⟨hkeys, hvalues⟩
    exact ⟨congrArg Json.dict (hcanonical.2 fun m hm => (hvalues m hm).canonical),
      membersDistinct_iff.2 ⟨hkeys, fun m hm => (hvalues m hm).distinct⟩⟩

theorem isValue_list {xs : List Json} (h : ∀ x ∈ xs, IsValue F x) : IsValue F (.list xs) := by
  induction xs with
  | nil => exact ⟨rfl, rfl⟩
  | cons x xs ih =>
    rw [List.forall_mem_cons] at h
    obtain ⟨hc, hd⟩ := ih h.2
    refine ⟨congrArg Json.list ?_, ?_⟩
    · rw [canonicals, h.1.canonical, Json.list.inj hc]
    · rw [distinctKeys, elementsDistinct, h.1.distinct, Bool.true_and]
      exact hd

theorem isValue_text (F : FloatText) (s : String) : IsValue F (Json.text s) := ⟨rfl, rfl⟩

theorem isHigh_toNat (c : Char) : isHigh c.toNat = false := by
  apply decide_eq_false
  rcases c.valid with h | h
  · exact fun hhigh => absurd h (Nat.not_lt.2 hhigh.1)
  · exact fun hhigh => absurd h.1 (Nat.not_lt.2 (hhigh.2.trans (by decide)))

theorem joined_chars (cs : List Char) : joined (cs.map Char.toNat) = true := by
  induction cs with
  | nil => rfl
  | cons c cs ih =>
    exact joined_cons_iff.2 ⟨fun hhigh => absurd hhigh (by rw [isHigh_toNat]; decide), ih⟩

/-- The characters of a text can be written. -/
theorem writableString_chars (a : Bool) (cs : List Char) :
    writableString a (cs.map Char.toNat) = true := by
  refine writableString_iff.2 ⟨joined_chars cs, ?_⟩
  intro u hu
  obtain ⟨c, _, rfl⟩ := List.mem_map.1 hu
  exact ⟨toNat_lt c, .inr c.valid⟩

theorem isValue_of_loadsValue {text : List Char} (h : loadsValue F text = some v) :
    IsValue F v ∧ writable true v = true := by
  rw [loadsValue, loads, Option.map_map, Option.map_eq_some_iff] at h
  obtain ⟨u, hu, rfl⟩ := h
  obtain ⟨rest, hvalue, _⟩ := loads_some hu
  have hwritable := writable_asDict u ((parse_writable _).1 hvalue)
  exact ⟨⟨canonical_canonical F _, (distinctKeys_canonical F _).trans (distinctKeys_asDict u)⟩,
    (writable_canonical F _).trans hwritable⟩

theorem value_mark (f : Nat) (cs : List Char) : value f ('\uFEFF' :: cs) = none := by
  cases f with
  | zero => rfl
  | succ f =>
    rw [value_scalar (by decide) (by decide) (by decide)]
    exact scalar_none (by decide) cs

/-- What is written is read back as the same value. -/
theorem loadsValue_dumps (hv : IsValue F v) (h : writable a v = true) :
    loadsValue F (dumps F a v) = some v := by
  have hread := value_dumps F a v h (2 * (dumps F a v).length + 2) [] ends_nil (by omega)
  rw [List.append_nil, hv.canonical] at hread
  have hmark : (dumps F a v).head? ≠ some '\uFEFF' := by
    intro hm
    obtain ⟨cs, hcs⟩ := List.head?_eq_some_iff.1 hm
    rw [hcs, value_mark] at hread
    cases hread
  rw [loadsValue, loads, Json.loads, String.toList_ofList]
  dsimp only
  rw [if_neg hmark, skipWs_value hread, hread]
  dsimp only [Option.bind_eq_bind, Option.bind_some]
  have hend : skipWs [] = [] := rfl
  rw [if_pos hend, Option.map_some, Option.map_some, asDict_of_distinct v hv.distinct, hv.canonical]

end Text
