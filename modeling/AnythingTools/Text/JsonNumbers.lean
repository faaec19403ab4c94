import AnythingTools.Text.JsonLiterals

namespace Text
open Sync Json
set_option autoImplicit true

variable {c d : Char} {w cs rest : List Char}

/-- What is put in place of a text does not begin with a letter that the text does not
begin with, unless it is a closing bracket. -/
theorem head?_mend_ne (hs : cs.head? ≠ some d) (hd : isCloser d = false) :
    (mend cs).head? ≠ some d := by
  cases cs with
  | nil => exact hs
  | cons c cs =>
    obtain h | h | ⟨b, rest, hb, _, h⟩ := mend_head c cs
    · rw [h]
      exact fun hn => nomatch hn
    · rw [h]
      exact hs
    · rw [h]
      intro hsome
      cases hsome
      rw [hb] at hd
      cases hd

/-- A reader that takes the same letters off the text and off what is put in its place. -/
def Steady (r : List Char → List Char × List Char) : Prop :=
  ∀ cs, r (mend cs) = ((r cs).1, mend (r cs).2) ∧ commaHits cs = commaHits (r cs).2

theorem isDigit_between (h : c.isDigit = true) : 48 ≤ c.toNat ∧ c.toNat ≤ 57 := by
  simp only [Char.isDigit, Bool.and_eq_true, decide_eq_true_eq] at h
  exact h

theorem isDigit_plain (h : c.isDigit = true) : Plain c :=
  have hb := isDigit_between h
  plain_of_between (by omega) (by omega)

theorem isDigit_not_closer (h : c.isDigit = true) : isCloser c = false := by
  have hb := isDigit_between h
  rw [isCloser, Bool.or_eq_false_iff, decide_eq_false_iff_not, decide_eq_false_iff_not]
  constructor
  · rintro rfl
    exact absurd hb (by decide)
  · rintro rfl
    exact absurd hb (by decide)

theorem digits_of_head (h : ∀ d, cs.head? = some d → d.isDigit = false) : digits cs = ([], cs) := by
  cases cs with
  | nil => rfl
  | cons c cs =>
    have hc := h c rfl
    rw [digits, List.takeWhile_cons_of_neg (by rw [hc]; decide),
      List.dropWhile_cons_of_neg (by rw [hc]; decide)]

theorem digits_steady : Steady digits := by
  intro cs
  induction cs with
  | nil => exact ⟨rfl, rfl⟩
  | cons c cs ih =>
    cases hc : c.isDigit with
    | true =>
      have hd (t : List Char) : digits (c :: t) = (c :: (digits t).1, (digits t).2) := by
        rw [digits, List.takeWhile_cons_of_pos hc, List.dropWhile_cons_of_pos hc, digits]
      rw [mend_cons_plain (isDigit_plain hc), hd, hd, ih.1, commaHits_of_ne (isDigit_plain hc).2]
      exact ⟨rfl, ih.2⟩
    | false =>
      have hcs : digits (c :: cs) = ([], c :: cs) := by
        apply digits_of_head
        intro d hd
        cases hd
        exact hc
      have hmend : digits (mend (c :: cs)) = ([], mend (c :: cs)) := by
        apply digits_of_head
        intro d hd
        rw [Bool.eq_false_iff]
        intro hdigit
        refine head?_mend_ne ?_ (isDigit_not_closer hdigit) hd
        rintro h
        cases h
        rw [hdigit] at hc
        cases hc
      rw [hcs, hmend]
      exact ⟨rfl, rfl⟩

theorem sign_of_head (h : ∀ d, cs.head? = some d → d ∉ signs) : sign signs cs = ([], cs) := by
  cases cs with
  | nil => rfl
  | cons c cs => rw [sign, if_neg (h c rfl)]

theorem plain_of_all (h : w.all (fun c => Plain c ∧ isCloser c = false) = true) :
    ∀ c ∈ w, Plain c ∧ isCloser c = false :=
  fun c hc => of_decide_eq_true (List.all_eq_true.1 h c hc)

theorem sign_steady (hs : ∀ c ∈ signs, Plain c ∧ isCloser c = false) : Steady (sign signs) := by
  intro cs
  cases cs with
  | nil => exact ⟨rfl, rfl⟩
  | cons c cs =>
    by_cases hc : c ∈ signs
    · have hp := (hs c hc).1
      rw [mend_cons_plain hp, sign, sign, if_pos hc, if_pos hc, commaHits_of_ne hp.2]
      exact ⟨rfl, rfl⟩
    · have hmend : sign signs (mend (c :: cs)) = ([], mend (c :: cs)) := by
        apply sign_of_head
        intro d hd hdm
        refine head?_mend_ne ?_ (hs d hdm).2 hd
        rintro h
        cases h
        exact hc hdm
      rw [hmend, sign, if_neg hc]
      exact ⟨rfl, rfl⟩

theorem fraction_of_head (h : cs.head? ≠ some '.') : fraction cs = ([], cs) := by
  rw [fraction]
  rintro cs rfl
  exact h rfl

theorem fraction_steady : Steady fraction := by
  intro cs
  by_cases hdot : cs.head? = some '.'
  · obtain ⟨t, rfl⟩ := List.head?_eq_some_iff.1 hdot
    have hplain : Plain '.' := by decide
    obtain ⟨hd, hits⟩ := digits_steady t
    rw [mend_cons_plain hplain, fraction, fraction, hd, commaHits_of_ne hplain.2]
    dsimp only
    split_ifs with hnil
    · rw [mend_cons_plain hplain, commaHits_of_ne hplain.2]
      exact ⟨rfl, rfl⟩
    · exact ⟨rfl, hits⟩
  · rw [fraction_of_head hdot, fraction_of_head (head?_mend_ne hdot (by decide))]
    exact ⟨rfl, rfl⟩

theorem exponent_steady : Steady exponent := by
  intro cs
  cases cs with
  | nil => exact ⟨rfl, rfl⟩
  | cons e cs =>
    by_cases he : e = 'e' ∨ e = 'E'
    · have hplain : Plain e := by
        obtain rfl | rfl := he
        · decide
        · decide
      have hsign : Steady (sign ['+', '-']) := sign_steady (plain_of_all (by decide))
      obtain ⟨hs, hits⟩ := hsign cs
      obtain ⟨hd, hits'⟩ := digits_steady (sign ['+', '-'] cs).2
      rw [mend_cons_plain hplain, exponent, exponent, if_pos he, if_pos he, hs,
        commaHits_of_ne hplain.2]
      dsimp only
      rw [hd]
      dsimp only
      split_ifs with hnil
      · rw [mend_cons_plain hplain, commaHits_of_ne hplain.2]
        exact ⟨rfl, rfl⟩
      · exact ⟨rfl, hits.trans hits'⟩
    · have hne (d : Char) (hd : d = 'e' ∨ d = 'E') : (mend (e :: cs)).head? ≠ some d := by
        apply head?_mend_ne
        · rintro h
          cases h
          exact he hd
        · obtain rfl | rfl := hd
          · decide
          · decide
      have hmend : exponent (mend (e :: cs)) = ([], mend (e :: cs)) := by
        cases hm : mend (e :: cs) with
        | nil => rfl
        | cons d t =>
          rw [exponent, if_neg]
          intro hd
          exact hne d hd (by rw [hm]; rfl)
      rw [hmend, exponent, if_neg he]
      exact ⟨rfl, rfl⟩

/-- As `Steady`, for a reader that can fail. -/
def SteadyOption (r : List Char → Option (α × List Char)) : Prop :=
  ∀ cs, r (mend cs) = (r cs).map (fun p => (p.1, mend p.2)) ∧
    ∀ p, r cs = some p → commaHits cs = commaHits p.2

theorem whole_of_head (h : cs.head? ≠ some '0') :
    whole cs = if (digits cs).1 = [] then none else some (digits cs) := by
  rw [whole]
  rintro cs rfl
  exact h rfl

theorem whole_steady : SteadyOption whole := by
  intro cs
  by_cases hz : cs.head? = some '0'
  · obtain ⟨t, rfl⟩ := List.head?_eq_some_iff.1 hz
    have hplain : Plain '0' := by decide
    rw [mend_cons_plain hplain]
    refine ⟨rfl, ?_⟩
    intro p hp
    cases hp
    exact commaHits_of_ne hplain.2 t
  · obtain ⟨hd, hits⟩ := digits_steady cs
    rw [whole_of_head hz, whole_of_head (head?_mend_ne hz (by decide)), hd]
    dsimp only
    split_ifs with hnil
    · exact ⟨rfl, fun p hp => by cases hp⟩
    · refine ⟨rfl, ?_⟩
      intro p hp
      cases hp
      exact hits

theorem number_steady : SteadyOption number := by
  intro cs
  have hsign : Steady (sign ['-']) := sign_steady (plain_of_all (by decide))
  obtain ⟨hs, hits⟩ := hsign cs
  obtain ⟨hw, hits'⟩ := whole_steady (sign ['-'] cs).2
  rw [number, number, hs]
  dsimp only
  rw [hw]
  cases hwhole : whole (sign ['-'] cs).2 with
  | none => exact ⟨rfl, fun p hp => by cases hp⟩
  | some w =>
    obtain ⟨ds, t⟩ := w
    obtain ⟨hf, hits₁⟩ := fraction_steady t
    obtain ⟨he, hits₂⟩ := exponent_steady (fraction t).2
    have htail : commaHits cs = commaHits (exponent (fraction t).2).2 :=
      ((hits.trans (hits' _ hwhole)).trans hits₁).trans hits₂
    simp only [Option.map_some, Option.bind_eq_bind, Option.bind_some, hf, he]
    by_cases hint : (fraction t).1 = [] ∧ (exponent (fraction t).2).1 = []
    · rw [if_pos hint, if_pos hint]
      refine ⟨rfl, ?_⟩
      intro p hp
      cases hp
      exact htail
    · rw [if_neg hint, if_neg hint]
      refine ⟨rfl, ?_⟩
      intro p hp
      cases hp
      exact htail

theorem isPrefixOf_mend (hw : ∀ c ∈ w, Plain c ∧ isCloser c = false) (cs : List Char) :
    w.isPrefixOf (mend cs) = w.isPrefixOf cs := by
  induction w generalizing cs with
  | nil => rfl
  | cons c w ih =>
    rw [List.forall_mem_cons] at hw
    by_cases hc : cs.head? = some c
    · obtain ⟨t, rfl⟩ := List.head?_eq_some_iff.1 hc
      rw [mend_cons_plain hw.1.1, List.isPrefixOf_cons_cons, List.isPrefixOf_cons_cons, ih hw.2]
    · have hno (ds : List Char) (hne : ds.head? ≠ some c) : (c :: w).isPrefixOf ds = false := by
        cases ds with
        | nil => rfl
        | cons d ds =>
          rw [List.isPrefixOf_cons_cons, Bool.and_eq_false_iff]
          exact .inl (beq_eq_false_iff_ne.2 fun h => hne (by rw [h]; rfl))
      rw [hno cs hc, hno _ (head?_mend_ne hc hw.1.2)]

theorem constants_plain : ∀ w ∈ constants, ∀ c ∈ w.1.toList, Plain c ∧ isCloser c = false := by
  have hall : (constants.all fun w => w.1.toList.all fun c => Plain c ∧ isCloser c = false) =
      true := by
    decide +kernel
  exact fun w hw => plain_of_all (List.all_eq_true.1 hall w hw)

theorem drop_mend (hw : ∀ c ∈ w, Plain c) (hp : w.isPrefixOf cs = true) :
    (mend cs).drop w.length = mend (cs.drop w.length) ∧
      commaHits cs = commaHits (cs.drop w.length) := by
  obtain ⟨t, rfl⟩ := List.isPrefixOf_iff_prefix.1 hp
  rw [mend_plain hw, List.drop_left, List.drop_left, commaHits_plain hw]
  exact ⟨rfl, rfl⟩

theorem constant_steady : SteadyOption constant := by
  have hall : ∀ ws : List (String × Json),
      (∀ w ∈ ws, ∀ c ∈ w.1.toList, Plain c ∧ isCloser c = false) →
      SteadyOption fun cs => ws.findSome? fun w =>
        if w.1.toList.isPrefixOf cs then some (w.2, cs.drop w.1.length) else none := by
    intro ws hws cs
    induction ws with
    | nil => exact ⟨rfl, fun p hp => by cases hp⟩
    | cons w ws ih =>
      rw [List.forall_mem_cons] at hws
      dsimp only at ih ⊢
      rw [List.findSome?_cons, List.findSome?_cons, isPrefixOf_mend hws.1]
      cases hp : w.1.toList.isPrefixOf cs with
      | false => exact ih hws.2
      | true =>
        have hd := drop_mend (fun c hc => (hws.1 c hc).1) hp
        rw [String.length_toList] at hd
        rw [if_pos rfl, if_pos rfl, hd.1]
        refine ⟨rfl, ?_⟩
        intro p hsome
        cases hsome
        exact hd.2
  exact hall constants constants_plain

/-- What a value is that is neither a string nor an object nor an array. -/
def scalar (cs : List Char) : Option (Json × List Char) :=
  match constant cs with
  | some r => some r
  | none => number cs

theorem scalar_steady : SteadyOption scalar := by
  intro cs
  obtain ⟨hc, hits⟩ := constant_steady cs
  obtain ⟨hn, hits'⟩ := number_steady cs
  rw [scalar, scalar, hc]
  cases hconst : constant cs with
  | none => exact ⟨hn, hits'⟩
  | some r =>
    refine ⟨rfl, ?_⟩
    intro p hp
    cases hp
    exact hits _ hconst

theorem constants_nonempty : ∀ w ∈ constants, w.1.toList ≠ [] := by
  decide +kernel

/-- The first letter of a number or of a word. -/
theorem scalar_head (h : scalar (c :: cs) = some r) : Plain c ∧ isCloser c = false := by
  rw [scalar] at h
  cases hconst : constant (c :: cs) with
  | some q =>
    obtain ⟨w, hw, hq⟩ := List.exists_of_findSome?_eq_some hconst
    split_ifs at hq with hp
    obtain ⟨t, ht⟩ := List.isPrefixOf_iff_prefix.1 hp
    cases hl : w.1.toList with
    | nil => exact absurd hl (constants_nonempty w hw)
    | cons d ds =>
      rw [hl] at ht
      cases ht
      exact constants_plain w hw c (by rw [hl]; exact List.mem_cons_self)
  | none =>
    rw [hconst] at h
    dsimp only at h
    simp only [number, Option.bind_eq_bind, Option.bind_eq_some_iff] at h
    obtain ⟨⟨ds, t⟩, hw, _⟩ := h
    by_cases hm : c ∈ ['-']
    · rw [List.mem_singleton] at hm
      subst hm
      decide
    · rw [sign, if_neg hm] at hw
      have hd : c.isDigit = true := by
        by_contra hd
        rw [whole_of_head, digits_of_head] at hw
        · cases hw
        · intro d hsome
          cases hsome
          exact Bool.eq_false_iff.2 hd
        · intro hsome
          cases hsome
          exact hd rfl
      exact ⟨isDigit_plain hd, isDigit_not_closer hd⟩

end Text
