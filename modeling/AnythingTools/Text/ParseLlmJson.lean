import AnythingTools.Text.EscapeMarkdown
import AnythingTools.Text.JsonDocuments

namespace Text
open Sync
set_option autoImplicit true

variable {text cs : List Char}

/-- `(?:json)?`, in any case; a long s is an s then. -/
def dropLabel : List Char → List Char
  | a :: b :: c :: d :: cs =>
    if a ∈ ['j', 'J'] ∧ b ∈ ['s', 'S', 'ſ'] ∧ c ∈ ['o', 'O'] ∧ d ∈ ['n', 'N'] then cs
    else a :: b :: c :: d :: cs
  | cs => cs

/-- The group of the first fence that is closed, with the blanks around it. -/
def fencedContent (text : List Char) : Option (List Char) :=
  (upTo fence text).bind fun (_, cs) => (upTo fence (dropLabel cs)).map Prod.fst

/-- `json.loads`: of two members with one key the last counts. -/
def loads (text : List Char) : Option Json := (Json.loads (String.ofList text)).map asDict

def parseLlmJson (text : List Char) : Json :=
  let jsonString := repair false (strip ((fencedContent text).getD text))
  if jsonString = [] then .dict []
  else (loads jsonString).getD (.dict [])

/-- A comma with nothing but blanks between it and a closing bracket. -/
def TrailingComma (text : List Char) : Prop :=
  ∃ before blanks closer after, text = before ++ ',' :: (blanks ++ closer :: after) ∧
    (∀ c ∈ blanks, isSpace c = true) ∧ isCloser closer = true

theorem trailingComma_iff : trailingComma (',' :: cs) = true ↔
    ∃ blanks closer after, cs = blanks ++ closer :: after ∧
      (∀ c ∈ blanks, isSpace c = true) ∧ isCloser closer = true := by
  constructor
  · intro h
    obtain ⟨closer, after, hc, hl⟩ := trailing_closer h
    refine ⟨cs.takeWhile isSpace, closer, after, ?_, ?_, hc⟩
    · rw [← hl, lstrip, List.takeWhile_append_dropWhile]
    · exact fun c hm => List.mem_takeWhile_imp hm
  · rintro ⟨blanks, closer, after, rfl, hblanks, hc⟩
    rw [trailingComma, lstrip, List.dropWhile_append_of_pos hblanks,
      List.dropWhile_cons_of_neg (by rw [isSpace_closer hc]; decide)]
    exact hc

theorem commaHits_eq_zero_iff : commaHits text = 0 ↔ ¬TrailingComma text := by
  induction text with
  | nil =>
    refine ⟨fun _ => ?_, fun _ => rfl⟩
    rintro ⟨before, blanks, closer, after, h, _⟩
    exact absurd h.symm (by simp)
  | cons c cs ih =>
    have hcons : TrailingComma (c :: cs) ↔ trailingComma (c :: cs) = true ∨ TrailingComma cs := by
      constructor
      · rintro ⟨before, blanks, closer, after, h, hrest⟩
        cases before with
        | nil =>
          cases h
          exact .inl (trailingComma_iff.2 ⟨blanks, closer, after, rfl, hrest⟩)
        | cons b before =>
          cases h
          exact .inr ⟨before, blanks, closer, after, rfl, hrest⟩
      · rintro (h | ⟨before, blanks, closer, after, h, hrest⟩)
        · obtain rfl := comma_of_trailing h
          obtain ⟨blanks, closer, after, hcs, hrest⟩ := trailingComma_iff.1 h
          exact ⟨[], blanks, closer, after, by rw [hcs]; rfl, hrest⟩
        · exact ⟨c :: before, blanks, closer, after, by rw [h]; rfl, hrest⟩
    rw [hcons, not_or, ← ih, commaHits, Nat.add_eq_zero_iff]
    refine and_congr_left fun _ => ?_
    split_ifs with h
    · exact ⟨fun hn => absurd hn (by decide), fun hn => absurd h hn⟩
    · exact ⟨fun _ => h, fun _ => rfl⟩

theorem repair_length (dropping : Bool) (s : List Char) :
    (repair dropping s).length ≤ s.length := by
  fun_induction repair dropping s with
  | case1 => exact Nat.le_refl _
  | case2 dropping c cs h ih => exact Nat.le_succ_of_le ih
  | case3 dropping c cs h ht ih => exact Nat.le_succ_of_le ih
  | case4 dropping c cs h ht ih => exact Nat.succ_le_succ ih

theorem mend_length (s : List Char) : (mend s).length ≤ s.length := by
  have hr := repair_length false (rstrip s)
  have hs : (rstrip s).length ≤ s.length := by
    rw [rstrip, List.length_reverse]
    exact (List.length_dropWhile_le isSpace s.reverse).trans_eq List.length_reverse
  rw [mend]
  omega

theorem value_dict_head (h : Json.value f cs = some (.dict ms, rest)) :
    ∃ t, cs = '\x7b' :: t := by
  obtain ⟨c, t, rfl, _⟩ := value_start h
  cases f with
  | zero => cases h
  | succ f =>
    by_cases hb : c = '\x7b'
    · exact ⟨t, by rw [hb]⟩
    · exfalso
      rw [Json.value, if_neg hb] at h
      split_ifs at h
      · simp only [Option.bind_eq_bind, Option.bind_eq_some_iff] at h
        obtain ⟨s, hs, h⟩ := h
        cases h
      · split at h
        · cases h
        · simp only [Option.bind_eq_bind, Option.bind_eq_some_iff] at h
          obtain ⟨xs, hx, h⟩ := h
          cases h
      · have hscalar : scalar (c :: t) = some (.dict ms, rest) := h
        have hw := scalar_weight hscalar
        rw [Json.weight] at hw
        omega

theorem loads_some (h : Json.loads (String.ofList text) = some v) :
    ∃ rest, Json.value (2 * text.length + 2) (Json.skipWs text) = some (v, rest) ∧
      Json.skipWs rest = [] := by
  unfold Json.loads at h
  rw [String.toList_ofList] at h
  dsimp only at h
  split_ifs at h
  simp only [Option.bind_eq_bind, Option.bind_eq_some_iff] at h
  obtain ⟨⟨u, rest⟩, hv, h⟩ := h
  dsimp only at h
  split_ifs at h with hrest
  cases h
  exact ⟨rest, hv, hrest⟩

theorem loads_of_value (hhead : cs.head? = some '\x7b')
    (hv : Json.value (2 * cs.length + 2) cs = some (v, rest)) (hrest : Json.skipWs rest = []) :
    Json.loads (String.ofList cs) = some v := by
  obtain ⟨t, rfl⟩ := List.head?_eq_some_iff.1 hhead
  rw [Json.loads, String.toList_ofList]
  dsimp only
  rw [hhead, if_neg (by decide), skipWs_cons (by decide), hv]
  dsimp only [Option.bind_eq_bind, Option.bind_some]
  rw [if_pos hrest]

/-- An object is parsed as it is repaired: each comma that is dropped is one of a string. -/
theorem parseLlmJson_dropped (hdoc : Json.loads (String.ofList text) = some (.dict ms))
    (hfence : fencedContent text = none) :
    ∃ v, parseLlmJson text = asDict v ∧ commas v + commaHits text = commas (.dict ms) ∧
      (commaHits text = 0 → v = .dict ms) := by
  obtain ⟨rest, hv, hrest⟩ := loads_some hdoc
  obtain ⟨t, ht⟩ := value_dict_head hv
  have hbrace : Plain '\x7b' := by decide
  have hstrip : repair false (strip ((fencedContent text).getD text)) =
      mend (Json.skipWs text) := by
    rw [hfence, Option.getD_none, strip_eq, ← lstrip_skipWs, ht, lstrip_cons_letter hbrace.1, mend]
  have hmend : mend (Json.skipWs text) = '\x7b' :: mend t := by rw [ht, mend_cons_plain hbrace]
  obtain ⟨v, hv', n, hits, hsize, hsame⟩ := (parse_mends _).1 _ _ _ hv
  have hloads : Json.loads (String.ofList (mend (Json.skipWs text))) = some v := by
    have hlen := mend_length (Json.skipWs text)
    have hlen' := Json.skipWs_length text
    have hfuel : Json.value (2 * (mend (Json.skipWs text)).length + 2) (mend (Json.skipWs text)) =
        some (v, mend rest) := by
      rw [← hv']
      exact (Json.parse_fuel _).1 (by omega) (by omega)
    refine loads_of_value (by rw [hmend]; rfl) hfuel ?_
    rw [skipWs_mend, hrest]
    rfl
  have hn : commaHits text = n := by
    rw [← commaHits_skipWs, hits, ← commaHits_skipWs rest, hrest, commaHits, Nat.add_zero]
  refine ⟨v, ?_, by rw [hn, hsize], fun h => hsame (hn ▸ h)⟩
  rw [parseLlmJson, hstrip, loads, hloads, hmend]
  rfl

/-- The repair leaves the document as it is unless a comma has a closing bracket after it.
If one has, some string or key has lost a comma. -/
theorem parseLlmJson_loads_iff (hdoc : Json.loads (String.ofList text) = some (.dict ms))
    (hfence : fencedContent text = none) :
    (¬TrailingComma text → some (parseLlmJson text) = loads text) ∧
      (distinctKeys (.dict ms) = true →
        (some (parseLlmJson text) = loads text ↔ ¬TrailingComma text)) := by
  obtain ⟨v, hparse, hsize, hsame⟩ := parseLlmJson_dropped hdoc hfence
  have hloads : loads text = some (asDict (.dict ms)) := by rw [loads, hdoc, Option.map_some]
  have hkept : ¬TrailingComma text → some (parseLlmJson text) = loads text := by
    intro h
    rw [hparse, hloads, hsame (commaHits_eq_zero_iff.2 h)]
  refine ⟨hkept, fun hkeys => ⟨?_, hkept⟩⟩
  intro heq
  rw [hparse, hloads, asDict_of_distinct _ hkeys, Option.some.injEq] at heq
  have hle := commas_asDict v
  rw [heq] at hle
  exact commaHits_eq_zero_iff.1 (by omega)

theorem parseLlmJson_loads_plain :
    some (parseLlmJson ['\x7b', '"', ',', '"', ':', '1', '\x7d']) =
      loads ['\x7b', '"', ',', '"', ':', '1', '\x7d'] := by
  have hdoc : Json.loads (String.ofList ['\x7b', '"', ',', '"', ':', '1', '\x7d']) =
      some (.dict [([44], .int 1)]) := by
    rw [Json.loads, String.toList_ofList]
    rfl
  refine ((parseLlmJson_loads_iff hdoc (by decide)).2 (by decide)).2 ?_
  rw [← commaHits_eq_zero_iff]
  decide

/-- The comma of the string is taken for a trailing one. -/
theorem parseLlmJson_string_comma :
    ¬∀ text ms, Json.loads (String.ofList text) = some (.dict ms) → '`' ∉ text →
      some (parseLlmJson text) = loads text := by
  intro h
  have hdoc : Json.loads (String.ofList ['\x7b', '"', 'a', '"', ':', '"', ',', ']', '"', '\x7d']) =
      some (.dict [([97], .str [44, 93])]) := by
    rw [Json.loads, String.toList_ofList]
    rfl
  have hrepaired : Json.loads (String.ofList ['\x7b', '"', 'a', '"', ':', '"', ']', '"', '\x7d']) =
      some (.dict [([97], .str [93])]) := by
    rw [Json.loads, String.toList_ofList]
    rfl
  have hparse : parseLlmJson ['\x7b', '"', 'a', '"', ':', '"', ',', ']', '"', '\x7d'] =
      .dict [([97], .str [93])] := by
    change (loads ['\x7b', '"', 'a', '"', ':', '"', ']', '"', '\x7d']).getD (.dict []) = _
    rw [loads, hrepaired]
    rfl
  have heq := h _ _ hdoc (by decide)
  rw [hparse, loads, hdoc] at heq
  cases heq

end Text
