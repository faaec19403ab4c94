import AnythingTools.Fts5
import AnythingTools.Text.TrailingCommas

namespace Search
open Fts5 Pieces Text
open Sync hiding strip
set_option autoImplicit true

section
variable (letter : Char → Bool)

/-- `\w`, where `letter` tells letters and digits among the characters beyond ASCII. -/
def isWord (c : Char) : Bool :=
  c.isAlphanum || decide (c = '_') || (decide (128 ≤ c.toNat) && !isSpace c && letter c)

/-- `re.sub(r'[^\w\s]', ' ', query)`. -/
def blankOut (query : List Char) : List Char :=
  query.map fun c => if isWord letter c || isSpace c then c else ' '

/-- `re.sub(r'\s+', ' ', s)`; `blank` tells that a run of blanks is open. -/
def collapse : (blank : Bool) → List Char → List Char
  | _, [] => []
  | blank, c :: cs =>
    if isSpace c then if blank then collapse true cs else ' ' :: collapse true cs
    else c :: collapse false cs

def sanitizeFtsQuery (query : List Char) : List Char := strip (collapse false (blankOut letter query))

/-- The words of the query that was typed. -/
def words (query : List Char) : List (List Char) := pieces (fun c => !isWord letter c) [] query

end

theorem isAlphanum_toNat {c : Char} (h : c.isAlphanum = true) :
    48 ≤ c.toNat ∧ c.toNat ≤ 57 ∨ 65 ≤ c.toNat ∧ c.toNat ≤ 90 ∨ 97 ≤ c.toNat ∧ c.toNat ≤ 122 := by
  change ((decide (c.val ≥ 'A'.val ∧ c.val ≤ 'Z'.val) || c.val ≥ 'a'.val && c.val ≤ 'z'.val) ||
    c.val ≥ '0'.val && c.val ≤ '9'.val) = true at h
  simp only [Bool.or_eq_true, Bool.and_eq_true, decide_eq_true_eq, UInt32.le_iff_toNat_le,
    ge_iff_le] at h
  have hA : 'A'.val.toNat = 65 := rfl
  have hZ : 'Z'.val.toNat = 90 := rfl
  have ha : 'a'.val.toNat = 97 := rfl
  have hz : 'z'.val.toNat = 122 := rfl
  have h0 : '0'.val.toNat = 48 := rfl
  have h9 : '9'.val.toNat = 57 := rfl
  have hc : c.toNat = c.val.toNat := rfl
  omega

/-- A character of a word is no blank. -/
theorem not_isSpace_of_isWord (h : isWord letter c = true) : isSpace c = false := by
  simp only [isWord, Bool.or_eq_true, Bool.and_eq_true, decide_eq_true_iff] at h
  rcases h with (h | rfl) | h
  · have hn := isAlphanum_toNat h
    rw [Bool.eq_false_iff]
    intro hs
    simp only [isSpace, Bool.or_eq_true, Bool.and_eq_true, decide_eq_true_iff, List.mem_cons,
      List.not_mem_nil, or_false] at hs
    omega
  · decide
  · exact Bool.not_eq_true' _ ▸ h.1.2

theorem isSpace_of_isBlank (h : isBlank c = true) : isSpace c = true := by
  have hc := of_decide_eq_true h
  simp only [List.mem_cons, List.not_mem_nil, or_false] at hc
  rcases hc with rfl | rfl | rfl | rfl
  · decide
  · decide
  · decide
  · decide

theorem not_isBlank_of_isWord (h : isWord letter c = true) : isBlank c = false := by
  rw [Bool.eq_false_iff]
  intro hb
  have hs := not_isSpace_of_isWord h
  rw [isSpace_of_isBlank hb] at hs
  cases hs

theorem isBareword_of_isWord (h : isWord letter c = true) : isBareword c = true := by
  simp only [isWord, isBareword, Bool.or_eq_true, Bool.and_eq_true] at h ⊢
  rcases h with (h | h) | h
  · exact .inl (.inl (.inl h))
  · exact .inl (.inl (.inr h))
  · exact .inr h.1.1

theorem isSpace_blankOut (c : Char) :
    isSpace (if (false || isSpace c) = true then c else ' ') = true := by
  rw [Bool.false_or]
  split
  next hc => exact hc
  next => decide

theorem pieces_collapse (letter : Char → Bool) (query run : List Char) (blank : Bool)
    (h : blank = true → run = []) :
    pieces isBlank run (collapse blank (blankOut letter query)) =
      pieces (fun c => !isWord letter c) run query := by
  induction query generalizing run blank with
  | nil => rfl
  | cons c cs ih =>
    rw [blankOut, List.map_cons, ← blankOut]
    cases hw : isWord letter c with
    | true =>
      have hsep : (!isWord letter c) = false := by rw [hw]; rfl
      rw [Bool.true_or, if_pos rfl, collapse, not_isSpace_of_isWord hw,
        pieces_of_not (p := fun c => !isWord letter c) hsep, ← ih (run ++ [c]) false nofun]
      exact pieces_of_not (not_isBlank_of_isWord hw) _ _
    | false =>
      have hsep : (!isWord letter c) = true := by rw [hw]; rfl
      rw [collapse, if_pos (isSpace_blankOut c), pieces_sep (p := fun c => !isWord letter c) hsep]
      cases blank with
      | true =>
        rw [h rfl, if_pos rfl, ih [] true fun _ => rfl]
        rfl
      | false =>
        rw [if_neg Bool.false_ne_true, pieces_sep (by decide), ih [] true fun _ => rfl]

/-- The only blanks that are left are spaces. -/
theorem mem_collapse (hc : c ∈ collapse blank (blankOut letter query)) :
    isWord letter c = true ∨ c = ' ' := by
  induction query generalizing blank with
  | nil => cases hc
  | cons d ds ih =>
    rw [blankOut, List.map_cons, ← blankOut] at hc
    cases hw : isWord letter d with
    | true =>
      rw [hw, Bool.true_or, if_pos rfl, collapse, not_isSpace_of_isWord hw] at hc
      rcases List.mem_cons.1 hc with rfl | hc
      · exact .inl hw
      · exact ih hc
    | false =>
      rw [hw, collapse, if_pos (isSpace_blankOut d)] at hc
      cases blank with
      | true => exact ih hc
      | false =>
        rcases List.mem_cons.1 hc with rfl | hc
        · exact .inr rfl
        · exact ih hc

theorem mem_strip (h : c ∈ strip s) : c ∈ s := by
  rw [strip, List.mem_reverse] at h
  have hr := (List.dropWhile_suffix _).subset h
  rw [List.mem_reverse] at hr
  exact (List.dropWhile_suffix _).subset hr

/-- Blanks that are stripped are between no words. -/
theorem pieces_strip {s : List Char} (h : ∀ c ∈ s, isSpace c = true → isBlank c = true) :
    pieces isBlank [] (strip s) = pieces isBlank [] s := by
  have hfront : ∀ c ∈ lstrip s, isSpace c = true → isBlank c = true :=
    fun c hc => h c ((List.dropWhile_suffix _).subset hc)
  have hsplit : lstrip s = strip s ++ ((lstrip s).reverse.takeWhile isSpace).reverse := by
    rw [strip, ← List.reverse_append]
    unfold lstrip
    rw [List.takeWhile_append_dropWhile, List.reverse_reverse]
  have hend : ∀ c ∈ ((lstrip s).reverse.takeWhile isSpace).reverse, isBlank c = true := by
    intro c hc
    rw [List.mem_reverse] at hc
    exact hfront c (List.mem_reverse.1 ((List.takeWhile_prefix _).subset hc))
      (List.mem_takeWhile_imp hc)
  rw [← pieces_append_seps hend, ← hsplit]
  exact pieces_dropWhile h

theorem isBlank_of_isSpace (hc : isWord letter c = true ∨ c = ' ') (hs : isSpace c = true) :
    isBlank c = true := by
  rcases hc with hw | rfl
  · rw [not_isSpace_of_isWord hw] at hs
    cases hs
  · decide

/-- What is searched for has the words that were typed. -/
theorem pieces_sanitize (letter : Char → Bool) (query : List Char) :
    pieces isBlank [] (sanitizeFtsQuery letter query) = words letter query := by
  rw [sanitizeFtsQuery, pieces_strip fun c hc => isBlank_of_isSpace (mem_collapse hc)]
  exact pieces_collapse letter query [] false nofun

theorem lex_sanitize (letter : Char → Bool) (query : List Char) :
    lex (sanitizeFtsQuery letter query) = some ((words letter query).map token) := by
  rw [lex, if_pos, pieces_sanitize]
  rw [List.all_eq_true]
  intro c hc
  rw [Bool.or_eq_true]
  rcases mem_collapse (mem_strip hc) with hw | rfl
  · exact .inl (isBareword_of_isWord hw)
  · exact .inr (by decide)

theorem sanitize_eq_nil (h : words letter query = []) : sanitizeFtsQuery letter query = [] := by
  have hall := pieces_collapse letter query [] false nofun
  rw [← words, h, pieces_eq_nil_iff] at hall
  have hl : lstrip (collapse false (blankOut letter query)) = [] :=
    lstrip_eq_nil_iff.2 fun c hc => isSpace_of_isBlank (hall c hc)
  rw [sanitizeFtsQuery, strip, hl]
  rfl

/-- The text that is handed to the index is empty, or a query for all the words as they stand,
exactly if none of the words is an operator. -/
theorem sanitizeFtsQuery_literal_iff (letter : Char → Bool) (query : List Char) :
    (sanitizeFtsQuery letter query = [] ∨
        ∃ e, literal (words letter query) = some e ∧
          parse (sanitizeFtsQuery letter query) = some e) ↔
      ∀ w ∈ words letter query, w ∉ operators := by
  have hparse : parse (sanitizeFtsQuery letter query) =
      expr ((words letter query).map token) := by
    rw [parse, lex_sanitize]
    rfl
  rw [hparse]
  constructor
  · rintro (hnil | ⟨e, hl, he⟩)
    · rw [← pieces_sanitize, hnil]
      exact List.forall_mem_nil _
    · exact (expr_literal_iff hl).1 he
  · intro hws
    by_cases hnil : words letter query = []
    · exact .inl (sanitize_eq_nil hnil)
    · obtain ⟨e, he⟩ := exists_literal hnil
      exact .inr ⟨e, he, (expr_literal_iff he).2 hws⟩

/-- A word of the query is taken for an operator, or the query is none. -/
theorem sanitizeFtsQuery_operator :
    parse (sanitizeFtsQuery (fun _ => false) "rates NOT oil".toList) =
        some (.not (.term "rates".toList) (.term "oil".toList)) ∧
      parse (sanitizeFtsQuery (fun _ => false) "AND".toList) = none ∧
      ¬(sanitizeFtsQuery (fun _ => false) "rates NOT oil".toList = [] ∨
        ∃ e, literal (words (fun _ => false) "rates NOT oil".toList) = some e ∧
          parse (sanitizeFtsQuery (fun _ => false) "rates NOT oil".toList) = some e) ∧
      ¬(sanitizeFtsQuery (fun _ => false) "AND".toList = [] ∨
        ∃ e, literal (words (fun _ => false) "AND".toList) = some e ∧
          parse (sanitizeFtsQuery (fun _ => false) "AND".toList) = some e) := by
  have hnot : parse (sanitizeFtsQuery (fun _ => false) "rates NOT oil".toList) =
      some (.not (.term "rates".toList) (.term "oil".toList)) := by decide +kernel
  have hand : parse (sanitizeFtsQuery (fun _ => false) "AND".toList) = none := by decide +kernel
  refine ⟨hnot, hand, ?_, ?_⟩
  · rintro (hnil | ⟨e, hl, he⟩)
    · exact absurd hnil (by decide +kernel)
    · rw [hnot] at he
      cases he
      exact absurd hl (by decide +kernel)
  · rintro (hnil | ⟨e, -, he⟩)
    · exact absurd hnil (by decide +kernel)
    · rw [hand] at he
      cases he

end Search
