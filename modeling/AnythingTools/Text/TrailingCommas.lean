import AnythingTools.Text.SmartSplit

namespace Text
open Sync
set_option autoImplicit true

def isCloser (c : Char) : Bool := c = '\x7d' || c = ']'

/-- `,\s*[}\]]` matches at the front of the text. -/
def trailingComma : List Char → Bool
  | ',' :: cs => (lstrip cs).head?.any isCloser
  | _ => false

/-- `re.sub(r',\s*([}\]])', r'\1', s)`: a comma that is matched goes, and the blanks after it. -/
def repair : Bool → List Char → List Char
  | _, [] => []
  | dropping, c :: cs =>
    if dropping = true ∧ isSpace c = true then repair true cs
    else if trailingComma (c :: cs) = true then repair true cs
    else c :: repair false cs

/-- How often the pattern matches. -/
def commaHits : List Char → Nat
  | [] => 0
  | c :: cs => (if trailingComma (c :: cs) = true then 1 else 0) + commaHits cs

def rstrip (s : List Char) : List Char := (lstrip s.reverse).reverse

/-- What is parsed in place of a text, but for the blanks at its front. -/
def mend (s : List Char) : List Char := repair false (rstrip s)

theorem strip_eq (s : List Char) : strip s = rstrip (lstrip s) := rfl

theorem lstrip_cons_letter (hc : isSpace c = false) (cs : List Char) : lstrip (c :: cs) = c :: cs :=
  List.dropWhile_cons_of_neg (by rw [hc]; decide)

theorem lstrip_eq_nil_iff {s : List Char} : lstrip s = [] ↔ ∀ c ∈ s, isSpace c = true :=
  List.dropWhile_eq_nil_iff

theorem rstrip_blank (h : ∀ c ∈ s, isSpace c = true) : rstrip s = [] := by
  have hrev : lstrip s.reverse = [] :=
    lstrip_eq_nil_iff.2 fun c hc => h c (List.mem_reverse.1 hc)
  rw [rstrip, hrev, List.reverse_nil]

theorem rstrip_cons (h : ¬∀ d ∈ c :: cs, isSpace d = true) : rstrip (c :: cs) = c :: rstrip cs := by
  rw [rstrip, rstrip, List.reverse_cons, lstrip, List.dropWhile_append]
  split
  · rename_i hempty
    have hcs : ∀ d ∈ cs, isSpace d = true := by
      rw [List.isEmpty_iff, List.dropWhile_eq_nil_iff] at hempty
      exact fun d hd => hempty d (List.mem_reverse.2 hd)
    have hc : isSpace c = false := by
      rw [Bool.eq_false_iff]
      intro hspace
      exact h (List.forall_mem_cons.2 ⟨hspace, hcs⟩)
    rw [List.dropWhile_cons_of_neg (by rw [hc]; decide)]
    have hnil : lstrip cs.reverse = [] :=
      lstrip_eq_nil_iff.2 fun d hd => hcs d (List.mem_reverse.1 hd)
    rw [hnil]
    rfl
  · rw [List.reverse_append]
    rfl

theorem rstrip_cons_letter (hc : isSpace c = false) (cs : List Char) :
    rstrip (c :: cs) = c :: rstrip cs := by
  apply rstrip_cons
  intro h
  rw [h c List.mem_cons_self] at hc
  cases hc

theorem lstrip_rstrip (s : List Char) : lstrip (rstrip s) = rstrip (lstrip s) := by
  induction s with
  | nil => rfl
  | cons c cs ih =>
    by_cases h : ∀ d ∈ c :: cs, isSpace d = true
    · rw [rstrip_blank h, lstrip_eq_nil_iff.2 h]
      rfl
    · rw [rstrip_cons h]
      cases hc : isSpace c with
      | true => rw [lstrip_cons_space hc, lstrip_cons_space hc, ih]
      | false => rw [lstrip_cons_letter hc, lstrip_cons_letter hc, rstrip_cons h]

theorem head?_rstrip_lstrip (s : List Char) : (rstrip (lstrip s)).head? = (lstrip s).head? := by
  cases h : lstrip s with
  | nil => rfl
  | cons c cs =>
    have hc : isSpace c = false := by
      have hhead := List.head?_dropWhile_not isSpace s
      rw [← lstrip, h] at hhead
      simpa using hhead
    rw [rstrip_cons_letter hc, List.head?_cons, List.head?_cons]

theorem trailingComma_of_ne (hc : c ≠ ',') (cs : List Char) : trailingComma (c :: cs) = false := by
  unfold trailingComma
  split
  · rename_i heq
    exact absurd (List.cons.inj heq).1 hc
  · rfl

theorem comma_of_trailing (h : trailingComma (c :: cs) = true) : c = ',' := by
  by_contra hne
  rw [trailingComma_of_ne hne] at h
  cases h

theorem trailingComma_rstrip (c : Char) (cs : List Char) :
    trailingComma (c :: rstrip cs) = trailingComma (c :: cs) := by
  by_cases hc : c = ','
  · rw [hc, trailingComma, trailingComma, lstrip_rstrip, head?_rstrip_lstrip]
  · rw [trailingComma_of_ne hc, trailingComma_of_ne hc]

/-- Dropping blanks is over at the first letter. -/
theorem repair_true (s : List Char) : repair true s = repair false (lstrip s) := by
  induction s with
  | nil => rfl
  | cons c cs ih =>
    cases hc : isSpace c with
    | true => rw [repair, if_pos ⟨rfl, hc⟩, ih, lstrip_cons_space hc]
    | false =>
      have hn (b : Bool) : ¬(b = true ∧ isSpace c = true) := by
        rw [hc]
        exact fun h => nomatch h.2
      rw [lstrip_cons_letter hc, repair, if_neg (hn true), repair, if_neg (hn false)]

theorem comma_not_space : isSpace ',' = false := by decide

theorem mend_blank (h : ∀ c ∈ s, isSpace c = true) : mend s = [] := by
  rw [mend, rstrip_blank h]
  rfl

theorem mend_letter (hc : isSpace c = false) (ht : trailingComma (c :: cs) = false) :
    mend (c :: cs) = c :: mend cs := by
  rw [mend, rstrip_cons_letter hc, repair, if_neg (by rw [hc]; exact fun h => nomatch h.2),
    trailingComma_rstrip, ht, if_neg (by decide), mend]

theorem mend_space (hc : isSpace c = true) (h : ¬∀ d ∈ cs, isSpace d = true) :
    mend (c :: cs) = c :: mend cs := by
  have hne : c ≠ ',' := by
    rintro rfl
    rw [comma_not_space] at hc
    cases hc
  have hall : ¬∀ d ∈ c :: cs, isSpace d = true := fun ha => h (List.forall_mem_cons.1 ha).2
  rw [mend, rstrip_cons hall, repair, if_neg (fun hd => nomatch hd.1), trailingComma_of_ne hne,
    if_neg (by decide), mend]

/-- A comma that is matched goes, up to the closing bracket. -/
theorem mend_trailing (h : trailingComma (',' :: cs) = true) :
    mend (',' :: cs) = mend (lstrip cs) := by
  rw [mend, rstrip_cons_letter comma_not_space, repair, if_neg (fun hd => nomatch hd.1),
    trailingComma_rstrip, if_pos h, repair_true, lstrip_rstrip, mend]

theorem commaHits_of_ne (hc : c ≠ ',') (cs : List Char) : commaHits (c :: cs) = commaHits cs := by
  rw [commaHits, trailingComma_of_ne hc, if_neg (by decide), Nat.zero_add]

theorem commaHits_lstrip (s : List Char) : commaHits (lstrip s) = commaHits s := by
  induction s with
  | nil => rfl
  | cons c cs ih =>
    cases hc : isSpace c with
    | true =>
      rw [lstrip_cons_space hc, ih, commaHits_of_ne]
      rintro rfl
      rw [comma_not_space] at hc
      cases hc
    | false => rw [lstrip_cons_letter hc]

end Text
