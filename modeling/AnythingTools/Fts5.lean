import AnythingTools.Pieces

/-! The queries of FTS5 that are made of barewords. -/

namespace Fts5
open Pieces
set_option autoImplicit true

inductive Token where
  | string (w : List Char)
  | and
  | or
  | not
deriving DecidableEq, Repr

/-- What a query searches for: the operators combine what their sides match. -/
inductive Expr where
  | term (w : List Char)
  | and (l r : Expr)
  | or (l r : Expr)
  | not (l r : Expr)
deriving DecidableEq, Repr

/-- Letters and digits of ASCII, the underscore, the substitute character, and all beyond ASCII. -/
def isBareword (c : Char) : Bool :=
  c.isAlphanum || decide (c = '_') || decide (c.toNat = 26) || decide (128 ≤ c.toNat)

def isBlank (c : Char) : Bool := decide (c ∈ [' ', '\t', '\n', '\r'])

def operators : List (List Char) := [['A', 'N', 'D'], ['O', 'R'], ['N', 'O', 'T']]

/-- A bareword is a string, unless it is an operator, in upper case. -/
def token (w : List Char) : Token :=
  if w = ['A', 'N', 'D'] then .and
  else if w = ['O', 'R'] then .or
  else if w = ['N', 'O', 'T'] then .not
  else .string w

/-- The tokens of a query of barewords, which are always apart; with any other character it is none
of these. -/
def lex (query : List Char) : Option (List Token) :=
  if query.all fun c => isBareword c || isBlank c then some ((pieces isBlank [] query).map token)
  else none

def Token.word : Token → Option (List Char)
  | .string w => some w
  | _ => none

/-- An operator groups to the left. -/
def join (op : Expr → Expr → Expr) : List Expr → Option Expr
  | [] => none
  | e :: es => some (es.foldl op e)

/-- Strings that stand side by side are joined by an `AND` that binds closest. -/
def phrases (ts : List Token) : Option Expr := do
  let ws ← ts.mapM Token.word
  join .and (ws.map .term)

/-- An operator with the operands that bind closer. -/
def level (sep : Token) (op : Expr → Expr → Expr) (operand : List Token → Option Expr)
    (ts : List Token) : Option Expr := do
  let es ← (ts.splitOn sep).mapM operand
  join op es

/-- `NOT` binds closer than `AND`, and this closer than `OR`. -/
def expr : List Token → Option Expr := level .or .or (level .and .and (level .not .not phrases))

/-- The meaning of a query, or none where there is a syntax error. -/
def parse (query : List Char) : Option Expr := do
  let ts ← lex query
  expr ts

/-- The conjunction of the words, each as it stands. -/
def literal (ws : List (List Char)) : Option Expr := join .and (ws.map .term)

def Expr.terms : Expr → List (List Char)
  | .term w => [w]
  | .and l r => l.terms ++ r.terms
  | .or l r => l.terms ++ r.terms
  | .not l r => l.terms ++ r.terms

/-- The operands of an operator stand one after the other. -/
def Joins (op : Expr → Expr → Expr) : Prop := ∀ l r, (op l r).terms = l.terms ++ r.terms

theorem terms_foldl (hop : Joins op) (e : Expr) (es : List Expr) :
    (es.foldl op e).terms = e.terms ++ es.flatMap Expr.terms := by
  induction es generalizing e with
  | nil => exact (List.append_nil _).symm
  | cons e' es ih => rw [List.foldl_cons, ih, hop, List.flatMap_cons, List.append_assoc]

theorem terms_join (hop : Joins op) (h : join op es = some e) : e.terms = es.flatMap Expr.terms := by
  cases es with
  | nil => cases h
  | cons e' es =>
    cases h
    exact terms_foldl hop e' es

theorem terms_literal (h : literal ws = some e) : e.terms = ws := by
  rw [terms_join (fun _ _ => rfl) h, List.flatMap_map]
  exact List.flatMap_singleton' ws

theorem exists_literal (h : ws ≠ []) : ∃ e, literal ws = some e := by
  cases ws with
  | nil => exact absurd rfl h
  | cons w ws => exact ⟨_, rfl⟩

/-- The terms of what is parsed are the strings among the tokens. -/
def Faithful (parser : List Token → Option Expr) : Prop :=
  ∀ ts e, parser ts = some e → e.terms = ts.filterMap Token.word

theorem mapM_word {ts : List Token} (h : ts.mapM Token.word = some ws) :
    ts.filterMap Token.word = ws := by
  induction ts generalizing ws with
  | nil =>
    cases h
    rfl
  | cons t ts ih =>
    rw [List.mapM_cons, Option.bind_eq_bind, Option.bind_eq_some_iff] at h
    obtain ⟨w, hw, h⟩ := h
    obtain ⟨ws', hws, h⟩ := Option.bind_eq_some_iff.1 h
    cases h
    rw [List.filterMap_cons_some hw, ih hws]

theorem faithful_phrases : Faithful phrases := by
  intro ts e h
  rw [phrases, Option.bind_eq_bind, Option.bind_eq_some_iff] at h
  obtain ⟨ws, hws, h⟩ := h
  rw [mapM_word hws]
  exact terms_literal h

theorem flatMap_splitOn {sep : Token} (hsep : sep.word = none) (ts : List Token) :
    (ts.splitOn sep).flatMap (List.filterMap Token.word) = ts.filterMap Token.word := by
  induction ts with
  | nil => rfl
  | cons t ts ih =>
    rw [List.splitOn_cons_eq_if_modifyHead]
    by_cases ht : t = sep
    · rw [if_pos (beq_iff_eq.2 ht), List.flatMap_cons, ih, ht, List.filterMap_cons_none hsep]
      rfl
    · rw [if_neg (fun h => ht (beq_iff_eq.1 h))]
      cases hs : ts.splitOn sep with
      | nil => exact absurd hs (List.splitOn_ne_nil _ _)
      | cons first rest =>
        rw [hs, List.flatMap_cons] at ih
        rw [List.modifyHead_cons, List.flatMap_cons]
        cases hw : t.word with
        | none => rw [List.filterMap_cons_none hw, List.filterMap_cons_none hw, ih]
        | some w => rw [List.filterMap_cons_some hw, List.filterMap_cons_some hw, ← ih, List.cons_append]

theorem terms_mapM (hf : Faithful operand) {tss : List (List Token)}
    (h : tss.mapM operand = some es) :
    es.flatMap Expr.terms = tss.flatMap (List.filterMap Token.word) := by
  induction tss generalizing es with
  | nil =>
    cases h
    rfl
  | cons ts tss ih =>
    rw [List.mapM_cons, Option.bind_eq_bind, Option.bind_eq_some_iff] at h
    obtain ⟨e, he, h⟩ := h
    obtain ⟨es', hes, h⟩ := Option.bind_eq_some_iff.1 h
    cases h
    rw [List.flatMap_cons, List.flatMap_cons, ih hes, hf ts e he]

theorem Faithful.level (hf : Faithful operand) (hop : Joins op) (hsep : sep.word = none) :
    Faithful (level sep op operand) := by
  intro ts e h
  rw [Fts5.level, Option.bind_eq_bind, Option.bind_eq_some_iff] at h
  obtain ⟨es, hes, h⟩ := h
  rw [terms_join hop h, terms_mapM hf hes, flatMap_splitOn hsep]

theorem faithful_expr : Faithful expr :=
  ((faithful_phrases.level (fun _ _ => rfl) rfl).level (fun _ _ => rfl) rfl).level
    (fun _ _ => rfl) rfl

/-- Where there is no operator, the strings are one phrase list. -/
theorem level_of_notMem {sep : Token} (h : sep ∉ ts) (he : operand ts = some e) :
    level sep op operand ts = some e := by
  rw [level, List.splitOn_eq_singleton h, List.mapM_cons, he]
  rfl

theorem mapM_string (ws : List (List Char)) :
    (ws.map Token.string).mapM Token.word = some ws := by
  induction ws with
  | nil => rfl
  | cons w ws ih =>
    rw [List.map_cons, List.mapM_cons, ih]
    rfl

theorem expr_of_strings (ws : List (List Char)) : expr (ws.map .string) = literal ws := by
  cases hl : literal ws with
  | none =>
    cases ws with
    | nil => rfl
    | cons w ws => cases hl
  | some e =>
    have hphrases : phrases (ws.map .string) = some e := by
      rw [phrases, mapM_string]
      exact hl
    have hnot {t : Token} (ht : t.word = none) : t ∉ ws.map Token.string := by
      intro hmem
      obtain ⟨w, -, rfl⟩ := List.mem_map.1 hmem
      cases ht
    have hnots : level .not .not phrases (ws.map .string) = some e :=
      level_of_notMem (hnot rfl) hphrases
    have hands : level .and .and (level .not .not phrases) (ws.map .string) = some e :=
      level_of_notMem (hnot rfl) hnots
    exact level_of_notMem (hnot rfl) hands

theorem token_of_notMem (h : w ∉ operators) : token w = .string w := by
  simp only [operators, List.mem_cons, List.not_mem_nil, or_false, not_or] at h
  rw [token, if_neg h.1, if_neg h.2.1, if_neg h.2.2]

theorem word_token_of_mem (h : w ∈ operators) : (token w).word = none := by
  simp only [operators, List.mem_cons, List.not_mem_nil, or_false] at h
  rcases h with rfl | rfl | rfl
  · rfl
  · rfl
  · rfl

theorem words_tokens (ws : List (List Char)) :
    (ws.map token).filterMap Token.word = ws.filter fun w => decide (w ∉ operators) := by
  induction ws with
  | nil => rfl
  | cons w ws ih =>
    rw [List.map_cons]
    by_cases hw : w ∈ operators
    · rw [List.filterMap_cons_none (word_token_of_mem hw), List.filter_cons_of_neg, ih]
      rw [decide_eq_true_iff, not_not]
      exact hw
    · have hword : (Token.string w).word = some w := rfl
      rw [token_of_notMem hw, List.filterMap_cons_some hword, List.filter_cons_of_pos, ih]
      exact decide_eq_true hw

/-- A query is parsed as the conjunction of its words exactly if none of them is an operator. -/
theorem expr_literal_iff (h : literal ws = some e) :
    expr (ws.map token) = some e ↔ ∀ w ∈ ws, w ∉ operators := by
  constructor
  · intro hp w hw
    have hterms := faithful_expr _ _ hp
    rw [terms_literal h, words_tokens] at hterms
    exact of_decide_eq_true (List.filter_eq_self.1 hterms.symm w hw)
  · intro hws
    have hstrings : ws.map token = ws.map .string :=
      List.map_congr_left fun w hw => token_of_notMem (hws w hw)
    rw [hstrings, expr_of_strings, h]

end Fts5
