import AnythingTools.Logging.Finds

namespace Logging
set_option autoImplicit true

/-! ### Where a name stands -/

theorem takeWhile_span {p : Nat → Bool} {s r : Text} (hs : ∀ c ∈ s, p c = true)
    (hr : ∀ c ∈ r.head?, p c = false) : (s ++ r).takeWhile p = s := by
  rw [List.takeWhile_append_of_pos hs]
  cases r with
  | nil => exact List.append_nil s
  | cons c r =>
    rw [List.takeWhile_cons_of_neg, List.append_nil]
    rw [hr c rfl]
    exact Bool.false_ne_true

/-- Where a run ends is determined by the text. -/
theorem span_unique {p : Nat → Bool} {s s' r r' : Text} (h : s ++ r = s' ++ r')
    (hs : ∀ c ∈ s, p c = true) (hr : ∀ c ∈ r.head?, p c = false)
    (hs' : ∀ c ∈ s', p c = true) (hr' : ∀ c ∈ r'.head?, p c = false) : s = s' ∧ r = r' := by
  have hsame : s = s' := by rw [← takeWhile_span hs hr, h, takeWhile_span hs' hr']
  rw [hsame] at h
  exact ⟨hsame, List.append_cancel_left h⟩

/-- Letters, digits and other characters that are no blank and no delimiter. -/
def isPlain (c : Nat) : Bool := !isSpace c && !isDelim c

theorem plain_of_key (h : (key : Text).map fold ∈ keys) (c : Nat) (hc : c ∈ key) :
    isPlain c = true := by
  obtain ⟨hspace, hdelim, -⟩ := of_mem_key h hc
  rw [isPlain, hspace, hdelim]
  rfl

theorem not_plain_of_space (h : isSpace c = true) : isPlain c = false := by
  rw [isPlain, h]
  rfl

theorem not_plain_of_delim (h : isDelim c = true) : isPlain c = false := by
  rw [isPlain, h, Bool.not_true, Bool.and_false]

/-- Behind its name a spelling has blanks and the delimiter. -/
theorem not_plain_of_mem (hbefore : ∀ c ∈ before, isSpace c = true) (hd : isDelim d = true)
    (hafter : ∀ c ∈ after, isSpace c = true) (hc : c ∈ (before ++ d :: after : Text)) :
    isPlain c = false := by
  rw [List.mem_append, List.mem_cons] at hc
  rcases hc with hc | rfl | hc
  · exact not_plain_of_space (hbefore c hc)
  · exact not_plain_of_delim hd
  · exact not_plain_of_space (hafter c hc)

/-- What follows a name starts with a blank or the delimiter. -/
theorem not_plain_after (hbefore : ∀ c ∈ before, isSpace c = true) (hd : isDelim d = true)
    (rest : Text) : ∀ c ∈ (before ++ d :: rest).head?, isPlain c = false := by
  intro c hc
  cases before with
  | nil =>
    cases hc
    exact not_plain_of_delim hd
  | cons =>
    cases hc
    exact not_plain_of_space (hbefore c List.mem_cons_self)

theorem head?_of_startsWord (h : StartsWord v) : ∀ c ∈ v.head?, isSpace c = false := by
  obtain ⟨c, rest, rfl, hc⟩ := h
  rintro c' hc'
  cases hc'
  exact hc

theorem isHead_unique (hh : IsHead head) (hh' : IsHead head') (hv : StartsWord v)
    (hv' : StartsWord v') (h : head ++ v = head' ++ v') : head = head' ∧ v = v' := by
  obtain ⟨key, before, d, after, rfl, hkey, hbefore, hd, hafter⟩ := hh
  obtain ⟨key', before', d', after', rfl, hkey', hbefore', hd', hafter'⟩ := hh'
  simp only [List.append_assoc, List.cons_append] at h
  obtain ⟨hkeys, hrest⟩ := span_unique h (plain_of_key hkey) (not_plain_after hbefore hd _)
    (plain_of_key hkey') (not_plain_after hbefore' hd' _)
  obtain ⟨hblanks, hrest⟩ := span_unique hrest hbefore (head?_of_startsWord ⟨d, _, rfl,
    not_space_of_delim hd⟩) hbefore' (head?_of_startsWord ⟨d', _, rfl, not_space_of_delim hd'⟩)
  obtain ⟨hdelim, hrest⟩ := List.cons.inj hrest
  obtain ⟨hblanks', hvalue⟩ := span_unique hrest hafter (head?_of_startsWord hv) hafter'
    (head?_of_startsWord hv')
  rw [hkeys, hblanks, hdelim, hblanks']
  exact ⟨rfl, hvalue⟩

/-- The pattern matches a name, its delimiter and its value as they stand. -/
theorem peek_head (hh : IsHead head) (hv : StartsWord v) : peek (head ++ v) = some (head, v) := by
  cases hp : peek (head ++ v) with
  | none => exact absurd hp (peek_of_head hh hv)
  | some m =>
    obtain ⟨heq, hhead, hvalue⟩ := peek_some hp
    obtain ⟨h, h'⟩ := isHead_unique hh hhead hv hvalue heq
    rw [h, h']

/-- No name starts inside the first group of a match. -/
theorem not_isHead_inside (hh : IsHead (x ++ w)) (hx : x ≠ []) (hw : w ≠ [])
    (hh' : IsHead head) (h : w ++ v = head ++ v') : False := by
  obtain ⟨key, before, d, after, heq, hkey, hbefore, hd, hafter⟩ := hh
  obtain ⟨key', before', d', after', rfl, hkey', hbefore', hd', -⟩ := hh'
  have hfirst : ∀ c ∈ w.head?, isPlain c = true := by
    intro c hc
    cases key' with
    | nil =>
      have hnot : List.map fold [] ∉ keys := by decide
      exact absurd hkey' hnot
    | cons k key' =>
      cases w with
      | nil => cases hc
      | cons c' w =>
        cases hc
        obtain rfl : c = k := (List.cons.inj h).1
        exact plain_of_key hkey' _ List.mem_cons_self
  -- The first character is a plain one, so it stands in the name of the match.
  have hinside : ∃ s, key = x ++ s ∧ w = s ++ (before ++ d :: after) := by
    rw [List.append_assoc] at heq
    rcases List.append_eq_append_iff.1 heq with ⟨s, hs, hw'⟩ | ⟨s, rfl, hs⟩
    · exact ⟨s, hs, hw'⟩
    · cases s with
      | nil => exact ⟨[], by simp, by simpa using hs.symm⟩
      | cons c s =>
        exfalso
        cases w with
        | nil => exact hw rfl
        | cons c' w =>
          have hplain := hfirst c' rfl
          have hmem : c' ∈ before ++ d :: after := by
            rw [hs]
            simp
          rw [not_plain_of_mem hbefore hd hafter hmem] at hplain
          exact Bool.false_ne_true hplain
  obtain ⟨s, rfl, rfl⟩ := hinside
  simp only [List.append_assoc, List.cons_append] at h
  obtain ⟨hsame, -⟩ := span_unique h (fun c hc => plain_of_key hkey c (List.mem_append_right x hc))
    (not_plain_after hbefore hd _) (plain_of_key hkey') (not_plain_after hbefore' hd' _)
  rw [← hsame] at hkey'
  have hnone : ∀ k ∈ keys, ∀ k' ∈ keys, k' <:+ k → k' = k := by decide
  have hsuffix : s.map fold <:+ (x ++ s).map fold := (List.suffix_append x s).map fold
  have hlength := congrArg List.length (hnone _ hkey _ hkey' hsuffix)
  rw [List.length_map, List.length_map, List.length_append] at hlength
  exact hx (List.length_eq_zero_iff.1 (by omega))

theorem plain_of_isHead (h : IsHead (c :: head)) : isPlain c = true := by
  obtain ⟨key, before, d, after, heq, hkey, -⟩ := h
  cases key with
  | nil =>
    have hnot : List.map fold [] ∉ keys := by decide
    exact absurd hkey hnot
  | cons x key =>
    cases heq
    exact plain_of_key hkey _ List.mem_cons_self

theorem peek_of_not_plain (hc : isPlain c = false) (t : Text) : peek (c :: t) = none := by
  cases hp : peek (c :: t) with
  | none => rfl
  | some m =>
    obtain ⟨heq, hhead, -⟩ := peek_some hp
    cases hm : m.1 with
    | nil => exact absurd hm (ne_nil_of_isHead hhead)
    | cons c' head =>
      rw [hm] at heq hhead
      cases heq
      rw [plain_of_isHead hhead] at hc
      cases hc

theorem redact_append (hr : ∀ c ∈ r, isPlain c = false) (t : Text) :
    redact (r ++ t) = r ++ redact t := by
  induction r with
  | nil => rfl
  | cons c r ih =>
    rw [List.forall_mem_cons] at hr
    rw [List.cons_append, redact_cons (peek_of_not_plain hr.1 _), ih hr.2, List.cons_append]

/-! ### Where the search stands -/

/-- A name that starts in a match does so at its start or behind its first group. -/
theorem behind_head (hfirst : IsHead first) (hh : IsHead head)
    (h : first ++ value = x ++ (head ++ v)) :
    x = [] ∨ ∃ w, x = first ++ w ∧ value = w ++ (head ++ v) := by
  rcases List.append_eq_append_iff.1 h with hw | ⟨w, hw, hrest⟩
  · exact .inr hw
  · by_cases hx : x = []
    · exact .inl hx
    · right
      cases w with
      | nil => exact ⟨[], by rw [hw, List.append_nil, List.append_nil], hrest.symm⟩
      | cons c w =>
        rw [hw] at hfirst
        exact (not_isHead_inside hfirst hx (List.cons_ne_nil c w) hh hrest.symm).elim

/-- The search finds a name where it stands, or the value of an earlier match has run into it and
ends with the same word. -/
theorem found_or_swallowed (hh : IsHead head) (hv : StartsWord v) (h : t = x ++ (head ++ v)) :
    ⟨x, head, v⟩ ∈ finds t ∨ ∃ m ∈ finds t, m.start ≤ x.length ∧
      m.stop = x.length + (word (head ++ v)).length ∧
        redact (afterWord (head ++ v)) <:+ redact t := by
  induction t using search_induct generalizing x with
  | hnil =>
    have hnil := List.append_eq_nil_iff.1 h.symm
    exact absurd (List.append_eq_nil_iff.1 hnil.2).1 (ne_nil_of_isHead hh)
  | hmatch first value hp hfirst hvalue ih =>
    rw [finds_match hp, redact_match hp, ← List.append_assoc first]
    rcases behind_head hfirst hh h with rfl | ⟨w, rfl, rfl⟩
    · obtain ⟨rfl, rfl⟩ := isHead_unique hfirst hh hvalue hv h
      exact .inl List.mem_cons_self
    · by_cases hw : ∀ c ∈ w, isSpace c = false
      · right
        refine ⟨_, List.mem_cons_self, ?_, ?_, ?_⟩
        · rw [Found.start, List.length_append]
          simp
        · rw [Found.stop, Found.start, word_append hw, List.length_append, List.length_append]
          simp [Nat.add_assoc]
        · rw [afterWord_append hw]
          exact List.suffix_append _ _
      · obtain ⟨hword, hafter⟩ := word_append_of_space hw (head ++ v)
        have hx : first ++ w = first ++ word w ++ afterWord w := by
          rw [List.append_assoc, word_append_afterWord]
        rw [hword, hafter]
        rcases ih hafter with hfound | ⟨m, hm, hstart, hstop, hredact⟩
        · left
          refine List.mem_cons_of_mem _ (List.mem_map.2 ⟨_, hafter ▸ hfound, ?_⟩)
          rw [hx]
          rfl
        · right
          refine ⟨_, List.mem_cons_of_mem _ (List.mem_map_of_mem (hafter ▸ hm)), ?_, ?_, ?_⟩
          · rw [Found.shift_start, hx]
            simp only [List.length_append]
            omega
          · rw [Found.shift_stop, hx]
            simp only [List.length_append]
            omega
          · rw [← hafter]
            exact hredact.trans (List.suffix_append _ _)
  | hcons c cs hp ih =>
    cases x with
    | nil =>
      rw [List.nil_append] at h
      rw [h] at hp
      exact absurd hp (peek_of_head hh hv)
    | cons d x =>
      obtain ⟨rfl, rfl⟩ := List.cons.inj h
      rw [finds_cons hp, redact_cons hp]
      rcases ih rfl with hfound | ⟨m, hm, hstart, hstop, hredact⟩
      · exact .inl (List.mem_map.2 ⟨_, hfound, rfl⟩)
      · refine .inr ⟨_, List.mem_map_of_mem hm, ?_, ?_, hredact.trans (List.suffix_cons c _)⟩
        · rw [Found.shift_start]
          simp only [List.length_cons, List.length_nil]
          omega
        · rw [Found.shift_stop]
          simp only [List.length_cons, List.length_nil]
          omega

/-- The search goes on at a blank, unless the first group of a match has it. -/
theorem resumes_at_space (hc : isSpace c = true) (h : t = x ++ c :: b) :
    redact (c :: b) <:+ redact t ∨ ∃ m ∈ finds t, ∃ h₁ h₂,
      m.head = h₁ ++ c :: h₂ ∧ x = m.before ++ h₁ := by
  induction t using search_induct generalizing x with
  | hnil => exact absurd h.symm (List.append_ne_nil_of_right_ne_nil x (List.cons_ne_nil c b))
  | hmatch first value hp hfirst hvalue ih =>
    rw [finds_match hp, redact_match hp, ← List.append_assoc first]
    rcases List.append_eq_append_iff.1 h with ⟨w, rfl, rfl⟩ | ⟨w, rfl, hrest⟩
    · by_cases hw : ∀ c ∈ w, isSpace c = false
      · left
        have hends : EndsWord (c :: b) := by
          intro c' hc'
          cases hc'
          exact hc
        rw [afterWord_append hw, afterWord_of_endsWord hends]
        exact List.suffix_append _ _
      · obtain ⟨hword, hafter⟩ := word_append_of_space hw (c :: b)
        rw [hword, hafter]
        rcases ih hafter with hredact | ⟨m, hm, h₁, h₂, hhead, hx⟩
        · left
          rw [← hafter]
          exact hredact.trans (List.suffix_append _ _)
        · right
          refine ⟨_, List.mem_cons_of_mem _ (List.mem_map_of_mem (hafter ▸ hm)), h₁, h₂, hhead, ?_⟩
          have hsplit : first ++ w = first ++ word w ++ afterWord w := by
            rw [List.append_assoc, word_append_afterWord]
          rw [hsplit, hx, ← List.append_assoc]
          rfl
    · cases w with
      | nil =>
        obtain ⟨c', rest, rfl, hc'⟩ := hvalue
        cases hrest
        rw [hc] at hc'
        cases hc'
      | cons c' w =>
        cases hrest
        exact .inr ⟨_, List.mem_cons_self, x, w, rfl, rfl⟩
  | hcons d cs hp ih =>
    cases x with
    | nil =>
      rw [h]
      exact .inl (List.suffix_refl _)
    | cons d' x =>
      obtain ⟨rfl, rfl⟩ := List.cons.inj h
      rw [finds_cons hp, redact_cons hp]
      rcases ih rfl with hredact | ⟨m, hm, h₁, h₂, hhead, hx⟩
      · exact .inl (hredact.trans (List.suffix_cons d _))
      · refine .inr ⟨_, List.mem_map_of_mem hm, h₁, h₂, hhead, ?_⟩
        rw [hx]
        rfl

/-! ### Tokens -/

/-- What the comment at the pattern puts before a secret: a name with `=` or `:`, with or without
the scheme, or the scheme alone. -/
def bearer : Text := codes "Bearer "

inductive IsSpelling : Text → Prop where
  | key : IsHead head → IsSpelling head
  | scheme : IsHead head → IsSpelling (head ++ bearer)
  | bare : IsSpelling bearer

/-- The token stands in the text at another place as well. -/
def OccursElsewhere (t tok : Text) (i : Nat) : Prop :=
  ∃ x y, t = x ++ (tok ++ y) ∧ x.length ≠ i

/-- The token has a name with its delimiter and a part of its value in it. -/
def InnerSecret (tok : Text) : Prop := ∃ a head w, tok = a ++ (head ++ w) ∧ IsHead head ∧ w ≠ []

/-- The value that is replaced has a part of the token: of a name in the token, of a name before it
without blanks, or of one with blanks where the search finds that. -/
def Reaches (pre s tok post : Text) : Prop :=
  InnerSecret tok ∨ (IsHead s ∧ ∀ c ∈ s, isSpace c = false) ∨
    ⟨pre, s, tok ++ post⟩ ∈ finds (pre ++ (s ++ (tok ++ post)))

theorem startsWord_token (hne : tok ≠ []) (htok : ∀ c ∈ tok, isSpace c = false) (r : Text) :
    StartsWord (tok ++ r) := by
  cases tok with
  | nil => exact absurd rfl hne
  | cons c tok => exact ⟨c, tok ++ r, rfl, htok c List.mem_cons_self⟩

/-- A token without a secret in it is left as it is where the search comes to it. -/
theorem prefix_redact_token (h : ¬ InnerSecret tok) (r : Text) : tok <+: redact (tok ++ r) := by
  induction tok with
  | nil => exact List.nil_prefix
  | cons c tok ih =>
    cases hp : peek (c :: (tok ++ r)) with
    | none =>
      rw [List.cons_append, redact_cons hp]
      refine List.cons_prefix_cons.2 ⟨rfl, ih ?_⟩
      rintro ⟨a, head, w, rfl, hhead, hw⟩
      exact h ⟨c :: a, head, w, rfl, hhead, hw⟩
    | some m =>
      obtain ⟨head, v⟩ := m
      obtain ⟨heq, hhead, -⟩ := peek_some hp
      rw [List.cons_append, redact_match hp]
      rw [← List.cons_append] at heq
      rcases List.append_eq_append_iff.1 heq with ⟨w, hw, -⟩ | ⟨w, hw, -⟩
      · rw [hw, List.append_assoc]
        exact List.prefix_append _ _
      · by_cases hnil : w = []
        · rw [hw, hnil, List.append_nil]
          exact List.prefix_append _ _
        · exact absurd ⟨[], head, w, hw, hhead, hnil⟩ h

/-- No name ends with the last letter of the scheme. -/
theorem not_isHead_bearer : ¬ IsHead (a ++ 114 :: 32 :: b) := by
  rintro ⟨key, before, d, after, heq, hkey, hbefore, hd, hafter⟩
  have hnone : ∀ k ∈ keys, ¬ [114] <:+ k := by decide
  have hplain : isPlain 114 = true := by decide
  have hspace : isPlain 32 = false := by decide
  have hsplit : (a ++ [114]) ++ 32 :: b = key ++ (before ++ d :: after) := by
    rw [List.append_assoc, List.singleton_append, heq, List.append_assoc]
  rcases List.append_eq_append_iff.1 hsplit with ⟨w, hw, hrest⟩ | ⟨w, hw, hrest⟩
  · cases w with
    | nil =>
      apply hnone _ hkey
      rw [hw, List.append_nil, List.map_append]
      exact List.suffix_append _ _
    | cons c w =>
      cases hrest
      have h32 := plain_of_key hkey 32 (by rw [hw]; simp)
      rw [hspace] at h32
      cases h32
  · rcases List.eq_nil_or_concat w with rfl | ⟨w, c, rfl⟩
    · apply hnone _ hkey
      rw [List.append_nil] at hw
      rw [← hw, List.map_append]
      exact List.suffix_append _ _
    · rw [List.concat_eq_append, ← List.append_assoc] at hw
      obtain rfl : 114 = c := (List.cons.inj (List.append_inj_right' hw rfl)).1
      have hmem : 114 ∈ before ++ d :: after := by
        rw [hrest]
        simp
      rw [not_plain_of_mem hbefore hd hafter hmem] at hplain
      cases hplain

/-- The search comes to what follows the scheme. -/
theorem resumes_after_bearer (x r : Text) :
    redact r <:+ redact (x ++ (bearer ++ r)) := by
  have hsplit : x ++ (bearer ++ r) = (x ++ codes "Beare" ++ [114]) ++ 32 :: r := by
    have hbearer : bearer = codes "Beare" ++ [114, 32] := by decide
    rw [hbearer]
    simp
  have hspace : isSpace 32 = true := by decide
  rcases resumes_at_space hspace hsplit with hredact | ⟨m, hm, h₁, h₂, hhead, hx⟩
  · rw [redact_cons (peek_of_not_plain (by decide) r)] at hredact
    exact (List.suffix_cons 32 _).trans hredact
  · obtain ⟨-, hm', -⟩ := mem_finds hm
    rw [hhead] at hm'
    rcases List.eq_nil_or_concat h₁ with rfl | ⟨h₁, c, rfl⟩
    · have hplain := plain_of_isHead hm'
      rw [not_plain_of_space hspace] at hplain
      cases hplain
    · rw [List.concat_eq_append, ← List.append_assoc] at hx
      obtain rfl : 114 = c := (List.cons.inj (List.append_inj_right' hx rfl)).1
      rw [List.concat_eq_append, List.append_assoc] at hm'
      exact absurd hm' not_isHead_bearer

/-- Behind the first blank of a name and its delimiter no name starts. -/
theorem afterWord_head (hh : IsHead head) (hspace : ¬ ∀ c ∈ head, isSpace c = false) (v : Text) :
    ∃ r, afterWord (head ++ v) = r ++ v ∧ ∀ c ∈ r, isPlain c = false := by
  refine ⟨afterWord head, (word_append_of_space hspace v).2, ?_⟩
  obtain ⟨key, before, d, after, rfl, hkey, hbefore, hd, hafter⟩ := hh
  have hkeyWord : ∀ c ∈ key, isSpace c = false := fun c hc => (of_mem_key hkey hc).1
  intro c hc
  rw [List.append_assoc, afterWord_append hkeyWord] at hc
  exact not_plain_of_mem hbefore hd hafter ((List.dropWhile_suffix _).subset hc)

/-- Where no replaced value has a part of it, the search comes to the token. -/
theorem redact_suffix_of_not_reaches (hs : IsSpelling s) (hne : tok ≠ [])
    (htok : ∀ c ∈ tok, isSpace c = false) (h : ¬ Reaches pre s tok post) :
    redact (tok ++ post) <:+ redact (pre ++ (s ++ (tok ++ post))) := by
  cases hs with
  | bare => exact resumes_after_bearer pre (tok ++ post)
  | scheme =>
    rename_i head hh
    rw [List.append_assoc, ← List.append_assoc pre]
    exact resumes_after_bearer (pre ++ head) (tok ++ post)
  | key hh =>
    have hspace : ¬ ∀ c ∈ s, isSpace c = false := fun hall => h (.inr (.inl ⟨hh, hall⟩))
    rcases found_or_swallowed hh (startsWord_token hne htok post) rfl with
      hfound | ⟨m, -, -, -, hredact⟩
    · exact absurd (.inr (.inr hfound)) h
    · obtain ⟨r, hr, hplain⟩ := afterWord_head hh hspace (tok ++ post)
      rw [hr, redact_append hplain] at hredact
      exact (List.suffix_append r _).trans hredact

theorem start_lt_stop (h : m ∈ finds t) : m.start < m.stop := by
  obtain ⟨-, -, c, rest, hvalue, hc⟩ := mem_finds h
  have hword : word m.value = c :: word rest := by
    rw [hvalue]
    exact List.takeWhile_cons_of_pos (by rw [hc]; rfl)
  rw [Found.stop, hword, List.length_cons]
  omega

/-- A replaced value has a part of what stands behind a name without blanks. -/
theorem not_kept_of_head (hh : IsHead head) (hhead : ∀ c ∈ head, isSpace c = false)
    (hne : w ≠ []) (hw : ∀ c ∈ w, isSpace c = false) (ht : t = x ++ (head ++ (w ++ r))) :
    ∃ m ∈ finds t, (x ++ head).length < m.stop ∧ m.start ≤ (x ++ head).length := by
  rcases found_or_swallowed hh (startsWord_token hne hw r) ht with
    hfound | ⟨m, hm, hstart, hstop, -⟩
  · have hlt := start_lt_stop hfound
    have hstart : Found.start ⟨x, head, w ++ r⟩ = (x ++ head).length := List.length_append.symm
    exact ⟨_, hfound, by omega, by omega⟩
  · refine ⟨m, hm, ?_, ?_⟩
    · have hpos : 0 < w.length := List.length_pos_iff.2 hne
      rw [word_append hhead, word_append hw] at hstop
      simp only [List.length_append] at hstop ⊢
      omega
    · rw [List.length_append]
      omega

/-- A token with a part in a replaced value is not kept. -/
theorem not_kept_of_reaches (hne : tok ≠ []) (htok : ∀ c ∈ tok, isSpace c = false)
    (h : Reaches pre s tok post) : ¬ Kept (pre ++ (s ++ (tok ++ post))) (pre ++ s) tok := by
  have hpos : 0 < tok.length := List.length_pos_iff.2 hne
  intro hkept
  rcases h with ⟨a, head, w, rfl, hh, hw⟩ | ⟨hh, hs⟩ | hfound
  · have hhead : ∀ c ∈ head, isSpace c = false := fun c hc => htok c (by simp [hc])
    have hword : ∀ c ∈ w, isSpace c = false := fun c hc => htok c (by simp [hc])
    have ht : pre ++ (s ++ (a ++ (head ++ w) ++ post)) =
        (pre ++ (s ++ a)) ++ (head ++ (w ++ post)) := by simp
    obtain ⟨m, hm, hstop, hstart⟩ := not_kept_of_head hh hhead hw hword ht
    have hwpos : 0 < w.length := List.length_pos_iff.2 hw
    have hcases := hkept m hm
    simp only [List.length_append] at hcases hstop hstart
    omega
  · obtain ⟨m, hm, hstop, hstart⟩ := not_kept_of_head hh hs hne htok rfl
    have hcases := hkept m hm
    omega
  · have hlt := start_lt_stop hfound
    have hstart : Found.start ⟨pre, s, tok ++ post⟩ = (pre ++ s).length := List.length_append.symm
    have hcases := hkept _ hfound
    omega

/-- A token behind a spelling is gone after redaction, unless it occurs elsewhere, exactly where it
does occur elsewhere, or a replaced value has a part of it and it does not show in a placeholder. -/
theorem redact_hides_iff (pre post : Text) (hs : IsSpelling s) (hne : tok ≠ [])
    (htok : ∀ c ∈ tok, isSpace c = false) :
    (tok <:+: redact (pre ++ (s ++ (tok ++ post))) →
        OccursElsewhere (pre ++ (s ++ (tok ++ post))) tok (pre ++ s).length) ↔
      OccursElsewhere (pre ++ (s ++ (tok ++ post))) tok (pre ++ s).length ∨
        (Reaches pre s tok post ∧ ¬ Shown (pre ++ (s ++ (tok ++ post))) tok) := by
  constructor
  · intro hlaw
    by_cases helse : OccursElsewhere (pre ++ (s ++ (tok ++ post))) tok (pre ++ s).length
    · exact .inl helse
    · right
      constructor
      · by_contra hreaches
        have hprefix := prefix_redact_token (fun hinner => hreaches (.inl hinner)) post
        have hsuffix := redact_suffix_of_not_reaches hs hne htok hreaches
        have hkept := hprefix.isInfix.trans hsuffix.isInfix
        exact helse (hlaw hkept)
      · exact fun hshown => helse (hlaw (infix_of_shown hshown))
  · rintro (helse | ⟨hreaches, hshown⟩) hinfix
    · exact helse
    · rcases infix_redact hne htok hinfix with ⟨x, y, hxy, hkept⟩ | hshown'
      · refine ⟨x, y, hxy, ?_⟩
        intro hlength
        apply not_kept_of_reaches hne htok hreaches
        intro m hm
        rw [← hlength]
        exact hkept m hm
      · exact absurd hshown' hshown

theorem redact_hides_key :
    IsSpelling (codes "api_key=") ∧ (codes "sk_live_abc123" <:+:
      redact (codes "api_key=sk_live_abc123") →
        OccursElsewhere (codes "api_key=sk_live_abc123") (codes "sk_live_abc123") 8) := by
  have hh : IsHead (codes "api_key=") :=
    ⟨codes "api_key", [], 61, [], by decide, by decide, by simp, by decide, by simp⟩
  refine ⟨.key hh, (redact_hides_iff [] [] (.key hh) (by decide) (by decide)).2
    (.inr ⟨.inr (.inl ⟨hh, by decide⟩), ?_⟩)⟩
  have hfinds : finds (codes "api_key=" ++ codes "sk_live_abc123") =
      [⟨[], codes "api_key=", codes "sk_live_abc123"⟩] := by
    rw [finds_match (peek_head hh ⟨115, codes "k_live_abc123", by decide, by decide⟩)]
    have hafter : afterWord (codes "sk_live_abc123") = [] := by decide
    rw [hafter, finds_nil, List.map_nil]
  rintro ⟨m, hm, hshown⟩
  rw [List.append_nil, List.nil_append, hfinds, List.mem_singleton] at hm
  subst hm
  revert hshown
  decide

/-- Only the scheme is replaced where a name stands before it. -/
theorem bearer_not_hidden :
    IsSpelling (codes "token=" ++ bearer) ∧ (∀ c ∈ codes "abc123def456", isSpace c = false) ∧
      codes "abc123def456" <:+: redact ((codes "token=" ++ bearer) ++ codes "abc123def456") ∧
      ¬ OccursElsewhere ((codes "token=" ++ bearer) ++ codes "abc123def456")
        (codes "abc123def456") (codes "token=" ++ bearer).length := by
  have hh : IsHead (codes "token=") :=
    ⟨codes "token", [], 61, [], by decide, by decide, by simp, by decide, by simp⟩
  refine ⟨.scheme hh, by decide, ?_, ?_⟩
  · have hsuffix := resumes_after_bearer (codes "token=") (codes "abc123def456")
    rw [redact_eq_self (t := codes "abc123def456") (by decide), ← List.append_assoc] at hsuffix
    exact hsuffix.isInfix
  · rintro ⟨x, y, hxy, hlength⟩
    have hnone : ∀ i < 13, ¬ codes "abc123def456" <+:
        ((codes "token=" ++ bearer) ++ codes "abc123def456").drop i := by decide
    have htotal := congrArg List.length hxy
    have htext : ((codes "token=" ++ bearer) ++ codes "abc123def456").length = 25 := by decide
    have htoken : (codes "abc123def456").length = 12 := by decide
    have hplace : (codes "token=" ++ bearer).length = 13 := by decide
    rw [htext, List.length_append, List.length_append, htoken] at htotal
    rw [hplace] at hlength
    apply hnone x.length (by omega)
    rw [hxy, List.drop_left]
    exact List.prefix_append _ _

end Logging
