import Mathlib.Data.List.Infix
import Mathlib.Data.List.TakeWhile

namespace Text
set_option autoImplicit true

/-- The letters that `_ESC` puts a backslash before. -/
def isReserved (c : Char) : Bool :=
  decide (c ∈ ['\\', '_', '*', '[', ']', '(', ')', '~', '`', '>', '#', '+', '=', '|', '{', '}',
    '.', '!', '-'])

/-- `_ESC.sub(r'\\\1', s)`. -/
def escapeReserved (s : List Char) : List Char :=
  s.flatMap fun c => if isReserved c = true then ['\\', c] else [c]

/-- `re.sub(r'\\([./\-:])', r'\1', text)`. -/
def stripEscapes : List Char → List Char
  | [] => []
  | [c] => [c]
  | c :: d :: cs =>
    if c = '\\' ∧ d ∈ ['.', '/', '-', ':'] then d :: stripEscapes cs
    else c :: stripEscapes (d :: cs)

/-- Something as short as possible before a delimiter, and what comes after it. -/
def upTo (delimiter : List Char) : List Char → Option (List Char × List Char)
  | [] => none
  | c :: cs =>
    if delimiter.isPrefixOf (c :: cs) then some ([], (c :: cs).drop delimiter.length)
    else (upTo delimiter cs).map fun (content, rest) => (c :: content, rest)

/-- `[\s\S]+?` and the delimiter. -/
def lazily (delimiter : List Char) : List Char → Option (List Char × List Char)
  | [] => none
  | c :: cs => (upTo delimiter cs).map fun (content, rest) => (c :: content, rest)

/-- `[^x]+x`. -/
def runTo (stop : Char) (s : List Char) : Option (List Char × List Char) :=
  match s.takeWhile (fun c => decide (c ≠ stop)), s.dropWhile (fun c => decide (c ≠ stop)) with
  | c :: run, _ :: rest => some (c :: run, rest)
  | _, _ => none

/-- What the pattern matches. -/
inductive Entity where
  | fenced (content : List Char)
  | code (content : List Char)
  | link (display target : List Char)
  | spoiler (inner : List Char)
  | styled (delimiter : Char) (inner : List Char)
deriving DecidableEq, Repr

def Entity.source : Entity → List Char
  | .fenced content => ['`', '`', '`'] ++ content ++ ['`', '`', '`']
  | .code content => '`' :: content ++ ['`']
  | .link display target => '[' :: display ++ [']', '('] ++ target ++ [')']
  | .spoiler inner => ['|', '|'] ++ inner ++ ['|', '|']
  | .styled delimiter inner => delimiter :: inner ++ [delimiter]

def fencedAt (s : List Char) : Option (Entity × List Char) :=
  if ['`', '`', '`'].isPrefixOf s then
    (lazily ['`', '`', '`'] (s.drop 3)).map fun (content, rest) => (.fenced content, rest)
  else none

def codeAt : List Char → Option (Entity × List Char)
  | '`' :: s => (runTo '`' s).map fun (content, rest) => (.code content, rest)
  | _ => none

/-- `\[([^\]]+)\]\(([^)]+)\)`: the two groups and what comes after them. -/
def linkGroups : List Char → Option ((List Char × List Char) × List Char)
  | '[' :: s =>
    match runTo ']' s with
    | some (display, '(' :: s) =>
      (runTo ')' s).map fun (target, rest) => ((display, target), rest)
    | _ => none
  | _ => none

def linkAt (s : List Char) : Option (Entity × List Char) :=
  (linkGroups s).map fun ((display, target), rest) => (.link display target, rest)

def spoilerAt (s : List Char) : Option (Entity × List Char) :=
  if ['|', '|'].isPrefixOf s then
    (lazily ['|', '|'] (s.drop 2)).map fun (inner, rest) => (.spoiler inner, rest)
  else none

def styledAt (delimiter : Char) : List Char → Option (Entity × List Char)
  | c :: s =>
    if c = delimiter then (runTo delimiter s).map fun (inner, rest) => (.styled delimiter inner, rest)
    else none
  | [] => none

/-- The pattern at the front of a text: the first of its alternatives that matches. -/
def entityAt (s : List Char) : Option (Entity × List Char) :=
  (fencedAt s).or <| (codeAt s).or <| (linkAt s).or <| (spoilerAt s).or <|
    (styledAt '*' s).or <| (styledAt '_' s).or (styledAt '~' s)

/-- A part of a split text. -/
inductive Fragment where
  | plain (part : List Char)
  | entity (e : Entity)
deriving DecidableEq, Repr

def Fragment.part : Fragment → List Char
  | .plain part => part
  | .entity e => e.source

def consPlain (c : Char) : List Fragment → List Fragment
  | .plain part :: fragments => .plain (c :: part) :: fragments
  | fragments => .plain [c] :: fragments

/-- `pat.split(text)`: plain parts with an entity between each two of them. The letters of an
entity besides its first are skipped. -/
def splitEntities : Nat → List Char → List Fragment
  | _, [] => [.plain []]
  | skip + 1, _ :: cs => splitEntities skip cs
  | 0, c :: cs =>
    match entityAt (c :: cs) with
    | some (e, _) => .plain [] :: .entity e :: splitEntities (e.source.length - 1) cs
    | none => consPlain c (splitEntities 0 cs)

/-- What becomes of an entity. -/
def escapeEntity (part : List Char) : List Char :=
  if ['`', '`', '`'].isPrefixOf part ∨ ['`'].isPrefixOf part then part
  else if ['['].isPrefixOf part then
    match linkGroups part with
    | some ((display, target), _) =>
      '[' :: escapeReserved display ++ [']', '('] ++ target ++ [')']
    | none => part
  else if ['|', '|'].isPrefixOf part then
    ['|', '|'] ++ escapeReserved ((part.drop 2).dropLast.dropLast) ++ ['|', '|']
  else
    match part with
    | [] => []
    | b :: inner => b :: escapeReserved inner.dropLast ++ [b]

def Fragment.escaped : Fragment → List Char
  | .plain part => escapeReserved part
  | .entity e => escapeEntity e.source

/-- `escape_markdown_v2`. -/
def escapeMarkdownV2 (text : List Char) : List Char :=
  if text = [] then [] else (splitEntities 0 (stripEscapes text)).flatMap Fragment.escaped

/-- What the letters of the output are. -/
inductive Segment where
  | text (s : List Char)
  | delimiter (s : List Char)
  | code (s : List Char)
  | target (s : List Char)
deriving DecidableEq, Repr

def Segment.letters : Segment → List Char
  | .text s => s
  | .delimiter s => s
  | .code s => s
  | .target s => s

def Entity.segments : Entity → List Segment
  | .fenced content => [.delimiter ['`', '`', '`'], .code content, .delimiter ['`', '`', '`']]
  | .code content => [.delimiter ['`'], .code content, .delimiter ['`']]
  | .link display target =>
    [.delimiter ['['], .text (escapeReserved display), .delimiter [']', '('], .target target,
      .delimiter [')']]
  | .spoiler inner =>
    [.delimiter ['|', '|'], .text (escapeReserved inner), .delimiter ['|', '|']]
  | .styled delimiter inner =>
    [.delimiter [delimiter], .text (escapeReserved inner), .delimiter [delimiter]]

def Fragment.segments : Fragment → List Segment
  | .plain part => [.text (escapeReserved part)]
  | .entity e => e.segments

/-- The parts of the text as they are recognised. -/
def fragments (text : List Char) : List Fragment := splitEntities 0 (stripEscapes text)

/-- The output, with what its letters are. -/
def segments (text : List Char) : List Segment := (fragments text).flatMap Fragment.segments

/-- Every reserved letter has a backslash of its own before it. -/
def escapedFor (reserved : Char → Bool) : List Char → Bool
  | [] => true
  | [c] => !reserved c
  | c :: d :: cs =>
    if c = '\\' then reserved d && escapedFor reserved cs
    else !reserved c && escapedFor reserved (d :: cs)

/-- What a segment has to be like in a MarkdownV2 message. -/
def Segment.wellFormed : Segment → Bool
  | .text s => escapedFor isReserved s
  | .delimiter _ => true
  | .code s => escapedFor (fun c => decide (c ∈ ['\\', '`'])) s
  | .target s => escapedFor (fun c => decide (c ∈ ['\\', ')'])) s

/-- What the pattern makes sure of. -/
def Entity.Valid : Entity → Prop
  | .fenced content => content ≠ []
  | .code content => content ≠ [] ∧ '`' ∉ content
  | .link display target => display ≠ [] ∧ ']' ∉ display ∧ target ≠ [] ∧ ')' ∉ target
  | .spoiler inner => inner ≠ []
  | .styled delimiter inner => delimiter ∈ ['*', '_', '~'] ∧ inner ≠ [] ∧ delimiter ∉ inner

theorem upTo_some (h : upTo delimiter s = some (content, rest)) :
    s = content ++ delimiter ++ rest := by
  induction s generalizing content rest with
  | nil => cases h
  | cons c cs ih =>
    rw [upTo] at h
    split at h
    · rename_i hp
      cases h
      obtain ⟨tail, htail⟩ := List.isPrefixOf_iff_prefix.1 hp
      rw [← htail, List.drop_left, List.nil_append]
    · obtain ⟨⟨content', rest'⟩, hrest, heq⟩ := Option.map_eq_some_iff.1 h
      cases heq
      rw [ih hrest]
      rfl

theorem lazily_some (h : lazily delimiter s = some (content, rest)) :
    s = content ++ delimiter ++ rest ∧ content ≠ [] := by
  cases s with
  | nil => cases h
  | cons c cs =>
    obtain ⟨⟨content', rest'⟩, hrest, heq⟩ := Option.map_eq_some_iff.1 h
    cases heq
    rw [upTo_some hrest]
    exact ⟨rfl, List.cons_ne_nil _ _⟩

theorem runTo_some (h : runTo stop s = some (run, rest)) :
    s = run ++ stop :: rest ∧ run ≠ [] ∧ stop ∉ run := by
  rw [runTo] at h
  split at h
  · rename_i c run' d rest' htake hdrop
    cases h
    have hsplit := List.takeWhile_append_dropWhile (p := fun c => decide (c ≠ stop)) (l := s)
    have hd : d = stop := by
      have hhead := List.head?_dropWhile_not (fun c => decide (c ≠ stop)) s
      rw [hdrop] at hhead
      simpa using hhead
    rw [htake, hdrop, hd] at hsplit
    refine ⟨hsplit.symm, List.cons_ne_nil _ _, ?_⟩
    rw [← htake]
    intro hmem
    have := List.mem_takeWhile_imp hmem
    simp at this
  · cases h

theorem runTo_append (hne : run ≠ []) (hstop : stop ∉ run) (rest : List Char) :
    runTo stop (run ++ stop :: rest) = some (run, rest) := by
  have hall : ∀ c ∈ run, decide (c ≠ stop) = true := by
    intro c hc
    exact decide_eq_true fun heq => hstop (heq ▸ hc)
  have htake : (run ++ stop :: rest).takeWhile (fun c => decide (c ≠ stop)) = run := by
    rw [List.takeWhile_append_of_pos hall, List.takeWhile_cons_of_neg (by simp), List.append_nil]
  have hdrop : (run ++ stop :: rest).dropWhile (fun c => decide (c ≠ stop)) = stop :: rest := by
    rw [List.dropWhile_append_of_pos hall, List.dropWhile_cons_of_neg (by simp)]
  obtain ⟨c, run, rfl⟩ := List.exists_cons_of_ne_nil hne
  rw [runTo, htake, hdrop]

theorem fencedAt_some (h : fencedAt s = some (e, rest)) : s = e.source ++ rest ∧ e.Valid := by
  rw [fencedAt] at h
  split at h
  · rename_i hp
    obtain ⟨⟨content, rest'⟩, hlazy, heq⟩ := Option.map_eq_some_iff.1 h
    cases heq
    obtain ⟨tail, rfl⟩ := List.isPrefixOf_iff_prefix.1 hp
    obtain ⟨htail, hne⟩ := lazily_some hlazy
    rw [show tail = content ++ ['`', '`', '`'] ++ rest from htail]
    exact ⟨by simp [Entity.source], hne⟩
  · cases h

theorem codeAt_some (h : codeAt s = some (e, rest)) : s = e.source ++ rest ∧ e.Valid := by
  unfold codeAt at h
  split at h
  · obtain ⟨⟨content, rest'⟩, hrun, heq⟩ := Option.map_eq_some_iff.1 h
    cases heq
    obtain ⟨htail, hvalid⟩ := runTo_some hrun
    rw [htail]
    exact ⟨by simp [Entity.source], hvalid⟩
  · cases h

theorem linkGroups_some (h : linkGroups s = some ((display, target), rest)) :
    s = (Entity.link display target).source ++ rest ∧ (Entity.link display target).Valid := by
  unfold linkGroups at h
  split at h
  · split at h
    · rename_i hdisplay
      obtain ⟨⟨target', rest'⟩, htarget, heq⟩ := Option.map_eq_some_iff.1 h
      cases heq
      obtain ⟨hs, hd⟩ := runTo_some hdisplay
      obtain ⟨hs', ht⟩ := runTo_some htarget
      rw [hs, hs']
      exact ⟨by simp [Entity.source], hd.1, hd.2, ht.1, ht.2⟩
    · cases h
  · cases h

theorem linkAt_some (h : linkAt s = some (e, rest)) : s = e.source ++ rest ∧ e.Valid := by
  obtain ⟨⟨⟨display, target⟩, rest'⟩, hgroups, heq⟩ := Option.map_eq_some_iff.1 h
  cases heq
  exact linkGroups_some hgroups

theorem spoilerAt_some (h : spoilerAt s = some (e, rest)) : s = e.source ++ rest ∧ e.Valid := by
  rw [spoilerAt] at h
  split at h
  · rename_i hp
    obtain ⟨⟨inner, rest'⟩, hlazy, heq⟩ := Option.map_eq_some_iff.1 h
    cases heq
    obtain ⟨tail, rfl⟩ := List.isPrefixOf_iff_prefix.1 hp
    obtain ⟨htail, hne⟩ := lazily_some hlazy
    rw [show tail = inner ++ ['|', '|'] ++ rest from htail]
    exact ⟨by simp [Entity.source], hne⟩
  · cases h

theorem styledAt_some (hd : delimiter ∈ ['*', '_', '~']) (h : styledAt delimiter s = some (e, rest)) :
    s = e.source ++ rest ∧ e.Valid := by
  cases s with
  | nil => cases h
  | cons c cs =>
    rw [styledAt] at h
    split at h
    · rename_i hc
      obtain ⟨⟨inner, rest'⟩, hrun, heq⟩ := Option.map_eq_some_iff.1 h
      cases heq
      obtain ⟨htail, hvalid⟩ := runTo_some hrun
      rw [hc, htail]
      exact ⟨by simp [Entity.source], hd, hvalid⟩
    · cases h

/-- The pattern matches an entity at the front of the text. -/
theorem entityAt_some (h : entityAt s = some (e, rest)) : s = e.source ++ rest ∧ e.Valid := by
  simp only [entityAt, Option.or_eq_some_iff] at h
  obtain h | ⟨_, h | ⟨_, h | ⟨_, h | ⟨_, h | ⟨_, h | ⟨_, h⟩⟩⟩⟩⟩⟩ := h
  · exact fencedAt_some h
  · exact codeAt_some h
  · exact linkAt_some h
  · exact spoilerAt_some h
  · exact styledAt_some (by decide) h
  · exact styledAt_some (by decide) h
  · exact styledAt_some (by decide) h

theorem consPlain_part (c : Char) (fs : List Fragment) :
    (consPlain c fs).flatMap Fragment.part = c :: fs.flatMap Fragment.part := by
  unfold consPlain
  split <;> simp [Fragment.part]

theorem mem_consPlain (h : Fragment.entity e ∈ consPlain c fs) : Fragment.entity e ∈ fs := by
  unfold consPlain at h
  split at h
  · simpa using h
  · simpa using h

/-- The parts put together are the text. -/
theorem splitEntities_part (skip : Nat) (s : List Char) :
    (splitEntities skip s).flatMap Fragment.part = s.drop skip := by
  induction s generalizing skip with
  | nil =>
    rw [splitEntities, List.drop_nil]
    rfl
  | cons c cs ih =>
    cases skip with
    | succ skip => rw [splitEntities, ih, List.drop_succ_cons]
    | zero =>
      rw [splitEntities]
      split
      · rename_i e rest he
        obtain ⟨hsource, _⟩ := entityAt_some he
        have hpos : 1 ≤ e.source.length := by
          cases e <;> simp [Entity.source]
        rw [List.flatMap_cons, List.flatMap_cons, ih]
        have hrest : cs.drop (e.source.length - 1) = rest := by
          rw [← List.drop_succ_cons (a := c), Nat.sub_add_cancel hpos, hsource, List.drop_left]
        rw [hrest]
        exact hsource.symm
      · rw [consPlain_part, ih, List.drop_zero, List.drop_zero]

theorem splitEntities_valid (h : Fragment.entity e ∈ splitEntities skip s) : e.Valid := by
  induction s generalizing skip with
  | nil => simp [splitEntities] at h
  | cons c cs ih =>
    cases skip with
    | succ skip => exact ih h
    | zero =>
      rw [splitEntities] at h
      split at h
      · rename_i e' rest he
        simp only [List.mem_cons, reduceCtorEq, Fragment.entity.injEq, false_or] at h
        obtain rfl | h := h
        · exact (entityAt_some he).2
        · exact ih h
      · exact ih (mem_consPlain h)

theorem linkGroups_source (h : (Entity.link display target).Valid) :
    linkGroups (Entity.link display target).source = some ((display, target), []) := by
  obtain ⟨hd, hd', ht, ht'⟩ := h
  have hdisplay : display ++ [']', '('] ++ target ++ [')'] =
      display ++ ']' :: ('(' :: (target ++ [')'])) := by
    simp
  rw [Entity.source, List.cons_append, List.cons_append, List.cons_append, linkGroups, hdisplay,
    runTo_append hd hd']
  change (runTo ')' (target ++ [')'])).map (fun x => ((display, x.fst), x.snd)) = _
  rw [runTo_append ht ht', Option.map_some]

/-- What the output has in place of an entity. -/
theorem escapeEntity_segments {e : Entity} (h : e.Valid) :
    escapeEntity e.source = e.segments.flatMap Segment.letters := by
  cases e with
  | fenced content => simp [escapeEntity, Entity.source, Entity.segments, Segment.letters]
  | code content => simp [escapeEntity, Entity.source, Entity.segments, Segment.letters]
  | link display target =>
    unfold escapeEntity
    rw [if_neg (by simp [Entity.source]), if_pos (by simp [Entity.source]), linkGroups_source h]
    simp [Entity.segments, Segment.letters]
  | spoiler inner =>
    simp [escapeEntity, Entity.source, Entity.segments, Segment.letters]
  | styled delimiter inner =>
    obtain ⟨hd, _, _⟩ := h
    simp only [List.mem_cons, List.not_mem_nil, or_false] at hd
    obtain rfl | rfl | rfl := hd
    all_goals simp [escapeEntity, Entity.source, Entity.segments, Segment.letters]

theorem fragment_segments {f : Fragment} (h : ∀ e, f = .entity e → e.Valid) :
    f.escaped = f.segments.flatMap Segment.letters := by
  cases f with
  | plain part => exact (List.append_nil _).symm
  | entity e => exact escapeEntity_segments (h e rfl)

theorem escapedFor_cons {reserved : Char → Bool} (hc : reserved c = false) (hb : c ≠ '\\')
    (s : List Char) : escapedFor reserved (c :: s) = escapedFor reserved s := by
  cases s with
  | nil => simp [escapedFor, hc]
  | cons d s => rw [escapedFor, if_neg hb, hc, Bool.not_false, Bool.true_and]

theorem escapedFor_escapeReserved (s : List Char) :
    escapedFor isReserved (escapeReserved s) = true := by
  induction s with
  | nil => rfl
  | cons c cs ih =>
    rw [escapeReserved, List.flatMap_cons, ← escapeReserved]
    by_cases hc : isReserved c = true
    · rw [if_pos hc, List.cons_append, List.cons_append, List.nil_append, escapedFor, if_pos rfl, hc,
        ih]
      rfl
    · have hb : c ≠ '\\' := by
        rintro rfl
        exact hc (by decide)
      rw [if_neg hc, List.singleton_append, escapedFor_cons (by simpa using hc) hb, ih]

/-- Text is only ever put out escaped. -/
theorem text_segment {f : Fragment} (h : .text s ∈ f.segments) : ∃ t, s = escapeReserved t := by
  cases f with
  | plain part => exact ⟨part, Segment.text.inj (List.mem_singleton.1 h)⟩
  | entity e =>
    cases e with
    | fenced content => simp [Fragment.segments, Entity.segments] at h
    | code content => simp [Fragment.segments, Entity.segments] at h
    | link display target => exact ⟨display, by simpa [Fragment.segments, Entity.segments] using h⟩
    | spoiler inner => exact ⟨inner, by simpa [Fragment.segments, Entity.segments] using h⟩
    | styled delimiter inner => exact ⟨inner, by simpa [Fragment.segments, Entity.segments] using h⟩

theorem code_segment {f : Fragment} (h : .code s ∈ f.segments) :
    f = .entity (.fenced s) ∨ f = .entity (.code s) := by
  cases f with
  | plain part => simp [Fragment.segments] at h
  | entity e => cases e <;> simp_all [Fragment.segments, Entity.segments]

theorem target_segment {f : Fragment} (h : .target s ∈ f.segments) :
    ∃ display, f = .entity (.link display s) := by
  cases f with
  | plain part => simp [Fragment.segments] at h
  | entity e => cases e <;> simp_all [Fragment.segments, Entity.segments]

theorem fragments_valid (h : .entity e ∈ fragments text) : e.Valid := splitEntities_valid h

theorem escapeMarkdownV2_letters (text : List Char) :
    escapeMarkdownV2 text = (segments text).flatMap Segment.letters := by
  by_cases htext : text = []
  · rw [htext]
    rfl
  · rw [escapeMarkdownV2, if_neg htext, segments, List.flatMap_assoc]
    apply List.flatMap_congr
    intro f hf
    refine fragment_segments ?_
    rintro e rfl
    exact fragments_valid hf

/-- The output is that of the text as it is recognised: outside code and link targets every reserved
letter is escaped or the delimiter of an entity, and the content of code and link targets is left as
it is, with no backtick in inline code and no closing parenthesis in a target. -/
theorem escapeMarkdownV2_segments (text : List Char) :
    (fragments text).flatMap Fragment.part = stripEscapes text ∧
      escapeMarkdownV2 text = (segments text).flatMap Segment.letters ∧
      (∀ s, .text s ∈ segments text → escapedFor isReserved s = true) ∧
      (∀ s, .code s ∈ segments text → .entity (.fenced s) ∈ fragments text ∨
        (.entity (.code s) ∈ fragments text ∧ '`' ∉ s)) ∧
      ∀ s, .target s ∈ segments text →
        (∃ display, .entity (.link display s) ∈ fragments text) ∧ ')' ∉ s := by
  refine ⟨splitEntities_part 0 _, escapeMarkdownV2_letters text, ?_, ?_, ?_⟩
  · intro s hs
    obtain ⟨f, _, hf⟩ := List.mem_flatMap.1 hs
    obtain ⟨t, rfl⟩ := text_segment hf
    exact escapedFor_escapeReserved t
  · intro s hs
    obtain ⟨f, hmem, hf⟩ := List.mem_flatMap.1 hs
    obtain rfl | rfl := code_segment hf
    · exact .inl hmem
    · exact .inr ⟨hmem, (fragments_valid hmem).2⟩
  · intro s hs
    obtain ⟨f, hmem, hf⟩ := List.mem_flatMap.1 hs
    obtain ⟨display, rfl⟩ := target_segment hf
    exact ⟨⟨display, hmem⟩, (fragments_valid hmem).2.2.2⟩

/-- Inline code with a backslash in it, and a link to a target with one. -/
theorem escapeMarkdownV2_backslash :
    escapeMarkdownV2 ['`', 'a', '\\', 'b', '`'] = ['`', 'a', '\\', 'b', '`'] ∧
      ¬(∀ seg ∈ segments ['`', 'a', '\\', 'b', '`'], seg.wellFormed = true) ∧
      escapeMarkdownV2 ['[', 'a', ']', '(', 'b', '\\', 'c', ')'] =
        ['[', 'a', ']', '(', 'b', '\\', 'c', ')'] ∧
      ¬∀ seg ∈ segments ['[', 'a', ']', '(', 'b', '\\', 'c', ')'], seg.wellFormed = true := by
  decide

end Text
