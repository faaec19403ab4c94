import Mathlib.Data.List.Sort
import AnythingTools.Text.SplitBoundary

namespace Text
open Find Sync
set_option autoImplicit true

abbrev Token := List Char

/-- The parse modes that `DELIMITER_CONFIG_BY_MODE` has an entry for. -/
inductive ParseMode where
  | markdown
  | markdownV2
deriving DecidableEq, Repr

structure DelimiterConfig where
  tokens : List Token
  toggle : List Token

def backtick : Token := ['`']

def fence : Token := ['`', '`', '`']

def delimiterConfig : ParseMode → DelimiterConfig
  | .markdown => ⟨[fence, backtick, ['*'], ['_'], ['[']], [['*'], ['_'], backtick, fence]⟩
  | .markdownV2 =>
    ⟨[fence, ['|', '|'], ['_', '_'], backtick, ['*'], ['_'], ['~'], ['['], ['>']],
      [['*'], ['_'], ['_', '_'], ['~'], ['|', '|'], backtick, fence]⟩

/-- The tokens of a mode, the longest first. -/
def sortedTokens (mode : ParseMode) : List Token :=
  (delimiterConfig mode).tokens.insertionSort fun a b => b.length ≤ a.length

def delimiterBuffer : Nat := 50

/-- `_build_closers`, for a stack that begins with its top. -/
def buildClosers (stack : List Token) : List Char :=
  stack.flatMap fun t => if t = ['['] then [']'] else t

/-- `_build_openers`. -/
def buildOpeners (stack : List Token) : List Char :=
  (stack.reverse.filter fun t => decide (t ≠ ['['])).flatten

/-- `_in_blockquote_at`. -/
def inBlockquoteAt (text : List Char) (idx : Nat) (mode : ParseMode) : Bool :=
  decide (mode = .markdownV2) &&
    decide ((text.drop (((rfind text ['\n'] 0 idx).map (· + 1)).getD 0)).take 2 = ['>', ' '])

/-- A newline, else the end of a sentence, else a blank: where the last of them ends. -/
def softSplit (text : List Char) (searchStart ceiling : Int) : Option Nat :=
  ((rfind text ['\n'] searchStart ceiling).map (· + 1)).or <|
    (([['.', ' '], ['!', ' '], ['?', ' ']].filterMap fun punct =>
      rfind text punct searchStart ceiling).max?.map (· + 2)).or <|
    (rfind text [' '] searchStart ceiling).map (· + 1)

/-- The soft split point of `_find_split_point`: in the last quarter if there is one. -/
def softSplitPoint (text : List Char) (effectiveLimit : Int) : Option Nat :=
  let ceiling := min effectiveLimit text.length
  (softSplit text ((ceiling * 3).tdiv 4) ceiling).or (softSplit text 0 ceiling)

/-- `_find_split_point`. -/
def findSplitPoint (text : List Char) (effectiveLimit : Int) (hardMax : Nat) : Nat :=
  (softSplitPoint text effectiveLimit).getD (min hardMax text.length)

/-- One round of the loop of `_scan_state`: the stack after it and how far it moves on. -/
def scanStep (mode : ParseMode) (rest : List Char) (stack : List Token) : List Token × Nat :=
  if stack.head? = some backtick ∨ stack.head? = some fence then
    let closer := stack.head?.getD []
    if closer.isPrefixOf rest then (stack.tail, closer.length) else (stack, 1)
  else if rest.head? = some '\\' then (stack, 2)
  else
    match (sortedTokens mode).find? fun t => t.isPrefixOf rest with
    | none => (stack, 1)
    | some matched =>
      if matched ∈ (delimiterConfig mode).toggle then
        if stack.head? = some matched then (stack.tail, matched.length)
        else (matched :: stack, matched.length)
      else (stack, matched.length)

/-- `_scan_state`. The letters that a round moves over besides its first are skipped. -/
def scanState (mode : ParseMode) : List Char → Nat → Nat → List Token → List Token
  | [], _, _, stack => stack
  | _ :: _, 0, _, stack => stack
  | _ :: cs, endIdx + 1, skip + 1, stack => scanState mode cs endIdx skip stack
  | c :: cs, endIdx + 1, 0, stack =>
    let (stack, width) := scanStep mode (c :: cs) stack
    scanState mode cs endIdx (width - 1) stack

/-- What goes into `_assemble_chunk`. -/
structure Part where
  raw : List Char
  openers : List Char
  closers : List Char
  inBq : Bool
deriving DecidableEq, Repr

/-- `_assemble_chunk`. -/
def assembleChunk (mode : ParseMode) (p : Part) : List Char :=
  let newlines := p.raw.takeWhile (· = '\n')
  let body := p.raw.dropWhile (· = '\n')
  let bq :=
    if p.inBq = true ∧ mode = .markdownV2 ∧ body ≠ [] ∧ body.head? ≠ some '>' then ['>', ' ']
    else []
  newlines ++ bq ++ p.openers ++ body ++ p.closers

/-- Where each token that is longer than a letter begins, if the split point is inside it. -/
def straddled (text : List Char) (splitIdx : Nat) (tokens : List Token) : List Nat :=
  (tokens.filter fun t => decide (1 < t.length)).flatMap fun t =>
    (List.range' 1 (t.length - 1)).filterMap fun offset =>
      if offset ≤ splitIdx ∧ t.isPrefixOf (text.drop (splitIdx - offset)) = true then
        some (splitIdx - offset)
      else none

/-- `_rollback_if_inside_atom`. -/
def rollbackIfInsideAtom (text : List Char) (splitIdx : Nat) (tokens : List Token) : Nat :=
  match (straddled text splitIdx tokens).head? with
  | some start => start
  | none =>
    match rfind text ['['] 0 splitIdx with
    | none => splitIdx
    | some bracketPos =>
      match find text ')' bracketPos with
      | none => splitIdx
      | some parenClose => if splitIdx ≤ parenClose then bracketPos else splitIdx

/-- What a round of the splitter leaves to the next. -/
structure Carry where
  remaining : List Char
  stack : List Token := []
  carryOpeners : List Char := []
  carryBq : Bool := false
deriving DecidableEq, Repr

section

variable (mode : ParseMode) (maxLength : Nat)

def Carry.cost (s : Carry) : Nat :=
  s.carryOpeners.length + if s.carryBq = true ∧ mode = .markdownV2 then 2 else 0

/-- The split point that is searched for. -/
def Carry.splitIdx (s : Carry) : Nat :=
  findSplitPoint s.remaining ((maxLength : Int) - s.cost mode - delimiterBuffer) maxLength

/-- The split point after the rollback. -/
def Carry.cut (s : Carry) : Nat :=
  rollbackIfInsideAtom s.remaining (s.splitIdx mode maxLength) (sortedTokens mode)

def Carry.chunkStack (s : Carry) : List Token :=
  scanState mode s.remaining (s.cut mode maxLength) 0 s.stack

def Carry.part (s : Carry) : Part where
  raw := s.remaining.take (s.cut mode maxLength)
  openers := s.carryOpeners
  closers := buildClosers (s.chunkStack mode maxLength)
  inBq := s.carryBq

def Carry.next (s : Carry) : Carry where
  remaining := s.remaining.drop (s.cut mode maxLength)
  stack := s.chunkStack mode maxLength
  carryOpeners := buildOpeners (s.chunkStack mode maxLength)
  carryBq := inBlockquoteAt (s.remaining.drop (s.cut mode maxLength)) 0 mode

def Carry.final (s : Carry) : Part := ⟨s.remaining, s.carryOpeners, [], s.carryBq⟩

/-- A round that cuts: what remains does not fit. -/
def Carry.Cuts (s : Carry) : Prop :=
  s.remaining ≠ [] ∧ maxLength < s.remaining.length + s.cost mode

instance (s : Carry) : Decidable (s.Cuts mode maxLength) :=
  inferInstanceAs (Decidable (_ ∧ _))

/-- The loop of `smart_split_message`: the parts that it assembles, for as long as the fuel lasts. -/
def splitLoop : Nat → Carry → Option (List Part)
  | fuel, s =>
    if s.remaining = [] then some []
    else if s.Cuts mode maxLength then
      match fuel with
      | 0 => none
      | fuel + 1 => (splitLoop fuel (s.next mode maxLength)).map (s.part mode maxLength :: ·)
    else some [s.final]

end

def strip (s : List Char) : List Char := (lstrip (lstrip s).reverse).reverse

/-- A chunk with nothing in it but a delimiter. -/
def delimiterOnly (chunk : List Char) : Bool :=
  decide (strip chunk ∈ [[], fence, backtick, ['*'], ['_']])

/-- One round of `_merge_delimiter_only_chunks`, with the chunks so far the newest first. -/
def mergeStep (maxLength : Nat) (merged : List (List Char)) (chunk : List Char) :
    List (List Char) :=
  match merged with
  | [] => [chunk]
  | last :: before =>
    if delimiterOnly chunk = true ∧ (last ++ chunk).length ≤ maxLength then
      (last ++ chunk) :: before
    else chunk :: last :: before

/-- `_merge_delimiter_only_chunks`. -/
def mergeDelimiterOnlyChunks (chunks : List (List Char)) (maxLength : Nat) : List (List Char) :=
  (chunks.foldl (mergeStep maxLength) []).reverse

/-- `smart_split_message`. -/
def smartSplitMessage (fuel : Nat) (text : List Char) (maxLength : Nat)
    (parseMode : Option ParseMode) : Option (List (List Char)) :=
  if text = [] then some []
  else if text.length ≤ maxLength then some [text]
  else
    match parseMode with
    | none => splitBoundaryOnly fuel text maxLength
    | some mode =>
      (splitLoop mode maxLength fuel ⟨text, [], [], false⟩).map fun parts =>
        mergeDelimiterOnlyChunks (parts.map (assembleChunk mode)) maxLength

end Text
