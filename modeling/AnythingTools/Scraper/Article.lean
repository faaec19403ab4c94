import AnythingTools.Articles.FirstScrape
import AnythingTools.Jobs.ItemRow

namespace Scraper
open Articles JobItems
set_option autoImplicit true

/-- The flags in the `output_data` of an item. -/
structure LocalMeta where
  validationPassed : Bool := false
  summaryGenerated : Bool := false
  embeddingSynced : Bool := false
  retryable : Bool := false
deriving DecidableEq, Repr

/-- Validation and summary are done, as far as the flags go. -/
def LocalMeta.summarized (info : LocalMeta) : Bool := info.validationPassed && info.summaryGenerated

/-- What a person answers to an alert. -/
inductive Decision where
  | proceed
  | skip
  | cancel
deriving DecidableEq, Repr

/-- The verdict of the validation, with the reason and the one that is shown to a person. -/
inductive Verdict where
  | proceed
  | autoSkip (reason : String)
  | humanHelp (display : String)
deriving DecidableEq, Repr

/-- A summary is a list of points or a text. -/
inductive Summary where
  | points (items : List String)
  | text (s : String)
deriving DecidableEq, Repr

/-- The reply of the model, each member as the text of what is there; the points are cleaned. -/
structure ParsedJson where
  error : String := ""
  title : String := ""
  conclusion : String := ""
  summary : Summary := .points []
deriving DecidableEq, Repr

/-- What the page, the person and the model answer for one article: whether the page can be read, and
read again after a person let it pass. An answer that is missing is an exception. -/
structure Answers where
  page : Bool := true
  videoAudio : Option Bool := some false
  paywall : Option (Option Decision) := some none
  verdict : Option Verdict := some .proceed
  stopped : Bool := false
  decision : Decision := .proceed
  reload : Bool := true
  replies : List ParsedJson
deriving DecidableEq, Repr

inductive Result where
  | success (data : ParsedJson)
  | skipped (reason : String)
  | failed (reason : String)
  | canceled (reason : String)
  | resumeEmbedOnly
deriving DecidableEq, Repr

/-- `result.get("reason", "")`. -/
def Result.reason : Result → String
  | .skipped reason => reason
  | .failed reason => reason
  | .canceled reason => reason
  | _ => ""

/-- What the processing of an article has written to the item and to the job. -/
inductive Report where
  | item (status : ItemStatus) (info : LocalMeta)
  | job (status : String)
deriving DecidableEq, Repr

/-- `summarize_article` with the attempts that are left; `none` is an exception. -/
def summarizeArticle : Nat → List ParsedJson → Option Result
  | 0, _ =>
    some (.failed "Summarisation returned empty or insufficient content after 3 attempts")
  | _ + 1, [] => none
  | attempts + 1, data :: replies =>
    if data.error = "INSUFFICIENT_CONTENT" then summarizeArticle attempts replies
    else if data.title ≠ "" ∧ data.conclusion ≠ "" then some (.success data)
    else summarizeArticle attempts replies

/-- `request_decision` pauses the job until there is an answer. -/
def requestDecision (decision : Decision) : List Report :=
  [.job "PAUSED_FOR_HITL", .job (if decision = .cancel then "CANCELLING" else "RUNNING")]

/-- How an article has gone so far: what was reported, with the flags, and the result if there is one;
a person may have cancelled the job. -/
structure Processed where
  info : LocalMeta
  reports : List Report := []
  result : Option Result := none
  cancels : Bool := false
deriving DecidableEq, Repr

def Processed.report (p : Processed) (reports : List Report) : Processed :=
  { p with reports := p.reports ++ reports }

def Processed.done (p : Processed) (result : Result) : Processed := { p with result := some result }

/-- What is returned after an exception. -/
def Processed.broken (p : Processed) : Processed :=
  p.done (.failed "Validation failed after 1 attempt")

/-- The page passes the validation. -/
def Processed.validated (p : Processed) : Processed :=
  { p with info := { p.info with validationPassed := true } }.report
    [.item .running { p.info with validationPassed := true }]

/-- There is a summary. -/
def Processed.summarized (p : Processed) : Processed :=
  { p with info := { p.info with summaryGenerated := true } }.report
    [.item .running { p.info with summaryGenerated := true }]

/-- The page is skipped for good. -/
def Processed.autoSkipped (p : Processed) (reason : String) : Processed :=
  ({ p with info := { p.info with retryable := false } }.report
    [.item .skipped { p.info with retryable := false }]).done (.skipped reason)

def Processed.andThen (p : Processed) (f : Processed → Processed) : Processed :=
  match p.result with
  | some _ => p
  | none => f p

/-- Pages of videos are skipped. -/
def checkVideoAudio (a : Answers) (p : Processed) : Processed :=
  match a.videoAudio with
  | none => p.broken
  | some true => p.autoSkipped
      "Auto-skipped: Page primary content is video/audio with insufficient article text."
  | some false => p

/-- A person decides about a paywall. -/
def checkPaywall (a : Answers) (p : Processed) : Processed :=
  match a.paywall with
  | none => p.broken
  | some none => p
  | some (some decision) =>
    let p := p.report (requestDecision decision)
    match decision with
    | .proceed => if a.reload then p.validated else p.broken
    | .skip => p.done (.skipped "User skipped after HITL: Paywall detected")
    | .cancel => { p with cancels := true }.done (.canceled "User requested stop via HITL.")

/-- The model looks at a page that no person has let through. -/
def checkVerdict (a : Answers) (p : Processed) : Processed :=
  if p.info.validationPassed then p
  else
    match a.verdict with
    | none => p.broken
    | some .proceed => p.validated
    | some (.autoSkip reason) => p.autoSkipped ("Auto-skipped: " ++ reason)
    | some (.humanHelp display) =>
      if a.stopped then p.done (.canceled "User requested stop via Human Help mode.")
      else
        let p := p.report (requestDecision a.decision)
        match a.decision with
        | .proceed => if a.reload then p.validated else p.broken
        | .skip => p.done (.skipped ("User skipped after HITL: " ++ display))
        | .cancel => { p with cancels := true }.done (.canceled "User requested stop via HITL.")

def summarize (a : Answers) (p : Processed) : Processed :=
  match summarizeArticle 3 a.replies with
  | none => p.broken
  | some (.success data) => p.summarized.done (.success data)
  | some result => p.done result

/-- `process_article`. -/
def processArticle (a : Answers) (info : LocalMeta) : Processed :=
  let p : Processed := { info }
  if info.summarized then p.done .resumeEmbedOnly
  else if a.page = false then p.broken
  else
    let p := if info.validationPassed then p
      else (checkVideoAudio a p).andThen (checkPaywall a)
    (p.andThen (checkVerdict a)).andThen (summarize a)

/-- The fields of an article, or a result without any. -/
inductive Parsed where
  | article (title conclusion summary : String)
  | other (result : Result)
deriving DecidableEq, Repr

/-- `str.strip`. -/
def strip (s : String) : String := Sync.strip s

def Summary.join : Summary → String
  | .points items => "\n".intercalate ((items.filter (· ≠ "")).map fun item => "- " ++ item)
  | .text s => strip s

/-- `_parse_article_result`. -/
def parseArticleResult : Result → Parsed
  | .success data =>
    if strip data.title = "" ∨ strip data.conclusion = "" then
      .other (.failed "Missing mandatory JSON fields (title or conclusion)")
    else .article (strip data.title) (strip data.conclusion) data.summary.join
  | result => .other result

end Scraper
