import AnythingTools.IsoFormat
import AnythingTools.Sync.Bidirectional
import Mathlib.Data.String.Basic

namespace Sync
open IsoFormat
set_option autoImplicit true

/-- `t.replace("Z", "+00:00").replace(" ", "T")`. -/
def clean (t : List Char) : List Char :=
  t.flatMap fun c => if c = 'Z' then "+00:00".toList else if c = ' ' then ['T'] else [c]

/-- The start of the year 1970, where the time stamps count from. -/
def epoch : Int := dayNumber 1970 1 1 * 86400000000

/-- `parse_ts`, in microseconds: `mktime` is what the machine makes of a time without a zone, and
`other` what the source makes of a text of any other form. -/
def parseTs (mktime : Int → Int) (other : String → Int) (t : String) : Int :=
  match fromisoformat (clean t.toList) with
  | some (wall, some offset) => wall - offset - epoch
  | some (wall, none) => mktime wall
  | none => other t

theorem clean_append (x y : List Char) : clean (x ++ y) = clean x ++ clean y :=
  List.flatMap_append

theorem clean_cons (x : List Char) (hz : c ≠ 'Z') (hblank : c ≠ ' ') :
    clean (c :: x) = c :: clean x := by
  rw [clean, List.flatMap_cons, if_neg hz, if_neg hblank]
  rfl

theorem clean_pad (w : Nat) (h : n < 10 ^ w) : clean (Calendar.pad w n) = Calendar.pad w n := by
  have hdigits : ∀ c ∈ Calendar.pad w n, c.isDigit = true := fun c hc => isDigit_pad w h hc
  generalize Calendar.pad w n = x at hdigits
  induction x with
  | nil => rfl
  | cons c x ih =>
    have hc := hdigits c List.mem_cons_self
    have hz : c ≠ 'Z' := by
      rintro rfl
      exact absurd hc (by decide)
    have hblank : c ≠ ' ' := by
      rintro rfl
      exact absurd hc (by decide)
    rw [clean_cons x hz hblank, ih fun d hd => hdigits d (List.mem_cons_of_mem c hd)]

theorem clean_dateText (s : Stamp) : clean s.dateText = s.dateText := by
  rw [Stamp.dateText, clean_append, clean_cons _ (by decide) (by decide), clean_append,
    clean_cons _ (by decide) (by decide), clean_pad 4 s.year_lt, clean_pad 2 s.month_lt,
    clean_pad 2 s.day_lt]

theorem clean_timeText (s : Stamp) : clean s.timeText = s.timeText := by
  rw [Stamp.timeText, clean_append, clean_cons _ (by decide) (by decide), clean_append,
    clean_cons _ (by decide) (by decide), clean_pad 2 s.hour_lt, clean_pad 2 s.minute_lt,
    clean_pad 2 s.second_lt]

theorem clean_fractionText (s : Stamp) : clean s.fractionText = s.fractionText := by
  rw [Stamp.fractionText]
  cases s.fraction with
  | none => rfl
  | some f => rw [clean_cons _ (by decide) (by decide), clean_pad f.width f.lt]

theorem clean_offsetText (o : Int) (h : o.natAbs < 86400000000) :
    clean (offsetText o) = offsetText o := by
  have hnil : clean [] = [] := rfl
  have hsign : (if o < 0 then '-' else '+') ≠ 'Z' ∧ (if o < 0 then '-' else '+') ≠ ' ' := by
    split <;> decide
  have hh := clean_pad 2 (n := o.natAbs / 1000000 / 3600) (by omega)
  have hm := clean_pad 2 (n := o.natAbs / 1000000 / 60 % 60) (by omega)
  have hs := clean_pad 2 (n := o.natAbs / 1000000 % 60) (by omega)
  have hf := clean_pad 6 (n := o.natAbs % 1000000) (by omega)
  rw [offsetText, clean_cons _ hsign.1 hsign.2, clean_append, hh,
    clean_cons _ (by decide) (by decide), clean_append, hm, apply_ite clean, hnil,
    clean_cons _ (by decide) (by decide), clean_append, hs, apply_ite clean, hnil,
    clean_cons _ (by decide) (by decide), hf]

/-- The zone as it stands in the text that is parsed. -/
theorem readZone_clean (zone : Zone) : readZone (clean zone.text) = some zone.micros ∧
    ∀ c ∈ (clean zone.text).head?, c = '+' ∨ c = '-' := by
  cases zone with
  | naive => exact ⟨rfl, fun c hc => nomatch hc⟩
  | z =>
    have hz : clean Zone.z.text = offsetText 0 := by decide
    rw [hz]
    exact ⟨readZone_offsetText 0 (by decide), fun c hc => Stamp.head_offsetText 0 hc⟩
  | offset o h =>
    rw [Zone.text, clean_offsetText o h]
    exact ⟨readZone_offsetText o h, fun c hc => Stamp.head_offsetText o hc⟩

end Sync

namespace IsoFormat.Stamp
open Sync

def string (s : Stamp) : String := String.ofList s.text

/-- The point in time that a written stamp means. -/
def instant (mktime : Int → Int) (s : Stamp) : Int :=
  match s.zone.micros with
  | some offset => s.wall - offset - epoch
  | none => mktime s.wall

theorem parseTs_string (mktime : Int → Int) (other : String → Int) (s : Stamp) :
    parseTs mktime other s.string = s.instant mktime := by
  have hseparator (x : List Char) : clean (s.separator :: x) = 'T' :: clean x := by
    rw [separator, clean, List.flatMap_cons]
    split <;> rfl
  obtain ⟨hzone, hhead⟩ := readZone_clean s.zone
  have hread := fromisoformat_text s (clean s.zone.text) s.zone.micros 'T' hhead hzone
  have hclean : clean s.text =
      s.dateText ++ 'T' :: (s.timeText ++ (s.fractionText ++ clean s.zone.text)) := by
    rw [text, suffix, clean_append, hseparator, clean_append, clean_append, clean_dateText,
      clean_timeText, clean_fractionText]
  rw [parseTs, string, String.toList_ofList, hclean, hread, instant]
  cases s.zone.micros <;> rfl

theorem string_ne_empty (s : Stamp) : s.string ≠ "" := by
  intro h
  have hlength := congrArg (fun t => t.toList.length) h
  simp [string, text] at hlength

theorem instant_string (mktime : Int → Int) (other : String → Int) (s : Stamp) :
    Sync.instant (parseTs mktime other) s.string = s.instant mktime := by
  rw [Sync.instant, if_neg s.string_ne_empty, parseTs_string]

theorem string_lt_iff (a b : Stamp) : a.string < b.string ↔ a.Before b := by
  rw [string, string, String.lt_iff_toList_lt, String.toList_ofList, String.toList_ofList,
    text_lt_iff]

end IsoFormat.Stamp

namespace Sync
open IsoFormat

section
variable (parseTs : String → Int)

/-- The resolver takes the side that the diff engine says is newer, and asks about none but equal
instants. -/
structure Agrees (c : Conflict) : Prop where
  operational : 0 < safeTsCompare parseTs c.opTs c.cloudTs →
    resolveConflict c .newestOverallWins = .operational
  cloud : safeTsCompare parseTs c.opTs c.cloudTs < 0 →
    resolveConflict c .newestOverallWins = .cloud
  manual : resolveConflict c .newestOverallWins = .manual →
    safeTsCompare parseTs c.opTs c.cloudTs = 0

theorem agrees_iff (hc : c.classification ≠ .timestampDrift) : Agrees parseTs c ↔
    (instant parseTs c.cloudTs < instant parseTs c.opTs → c.cloudTs < c.opTs) ∧
      (instant parseTs c.opTs < instant parseTs c.cloudTs → c.opTs < c.cloudTs) := by
  have hnewer : 0 < safeTsCompare parseTs c.opTs c.cloudTs ↔
      instant parseTs c.cloudTs < instant parseTs c.opTs := by
    rw [safeTsCompare, Int.sign_pos_iff]
    omega
  have holder : safeTsCompare parseTs c.opTs c.cloudTs < 0 ↔
      instant parseTs c.opTs < instant parseTs c.cloudTs := by
    rw [safeTsCompare, Int.sign_neg_iff]
    omega
  have hresolve : resolveConflict c .newestOverallWins =
      if c.cloudTs < c.opTs then .operational
      else if c.opTs < c.cloudTs then .cloud else .manual := by
    rw [resolveConflict, if_neg hc]
  apply Iff.intro
  · rintro ⟨hop, hcloud, -⟩
    rw [hnewer, hresolve] at hop
    rw [holder, hresolve] at hcloud
    refine ⟨fun h => ?_, fun h => ?_⟩
    · by_contra hlt
      have hr := hop h
      rw [if_neg hlt] at hr
      split at hr <;> cases hr
    · by_contra hlt
      have hr := hcloud h
      rw [if_neg hlt] at hr
      split at hr <;> cases hr
  · rintro ⟨hop, hcloud⟩
    rw [← hnewer] at hop
    rw [← holder] at hcloud
    refine ⟨fun h => ?_, fun h => ?_, fun h => ?_⟩
    · rw [hresolve, if_pos (hop h)]
    · have hlt := hcloud h
      rw [hresolve, if_neg (String.lt_asymm hlt), if_pos hlt]
    · rw [hresolve] at h
      split at h
      · cases h
      · split at h
        · cases h
        next hop' hcloud' =>
          have h₁ := mt hop hop'
          have h₂ := mt hcloud hcloud'
          omega

end

/-- The default of a time stamp column, `CURRENT_TIMESTAMP`. -/
def defaultStamp : Stamp where
  year := 2024
  month := 5
  day := 1
  hour := 23
  minute := 0
  second := 0
  blank := true
  zone := .naive
  validDate := by decide
  validTime := by decide

/-- What the writers put there, `datetime.now(timezone.utc).isoformat()`. -/
def writtenStamp : Stamp where
  year := 2024
  month := 5
  day := 1
  hour := 1
  minute := 30
  second := 0
  zone := .offset 0 Zone.utc_valid
  validDate := by decide
  validTime := by decide

example : defaultStamp.string = "2024-05-01 23:00:00" ∧
    writtenStamp.string = "2024-05-01T01:30:00+00:00" := by decide +kernel

def defaultConflict : Conflict where
  id := "1"
  opTs := defaultStamp.string
  cloudTs := writtenStamp.string
  hashes := some ("a", "b")
  classification := .genuineConflict

/-- On a machine that keeps UTC the row written last is the operational one, and the cloud's row
wins since a blank sorts before a `T`. -/
theorem later_default_loses :
    ¬ Agrees (parseTs (fun wall => wall - epoch) fun _ => 0) defaultConflict := by
  intro h
  have hop := h.operational (by decide +kernel)
  exact absurd hop (by decide +kernel)

/-- For time stamps as they are written, the two agree exactly when the earlier one also comes
first in the order of its written fields. -/
theorem newest_agrees_iff (mktime : Int → Int) (other : String → Int) (a b : Stamp) (c : Conflict)
    (hop : c.opTs = a.string) (hcloud : c.cloudTs = b.string)
    (hc : c.classification ≠ .timestampDrift) :
    Agrees (parseTs mktime other) c ↔
      (a.instant mktime < b.instant mktime → a.Before b) ∧
        (b.instant mktime < a.instant mktime → b.Before a) := by
  rw [agrees_iff _ hc, hop, hcloud, Stamp.instant_string, Stamp.instant_string,
    Stamp.string_lt_iff, Stamp.string_lt_iff]
  exact And.comm

theorem newest_agrees_iff_default :
    Agrees (parseTs (fun wall => wall - epoch) fun _ => 0) defaultConflict ↔
      (defaultStamp.instant (fun wall => wall - epoch) <
          writtenStamp.instant (fun wall => wall - epoch) → defaultStamp.Before writtenStamp) ∧
        (writtenStamp.instant (fun wall => wall - epoch) <
          defaultStamp.instant (fun wall => wall - epoch) →
            writtenStamp.Before defaultStamp) :=
  newest_agrees_iff _ _ _ _ defaultConflict rfl rfl (by decide)

/-- Two time stamps that `isoformat` writes with the same offset. -/
theorem agrees_of_sameOffset (mktime : Int → Int) (other : String → Int) {a b : Stamp}
    (hop : c.opTs = a.string) (hcloud : c.cloudTs = b.string)
    (hc : c.classification ≠ .timestampDrift) (ha : a.Iso) (hb : b.Iso)
    (hblank : a.blank = b.blank) (hza : a.zone = .offset o ho) (hzb : b.zone = .offset o ho) :
    Agrees (parseTs mktime other) c := by
  have hsign : ∀ d ∈ (Zone.offset o ho).text.head?, d = '+' ∨ d = '-' :=
    fun d hd => Stamp.head_offsetText o hd
  have hwall (s : Stamp) (hs : s.zone = .offset o ho) : s.instant mktime = s.wall - o - epoch := by
    rw [Stamp.instant, hs, Zone.micros]
  rw [agrees_iff _ hc, hop, hcloud, Stamp.instant_string, Stamp.instant_string,
    Stamp.string_lt_iff, Stamp.string_lt_iff, hwall a hza, hwall b hzb]
  refine ⟨fun h => ?_, fun h => ?_⟩
  · exact Stamp.before_of_wall_lt hb ha hblank.symm (hzb.trans hza.symm) (hzb ▸ hsign) (by omega)
  · exact Stamp.before_of_wall_lt ha hb hblank (hza.trans hzb.symm) (hza ▸ hsign) (by omega)

end Sync
