import Mathlib.Algebra.Order.Group.Int
import Mathlib.Data.Int.Basic
import Mathlib.Data.String.Basic

/-!
# Time — seconds, hour buckets and UTC dates

Timestamps are integers: nanoseconds since the epoch, with floor division.  `dateStr` and
`hourBucket` are the two functions that decide where a row is filed; an hour bucket refines the
UTC date (`dateStr_eq_of_hourBucket_eq`), which is what lets a whole buffer be filed under the
date of its first row.
-/

namespace CryptoData

def nsPerSec : Int := 1000000000

/-- `(ts_ns // 1_000_000_000) * 1_000_000_000`: the left edge of the second. -/
def secondOf (tsNs : Int) : Int :=
  tsNs / nsPerSec * nsPerSec

/-- Hour-since-epoch bucket, the rotation key inside a date partition. -/
def hourBucket (tsNs : Int) : Int :=
  tsNs / (3600 * 1000000000)

/-! ## The civil calendar -/

structure CivilDate where
  year : Int
  month : Int
  day : Int
  deriving DecidableEq, Repr

/-- The proleptic Gregorian date of a day number counted from 1970-01-01. -/
def civilFromDays (days : Int) : CivilDate :=
  -- Days since 0000-03-01; an era is 400 years, and a year starts in March.
  let z := days + 719468
  let era := z / 146097
  let doe := z - era * 146097
  let yoe := (doe - doe / 1460 + doe / 36524 - doe / 146096) / 365
  let doy := doe - (365 * yoe + yoe / 4 - yoe / 100)
  let mp := (5 * doy + 2) / 153
  let month := if mp < 10 then mp + 3 else mp - 9
  { year := yoe + era * 400 + (if month ≤ 2 then 1 else 0)
    month := month
    day := doy - (153 * mp + 2) / 5 + 1 }

/-- The date part of `time.gmtime(secs)`. -/
def gmtimeDate (secs : Int) : CivilDate :=
  civilFromDays (secs / 86400)

/-- `time.gmtime(secs).tm_hour`. -/
def gmtimeHour (secs : Int) : Int :=
  secs % 86400 / 3600

/-- Decimal digits, padded with zeros on the left to `width`. -/
def zeroPad (width : ℕ) (n : Int) : String :=
  let digits := toString n
  "".pushn '0' (width - digits.length) ++ digits

/-- `time.strftime("%Y-%m-%d", ...)`. -/
def CivilDate.format (d : CivilDate) : String :=
  zeroPad 4 d.year ++ "-" ++ zeroPad 2 d.month ++ "-" ++ zeroPad 2 d.day

/-- UTC date of the given epoch-ns timestamp. -/
def dateStr (tsNs : Int) : String :=
  (gmtimeDate (tsNs / nsPerSec)).format

example : dateStr 1778587200000000000 = "2026-05-12" := by decide +kernel

/-! ## Seconds -/

lemma secondOf_mono {s t : Int} (h : s ≤ t) : secondOf s ≤ secondOf t := by
  simp only [secondOf, nsPerSec]
  omega

@[simp] lemma secondOf_emod (ts : Int) : secondOf ts % nsPerSec = 0 := by
  simp [secondOf]

/-! ## Hours and dates -/

/-- The hour of day of a timestamp is its bucket modulo 24. -/
theorem hourBucket_emod_eq_gmtimeHour (ts : Int) :
    hourBucket ts % 24 = gmtimeHour (ts / nsPerSec) := by
  simp only [hourBucket, gmtimeHour, nsPerSec]
  omega

/-- The UTC date only depends on the hour bucket. -/
theorem dateStr_eq_format_hourBucket (ts : Int) :
    dateStr ts = (civilFromDays (hourBucket ts / 24)).format := by
  have hday : ts / nsPerSec / 86400 = hourBucket ts / 24 := by
    simp only [hourBucket, nsPerSec]
    omega
  simp [dateStr, gmtimeDate, hday]

theorem dateStr_eq_of_hourBucket_eq {s t : Int} (h : hourBucket s = hourBucket t) :
    dateStr s = dateStr t := by
  simp [dateStr_eq_format_hourBucket, h]

/-! ## The length of a date -/

/-- A number that fits is padded to the width. -/
lemma length_zeroPad {width : ℕ} (hwidth : 0 < width) {n : Int} (hn : 0 ≤ n)
    (hfits : n < 10 ^ width) : (zeroPad width n).length = width := by
  lift n to ℕ using hn
  have hdigits : n.repr.length ≤ width := by
    rw [← String.length_toList, Nat.toList_repr, Nat.length_toDigits_le_iff (by decide) hwidth]
    exact_mod_cast hfits
  have hpad : zeroPad width (n : Int) = "".pushn '0' (width - n.repr.length) ++ n.repr := rfl
  have hzeros : ("".pushn '0' (width - n.repr.length)).length = width - n.repr.length := by simp
  rw [hpad, String.length_append, hzeros]
  omega

lemma civilFromDays_bounds {days : Int} (hlow : -719468 ≤ days) (hhigh : days < 2932897) :
    let d := civilFromDays days
    (0 ≤ d.year ∧ d.year < 10000) ∧ (0 ≤ d.month ∧ d.month < 100) ∧ 0 ≤ d.day ∧ d.day < 100 := by
  simp only [civilFromDays]
  split_ifs <;> omega

/-- The date of a 64-bit timestamp has ten characters. -/
theorem length_dateStr {ts : Int} (hlow : -2 ^ 63 ≤ ts) (hhigh : ts < 2 ^ 63) :
    (dateStr ts).length = 10 := by
  have hdays : -719468 ≤ ts / nsPerSec / 86400 ∧ ts / nsPerSec / 86400 < 2932897 := by
    simp only [nsPerSec]
    omega
  rcases civilFromDays_bounds hdays.1 hdays.2 with ⟨hyear, hmonth, hday⟩
  simp only [dateStr, gmtimeDate, CivilDate.format, String.length_append,
    length_zeroPad (show 0 < 4 by decide) hyear.1 hyear.2,
    length_zeroPad (show 0 < 2 by decide) hmonth.1 hmonth.2,
    length_zeroPad (show 0 < 2 by decide) hday.1 hday.2]
  rfl

end CryptoData
