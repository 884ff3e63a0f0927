import SmbProxy.Model.Date

/-!
# What the date functions promise

The text of a time is to be parsed back to it in every time zone (`DateRoundTrips`), where of
`mktime` nothing is assumed but that the local time at the instant it returns is the one it
was given (`Inverts`). And what the parser answers is to depend on the text alone
(`AnswersFromText`).
-/

set_option autoImplicit false

namespace SmbProxy.Interface

open SmbProxy.Library SmbProxy.Model

/-! ## Round trips -/

/-- The zone that is UTC. -/
def utc : TimeZone where
  offset _ := 0
  minutes _ := dvd_zero 60
  bounded _ := by decide

/-- The same time of day and date. -/
structure SameClock (tm tm' : Tm) : Prop where
  sec : tm.sec = tm'.sec
  min : tm.min = tm'.min
  hour : tm.hour = tm'.hour
  mday : tm.mday = tm'.mday
  mon : tm.mon = tm'.mon
  year : tm.year = tm'.year

/-- At the instant that `mktime` returns, the local time is the one it was given. -/
def Inverts (zone : TimeZone) (mktime : Tm → ℤ) (tm : Tm) : Prop :=
  SameClock (localtime zone (mktime tm)) tm

/-- What the parser gives to `mktime` for the text of a time: its date and time of day in UTC. -/
def utcFields (t : ℤ) : Tm := { brokenDown t with wday := 0 }

/-- The text of the time, in a buffer with room for it, is parsed back to the time. -/
def DateRoundTrips (zone : TimeZone) (mktime : Tm → ℤ) (t : ℤ) : Prop :=
  ∀ buf nbuf locals, 30 ≤ nbuf →
    butilRfc2616DateToTime zone mktime (some (butilTimeToRfc2616Date t (some buf) nbuf).1) locals = t

/-- The beginning of the year 10000. -/
def endOf9999 : ℤ := 86400 * daysBeforeYear 10000

/-! ## The text alone -/

/-- In every time zone the answer is the same whatever the variables have held, and 0 if fewer
fields than the seven up to the seconds can be read. -/
def AnswersFromText (date : List UInt8) : Prop :=
  ∀ zone mktime,
    (∀ locals locals', butilRfc2616DateToTime zone mktime (some date) locals =
      butilRfc2616DateToTime zone mktime (some date) locals') ∧
    ((scan dateFormat date).fields.length < 7 →
      ∀ locals, butilRfc2616DateToTime zone mktime (some date) locals = 0)

/-- The number has been read and is below 0 or above the limit. -/
def OutOfRange (limit : ℤ) (number : Option ℤ) : Prop :=
  ∃ n, number = some n ∧ (n < 0 ∨ n > limit)

/-- No field has been read that no date has. -/
structure Acceptable (r : Scanned) : Prop where
  day : ¬ OutOfRange 31 (r.number 1)
  hh : ¬ OutOfRange 23 (r.number 4)
  mm : ¬ OutOfRange 59 (r.number 5)
  ss : ¬ OutOfRange 59 (r.number 6)
  month : ∀ word, r.text 2 = some word → ∃ cells, monthdex (storeText (some word) cells) ≠ none

/-- The name of the month is a `J` alone, which leaves the third letter as it was. -/
def LoneJ (r : Scanned) : Prop := ∃ c, r.text 2 = some [c] ∧ isLetter c 'j' = true

/-- Nothing can be read, or a field that no date has, or all fields up to the seconds and no
lone `J` for the month. -/
def DecidedByText (date : List UInt8) : Prop :=
  (scan dateFormat date).fields = [] ∨ ¬ Acceptable (scan dateFormat date) ∨
    7 ≤ (scan dateFormat date).fields.length ∧ ¬ LoneJ (scan dateFormat date)

end SmbProxy.Interface
