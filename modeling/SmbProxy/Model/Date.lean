import SmbProxy.Library.Calendar
import SmbProxy.Library.Scanf

/-!
# Dates

butil.c:938-1145. The time zone is a parameter, a function that gives the offset in force at
each instant, and so is `mktime`. The local variables that `sscanf` may leave untouched are
an argument.
-/

set_option autoImplicit false

namespace SmbProxy.Model

open SmbProxy.Library

/-! ## Times -/

/-- `struct tm`, without the fields that nothing here reads. -/
structure Tm where
  sec : ℤ
  min : ℤ
  hour : ℤ
  mday : ℤ
  mon : ℕ
  year : ℤ
  wday : ℤ
  deriving DecidableEq

/-- The time of day and the date, in UTC, so many seconds after the beginning of 1970. -/
def brokenDown (t : ℤ) : Tm :=
  let date := dateOf (t / 86400)
  { sec := t % 86400 % 60
    min := t % 86400 / 60 % 60
    hour := t % 86400 / 3600
    mday := date.day
    mon := date.month
    year := date.year - 1900
    wday := weekday (t / 86400) }

/-- `gmtime_r`: nothing if the year is no `int`. -/
def gmtimeR (t : ℤ) : Option Tm :=
  if -2 ^ 31 ≤ (brokenDown t).year ∧ (brokenDown t).year < 2 ^ 31 then some (brokenDown t)
  else none

/-- A local time zone: the offset from UTC in seconds in force at each instant. -/
structure TimeZone where
  offset : ℤ → ℤ
  minutes : ∀ t, 60 ∣ offset t
  bounded : ∀ t, -86400 < offset t ∧ offset t < 86400

/-- `localtime`. -/
def localtime (zone : TimeZone) (t : ℤ) : Tm := brokenDown (t + zone.offset t)

/-! ## From a date to its time -/

/-- The local variables that `sscanf` stores to. -/
structure DateLocals where
  dayofweek : ℕ → UInt8
  day : ℤ
  month : ℕ → UInt8
  year : ℤ
  hh : ℤ
  mm : ℤ
  ss : ℤ
  zone : ℕ → UInt8
  deriving Inhabited

/-- `"%3s, %d %3s %d %d:%d:%d %3s"`. -/
def dateFormat : List Directive :=
  [.string 3, .literal 44, .blank, .int, .blank, .string 3, .blank, .int, .blank, .int, .literal 58,
    .int, .literal 58, .int, .blank, .string 3]

/-- A word that has been stored with its NUL, over what was there. -/
def storeText (word : Option (List UInt8)) (cells : ℕ → UInt8) : ℕ → UInt8 :=
  match word with
  | none => cells
  | some word =>
    fun i => if i < word.length then word.getD i 0 else if i = word.length then 0 else cells i

/-- The `sscanf` of the date: what it returns, and the variables.
SOURCE: butil.c:973-974 -/
def scanDate (date : List UInt8) (locals : DateLocals) : ℤ × DateLocals :=
  let scanned := scan dateFormat date
  (scanned.result,
    { dayofweek := storeText (scanned.text 0) locals.dayofweek
      day := (scanned.number 1).getD locals.day
      month := storeText (scanned.text 2) locals.month
      year := (scanned.number 3).getD locals.year
      hh := (scanned.number 4).getD locals.hh
      mm := (scanned.number 5).getD locals.mm
      ss := (scanned.number 6).getD locals.ss
      zone := storeText (scanned.text 7) locals.zone })

/-- The letter, small or capital. -/
def isLetter (c : UInt8) (letter : Char) : Bool :=
  c = UInt8.ofNat letter.toNat ∨ c = UInt8.ofNat letter.toUpper.toNat

/-- The `switch` over the name of the month.
SOURCE: butil.c:996-1104 -/
def monthdex (month : ℕ → UInt8) : Option ℕ :=
  if isLetter (month 0) 'j' then
    if isLetter (month 1) 'a' then if isLetter (month 2) 'n' then some 0 else none
    -- what is not an `a` is taken for a `u`
    else if isLetter (month 2) 'n' then some 5
    else if isLetter (month 2) 'l' then some 6
    else none
  else if isLetter (month 0) 'f' then
    if isLetter (month 1) 'e' ∧ isLetter (month 2) 'b' then some 1 else none
  else if isLetter (month 0) 'm' then
    if isLetter (month 1) 'a' ∧ isLetter (month 2) 'r' then some 2
    else if isLetter (month 1) 'a' ∧ isLetter (month 2) 'y' then some 4
    else none
  else if isLetter (month 0) 'a' then
    if isLetter (month 1) 'u' ∧ isLetter (month 2) 'g' then some 7
    else if isLetter (month 1) 'p' ∧ isLetter (month 2) 'r' then some 3
    else none
  else if isLetter (month 0) 's' then
    if isLetter (month 1) 'e' ∧ isLetter (month 2) 'p' then some 8 else none
  else if isLetter (month 0) 'o' then
    if isLetter (month 1) 'c' ∧ isLetter (month 2) 't' then some 9 else none
  else if isLetter (month 0) 'n' then
    if isLetter (month 1) 'o' ∧ isLetter (month 2) 'v' then some 10 else none
  else if isLetter (month 0) 'd' then
    if isLetter (month 1) 'e' ∧ isLetter (month 2) 'c' then some 11 else none
  else none

/-- The difference between UTC and local time two days after the beginning of 1970.
SOURCE: butil.c:959-971 -/
def gmtoff (zone : TimeZone) : ℤ :=
  let converted := 48 * 3600
  let lct := localtime zone converted
  let gmt := brokenDown converted
  (gmt.mday * 24 * 3600 + gmt.hour * 3600 + gmt.min * 60 + gmt.sec) -
    (lct.mday * 24 * 3600 + lct.hour * 3600 + lct.min * 60 + lct.sec)

/-- `butil_rfc2616_date_to_time`.
SOURCE: butil.c:938-1123 -/
def butilRfc2616DateToTime (zone : TimeZone) (mktime : Tm → ℤ) (date : Option (List UInt8))
    (locals : DateLocals) : ℤ :=
  match date with
  | none => 0
  | some date =>
    if date = [] then 0
    else
      let (sret, locals) := scanDate date locals
      if sret < 0 then 0
      else if locals.day < 0 ∨ locals.day > 31 then 0
      else if locals.hh < 0 ∨ locals.hh > 23 then 0
      else if locals.mm < 0 ∨ locals.mm > 59 then 0
      else if locals.ss < 0 ∨ locals.ss > 59 then 0
      else
        match monthdex locals.month with
        | none => 0
        | some mon =>
          mktime
              { sec := locals.ss
                min := locals.mm
                hour := locals.hh
                mday := locals.day
                mon := mon
                year := locals.year - 1900
                wday := 0 } -
            gmtoff zone

/-! ## From a time to its date -/

def dayNames : List (List UInt8) :=
  ["Sun", "Mon", "Tue", "Wed", "Thu", "Fri", "Sat"].map cstring

def monthNames : List (List UInt8) :=
  ["Jan", "Feb", "Mar", "Apr", "May", "Jun", "Jul", "Aug", "Sep", "Oct", "Nov", "Dec"].map cstring

/-- A number as two digits. -/
def twoDigits (n : ℤ) : List UInt8 :=
  [UInt8.ofNat (48 + n.toNat / 10), UInt8.ofNat (48 + n.toNat % 10)]

/-- The year as `%Y` prints it. -/
def yearText (year : ℤ) : List UInt8 :=
  if year < 0 then 45 :: decimal (-year).toNat else decimal year.toNat

/-- The text for `"%a, %d %b %Y %H:%M:%S GMT"`. -/
def dateText (tm : Tm) : List UInt8 :=
  dayNames.getD tm.wday.toNat [] ++ 44 :: 32 :: (twoDigits tm.mday ++ 32 ::
    (monthNames.getD tm.mon [] ++ 32 :: (yearText (tm.year + 1900) ++ 32 ::
      (twoDigits tm.hour ++ 58 :: (twoDigits tm.min ++ 58 :: (twoDigits tm.sec ++ 32 ::
        cstring "GMT"))))))

/-- `strftime`: its result, and the buffer. -/
def strftime (buf : Buffer) (nbuf : ℕ) (text : List UInt8) : ℕ × Buffer :=
  if text.length < nbuf then
    (text.length, (buf.strncpy text text.length).store text.length 0)
  else (0, buf)

/-- `bad_date`. -/
def badDate : List UInt8 := cstring "Mon, 1 Jan 2015 00:00:00 GMT"

/-- `butil_time_to_rfc2616_date`: the string that it returns, and the buffer. Where it returns
the buffer, that holds the text.
SOURCE: butil.c:1125-1145 -/
def butilTimeToRfc2616Date (time : ℤ) (buf : Option Buffer) (nbuf : ℕ) :
    List UInt8 × Option Buffer :=
  match buf with
  | none => (badDate, none)
  | some buf =>
    if nbuf = 0 then (badDate, some buf)
    else
      let buf := buf.store 0 0
      match gmtimeR time with
      | none => (badDate, some buf)
      | some tm =>
        let (len, buf) := strftime buf nbuf (dateText tm)
        if len ≤ 0 then (badDate, some buf) else (dateText tm, some buf)

end SmbProxy.Model
