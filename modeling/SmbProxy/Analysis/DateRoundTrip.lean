import SmbProxy.Interface.Date

/-!
# When a date is parsed back

The text is scanned field by field (`scan_dateText`), and `mktime` gets the fields it was made
of. So the local time that `mktime` finds is the time itself, read as local, and what is taken
off is the offset two days after the beginning of 1970 (`gmtoff_eq`): the right one if the
offset at the date is the same (`round_trips_iff`).
-/

set_option autoImplicit false

namespace SmbProxy.Analysis

open SmbProxy.Library SmbProxy.Model SmbProxy.Interface

/-! ## Times and their fields -/

section Times

/-- The seconds that a time of day and a date are away from the beginning of 1970. -/
def secondsOf (tm : Tm) : ℤ :=
  86400 * dayNumber ⟨tm.year + 1900, tm.mon, tm.mday⟩ + 3600 * tm.hour + 60 * tm.min + tm.sec

/-- A time is known from its date and time of day. -/
theorem secondsOf_brokenDown (t : ℤ) : secondsOf (brokenDown t) = t := by
  have hday := dayNumber_dateOf (t / 86400)
  have hdate : (⟨(dateOf (t / 86400)).year - 1900 + 1900, (dateOf (t / 86400)).month,
      (dateOf (t / 86400)).day⟩ : Date) = dateOf (t / 86400) := by
    rw [Int.sub_add_cancel]
  unfold secondsOf brokenDown
  dsimp only
  rw [hdate, hday]
  omega

/-- The same date and time of day are the same time. -/
theorem secondsOf_congr {tm tm' : Tm} (h : SameClock tm tm') : secondsOf tm = secondsOf tm' := by
  unfold secondsOf
  rw [h.sec, h.min, h.hour, h.mday, h.mon, h.year]

/-- Where `mktime` inverts the local time, it is off by the offset at the instant it returns. -/
theorem mktime_add_offset {zone : TimeZone} {mktime : Tm → ℤ} {tm : Tm}
    (h : Inverts zone mktime tm) : mktime tm + zone.offset (mktime tm) = secondsOf tm := by
  calc
    mktime tm + zone.offset (mktime tm) = secondsOf (localtime zone (mktime tm)) :=
      (secondsOf_brokenDown _).symm
    _ = secondsOf tm := secondsOf_congr h

/-- What the parser takes for the difference to local time is the offset of the third of January
1970. -/
theorem gmtoff_eq (zone : TimeZone) : gmtoff zone = -zone.offset 172800 := by
  have hbounds := zone.bounded 172800
  have hdates : dateOf 1 = ⟨1970, 0, 2⟩ ∧ dateOf 2 = ⟨1970, 0, 3⟩ := by decide +kernel
  have hutc : brokenDown 172800 = ⟨0, 0, 0, 3, 0, 70, 6⟩ := by decide +kernel
  show ((brokenDown 172800).mday * 24 * 3600 + (brokenDown 172800).hour * 3600 +
      (brokenDown 172800).min * 60 + (brokenDown 172800).sec) -
    ((localtime zone 172800).mday * 24 * 3600 + (localtime zone 172800).hour * 3600 +
      (localtime zone 172800).min * 60 + (localtime zone 172800).sec) = _
  rw [hutc]
  unfold localtime brokenDown
  dsimp only
  -- the local date is the second or the third of January
  have hday : (172800 + zone.offset 172800) / 86400 = 1 ∨
      (172800 + zone.offset 172800) / 86400 = 2 := by omega
  rcases hday with hday | hday
  · rw [hday, hdates.1]
    dsimp only
    omega
  · rw [hday, hdates.2]
    dsimp only
    omega

end Times

/-! ## The text and its fields -/

section Text

/-- Digits that stand for the number. -/
structure IsDigits (text : List UInt8) (n : ℤ) : Prop where
  ne : text ≠ []
  digit : ∀ c ∈ text, isdigit c = true
  value : (digitsValue text : ℤ) = n

/-- Two digits are read as their number. -/
theorem isDigits_twoDigits {n : ℤ} (h0 : 0 ≤ n) (h : n < 100) : IsDigits (twoDigits n) n := by
  obtain ⟨k, rfl⟩ := Int.eq_ofNat_of_zero_le h0
  have hall : ∀ k : ℕ, k < 100 →
      (∀ c ∈ twoDigits k, isdigit c = true) ∧ (digitsValue (twoDigits k) : ℤ) = k := by
    decide +kernel
  obtain ⟨hdigit, hvalue⟩ := hall k (by omega)
  exact ⟨List.cons_ne_nil _ _, hdigit, hvalue⟩

/-- A year is read as its number. -/
theorem isDigits_yearText {year : ℤ} (h : 0 ≤ year) : IsDigits (yearText year) year := by
  unfold yearText
  rw [if_neg (by omega)]
  refine ⟨decimal_ne_nil, isdigit_decimal, ?_⟩
  rw [digitsValue_decimal]
  omega

/-- A text with a character in front begins with it. -/
theorem head_eq_false {p : UInt8 → Bool} {c : UInt8} (h : p c = false) (rest : List UInt8) :
    ∀ d ∈ (c :: rest).head?, p d = false := by
  rintro d hd
  cases hd
  exact h

/-- A number does not begin with a space. -/
theorem IsDigits.head {text : List UInt8} {n : ℤ} (h : IsDigits text n) (rest : List UInt8) :
    ∀ c ∈ (text ++ rest).head?, isspace c = false := by
  obtain ⟨c, tail, rfl⟩ := List.exists_cons_of_ne_nil h.ne
  exact head_eq_false (isspace_eq_false_of_isdigit (h.digit c List.mem_cons_self)) _

/-- A number is scanned up to the character behind it. -/
theorem scan_number {text : List UInt8} {n : ℤ} (h : IsDigits text n) (hn : n < 2 ^ 31) {c : UInt8}
    (hc : isdigit c = false) (format : List Directive) (rest : List UInt8) :
    scan (.int :: format) (text ++ c :: rest) =
      (scan format (c :: rest)).cons (.number n) := by
  have hvalue := h.value
  rw [scan_digits h.ne h.digit (by omega) (head_eq_false hc rest), hvalue]

/-- The names of days and months are of three letters, none of them white space. -/
structure IsName (name : List UInt8) : Prop where
  length : name.length = 3
  letter : ∀ c ∈ name, isspace c = false

/-- The name of a day is three letters. -/
theorem isName_dayName {k : ℕ} (h : k < 7) : IsName (dayNames.getD k []) := by
  have hall : ∀ k < 7, (dayNames.getD k []).length = 3 ∧
      ∀ c ∈ dayNames.getD k [], isspace c = false := by
    decide +kernel
  exact ⟨(hall k h).1, (hall k h).2⟩

/-- The name of a month is three letters. -/
theorem isName_monthName {k : ℕ} (h : k < 12) : IsName (monthNames.getD k []) := by
  have hall : ∀ k < 12, (monthNames.getD k []).length = 3 ∧
      ∀ c ∈ monthNames.getD k [], isspace c = false := by
    decide +kernel
  exact ⟨(hall k h).1, (hall k h).2⟩

/-- A name does not begin with a space. -/
theorem IsName.head {name : List UInt8} (h : IsName name) (rest : List UInt8) :
    ∀ c ∈ (name ++ rest).head?, isspace c = false := by
  have hne : name ≠ [] := by
    rintro rfl
    exact absurd h.length (by decide)
  obtain ⟨c, tail, rfl⟩ := List.exists_cons_of_ne_nil hne
  exact head_eq_false (h.letter c List.mem_cons_self) _

/-- A name of three letters is read whole. -/
theorem scan_name {name : List UInt8} (h : IsName name) (format : List Directive)
    (rest : List UInt8) :
    scan (.string 3 :: format) (name ++ rest) = (scan format rest).cons (.text name) :=
  scan_string h.length (by decide) h.letter format rest

/-- The fields are in the ranges that the text has room for. -/
structure InRange (tm : Tm) : Prop where
  sec : 0 ≤ tm.sec ∧ tm.sec < 60
  min : 0 ≤ tm.min ∧ tm.min < 60
  hour : 0 ≤ tm.hour ∧ tm.hour < 24
  mday : 1 ≤ tm.mday ∧ tm.mday ≤ 31
  mon : tm.mon < 12
  year : 0 ≤ tm.year + 1900 ∧ tm.year + 1900 < 10000
  wday : 0 ≤ tm.wday ∧ tm.wday < 7

variable {tm : Tm}

/-- All eight fields are read from the text, as they have been printed. -/
theorem scan_dateText (h : InRange tm) :
    scan dateFormat (dateText tm) =
      ⟨[.text (dayNames.getD tm.wday.toNat []), .number tm.mday,
        .text (monthNames.getD tm.mon []), .number (tm.year + 1900), .number tm.hour,
        .number tm.min, .number tm.sec, .text (cstring "GMT")], false⟩ := by
  obtain ⟨hsec, hmin, hhour, hmday, hmon, hyear, hwday⟩ := h
  have hdayName := @isName_dayName tm.wday.toNat (by omega)
  have hmonthName := isName_monthName hmon
  have hzone : IsName (cstring "GMT") := ⟨by decide +kernel, by decide +kernel⟩
  have hdayText := @isDigits_twoDigits tm.mday (by omega) (by omega)
  have hyearText := isDigits_yearText hyear.1
  have hhourText := @isDigits_twoDigits tm.hour (by omega) (by omega)
  have hminText := @isDigits_twoDigits tm.min (by omega) (by omega)
  have hsecText := @isDigits_twoDigits tm.sec (by omega) (by omega)
  unfold dateFormat dateText
  -- the name of the day, and the number in the month
  rw [scan_name hdayName, scan_literal, scan_blank (hdayText.head _),
    scan_number hdayText (by omega) (by decide)]
  -- the month and the year
  rw [scan_blank (hmonthName.head _), scan_name hmonthName, scan_blank (hyearText.head _),
    scan_number hyearText (by omega) (by decide)]
  -- the time of day
  rw [scan_blank (hhourText.head _), scan_number hhourText (by omega) (by decide), scan_literal,
    scan_number hminText (by omega) (by decide), scan_literal,
    scan_number hsecText (by omega) (by decide)]
  rw [← List.append_nil (cstring "GMT"), scan_blank (hzone.head []), scan_name hzone]
  rfl

/-- The text has at most 29 characters. -/
theorem length_dateText (h : InRange tm) : (dateText tm).length ≤ 29 := by
  obtain ⟨-, -, -, -, hmon, hbounds, hwday⟩ := h
  have hname := (@isName_dayName tm.wday.toNat (by omega)).length
  have hmonth := (isName_monthName hmon).length
  have hzone : (cstring "GMT").length = 3 := by decide +kernel
  have hyear : (yearText (tm.year + 1900)).length ≤ 4 := by
    unfold yearText
    rw [if_neg (by omega)]
    exact length_decimal_le (by decide) (by omega)
  have htwo : ∀ n, (twoDigits n).length = 2 := fun n => rfl
  unfold dateText
  simp only [List.length_append, List.length_cons, hname, hmonth, hzone, htwo]
  omega

/-- The decoder looks at three letters. -/
theorem monthdex_congr {month month' : ℕ → UInt8} (h : ∀ i < 3, month i = month' i) :
    monthdex month = monthdex month' := by
  unfold monthdex
  rw [h 0 (by decide), h 1 (by decide), h 2 (by decide)]

/-- The name of a month is decoded to it, whatever the buffer has held. -/
theorem monthdex_monthName {mon : ℕ} (h : mon < 12) (cells : ℕ → UInt8) :
    monthdex (storeText (some (monthNames.getD mon [])) cells) = some mon := by
  have hall : ∀ mon < 12,
      monthdex (storeText (some (monthNames.getD mon [])) fun _ => 0) = some mon := by
    decide +kernel
  rw [← hall mon h]
  apply monthdex_congr
  intro i hi
  have hlt : i < (monthNames.getD mon []).length := by
    rw [(isName_monthName h).length]
    exact hi
  unfold storeText
  simp only [hlt, if_true]

end Text

/-! ## There and back -/

section RoundTrip

variable {t : ℤ}

/-- Up to the year 9999 a year has four digits. -/
theorem inRange_brokenDown (h0 : 0 ≤ t) (h : t < endOf9999) : InRange (brokenDown t) := by
  unfold endOf9999 at h
  have hyear := @yearOf_bounds (t / 86400) 1970 10000 (by unfold daysBeforeYear; omega) (by omega)
  obtain ⟨hmon, hday, hday'⟩ := dateOf_valid (t / 86400)
  rw [← dateOf_year] at hyear
  unfold brokenDown weekday
  constructor
  all_goals dsimp only
  all_goals omega

/-- The text of a time in a buffer with room for it. -/
theorem butilTimeToRfc2616Date_eq (h0 : 0 ≤ t) (h : t < endOf9999) (buf : Buffer) {nbuf : ℕ}
    (hroom : 30 ≤ nbuf) :
    ∃ buf', butilTimeToRfc2616Date t (some buf) nbuf = (dateText (brokenDown t), some buf') ∧
      buf'.Holds (dateText (brokenDown t)) := by
  have hrange := inRange_brokenDown h0 h
  have hlength := length_dateText hrange
  have hyear := hrange.year
  have hgmtime : gmtimeR t = some (brokenDown t) := by
    unfold gmtimeR
    rw [if_pos (by omega)]
  have hpos : 0 < (dateText (brokenDown t)).length := by
    unfold dateText
    simp only [List.length_append, List.length_cons]
    omega
  have hprint : strftime (buf.store 0 0) nbuf (dateText (brokenDown t)) =
      ((dateText (brokenDown t)).length,
        ((buf.store 0 0).strncpy (dateText (brokenDown t)) (dateText (brokenDown t)).length).store
          (dateText (brokenDown t)).length 0) := by
    unfold strftime
    rw [if_pos (by omega)]
  refine ⟨_, ?_, (buf.store 0 0).holds_copy (dateText (brokenDown t))⟩
  unfold butilTimeToRfc2616Date
  dsimp only
  rw [if_neg (by omega), hgmtime]
  dsimp only
  rw [hprint]
  exact if_neg (not_le.mpr hpos)

/-- `mktime` gets the fields that the text was made of. -/
theorem butilRfc2616DateToTime_dateText {tm : Tm} (h : InRange tm) (zone : TimeZone)
    (mktime : Tm → ℤ) (locals : DateLocals) :
    butilRfc2616DateToTime zone mktime (some (dateText tm)) locals =
      mktime { tm with wday := 0 } + zone.offset 172800 := by
  have hne : dateText tm ≠ [] := by
    unfold dateText
    exact List.append_ne_nil_of_right_ne_nil _ (List.cons_ne_nil _ _)
  have hscan : scanDate (dateText tm) locals =
      (8, { dayofweek := storeText (some (dayNames.getD tm.wday.toNat [])) locals.dayofweek
            day := tm.mday
            month := storeText (some (monthNames.getD tm.mon [])) locals.month
            year := tm.year + 1900
            hh := tm.hour
            mm := tm.min
            ss := tm.sec
            zone := storeText (some (cstring "GMT")) locals.zone }) := by
    unfold scanDate
    rw [scan_dateText h]
    rfl
  have hmon := monthdex_monthName h.mon locals.month
  obtain ⟨⟨hs0, hs⟩, ⟨hm0, hm⟩, ⟨hh0, hh⟩, ⟨hd0, hd⟩, -, -, -⟩ := h
  unfold butilRfc2616DateToTime
  dsimp only
  rw [if_neg hne, hscan]
  dsimp only
  rw [if_neg (by decide), if_neg (by omega), if_neg (by omega), if_neg (by omega),
    if_neg (by omega), hmon, gmtoff_eq]
  dsimp only
  rw [Int.add_sub_cancel, Int.sub_neg]

/-- The answer is the time if the offset where `mktime` puts the date is that of 1970. -/
theorem dateRoundTrips_iff_offset {zone : TimeZone} {mktime : Tm → ℤ} (h0 : 0 ≤ t)
    (h : t < endOf9999) (hmktime : Inverts zone mktime (utcFields t)) :
    DateRoundTrips zone mktime t ↔
      zone.offset (mktime (utcFields t)) = zone.offset 172800 := by
  have hseconds : mktime (utcFields t) + zone.offset (mktime (utcFields t)) = t := by
    calc
      mktime (utcFields t) + zone.offset (mktime (utcFields t)) = secondsOf (utcFields t) :=
        mktime_add_offset hmktime
      _ = t := secondsOf_brokenDown t
  have hanswer : ∀ buf nbuf locals, 30 ≤ nbuf →
      butilRfc2616DateToTime zone mktime
          (some (butilTimeToRfc2616Date t (some buf) nbuf).1) locals =
        mktime (utcFields t) + zone.offset 172800 := by
    intro buf nbuf locals hroom
    obtain ⟨buf', htext, -⟩ := butilTimeToRfc2616Date_eq h0 h buf hroom
    rw [htext]
    exact butilRfc2616DateToTime_dateText (inRange_brokenDown h0 h) zone mktime locals
  constructor
  · intro hround
    have hback := hround ⟨fun _ => 0, []⟩ 30 default (Nat.le_refl 30)
    rw [hanswer _ _ _ (Nat.le_refl 30)] at hback
    omega
  · intro hoffset buf nbuf locals hroom
    rw [hanswer buf nbuf locals hroom, ← hoffset, hseconds]

/-- **A time's text is parsed back to it exactly where the zone has the offset of the third of
January 1970**: whatever `mktime` may choose, at each instant whose local time reads like the
text, and for one `mktime`, at the instant it chooses. -/
theorem round_trips_iff (zone : TimeZone) (h0 : 0 ≤ t) (h : t < endOf9999) :
    ((∀ mktime, Inverts zone mktime (utcFields t) → DateRoundTrips zone mktime t) ↔
      ∀ u, SameClock (localtime zone u) (utcFields t) → zone.offset u = zone.offset 172800) ∧
    ∀ mktime, Inverts zone mktime (utcFields t) →
      (DateRoundTrips zone mktime t ↔
        zone.offset (mktime (utcFields t)) = zone.offset 172800) := by
  refine ⟨⟨fun hall u hu => ?_, fun hall mktime hmktime => ?_⟩,
    fun mktime hmktime => dateRoundTrips_iff_offset h0 h hmktime⟩
  · -- an `mktime` that chooses this instant
    have hinverts : Inverts zone (fun _ => u) (utcFields t) := hu
    exact (dateRoundTrips_iff_offset h0 h hinverts).mp (hall _ hinverts)
  · exact (dateRoundTrips_iff_offset h0 h hmktime).mpr (hall _ hmktime)

/-- Greenwich Mean Time, with one hour more up to the end of October 1971. -/
def london : TimeZone where
  offset t := if t < 57722400 then 3600 else 0
  minutes t := by
    split_ifs
    · decide
    · decide
  bounded t := by
    split_ifs
    · decide
    · decide

/-- The text is `Fri, 01 Jan 1971 00:00:00 GMT`, where the zone is one hour ahead. -/
theorem round_trips_iff_ahead :
    DateRoundTrips london (fun tm => secondsOf tm - 3600) 31536000 := by
  have hinverts : Inverts london (fun tm => secondsOf tm - 3600) (utcFields 31536000) := by
    constructor
    all_goals decide +kernel
  apply ((round_trips_iff london (by decide) (by decide)).2 _ hinverts).mpr
  decide +kernel

/-- In that zone the text `Tue, 15 Nov 1994 08:12:31 GMT` is parsed to a time an hour later. -/
theorem not_round_trips_london :
    (784887151 : ℤ) < endOf9999 ∧ Inverts london secondsOf (utcFields 784887151) ∧
      ¬ DateRoundTrips london secondsOf 784887151 ∧
        butilRfc2616DateToTime london secondsOf (some (dateText (brokenDown 784887151))) default =
          784887151 + 3600 := by
  have hinverts : Inverts london secondsOf (utcFields 784887151) := by
    constructor
    all_goals decide +kernel
  refine ⟨by decide, hinverts, ?_, by decide +kernel⟩
  rw [dateRoundTrips_iff_offset (by decide) (by decide) hinverts]
  decide +kernel

end RoundTrip

end SmbProxy.Analysis
