import SmbProxy.Analysis.DateRoundTrip

/-!
# Dates that stop early

What reaches `mktime` is a function of the variables as the scan leaves them (`handed`). A
field that has not been read is whatever its variable has held, so the answer is the text's own
only if all fields that are used have been read, or one that has been read is refused
(`answers_from_text_iff`).
-/

set_option autoImplicit false

namespace SmbProxy.Analysis

open SmbProxy.Library SmbProxy.Model SmbProxy.Interface

/-! ## From the variables to the answer -/

section Handed

/-- The variables pass the checks. -/
structure Valid (locals : DateLocals) : Prop where
  day : 0 ≤ locals.day ∧ locals.day ≤ 31
  hh : 0 ≤ locals.hh ∧ locals.hh ≤ 23
  mm : 0 ≤ locals.mm ∧ locals.mm ≤ 59
  ss : 0 ≤ locals.ss ∧ locals.ss ≤ 59
  month : monthdex locals.month ≠ none

/-- What `mktime` is given for the variables. -/
def handed (locals : DateLocals) (mon : ℕ) : Tm :=
  { sec := locals.ss
    min := locals.mm
    hour := locals.hh
    mday := locals.day
    mon := mon
    year := locals.year - 1900
    wday := 0 }

variable {zone : TimeZone} {mktime : Tm → ℤ} {date : List UInt8} {locals : DateLocals}

/-- Where nothing can be read the answer is 0. -/
theorem answer_of_eof (h : (scanDate date locals).1 < 0) :
    butilRfc2616DateToTime zone mktime (some date) locals = 0 := by
  unfold butilRfc2616DateToTime
  dsimp only
  rw [if_pos h, ite_self]

/-- With a field that no date has the answer is 0. -/
theorem answer_of_not_valid (h : ¬ Valid (scanDate date locals).2) :
    butilRfc2616DateToTime zone mktime (some date) locals = 0 := by
  unfold butilRfc2616DateToTime
  dsimp only
  split_ifs with hne heof hday hhh hmm hss
  · rfl
  · rfl
  · rfl
  · rfl
  · rfl
  · rfl
  · cases hmon : monthdex (scanDate date locals).2.month with
    | none => rfl
    | some mon =>
        have hmonth : monthdex (scanDate date locals).2.month ≠ none := by
          rw [hmon]
          exact Option.some_ne_none mon
        exact absurd ⟨by omega, by omega, by omega, by omega, hmonth⟩ h

/-- With the fields of a date the answer is that of `mktime`, without the difference to local time.
-/
theorem answer_of_valid (hscan : 0 ≤ (scanDate date locals).1) (h : Valid (scanDate date locals).2)
    {mon : ℕ} (hmon : monthdex (scanDate date locals).2.month = some mon) :
    butilRfc2616DateToTime zone mktime (some date) locals =
      mktime (handed (scanDate date locals).2 mon) - gmtoff zone := by
  have hne : date ≠ [] := by
    rintro rfl
    have heof : (scanDate [] locals).1 = -1 := rfl
    omega
  have hday := h.day
  have hhh := h.hh
  have hmm := h.mm
  have hss := h.ss
  unfold butilRfc2616DateToTime
  dsimp only
  rw [if_neg hne, if_neg (by omega), if_neg (by omega), if_neg (by omega), if_neg (by omega),
    if_neg (by omega), hmon]
  rfl

end Handed

/-! ## What the text leaves open -/

section Read

variable {date : List UInt8}

/-- `sscanf` does not fail where it has read a field. -/
theorem result_nonneg (h : (scan dateFormat date).fields ≠ []) (locals : DateLocals) :
    0 ≤ (scanDate date locals).1 := by
  show 0 ≤ (scan dateFormat date).result
  unfold Scanned.result
  rw [if_neg fun hnone => h hnone.1]
  exact Int.natCast_nonneg _

/-- It fails where it has read none. -/
theorem result_neg (h : (scan dateFormat date).fields = []) (locals : DateLocals) :
    (scanDate date locals).1 < 0 := by
  show (scan dateFormat date).result < 0
  have hended : (scan dateFormat date).inputEnded = true := inputEnded_of_fields_nil (by decide) h
  unfold Scanned.result
  rw [if_pos ⟨h, hended⟩]
  decide

/-- A number that has been read and is in range, or one from before that is. -/
theorem getD_inRange {limit start : ℤ} {number : Option ℤ} (h : ¬ OutOfRange limit number)
    (hstart : 0 ≤ start ∧ start ≤ limit) :
    0 ≤ number.getD start ∧ number.getD start ≤ limit := by
  cases number with
  | none => exact hstart
  | some n =>
      by_contra hout
      exact h ⟨n, rfl, by rw [Option.getD_some] at hout; omega⟩

/-- A field that passes its test is not out of range, whether it has been read or not. -/
theorem not_outOfRange_of_getD {limit start : ℤ} {number : Option ℤ}
    (h : 0 ≤ number.getD start ∧ number.getD start ≤ limit) : ¬ OutOfRange limit number := by
  rintro ⟨n, rfl, hout⟩
  rw [Option.getD_some] at h
  omega

/-- If the variables pass the checks then no field is one that no date has. -/
theorem acceptable_of_valid {locals : DateLocals} (h : Valid (scanDate date locals).2) :
    Acceptable (scan dateFormat date) where
  day := not_outOfRange_of_getD h.day
  hh := not_outOfRange_of_getD h.hh
  mm := not_outOfRange_of_getD h.mm
  ss := not_outOfRange_of_getD h.ss
  month := by
    intro word hword
    refine ⟨locals.month, ?_⟩
    rw [← hword]
    exact h.month

/-- Variables that have held what a date has pass the checks, if the month is one. -/
theorem valid_of_acceptable (h : Acceptable (scan dateFormat date)) {locals : DateLocals}
    (hday : 0 ≤ locals.day ∧ locals.day ≤ 31) (hhh : 0 ≤ locals.hh ∧ locals.hh ≤ 23)
    (hmm : 0 ≤ locals.mm ∧ locals.mm ≤ 59) (hss : 0 ≤ locals.ss ∧ locals.ss ≤ 59)
    (hmonth : monthdex (scanDate date locals).2.month ≠ none) :
    Valid (scanDate date locals).2 where
  day := getD_inRange h.day hday
  hh := getD_inRange h.hh hhh
  mm := getD_inRange h.mm hmm
  ss := getD_inRange h.ss hss
  month := hmonth

/-- The name of a month is decoded from its own letters, unless it is a lone `J`. -/
theorem monthdex_storeText {word : List UInt8} (h : ∀ c, word = [c] → isLetter c 'j' = false)
    (cells cells' : ℕ → UInt8) :
    monthdex (storeText (some word) cells) = monthdex (storeText (some word) cells') := by
  match word with
  | [] => rfl
  | [c] =>
      have hj := h c rfl
      have hnone : ∀ cells, monthdex (storeText (some [c]) cells) = none := by
        intro cells
        have hfirst : storeText (some [c]) cells 0 = c := rfl
        have hsecond : storeText (some [c]) cells 1 = 0 := rfl
        have hnul : ∀ letter ∈ ['e', 'a', 'u', 'p', 'c', 'o'], isLetter 0 letter = false := by
          simp only [List.forall_mem_cons]
          exact ⟨rfl, rfl, rfl, rfl, rfl, rfl, by simp⟩
        -- no name of a month but the `J` goes on with a NUL
        unfold monthdex
        rw [hfirst, hsecond, hj]
        simp [hnul]
      rw [hnone, hnone]
  | [c, d] => rfl
  | c :: d :: e :: rest => rfl

/-- The answer is the same if all fields that it takes have been read. -/
theorem answer_eq_of_read (hread : 7 ≤ (scan dateFormat date).fields.length)
    (hj : ¬ LoneJ (scan dateFormat date)) (zone : TimeZone) (mktime : Tm → ℤ)
    (locals locals' : DateLocals) :
    butilRfc2616DateToTime zone mktime (some date) locals =
      butilRfc2616DateToTime zone mktime (some date) locals' := by
  have hnumber : ∀ k < 7, (conversions dateFormat)[k]? = some true →
      ∀ start start', ((scan dateFormat date).number k).getD start =
        ((scan dateFormat date).number k).getD start' := by
    intro k hk hint start start'
    obtain ⟨n, hn⟩ := Option.isSome_iff_exists.mp
      ((@number_isSome dateFormat date k hint).mpr (by omega))
    rw [hn]
    rfl
  have hmonth : ∀ cells cells', monthdex (storeText ((scan dateFormat date).text 2) cells) =
      monthdex (storeText ((scan dateFormat date).text 2) cells') := by
    obtain ⟨word, hword⟩ := Option.isSome_iff_exists.mp
      ((@text_isSome dateFormat date 2 rfl).mpr (by omega))
    rw [hword]
    apply monthdex_storeText
    rintro c rfl
    exact Bool.eq_false_iff.mpr fun hletter => hj ⟨c, hword, hletter⟩
  unfold butilRfc2616DateToTime scanDate
  dsimp only
  rw [hnumber 1 (by decide) rfl locals.day locals'.day,
    hnumber 3 (by decide) rfl locals.year locals'.year,
    hnumber 4 (by decide) rfl locals.hh locals'.hh,
    hnumber 5 (by decide) rfl locals.mm locals'.mm,
    hnumber 6 (by decide) rfl locals.ss locals'.ss, hmonth locals.month locals'.month]

/-! ## Two runs that differ -/

/-- What the variables may have held. -/
def heldLocals (month : ℕ → UInt8) (ss : ℤ) : DateLocals :=
  { dayofweek := fun _ => 0
    day := 1
    month := month
    year := 1970
    hh := 0
    mm := 0
    ss := ss
    zone := fun _ => 0 }

/-- The answer in UTC where nothing that has been read is refused. -/
theorem answer_heldLocals (hsome : (scan dateFormat date).fields ≠ [])
    (h : Acceptable (scan dateFormat date)) {month : ℕ → UInt8} {mon : ℕ}
    (hmon : monthdex (storeText ((scan dateFormat date).text 2) month) = some mon) {ss : ℤ}
    (hss : 0 ≤ ss ∧ ss ≤ 59) :
    butilRfc2616DateToTime utc secondsOf (some date) (heldLocals month ss) =
      secondsOf (handed (scanDate date (heldLocals month ss)).2 mon) := by
  have hvalid : Valid (scanDate date (heldLocals month ss)).2 := by
    have hday : (0 : ℤ) ≤ 1 ∧ (1 : ℤ) ≤ 31 := by decide
    have hhh : (0 : ℤ) ≤ 0 ∧ (0 : ℤ) ≤ 23 := by decide
    have hmm : (0 : ℤ) ≤ 0 ∧ (0 : ℤ) ≤ 59 := by decide
    exact valid_of_acceptable h hday hhh hmm hss (ne_of_eq_of_ne hmon (Option.some_ne_none mon))
  rw [answer_of_valid (result_nonneg hsome _) hvalid hmon, gmtoff_eq]
  exact sub_zero _

/-- Where the seconds have not been read the answer is not the text's. -/
theorem answers_differ_of_short (hsome : (scan dateFormat date).fields ≠ [])
    (h : Acceptable (scan dateFormat date)) (hshort : (scan dateFormat date).fields.length < 7) :
    ∃ locals locals', butilRfc2616DateToTime utc secondsOf (some date) locals ≠
      butilRfc2616DateToTime utc secondsOf (some date) locals' := by
  have hss : (scan dateFormat date).number 6 = none := by
    apply Option.not_isSome_iff_eq_none.mp
    rw [@number_isSome dateFormat date 6 rfl]
    omega
  obtain ⟨month, mon, hmon⟩ : ∃ month mon,
      monthdex (storeText ((scan dateFormat date).text 2) month) = some mon := by
    cases hword : (scan dateFormat date).text 2 with
    | none => exact ⟨fun i => (cstring "Jan").getD i 0, 0, by decide +kernel⟩
    | some word =>
        obtain ⟨cells, hcells⟩ := h.month word hword
        obtain ⟨mon, hmon⟩ := Option.ne_none_iff_exists'.mp hcells
        exact ⟨cells, mon, hmon⟩
  refine ⟨heldLocals month 0, heldLocals month 1, ?_⟩
  rw [answer_heldLocals hsome h hmon (by decide), answer_heldLocals hsome h hmon (by decide)]
  unfold secondsOf handed scanDate
  dsimp only
  rw [hss]
  unfold heldLocals
  dsimp only [Option.getD_none]
  omega

/-- Behind a lone `J` an `n` makes June, and an `l` July. -/
theorem answers_differ_of_loneJ (h : Acceptable (scan dateFormat date))
    (hj : LoneJ (scan dateFormat date)) :
    ∃ locals locals', butilRfc2616DateToTime utc secondsOf (some date) locals ≠
      butilRfc2616DateToTime utc secondsOf (some date) locals' := by
  obtain ⟨c, hword, hletter⟩ := hj
  have hsome : (scan dateFormat date).fields ≠ [] := by
    intro hnone
    unfold Scanned.text at hword
    rw [hnone] at hword
    cases hword
  have hmon : ∀ third : UInt8,
      monthdex (storeText ((scan dateFormat date).text 2) fun _ => third) =
        if isLetter third 'n' then some 5 else if isLetter third 'l' then some 6 else none := by
    intro third
    have hfirst : storeText (some [c]) (fun _ => third) 0 = c := rfl
    rw [hword]
    unfold monthdex
    rw [hfirst, if_pos hletter]
    rfl
  refine ⟨heldLocals (fun _ => 110) 0, heldLocals (fun _ => 108) 0, ?_⟩
  rw [answer_heldLocals hsome h (hmon 110) (by decide),
    answer_heldLocals hsome h (hmon 108) (by decide)]
  have hmonths : ∀ leap, daysBeforeMonth leap 6 = daysBeforeMonth leap 5 + 30 := by decide
  unfold secondsOf handed scanDate heldLocals dayNumber
  dsimp only
  rw [hmonths]
  omega

end Read

/-! ## The answer and the text -/

/-- **The answer is the text's own exactly if the text decides it**: nothing of it can be read,
or something is read that no date has, or all fields up to the seconds are read and the name
of the month is no lone `J`. -/
theorem answers_from_text_iff (date : List UInt8) : AnswersFromText date ↔ DecidedByText date := by
  constructor
  · intro h
    have hsame := (h utc secondsOf).1
    by_contra hopen
    obtain ⟨hsome, hrest⟩ := not_or.mp hopen
    obtain ⟨hnot, hlast⟩ := not_or.mp hrest
    have hacceptable := not_not.mp hnot
    by_cases hshort : (scan dateFormat date).fields.length < 7
    · obtain ⟨locals, locals', hne⟩ := answers_differ_of_short hsome hacceptable hshort
      exact hne (hsame locals locals')
    · have hj : LoneJ (scan dateFormat date) := by
        by_contra hj
        exact hlast ⟨not_lt.mp hshort, hj⟩
      obtain ⟨locals, locals', hne⟩ := answers_differ_of_loneJ hacceptable hj
      exact hne (hsame locals locals')
  · intro h zone mktime
    have hzero : (scan dateFormat date).fields = [] ∨ ¬ Acceptable (scan dateFormat date) →
        ∀ locals, butilRfc2616DateToTime zone mktime (some date) locals = 0 := by
      rintro (hnone | hnot) locals
      · exact answer_of_eof (result_neg hnone locals)
      · exact answer_of_not_valid fun hvalid => hnot (acceptable_of_valid hvalid)
    rcases h with hnone | hnot | ⟨hread, hj⟩
    · refine ⟨fun locals locals' => ?_, fun _ => hzero (Or.inl hnone)⟩
      rw [hzero (Or.inl hnone), hzero (Or.inl hnone)]
    · refine ⟨fun locals locals' => ?_, fun _ => hzero (Or.inr hnot)⟩
      rw [hzero (Or.inr hnot), hzero (Or.inr hnot)]
    · exact ⟨answer_eq_of_read hread hj zone mktime,
        fun hshort => absurd hread (not_le.mpr hshort)⟩

/-- Of `Tue` only the day of the week is read, and the answer is the one for the variables. -/
theorem not_answers_from_text_tue :
    butilRfc2616DateToTime utc secondsOf (some (cstring "Tue"))
        (heldLocals (fun i => (cstring "Jan").getD i 0) 1) = 1 ∧
      (scan dateFormat (cstring "Tue")).fields.length = 1 ∧ ¬ AnswersFromText (cstring "Tue") := by
  have hanswer : butilRfc2616DateToTime utc secondsOf (some (cstring "Tue"))
      (heldLocals (fun i => (cstring "Jan").getD i 0) 1) = 1 := by
    decide +kernel
  have hfields : (scan dateFormat (cstring "Tue")).fields.length = 1 := by decide +kernel
  refine ⟨hanswer, hfields, fun h => ?_⟩
  have hzero := (h utc secondsOf).2 (by omega) (heldLocals (fun i => (cstring "Jan").getD i 0) 1)
  rw [hanswer] at hzero
  cases hzero

end SmbProxy.Analysis
