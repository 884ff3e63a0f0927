import SmbProxy.Interface.Options

/-!
# When the option loops end

An `x` changes neither `arg` nor `argi`, so the inner loop stays at it
(`not_finishes_of_flag`). Every other pass takes at least one byte or ends the parsing. Behind
a number nothing but an error or an `x` can follow (`finishes_behind_iff`), and from the head
of the outer loop the arguments decide by their grammar (`finishes_outer_iff`).
-/

set_option autoImplicit false

namespace SmbProxy.Analysis

open SmbProxy.Library SmbProxy.Model SmbProxy.Interface

section Passes

variable {s : Options}

/-! ## Characters -/

/-- A character inside an argument is not the NUL. -/
theorem charAt_of_lt {arg : List UInt8} (hnul : 0 ∉ arg) {i : ℕ} (h : i < arg.length) :
    charAt arg i ≠ 0 := by
  intro hzero
  apply hnul
  rw [← hzero]
  unfold charAt
  rw [List.getD_eq_getElem _ _ h]
  exact List.getElem_mem h

/-- Behind an argument there is its NUL. -/
theorem charAt_of_le {arg : List UInt8} {i : ℕ} (h : arg.length ≤ i) : charAt arg i = 0 := by
  unfold charAt
  rw [List.getD_eq_getElem?_getD, List.getElem?_eq_none h, Option.getD_none]

/-- The options with a number are `p` and `l`. -/
theorem isNumberOption_iff {c : UInt8} : isNumberOption c = true ↔ c = 112 ∨ c = 108 := by
  simp [isNumberOption]

/-- There is no NUL behind a number, where there is none in the text. -/
theorem not_nul_behindNumber {text : List UInt8} (h : 0 ∉ text) : 0 ∉ behindNumber text :=
  fun hmem => h ((strtoul0_suffix text).subset hmem)

/-- There is no number at a `p` or an `l`. -/
theorem behindNumber_option {o : UInt8} (ho : isNumberOption o = true) (text : List UInt8) :
    behindNumber (o :: text) = o :: text := by
  unfold behindNumber
  rcases isNumberOption_iff.mp ho with rfl | rfl
  · rw [strtoul0_none (by decide) (by decide) (by decide)]
  · rw [strtoul0_none (by decide) (by decide) (by decide)]

/-! ## The outer loop -/

/-- Outside an option a pass is one of the outer loop. -/
theorem optionPass_outer (h : s.inner = false) : optionPass s = outerPass s := by
  simp [optionPass, h]

/-- Inside an option a pass is one of the inner loop. -/
theorem optionPass_inner (h : s.inner = true) : optionPass s = innerPass s := by
  simp [optionPass, h]

/-- Without an argument left the loops end. -/
theorem finishes_of_no_args (hinner : s.inner = false) (hargs : s.args = []) :
    Finishes optionPass s := by
  apply finishes_of_exit (v := s)
  rw [optionPass_outer hinner, outerPass, hargs]

/-- With an error the loops end. -/
theorem finishes_of_error (hinner : s.inner = false) (hresult : s.result ≠ 0) :
    Finishes optionPass s := by
  apply finishes_of_exit (v := s)
  rw [optionPass_outer hinner, outerPass]
  cases s.args with
  | nil => rfl
  | cons arg args => simp only [if_pos hresult]

/-- What the loops are left with. -/
theorem exit_of_pass {final : Options} (h : (optionPass s).next = .inr final) :
    final.result ≠ 0 ∨ final.args = [] := by
  by_cases hinner : s.inner = true
  · rw [optionPass_inner hinner] at h
    cases h
  · rw [optionPass_outer (by simpa using hinner)] at h
    unfold outerPass at h
    cases hargs : s.args with
    | nil =>
        rw [hargs] at h
        cases h
        exact Or.inr hargs
    | cons arg args =>
        rw [hargs] at h
        dsimp only at h
        by_cases hresult : s.result ≠ 0
        · rw [if_pos hresult] at h
          cases h
          exact Or.inl hresult
        · rw [if_neg hresult] at h
          split_ifs at h

/-- The loops are never left in any other way, so to end is enough. -/
theorem endsParsing_iff (args : List (List UInt8)) :
    EndsParsing args ↔ Finishes optionPass (Options.init args) := by
  constructor
  · rintro ⟨n, final, hexit, -⟩
    exact ⟨n, final, hexit⟩
  · rintro ⟨n, final, hexit⟩
    obtain ⟨t, ht⟩ := exists_pass_of_exit hexit
    exact ⟨n, final, hexit, exit_of_pass ht⟩

/-! ## One pass of the inner loop -/

/-- A pass that comes to no error and goes on with a text, and with these arguments left. -/
structure GoesOn (s t : Options) (left : List (List UInt8)) (text : List UInt8) : Prop where
  follows : Follows optionPass s t
  args : t.args = left
  arg : t.arg = text
  argi : t.argi = 0
  result : t.result = 0
  inner : t.inner = decide (text ≠ [])

/-- An argument is empty if its first character is the NUL. -/
theorem charAt_zero_iff {arg : List UInt8} (hnul : 0 ∉ arg) : charAt arg 0 ≠ 0 ↔ arg ≠ [] := by
  constructor
  · rintro h rfl
    exact h rfl
  · intro hne
    exact charAt_of_lt hnul (List.length_pos_iff.mpr hne)

/-- A switch that nothing knows ends the parsing. -/
theorem finishes_of_badSwitch (hinner : s.inner = true)
    (hnumber : isNumberOption (charAt s.arg 1) = false) (hflag : charAt s.arg 1 ≠ 120) : Finishes optionPass s := by
  have hne : charAt s.arg 1 ≠ 112 ∧ charAt s.arg 1 ≠ 108 := by
    rw [← not_or, ← isNumberOption_iff, hnumber]
    exact Bool.false_ne_true
  have hswitch : switchOption s = ([.badSwitch s.arg], { s with result := 1 }) := by
    unfold switchOption
    rw [if_neg hne.1, if_neg hne.2, if_neg hflag]
  have hfollows : Follows optionPass s { s with result := 1, inner := false } := by
    unfold Follows
    rw [optionPass_inner hinner, innerPass, hswitch]
    simp
  rw [finishes_iff_of_follows hfollows]
  exact finishes_of_error rfl one_ne_zero

/-- **The inner loop stays at an `x`.** -/
theorem not_finishes_of_flag (hinner : s.inner = true) (hresult : s.result = 0)
    (hflag : charAt s.arg 1 = 120) (hmore : charAt s.arg s.argi ≠ 0) :
    ¬ Finishes optionPass s := by
  refine not_finishes_of_invariant (fun t => t.inner = true ∧ t.result = 0 ∧
    charAt t.arg 1 = 120 ∧ charAt t.arg t.argi ≠ 0) ?_ ⟨hinner, hresult, hflag, hmore⟩
  rintro t ⟨hin, hres, hx, hgo⟩
  have hswitch : switchOption t = ([], { t with passthrough := true }) := by
    unfold switchOption
    rw [if_neg (by rw [hx]; decide), if_neg (by rw [hx]; decide), if_pos hx]
  refine ⟨{ t with passthrough := true }, ?_, hin, hres, hx, hgo⟩
  unfold Follows
  rw [optionPass_inner hin, innerPass, hswitch]
  simp [hres, hgo, hin]

/-- What the pass of a number option leaves, with what the option itself makes of the number
left open. -/
theorem optionPass_number (hinner : s.inner = true) (ho : isNumberOption (charAt s.arg 1) = true) :
    ∃ complaint missing port level,
      Follows optionPass s
        { (optionNumber complaint missing s).2.2 with
          localPort := port
          loglevel := level
          inner := decide ((optionNumber complaint missing s).2.2.result = 0 ∧
            charAt (optionNumber complaint missing s).2.2.arg
              (optionNumber complaint missing s).2.2.argi ≠ 0) } := by
  unfold Follows
  rw [optionPass_inner hinner]
  unfold innerPass switchOption
  rcases isNumberOption_iff.mp ho with hp | hl
  · refine ⟨.usePort, 1, UInt16.ofNat (optionNumber .usePort 1 s).2.1,
      (optionNumber .usePort 1 s).2.2.loglevel, ?_⟩
    rw [if_pos hp]
  · refine ⟨.useLevel, s.result, (optionNumber .useLevel s.result s).2.2.localPort,
      toInt32 (optionNumber .useLevel s.result s).2.1, ?_⟩
    rw [if_neg (by rw [hl]; decide), if_pos hl]

/-- The number is in the same argument. -/
theorem optionNumber_own {complaint : Complaint} {missing : ℤ}
    (hown : charAt s.arg (s.argi + 1) ≠ 0) :
    (optionNumber complaint missing s).2.2 =
      { s with arg := behindNumber (s.arg.drop (s.argi + 1)), argi := 0 } := by
  unfold optionNumber behindNumber
  dsimp only
  rw [if_neg hown]

/-- The number is in the next argument. -/
theorem optionNumber_next {complaint : Complaint} {missing : ℤ} {next : List UInt8}
    {args : List (List UInt8)} (hnone : charAt s.arg (s.argi + 1) = 0)
    (hargs : s.args = next :: args) :
    (optionNumber complaint missing s).2.2 =
      { s with args := args, arg := behindNumber next, argi := 0 } := by
  unfold optionNumber behindNumber
  dsimp only
  rw [if_pos hnone, hargs]
  rfl

/-- There is no argument for the number to be in. -/
theorem optionNumber_missing {complaint : Complaint} {missing : ℤ}
    (hnone : charAt s.arg (s.argi + 1) = 0) (hargs : s.args = []) :
    (optionNumber complaint missing s).2.2 =
      { s with result := missing, arg := behindNumber (s.arg.drop (s.argi + 1)), argi := 0 } := by
  unfold optionNumber behindNumber
  dsimp only
  rw [if_pos hnone, hargs]

/-- An option whose number is in its own argument goes on behind the number. -/
theorem goesOn_own (hinner : s.inner = true) (hresult : s.result = 0)
    (ho : isNumberOption (charAt s.arg 1) = true) (hnul : 0 ∉ s.arg)
    (hown : charAt s.arg (s.argi + 1) ≠ 0) :
    ∃ t, GoesOn s t s.args (behindNumber (s.arg.drop (s.argi + 1))) := by
  obtain ⟨complaint, missing, port, level, hfollows⟩ := optionPass_number hinner ho
  rw [optionNumber_own hown] at hfollows
  refine ⟨_, hfollows, rfl, rfl, rfl, hresult, ?_⟩
  have hrest : 0 ∉ behindNumber (s.arg.drop (s.argi + 1)) :=
    not_nul_behindNumber fun hmem => hnul (List.mem_of_mem_drop hmem)
  simp only [hresult, true_and]
  exact decide_eq_decide.mpr (charAt_zero_iff hrest)

/-- An option whose number is in the next argument goes on behind the number there. -/
theorem goesOn_next {next : List UInt8} {args : List (List UInt8)} (hinner : s.inner = true)
    (hresult : s.result = 0) (ho : isNumberOption (charAt s.arg 1) = true) (hnul : 0 ∉ next)
    (hnone : charAt s.arg (s.argi + 1) = 0) (hargs : s.args = next :: args) :
    ∃ t, GoesOn s t args (behindNumber next) := by
  obtain ⟨complaint, missing, port, level, hfollows⟩ := optionPass_number hinner ho
  rw [optionNumber_next hnone hargs] at hfollows
  refine ⟨_, hfollows, rfl, rfl, rfl, hresult, ?_⟩
  simp only [hresult, true_and]
  exact decide_eq_decide.mpr (charAt_zero_iff (not_nul_behindNumber hnul))

/-- With no argument left, and no number, the loops end. -/
theorem finishes_of_missing (hinner : s.inner = true) (ho : isNumberOption (charAt s.arg 1) = true)
    (hlength : s.arg.length = s.argi + 1) (hargs : s.args = []) : Finishes optionPass s := by
  obtain ⟨complaint, missing, port, level, hfollows⟩ := optionPass_number hinner ho
  have hbehind : behindNumber (s.arg.drop (s.argi + 1)) = [] := by
    rw [List.drop_eq_nil_of_le hlength.le]
    rfl
  rw [optionNumber_missing (charAt_of_le hlength.le) hargs, hbehind] at hfollows
  rw [finishes_iff_of_follows hfollows]
  refine finishes_of_no_args ?_ hargs
  simp [charAt]

/-! ## Behind a number -/

/-- `x` has no number. -/
theorem number_ne_flag {o : UInt8} (ho : isNumberOption o = true) : o ≠ 120 := by
  rintro rfl
  cases ho

/-- One character leads to no `x`. -/
theorem not_leadsToFlag_singleton (c : UInt8) : ¬ LeadsToFlag [c] := by
  rintro ⟨c', options, rest, htext, -⟩
  simp at htext

/-- What is behind the first byte decides, and a number option only passes it on. -/
theorem leadsToFlag_cons_iff {c o : UInt8} {text : List UInt8} :
    LeadsToFlag (c :: o :: text) ↔
      o = 120 ∨ isNumberOption o = true ∧ LeadsToFlag (o :: text) := by
  constructor
  · rintro ⟨c', options, rest, htext, hoptions⟩
    cases options with
    | nil =>
        simp only [List.nil_append, List.cons.injEq] at htext
        exact Or.inl htext.2.1
    | cons o' options =>
        simp only [List.cons_append, List.cons.injEq] at htext
        obtain ⟨-, rfl, rfl⟩ := htext
        exact Or.inr ⟨hoptions o List.mem_cons_self, o, options, rest, rfl,
          fun o' ho' => hoptions o' (List.mem_cons_of_mem o ho')⟩
  · rintro (rfl | ⟨ho, c', options, rest, htext, hoptions⟩)
    · exact ⟨c, [], text, rfl, fun o ho => absurd ho List.not_mem_nil⟩
    · simp only [List.cons.injEq] at htext
      refine ⟨c, o :: options, rest, by rw [htext.2]; rfl, fun o' ho' => ?_⟩
      cases ho' with
      | head => exact ho
      | tail _ hmem => exact hoptions o' hmem

/-- **Behind a number there is nothing that the loops get over**: an `x` or an error. -/
theorem finishes_behind_iff (text : List UInt8) (hne : text ≠ []) (hnul : 0 ∉ text)
    (hinner : s.inner = true) (hresult : s.result = 0) (hargi : s.argi = 0) (harg : s.arg = text) :
    Finishes optionPass s ↔ ¬ LeadsToFlag text := by
  induction text generalizing s with
  | nil => exact absurd rfl hne
  | cons c text ih =>
      cases text with
      | nil =>
          have hend : charAt s.arg 1 = 0 := by
            rw [harg]
            rfl
          exact iff_of_true (finishes_of_badSwitch hinner (by rw [hend]; rfl)
            (by rw [hend]; decide)) (not_leadsToFlag_singleton c)
      | cons o text =>
          have hsecond : charAt s.arg 1 = o := by
            rw [harg]
            rfl
          rw [leadsToFlag_cons_iff]
          by_cases hflag : o = 120
          · have hmore : charAt s.arg s.argi ≠ 0 := by
              rw [hargi, charAt_zero_iff (by rw [harg]; exact hnul), harg]
              exact hne
            exact iff_of_false (not_finishes_of_flag hinner hresult (hsecond.trans hflag) hmore)
              (not_not.mpr (Or.inl hflag))
          rw [or_iff_right hflag]
          cases ho : isNumberOption o with
          | false =>
              refine iff_of_true (finishes_of_badSwitch hinner (by rw [hsecond, ho])
                (by rw [hsecond]; exact hflag)) ?_
              rintro ⟨hnumber, -⟩
              cases hnumber
          | true =>
              have hown : charAt s.arg (s.argi + 1) ≠ 0 := by
                rw [hargi, hsecond]
                rintro rfl
                cases ho
              have hnul' : 0 ∉ o :: text := fun hmem => hnul (List.mem_cons_of_mem c hmem)
              have hdrop : behindNumber (s.arg.drop (s.argi + 1)) = o :: text := by
                rw [hargi, harg]
                exact behindNumber_option ho text
              obtain ⟨t, ht⟩ := goesOn_own hinner hresult (by rw [hsecond, ho])
                (by rw [harg]; exact hnul) hown
              rw [hdrop] at ht
              have hin : t.inner = true := by simp [ht.inner]
              -- the next pass is at the option, which is no number
              rw [finishes_iff_of_follows ht.follows,
                ih (List.cons_ne_nil o text) hnul' hin ht.result ht.argi ht.arg,
                and_iff_right rfl]

end Passes

/-! ## The grammar -/

section Grammar

variable {o : UInt8} {arg text : List UInt8} {rest : List (List UInt8)}

/-- No arguments do not hang. -/
theorem not_hangs_nil : ¬ Hangs [] := by
  intro h
  cases h with
  | later hpasses _ => cases hpasses

/-- A URL is got over. -/
theorem hangs_url_iff (h : arg.head? ≠ some 45) : Hangs (arg :: rest) ↔ Hangs rest := by
  constructor
  · intro hhangs
    cases hhangs with
    | flag => exact absurd rfl h
    | own => exact absurd rfl h
    | next => exact absurd rfl h
    | later hpasses hrest =>
        cases hpasses with
        | url => exact hrest
        | own => exact absurd rfl h
        | next => exact absurd rfl h
  · exact fun hrest => .later (.url h) hrest

/-- An option with its number hangs at an `x` behind the number, or is got over. -/
theorem hangs_own_iff (ho : isNumberOption o = true) (htext : text ≠ []) :
    Hangs ((45 :: o :: text) :: rest) ↔
      LeadsToFlag (behindNumber text) ∨ behindNumber text = [] ∧ Hangs rest := by
  constructor
  · intro hhangs
    cases hhangs with
    | flag => exact absurd rfl (number_ne_flag ho)
    | own _ _ hleads => exact Or.inl hleads
    | next => exact absurd rfl htext
    | later hpasses hrest =>
        cases hpasses with
        | url h => exact absurd rfl h
        | own _ _ hbehind => exact Or.inr ⟨hbehind, hrest⟩
        | next => exact absurd rfl htext
  · rintro (hleads | ⟨hbehind, hrest⟩)
    · exact .own ho htext hleads
    · exact .later (.own ho htext hbehind) hrest

/-- The same of an option with its number in the next argument. -/
theorem hangs_next_iff (ho : isNumberOption o = true) :
    Hangs ([45, o] :: text :: rest) ↔
      LeadsToFlag (behindNumber text) ∨ behindNumber text = [] ∧ Hangs rest := by
  constructor
  · intro hhangs
    cases hhangs with
    | flag => exact absurd rfl (number_ne_flag ho)
    | own _ htext _ => exact absurd rfl htext
    | next _ hleads => exact Or.inl hleads
    | later hpasses hrest =>
        cases hpasses with
        | url h => exact absurd rfl h
        | own _ htext _ => exact absurd rfl htext
        | next _ hbehind => exact Or.inr ⟨hbehind, hrest⟩
  · rintro (hleads | ⟨hbehind, hrest⟩)
    · exact .next ho hleads
    · exact .later (.next ho hbehind) hrest

/-- The loops end at an argument with a switch that they do not know. -/
theorem not_hangs_of_badSwitch (htext : ∀ o ∈ text.head?, isNumberOption o = false ∧ o ≠ 120) :
    ¬ Hangs ((45 :: text) :: rest) := by
  have hnumber : ∀ {o : UInt8}, o ∈ text.head? → isNumberOption o = true → False := by
    intro o ho hnumber
    rw [(htext o ho).1] at hnumber
    cases hnumber
  intro hhangs
  cases hhangs with
  | flag => exact (htext 120 rfl).2 rfl
  | own ho => exact hnumber rfl ho
  | next ho => exact hnumber rfl ho
  | later hpasses _ =>
      cases hpasses with
      | url h => exact h rfl
      | own ho => exact hnumber rfl ho
      | next ho => exact hnumber rfl ho

/-- An option without its number at the very end does not hang. -/
theorem not_hangs_missing (ho : isNumberOption o = true) : ¬ Hangs [[45, o]] := by
  intro hhangs
  cases hhangs with
  | flag => exact number_ne_flag ho rfl
  | own _ htext _ => exact htext rfl
  | later hpasses hrest =>
      cases hpasses with
      | url h => exact h rfl
      | own _ htext _ => exact htext rfl

end Grammar

/-! ## All arguments -/

section Arguments

variable {s t : Options}

/-- Where a number has been read, the text behind it and the arguments left decide. -/
theorem finishes_goesOn_iff {left : List (List UInt8)} {text : List UInt8}
    (h : GoesOn s t left text) (hnul : 0 ∉ text)
    (hleft : t.inner = false → (Finishes optionPass t ↔ ¬ Hangs left)) :
    Finishes optionPass s ↔ ¬ (LeadsToFlag text ∨ text = [] ∧ Hangs left) := by
  rw [finishes_iff_of_follows h.follows]
  by_cases hempty : text = []
  · have hnone : ¬ LeadsToFlag text := by
      rintro ⟨c, options, rest, htext, -⟩
      rw [hempty] at htext
      cases htext
    rw [hleft (by rw [h.inner]; simp [hempty]), or_iff_right hnone, and_iff_right hempty]
  · rw [finishes_behind_iff text hempty hnul (by rw [h.inner]; simp [hempty]) h.result h.argi h.arg,
      or_iff_left fun hand => hempty hand.1]

/-- The head of the outer loop with these arguments left. -/
structure AtArgs (s : Options) (left : List (List UInt8)) : Prop where
  inner : s.inner = false
  result : s.result = 0
  args : s.args = left
  strings : ∀ arg ∈ left, 0 ∉ arg

/-- The head of the inner loop, first with this argument. -/
structure AtOption (s : Options) (text : List UInt8) (rest : List (List UInt8)) : Prop where
  inner : s.inner = true
  result : s.result = 0
  arg : s.arg = 45 :: text
  argi : s.argi = 1
  args : s.args = rest
  string : 0 ∉ text
  strings : ∀ arg ∈ rest, 0 ∉ arg

/-- At a number option, if the shorter argument vectors are known. -/
theorem finishes_number_iff {o : UInt8} {text : List UInt8} {rest : List (List UInt8)}
    (h : AtOption s (o :: text) rest) (ho : isNumberOption o = true)
    (ih : ∀ {t : Options} {left : List (List UInt8)}, left.length ≤ rest.length → AtArgs t left →
      (Finishes optionPass t ↔ ¬ Hangs left)) :
    Finishes optionPass s ↔ ¬ Hangs ((45 :: o :: text) :: rest) := by
  have hswitch : isNumberOption (charAt s.arg 1) = true := by
    rw [h.arg]
    exact ho
  have hnulArg : 0 ∉ s.arg := by
    rw [h.arg]
    exact List.not_mem_cons_of_ne_of_not_mem (by decide) h.string
  cases text with
  | cons c text =>
      have hown : charAt s.arg (s.argi + 1) ≠ 0 := by
        rw [h.argi]
        exact charAt_of_lt hnulArg (by simp [h.arg])
      have hdrop : s.arg.drop (s.argi + 1) = c :: text := by
        rw [h.argi, h.arg]
        rfl
      have hnulText : 0 ∉ c :: text := fun hmem => h.string (List.mem_cons_of_mem o hmem)
      obtain ⟨t, ht⟩ := goesOn_own h.inner h.result hswitch hnulArg hown
      rw [hdrop, h.args] at ht
      rw [hangs_own_iff ho (List.cons_ne_nil c text)]
      exact finishes_goesOn_iff ht (not_nul_behindNumber hnulText) fun hout =>
        ih le_rfl ⟨hout, ht.result, ht.args, h.strings⟩
  | nil =>
      have hlength : s.arg.length = s.argi + 1 := by
        rw [h.argi, h.arg]
        rfl
      cases rest with
      | nil =>
          exact iff_of_true (finishes_of_missing h.inner hswitch hlength h.args)
            (not_hangs_missing ho)
      | cons next rest =>
          have hnulNext := h.strings next List.mem_cons_self
          obtain ⟨t, ht⟩ := goesOn_next h.inner h.result hswitch hnulNext
            (charAt_of_le hlength.le) h.args
          rw [hangs_next_iff ho]
          exact finishes_goesOn_iff ht (not_nul_behindNumber hnulNext) fun hout =>
            ih (Nat.le_succ _) ⟨hout, ht.result, ht.args,
              fun a ha => h.strings a (List.mem_cons_of_mem next ha)⟩

/-- **From an option on** the loops end iff the arguments from there do not hang. -/
theorem finishes_option_iff {text : List UInt8} {rest : List (List UInt8)}
    (h : AtOption s text rest)
    (ih : ∀ {t : Options} {left : List (List UInt8)}, left.length ≤ rest.length → AtArgs t left →
      (Finishes optionPass t ↔ ¬ Hangs left)) :
    Finishes optionPass s ↔ ¬ Hangs ((45 :: text) :: rest) := by
  cases text with
  | nil =>
      have hsecond : charAt s.arg 1 = 0 := by
        rw [h.arg]
        rfl
      refine iff_of_true (finishes_of_badSwitch h.inner (by rw [hsecond]; rfl)
        (by rw [hsecond]; decide)) (not_hangs_of_badSwitch fun o ho => ?_)
      cases ho
  | cons o text =>
      have hsecond : charAt s.arg 1 = o := by
        rw [h.arg]
        rfl
      cases ho : isNumberOption o with
      | true => exact finishes_number_iff h ho ih
      | false =>
          by_cases hflag : o = 120
          · have hmore : charAt s.arg s.argi ≠ 0 := by
              rw [h.argi, hsecond, hflag]
              decide
            refine iff_of_false
              (not_finishes_of_flag h.inner h.result (hsecond.trans hflag) hmore) ?_
            rw [not_not, hflag]
            exact .flag
          · refine iff_of_true (finishes_of_badSwitch h.inner (by rw [hsecond, ho])
              (by rw [hsecond]; exact hflag)) (not_hangs_of_badSwitch fun o' ho' => ?_)
            cases ho'
            exact ⟨ho, hflag⟩

/-- What the outer loop does with the next argument. -/
theorem follows_next_arg {arg : List UInt8} {rest : List (List UInt8)} (h : AtArgs s (arg :: rest)) :
    (∃ text t, arg = 45 :: text ∧ Follows optionPass s t ∧ AtOption t text rest) ∨
      arg.head? ≠ some 45 ∧ ∃ t, Follows optionPass s t ∧ AtArgs t rest := by
  have hnulArg := h.strings arg List.mem_cons_self
  have hnulRest : ∀ arg ∈ rest, 0 ∉ arg := fun a ha => h.strings a (List.mem_cons_of_mem arg ha)
  have hpass : optionPass s = outerPass s := optionPass_outer h.inner
  have hresult : ¬ s.result ≠ 0 := not_not.mpr h.result
  by_cases hoption : arg.head? = some 45
  · obtain ⟨text, rfl⟩ : ∃ text, arg = 45 :: text :=
      ⟨arg.tail, (List.cons_head?_tail hoption).symm⟩
    have hfirst : charAt (45 :: text) 0 = 45 := rfl
    refine Or.inl ⟨text,
      { s with arg := 45 :: text, args := rest, argi := 1, inner := true }, rfl, ?_,
      rfl, h.result, rfl, rfl, rfl, fun hmem => hnulArg (List.mem_cons_of_mem _ hmem), hnulRest⟩
    unfold Follows
    rw [hpass, outerPass, h.args]
    dsimp only
    rw [if_neg hresult, if_pos hfirst]
  · have hfirst : charAt arg 0 ≠ 45 := by
      cases arg with
      | nil => decide
      | cons c arg =>
          intro hc
          exact hoption (congrArg some hc)
    refine Or.inr ⟨hoption,
      { s with
        arg := arg
        args := rest
        serverUrl := (s.serverUrl.strncpy arg (maxSmbUrl - 1)).store (maxSmbUrl - 1) 0 }, ?_,
      h.inner, h.result, rfl, hnulRest⟩
    unfold Follows
    rw [hpass, outerPass, h.args]
    dsimp only
    rw [if_neg hresult, if_neg hfirst]

/-- **From the head of the outer loop** the loops end iff the arguments do not hang. -/
theorem finishes_outer_iff {args : List (List UInt8)} (h : AtArgs s args) :
    Finishes optionPass s ↔ ¬ Hangs args := by
  induction hn : args.length using Nat.strongRecOn generalizing args s with
  | _ n ih =>
      cases args with
      | nil => exact iff_of_true (finishes_of_no_args h.inner h.args) not_hangs_nil
      | cons arg rest =>
          have hlength : rest.length < n := by
            rw [← hn]
            exact Nat.lt_succ_self _
          rcases follows_next_arg h with ⟨text, t, rfl, hfollows, ht⟩ | ⟨hurl, t, hfollows, ht⟩
          · rw [finishes_iff_of_follows hfollows]
            exact finishes_option_iff ht fun hle hleft => ih _ (by omega) hleft rfl
          · rw [finishes_iff_of_follows hfollows, hangs_url_iff hurl]
            exact ih _ hlength ht rfl

/-- The loops start at the head of the outer one, with all arguments. -/
theorem atArgs_init {args : List (List UInt8)} (hnul : ∀ arg ∈ args, 0 ∉ arg) :
    AtArgs (Options.init args) args :=
  ⟨rfl, rfl, rfl, hnul⟩

/-- **When the command line is parsed to its end**: if and only if the arguments do not bring
the loops to an `x`. -/
theorem ends_parsing_iff (args : List (List UInt8)) (hnul : ∀ arg ∈ args, 0 ∉ arg) :
    EndsParsing args ↔ ¬ Hangs args := by
  rw [endsParsing_iff]
  exact finishes_outer_iff (atArgs_init hnul)

/-- `-p 445 smb://h` -/
theorem ends_parsing_port :
    EndsParsing
      [ascii ['-', 'p'], ascii ['4', '4', '5'], ascii ['s', 'm', 'b', ':', '/', '/', 'h']] := by
  refine (ends_parsing_iff _ (by decide)).mpr ?_
  have hbehind : behindNumber (ascii ['4', '4', '5']) = [] := by decide
  have hurl : ¬ Hangs [ascii ['s', 'm', 'b', ':', '/', '/', 'h']] := by
    rw [hangs_url_iff (by decide)]
    exact not_hangs_nil
  show ¬ Hangs ([45, 112] :: ascii ['4', '4', '5'] :: _)
  rw [hangs_next_iff (by decide), hbehind]
  rintro (⟨c, options, rest, htext, -⟩ | ⟨-, hrest⟩)
  · cases htext
  · exact hurl hrest

/-- **`-x` is never parsed to its end.** -/
theorem not_ends_parsing_flag : ¬ ∀ args : List (List UInt8), (∀ arg ∈ args, 0 ∉ arg) →
    EndsParsing args := by
  intro h
  have hends := (endsParsing_iff _).mp (h [ascii ['-', 'x']] (by decide))
  exact (finishes_outer_iff (atArgs_init (by decide))).mp hends Hangs.flag

end Arguments

end SmbProxy.Analysis
