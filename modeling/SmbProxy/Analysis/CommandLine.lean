import SmbProxy.Analysis.Options
import SmbProxy.Interface.CommandLine

/-!
# The option loops read the grammar

The loops come out without an error exactly on the command lines of the grammar, with the
settings that these say (`command_line_iff`). From the head of the outer loop an argument
without a `-` is one more URL; an option takes its number, from the next argument if need be,
and comes out with an error if anything is behind the number (`exits_behind`).
-/

set_option autoImplicit false

namespace SmbProxy.Analysis

open SmbProxy.Library SmbProxy.Model SmbProxy.Interface

section Passes

variable {s final : Options} {c d : Settings}

/-- Without an argument left the loops are left as they are. -/
theorem exits_of_no_args (hinner : s.inner = false) (hargs : s.args = []) :
    Exits optionPass s final ↔ final = s := by
  apply exits_iff_of_exit
  rw [optionPass_outer hinner, outerPass, hargs]

/-- With an error the loops are left as they are. -/
theorem exits_of_error (hinner : s.inner = false) (hresult : s.result ≠ 0) :
    Exits optionPass s final ↔ final = s := by
  apply exits_iff_of_exit
  rw [optionPass_outer hinner, outerPass]
  cases s.args with
  | nil => rfl
  | cons arg args => simp only [if_pos hresult]

/-- A switch that nothing knows is an error. -/
theorem error_of_badSwitch (hinner : s.inner = true)
    (hnumber : isNumberOption (charAt s.arg 1) = false) (hflag : charAt s.arg 1 ≠ 120)
    (hexits : Exits optionPass s final) : final.result ≠ 0 := by
  have hne : charAt s.arg 1 ≠ 112 ∧ charAt s.arg 1 ≠ 108 := by
    rw [← not_or, ← isNumberOption_iff, hnumber]
    exact Bool.false_ne_true
  have hfollows : Follows optionPass s { s with result := 1, inner := false } := by
    unfold Follows
    rw [optionPass_inner hinner, innerPass, switchOption, if_neg hne.1, if_neg hne.2,
      if_neg hflag]
    simp
  rw [exits_iff_of_follows hfollows, exits_of_error rfl one_ne_zero] at hexits
  rw [hexits]
  exact one_ne_zero

/-- **Behind a number** there is nothing but an error, if the loops come out at all. -/
theorem exits_behind (text : List UInt8) (hne : text ≠ []) (hnul : 0 ∉ text)
    (hinner : s.inner = true) (hresult : s.result = 0) (hargi : s.argi = 0) (harg : s.arg = text)
    (hexits : Exits optionPass s final) : final.result ≠ 0 := by
  induction text generalizing s with
  | nil => exact absurd rfl hne
  | cons c text ih =>
      cases text with
      | nil =>
          have hend : charAt s.arg 1 = 0 := by
            rw [harg]
            rfl
          exact error_of_badSwitch hinner (by rw [hend]; rfl) (by rw [hend]; decide) hexits
      | cons o text =>
          have hsecond : charAt s.arg 1 = o := by
            rw [harg]
            rfl
          by_cases hflag : o = 120
          · have hmore : charAt s.arg s.argi ≠ 0 := by
              rw [hargi, charAt_zero_iff (by rw [harg]; exact hnul), harg]
              exact hne
            exact absurd hexits.finishes
              (not_finishes_of_flag hinner hresult (hsecond.trans hflag) hmore)
          cases ho : isNumberOption o with
          | false =>
              exact error_of_badSwitch hinner (by rw [hsecond, ho]) (by rw [hsecond]; exact hflag)
                hexits
          | true =>
              have hown : charAt s.arg (s.argi + 1) ≠ 0 := by
                rw [hargi, hsecond]
                rintro rfl
                cases ho
              have hdrop : behindNumber (s.arg.drop (s.argi + 1)) = o :: text := by
                rw [hargi, harg]
                exact behindNumber_option ho text
              obtain ⟨t, ht⟩ := goesOn_own hinner hresult (by rw [hsecond, ho])
                (by rw [harg]; exact hnul) hown
              rw [hdrop] at ht
              refine ih (List.cons_ne_nil o text) (fun hmem => hnul (List.mem_cons_of_mem c hmem))
                (by simp [ht.inner]) ht.result ht.argi ht.arg ?_
              exact (exits_iff_of_follows ht.follows).mp hexits

/-! ## A number option -/

/-- A pass of a number option that goes on with the settings changed. -/
structure SetsNumber (s t : Options) (o : UInt8) (left : List (List UInt8)) (text : List UInt8) :
    Prop where
  goesOn : GoesOn s t left (behindNumber text)
  asSet : ∀ {c : Settings}, AsSet s c → AsSet t (c.set o (numberIn text))

/-- `l` sets the log level. -/
theorem set_level (c : Settings) (value : ℕ) :
    c.set 108 value = { c with loglevel := toInt32 value } := if_neg (by decide)

/-- What a number option leaves behind a number that has been read. -/
theorem setsNumber_of {o : UInt8} {left : List (List UInt8)} {text : List UInt8}
    (hinner : s.inner = true) (hresult : s.result = 0) (ho : isNumberOption o = true)
    (hswitch : charAt s.arg 1 = o) (hnul : 0 ∉ text)
    (hnumber : ∀ complaint missing, optionNumber complaint missing s =
      ([], numberIn text, { s with args := left, arg := behindNumber text, argi := 0 })) :
    ∃ t, SetsNumber s t o left text := by
  have hmore : decide (charAt (behindNumber text) 0 ≠ 0) = decide (behindNumber text ≠ []) :=
    decide_eq_decide.mpr (charAt_zero_iff (not_nul_behindNumber hnul))
  rcases isNumberOption_iff.mp ho with rfl | rfl
  · refine ⟨{ s with
      args := left, arg := behindNumber text, argi := 0
      localPort := UInt16.ofNat (numberIn text)
      inner := decide (behindNumber text ≠ []) }, ⟨?_, rfl, rfl, rfl, hresult, rfl⟩, fun h => ?_⟩
    · unfold Follows
      rw [optionPass_inner hinner, innerPass, switchOption, if_pos hswitch, hnumber]
      simp only [hresult, true_and, hmore]
    · exact ⟨rfl, h.loglevel, h.passthrough, h.serverUrl, h.fits⟩
  · refine ⟨{ s with
      args := left, arg := behindNumber text, argi := 0
      loglevel := toInt32 (numberIn text)
      inner := decide (behindNumber text ≠ []) }, ⟨?_, rfl, rfl, rfl, hresult, rfl⟩, fun h => ?_⟩
    · unfold Follows
      rw [optionPass_inner hinner, innerPass, switchOption, if_neg (by rw [hswitch]; decide),
        if_pos hswitch, hnumber]
      simp only [hresult, true_and, hmore]
    · rw [set_level]
      exact ⟨h.localPort, rfl, h.passthrough, h.serverUrl, h.fits⟩

/-- The number is in the same argument. -/
theorem setsNumber_own {o : UInt8} {text : List UInt8} {rest : List (List UInt8)}
    (h : AtOption s (o :: text) rest) (ho : isNumberOption o = true) (htext : text ≠ []) :
    ∃ t, SetsNumber s t o rest text := by
  have hnul : 0 ∉ s.arg := by
    rw [h.arg]
    exact List.not_mem_cons_of_ne_of_not_mem (by decide) h.string
  have hown : charAt s.arg (s.argi + 1) ≠ 0 := by
    apply charAt_of_lt hnul
    rw [h.argi, h.arg]
    simpa using List.length_pos_iff.mpr htext
  have hdrop : s.arg.drop (s.argi + 1) = text := by
    rw [h.argi, h.arg]
    rfl
  refine setsNumber_of h.inner h.result ho (by rw [h.arg]; rfl)
    (fun hmem => h.string (List.mem_cons_of_mem o hmem)) fun complaint missing => ?_
  unfold optionNumber
  simp only [if_neg hown, hdrop, ← h.args]
  rfl

/-- The number is in the next argument. -/
theorem setsNumber_next {o : UInt8} {next : List UInt8} {rest : List (List UInt8)}
    (h : AtOption s [o] (next :: rest)) (ho : isNumberOption o = true) :
    ∃ t, SetsNumber s t o rest next := by
  have hnone : charAt s.arg (s.argi + 1) = 0 := by
    apply charAt_of_le
    rw [h.argi, h.arg]
    exact le_rfl
  refine setsNumber_of h.inner h.result ho (by rw [h.arg]; rfl)
    (h.strings next List.mem_cons_self) fun complaint missing => ?_
  unfold optionNumber
  simp only [if_pos hnone, h.args]
  rfl

/-- There is no argument for the number to be in. -/
theorem number_of_missing {o : UInt8} (h : AtOption s [o] []) (complaint : Complaint)
    (missing : ℤ) : optionNumber complaint missing s =
      ([complaint], 0, { s with result := missing, arg := [], argi := 0 }) := by
  have hnone : charAt s.arg (s.argi + 1) = 0 := by
    apply charAt_of_le
    rw [h.argi, h.arg]
    exact le_rfl
  have hdrop : s.arg.drop (s.argi + 1) = [] := by
    rw [h.argi, h.arg]
    rfl
  unfold optionNumber
  simp only [if_pos hnone, h.args, hdrop]
  rfl

/-- Without its number `-p` is an error. -/
theorem error_of_missing_port (h : AtOption s [112] []) (hexits : Exits optionPass s final) :
    final.result ≠ 0 := by
  have hfollows : Follows optionPass s
      { s with result := 1, arg := [], argi := 0, localPort := 0, inner := false } := by
    unfold Follows
    rw [optionPass_inner h.inner, innerPass, switchOption, if_pos (by rw [h.arg]; rfl),
      number_of_missing h]
    simp
  rw [exits_iff_of_follows hfollows, exits_of_error rfl one_ne_zero] at hexits
  rw [hexits]
  exact one_ne_zero

/-- Without its number `-l` sets the level to 0. -/
theorem exits_of_missing_level (h : AtOption s [108] []) :
    Exits optionPass s final ↔
      final = { s with arg := [], argi := 0, loglevel := 0, inner := false } := by
  have hport : ¬ charAt s.arg 1 = 112 := by
    rw [h.arg]
    decide
  have hfollows : Follows optionPass s
      { s with arg := [], argi := 0, loglevel := 0, inner := false } := by
    unfold Follows
    rw [optionPass_inner h.inner, innerPass, switchOption, if_neg hport, if_pos (by rw [h.arg]; rfl),
      number_of_missing h]
    simp [charAt, toInt32]
  rw [exits_iff_of_follows hfollows]
  exact exits_of_no_args rfl h.args

end Passes

/-! ## The grammar -/

section Grammar

variable {o : UInt8} {arg text : List UInt8} {rest : List (List UInt8)} {c d : Settings}

/-- No arguments say nothing. -/
theorem reads_nil_iff : Reads [] c d ↔ d = c := by
  constructor
  · rintro ⟨⟩
    rfl
  · rintro rfl
    exact .done d

/-- An argument that is no option says the URL. -/
theorem reads_url_iff (h : arg.head? ≠ some 45) :
    Reads (arg :: rest) c d ↔ Reads rest { c with serverUrl := arg.take (maxSmbUrl - 1) } d := by
  constructor
  · intro hreads
    cases hreads with
    | url _ hrest => exact hrest
    | own => exact absurd rfl h
    | next => exact absurd rfl h
    | level => exact absurd rfl h
  · exact fun hrest => .url h hrest

/-- An option with its number says what the number is, if there is nothing behind it. -/
theorem reads_own_iff (ho : isNumberOption o = true) (htext : text ≠ []) :
    Reads ((45 :: o :: text) :: rest) c d ↔
      behindNumber text = [] ∧ Reads rest (c.set o (numberIn text)) d := by
  constructor
  · intro hreads
    cases hreads with
    | url h => exact absurd rfl h
    | own _ _ hbehind hrest => exact ⟨hbehind, hrest⟩
    | next => exact absurd rfl htext
    | level => exact absurd rfl htext
  · rintro ⟨hbehind, hrest⟩
    exact .own ho htext hbehind hrest

/-- The same of an option with its number in the next argument. -/
theorem reads_next_iff (ho : isNumberOption o = true) :
    Reads ([45, o] :: text :: rest) c d ↔
      behindNumber text = [] ∧ Reads rest (c.set o (numberIn text)) d := by
  constructor
  · intro hreads
    cases hreads with
    | url h => exact absurd rfl h
    | own _ htext => exact absurd rfl htext
    | next _ hbehind hrest => exact ⟨hbehind, hrest⟩
  · rintro ⟨hbehind, hrest⟩
    exact .next ho hbehind hrest

/-- Of the options without a number only `l` says something, and at the end only. -/
theorem reads_missing_iff : Reads [[45, o]] c d ↔ o = 108 ∧ d = c.set 108 0 := by
  constructor
  · intro hreads
    cases hreads with
    | url h => exact absurd rfl h
    | own _ htext => exact absurd rfl htext
    | level => exact ⟨rfl, rfl⟩
  · rintro ⟨rfl, rfl⟩
    exact .level c

/-- An option of another kind says nothing that is read. -/
theorem not_reads_badSwitch (htext : ∀ o ∈ text.head?, isNumberOption o = false) :
    ¬ Reads ((45 :: text) :: rest) c d := by
  intro hreads
  have hnumber : ∀ {o : UInt8}, o ∈ text.head? → isNumberOption o = true → False := by
    intro o ho hnumber
    rw [htext o ho] at hnumber
    cases hnumber
  cases hreads with
  | url h => exact h rfl
  | own ho => exact hnumber rfl ho
  | next ho => exact hnumber rfl ho
  | level => exact hnumber rfl rfl

end Grammar

/-! ## All arguments -/

section Arguments

variable {s t : Options} {c d : Settings} {R R' : Settings → Prop}

/-- The loops come out without an error with these settings, and with all of them. -/
structure ComesWith (s : Options) (R : Settings → Prop) : Prop where
  sound : ∀ final, Exits optionPass s final → final.result = 0 → ∃ d, R d ∧ AsSet final d
  complete : ∀ d, R d → Succeeds s d

/-- The same settings, said in another way. -/
theorem comesWith_congr (h : ∀ d, R d ↔ R' d) (hcomes : ComesWith s R) : ComesWith s R' := by
  refine ⟨fun final hexits hresult => ?_, fun d hd => hcomes.complete d ((h d).mpr hd)⟩
  obtain ⟨d, hd, hset⟩ := hcomes.sound final hexits hresult
  exact ⟨d, (h d).mp hd, hset⟩

/-- What a loop comes with, it comes with from the next head. -/
theorem comesWith_of_follows (h : Follows optionPass s t) (hcomes : ComesWith t R) :
    ComesWith s R := by
  refine ⟨fun final hexits => hcomes.sound final ((exits_iff_of_follows h).mp hexits), fun d hd => ?_⟩
  obtain ⟨final, hexits, hfinal⟩ := hcomes.complete d hd
  exact ⟨final, (exits_iff_of_follows h).mpr hexits, hfinal⟩

/-- Where the loops come out at once. -/
theorem comesWith_of_exits {final : Options} (h : ∀ v, Exits optionPass s v ↔ v = final)
    (hresult : final.result = 0) (hset : AsSet final c) : ComesWith s (· = c) := by
  refine ⟨fun v hv _ => ⟨c, rfl, (h v).mp hv ▸ hset⟩, ?_⟩
  rintro d rfl
  exact ⟨final, (h final).mpr rfl, hresult, hset⟩

/-- Where the loops come out with an error, if at all. -/
theorem comesWith_of_error (h : ∀ final, Exits optionPass s final → final.result ≠ 0)
    (hnone : ∀ d, ¬ R d) : ComesWith s R :=
  ⟨fun final hexits hresult => absurd hresult (h final hexits), fun d hd => absurd hd (hnone d)⟩

/-- Where a number has been read, the text behind it and the arguments left decide. -/
theorem comesWith_number {o : UInt8} {left : List (List UInt8)} {text : List UInt8}
    (h : SetsNumber s t o left text) (hset : AsSet s c) (hnul : 0 ∉ text)
    (hleft : ∀ {c : Settings}, t.inner = false → AsSet t c → ComesWith t (Reads left c)) :
    ComesWith s fun d => behindNumber text = [] ∧ Reads left (c.set o (numberIn text)) d := by
  apply comesWith_of_follows h.goesOn.follows
  by_cases hempty : behindNumber text = []
  · refine comesWith_congr (fun d => (and_iff_right hempty).symm) (hleft ?_ (h.asSet hset))
    simp [h.goesOn.inner, hempty]
  · refine comesWith_of_error (fun final hexits => ?_) fun d hand => hempty hand.1
    exact exits_behind (behindNumber text) hempty (not_nul_behindNumber hnul)
      (by simp [h.goesOn.inner, hempty]) h.goesOn.result h.goesOn.argi h.goesOn.arg hexits

/-- At an option, if the shorter argument vectors are known. -/
theorem comesWith_option {text : List UInt8} {rest : List (List UInt8)}
    (h : AtOption s text rest) (hset : AsSet s c)
    (ih : ∀ {t : Options} {left : List (List UInt8)} {c : Settings}, left.length ≤ rest.length →
      AtArgs t left → AsSet t c → ComesWith t (Reads left c)) :
    ComesWith s (Reads ((45 :: text) :: rest) c) := by
  have hsecond : charAt s.arg 1 = charAt text 0 := by
    rw [h.arg]
    rfl
  cases text with
  | nil =>
      refine comesWith_of_error (fun final hexits => ?_)
        fun d => not_reads_badSwitch fun o ho => by cases ho
      refine error_of_badSwitch h.inner ?_ ?_ hexits
      · rw [hsecond]
        rfl
      · rw [hsecond]
        decide
  | cons o text =>
      cases ho : isNumberOption o with
      | false =>
          refine comesWith_of_error (fun final hexits => ?_)
            fun d => not_reads_badSwitch fun o' ho' => ?_
          · by_cases hflag : o = 120
            · -- at an `x` the loops do not come out
              refine absurd hexits.finishes
                (not_finishes_of_flag h.inner h.result (hsecond.trans hflag) ?_)
              rw [h.argi, hsecond]
              show o ≠ 0
              rw [hflag]
              decide
            · exact error_of_badSwitch h.inner (by rw [hsecond]; exact ho)
                (by rw [hsecond]; exact hflag) hexits
          · cases ho'
            exact ho
      | true =>
          by_cases htext : text = []
          · subst htext
            cases rest with
            | cons next rest =>
                obtain ⟨t, ht⟩ := setsNumber_next h ho
                refine comesWith_congr (fun d => (reads_next_iff ho).symm)
                  (comesWith_number ht hset (h.strings next List.mem_cons_self) ?_)
                exact fun hout hset' => ih (Nat.le_succ _) ⟨hout, ht.goesOn.result, ht.goesOn.args,
                  fun a ha => h.strings a (List.mem_cons_of_mem next ha)⟩ hset'
            | nil =>
                refine comesWith_congr (fun d => reads_missing_iff.symm) ?_
                rcases isNumberOption_iff.mp ho with rfl | rfl
                · exact comesWith_of_error (fun final hexits => error_of_missing_port h hexits)
                    fun d hand => absurd hand.1 (by decide)
                · refine comesWith_congr (fun d => (and_iff_right rfl).symm)
                    (comesWith_of_exits (fun v => exits_of_missing_level h) h.result ?_)
                  rw [set_level]
                  exact ⟨hset.localPort, rfl, hset.passthrough, hset.serverUrl, hset.fits⟩
          · obtain ⟨t, ht⟩ := setsNumber_own h ho htext
            refine comesWith_congr (fun d => (reads_own_iff ho htext).symm)
              (comesWith_number ht hset (fun hmem => h.string (List.mem_cons_of_mem o hmem)) ?_)
            exact fun hout hset' => ih le_rfl ⟨hout, ht.goesOn.result, ht.goesOn.args, h.strings⟩
              hset'

/-- An argument with a `-` is an option. -/
theorem follows_option {text : List UInt8} {rest : List (List UInt8)}
    (h : AtArgs s ((45 :: text) :: rest)) (hset : AsSet s c) :
    ∃ t, Follows optionPass s t ∧ AtOption t text rest ∧ AsSet t c := by
  have hnul := h.strings (45 :: text) List.mem_cons_self
  refine ⟨{ s with arg := 45 :: text, args := rest, argi := 1, inner := true }, ?_,
    ⟨rfl, h.result, rfl, rfl, rfl, fun hmem => hnul (List.mem_cons_of_mem _ hmem),
      fun a ha => h.strings a (List.mem_cons_of_mem _ ha)⟩,
    ⟨hset.localPort, hset.loglevel, hset.passthrough, hset.serverUrl, hset.fits⟩⟩
  have hfirst : charAt (45 :: text) 0 = 45 := rfl
  unfold Follows
  rw [optionPass_outer h.inner, outerPass, h.args]
  simp only [if_neg (not_not.mpr h.result), if_pos hfirst]

/-- Any other argument is a URL. -/
theorem follows_url {arg : List UInt8} {rest : List (List UInt8)} (h : AtArgs s (arg :: rest))
    (hurl : arg.head? ≠ some 45) (hset : AsSet s c) :
    ∃ t, Follows optionPass s t ∧ AtArgs t rest ∧
      AsSet t { c with serverUrl := arg.take (maxSmbUrl - 1) } := by
  have hnul := h.strings arg List.mem_cons_self
  have hlength : (arg.take (maxSmbUrl - 1)).length < maxSmbUrl := by
    rw [List.length_take]
    exact Nat.lt_of_le_of_lt (Nat.min_le_left _ _) (by decide)
  refine ⟨{ s with
      arg := arg
      args := rest
      serverUrl := (s.serverUrl.strncpy arg (maxSmbUrl - 1)).store (maxSmbUrl - 1) 0 }, ?_,
    ⟨h.inner, h.result, rfl, fun a ha => h.strings a (List.mem_cons_of_mem arg ha)⟩,
    ⟨hset.localPort, hset.loglevel, hset.passthrough, s.serverUrl.holds_truncated arg _, hlength,
      fun hmem => hnul (List.mem_of_mem_take hmem)⟩⟩
  have hfirst : charAt arg 0 ≠ 45 := by
    cases arg with
    | nil => decide
    | cons c arg =>
        intro hc
        exact hurl (congrArg some hc)
  unfold Follows
  rw [optionPass_outer h.inner, outerPass, h.args]
  simp only [if_neg (not_not.mpr h.result), if_neg hfirst]

/-- **From the head of the outer loop** the loops come out with what the arguments say. -/
theorem comesWith_reads {args : List (List UInt8)} (h : AtArgs s args) (hset : AsSet s c) :
    ComesWith s (Reads args c) := by
  induction hn : args.length using Nat.strongRecOn generalizing args s c with
  | _ n ih =>
      cases args with
      | nil =>
          exact comesWith_congr (fun d => reads_nil_iff.symm)
            (comesWith_of_exits (fun v => exits_of_no_args h.inner h.args) h.result hset)
      | cons arg rest =>
          have hlength : rest.length < n := by
            rw [← hn]
            exact Nat.lt_succ_self _
          by_cases hoption : arg.head? = some 45
          · obtain ⟨text, rfl⟩ : ∃ text, arg = 45 :: text :=
              ⟨arg.tail, (List.cons_head?_tail hoption).symm⟩
            obtain ⟨t, hfollows, ht, hset'⟩ := follows_option h hset
            refine comesWith_of_follows hfollows (comesWith_option ht hset' ?_)
            exact fun hle hleft hset'' => ih _ (by omega) hleft hset'' rfl
          · obtain ⟨t, hfollows, ht, hset'⟩ := follows_url h hoption hset
            refine comesWith_of_follows hfollows ?_
            exact comesWith_congr (fun d => (reads_url_iff hoption).symm) (ih _ hlength ht hset' rfl)

/-- The loops start with the settings that hold without arguments. -/
theorem asSet_init (args : List (List UInt8)) : AsSet (Options.init args) .default :=
  ⟨rfl, rfl, rfl, ⟨fun i hi => absurd hi (Nat.not_lt_zero i), rfl⟩, by decide, List.not_mem_nil⟩

/-- The variables are of one setting. -/
theorem asSet_unique (h : AsSet s c) (h' : AsSet s d) : d = c := by
  obtain ⟨port, level, url⟩ := c
  obtain ⟨port', level', url'⟩ := d
  have hport : port' = port := calc
    port' = s.localPort := h'.localPort.symm
    _ = port := h.localPort
  have hlevel : level' = level := calc
    level' = s.loglevel := h'.loglevel.symm
    _ = level := h.loglevel
  have hurl : url' = url := h'.serverUrl.unique h.serverUrl h'.fits.2 h.fits.2
  rw [hport, hlevel, hurl]

/-- **What a command line says.** The option loops come out without an error if and only if the
arguments are of the grammar, and with the settings that they say. -/
theorem command_line_iff (args : List (List UInt8)) (hnul : ∀ arg ∈ args, 0 ∉ arg) (d : Settings) :
    Succeeds (Options.init args) d ↔ Reads args .default d := by
  have hcomes := comesWith_reads (atArgs_init hnul) (asSet_init args)
  refine ⟨?_, hcomes.complete d⟩
  rintro ⟨final, hexits, hresult, hset⟩
  obtain ⟨d', hreads, hset'⟩ := hcomes.sound final hexits hresult
  rw [asSet_unique hset' hset]
  exact hreads

/-- `-p4450 a -l 0x2 b -l`: the last URL counts, and the level is 0 in the end. -/
theorem command_line_iff_twice :
    Succeeds (Options.init [ascii ['-', 'p', '4', '4', '5', '0'], ascii ['a'], ascii ['-', 'l'],
      ascii ['0', 'x', '2'], ascii ['b'], ascii ['-', 'l']]) ⟨4450, 0, ascii ['b']⟩ := by
  refine (command_line_iff _ (by decide) _).mpr ?_
  refine .own rfl (by decide) (by decide) (.url (by decide) (.next rfl (by decide)
    (.url (by decide) ?_)))
  exact .level _

end Arguments

end SmbProxy.Analysis
