import Mathlib.Data.List.GetD
import Mathlib.Logic.Equiv.Fin.Basic
import SmbProxy.Interface.Schemes

/-!
# Registered schemes

Registrations fill the table from its first slot on (`filled_run`), and a query that is not
built in finds the first slot with a name it begins with (`butilSchemeFromName_user_iff`). So a
name is found again unless another one that it begins with was registered before it, and a
query that goes on behind a registered name is not rejected.
-/

set_option autoImplicit false

namespace SmbProxy.Analysis

open SmbProxy.Library SmbProxy.Model SmbProxy.Interface

/-! ## The table -/

section Table

variable {r : Registry} {names : List (List UInt8)} {name : List UInt8}

/-- The names are in the table in the order of their registration. -/
structure Filled (r : Registry) (names : List (List UInt8)) : Prop where
  slot : ∀ n : Fin 4, r.users n = names.getD n []
  registered : ∀ name scheme,
    (name, scheme) ∈ r.registered ↔ ∃ n : Fin 4, names[n.1]? = some name ∧ scheme = .user n

/-- The table is empty at first. -/
theorem filled_empty : Filled emptyRegistry [] where
  slot _ := rfl
  registered name scheme := by simp [emptyRegistry]

/-- The next name goes into the slot behind the others. -/
theorem filled_registerStep (h : Filled r names) (hsized : ∀ name ∈ names, name ≠ [])
    (hroom : names.length < 4) (hname : name.length < maxUrlScheme) :
    Filled (registerStep r name) (names ++ [name]) := by
  have hfree : (List.finRange 4).find? (fun n => decide (r.users n = [])) =
      some ⟨names.length, hroom⟩ := by
    rw [← Fin.find?_eq_find?_finRange, Fin.find?_eq_some_iff]
    constructor
    · rw [h.slot]
      simp
    · intro n hn
      have hlt : n.1 < names.length := hn
      rw [h.slot, List.getD_eq_getElem _ _ hlt, decide_eq_false_iff_not]
      exact hsized _ (List.getElem_mem hlt)
  have htake : name.take (maxUrlScheme - 1) = name :=
    List.take_of_length_le (Nat.le_sub_one_of_lt hname)
  have hstep : registerStep r name =
      ⟨Function.update r.users ⟨names.length, hroom⟩ name,
        (name, .user ⟨names.length, hroom⟩) :: r.registered⟩ := by
    unfold registerStep butilRegisterScheme
    simp only [hfree, htake]
  rw [hstep]
  refine ⟨fun n => ?_, fun name' scheme => ?_⟩
  · by_cases hn : n = ⟨names.length, hroom⟩
    · rw [hn]
      simp
    · show Function.update r.users ⟨names.length, hroom⟩ name n = _
      have hne : n.1 ≠ names.length := fun heq => hn (Fin.ext heq)
      rw [Function.update_of_ne hn, h.slot]
      simp only [List.getD_eq_getElem?_getD]
      by_cases hlt : n.1 < names.length
      · rw [List.getElem?_append_left hlt]
      · rw [List.getElem?_eq_none (by omega), List.getElem?_eq_none (by simp; omega)]
  · show (name', scheme) ∈ (name, ButilUrlScheme.user ⟨names.length, hroom⟩) :: r.registered ↔ _
    rw [List.mem_cons, h.registered]
    constructor
    · rintro (hnew | ⟨n, hn, hscheme⟩)
      · obtain ⟨rfl, rfl⟩ := Prod.mk.inj hnew
        exact ⟨⟨names.length, hroom⟩, by simp, rfl⟩
      · have hlt := (List.getElem?_eq_some_iff.mp hn).1
        exact ⟨n, by rw [List.getElem?_append_left hlt, hn], hscheme⟩
    · rintro ⟨n, hn, hscheme⟩
      by_cases hlt : n.1 < names.length
      · rw [List.getElem?_append_left hlt] at hn
        exact Or.inr ⟨n, hn, hscheme⟩
      · have hle := (List.getElem?_eq_some_iff.mp hn).1
        rw [List.length_append, List.length_singleton] at hle
        have hlast : n.1 = names.length := by omega
        have hn' : n = ⟨names.length, hroom⟩ := Fin.ext hlast
        rw [hlast] at hn
        simp only [List.getElem?_concat_length, Option.some.injEq] at hn
        exact Or.inl (by rw [hn, hscheme, hn'])

/-- More names that fit fill the next slots. -/
theorem filled_run (h : Filled r names) (more : List (List UInt8))
    (hsized : ∀ name ∈ names ++ more, name ≠ [] ∧ name.length < maxUrlScheme)
    (hroom : (names ++ more).length ≤ 4) : Filled (run registerStep r more) (names ++ more) := by
  induction more generalizing r names with
  | nil => rwa [List.append_nil]
  | cons name more ih =>
      rw [List.length_append, List.length_cons] at hroom
      have hstep : Filled (registerStep r name) (names ++ [name]) := by
        apply filled_registerStep h
        · exact fun other hother => (hsized other (List.mem_append_left _ hother)).1
        · omega
        · exact (hsized name (List.mem_append_right _ List.mem_cons_self)).2
      have happend : names ++ name :: more = names ++ [name] ++ more := by simp
      rw [run_cons, happend]
      apply ih hstep
      · rwa [← happend]
      · rw [← happend, List.length_append, List.length_cons]
        exact hroom

/-- The names that are registered fill the table in their order. -/
theorem filled_registry (h : RegisterNames names) : Filled (registry names) names :=
  filled_run filled_empty names h.sized h.few

/-- Whatever is registered, the table holds strings that fit. -/
theorem storedNames_registry (hnul : ∀ name ∈ names, 0 ∉ name) :
    StoredNames (registry names).users := by
  have hstep : ∀ (r : Registry) (name : List UInt8), StoredNames r.users → 0 ∉ name →
      StoredNames (registerStep r name).users := by
    intro r name h hname
    unfold registerStep butilRegisterScheme
    cases (List.finRange 4).find? (fun n => decide (r.users n = [])) with
    | none => exact h
    | some k =>
        intro n
        show (Function.update r.users k (name.take (maxUrlScheme - 1)) n).length < maxUrlScheme ∧
          0 ∉ Function.update r.users k (name.take (maxUrlScheme - 1)) n
        by_cases hn : n = k
        · rw [hn, Function.update_self, List.length_take]
          refine ⟨?_, fun hmem => hname (List.mem_of_mem_take hmem)⟩
          have hmax : maxUrlScheme - 1 < maxUrlScheme := by decide
          omega
        · rw [Function.update_of_ne hn]
          exact h n
  have hempty : StoredNames emptyRegistry.users := fun n => by simp [emptyRegistry, maxUrlScheme]
  unfold registry
  generalize emptyRegistry = r at hempty
  induction names generalizing r with
  | nil => exact hempty
  | cons name names ih =>
      rw [run_cons]
      apply ih (fun other hother => hnul other (List.mem_cons_of_mem _ hother))
      exact hstep r name hempty (hnul name List.mem_cons_self)

end Table

/-! ## The search -/

section Search

variable {users : UserSchemes} {query query' : List UInt8}

/-- A stored name that the query begins with. -/
def QueryBegins (users : UserSchemes) (query : List UInt8) (n : Fin 4) : Prop :=
  users n ≠ [] ∧ (users n).map tolower <+: query.map tolower

/-- A comparison up to the length of a string says whether it is a prefix. -/
theorem strncasecmp_eq_zero (s t : List UInt8) :
    strncasecmp s t t.length = 0 ↔ t.map tolower <+: s.map tolower := by
  unfold strncasecmp
  rw [strcasecmp_eq_zero, List.take_length, List.prefix_iff_eq_take, List.length_map,
    List.map_take]
  exact eq_comm

/-- The letter case of a name does not matter to the search. -/
theorem find_schemeNames (name : List UInt8) :
    (schemeNames.find? fun entry => strcasecmp name entry.1 = 0) =
      schemeNames.find? fun entry => name.map tolower = entry.1.map tolower := by
  congr 1
  funext entry
  exact decide_eq_decide.mpr (strcasecmp_eq_zero name entry.1)

/-- A query is answered whatever the case of its letters. -/
theorem butilSchemeFromName_congr (h : SameName query query') :
    butilSchemeFromName users query = butilSchemeFromName users query' := by
  have hlower : query.map tolower = query'.map tolower := h
  have huser : ((List.finRange 4).find? fun n => decide (users n ≠ [] ∧
      strncasecmp query (users n) (users n).length = 0)) =
      (List.finRange 4).find? fun n => decide (users n ≠ [] ∧
        strncasecmp query' (users n) (users n).length = 0) := by
    congr 1
    funext n
    rw [decide_eq_decide, strncasecmp_eq_zero, strncasecmp_eq_zero, h]
  unfold butilSchemeFromName
  rw [find_schemeNames, find_schemeNames, hlower, huser]

/-- A query that is not built in finds the first name that it begins with. -/
theorem butilSchemeFromName_foreign (h : ¬ BuiltIn query) :
    butilSchemeFromName users query =
      ((List.finRange 4).find? fun n => decide (users n ≠ [] ∧
        strncasecmp query (users n) (users n).length = 0)).map .user := by
  have hnone : (schemeNames.find? fun entry => decide (strcasecmp query entry.1 = 0)) = none := by
    rw [List.find?_eq_none]
    intro entry hentry hfound
    apply h
    refine ⟨entry.1, List.mem_append_left _ (List.mem_map_of_mem hentry), ?_⟩
    exact (strcasecmp_eq_zero query entry.1).mp (of_decide_eq_true hfound)
  unfold butilSchemeFromName
  rw [hnone]

/-- The first stored name that the query begins with is found. -/
theorem butilSchemeFromName_user_iff (h : ¬ BuiltIn query) (n : Fin 4) :
    butilSchemeFromName users query = some (.user n) ↔
      QueryBegins users query n ∧ ∀ m < n, ¬ QueryBegins users query m := by
  rw [butilSchemeFromName_foreign h, Option.map_eq_some_iff]
  have hfind : ∀ k : Fin 4, ((List.finRange 4).find? fun n => decide (users n ≠ [] ∧
      strncasecmp query (users n) (users n).length = 0)) = some k ↔
      QueryBegins users query k ∧ ∀ m < k, ¬ QueryBegins users query m := by
    intro k
    rw [← Fin.find?_eq_find?_finRange, Fin.find?_eq_some_iff]
    simp only [strncasecmp_eq_zero, decide_eq_true_eq, decide_eq_false_iff_not]
    rfl
  constructor
  · rintro ⟨k, hk, heq⟩
    obtain rfl : k = n := ButilUrlScheme.user.inj heq
    exact (hfind k).mp hk
  · exact fun hfirst => ⟨n, (hfind n).mpr hfirst, rfl⟩

/-- It finds nothing if it begins with no name. -/
theorem butilSchemeFromName_none_iff (h : ¬ BuiltIn query) :
    butilSchemeFromName users query = none ↔ ∀ n, ¬ QueryBegins users query n := by
  rw [butilSchemeFromName_foreign h, Option.map_eq_none_iff, List.find?_eq_none]
  simp only [strncasecmp_eq_zero, decide_eq_true_eq, List.mem_finRange, true_implies]
  rfl

end Search

/-! ## Queries -/

section Queries

variable {r : Registry} {names : List (List UInt8)} {name query : List UInt8}

/-- No two names in the sequence are the same. -/
theorem index_unique (h : RegisterNames names) {i j : ℕ} {name name' : List UInt8}
    (hi : names[i]? = some name) (hj : names[j]? = some name') (hsame : SameName name name') :
    i = j := by
  obtain ⟨hi', rfl⟩ := List.getElem?_eq_some_iff.mp hi
  obtain ⟨hj', rfl⟩ := List.getElem?_eq_some_iff.mp hj
  have hdistinct := List.pairwise_iff_getElem.mp h.distinct
  rcases Nat.lt_trichotomy i j with hlt | heq | hgt
  · exact absurd hsame (hdistinct i j hi' hj' hlt)
  · exact heq
  · exact absurd (Eq.symm hsame) (hdistinct j i hj' hi' hgt)

/-- The stored names that a query begins with are names of the sequence. -/
theorem begins_iff (h : RegisterNames names) (hfilled : Filled r names) (n : Fin 4) :
    QueryBegins r.users query n ↔
      ∃ name, names[n.1]? = some name ∧ name.map tolower <+: query.map tolower := by
  unfold QueryBegins
  rw [hfilled.slot, List.getD_eq_getElem?_getD]
  cases hn : names[n.1]? with
  | none => simp
  | some name =>
      have hne := (h.sized name (List.mem_of_getElem? hn)).1
      simp [hne]

/-- A slot with a name that the query begins with and goes on behind, before any slot with
the query itself, shadows it. -/
theorem shadowed_of_begins {k : ℕ} (hn : names[k]? = some name)
    (hbegins : name.map tolower <+: query.map tolower) (hdiffers : ¬ SameName name query)
    (hbefore : ∀ j other, j < k → names[j]? = some other → ¬ SameName other query) :
    Shadowed names query := by
  obtain ⟨hk, rfl⟩ := List.getElem?_eq_some_iff.mp hn
  refine ⟨names.take k, names[k], names.drop (k + 1), ?_, hbegins, hdiffers, ?_⟩
  · rw [← List.drop_eq_getElem_cons hk, List.take_append_drop]
  · intro other hother
    obtain ⟨j, hj, rfl⟩ := List.mem_take_iff_getElem.mp hother
    exact hbefore j _ (by omega) (List.getElem?_eq_getElem (by omega))

/-- A shadowed query finds the name that shadows it, or one before that. -/
theorem not_shadowed_of_foundAgain (h : RegisterNames names) (hfilled : Filled r names)
    (hquery : ¬ BuiltIn query) (hfound : FoundAgain r query) : ¬ Shadowed names query := by
  rintro ⟨before, name, after, rfl, hbegins, hdiffers, hothers⟩
  have hlength : before.length < 4 := by
    have hfew := h.few
    rw [List.length_append, List.length_cons] at hfew
    omega
  have hname : (before ++ name :: after)[before.length]? = some name := by simp
  have hhere : QueryBegins r.users query ⟨before.length, hlength⟩ :=
    (begins_iff h hfilled _).mpr ⟨name, hname, hbegins⟩
  by_cases hregistered : ∃ other scheme, (other, scheme) ∈ r.registered ∧ SameName other query
  · obtain ⟨other, scheme, hmem, hsame⟩ := hregistered
    have hscheme := (hfound.found other scheme hmem hsame).2
    obtain ⟨n, hn, rfl⟩ := (hfilled.registered other scheme).mp hmem
    have hfirst := ((butilSchemeFromName_user_iff hquery n).mp hscheme).2
    rcases Nat.lt_trichotomy n.1 before.length with hlt | heq | hgt
    · rw [List.getElem?_append_left hlt] at hn
      exact hothers other (List.mem_of_getElem? hn) hsame
    · rw [heq, hname] at hn
      cases hn
      exact hdiffers hsame
    · exact hfirst ⟨before.length, hlength⟩ hgt hhere
  · have hnone := hfound.rejected hquery fun other scheme hmem hsame =>
      hregistered ⟨other, scheme, hmem, hsame⟩
    exact (butilSchemeFromName_none_iff hquery).mp hnone _ hhere

/-- A registered scheme has its name. -/
theorem butilSchemeName_registered (h : RegisterNames names) (hfilled : Filled r names) {n : Fin 4}
    (hn : names[n.1]? = some name) : butilSchemeName r.users (.user n) = name := by
  have hslot : r.users n = name := by
    rw [hfilled.slot, List.getD_eq_getElem?_getD, hn]
    rfl
  show (if r.users n ≠ [] then r.users n else ascii ['?', '?', '?', '?']) = name
  rw [hslot, if_pos (h.sized name (List.mem_of_getElem? hn)).1]

/-- A registered name that nothing shadows is found. -/
theorem found_of_not_shadowed (h : RegisterNames names) (hfilled : Filled r names)
    (hquery : ¬ BuiltIn query) (hclear : ¬ Shadowed names query) {n : Fin 4}
    (hn : names[n.1]? = some name) (hsame : SameName name query) :
    butilSchemeFromName r.users query = some (.user n) := by
  -- only the slot of the name itself is the query
  have honly : ∀ j other, j < n.1 → names[j]? = some other → ¬ SameName other query := by
    intro j other hj hother hsame'
    exact Nat.ne_of_lt hj (index_unique h hother hn (hsame'.trans hsame.symm))
  rw [butilSchemeFromName_user_iff hquery]
  refine ⟨(begins_iff h hfilled n).mpr ⟨name, hn, hsame ▸ List.prefix_rfl⟩, ?_⟩
  intro m hm hbegins
  obtain ⟨other, hother, hbegins⟩ := (begins_iff h hfilled m).mp hbegins
  apply hclear
  exact shadowed_of_begins hother hbegins (honly m other hm hother) fun j other' hj =>
    honly j other' (Nat.lt_trans hj hm)

/-- A query that is not registered and that nothing shadows is rejected. -/
theorem rejected_of_not_shadowed (h : RegisterNames names) (hfilled : Filled r names)
    (hquery : ¬ BuiltIn query) (hclear : ¬ Shadowed names query)
    (hnone : ∀ name scheme, (name, scheme) ∈ r.registered → ¬ SameName name query) :
    butilSchemeFromName r.users query = none := by
  rw [butilSchemeFromName_none_iff hquery]
  intro n hbegins
  obtain ⟨name, hn, hbegins⟩ := (begins_iff h hfilled n).mp hbegins
  have hdiffers : ∀ j other, j ≤ n.1 → names[j]? = some other → ¬ SameName other query := by
    intro j other hj hother
    apply hnone other (.user ⟨j, by omega⟩)
    exact (hfilled.registered _ _).mpr ⟨_, hother, rfl⟩
  apply hclear
  exact shadowed_of_begins hn hbegins (hdiffers n name (Nat.le_refl _) hn) fun j other hj =>
    hdiffers j other (Nat.le_of_lt hj)

/-- A query is answered as promised iff no name shadows it. -/
theorem foundAgain_iff_of_foreign (h : RegisterNames names) (hfilled : Filled r names)
    (hquery : ¬ BuiltIn query) : FoundAgain r query ↔ ¬ Shadowed names query := by
  constructor
  · exact not_shadowed_of_foundAgain h hfilled hquery
  · intro hclear
    constructor
    · intro name scheme hmem hsame
      obtain ⟨n, hn, rfl⟩ := (hfilled.registered name scheme).mp hmem
      exact ⟨butilSchemeName_registered h hfilled hn,
        found_of_not_shadowed h hfilled hquery hclear hn hsame⟩
    · intro _ hnone
      exact rejected_of_not_shadowed h hfilled hquery hclear hnone

/-- Nothing is promised of a query that is built in. -/
theorem foundAgain_builtIn (h : RegisterNames names) (hfilled : Filled r names)
    (hquery : BuiltIn query) : FoundAgain r query where
  found name scheme hmem hsame := by
    obtain ⟨n, hn, -⟩ := (hfilled.registered name scheme).mp hmem
    obtain ⟨builtin, hbuiltin, hsame'⟩ := hquery
    exact absurd ⟨builtin, hbuiltin, hsame.trans hsame'⟩ (h.foreign name (List.mem_of_getElem? hn))
  rejected hforeign _ := absurd hquery hforeign

/-- What goes on behind a registered name is shadowed by it. -/
theorem exists_shadowed (name : List UInt8) (names : List (List UInt8)) :
    ∃ query, ¬ BuiltIn query ∧ Shadowed (name :: names) query := by
  refine ⟨name ++ List.replicate maxUrlScheme 120, ?_, [], name, names, rfl, ?_, ?_, ?_⟩
  · rintro ⟨builtin, hbuiltin, hsame⟩
    have hshort : ∀ builtin ∈ builtinNames, builtin.length < maxUrlScheme := by decide
    have hlength := congrArg List.length hsame
    have hlt := hshort builtin hbuiltin
    simp only [List.length_map, List.length_append, List.length_replicate] at hlength
    omega
  · rw [List.map_append]
    exact List.prefix_append _ _
  · intro hsame
    have hlength := congrArg List.length hsame
    simp [maxUrlScheme] at hlength
  · intro other hother
    cases hother

/-- **Registered schemes are found again, and only they**, by every query that no name
shadows. If anything is registered, there are queries that are shadowed. -/
theorem found_again_iff (h : RegisterNames names) :
    (∀ query, FoundAgain (registry names) query ↔ BuiltIn query ∨ ¬ Shadowed names query) ∧
      ((∀ query, FoundAgain (registry names) query) ↔ names = []) := by
  have hfilled := filled_registry h
  have hquery : ∀ query,
      FoundAgain (registry names) query ↔ BuiltIn query ∨ ¬ Shadowed names query := by
    intro query
    by_cases hbuiltin : BuiltIn query
    · exact iff_of_true (foundAgain_builtIn h hfilled hbuiltin) (Or.inl hbuiltin)
    · rw [foundAgain_iff_of_foreign h hfilled hbuiltin, or_iff_right hbuiltin]
  refine ⟨hquery, ?_, ?_⟩
  · intro hall
    cases names with
    | nil => rfl
    | cons name names =>
        obtain ⟨query, hforeign, hshadowed⟩ := exists_shadowed name names
        cases (hquery query).mp (hall query) with
        | inl hbuiltin => exact absurd hbuiltin hforeign
        | inr hclear => exact absurd hshadowed hclear
  · rintro rfl query
    apply (hquery query).mpr
    refine Or.inr ?_
    rintro ⟨before, name, after, hnames, -⟩
    simp at hnames

/-- `abc` and its beginning `ab` are registered, in this order, and both are found again. -/
theorem found_again_both :
    let names := [ascii ['a', 'b', 'c'], ascii ['a', 'b']]
    FoundAgain (registry names) (ascii ['A', 'B', 'c']) ∧
      FoundAgain (registry names) (ascii ['A', 'b']) := by
  intro names
  have hnames : RegisterNames names := ⟨by decide, by decide, by decide, by decide⟩
  have hquery := (found_again_iff hnames).1
  refine ⟨(hquery _).mpr (Or.inr ?_), (hquery _).mpr (Or.inr ?_)⟩
  · -- nothing stands before `abc`, and behind it only a name that comes too late
    rintro ⟨before, name, after, heq, -, hdiffers, hbefore⟩
    cases before with
    | nil =>
        obtain ⟨rfl, -⟩ := List.cons_eq_cons.mp heq
        exact hdiffers rfl
    | cons other before =>
        obtain ⟨rfl, -⟩ := List.cons_eq_cons.mp heq
        exact hbefore _ List.mem_cons_self rfl
  · rintro ⟨before, name, after, heq, hbegins, hdiffers, -⟩
    have hname : name ∈ names := heq ▸ List.mem_append_right _ List.mem_cons_self
    rcases List.mem_pair.mp hname with rfl | rfl
    · exact absurd hbegins (by decide)
    · exact hdiffers rfl

/-- With `ab` registered, `abc` is not rejected. -/
theorem not_found_again_tail :
    ¬ ∀ query, FoundAgain (registry [ascii ['a', 'b']]) query := by
  intro hall
  have hfound : butilSchemeFromName (registry [ascii ['a', 'b']]).users (ascii ['a', 'b', 'c']) =
      none := by
    apply (hall (ascii ['a', 'b', 'c'])).rejected (by decide)
    intro name scheme hmem hsame
    obtain ⟨rfl, -⟩ := Prod.mk.inj (List.mem_singleton.mp hmem)
    cases hsame
  cases hfound

end Queries

end SmbProxy.Analysis
