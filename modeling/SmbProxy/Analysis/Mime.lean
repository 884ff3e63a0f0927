import SmbProxy.Interface.Mime
import Mathlib.Data.List.GetD

/-!
# When the MIME lookups agree

The scan for the last dot finds the text behind it (`extension_eq_some_iff`), and the search
for an extension finds an entry that it names. What then decides is a fact about every entry
of the table: its type leads to its string (`mimeString_type`), and its string leads back to
itself unless an earlier entry's string is a prefix of it (`mimeString_back_iff`).
-/

set_option autoImplicit false

namespace SmbProxy.Analysis

open SmbProxy.Library SmbProxy.Model SmbProxy.Interface

/-! ## The last dot -/

section LastDot

variable {path text before : List UInt8}

/-- Behind where the scan ends there is no dot. -/
theorem scanDot_spec (path : List UInt8) (i : ℕ) :
    scanDot path i ≤ i ∧ ∀ j, scanDot path i < j → j ≤ i → path.getD j 0 ≠ 46 := by
  induction i with
  | zero => exact ⟨le_rfl, fun j hj hle => absurd hle (by omega)⟩
  | succ i ih =>
      rw [scanDot]
      by_cases hdot : path.getD (i + 1) 0 = 46
      · rw [if_pos hdot]
        exact ⟨le_rfl, fun j hj hle => absurd hle (by omega)⟩
      · rw [if_neg hdot]
        refine ⟨Nat.le_succ_of_le ih.1, fun j hj hle => ?_⟩
        by_cases hlast : j = i + 1
        · rw [hlast]
          exact hdot
        · exact ih.2 j hj (by omega)

/-- Behind the first part of a path come the dot and the extension. -/
theorem getD_before (i : ℕ) :
    (before ++ 46 :: text).getD (before.length + i) 0 = (46 :: text).getD i 0 := by
  rw [List.getD_eq_getElem?_getD, List.getD_eq_getElem?_getD,
    List.getElem?_append_right (Nat.le_add_right _ _), Nat.add_sub_cancel_left]

/-- There is the dot. -/
theorem getD_dot : (before ++ 46 :: text).getD before.length 0 = 46 := getD_before 0

/-- The scan ends at the last dot. -/
theorem scanDot_last (htext : 46 ∉ text) (k : ℕ) :
    scanDot (before ++ 46 :: text) (before.length + k) = before.length := by
  induction k with
  | zero =>
      rw [Nat.add_zero]
      cases hlength : before.length with
      | zero => rfl
      | succ n =>
          have hdot := @getD_dot text before
          rw [hlength] at hdot
          rw [scanDot, if_pos hdot]
  | succ k ih =>
      have hnot : (before ++ 46 :: text).getD (before.length + (k + 1)) 0 ≠ 46 := by
        rw [getD_before, List.getD_cons_succ]
        intro hdot
        by_cases hk : k < text.length
        · rw [List.getD_eq_getElem _ _ hk] at hdot
          exact htext (hdot ▸ List.getElem_mem hk)
        · rw [List.getD_eq_getElem?_getD, List.getElem?_eq_none (by omega)] at hdot
          cases hdot
      rw [← Nat.add_assoc] at hnot ⊢
      rw [scanDot, if_neg hnot, ih]

/-- **The extension is the text behind the last dot.** -/
theorem extension_eq_some_iff :
    extension path = some text ↔ ∃ before, path = before ++ 46 :: text ∧ 46 ∉ text := by
  constructor
  · intro h
    unfold extension at h
    dsimp only at h
    obtain ⟨hle, hbehind⟩ := scanDot_spec path (path.length - 1)
    generalize scanDot path (path.length - 1) = k at h hle hbehind
    by_cases hdot : path.getD k 0 = 46
    · rw [if_neg (not_not.mpr hdot)] at h
      cases h
      have hk : k < path.length := by
        by_contra hge
        rw [List.getD_eq_getElem?_getD, List.getElem?_eq_none (by omega)] at hdot
        cases hdot
      have hcell : path[k] = 46 := by
        rw [← hdot, List.getD_eq_getElem _ _ hk]
      refine ⟨path.take k, ?_, fun hmem => ?_⟩
      · rw [← hcell, List.getElem_cons_drop hk, List.take_append_drop]
      · obtain ⟨i, hi, hat⟩ := List.getElem_of_mem hmem
        rw [List.length_drop] at hi
        rw [List.getElem_drop] at hat
        apply hbehind (k + 1 + i) (by omega) (by omega)
        rw [List.getD_eq_getElem _ _ (by omega)]
        exact hat
    · rw [if_pos hdot] at h
      cases h
  · rintro ⟨before, rfl, htext⟩
    have hlength : (before ++ 46 :: text).length - 1 = before.length + text.length := by
      rw [List.length_append, List.length_cons]
      omega
    unfold extension
    dsimp only
    rw [hlength, scanDot_last htext, if_neg (not_not.mpr getD_dot)]
    congr 1
    rw [List.drop_append, List.drop_eq_nil_of_le (Nat.le_succ _), Nat.add_sub_cancel_left]
    rfl

end LastDot

/-! ## The table -/

section Table

/-- Every type leads to the string of its entries. -/
theorem mimeString_type : ∀ entry ∈ sMimetab,
    butilMimeStringForContentType entry.type = cstring entry.mime := by
  decide +kernel

/-- Every string leads back to itself, those of the shadowed extensions apart. -/
theorem mimeString_back_iff : ∀ entry ∈ sMimetab,
    (butilMimeStringForContentType
        (butilContentTypeForMimeString (some (cstring entry.mime))) = cstring entry.mime ↔
      ∀ ext ∈ shadowedExtensions,
        strcasecmp ((cstring entry.ext).drop 1) ((cstring ext).drop 1) ≠ 0) := by
  decide +kernel

/-- The two defaults are not the same. -/
theorem default_ne : butilMimeStringForContentType .bin ≠ cstring defaultMime := by
  decide +kernel

/-- Two extensions with the same name are the same for `strcasecmp`. -/
theorem namesExtension_congr {text : List UInt8} {ext ext' : String}
    (h : NamesExtension text ext) :
    NamesExtension text ext' ↔ strcasecmp ((cstring ext).drop 1) ((cstring ext').drop 1) = 0 := by
  unfold NamesExtension at h ⊢
  rw [strcasecmp_eq_zero] at h ⊢
  rw [strcasecmp_eq_zero, h]

/-- There is no entry for an extension that the table does not name. -/
theorem entryForExtension_eq_none_iff (text : List UInt8) :
    entryForExtension text = none ↔ ¬ ∃ entry ∈ sMimetab, NamesExtension text entry.ext := by
  unfold entryForExtension
  rw [List.find?_eq_none]
  simp [NamesExtension]

/-- An entry that is found is in the table, and names the extension. -/
theorem mem_of_entryForExtension {text : List UInt8} {entry : ButilMimeEntry}
    (h : entryForExtension text = some entry) :
    entry ∈ sMimetab ∧ NamesExtension text entry.ext := by
  unfold entryForExtension at h
  refine ⟨List.mem_of_find?_eq_some h, ?_⟩
  have hfound := List.find?_some h
  unfold NamesExtension
  exact of_decide_eq_true hfound

end Table

/-! ## Paths -/

section Paths

variable {path : List UInt8}

/-- The entry that both lookups for a file find, if any. -/
def pathEntry (path : List UInt8) : Option ButilMimeEntry := (extension path).bind entryForExtension

/-- With an entry both calls answer from it. -/
theorem lookups_of_entry (hne : path ≠ []) {entry : ButilMimeEntry}
    (h : pathEntry path = some entry) :
    butilMimeStringForFile (some path) = cstring entry.mime ∧
      butilContentTypeForFile (some path) = entry.type := by
  unfold pathEntry at h
  simp only [butilMimeStringForFile, butilContentTypeForFile, if_neg hne, h, and_self]

/-- Without one both calls answer with their default. -/
theorem lookups_of_none (h : pathEntry path = none) :
    butilMimeStringForFile (some path) = cstring defaultMime ∧
      butilContentTypeForFile (some path) = .bin := by
  unfold pathEntry at h
  by_cases hempty : path = []
  · simp only [butilMimeStringForFile, butilContentTypeForFile, if_pos hempty, and_self]
  · simp only [butilMimeStringForFile, butilContentTypeForFile, if_neg hempty, h, and_self]

/-- **When the lookups agree**: if and only if the path has an extension of the table whose
string does not begin with the string of an earlier entry. -/
theorem lookups_agree_iff (path : List UInt8) : LookupsAgree path ↔ HasPlainExtension path := by
  cases hentry : pathEntry path with
  | none =>
      obtain ⟨hmime, htype⟩ := lookups_of_none hentry
      refine iff_of_false ?_ ?_
      · intro h
        have hfile := h.forFile
        rw [hmime, htype] at hfile
        exact default_ne hfile
      · rintro ⟨before, text, hpath, htext, hknown, -⟩
        have hextension := extension_eq_some_iff.mpr ⟨before, hpath, htext⟩
        rw [pathEntry, hextension, Option.bind_some, entryForExtension_eq_none_iff] at hentry
        exact hentry hknown
  | some entry =>
      obtain ⟨text, hextension, hfound⟩ := Option.bind_eq_some_iff.mp hentry
      obtain ⟨before, hpath, htext⟩ := extension_eq_some_iff.mp hextension
      have hne : path ≠ [] := by simp [hpath]
      obtain ⟨hmime, htype⟩ := lookups_of_entry hne hentry
      obtain ⟨hmem, hnames⟩ := mem_of_entryForExtension hfound
      have hback := mimeString_back_iff entry hmem
      constructor
      · intro h
        have hstring := h.back
        rw [hmime, hback] at hstring
        refine ⟨before, text, hpath, htext, ⟨entry, hmem, hnames⟩, fun ext hext => ?_⟩
        rw [namesExtension_congr hnames]
        exact hstring ext hext
      · rintro ⟨before', text', hpath', htext', -, hplain⟩
        have hsame := extension_eq_some_iff.mpr ⟨before', hpath', htext'⟩
        rw [hextension] at hsame
        cases hsame
        refine ⟨?_, ?_⟩
        · rw [hmime, htype]
          exact mimeString_type entry hmem
        · rw [hmime, hback]
          intro ext hext
          have hnot := hplain ext hext
          rwa [namesExtension_congr hnames] at hnot

/-- **`a.bz2` does not lead back to its string**, and `a` has two strings. -/
theorem not_lookups_agree_bz2 : ¬ ∀ path : List UInt8, path ≠ [] → LookupsAgree path := by
  intro h
  have hback := (h (cstring "a.bz2") (by decide)).back
  exact absurd hback (by decide +kernel)

end Paths

end SmbProxy.Analysis
