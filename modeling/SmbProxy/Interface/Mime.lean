import SmbProxy.Model.Mime

/-!
# What the MIME lookups have in common

The string for a file and the string for the file's content type are to be the same, and that
string is to lead back to itself over the content type it names (`LookupsAgree`).
-/

set_option autoImplicit false

namespace SmbProxy.Interface

open SmbProxy.Library SmbProxy.Model

structure LookupsAgree (path : List UInt8) : Prop where
  forFile : butilMimeStringForContentType (butilContentTypeForFile (some path)) =
    butilMimeStringForFile (some path)
  back : butilMimeStringForContentType
      (butilContentTypeForMimeString (some (butilMimeStringForFile (some path)))) =
    butilMimeStringForFile (some path)

/-- The text is the extension, ignoring case. -/
def NamesExtension (text : List UInt8) (ext : String) : Prop :=
  strcasecmp text ((cstring ext).drop 1) = 0

/-- The extensions whose strings begin with the string of an earlier entry. -/
def shadowedExtensions : List String := [".bz2", ".swf", ".woff2", ".xlsx", ".3g2"]

/-- Behind the last dot of the path is an extension of the table that is not shadowed. -/
def HasPlainExtension (path : List UInt8) : Prop :=
  ∃ before text, path = before ++ 46 :: text ∧ 46 ∉ text ∧
    (∃ entry ∈ sMimetab, NamesExtension text entry.ext) ∧
      ∀ ext ∈ shadowedExtensions, ¬ NamesExtension text ext

end SmbProxy.Interface
