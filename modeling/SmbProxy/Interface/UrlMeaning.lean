import SmbProxy.Interface.UrlStrings

/-!
# What a string means as a URL

`UrlMeans` is the language of `butil_parse_url` with what each of its strings means, for
buffers of a size. It says nothing of the order in which the code finds the parts, nor of
what is in the buffers before.
-/

set_option autoImplicit false

namespace SmbProxy.Interface

open SmbProxy.Library SmbProxy.Model

/-- The port in the rest of a URL, or that of the scheme. -/
def portIn (scheme : ButilUrlScheme) (rest : List UInt8) : UInt16 :=
  match portOf rest with
  | none => defaultPort scheme
  | some text => UInt16.ofNat (strtoul text).1

/-- The path, which is not empty. -/
def pathIn (path : List UInt8) : List UInt8 := if path = [] then ascii ['/'] else path

/-- The scheme, the host, the port and the path that a string means. All that follows the name
of the scheme `file` is a path. -/
inductive UrlMeans (users : UserSchemes) (nhost npath : ℕ) (url : List UInt8) :
    ButilUrlScheme → List UInt8 → UInt16 → List UInt8 → Prop
  | file {name rest : List UInt8} : SplitUrl url name rest → Known users name .file →
      rest.length < npath → UrlMeans users nhost npath url .file [] 80 (pathIn rest)
  | host {name rest : List UInt8} {scheme : ButilUrlScheme} : SplitUrl url name rest →
      Known users name scheme → scheme ≠ .file → (hostOf rest).length < nhost →
      (∀ text ∈ portOf rest, PortRead text) → (pathOf rest).length < npath →
      UrlMeans users nhost npath url scheme (hostOf rest) (portIn scheme rest)
        (pathIn (pathOf rest))

/-- A call has succeeded and left these parts behind its pointers. -/
structure ParsesAs (out : ParsedUrl) (scheme : ButilUrlScheme) (host : List UInt8) (port : UInt16)
    (path : List UInt8) : Prop where
  result : out.result = 0
  strings : 0 ∉ host ∧ 0 ∉ path
  scheme : out.scheme = scheme
  host : ∃ buffer ∈ out.host, buffer.Holds host
  port : out.port = port
  path : ∃ buffer ∈ out.path, buffer.Holds path

end SmbProxy.Interface
