import SmbProxy.Model.Url

/-!
# What the URL functions promise

A `UrlText` is a text of the grammar `scheme://host[:port][path]` cut into its parts, each
of which is well formed. `Parsed` says that a call of `butil_parse_url` has returned given
parts, `ParsesBack` that it returns the parts that `butil_paste_url` was given.
-/

set_option autoImplicit false

namespace SmbProxy.Interface

open SmbProxy.Library SmbProxy.Model

/-- The schemes that have a name to parse, without `file`. -/
def builtinSchemes : List (List UInt8 × ButilUrlScheme) :=
  [(ascii ['f', 't', 'p'], .ftp),
   (ascii ['s', 'f', 't', 'p'], .sftp),
   (ascii ['h', 't', 't', 'p'], .http),
   (ascii ['h', 't', 't', 'p', 's'], .https),
   (ascii ['w', 's'], .ws),
   (ascii ['w', 's', 's'], .wss),
   (ascii ['m', 'a', 'i', 'l', 't', 'o'], .mailto),
   (ascii ['s', 'm', 'b'], .smb),
   (ascii ['s', 's', 'h'], .ssh),
   (ascii ['d', 'a', 'v'], .dav)]

/-- The parts of a URL. The name of the scheme is in any letter case. -/
structure UrlText where
  name : List UInt8
  scheme : ButilUrlScheme
  host : List UInt8
  port : Option (List UInt8)
  path : List UInt8
  builtin : (name.map tolower, scheme) ∈ builtinSchemes
  host_plain : ∀ c ∈ host, c ≠ 58 ∧ c ≠ 47
  port_digits : ∀ digits ∈ port, digits ≠ [] ∧ digits.length ≤ 5 ∧
    (∀ c ∈ digits, isdigit c = true) ∧ digitsValue digits ≤ 65535
  path_slash : path = [] ∨ path.head? = some 47

namespace UrlText

/-- The text between the host and the path. -/
def portText (u : UrlText) : List UInt8 :=
  match u.port with
  | none => []
  | some digits => 58 :: digits

def text (u : UrlText) : List UInt8 :=
  u.name ++ ascii [':', '/', '/'] ++ u.host ++ u.portText ++ u.path

/-- The port that is written, or that of the scheme. -/
def portNumber (u : UrlText) : UInt16 :=
  match u.port with
  | none => defaultPort u.scheme
  | some digits => UInt16.ofNat (digitsValue digits)

/-- The path, which is not empty. -/
def pathText (u : UrlText) : List UInt8 := if u.path = [] then ascii ['/'] else u.path

end UrlText

/-- The buffers that a caller parses into, with their sizes. -/
structure UrlBuffers where
  host : Buffer
  nhost : ℕ
  path : Buffer
  npath : ℕ
  schemestr : Buffer

def UrlBuffers.parse (b : UrlBuffers) (users : UserSchemes) (url : List UInt8) : ParsedUrl :=
  butilParseUrl users (some url) (some b.host) b.nhost (some b.path) b.npath b.schemestr

/-- A call has succeeded with these parts, which fit into the buffers. -/
structure Parsed (b : UrlBuffers) (out : ParsedUrl) (scheme : ButilUrlScheme) (host : List UInt8)
    (port : UInt16) (path : List UInt8) : Prop where
  result : out.result = 0
  scheme : out.scheme = scheme
  host : host.length < b.nhost ∧ ∃ buffer, out.host = some buffer ∧ buffer.Holds host
  port : out.port = port
  path : path.length < b.npath ∧ ∃ buffer, out.path = some buffer ∧ buffer.Holds path

/-- The path with a leading `/`. -/
def withSlash (path : List UInt8) : List UInt8 := if path.head? = some 47 then path else 47 :: path

/-- The length of `scheme://host:port/path`. -/
def urlLength (users : UserSchemes) (scheme : ButilUrlScheme) (host : List UInt8) (port : UInt16)
    (path : List UInt8) : ℕ :=
  (butilSchemeName users scheme).length + 3 + host.length + 1 + (decimal port.toNat).length +
    (withSlash path).length

/-- Pasting succeeds, and the pasted string is parsed into what it was pasted from. -/
def ParsesBack (users : UserSchemes) (url : Buffer) (nurl : ℕ) (b : UrlBuffers)
    (scheme : ButilUrlScheme) (host : List UInt8) (port : UInt16) (path : List UInt8) : Prop :=
  ∃ url' text, butilPasteUrl users (some url) nurl scheme (some host) port (some path) =
      (0, some url') ∧
    url'.Holds text ∧ 0 ∉ text ∧ Parsed b (b.parse users text) scheme host port (withSlash path)

end SmbProxy.Interface
