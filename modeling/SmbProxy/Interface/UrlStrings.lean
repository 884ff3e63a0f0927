import SmbProxy.Interface.Url

/-!
# What `butil_parse_url` promises for any string

A string need not be of the grammar of `UrlText`. `SplitUrl` cuts it into the name of its scheme
and the rest, and the rest is a host, the text of a port, if the host ends in a `:`, and a
path. A text is taken for a port if it is empty or a number of at most five characters
(`PortRead`); it is a port if it is a plain one (`PlainPort`).
-/

set_option autoImplicit false

namespace SmbProxy.Interface

open SmbProxy.Library SmbProxy.Model

/-! ## The parts of a string -/

/-- A string, the name of its scheme and the rest. A string without `://` is one of http; its
rest begins behind the first `//`, if there is one. -/
inductive SplitUrl : List UInt8 → List UInt8 → List UInt8 → Prop
  | named {name : List UInt8} (rest : List UInt8) : ¬ ascii [':', '/', '/'] <:+: name →
      SplitUrl (name ++ ascii [':', '/', '/'] ++ rest) name rest
  | slashes {before rest : List UInt8} :
      ¬ ascii [':', '/', '/'] <:+: before ++ ascii ['/', '/'] ++ rest →
      ¬ ascii ['/', '/'] <:+: before ++ ascii ['/'] →
      SplitUrl (before ++ ascii ['/', '/'] ++ rest) (ascii ['h', 't', 't', 'p']) rest
  | bare {rest : List UInt8} : ¬ ascii ['/', '/'] <:+: rest →
      SplitUrl rest (ascii ['h', 't', 't', 'p']) rest

/-- A name that fits into `schemestr` and is found. -/
def Known (users : UserSchemes) (name : List UInt8) (scheme : ButilUrlScheme) : Prop :=
  name.length < maxUrlScheme ∧ butilSchemeFromName users name = some scheme

/-- The host ends at the first `:` or `/`. -/
def hostOf (rest : List UInt8) : List UInt8 := rest.takeWhile isHost

/-- The text between the `:` behind the host and the next `/`. -/
def portOf (rest : List UInt8) : Option (List UInt8) :=
  match rest.dropWhile isHost with
  | [] => none
  | c :: text => if c = 58 then some (text.takeWhile (· ≠ 47)) else none

/-- The path begins with the next `/`. -/
def pathOf (rest : List UInt8) : List UInt8 := (rest.dropWhile isHost).dropWhile (· ≠ 47)

/-! ## The port -/

/-- What is taken for a port: nothing, or a number in at most five characters. -/
def PortRead (text : List UInt8) : Prop :=
  text.length ≤ maxPortspec ∧ (text = [] ∨ ∃ blanks sign digits, IsNumber blanks sign digits text)

/-- One to five digits with a value that is a port. -/
structure PlainPort (text : List UInt8) : Prop where
  ne : text ≠ []
  short : text.length ≤ maxPortspec
  digits : ∀ c ∈ text, isdigit c = true
  value : digitsValue text ≤ 65535

/-- What is taken for a port and is none: nothing, a number behind blanks or a sign, or one
that is too large. -/
def MisreadPort (text : List UInt8) : Prop :=
  text = [] ∨ ∃ blanks sign digits, IsNumber blanks sign digits text ∧
    text.length ≤ maxPortspec ∧ (blanks ++ sign ≠ [] ∨ 65535 < digitsValue digits)

/-- The port that has been accepted is the one that was written. -/
def PortAsWritten (url : List UInt8) (out : ParsedUrl) : Prop :=
  ∀ name rest text, SplitUrl url name rest → portOf rest = some text → out.result = 0 →
    out.scheme ≠ .file → PlainPort text ∧ out.port.toNat = digitsValue text

/-! ## The buffers -/

/-- A call has stored inside the buffers, and a call that has succeeded has terminated the
strings inside them. -/
structure InBuffers (b : UrlBuffers) (out : ParsedUrl) : Prop where
  host : ∀ buffer ∈ out.host, ∀ i ∈ buffer.stored, i < b.nhost
  path : ∀ buffer ∈ out.path, ∀ i ∈ buffer.stored, i < b.npath
  schemestr : ∀ i ∈ out.schemestr.stored, i < maxUrlScheme
  terminated : out.result = 0 → (∃ buffer ∈ out.host, ∃ i < b.nhost, buffer.cells i = 0) ∧
    ∃ buffer ∈ out.path, ∃ i < b.npath, buffer.cells i = 0

/-- Nothing has been stored yet. -/
def UrlBuffers.Untouched (b : UrlBuffers) : Prop :=
  b.host.stored = [] ∧ b.path.stored = [] ∧ b.schemestr.stored = []

/-- A string that is accepted up to its path, which is empty. -/
def EmptyPath (users : UserSchemes) (nhost : ℕ) (url : List UInt8) : Prop :=
  ∃ name rest scheme, SplitUrl url name rest ∧ Known users name scheme ∧
    (scheme = .file ∧ rest = [] ∨
      scheme ≠ .file ∧ (hostOf rest).length < nhost ∧ (∀ text ∈ portOf rest, PortRead text) ∧
        pathOf rest = [])

/-! ## Strings without a scheme -/

/-- The parts of `host[:port][path]`. -/
structure BareText where
  host : List UInt8
  port : Option (List UInt8)
  path : List UInt8
  host_ne : host ≠ []
  host_plain : ∀ c ∈ host, c ≠ 0 ∧ c ≠ 58 ∧ c ≠ 47
  port_digits : ∀ digits ∈ port, digits ≠ [] ∧ digits.length ≤ 5 ∧ ∀ c ∈ digits, isdigit c = true
  path_slash : path = [] ∨ path.head? = some 47
  path_nul : 0 ∉ path

namespace BareText

/-- The text between the host and the path. -/
def portText (u : BareText) : List UInt8 :=
  match u.port with
  | none => []
  | some digits => 58 :: digits

def text (u : BareText) : List UInt8 := u.host ++ u.portText ++ u.path

end BareText

/-- The two buffers, or null pointers, hold the same string. -/
def SameString (buffer buffer' : Option Buffer) : Prop :=
  ∀ text, 0 ∉ text → ((∃ b ∈ buffer, b.Holds text) ↔ ∃ b ∈ buffer', b.Holds text)

/-- Two calls have returned the same. -/
structure SameParse (out out' : ParsedUrl) : Prop where
  result : out.result = out'.result
  scheme : out.scheme = out'.scheme
  host : SameString out.host out'.host
  port : out.port = out'.port
  path : SameString out.path out'.path

/-- The text is parsed as it is behind `http://`. -/
def MeansHttp (users : UserSchemes) (text : List UInt8) : Prop :=
  ∀ host nhost path npath schemestr,
    SameParse (butilParseUrl users (some text) host nhost path npath schemestr)
      (butilParseUrl users (some (ascii ['h', 't', 't', 'p', ':', '/', '/'] ++ text)) host nhost
        path npath schemestr)

/-! ## URLs without a port -/

/-- The name of a scheme as it is pasted. -/
def pastedName (users : UserSchemes) (scheme : ButilUrlScheme) : List UInt8 :=
  ((butilSchemeName users scheme).take (maxUrlScheme - 1)).map tolower

/-- The URL without a port. -/
def portless (users : UserSchemes) (scheme : ButilUrlScheme) (host path : List UInt8) :
    List UInt8 :=
  pastedName users scheme ++ ascii [':', '/', '/'] ++ (host ++ withSlash path)

/-- The port that a URL pasted with port 0 is parsed to is that of the URL without a port. -/
def SameDefaultPort (users : UserSchemes) (scheme : ButilUrlScheme) (host path : List UInt8) :
    Prop :=
  ∀ url nurl url' text, nurl < 2 ^ 64 →
    butilPasteUrl users (some url) nurl scheme (some host) 0 (some path) = (0, some url') →
    url'.Holds text → 0 ∉ text →
    ∀ host' nhost path' npath schemestr,
      (butilParseUrl users (some text) host' nhost path' npath schemestr).port =
        (butilParseUrl users (some (portless users scheme host path)) host' nhost path' npath
          schemestr).port

end SmbProxy.Interface
