import SmbProxy.Library.CString

/-!
# URLs

butil.c:526-925. A pointer into the URL is the text from it on, a difference of two pointers
the difference of their lengths. `s_user_schemes` is a parameter; `none` is a null pointer.
Log lines are left out.
-/

set_option autoImplicit false

namespace SmbProxy.Model

open SmbProxy.Library

/-- `butil_url_scheme_t`; `user 0` is `schemeUSER1`.
SOURCE: butil.h:225-248 -/
inductive ButilUrlScheme
  | file
  | ftp
  | sftp
  | http
  | https
  | ws
  | wss
  | sip
  | sips
  | mailto
  | smb
  | ssh
  | dav
  | user (n : Fin 4)
  deriving DecidableEq

/-- `BUTIL_MAX_URL_SCHEME`. -/
def maxUrlScheme : ℕ := 8

/-- `BUTIL_MAX_PORTSPEC`. -/
def maxPortspec : ℕ := 5

/-- `s_user_schemes`. An empty name is a free slot. -/
abbrev UserSchemes := Fin 4 → List UInt8

/-! ## Names -/

/-- `butil_register_scheme`: the scheme it stores when it returns 0, and the table.
SOURCE: butil.c:533-553 -/
def butilRegisterScheme (users : UserSchemes) (name : List UInt8) :
    Option ButilUrlScheme × UserSchemes :=
  match (List.finRange 4).find? fun n => users n = [] with
  | some n => (some (.user n), Function.update users n (name.take (maxUrlScheme - 1)))
  | none => (none, users)

/-- `butil_scheme_name`.
SOURCE: butil.c:555-584 -/
def butilSchemeName (users : UserSchemes) : ButilUrlScheme → List UInt8
  | .dav => ascii ['d', 'a', 'v']
  | .file => ascii ['f', 'i', 'l', 'e']
  | .ftp => ascii ['f', 't', 'p']
  | .sftp => ascii ['s', 'f', 't', 'p']
  | .http => ascii ['h', 't', 't', 'p']
  | .https => ascii ['h', 't', 't', 'p', 's']
  | .ws => ascii ['w', 's']
  | .wss => ascii ['w', 's', 's']
  | .sip => ascii ['s', 'i', 'p']
  | .sips => ascii ['s', 'i', 'p', 's']
  | .ssh => ascii ['s', 's', 'h']
  | .mailto => ascii ['m', 'a', 'i', 'l', 't', 'o']
  | .user n => if users n ≠ [] then users n else ascii ['?', '?', '?', '?']
  -- `schemeSMB - BUTIL_FIRST_USER_SCHEME` is far beyond the user schemes
  | .smb => ascii ['?', '?', '?', '?']

/-- The names that `butil_scheme_from_name` compares with, in its order.
SOURCE: butil.c:590-644 -/
def schemeNames : List (List UInt8 × ButilUrlScheme) :=
  [(ascii ['d', 'a', 'v'], .dav),
   (ascii ['f', 'i', 'l', 'e'], .file),
   (ascii ['s', 'm', 'b'], .smb),
   (ascii ['s', 's', 'h'], .ssh),
   (ascii ['h', 't', 't', 'p', 's'], .https),
   (ascii ['h', 't', 't', 'p'], .http),
   (ascii ['s', 'f', 't', 'p'], .sftp),
   (ascii ['f', 't', 'p'], .ftp),
   (ascii ['w', 's', 's'], .wss),
   (ascii ['w', 's'], .ws),
   (ascii ['m', 'a', 'i', 'l', 't', 'o'], .mailto)]

/-- `butil_scheme_from_name`: the scheme it stores when it returns 0.
SOURCE: butil.c:586-658 -/
def butilSchemeFromName (users : UserSchemes) (name : List UInt8) : Option ButilUrlScheme :=
  match schemeNames.find? fun entry => strcasecmp name entry.1 = 0 with
  | some entry => some entry.2
  | none =>
    ((List.finRange 4).find? fun n =>
      users n ≠ [] ∧ strncasecmp name (users n) (users n).length = 0).map .user

/-! ## Parsing -/

/-- The port that a URL without one has.
SOURCE: butil.c:740-765 -/
def defaultPort : ButilUrlScheme → UInt16
  | .ftp => 21
  | .sftp => 23
  | .https => 443
  | .sip => 5061
  | .sips => 5062
  | .mailto => 25
  | _ => 80

/-- What a call of `butil_parse_url` leaves behind the pointers it is given, and in
`schemestr`. -/
structure ParsedUrl where
  result : ℤ
  scheme : ButilUrlScheme
  host : Option Buffer
  port : UInt16
  path : Option Buffer
  schemestr : Buffer

/-- The scheme: the pointer `ps` to its name, its length, and the pointer `pe` behind it.
SOURCE: butil.c:697-724 -/
def schemePart (url : List UInt8) : List UInt8 × ℕ × List UInt8 :=
  match strstr url (ascii [':', '/', '/']) with
  | some len => (url, len, url.drop (len + 3))
  | none =>
    match strstr url (ascii ['/', '/']) with
    | some len => (ascii ['h', 't', 't', 'p'], 4, url.drop (len + 2))
    | none => (ascii ['h', 't', 't', 'p'], 4, url)

/-- The port: its number and the pointer behind it, or nothing if it is malformed.
SOURCE: butil.c:791-804 -/
def portPart (portnum : UInt16) : List UInt8 → Option (UInt16 × List UInt8)
  | [] => some (portnum, [])
  | c :: ps =>
    if c = 58 then
      let (value, pe) := strtoul ps
      if maxPortspec < ps.length - pe.length then none else some (UInt16.ofNat value, pe)
    else some (portnum, c :: ps)

/-- The path.
SOURCE: butil.c:817-833 -/
def parsePath (npath : ℕ) (out : ParsedUrl) (ps : List UInt8) : ParsedUrl :=
  if npath ≤ ps.length ∧ out.path.isSome then out
  else
    let ps := if ps = [] then ascii ['/'] else ps
    { out with
      result := 0
      path := out.path.map fun path => (path.strncpy ps ps.length).store ps.length 0 }

/-- Neither the `:` nor the `/` that ends a host. -/
def isHost (c : UInt8) : Bool := c ≠ 58 ∧ c ≠ 47

/-- The host, the port and the path.
SOURCE: butil.c:767-833 -/
def parseHost (nhost npath : ℕ) (portnum : UInt16) (out : ParsedUrl) (ps : List UInt8) :
    ParsedUrl :=
  let len := (ps.takeWhile isHost).length
  if nhost ≤ len ∧ out.host.isSome then out
  else
    let out := { out with host := out.host.map fun host => (host.strncpy ps len).store len 0 }
    match portPart portnum (ps.dropWhile isHost) with
    | none => out
    | some (portnum, ps) =>
      let out := { out with port := portnum }
      if ps.head? ≠ some 47 ∧ ps ≠ [] then out else parsePath npath out ps

/-- `butil_parse_url`.
SOURCE: butil.c:660-833 -/
def butilParseUrl (users : UserSchemes) (url : Option (List UInt8)) (host : Option Buffer)
    (nhost : ℕ) (path : Option Buffer) (npath : ℕ) (schemestr : Buffer) : ParsedUrl :=
  let out : ParsedUrl :=
    { result := -1
      scheme := .http
      host := host.map fun host => host.store 0 0
      port := 80
      path := path.map fun path => path.store 0 0
      schemestr := schemestr }
  match url with
  | none => out
  | some url =>
    let (ps, len, pe) := schemePart url
    if maxUrlScheme ≤ len then out
    else
      let out := { out with schemestr := (schemestr.strncpy ps len).store len 0 }
      match butilSchemeFromName users (ps.take len) with
      | none => out
      | some scheme =>
        let out := { out with scheme := scheme }
        if scheme = .file then parsePath npath out pe
        else parseHost nhost npath (defaultPort scheme) out pe

/-! ## Pasting -/

/-- The port that is pasted. -/
def useport (schemelc : List UInt8) (port : UInt16) : UInt16 :=
  if port = 0 then if strcasecmp schemelc (ascii ['h', 't', 't', 'p', 's']) ≠ 0 then 443 else 80
  else port

/-- The text that `butil_paste_url` prints.
SOURCE: butil.c:886-919 -/
def pastedUrl (users : UserSchemes) (scheme : ButilUrlScheme) (host : List UInt8) (port : UInt16)
    (path : List UInt8) : List UInt8 :=
  let schemelc := ((butilSchemeName users scheme).take (maxUrlScheme - 1)).map tolower
  let path := if path.head? = some 47 then path.tail else path
  schemelc ++ ascii [':', '/', '/'] ++ host ++ ascii [':'] ++ decimal (useport schemelc port).toNat ++
    ascii ['/'] ++ path

/-- `butil_paste_url`: its return value, and what it leaves in `url`. The length is a
`size_t`, so that the failure of `snprintf` is the greatest of them.
SOURCE: butil.c:863-925 -/
def butilPasteUrl (users : UserSchemes) (url : Option Buffer) (nurl : ℕ) (scheme : ButilUrlScheme)
    (host : Option (List UInt8)) (port : UInt16) (path : Option (List UInt8)) :
    ℤ × Option Buffer :=
  match url, host with
  | none, _ => (-1, none)
  | some url, none => (-1, some url)
  | some url, some host =>
    let (len, url) := url.snprintf nurl (pastedUrl users scheme host port (path.getD []))
    if (nurl : ℤ) ≤ len % 2 ^ 64 then (-1, some url) else (0, some url)

end SmbProxy.Model
