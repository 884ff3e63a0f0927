import SmbProxy.Interface.Options

/-!
# What a command line says

`Reads` is the grammar of the command lines that `main` takes, with what each says: options
with a number, in the same argument or the next one, and URLs, of which the last counts. At the
very end `-l` may lack its number.
-/

set_option autoImplicit false

namespace SmbProxy.Interface

open SmbProxy.Library SmbProxy.Model

/-- The variables of `main` that a command line sets. The URL is what fits into `server_url`. -/
structure Settings where
  localPort : UInt16
  loglevel : ℤ
  serverUrl : List UInt8
  deriving DecidableEq

namespace Settings

/-- Without any argument. -/
def default : Settings := ⟨4445, 5, []⟩

/-- `p` or `l`, with its number. -/
def set (c : Settings) (o : UInt8) (value : ℕ) : Settings :=
  if o = 112 then { c with localPort := UInt16.ofNat value }
  else { c with loglevel := toInt32 value }

end Settings

/-- The number that a text begins with, 0 if there is none. -/
def numberIn (text : List UInt8) : ℕ := (strtoul0 text).1

/-- The arguments change these settings to those. -/
inductive Reads : List (List UInt8) → Settings → Settings → Prop
  | done (c : Settings) : Reads [] c c
  | url {arg : List UInt8} {rest : List (List UInt8)} {c d : Settings} : arg.head? ≠ some 45 →
      Reads rest { c with serverUrl := arg.take (maxSmbUrl - 1) } d → Reads (arg :: rest) c d
  | own {o : UInt8} {text : List UInt8} {rest : List (List UInt8)} {c d : Settings} :
      isNumberOption o = true → text ≠ [] → behindNumber text = [] →
      Reads rest (c.set o (numberIn text)) d → Reads ((45 :: o :: text) :: rest) c d
  | next {o : UInt8} {text : List UInt8} {rest : List (List UInt8)} {c d : Settings} :
      isNumberOption o = true → behindNumber text = [] →
      Reads rest (c.set o (numberIn text)) d → Reads ([45, o] :: text :: rest) c d
  | level (c : Settings) : Reads [[45, 108]] c (c.set 108 0)

/-- The variables are as the settings say, and `-x` has not been seen. -/
structure AsSet (s : Options) (c : Settings) : Prop where
  localPort : s.localPort = c.localPort
  loglevel : s.loglevel = c.loglevel
  passthrough : s.passthrough = false
  serverUrl : s.serverUrl.Holds c.serverUrl
  fits : c.serverUrl.length < maxSmbUrl ∧ 0 ∉ c.serverUrl

/-- The loops come out without an error, with these settings. -/
def Succeeds (s : Options) (d : Settings) : Prop :=
  ∃ final, Exits optionPass s final ∧ final.result = 0 ∧ AsSet final d

end SmbProxy.Interface
