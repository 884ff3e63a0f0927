import SmbProxy.Library.CInt
import SmbProxy.Library.CString
import SmbProxy.Library.Loop
import SmbProxy.Model.Init

/-!
# The option loops of `main`

main.cc:47-112. A pointer into an argument is the text from it on, and `argv` the list of the
arguments that are left, with `argc` its length. The two nested loops are one loop with a flag
that says which of the two heads control is at; what a pass emits is what it prints.
-/

set_option autoImplicit false

namespace SmbProxy.Model

open SmbProxy.Library

/-- The variables of `main` that its option loops use, and whether control is at the head of
the inner loop. -/
structure Options where
  args : List (List UInt8)
  arg : List UInt8
  argi : ℕ
  inner : Bool
  localPort : UInt16
  loglevel : ℤ
  passthrough : Bool
  serverUrl : Buffer
  result : ℤ

/-- What is printed: `Use: -p [port]`, `Use: -l [level]` and `Bad switch: %s`. -/
inductive Complaint
  | usePort
  | useLevel
  | badSwitch (arg : List UInt8)

/-- `arg[i]`, the NUL at the end. -/
def charAt (arg : List UInt8) (i : ℕ) : UInt8 := arg.getD i 0

/-- What `-p` and `-l` have in common: the next argument is taken if nothing is behind the
option, and a number is read. `missing` is the `result` where there is none. The number comes
with the variables.
SOURCE: main.cc:63-79, main.cc:82-97 -/
def optionNumber (complaint : Complaint) (missing : ℤ) (s : Options) :
    List Complaint × ℕ × Options :=
  let argi := s.argi + 1
  let (complaints, s) :=
    if charAt s.arg argi = 0 then
      match s.args with
      | next :: args => ([], { s with argi := 0, arg := next, args := args })
      | [] => ([complaint], { s with argi := argi, result := missing })
    else ([], { s with argi := argi })
  let (value, rest) := strtoul0 (s.arg.drop s.argi)
  (complaints, value, { s with arg := rest, argi := 0 })

/-- The `switch` over the option.
SOURCE: main.cc:61-106 -/
def switchOption (s : Options) : List Complaint × Options :=
  if charAt s.arg 1 = 112 then
    let (complaints, value, s) := optionNumber .usePort 1 s
    (complaints, { s with localPort := UInt16.ofNat value })
  else if charAt s.arg 1 = 108 then
    let (complaints, value, s) := optionNumber .useLevel s.result s
    (complaints, { s with loglevel := toInt32 value })
  else if charAt s.arg 1 = 120 then ([], { s with passthrough := true })
  else ([.badSwitch s.arg], { s with result := 1 })

/-- One pass of the inner loop. `strtoul` never leaves `arg` null.
SOURCE: main.cc:59-108 -/
def innerPass (s : Options) : Pass Options Complaint Options :=
  let (complaints, s) := switchOption s
  ⟨complaints, .inl { s with inner := decide (s.result = 0 ∧ charAt s.arg s.argi ≠ 0) }⟩

/-- One pass of the outer loop, up to the inner one.
SOURCE: main.cc:49-57, main.cc:110-114 -/
def outerPass (s : Options) : Pass Options Complaint Options :=
  match s.args with
  | [] => ⟨[], .inr s⟩
  | arg :: args =>
    if s.result ≠ 0 then ⟨[], .inr s⟩
    else if charAt arg 0 = 45 then
      ⟨[], .inl { s with arg := arg, args := args, argi := 1, inner := true }⟩
    else
      ⟨[], .inl { s with
        arg := arg
        args := args
        serverUrl := (s.serverUrl.strncpy arg (maxSmbUrl - 1)).store (maxSmbUrl - 1) 0 }⟩

/-- One pass of the loop that control is in. -/
def optionPass (s : Options) : Pass Options Complaint Options :=
  if s.inner then innerPass s else outerPass s

/-- The variables before the loops; `args` is what comes behind the program's name.
SOURCE: main.cc:29-45 -/
def Options.init (args : List (List UInt8)) : Options where
  args := args
  arg := []
  argi := 0
  inner := false
  localPort := 4445
  loglevel := 5
  passthrough := false
  serverUrl := Buffer.store ⟨fun _ => 0, []⟩ 0 0
  result := 0

end SmbProxy.Model
