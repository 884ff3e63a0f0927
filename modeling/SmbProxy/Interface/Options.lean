import SmbProxy.Model.Options

/-!
# Which command lines are parsed to their end

`Hangs` is a grammar of argument vectors: `Passes` takes arguments off the front that the
loops get over, and what then follows brings the inner loop to an `x`, at which it stays.
-/

set_option autoImplicit false

namespace SmbProxy.Interface

open SmbProxy.Library SmbProxy.Model

/-- The loops are left, with an error or with no argument left. -/
def EndsParsing (args : List (List UInt8)) : Prop :=
  ∃ n final, (loop optionPass n (Options.init args)).next = .inr final ∧
    (final.result ≠ 0 ∨ final.args = [])

/-- `p` or `l`. -/
def isNumberOption (c : UInt8) : Bool := c = 112 ∨ c = 108

/-- The text behind the number that a text begins with, all of it if there is no number. -/
def behindNumber (text : List UInt8) : List UInt8 := (strtoul0 text).2

/-- Behind one byte of any kind, and any number of `p`s and `l`s, there is an `x`. -/
def LeadsToFlag (text : List UInt8) : Prop :=
  ∃ c options rest, text = c :: (options ++ 120 :: rest) ∧ ∀ o ∈ options, isNumberOption o = true

/-- One or two arguments from the front: no option; an option with its number; an option, and
its number in the next argument. -/
inductive Passes : List (List UInt8) → List (List UInt8) → Prop
  | url {arg : List UInt8} {rest : List (List UInt8)} : arg.head? ≠ some 45 →
      Passes (arg :: rest) rest
  | own {o : UInt8} {text : List UInt8} {rest : List (List UInt8)} : isNumberOption o = true →
      text ≠ [] → behindNumber text = [] → Passes ((45 :: o :: text) :: rest) rest
  | next {o : UInt8} {text : List UInt8} {rest : List (List UInt8)} : isNumberOption o = true →
      behindNumber text = [] → Passes ([45, o] :: text :: rest) rest

/-- Behind arguments that are got over there is `-x`, or an option with more behind its number
that leads to an `x`. -/
inductive Hangs : List (List UInt8) → Prop
  | flag {text : List UInt8} {rest : List (List UInt8)} : Hangs ((45 :: 120 :: text) :: rest)
  | own {o : UInt8} {text : List UInt8} {rest : List (List UInt8)} : isNumberOption o = true →
      text ≠ [] → LeadsToFlag (behindNumber text) → Hangs ((45 :: o :: text) :: rest)
  | next {o : UInt8} {text : List UInt8} {rest : List (List UInt8)} : isNumberOption o = true →
      LeadsToFlag (behindNumber text) → Hangs ([45, o] :: text :: rest)
  | later {args rest : List (List UInt8)} : Passes args rest → Hangs rest → Hangs args

end SmbProxy.Interface
