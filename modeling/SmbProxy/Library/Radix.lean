import Mathlib.Data.Nat.Digits.Defs
import Mathlib.Tactic.Ring

/-!
# Numbers in a radix

`bigEndian` reads digits with the highest one first. Two rows of digits in different radices
that are powers of two have the same bits if one is the other's number, up to what does not
fill a digit (`shifted_div`).
-/

set_option autoImplicit false

namespace SmbProxy.Library

/-- The number with these digits, the first of them the highest. -/
def bigEndian (base : ℕ) (digits : List ℕ) : ℕ := Nat.ofDigits base digits.reverse

variable {base : ℕ} {digits : List ℕ}

/-- No digits are 0. -/
@[simp] theorem bigEndian_nil : bigEndian base [] = 0 := rfl

/-- The first digit counts for all places behind it. -/
theorem bigEndian_cons (d : ℕ) :
    bigEndian base (d :: digits) = base ^ digits.length * d + bigEndian base digits := by
  unfold bigEndian
  rw [Nat.ofDigits_reverse_cons, Nat.add_comm]

/-- Digits in front of others count for all their places. -/
theorem bigEndian_append (more : List ℕ) :
    bigEndian base (digits ++ more) =
      base ^ more.length * bigEndian base digits + bigEndian base more := by
  unfold bigEndian
  rw [List.reverse_append, Nat.ofDigits_append, List.length_reverse, Nat.add_comm]

/-- One digit is its value. -/
theorem bigEndian_singleton (d : ℕ) : bigEndian base [d] = d := by
  rw [bigEndian_cons, bigEndian_nil, List.length_nil, pow_zero, Nat.one_mul, Nat.add_zero]

/-- Digits of a base are a number of that many places. -/
theorem bigEndian_lt (hbase : 1 < base) (h : ∀ d ∈ digits, d < base) :
    bigEndian base digits < base ^ digits.length := by
  calc
    bigEndian base digits < base ^ digits.reverse.length :=
      Nat.ofDigits_lt_base_pow_length hbase fun d hd => h d (List.mem_reverse.mp hd)
    _ = base ^ digits.length := by rw [List.length_reverse]

/-- What is in front of whole digits stays in front of them when the bits behind are cut off. -/
theorem shifted_div (whole cut head tail : ℕ) :
    (2 ^ (whole + cut) * head + tail) / 2 ^ cut = 2 ^ whole * head + tail / 2 ^ cut := by
  calc
    (2 ^ (whole + cut) * head + tail) / 2 ^ cut =
        (2 ^ cut * (2 ^ whole * head) + tail) / 2 ^ cut := by
      rw [pow_add, Nat.mul_comm (2 ^ whole), Nat.mul_assoc]
    _ = 2 ^ whole * head + tail / 2 ^ cut := Nat.mul_add_div (Nat.two_pow_pos cut) _ _

end SmbProxy.Library
