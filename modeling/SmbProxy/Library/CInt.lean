import SmbProxy.Library.Memory
import Mathlib.Data.Nat.Bitwise

/-!
# C integers and byte orders

The conversions a C program makes when a value changes its integer type, on unbounded
integers: `toUInt32` to `uint32_t` (and every unsigned operation ends in it), `toInt32`
to `int`. `be32`, `le32` and `le16` read an unsigned number from memory in the byte
order they are named after, `be32Bytes` writes one.
-/

set_option autoImplicit false

namespace SmbProxy.Library

/-- Conversion to `uint32_t`. -/
def toUInt32 (i : ℤ) : ℤ := i % 2 ^ 32

/-- Conversion to a 32-bit `int`. -/
def toInt32 (i : ℤ) : ℤ := if i % 2 ^ 32 < 2 ^ 31 then i % 2 ^ 32 else i % 2 ^ 32 - 2 ^ 32

/-- Four bytes, most significant first. -/
def be32 (mem : ℤ → UInt8) (a : ℤ) : ℕ :=
  (mem a).toNat * 2 ^ 24 + (mem (a + 1)).toNat * 2 ^ 16 + (mem (a + 2)).toNat * 2 ^ 8 +
    (mem (a + 3)).toNat

/-- Four bytes, least significant first. -/
def le32 (mem : ℤ → UInt8) (a : ℤ) : ℕ :=
  (mem a).toNat + (mem (a + 1)).toNat * 2 ^ 8 + (mem (a + 2)).toNat * 2 ^ 16 +
    (mem (a + 3)).toNat * 2 ^ 24

/-- The four bytes of a number, most significant first. -/
def be32Bytes (n : ℕ) : List UInt8 :=
  [UInt8.ofNat (n / 2 ^ 24), UInt8.ofNat (n / 2 ^ 16), UInt8.ofNat (n / 2 ^ 8), UInt8.ofNat n]

/-- Two bytes, least significant first. -/
def le16 (mem : ℤ → UInt8) (a : ℤ) : ℕ := (mem a).toNat + (mem (a + 1)).toNat * 2 ^ 8

/-- A number in the range of `uint32_t` is itself. -/
theorem toUInt32_of_range {i : ℤ} (h0 : 0 ≤ i) (h : i < 2 ^ 32) : toUInt32 i = i := by
  unfold toUInt32
  omega

/-- A number in the upper range of `int` is itself. -/
theorem toInt32_of_range {i : ℤ} (h0 : 0 ≤ i) (h : i < 2 ^ 31) : toInt32 i = i := by
  unfold toInt32
  rw [if_pos (by omega)]
  omega

/-- A negative `int` comes back from `uint32_t`. -/
theorem toInt32_toUInt32_of_neg {i : ℤ} (h0 : -2 ^ 31 ≤ i) (h : i < 0) :
    toInt32 (toUInt32 i) = i := by
  unfold toInt32 toUInt32
  rw [if_neg (by omega)]
  omega

/-- Every `int` comes back from `uint32_t`. -/
theorem toInt32_toUInt32 {i : ℤ} (h0 : -2 ^ 31 ≤ i) (h : i < 2 ^ 31) :
    toInt32 (toUInt32 i) = i := by
  by_cases hneg : i < 0
  · exact toInt32_toUInt32_of_neg h0 hneg
  · have hpos := not_lt.mp hneg
    rw [toUInt32_of_range hpos (by omega), toInt32_of_range hpos h]

/-- A difference in `uint32_t` can be taken before or after the conversion. -/
theorem toUInt32_sub_toUInt32 (i j : ℤ) : toUInt32 (toUInt32 i - j) = toUInt32 (i - j) := by
  unfold toUInt32
  omega

/-- They are four. -/
@[simp] theorem be32Bytes_length (n : ℕ) : (be32Bytes n).length = 4 := rfl

/-- The four cells of a window of four. -/
theorem window_four (mem : ℤ → UInt8) (a : ℤ) :
    window mem a 4 = [mem a, mem (a + 1), mem (a + 2), mem (a + 3)] := by
  simp [window, List.range_succ]

/-- Four bytes are known from the number they are read as. -/
theorem window_eq_of_be32_eq {mem : ℤ → UInt8} {a b : ℤ} (h : be32 mem a = be32 mem b) :
    window mem a 4 = window mem b 4 := by
  have ha0 := (mem a).toNat_lt
  have ha1 := (mem (a + 1)).toNat_lt
  have ha2 := (mem (a + 2)).toNat_lt
  have ha3 := (mem (a + 3)).toNat_lt
  have hb0 := (mem b).toNat_lt
  have hb1 := (mem (b + 1)).toNat_lt
  have hb2 := (mem (b + 2)).toNat_lt
  have hb3 := (mem (b + 3)).toNat_lt
  unfold be32 at h
  rw [window_four, window_four, UInt8.toNat_inj.mp (by omega : (mem a).toNat = (mem b).toNat),
    UInt8.toNat_inj.mp (by omega : (mem (a + 1)).toNat = (mem (b + 1)).toNat),
    UInt8.toNat_inj.mp (by omega : (mem (a + 2)).toNat = (mem (b + 2)).toNat),
    UInt8.toNat_inj.mp (by omega : (mem (a + 3)).toNat = (mem (b + 3)).toNat)]

/-- The number is known from its four bytes. -/
theorem be32_eq_of_window_eq {mem : ℤ → UInt8} {a b : ℤ}
    (h : window mem a 4 = window mem b 4) : be32 mem a = be32 mem b := by
  rw [window_four, window_four] at h
  simp only [List.cons.injEq, and_true] at h
  unfold be32
  rw [h.1, h.2.1, h.2.2.1, h.2.2.2]

/-- A number of 32 bits is read back from its four bytes. -/
theorem be32_of_window {mem : ℤ → UInt8} {a : ℤ} {n : ℕ} (h : n < 2 ^ 32)
    (hbytes : window mem a 4 = be32Bytes n) : be32 mem a = n := by
  rw [window_four] at hbytes
  simp only [be32Bytes, List.cons.injEq, and_true] at hbytes
  obtain ⟨h0, h1, h2, h3⟩ := hbytes
  unfold be32
  rw [h0, h1, h2, h3]
  simp only [UInt8.toNat_ofNat']
  omega

/-- A number whose most significant byte is not 0 has at least 25 bits. -/
theorem le32_ge_of_top {mem : ℤ → UInt8} {a : ℤ} (h : mem (a + 3) ≠ 0) :
    2 ^ 24 ≤ le32 mem a := by
  have htop : (mem (a + 3)).toNat ≠ 0 := fun h0 => h (UInt8.toNat_inj.mp h0)
  unfold le32
  omega

/-- Two bytes put together with a shift and an or. -/
theorem shift_or_eq (hi lo : UInt8) :
    hi.toNat <<< 8 ||| lo.toNat = hi.toNat * 2 ^ 8 + lo.toNat := by
  have hlo : lo.toNat < 2 ^ 8 := lo.toNat_lt
  calc
    hi.toNat <<< 8 ||| lo.toNat = hi.toNat <<< 8 + lo.toNat :=
      (Nat.shiftLeft_add_eq_or_of_lt hlo hi.toNat).symm
    _ = hi.toNat * 2 ^ 8 + lo.toNat := by rw [Nat.shiftLeft_eq]

end SmbProxy.Library
