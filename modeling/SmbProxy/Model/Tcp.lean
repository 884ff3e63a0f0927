import SmbProxy.Library.Loop
import SmbProxy.Library.Memory

/-!
# `tcp_read` and `tcp_write`

gwtcp.c:233-331. What the system calls do is the environment's choice: a `ReadEvent`
is the outcome of the `select` and `recv` of one `tcp_read`, a `WriteEvent` that of one
pass of the loop of `tcp_write`. A `recv` of `count` bytes takes at most that many of the
bytes that are ready, a `send` accepts at most the bytes it is given; both counts are
converted to `size_t`.
-/

set_option autoImplicit false

namespace SmbProxy.Model

open SmbProxy.Library

/-- Conversion to a 64-bit `size_t`. -/
def sizeT (count : ℤ) : ℕ := (count % 2 ^ 64).toNat

/-- A count that is not negative is itself as a `size_t`, or less. -/
theorem sizeT_le {count : ℤ} (h : 0 ≤ count) : (sizeT count : ℤ) ≤ count := by
  unfold sizeT
  omega

/-- `select` fails, times out, or reports data; then `recv` fails, with an `errno` that
says to try again or another one, or finds the bytes `avail` ready, none at the end of
the stream. -/
inductive ReadEvent
  | selectFailed
  | timeout
  | wouldBlock
  | recvFailed
  | ready (avail : List UInt8)
  deriving DecidableEq

/-- `tcp_read`: the bytes it puts into the buffer, and its return value.
SOURCE: gwtcp.c:284-331 -/
def tcpRead (event : ReadEvent) (count : ℤ) : List UInt8 × ℤ :=
  match event with
  | .selectFailed => ([], -1)
  | .timeout => ([], 0)
  | .wouldBlock => ([], 0)
  | .recvFailed => ([], -1)
  | .ready avail =>
    let bytes := avail.take (sizeT count)
    let rc := bytes.length
    if rc = 0 then ([], -1) else (bytes, rc)

/-- `tcp_read` fails, reads nothing, or reads some of the bytes it is asked for and returns how
many. -/
theorem tcpRead_cases (event : ReadEvent) (count : ℤ) :
    tcpRead event count = ([], -1) ∨ tcpRead event count = ([], 0) ∨
      ∃ bytes : List UInt8, 0 < bytes.length ∧ bytes.length ≤ sizeT count ∧
        tcpRead event count = (bytes, (bytes.length : ℤ)) := by
  cases event with
  | selectFailed => exact Or.inl rfl
  | timeout => exact Or.inr (Or.inl rfl)
  | wouldBlock => exact Or.inr (Or.inl rfl)
  | recvFailed => exact Or.inl rfl
  | ready avail =>
      unfold tcpRead
      dsimp only
      by_cases hrc : (avail.take (sizeT count)).length = 0
      · rw [if_pos hrc]
        exact Or.inl rfl
      · rw [if_neg hrc]
        exact Or.inr (Or.inr ⟨_, Nat.pos_of_ne_zero hrc, List.length_take_le _ _, rfl⟩)

/-- `select` fails or times out, or `send` fails, or it accepts `n` bytes, or all that it
is given if those are fewer. -/
inductive WriteEvent
  | selectFailed
  | timeout
  | sendFailed
  | sent (n : ℕ)
  deriving DecidableEq

/-- One pass of the loop of `tcp_write`: the bytes `send` has accepted, and the new value
of `sent` or the return value.
SOURCE: gwtcp.c:242-281 -/
def tcpWriteBody (buffer : ℤ → UInt8) (count sent : ℤ) : WriteEvent → Pass ℤ UInt8 ℤ
  | .selectFailed => ⟨[], .inr (-1)⟩
  | .timeout => ⟨[], .inr (-1)⟩
  | .sendFailed => ⟨[], .inr (-1)⟩
  | .sent n =>
    let wc := min n (sizeT (count - sent))
    if wc = 0 then ⟨[], .inr (-1)⟩
    else
      let sent' := sent + wc
      ⟨window buffer sent wc, if sent' < count then .inl sent' else .inr count⟩

/-- The three ways out of a pass: failure, a part of the rest, or all of it. -/
theorem tcpWriteBody_cases (buffer : ℤ → UInt8) {count sent : ℤ} (h : sent < count)
    (event : WriteEvent) :
    tcpWriteBody buffer count sent event = ⟨[], .inr (-1)⟩ ∨
      (∃ wc : ℕ, 0 < wc ∧ sent + wc < count ∧
        tcpWriteBody buffer count sent event = ⟨window buffer sent wc, .inl (sent + wc)⟩) ∨
      ∃ wc : ℕ, sent + wc = count ∧
        tcpWriteBody buffer count sent event = ⟨window buffer sent wc, .inr count⟩ := by
  cases event with
  | selectFailed => exact Or.inl rfl
  | timeout => exact Or.inl rfl
  | sendFailed => exact Or.inl rfl
  | sent n =>
      have hsize := @sizeT_le (count - sent) (by omega)
      unfold tcpWriteBody
      dsimp only
      by_cases hwc : min n (sizeT (count - sent)) = 0
      · rw [if_pos hwc]
        exact Or.inl rfl
      · rw [if_neg hwc]
        have hle : min n (sizeT (count - sent)) ≤ sizeT (count - sent) := min_le_right _ _
        by_cases hlt : sent + (min n (sizeT (count - sent)) : ℕ) < count
        · rw [if_pos hlt]
          exact Or.inr (Or.inl ⟨_, Nat.pos_of_ne_zero hwc, hlt, rfl⟩)
        · rw [if_neg hlt]
          exact Or.inr (Or.inr ⟨_, by omega, rfl⟩)

end SmbProxy.Model
