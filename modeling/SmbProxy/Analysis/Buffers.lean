import SmbProxy.Analysis.Delivery
import SmbProxy.Analysis.ReceiveBounds

/-!
# No worker leaves its rings

A half asks for what is missing of a header or a message, after it has checked that there is
room, hands a message to `packet` that lies in its ring (`judged_in_ring`), and writes what is there. The acceptor
resets the rings of a context, but not while a worker is at work on them. So in every order of
the steps every worker stays in the buffers of its own context (`process_in_rings`).
-/

set_option autoImplicit false

namespace SmbProxy.Analysis

open SmbProxy.Library SmbProxy.Model SmbProxy.Interface

section Buffers

variable {packet : (ℤ → UInt8) → ℤ → ℤ} {passthrough : Bool} {half : Half}

/-- The message that is judged is all that is in the ring, which stays as it is. -/
theorem halfBody_judged (h : half.ring.AtStart) (hpos : 0 < half.ring.count)
    {received : List UInt8} {e : List UInt8 × ℤ}
    (he : e ∈ (halfBody packet passthrough half received).judged) :
    (halfBody packet passthrough half received).half.ring = half.ring ∧ passthrough = false ∧
      e = (half.ring.contents, halfVerdict packet passthrough half) := by
  rw [halfBody_eq h hpos] at he ⊢
  have hjudged : e ∈ (if passthrough then none
      else some (half.ring.contents, halfVerdict packet passthrough half)) := by
    by_cases hverdict : halfVerdict packet passthrough half ≠ 0
    · rw [if_pos hverdict] at he
      exact he
    · rw [if_neg hverdict] at he
      exact he
  refine ⟨by split_ifs <;> rfl, ?_⟩
  cases passthrough with
  | true => cases hjudged
  | false => exact ⟨rfl, (Option.some.inj hjudged).symm⟩

/-- **What is judged lies in the ring.** It is the readable region, and `packet` is given what is
behind its first four bytes. -/
theorem judged_in_ring (h : half.Waiting) {event : ReadEvent} {e : List UInt8 × ℤ}
    (he : e ∈ (halfRead packet passthrough half event).judged) :
    let ring := (halfRead packet passthrough half event).half.ring
    let region := butilRingContiguousReadPtr ring
    0 ≤ region.ptr ∧ 4 ≤ region.bytes ∧ region.ptr + region.bytes ≤ half.ring.size ∧
      e.1 = window ring.data region.ptr region.bytes.toNat ∧
      e.2 = packet (fun i => ring.data (region.ptr + 4 + i)) (region.bytes - 4) := by
  by_cases hshort : half.ring.size < half.packetRemain
  · rw [halfRead_of_short h.ring hshort] at he
    cases he
  have hroom := not_lt.mp hshort
  rcases tcpRead_chunk_cases h event with hfail | ⟨bytes, hfit, hread⟩
  · rw [halfRead_of_failed h.ring hroom hfail] at he
    cases he
  rw [halfRead_of_read h.ring hroom hread] at he ⊢
  obtain ⟨hring, -⟩ := received_atStart h hroom hfit
  by_cases hfull : half.ring.count + bytes.length = half.packetRemain
  case neg =>
    rw [if_neg hfull] at he
    cases he
  rw [if_pos hfull] at he ⊢
  by_cases hstate : half.packetState = .psHeader
  · rw [if_pos hstate] at he
    unfold halfHeader at he
    dsimp only at he
    split_ifs at he <;> cases he
  · have hbody := h.body hstate
    have hcount : (half.received bytes).ring.count = half.packetRemain := hfull
    rw [if_neg hstate] at he ⊢
    obtain ⟨hsame, hpass, rfl⟩ := halfBody_judged hring (by omega) he
    subst hpass
    dsimp only
    rw [hsame, readPtr_of_atStart hring]
    refine ⟨le_rfl, by dsimp only; omega, by dsimp only; omega, ?_, rfl⟩
    exact contents_of_atStart hring

end Buffers

/-- **No worker leaves its rings.** In every run of the process with rings of eight bytes or
more, whatever comes in and in whatever order the threads take their steps. -/
theorem process_in_rings (packet : Bool → (ℤ → UInt8) → ℤ → ℤ) (maxConnections : ℕ) (size : ℤ)
    (hsize : 8 ≤ size) (clientData serverData : ℕ → ℤ → UInt8) (locals : ℕ → ProxyLocals)
    (inputs : List ProcessInput) :
    let s := run (processStep packet)
      (Process.init maxConnections size clientData serverData locals) inputs
    ∀ i, s.handover.worker i = .proxy → InRings packet s size i := by
  intro s i hworker
  have hlinked : Linked (fun _ => True) Carried Exchanged size s :=
    run_carried packet (by omega) maxConnections clientData serverData locals inputs
  have hring : ∀ side, ((s.conn i).half side).ring.size = size := hlinked.size i
  have hcarried := hlinked.looping i hworker
  have hwaiting : ∀ side, (s.conn i).pc = .read side → ((s.conn i).half side).Waiting := by
    intro side hpc
    obtain ⟨judged, hflows⟩ := flows_of_carried hcarried hpc
    exact waiting_of_flows hflows hpc side
  refine ⟨hring, fun side hpc => ?_, fun side event hpc e he => ?_,
    fun side ioptr chunk sent hpc => ?_⟩
  · apply receiveInBounds_of_waiting (hwaiting side hpc)
    rw [hring side]
    exact hsize
  · have hhalf := sideHalf_packet packet side
    rw [hhalf] at he ⊢
    have hinside := judged_in_ring (hwaiting side hpc) he
    rw [hring side] at hinside
    exact hinside
  · have hwriting := writing_of_carried hcarried hpc
    rw [hring side] at hwriting
    exact hwriting

/-- Two workers in the loop, one of them in `tcp_write`. -/
theorem process_in_rings_two_clients :
    let accepts : List ProcessInput := List.replicate 8 (.acceptor ⟨0, 1, by decide⟩)
    let connects (i : ℕ) (server : ℤ) : List ProcessInput :=
      [.worker i .run, .worker i .run, .worker i .run, .worker i (.connect (.connected server)),
        .worker i .run]
    let inputs := .arrive 5 false :: accepts ++ .arrive 6 true :: accepts ++ connects 0 7 ++
      connects 1 8 ++ [.loop 1 (.read (.ready [0, 0, 0, 1])), .loop 1 (.read .timeout),
        .loop 1 (.read (.ready [0xAA]))]
    let s := run (processStep fun _ _ _ => -1)
      (Process.init 2 8 (fun _ _ => 0) (fun _ _ => 0) fun _ => .start) inputs
    (s.conn 1).pc = .write .client 0 5 0 ∧ InRings (fun _ _ _ => -1) s 8 0 ∧
      InRings (fun _ _ _ => -1) s 8 1 := by
  intro accepts connects inputs s
  have hrings := process_in_rings (fun _ _ _ => -1) 2 8 (by decide) (fun _ _ => 0) (fun _ _ => 0)
    (fun _ => .start) inputs
  exact ⟨by decide +kernel, hrings 0 (by decide +kernel), hrings 1 (by decide +kernel)⟩

end SmbProxy.Analysis
