import SmbProxy.Analysis.ProxyRun

/-!
# The proxy forwards faithfully and only what was accepted

Both read off the flow of a direction: `forwards_of_flow` for any mode, `validates_of_flow`
when the messages are judged. `proxy_forwards` is the statement over every run.
-/

set_option autoImplicit false

namespace SmbProxy.Analysis

open SmbProxy.Library SmbProxy.Model SmbProxy.Interface

/-- **Every byte sent was received, in order.** -/
theorem forwards_of_flow {c : Conn} {side : Side}
    (h : Flow c.passthrough (c.half side) (c.socket side).rx (c.socket side.peer).tx
      (c.judged side) (phaseOf side c.pc)) : Forwards c side := by
  -- With a whole block in the ring, what is sent of it is one of its initial parts.
  have hblock : ∀ before sent, (c.socket side).rx = before ++ (c.half side).ring.contents →
      (c.socket side.peer).tx = before ++ (c.half side).ring.contents.take sent →
      (c.socket side.peer).tx <+: (c.socket side).rx := by
    intro before sent hrx htx
    rw [hrx, htx, List.prefix_append_right_inj]
    exact List.take_prefix _ _
  have hwait : (c.socket side).rx = (c.socket side.peer).tx ++ (c.half side).ring.contents →
      Forwards c side :=
    fun hrx => ⟨⟨_, hrx.symm⟩, fun _ _ => hrx, (c.socket side.peer).tx, 0, hrx, by simp⟩
  generalize hphase : phaseOf side c.pc = phase at h
  cases h with
  | waiting _ hrx => exact hwait hrx
  | left _ _ _ hrx => exact hwait hrx
  | rejected _ hrx => exact hwait hrx
  | @writing before sent _ _ _ _ hrx htx =>
      have hwriting : c.Writing side := ⟨_, _, _, writing_of_phaseOf hphase⟩
      exact ⟨hblock before sent hrx htx, fun hno => absurd hwriting hno, before, sent, hrx, htx⟩
  | @writeFailed before sent _ hrx htx =>
      have hfailed : c.WriteFailed side := left_of_phaseOf hphase
      exact ⟨hblock before sent hrx htx, fun _ hno => absurd hfailed hno, before, sent, hrx, htx⟩

/-- Accepted blocks, and behind them at most one that was rejected. -/
theorem validates_of_blocks {c : Conn} {side : Side} {accepted tail : List (List UInt8 × ℤ)}
    (hjudged : c.judged side = accepted ++ tail) (hzero : ∀ e ∈ accepted, e.2 = 0)
    (hsent : (c.socket side.peer).tx <+: (accepted.map Prod.fst).flatten)
    (htail : ∀ e ∈ tail, e.2 ≠ 0 ∧ tail = [e] ∧
      (c.socket side).rx = (accepted.map Prod.fst).flatten ++ e.1) : Validates c side := by
  constructor
  · have hall : accepted.filter (fun e => decide (e.2 = 0)) = accepted :=
      List.filter_eq_self.mpr fun e he => decide_eq_true (hzero e he)
    have hnone : tail.filter (fun e => decide (e.2 = 0)) = [] :=
      List.filter_eq_nil_iff.mpr fun e he => by simp [(htail e he).1]
    rw [hjudged, List.filter_append, hall, hnone, List.append_nil]
    exact hsent
  · intro before block verdict after hsplit hne
    rw [hjudged] at hsplit
    rcases List.append_eq_append_iff.mp hsplit with ⟨middle, hbefore, htailEq⟩ | ⟨middle, haccepted, htailEq⟩
    · -- The rejected block is the one in `tail`.
      have hmem : (block, verdict) ∈ tail := by simp [htailEq]
      obtain ⟨-, hone, hrx⟩ := htail _ hmem
      rw [hone] at htailEq
      have hmiddle : middle = [] := by
        have hlength := congrArg List.length htailEq
        simp only [List.length_append, List.length_cons, List.length_nil] at hlength
        exact List.length_eq_zero_iff.mp (by omega)
      rw [hbefore, hmiddle, List.append_nil]
      exact ⟨hrx ▸ List.prefix_refl _, hsent⟩
    · cases middle with
      | nil =>
          have hmem : (block, verdict) ∈ tail := by
            rw [List.nil_append] at htailEq
            simp [← htailEq]
          rw [List.append_nil] at haccepted
          obtain ⟨-, -, hrx⟩ := htail _ hmem
          rw [← haccepted]
          exact ⟨hrx ▸ List.prefix_refl _, hsent⟩
      | cons e middle =>
          have hhead : (block, verdict) = e := by
            rw [List.cons_append, List.cons.injEq] at htailEq
            exact htailEq.1
          exact absurd (hzero (block, verdict) (by simp [haccepted, hhead])) hne

/-- **Nothing of a rejected block is sent.** -/
theorem validates_of_flow {c : Conn} {side : Side} (hpass : c.passthrough = false)
    (h : Flow c.passthrough (c.half side) (c.socket side).rx (c.socket side.peer).tx
      (c.judged side) (phaseOf side c.pc)) : Validates c side := by
  have hquiet : Accepted c.passthrough (c.judged side) (c.socket side.peer).tx →
      Validates c side := by
    intro haccepted
    obtain ⟨htx, hzero⟩ := haccepted hpass
    exact validates_of_blocks (List.append_nil _).symm hzero (htx ▸ List.prefix_refl _) (by simp)
  have hsending : Accepted c.passthrough (c.judged side) (c.socket side).rx →
      Validates c side := by
    intro haccepted
    obtain ⟨hrx, hzero⟩ := haccepted hpass
    exact validates_of_blocks (List.append_nil _).symm hzero (hrx ▸ (forwards_of_flow h).sent)
      (by simp)
  generalize phaseOf side c.pc = phase at h
  cases h with
  | waiting _ _ haccepted => exact hquiet haccepted
  | left _ _ _ _ haccepted => exact hquiet haccepted
  | writing _ _ _ _ _ _ haccepted => exact hsending haccepted
  | writeFailed _ _ _ haccepted => exact hsending haccepted
  | @rejected accepted verdict _ hrx hne hjudged haccepted =>
      obtain ⟨htx, hzero⟩ := haccepted hpass
      refine validates_of_blocks hjudged hzero (htx ▸ List.prefix_refl _) ?_
      intro e he
      rw [List.mem_singleton] at he
      subst he
      exact ⟨hne, rfl, by rw [hrx, htx]⟩

/-- **Faithful forwarding over every run.** Whatever the environment does and whatever the
verdicts are, at every moment either side has been sent bytes that were received from the
other, in order, what is missing of them is in the ring, and if the messages are judged,
nothing of a rejected block is among them. -/
theorem proxy_forwards (packet : Bool → (ℤ → UInt8) → ℤ → ℤ) (size : ℤ) (hsize : 1 ≤ size)
    (data : Side → ℤ → UInt8) (inputs : List Input) (side : Side) :
    let c := run (step packet) (Conn.init size data) inputs
    Forwards c side ∧ (c.passthrough = false → Validates c side) := by
  intro c
  have hflow := run_flows packet hsize data inputs side
  exact ⟨forwards_of_flow hflow, fun hpass => validates_of_flow hpass hflow⟩

/-- One message is accepted and sent in two parts, the next one is rejected. -/
theorem proxy_forwards_two_messages :
    let packet : Bool → (ℤ → UInt8) → ℤ → ℤ := fun _ _ bytes => if bytes = 2 then -1 else 0
    let inputs : List Input :=
      [.start false, .read (.ready [0, 0, 0, 1]), .read .timeout, .read (.ready [0xAA, 0]),
        .write (.sent 2), .write (.sent 9), .read .timeout, .read (.ready [0, 0, 0, 2]),
        .read .timeout, .read (.ready [0xBB, 0xCC])]
    let c := run (step packet) (Conn.init 16 fun _ _ => 0) inputs
    (c.socket .server).tx = [0, 0, 0, 1, 0xAA] ∧ Forwards c .client ∧ Validates c .client := by
  intro packet inputs c
  obtain ⟨hforwards, hvalidates⟩ := proxy_forwards packet 16 (by decide) (fun _ _ => 0) inputs .client
  exact ⟨by decide +kernel, hforwards, hvalidates (by decide +kernel)⟩

end SmbProxy.Analysis
