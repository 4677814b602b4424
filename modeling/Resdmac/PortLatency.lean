import Resdmac.System

/-!
# The Time of an Access to the WD33C93

An access of the CPU may come at any moment of a session: a byte in transit is finished
first, and the last access has still to be wound up. The CPU waits for `_DSACK` meanwhile,
and it waits for a bounded number of clocks, whatever the DMA does.

## Main results

- `System.access_answered` — `_DSACK` comes within nine clocks
-/

namespace Resdmac

open Chip (Period)

namespace ScsiSm

/-- The clocks up to the one before `SET_DSACK`, with the CPU asking all the time. -/
def State.toDsack : State → ℕ
  | .s2c2 | .c2s1 => 1
  | .s2c1 => 2
  | .cpureq => 3
  | .c2s5 | .s2c6 => 5
  | .c2s2 | .s2c3 | .c2s3 | .s2c4 | .c2s4 | .s2c5 => 0
  | st => st.toIdle + 4

theorem State.toDsack_of_dma {st : State} (h : st.dma = true) : st.toDsack = st.toIdle + 4 := by
  cases st <;> first | rfl | exact Bool.noConfusion h

theorem State.toDsack_le (st : State) : st.toDsack ≤ 8 := by
  cases st <;> decide

/-- An access comes nearer to `SET_DSACK`, or there it is. -/
theorem nextState_toDsack {i : Inputs} {st : State} (hs : st.selects = true)
    (hd : setDsack st = false) :
    setDsack (nextState i st) = true ∨ (nextState i st).toDsack < st.toDsack := by
  cases st <;> first | exact Bool.noConfusion hs | exact Bool.noConfusion hd | skip
  case cpureq =>
    rw [nextState]
    split_ifs <;> exact .inr (by decide)
  all_goals first | exact .inl rfl | exact .inr (Nat.lt_succ_self _)

end ScsiSm

namespace System

variable {x : System} {q : Period}

/-- The cycle goes on as it was begun, and the CPU sees the `_DSACK` that the chip drives. -/
theorem BusRules.step_cycle (hq : BusRules x q) {b : BusCycle} (hb : x.cycle = some b)
    (hw : b.wd = true) (hs : b.seen = false) :
    (x.step q).cycle = some { b with seen := (x.chip.atSclkFall q).scsi.nls2cpu } := by
  have ha : q.clk90Fall.as_ = false := (hq.access b hb hw).trans hs
  obtain ⟨-, h1, h2, h3⟩ := hq.continues b hb ha
  have e : (x.step q).cycle = x.nextCycle q := rfl
  rw [e, nextCycle, ha, if_neg Bool.false_ne_true, h1, h2, h3, hb, ScsiSm.ls2cpu, Bool.not_not]
  rfl

/-- A period of an access that waits shows `_DSACK` to the CPU, or brings it nearer. -/
theorem Coupled.step_toDsack (hC : Coupled x) (hq : BusRules x q) {b : BusCycle}
    (hb : x.cycle = some b) (hw : b.wd = true) (hs : b.seen = false) :
    (x.step q).cycle = some { b with seen := true } ∨
      (x.step q).cycle = some b ∧
        (x.step q).chip.scsi.state.toDsack < x.chip.scsi.state.toDsack := by
  have h := hC.live hq
  have hC' := hC.step hq
  have hst : (x.step q).chip.scsi.state = ScsiSm.nextState (x.chip.scsiIn q) x.chip.scsi.state :=
    Chip.period_scsi_state h
  have hcyc := hq.step_cycle hb hw hs
  cases hn : (x.chip.atSclkFall q).scsi.nls2cpu with
  | true => exact .inl (by rw [hcyc, hn])
  | false =>
      have hcyc' : (x.step q).cycle = some b := by rw [hcyc, hn, ← hs]
      -- the CPU sees `SET_DSACK` in its clock
      have hset : ScsiSm.setDsack (x.step q).chip.scsi.state = false := by
        refine Bool.eq_false_iff.mpr fun hd => ?_
        obtain ⟨b', hb', -, hs'⟩ := hC'.selects (ScsiSm.selects_of_setDsack hd)
        obtain rfl := Option.some.inj (hcyc'.symm.trans hb')
        rw [hs, hd] at hs'
        exact Bool.noConfusion hs'
      refine .inr ⟨hcyc', ?_⟩
      rw [hst] at hset ⊢
      rcases ScsiSm.State.cases x.chip.scsi.state with hdma | hsel | hl | hp
      · have hcc : (x.chip.scsiIn q).ccpureq = true := by
          rw [Chip.scsiIn_eq h, hC.request, hb]
          exact hw
        have hnext := ScsiSm.nextState_of_ccpureq hcc hdma
        rw [ScsiSm.State.toDsack_of_dma hdma]
        split_ifs at hnext with h0
        · rw [hnext]
          exact Nat.lt_add_left _ (by decide)
        · rw [ScsiSm.State.toDsack_of_dma hnext.1]
          omega
      · obtain ⟨b', hb', -, hs'⟩ := hC.selects hsel
        obtain rfl := Option.some.inj (hb.symm.trans hb')
        exact (ScsiSm.nextState_toDsack hsel (hs'.symm.trans hs)).resolve_left
          (ne_true_of_eq_false hset)
      · have hc := (hC.leaving hl).1
        rw [hb] at hc
        exact absurd hc (Option.some_ne_none b)
      · have hnext : ScsiSm.nextState (x.chip.scsiIn q) x.chip.scsi.state = .idleDmaRd :=
          ScsiSm.nextState_parked (by rw [Chip.scsiIn_eq h]; exact hC.parked hp) hp
        rw [hnext]
        revert hp
        cases x.chip.scsi.state <;> intro hp <;> first | exact Bool.noConfusion hp | decide

/-- An access of the CPU to the WD33C93 gets its `_DSACK` within nine clocks, at whatever
moment of the DMA it begins and whatever the WD33C93, memory and the arbiter do. -/
theorem access_answered (hC : Coupled x) {b : BusCycle} (hb : x.cycle = some b)
    (hw : b.wd = true) (hs : b.seen = false) {qs : List Period}
    (hqs : Runs.Along step BusRules x qs) (hl : 9 ≤ qs.length) :
    ∃ ps, ps <+: qs ∧ ps.length ≤ 9 ∧
      (Runs.run step x ps).cycle = some { b with seen := true } := by
  have hle := x.chip.scsi.state.toDsack_le
  obtain ⟨ps, hpre, hlen, hg⟩ := Runs.reaches_within
    (I := fun y => Coupled y ∧ y.cycle = some b) (μ := fun y => y.chip.scsi.state.toDsack)
    (G := fun y => y.cycle = some { b with seen := true })
    (fun y q ⟨hC, hb⟩ hq => (hC.step_toDsack hq hb hw hs).imp_right fun ⟨h1, h2⟩ =>
      ⟨⟨hC.step hq, h1⟩, h2⟩)
    ⟨hC, hb⟩ hqs (Nat.lt_of_le_of_lt hle hl)
  exact ⟨ps, hpre, by omega, hg⟩

/-- The CPU begins to read the WD33C93 where a byte for the FIFO is begun. -/
theorem access_answered_fresh :
    let p : Pins := { as_ := false, ds_ := false, cs_ := false, addr := 0x10, dreq_ := false }
    let x := Runs.run step (fresh false false) [.steady { dreq_ := false },
      { Period.steady { dreq_ := false } with clk90Fall := p, clk135Fall := p }]
    ∃ ps, ps <+: List.replicate 9 (Period.steady p) ∧ ps.length ≤ 9 ∧
      (Runs.run step x ps).cycle = some ⟨0x10, false, true, true⟩ :=
  access_answered (b := ⟨0x10, false, true, false⟩)
    (Runs.invariant_run (fun _ _ hC hq => hC.step hq) (fresh_start false false).coupled
      (by decide +kernel : Runs.Along step BusRules (fresh false false) _))
    (by decide +kernel) (by decide +kernel) rfl (by decide +kernel) (by decide)

end System

end Resdmac
