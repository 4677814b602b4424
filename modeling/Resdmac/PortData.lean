import Resdmac.Contention
import Resdmac.System

/-!
# The Data of an Access to the WD33C93

An access of the CPU shares `SCSI_SM`, the two latches of the peripheral port and the
multiplexer of `DATA_O` with the DMA. It may come at any moment of a session of either
direction: a byte in transit is finished first, and the access itself moves nothing in
the FIFO. `S2CPU_o` outlasts the cycle of the CPU by two clocks, and `CPU_SM` needs one
clock more than that to switch `DATA_O` to the FIFO.

## Main definitions

- `System.Port` — the access follows the cycle of the CPU
- `System.Served` — what the CPU, the WD33C93 and memory see of an access

## Main results

- `System.port_access` — every access in every session is served so
-/

namespace Resdmac

open Chip (Period)

namespace Chip

/-! ## §1 The latches of the port -/

section Edges

variable {s : Chip} {q : Period} (h : Live s q)
include h

/-- The receive latch takes `PD_PORT` while `_DSACK` is driven. -/
theorem atClk90Fall_rxLatched :
    (s.atClk90Fall q).path.rxLatched =
      if (s.scsiOut q).s2cpu then
        if (s.atSclkFall q).scsi.ls2cpu then (s.atSclkFall q).path.rxLatched else q.sclkFall.pd
      else 0 := by
  have ho : ((s.atSclkFall q).scsi.sclkFall q.sclkFall.rst_).out = s.scsiOut q :=
    atSclkFall_scsi_out h
  rw [atClk90Fall_eq h]
  simp only [clear, onSclkFall, Datapath.settle, Datapath.sclkFall, scsiDataRx,
    Datapath.scsiDataRx, atSclkFall_scsi_out h, ho]
  cases (s.scsiOut q).s2cpu <;> cases (s.atSclkFall q).scsi.ls2cpu <;> simp

/-- From SCLK falling to the next one the receive latch is only cleared. -/
theorem atSclkFall_rxLatched (hs : s.scsi.out.s2cpu = true) (hs' : (s.scsiOut q).s2cpu = true) :
    (s.atClk135Rise q).path.rxLatched = s.path.rxLatched ∧
      (s.atSclkFall q).path.rxLatched = s.path.rxLatched := by
  have h1 : (s.atClk90Rise q).path.rxLatched = s.path.rxLatched := by
    rw [atClk90Rise_eq h]
    simp [clear, onSclkRise, Datapath.settle, Datapath.sclkRise, hs]
  have h2 : (s.atClk135Rise q).path.rxLatched = s.path.rxLatched := by
    rw [← h1, atClk135Rise_eq h]
    simp [clear, Datapath.settle, hs']
  refine ⟨h2, ?_⟩
  rw [← h2, atSclkFall_eq h]
  have h3 : (s.atClk135Rise q).scsi.out.s2cpu = true := by
    rw [← hs', atClk135Rise_eq h]
    rfl
  simp [clear, Datapath.settle, ScsiSm.clk135Rise, h3]

end Edges

/-- While the CPU reads the port `DATA_O` is the receive latch, on two lanes. -/
theorem dataO_of_s2cpu {s : Chip} (p : Pins) (h : s.scsi.out.s2cpu = true) :
    s.dataO p = ⟨0, s.path.rxLatched, 0, s.path.rxLatched⟩ := by
  simp [dataO, Datapath.dataO, Datapath.modScsi, h]

/-- While the CPU writes the port the transmit latch takes its byte at CLK135 falling. -/
theorem period_txLatched_cpu {s : Chip} {q : Period} (h : Live s q)
    (hc : (s.scsiOut q).cpu2s = true) (hf : (s.scsiOut q).f2s = false) :
    (s.period q).path.txLatched =
      if q.clk135Fall.addr.getLsbD 1 then q.clk135Fall.data.um else q.clk135Fall.data.ll := by
  have ho : (s.atClk135Fall q).scsi.out = s.scsiOut q := by
    rw [← atSclkFall_scsi_out h, atClk135Fall_eq h, atClk90Fall_eq h]
    rfl
  have hd : (s.atClk135Fall q).cpuOd q.clk135Fall = q.clk135Fall.data := by
    simp [cpuOd, Datapath.cpuOd, ho, hc]
  show Datapath.scsiDataTx _ ((s.atClk135Fall q).cpuOd q.clk135Fall) (s.atClk135Fall q).scsi.out.cpu2s
    (s.atClk135Fall q).scsi.out.f2s _ _ _ = _
  rw [hd, ho, hc, hf]
  cases q.clk135Fall.addr.getLsbD 1 <;> rfl

/-- What `SCSI_SM` puts out at the first two edges is from before the period, and later what
it puts out in the period. -/
theorem scsi_out_samples {s : Chip} {q : Period} (h : Live s q) {e : Chip × Pins}
    (he : e ∈ s.samples q) :
    e.1.scsi.out = s.scsi.out ∧ e.1.asO_ = s.asO_ ∧ e.1.own = s.own ∨
      e.1.scsi.out = s.scsiOut q ∧ (e.1.asO_ = s.asO_ ∨ e.1.asO_ = !(s.cpuOut q).pas) ∧
        e.1.own = (s.cpuOut q).bgack := by
  have h1 : (s.atClk90Rise q).asO_ = s.asO_ := by rw [atClk90Rise_eq h]; rfl
  have h2 : (s.atClk135Rise q).asO_ = s.asO_ := by rw [← h1, atClk135Rise_eq h]; rfl
  have h3 : (s.atClk90Fall q).asO_ = !(s.cpuOut q).pas := by
    rw [← atSclkFall_cpu_out h, atClk90Fall_eq h]; rfl
  have h4 : (s.atClk135Fall q).asO_ = !(s.cpuOut q).pas := by
    rw [← h3, atClk135Fall_eq h]; rfl
  have h5 : (s.atClk90Fall q).scsi.out = s.scsiOut q := by
    rw [← atSclkFall_scsi_out h, atClk90Fall_eq h]; rfl
  simp only [samples, List.mem_cons, List.not_mem_nil, or_false] at he
  rcases he with rfl | rfl | rfl | rfl | rfl | rfl
  · exact .inl (by rw [atSclkRise, settle_eq_clear h.1 h.2.1]; exact ⟨rfl, rfl, rfl⟩)
  · exact .inl (by rw [atClk90Rise_eq h]; exact ⟨rfl, rfl, rfl⟩)
  · refine .inr ⟨?_, .inl h2, ?_⟩ <;> rw [atClk135Rise_eq h] <;> rfl
  · exact .inr ⟨atSclkFall_scsi_out h, .inl (atSclkFall_asO_ h), by
      rw [own, atSclkFall_cpu_out h]⟩
  · exact .inr ⟨h5, .inr h3, by rw [own, atClk90Fall_cpu_out h]⟩
  · refine .inr ⟨?_, .inr h4, atClk135Fall_own h⟩
    rw [← h5, atClk135Fall_eq h]
    rfl

/-- The transmit latch is loaded only at the last edge. -/
theorem txLatched_samples {s : Chip} {q : Period} (h : Live s q) {e : Chip × Pins}
    (he : e ∈ s.samples q) : e.1.path.txLatched = s.path.txLatched := by
  have h1 : (s.atClk90Rise q).path.txLatched = s.path.txLatched := by rw [atClk90Rise_eq h]; rfl
  have h2 : (s.atClk135Rise q).path.txLatched = s.path.txLatched := by
    rw [← h1, atClk135Rise_eq h]; rfl
  have h3 : (s.atSclkFall q).path.txLatched = s.path.txLatched := by
    rw [← h2, atSclkFall_eq h]; rfl
  have h4 : (s.atClk90Fall q).path.txLatched = s.path.txLatched := by
    rw [← h3, atClk90Fall_eq h]; rfl
  simp only [samples, List.mem_cons, List.not_mem_nil, or_false] at he
  rcases he with rfl | rfl | rfl | rfl | rfl | rfl
  · rw [atSclkRise, settle_eq_clear h.1 h.2.1]; rfl
  · exact h1
  · exact h2
  · exact h3
  · exact h4
  · rw [← h4, atClk135Fall_eq h]; rfl

end Chip

namespace System

/-! ## §2 The access follows the cycle -/

/-- The access in `SCSI_SM` is the one of the cycle of the CPU. -/
structure Port (x : System) : Prop where
  lbyte_ : x.chip.scsi.lbyte_ = false →
    x.chip.scsi.state = .s2f1 ∨ x.chip.scsi.state = .s2f2
  writing : x.chip.scsi.state.writing = true → ∀ b ∈ x.cycle, b.rw = false
  reading : x.chip.scsi.state.reading = true → ∀ b ∈ x.cycle, b.rw = true
  strobes : x.chip.llw = true ∨ x.chip.lhw = true → x.chip.cpu.state.loading = true

/-- A cycle that goes on keeps its address and its direction. -/
theorem step_rw {x : System} {q : Period} (hq : BusRules x q) {b b' : BusCycle}
    (hb : b ∈ x.cycle) (hb' : b' ∈ (x.step q).cycle) : b'.addr = b.addr ∧ b'.rw = b.rw := by
  change x.nextCycle q = some b' at hb'
  rw [nextCycle] at hb'
  split_ifs at hb' with ha
  obtain rfl := Option.some.inj hb'
  obtain ⟨-, -, h3, h4⟩ := hq.continues b hb (Bool.eq_false_iff.mpr ha)
  exact ⟨h3, h4⟩

section Access

variable {x : System} {q : Period} (hC : Coupled x) (hq : BusRules x q)
include hC hq

/-- `SCSI_SM` reads the direction of the cycle. -/
theorem scsiIn_rw {b : BusCycle} (hb : b ∈ x.cycle) : (x.chip.scsiIn q).rw = b.rw := by
  have ho : x.chip.own = false := by
    rw [hC.own]
    exact (hC.busy (by rw [hb]; rfl)).1
  have hp := hq.shown.2.1
  rw [show x.cycle = some b from hb] at hp
  rw [Chip.scsiIn_eq (hC.live hq), ← hp.2.2.2]
  simp [Chip.rw, ho]

theorem Port.step (hP : Port x) : Port (x.step q) := by
  have h := hC.live hq
  have e : (x.step q).chip.scsi.state =
      ScsiSm.nextState (x.chip.scsiIn q) x.chip.scsi.state := Chip.period_scsi_state h
  have hsel := (hC.step hq).selects
  -- a state of an access belongs to the cycle in which it was entered
  have hrw : ∀ {r : Bool}, (x.step q).chip.scsi.state.selects = true →
      (x.chip.scsi.state = .cpureq ∧ (x.chip.scsiIn q).rw = r ∨
        (∀ b ∈ x.cycle, b.rw = r) ∧ x.chip.scsi.state.selects = true) →
      ∀ b ∈ (x.step q).cycle, b.rw = r := by
    intro r hs hr b' hb'
    have hs' : x.chip.scsi.state.selects = true := by
      rcases hr with ⟨hc, -⟩ | ⟨-, hs'⟩
      · rw [hc]; rfl
      · exact hs'
    obtain ⟨b, hb, -⟩ := hC.selects hs'
    rw [(step_rw hq hb hb').2]
    rcases hr with ⟨-, hr⟩ | ⟨hr, -⟩
    · rw [← scsiIn_rw hC hq hb, hr]
    · exact hr b hb
  refine ⟨fun hl => ?_, fun hw => ?_, fun hr => ?_, fun hs => ?_⟩
  · have hl : ((x.chip.scsiOut q).dack && (x.chip.scsiOut q).re) = true := by
      rw [← Bool.not_eq_false', ← Chip.period_scsi_out h]
      exact hl
    rw [e]
    exact ScsiSm.lbyte_spec (Bool.and_eq_true_iff.mp hl)
  · have hs := ScsiSm.State.selects_of_writing hw
    rw [e] at hw
    apply hrw hs
    rcases ScsiSm.nextState_writing hw with hc | hc
    · exact .inl hc
    · exact .inr ⟨hP.writing hc, ScsiSm.State.selects_of_writing hc⟩
  · have hs := ScsiSm.State.selects_of_reading hr
    rw [e] at hr
    apply hrw hs
    rcases ScsiSm.nextState_reading hr with hc | hc
    · exact .inl hc
    · exact .inr ⟨hP.reading hc, ScsiSm.State.selects_of_reading hc⟩
  · change (x.chip.period q).llw = true ∨ (x.chip.period q).lhw = true at hs
    rw [Chip.period_llw h, Chip.period_lhw h] at hs
    change (x.chip.period q).cpu.state.loading = true
    rw [Chip.period_cpu_state h]
    exact CpuSm.strobe_spec hs

end Access

theorem Start.port {x : System} (hs : Start x) : Port x := by
  have hd : x.chip.scsi.state.selects = false := by
    rcases hs.dma.scsi_state with e | e <;> rw [e] <;> rfl
  refine ⟨fun hl => ?_, fun hw => ?_, fun hr => ?_, fun h => ?_⟩
  · rw [ScsiSm.lbyte_, hs.dma.scsi_out] at hl
    exact Bool.noConfusion hl
  · rw [ScsiSm.State.selects_of_writing hw] at hd
    exact Bool.noConfusion hd
  · rw [ScsiSm.State.selects_of_reading hr] at hd
    exact Bool.noConfusion hd
  · rw [hs.dma.llw, hs.dma.lhw] at h
    simp at h

/-! ## §3 What is seen of an access -/

/-- What is seen of an access to the WD33C93 in the period `q` and the one after it.

- A read shows `PD_PORT`, as it was at the SCLK falling edge with `_DSACK` low, on two lanes
  of `DATA_O` from that edge until the CPU negates `AS_`.
- A write drives `PD_PORT` with `D7-0` or, with `A3` set, `D23-16`, from the first CLK135
  falling edge after `WE_o` rises through the period in which it falls.
- The access changes nothing in the FIFO and requests nothing; `COUNT` moves only for a byte
  that was in transit before it.
- While the chip drives `AS_O_` low, the data paths of the CPU are closed. -/
structure Served (x : System) (q q' : Period) : Prop where
  read : (x.chip.atSclkFall q).scsi.ls2cpu = false → ∀ b ∈ x.cycle, b.rw = true →
    (x.chip.atSclkFall q).scsi.out.re = true ∧ (x.chip.atSclkFall q).scsi.out.scsiCs = true ∧
      q'.clk90Fall.as_ = true ∧
      ∀ e ∈ (x.chip.samples q).drop 4 ++ ((x.step q).chip.samples q').take 4,
        e.1.dataO e.2 = ⟨0, q.sclkFall.pd, 0, q.sclkFall.pd⟩
  write : (x.step q).chip.scsi.out.we = true → (x.step q).chip.scsi.out.cpu2s = true →
    ∃ b ∈ (x.step q).cycle, b.wd = true ∧ b.rw = false ∧
      ∀ e ∈ (x.step q).chip.samples q', e.1.pdOe = true ∧
        e.1.pdOut = if b.addr.getLsbD 1 then q.clk135Fall.data.um else q.clk135Fall.data.ll
  silent : x.chip.scsi.state.dma = false ∨ (x.step q).chip.scsi.state.dma = false →
    ((x.step q).chip.scsi.rififoO = true → x.chip.scsi.rififoO = true) ∧
      ((x.step q).chip.scsi.rdfifoO = true → x.chip.scsi.rdfifoO = true) ∧
      (x.chip.rstFifo_ = true → x.chip.rstOut_ q = true →
        (x.step q).chip.fifo = { x.chip.fifo with count := (x.step q).chip.fifo.count } ∧
        (x.chip.scsi.rififoO = false → x.chip.scsi.rdfifoO = false →
          (x.step q).chip.fifo.count = x.chip.fifo.count))
  apart : ∀ e ∈ x.chip.samples q, e.1.asO_ = false →
    e.1.scsi.out.s2cpu = false ∧ e.1.scsi.out.cpu2s = false

section Access

variable {x : System} {q q' : Period} (hC : Coupled x) (hP : Port x) (hq : BusRules x q)
include hC hP hq

omit hP in
/-- The byte latched at the SCLK falling edge stays on `DATA_O` up to the next one. -/
theorem dataO_of_latched (hq' : BusRules (x.step q) q')
    (hl : (x.chip.atSclkFall q).scsi.ls2cpu = false)
    (hs : (x.chip.scsiOut q).s2cpu = true) (hs' : ((x.step q).chip.scsiOut q').s2cpu = true) :
    ∀ e ∈ (x.chip.samples q).drop 4 ++ ((x.step q).chip.samples q').take 4,
      e.1.dataO e.2 = ⟨0, q.sclkFall.pd, 0, q.sclkFall.pd⟩ := by
  have h := hC.live hq
  have h' := (hC.step hq).live hq'
  -- the latch is loaded at the SCLK falling edge and kept while `S2CPU_o` is set
  have o5 : (x.chip.atClk90Fall q).scsi.out = x.chip.scsiOut q := by
    rw [← Chip.atSclkFall_scsi_out h, Chip.atClk90Fall_eq h]; rfl
  have o6 : (x.chip.atClk135Fall q).scsi.out = x.chip.scsiOut q := by
    rw [← o5, Chip.atClk135Fall_eq h]; rfl
  have r5 : (x.chip.atClk90Fall q).path.rxLatched = q.sclkFall.pd := by
    rw [Chip.atClk90Fall_rxLatched h, hs, hl]
    rfl
  have r6 : (x.chip.atClk135Fall q).path.rxLatched = q.sclkFall.pd := by
    rw [← r5, Chip.atClk135Fall_eq h]
    exact if_pos (by rw [show ((x.chip.atClk90Fall q).onClk90Fall q.clk90Fall).scsi.out =
      x.chip.scsiOut q from o5]; exact hs)
  have r0 : (x.step q).chip.path.rxLatched = q.sclkFall.pd := r6
  have o0 : (x.step q).chip.scsi.out.s2cpu = true := by
    rw [show (x.step q).chip.scsi.out = x.chip.scsiOut q from Chip.period_scsi_out h]
    exact hs
  have r1 : ((x.step q).chip.atSclkRise q').path.rxLatched = q.sclkFall.pd := by
    rw [Chip.atSclkRise, Chip.settle_eq_clear h'.1 h'.2.1, ← r0]
    exact if_pos o0
  have r2 : ((x.step q).chip.atClk90Rise q').path.rxLatched = q.sclkFall.pd := by
    rw [Chip.atClk90Rise_eq h', ← r0]
    simp [Chip.clear, Chip.onSclkRise, Datapath.settle, Datapath.sclkRise, o0]
  obtain ⟨r3, r4⟩ := Chip.atSclkFall_rxLatched h' o0 hs'
  rw [r0] at r3 r4
  intro e he
  have hmem : e ∈ [((x.chip.atClk90Fall q), q.clk90Fall), ((x.chip.atClk135Fall q), q.clk135Fall),
      ((x.step q).chip.atSclkRise q', q'.sclkRise),
      ((x.step q).chip.atClk90Rise q', q'.clk90Rise),
      ((x.step q).chip.atClk135Rise q', q'.clk135Rise),
      ((x.step q).chip.atSclkFall q', q'.sclkFall)] := he
  simp only [List.mem_cons, List.not_mem_nil, or_false] at hmem
  rcases hmem with rfl | rfl | rfl | rfl | rfl | rfl
  · rw [Chip.dataO_of_s2cpu _ (by rw [o5]; exact hs), r5]
  · rw [Chip.dataO_of_s2cpu _ (by rw [o6]; exact hs), r6]
  · rw [Chip.dataO_of_s2cpu _ (by
      rw [Chip.atSclkRise, Chip.settle_eq_clear h'.1 h'.2.1]; exact o0), r1]
  · rw [Chip.dataO_of_s2cpu _ (by rw [Chip.atClk90Rise_eq h']; exact o0), r2]
  · rw [Chip.dataO_of_s2cpu _ (by rw [Chip.atClk135Rise_eq h']; exact hs'), r3]
  · rw [Chip.dataO_of_s2cpu _ (by rw [Chip.atSclkFall_scsi_out h']; exact hs'), r4]

theorem served_read (hq' : BusRules (x.step q) q')
    (hl : (x.chip.atSclkFall q).scsi.ls2cpu = false) {b : BusCycle} (hb : b ∈ x.cycle)
    (hr : b.rw = true) :
    (x.chip.atSclkFall q).scsi.out.re = true ∧ (x.chip.atSclkFall q).scsi.out.scsiCs = true ∧
      q'.clk90Fall.as_ = true ∧
      ∀ e ∈ (x.chip.samples q).drop 4 ++ ((x.step q).chip.samples q').take 4,
        e.1.dataO e.2 = ⟨0, q.sclkFall.pd, 0, q.sclkFall.pd⟩ := by
  have h := hC.live hq
  have es : (x.step q).chip.scsi.state =
      ScsiSm.nextState (x.chip.scsiIn q) x.chip.scsi.state := Chip.period_scsi_state h
  have hset : ScsiSm.setDsack (x.step q).chip.scsi.state = true := by
    rw [es]
    refine Bool.eq_true_of_not_eq_false fun hn => ?_
    rw [ScsiSm.ls2cpu, (Chip.period_nls2cpu_eq_false h hn).1] at hl
    exact Bool.noConfusion hl
  obtain ⟨b', hb', hw', hseen⟩ := (hC.step hq).selects (ScsiSm.selects_of_setDsack hset)
  rw [hset] at hseen
  have h4 : (x.step q).chip.scsi.state = .s2c4 := by
    rcases ScsiSm.eq_of_setDsack hset with h4 | hw
    · exact h4
    · -- a write has the other direction
      have hf := (hP.step hC hq).writing hw b' hb'
      rw [(step_rw hq hb hb').2, hr] at hf
      exact Bool.noConfusion hf
  obtain ⟨hre, hcs, hs⟩ := ScsiSm.nextState_eq_s2c4 (es.symm.trans h4)
  have hs' : ((x.step q).chip.scsiOut q').s2cpu = true := by rw [Chip.scsiOut, h4]; rfl
  refine ⟨?_, ?_, (hq'.access b' hb' hw').trans hseen, dataO_of_latched hC hq hq' hl hs hs'⟩
  · rw [Chip.atSclkFall_scsi_out h]; exact hre
  · rw [Chip.atSclkFall_scsi_out h]; exact hcs

theorem served_write (hq' : BusRules (x.step q) q') (hw : (x.step q).chip.scsi.out.we = true)
    (hc : (x.step q).chip.scsi.out.cpu2s = true) :
    ∃ b ∈ (x.step q).cycle, b.wd = true ∧ b.rw = false ∧
      ∀ e ∈ (x.step q).chip.samples q', e.1.pdOe = true ∧
        e.1.pdOut = if b.addr.getLsbD 1 then q.clk135Fall.data.um else q.clk135Fall.data.ll := by
  have h := hC.live hq
  have h' := (hC.step hq).live hq'
  have hout : (x.step q).chip.scsi.out = x.chip.scsiOut q := Chip.period_scsi_out h
  have hst : (x.step q).chip.scsi.state.writing = true := by
    change (x.chip.period q).scsi.state.writing = true
    rw [Chip.period_scsi_state h, ← ScsiSm.we_cpu2s_eq, Bool.and_eq_true]
    rw [hout] at hw hc
    exact ⟨hw, hc⟩
  obtain ⟨b, hb, hwd, -⟩ := (hC.step hq).selects (ScsiSm.State.selects_of_writing hst)
  refine ⟨b, hb, hwd, (hP.step hC hq).writing hst b hb, fun e he => ?_⟩
  have hc1 : (x.chip.scsiOut q).cpu2s = true := hout ▸ hc
  have hf1 : (x.chip.scsiOut q).f2s = false := ScsiSm.f2s_of_cpu2s hc1
  obtain ⟨hc2, hf2⟩ := ScsiSm.cpu2s_of_writing (i := (x.step q).chip.scsiIn q') hst
  -- the transmit latch has the byte that the CPU drove at the last edge
  have htx : e.1.path.txLatched =
      if b.addr.getLsbD 1 then q.clk135Fall.data.um else q.clk135Fall.data.ll := by
    have ha : q.clk135Fall.addr = b.addr := by
      have hsh := hq.follows
      rw [show x.nextCycle q = some b from hb] at hsh
      exact hsh.2.2.1
    rw [Chip.txLatched_samples h' he, ← ha]
    exact Chip.period_txLatched_cpu h hc1 hf1
  have hcl : e.1.scsi.out.cpu2s = true := by
    rcases Chip.scsi_out_samples h' he with ⟨ho, -⟩ | ⟨ho, -⟩
    · rw [ho]; exact hc
    · rw [ho]; exact hc2
  refine ⟨by rw [Chip.pdOe, hcl, Bool.or_true], ?_⟩
  rw [Chip.pdOut, hcl, Bool.or_true, ← htx]
  rfl

/-- In an access neither machine moves anything in the FIFO, and no strobe is armed. -/
theorem idle_of_access
    (ha : x.chip.scsi.state.dma = false ∨ (x.step q).chip.scsi.state.dma = false) :
    ((x.chip.cpuOut q).incni = false ∧ (x.chip.cpuOut q).incno = false ∧
        (x.chip.cpuComb q).intDecfifo = false ∧ (x.chip.cpuComb q).intIncfifo = false) ∧
      ((x.chip.scsiOut q).incbo = false ∧ (x.chip.scsiOut q).incni = false ∧
        (x.chip.scsiOut q).incno = false ∧ (x.chip.scsiOut q).rififo = false ∧
        (x.chip.scsiOut q).rdfifo = false) ∧
      x.chip.llw = false ∧ x.chip.lhw = false ∧ x.chip.scsi.lbyte_ = true := by
  have h := hC.live hq
  -- in an access the chip is not the bus master
  have hoff : x.chip.cpu.state.onBus = false ∨
      (CpuSm.nextState (x.chip.cpuIn q) x.chip.cpu.state).onBus = false := by
    rw [← step_cpu_state h]
    refine ha.imp (fun hd => ?_) (fun hd => ?_)
    · exact Bool.eq_false_iff.mpr fun hb => by simp [hC.onBus hb] at hd
    · exact Bool.eq_false_iff.mpr fun hb => by simp [(hC.step hq).onBus hb] at hd
  rw [show (x.step q).chip.scsi.state = ScsiSm.nextState (x.chip.scsiIn q) x.chip.scsi.state from
    Chip.period_scsi_state h] at ha
  obtain ⟨c1, c2, c3, c4⟩ := CpuSm.fifo_of_not_onBus hoff
  refine ⟨⟨c1, c2, c2, c3⟩, ScsiSm.comb_of_access (i := x.chip.scsiIn q) ha, ?_, ?_, ?_⟩
  · refine Bool.eq_false_iff.mpr fun hs => ?_
    rw [hP.strobes (.inl hs)] at c4
    exact Bool.noConfusion c4
  · refine Bool.eq_false_iff.mpr fun hs => ?_
    rw [hP.strobes (.inr hs)] at c4
    exact Bool.noConfusion c4
  · refine Bool.eq_true_of_not_eq_false fun hl => ?_
    obtain ⟨n1, n2⟩ := ScsiSm.not_taking_of_access ha
    exact (hP.lbyte_ hl).elim n1 n2

theorem served_silent
    (ha : x.chip.scsi.state.dma = false ∨ (x.step q).chip.scsi.state.dma = false) :
    ((x.step q).chip.scsi.rififoO = true → x.chip.scsi.rififoO = true) ∧
      ((x.step q).chip.scsi.rdfifoO = true → x.chip.scsi.rdfifoO = true) ∧
      (x.chip.rstFifo_ = true → x.chip.rstOut_ q = true →
        (x.step q).chip.fifo = { x.chip.fifo with count := (x.step q).chip.fifo.count } ∧
        (x.chip.scsi.rififoO = false → x.chip.scsi.rdfifoO = false →
          (x.step q).chip.fifo.count = x.chip.fifo.count)) := by
  have h := hC.live hq
  obtain ⟨⟨c1, c2, c3, c4⟩, ⟨s1, s2, s3, s4, s5⟩, hll, hlh, hl⟩ := idle_of_access hC hP hq ha
  refine ⟨fun hr => ?_, fun hr => ?_, fun hr0 hr1 => ?_⟩
  · have hr : (x.chip.period q).scsi.rififoO = true := hr
    simp only [Chip.period_rififoO h, s4, Bool.false_or, Bool.and_eq_true] at hr
    exact hr.2.1
  · have hr : (x.chip.period q).scsi.rdfifoO = true := hr
    simp only [Chip.period_rdfifoO h, s5, Bool.false_or, Bool.and_eq_true] at hr
    exact hr.2.1
  · have hp : ∀ f g : Fifo 3, g.writePtr = f.writePtr → g.readPtr = f.readPtr →
        g.bytePtr = f.bytePtr → g.buffer = f.buffer → g = { f with count := g.count } := by
      rintro ⟨⟩ ⟨⟩ rfl rfl rfl rfl
      rfl
    refine ⟨hp _ _ ?_ ?_ ?_ ?_, fun h1 h2 => ?_⟩
    · apply (Chip.period_writePtr h).trans
      simp [hr1, c1, s2]
    · apply (Chip.period_readPtr h).trans
      simp [hr1, c2, s3]
    · apply (Chip.period_bytePtr h).trans
      simp [hr1, s1]
    · apply (Chip.period_buffer h).trans
      rw [hr0, hll, hlh, hl, Fifo.write_idle, Function.update_eq_self]
      rfl
    · -- a request that was on its way before is all that may move `COUNT`
      have d1 : (x.chip.cpuOut q).decfifo = false := by
        rw [Chip.cpuOut_decfifo h, h2, c3]
        simp
      have d2 : (x.chip.cpuOut q).incfifo = false := by
        rw [Chip.cpuOut_incfifo h, h1, c4]
        simp
      apply (Chip.period_count h).trans
      simp [hr1, d1, d2]

omit hP in
theorem served_apart {e : Chip × Pins} (he : e ∈ x.chip.samples q)
    (ha : e.1.asO_ = false) : e.1.scsi.out.s2cpu = false ∧ e.1.scsi.out.cpu2s = false := by
  have h := hC.live hq
  have hst : x.chip.asO_ = false → x.chip.cpu.state.strobing = true := fun ha => by
    rw [hC.asO_] at ha
    simpa using ha
  rcases Chip.scsi_out_samples h he with ⟨h1, h2, -⟩ | ⟨h1, h2, -⟩
  · have hs := hst (h2.symm.trans ha)
    rw [h1]
    exact hC.closed (CpuSm.State.onBus_of_strobing hs) (CpuSm.State.not_granted_of_strobing hs)
  · -- the chip was the bus master before, and then `SCSI_SM` was done with the CPU
    have hb : x.chip.cpu.state.onBus = true := by
      rcases h2 with h2 | h2
      · exact CpuSm.State.onBus_of_strobing (hst (h2.symm.trans ha))
      · have hp : (x.chip.cpuOut q).pas = true := by
          rw [h2] at ha
          simpa using ha
        rw [hC.cpuOut_pas hq] at hp
        exact CpuSm.onBus_of_nextState (CpuSm.State.onBus_of_strobing hp)
          (CpuSm.State.not_granted_of_strobing hp)
    rw [h1]
    exact ScsiSm.comb_of_dma (hC.onBus hb)

end Access

/-- The CPU reads from `PORT0`. -/
def reading : Pins := { as_ := false, ds_ := false, cs_ := false, addr := 0x10, pd := 0x5A }

/-- The byte is on two lanes of `DATA_O` when the CPU samples `_DSACK`. -/
example :
    let x := Runs.run step (fresh true false)
      ({ Period.steady {} with clk90Fall := reading, clk135Fall := reading } ::
        List.replicate 4 (.steady reading))
    (x.chip.atSclkFall (.steady reading)).scsi.ls2cpu = false ∧
      (x.chip.atClk90Fall (.steady reading)).dataO reading = ⟨0, 0x5A, 0, 0x5A⟩ := by
  decide +kernel

end System

end Resdmac
