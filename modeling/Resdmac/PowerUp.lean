import Resdmac.BusProtocol
import Resdmac.Isolation
import Resdmac.Progress

/-!
# Reset

`_RST` clears the state machines through a clocked reset of their own, the registers at
once, the FIFO through `DMAENA`, and the registers of the top level through what the state
machines drive. One clock of it is enough for all registers but `DEVICE`, whatever they held
before.

## Main definitions

- `Registers.Clear` — the register file as `_RST` leaves it, but for `DEVICE`

## Main results

- `System.reset_of_any` — after two clocks of `_RST` every state has become the reset state
- `Chip.inert_of_any` — an engine that is not started leaves the bus and the WD33C93 alone
-/

namespace Resdmac

open Chip (Period)

namespace Chip

/-! ## §1 The reset pulse -/

/-- What `_RST` itself has cleared at the end of a period in reset. -/
structure Cleared (s : Chip) : Prop where
  dmaena : s.regs.dmaena = false
  flushfifo : s.regs.flushfifo = false
  rififoO : s.scsi.rififoO = false
  rdfifoO : s.scsi.rdfifoO = false

theorem cleared_of_inReset (s : Chip) {q : Period} (hq : q.InReset) : Cleared (s.period q) := by
  obtain ⟨-, -, -, -, h5, h6⟩ := hq
  constructor <;>
    simp [period, atClk135Fall, onClk135Fall, settle, Registers.settle, ScsiSm.settle,
      ScsiSm.clk135Fall, h6]

theorem Cleared.settle {s : Chip} {p : Pins} (hc : Cleared s) (hp : p.rst_ = true) :
    Cleared (s.settle p) := by
  obtain ⟨h1, h2, h3, h4⟩ := hc
  constructor <;> simp [Chip.settle, Chip.reset, Registers.settle, ScsiSm.settle, ScsiSm.reset, hp,
    h1, h2, h3, h4]

/-- Without a cycle nothing is decoded. -/
theorem not_hit_of_out {c : Chip} {p : Pins} (ho : c.cpu.out = {}) (hp : p.as_ = true)
    (n : BitVec 8) : (c.access p).hit n = false := by
  apply Access.hit_of_not_valid
  rw [Access.valid, access, asI_, own, ho, if_neg Bool.false_ne_true, hp, Bool.or_true]
  rfl

namespace Resetting

variable {s : Chip} {q : Period} (hr : Resetting s)
include hr

theorem atClk90Fall_asO_ : (s.atClk90Fall q).asO_ = true := by
  change (!(s.atSclkFall q).cpu.out.pas) = true
  rw [hr.atSclkFall_cpu.1]
  rfl

/-- At the last edge `AS_I_` is what the CPU drives. -/
theorem asI_clk135Fall :
    ((s.atClk90Fall q).onClk90Fall q.clk90Fall).reset.asI_ q.clk135Fall = q.clk135Fall.as_ := by
  have ho : ((s.atClk90Fall q).onClk90Fall q.clk90Fall).reset.own = false :=
    congrArg CpuSm.Out.bgack (hr.atClk135Fall_cpu (q := q) (s.atClk135Fall q) (by simp [lastEdges])).1
  rw [asI_, ho]
  rfl

end Resetting

section Release

variable {s : Chip} {q : Period} (hr : Resetting s) (hc : Cleared s) (hq : q.NoReset)

section First

include hc hq

theorem Cleared.atClk90Rise : Cleared (s.atClk90Rise q) := by
  have h1 := hc.settle hq.1
  exact (show Cleared ((s.settle q.sclkRise).onSclkRise q.sclkRise) from
    ⟨h1.dmaena, h1.flushfifo, h1.rififoO, h1.rdfifoO⟩).settle hq.2.1

theorem Cleared.atClk135Rise : Cleared (s.atClk135Rise q) := by
  have hA := hc.atClk90Rise hq
  refine (show Cleared ((s.atClk90Rise q).onClk90Rise q.clk90Rise) from
    ⟨hA.dmaena, hA.flushfifo, ?_, ?_⟩).settle hq.2.2.1
  · change ((s.atClk90Rise q).scsi.clk90Rise _).rififoO = false
    unfold ScsiSm.clk90Rise
    split_ifs <;> exact hA.rififoO
  · change ((s.atClk90Rise q).scsi.clk90Rise _).rdfifoO = false
    unfold ScsiSm.clk90Rise
    split_ifs <;> exact hA.rdfifoO

end First

include hr hc hq

/-- Up to the edge that releases the state machines nothing is requested. -/
theorem Cleared.atSclkFall : Cleared (s.atSclkFall q) ∧
    (s.atSclkFall q).scsi.state = .idleDmaRd := by
  have hout : (s.atClk135Rise q).scsi.out = {} := (Resetting.of_settle hr.edges.2.1).2.2.2
  have hB := hc.atClk135Rise hq
  have hC : Cleared ((s.atClk135Rise q).onClk135Rise q.clk135Rise) := by
    refine ⟨hB.dmaena, hB.flushfifo, ?_, ?_⟩
    · change ((s.atClk135Rise q).scsi.clk135Rise _ _ _ _).rififoO = false
      have ho : (s.atClk135Rise q).scsi.out.rififo = false := by rw [hout]
      simp [ScsiSm.clk135Rise, ho, hB.rififoO]
    · change ((s.atClk135Rise q).scsi.clk135Rise _ _ _ _).rdfifoO = false
      have ho : (s.atClk135Rise q).scsi.out.rdfifo = false := by rw [hout]
      simp [ScsiSm.clk135Rise, ho, hB.rdfifoO]
  refine ⟨hC.settle hq.2.2.2.1, ?_⟩
  have hcr : ((s.atClk135Rise q).onClk135Rise q.clk135Rise).scsi.creset_ = false := hr.edges.2.2.2
  change (if ((s.atClk135Rise q).onClk135Rise q.clk135Rise).scsi.creset_ then _ else _) = _
  rw [hcr]
  rfl

/-- The registers that the CLK90 falling edge reads. -/
theorem Cleared.atClk90Fall : Cleared (s.atClk90Fall q) :=
  (show Cleared ((s.atSclkFall q).onSclkFall q.sclkFall) from
    have hC := (hc.atSclkFall hr hq).1
    ⟨hC.dmaena, hC.flushfifo, hC.rififoO, hC.rdfifoO⟩).settle hq.2.2.2.2.1

/-- The FIFO is in reset at each of its edges, and takes `BYTE_PTR` from `A1`. -/
theorem Cleared.period_fifo :
    (s.period q).fifo = { bytePtr := if (s.atClk90Fall q).regs.a1 then 2 else 0 } := by
  have hrst : ∀ {c : Chip}, Cleared c → c.rstFifo_ = false := fun h => by
    rw [rstFifo_, h.dmaena]
    rfl
  change ((((s.fifo.store (s.atClk90Rise q).rstFifo_ _ _).movePtrs (s.atClk135Rise q).rstFifo_ _
    _).countStep (s.atSclkFall q).rstFifo_ _ _).moveBytePtr (s.atClk90Fall q).rstFifo_ _ _) = _
  rw [hrst (hc.atClk90Rise hq), hrst (hc.atClk135Rise hq), hrst (hc.atSclkFall hr hq).1,
    hrst (hc.atClk90Fall hr hq)]
  rfl

variable (ha : q.clk90Fall.as_ = true)
include ha

/-- The state machines are released, and a CPU that is quiet leaves the registers alone. -/
theorem Cleared.release : Cleared (s.period q) ∧
    (s.period q).fifo.bytePtr = if (s.period q).regs.a1 then 2 else 0 := by
  have hD := hc.atClk90Fall hr hq
  obtain ⟨hout, -⟩ := hr.atClk135Fall_cpu (q := q) (s.atClk90Fall q) (by simp [lastEdges])
  obtain ⟨-, -, -, -, h5, h6⟩ := hq
  have hn : ∀ n, (s.endAccess q).hit n = false := not_hit_of_out hout ha
  have hw : (s.endAccess q).contrWr = false ∧ (s.endAccess q).acrWr = false := by
    rw [Access.contrWr, Access.acrWr, Access.wr, Access.wr, hn, hn]
    exact ⟨rfl, rfl⟩
  -- the registers after the CLK90 falling edge
  have hregs : ∀ f : Registers → Bool,
      (∀ r : Registers, ∀ c d, f { r with termCounter := c, dsackTerm_ := d } = f r) →
      f (s.period q).regs =
      f ((s.atClk90Fall q).regs.clk90Fall (s.endAccess q) true q.clk90Fall.data
        ((s.atClk90Fall q).dsI_ q.clk90Fall) (s.atClk90Fall q).cpu.out.stopflush
        (s.atClk90Fall q).asO_ q.clk90Fall.inta (s.atClk90Fall q).fifo.empty
        (s.atClk90Fall q).fifo.full) := by
    intro f hf
    change f ((Registers.clk90Fall _ _ q.clk90Fall.rst_ _ _ _ _ _ _ _).settle q.clk135Fall.rst_ _) = _
    rw [h5, h6, Registers.settle, if_pos rfl, hf]
    rfl
  have hdma : (s.period q).regs.dmaena = false := by
    rw [hregs Registers.dmaena fun _ _ _ => rfl, Registers.clk90Fall_dmaena, Access.stDma,
      Access.spDma, hn, hn, hD.dmaena, hw.1]
    rfl
  have hfl : (s.period q).regs.flushfifo = false := by
    rw [hregs Registers.flushfifo fun _ _ _ => rfl, Registers.clk90Fall_flushfifo, Access.flush, hn,
      hD.flushfifo, hout]
    rfl
  have ha1 : (s.period q).regs.a1 = (s.atClk90Fall q).regs.a1 := by
    rw [hregs Registers.a1 fun _ _ _ => rfl, Registers.clk90Fall_a1, hw.2, hr.atClk90Fall_asO_]
    rfl
  refine ⟨⟨hdma, hfl, ?_, ?_⟩, ?_⟩
  · change (((s.atClk90Fall q).scsi.rififoO && _) && _) = false
    rw [hD.rififoO]
    rfl
  · change (((s.atClk90Fall q).scsi.rdfifoO && _) && _) = false
    rw [hD.rdfifoO]
    rfl
  · rw [ha1]
    change ((s.atClk90Fall q).fifo.moveBytePtr (s.atClk90Fall q).rstFifo_ _ _).bytePtr = _
    rw [rstFifo_, hD.dmaena]
    rfl

end Release

/-- What the release of the state machines leaves of them. -/
theorem Cleared.released {s : Chip} {q : Period} (hr : Resetting s) (hc : Cleared s)
    (hq : q.NoReset) (ha : q.clk90Fall.as_ = true) :
    (s.period q).cpu.out = {} ∧ (s.period q).cpu.state = .s0 ∧ (s.period q).cpu.inp = {} ∧
      (s.period q).scsi.out = {} ∧ (s.period q).scsi.state = .idleDmaRd ∧
      (s.period q).scsi.inp.cdreq_ = true ∧ (s.period q).asO_ = true ∧
      (s.period q).dsO_ = true := by
  obtain ⟨e1, e2, e3, e4⟩ := hr.atClk135Fall_cpu (q := q) (s.period q) (by simp [lastEdges])
  have hst := (hc.atSclkFall hr hq).2
  have hcr : (s.atClk135Fall q).scsi.creset_ = true := hq.2.2.2.1
  have hdma : (s.atClk135Fall q).regs.dmaena = false := (hc.release hr hq ha).1.dmaena
  -- the outputs were clocked in reset, the inputs are sampled after it
  refine ⟨e1, e2, e3, e4, ?_, ?_, ?_, ?_⟩
  · change (if _ then (if _ then (s.atSclkFall q).scsi.state else .idleDmaRd) else .idleDmaRd) = _
    rw [hst, ite_self, ite_self]
  · change ((if (s.atClk135Fall q).scsi.creset_ then
      (s.atClk135Fall q).scsiClocked q.clk135Fall else {}) : ScsiSm.Clocked).cdreq_ = true
    rw [if_pos hcr, scsiClocked, dreq_, hdma]
    rfl
  · rw [(period_asO_eq s q).1, hr.atSclkFall_cpu.1]
    rfl
  · rw [(period_asO_eq s q).2, hr.atSclkFall_cpu.1]
    rfl

/-! ## §2 An engine that is not started -/

/-- What an engine that is not started shows in a period. -/
structure Inert (s : Chip) (q : Period) : Prop where
  bus : ∀ c ∈ s.firstEdges q ++ s.lastEdges q,
    c.cpu.out.breq = false ∧ c.own = false ∧ c.asO_ = true ∧ c.dsO_ = true
  dack : ∀ c ∈ s.firstEdges q ++ s.lastEdges q, c.scsi.out.dack = false
  bytes : s.taken q = [] ∧ s.given q = [] ∧ s.written q = [] ∧ s.read q = []
  fifo : (s.period q).fifo.count = 0

/-- Both machines wait, and nothing of a byte or of a step of `COUNT` is left. -/
structure Dormant (s : Chip) : Prop where
  rest : AtRest s
  breq : s.cpu.out.breq = false
  bgack : s.cpu.out.bgack = false
  asO_ : s.asO_ = true
  dsO_ : s.dsO_ = true
  byte : s.scsi.state.toIdle = 0
  cdreq_ : s.scsi.inp.cdreq_ = true
  dack : s.scsi.out.dack = false

section Edges

variable {s : Chip} {q : Period} (h : Live s q)
include h

/-- The outputs of both machines change at CLK90 rising only. -/
theorem out_edges : ∀ c ∈ s.firstEdges q ++ s.lastEdges q,
    (c.cpu.out = s.cpu.out ∧ c.scsi.out = s.scsi.out) ∨
      (c.cpu.out = s.cpuOut q ∧ c.scsi.out = s.scsiOut q) := by
  have hrise : (s.atSclkRise q).cpu.out = s.cpu.out ∧ (s.atSclkRise q).scsi.out = s.scsi.out := by
    rw [atSclkRise, settle_eq_clear h.1 h.2.1]
    exact ⟨rfl, rfl⟩
  have h90 : (s.atClk90Rise q).cpu.out = s.cpu.out ∧
      (s.atClk90Rise q).scsi.out = s.scsi.out := by
    rw [atClk90Rise_eq h]
    exact ⟨rfl, rfl⟩
  have hfall : (s.atSclkFall q).cpu.out = s.cpuOut q ∧ (s.atSclkFall q).scsi.out = s.scsiOut q :=
    ⟨atSclkFall_cpu_out h, atSclkFall_scsi_out h⟩
  have h135 : (s.atClk135Rise q).cpu.out = s.cpuOut q ∧
      (s.atClk135Rise q).scsi.out = s.scsiOut q := by
    rw [atClk135Rise_eq h]
    exact ⟨rfl, rfl⟩
  have hlast : (s.atClk90Fall q).cpu.out = s.cpuOut q ∧
      (s.atClk90Fall q).scsi.out = s.scsiOut q := by
    rw [atClk90Fall_eq h]
    exact hfall
  have hlast' : (s.atClk135Fall q).cpu.out = s.cpuOut q ∧
      (s.atClk135Fall q).scsi.out = s.scsiOut q := by
    rw [atClk135Fall_eq h]
    exact hlast
  -- the outputs change once in a period, at the rising edge of CLK90
  simp only [firstEdges, lastEdges, List.cons_append, List.nil_append, List.forall_mem_cons]
  exact ⟨.inl hrise, .inl h90, .inr h135, .inr hfall, .inr hlast, .inr hlast',
    .inr ⟨period_cpu_out h, period_scsi_out h⟩, fun _ hc => absurd hc List.not_mem_nil⟩

end Edges

section Dormant

variable {s : Chip} {q : Period} (hD : Dormant s) (hq : Stopped s q)
include hD hq

/-- `CPU_SM` stays idle: it neither asks for the bus nor drives it. -/
theorem Dormant.cpuOut : ((s.cpuOut q).breq = false ∧ (s.cpuOut q).bgack = false) ∧
    (s.cpuOut q).pas = false ∧ (s.cpuOut q).pds = false := by
  have h : Live s q := ⟨hD.rest.awake, hq.1⟩
  obtain ⟨hpas, hbgack, -⟩ := CpuSm.idle_spec (i := s.cpuIn q) hD.rest.state
  have hidle := (hD.rest.step hq).2.state
  rw [period_cpu_state h] at hidle
  refine ⟨⟨?_, hbgack⟩, hpas, Bool.eq_false_iff.mpr fun hp => ?_⟩
  · apply CpuSm.not_breq
    · rcases hidle with e | e <;> rw [e] <;> rfl
    · rcases hidle with e | e <;> rw [e] <;> rfl
  · exact Bool.noConfusion (hpas.symm.trans (CpuSm.pas_of_pds hp))

/-- `SCSI_SM` begins no byte. -/
theorem Dormant.scsi_step : (ScsiSm.nextState (s.scsiIn q) s.scsi.state).toIdle = 0 ∧
    (s.scsiOut q).dack = false := by
  have h : Live s q := ⟨hD.rest.awake, hq.1⟩
  have hnext : (ScsiSm.nextState (s.scsiIn q) s.scsi.state).toIdle = 0 := by
    rw [ScsiSm.nextState_toIdle (by rw [scsiIn_eq h]; exact hD.cdreq_), hD.byte]
  refine ⟨hnext, ScsiSm.dack_eq.trans (Bool.eq_false_iff.mpr fun hn => ?_)⟩
  revert hn hnext
  cases ScsiSm.nextState (s.scsiIn q) s.scsi.state <;> simp [ScsiSm.State.acking,
    ScsiSm.State.toIdle]

/-- Neither bus shows anything of the engine, and no byte moves. -/
theorem Dormant.inert : Inert s q := by
  have h : Live s q := ⟨hD.rest.awake, hq.1⟩
  obtain ⟨hidle, hpas, hpds⟩ := hD.cpuOut hq
  obtain ⟨-, hdack⟩ := hD.scsi_step hq
  have hlbyte : s.scsi.lbyte_ = true := by
    rw [ScsiSm.lbyte_, hD.dack]
    rfl
  have hgiving : s.giving = false := by
    rw [giving, hD.dack]
    rfl
  have hends : s.endsCycle q = false := by
    rw [endsCycle_eq h, hD.asO_]
    rfl
  refine ⟨fun c hc => ?_, fun c hc => ?_, ⟨?_, ?_, ?_, ?_⟩, ?_⟩
  -- the strobes change at the falling edge of SCLK only
  · have hstrobes : c.asO_ = true ∧ c.dsO_ = true := by
      rcases List.mem_append.mp hc with hc | hc
      · obtain ⟨ha, hd⟩ := asO_firstEdges s q c hc
        exact ⟨ha.trans hD.asO_, hd.trans hD.dsO_⟩
      · obtain ⟨ha, hd⟩ := asO_lastEdges s q c hc
        rw [ha, hd, period_asO_ h, period_dsO_ h, hpas, hpds]
        exact ⟨rfl, rfl⟩
    rcases out_edges h c hc with ⟨e, -⟩ | ⟨e, -⟩
    · rw [own, e]
      exact ⟨hD.breq, hD.bgack, hstrobes⟩
    · rw [own, e]
      exact ⟨hidle.1, hidle.2, hstrobes⟩
  · rcases out_edges h c hc with ⟨-, e⟩ | ⟨-, e⟩
    · rw [e]
      exact hD.dack
    · rw [e]
      exact hdack
  · rw [taken_eq h, hlbyte]
    rfl
  · rw [given_eq h, hgiving]
    rfl
  · simp [written, hends]
  · simp [read, hends]
  · simp [period_count h, rstOut_, hD.rest.dmaena]

/-- Nothing but `ST_DMA` ends the sleep. -/
theorem Dormant.step : Dormant (s.period q) := by
  have h : Live s q := ⟨hD.rest.awake, hq.1⟩
  have hrest := (hD.rest.step hq).2
  obtain ⟨hidle, hpas, hpds⟩ := hD.cpuOut hq
  obtain ⟨hnext, hdack⟩ := hD.scsi_step hq
  refine ⟨hrest, ?_, ?_, ?_, ?_, ?_, ?_, ?_⟩
  · rw [period_cpu_out h]
    exact hidle.1
  · rw [period_cpu_out h]
    exact hidle.2
  · rw [period_asO_ h, hpas]
    rfl
  · rw [period_dsO_ h, hpds]
    rfl
  · rw [period_scsi_state h]
    exact hnext
  · have hd : (s.atClk135Fall q).regs.dmaena = false := hrest.dmaena
    rw [period_scsi_inp h, scsiClocked, dreq_, hd]
    rfl
  · rw [period_scsi_out h]
    exact hdack

end Dormant

/-- The release leaves both machines asleep. -/
theorem Cleared.dormant {s : Chip} {q : Period} (hr : Resetting s) (hc : Cleared s)
    (hq : q.NoReset) (ha : q.clk90Fall.as_ = true) : Dormant (s.period q) := by
  obtain ⟨hout, hst, hinp, hsout, hsst, hcd, hO, hd⟩ := hc.released hr hq ha
  have hnot : ¬ Requesting (s.period q) := by
    rw [Requesting, hst, hinp]
    simp
  constructor
  · exact ⟨awake_of_noReset hq, (hc.release hr hq ha).1.dmaena, .inl hst, hnot⟩
  · rw [hout]
  · rw [hout]
  · exact hO
  · exact hd
  · rw [hsst]
    rfl
  · exact hcd
  · rw [hsout]

/-- Whatever the registers held at power-up: after a clock of `_RST` the chip asks for no
bus, drives no strobe of memory, gives no `DACK` and moves no byte, in every run in which
`ST_DMA` is not strobed. All other registers may be written and read, and the CPU may use
the WD33C93. -/
theorem inert_of_any (s : Chip) {q₀ q₁ : Period} (h0 : q₀.InReset) (h1 : q₁.NoReset)
    (ha : q₁.clk90Fall.as_ = true) {qs : List Period}
    (hqs : Runs.Along period Stopped ((s.period q₀).period q₁) qs) :
    Runs.Along period Inert ((s.period q₀).period q₁) qs := by
  have hD := (cleared_of_inReset s h0).dormant (resetting_of_inReset h0) h1 ha
  exact Runs.along_of_invariant (I := Dormant) (fun t q hD hq => ⟨hD.inert hq, hD.step hq⟩) hD hqs

/-- A chip in the middle of a transfer. -/
def midway : Chip where
  cpu := { state := .s4, inp := ⟨false, true, false, true, false⟩
           out := { bgack := true, pas := true } }
  scsi := { state := .s2f3, inp := ⟨false, true, false⟩, rififoO := true, nls2cpu := true }
  fifo := { count := 5, bytePtr := 3, writePtr := 6, readPtr := 1 }
  regs := { dmaena := true, flushfifo := true, ndmadir := true, dsackTerm_ := false
            termCounter := 3 }
  asO_ := false
  dsO_ := false

/-- The CPU writes `CNTR` after the reset, with the WD33C93 asking for a byte. -/
theorem inert_of_any_midway :
    let q : Period := .steady
      { as_ := false, ds_ := false, rw := false, cs_ := false, addr := 2, dreq_ := false }
    Runs.Along period Inert ((midway.period (.steady { rst_ := false })).period (.steady {}))
      [.steady {}, q, q, .steady { dreq_ := false }] :=
  @inert_of_any midway (.steady { rst_ := false }) (.steady {})
    ⟨rfl, rfl, rfl, rfl, rfl, rfl⟩ ⟨rfl, rfl, rfl, rfl, rfl, rfl⟩ rfl _ (by decide +kernel)

end Chip

/-! ## §3 The register file -/

namespace Registers

/-- All registers are as `RST_` leaves them, but for `DEVICE` and those of `registers_term`. -/
def Clear (d : BitVec 5) (r : Registers) : Prop :=
  ∃ c k, r = { afterReset with device := d, termCounter := c, dsackTerm_ := k }

namespace Clear

variable {d : BitVec 5} {r : Registers} (hr : r.Clear d)
include hr

theorem settle (rst_ as_ : Bool) : (r.settle rst_ as_).Clear d := by
  obtain ⟨c, k, rfl⟩ := hr
  cases rst_ <;> exact ⟨_, _, rfl⟩

theorem clk90Rise {a : Access} (ha : a.dspRd = false) (dspData : Byte) :
    (r.clk90Rise a true dspData).Clear d := by
  obtain ⟨c, k, rfl⟩ := hr
  rw [Registers.clk90Rise, ha]
  exact ⟨_, _, rfl⟩

/-- Without an access and without a step of the engine no register changes. -/
theorem clk90Fall {a : Access} (hn : ∀ n, a.hit n = false) (mid : Longword) (ds_ inta e f : Bool) :
    (r.clk90Fall a true mid ds_ false true inta e f).Clear d := by
  have he : r.clk90Fall a true mid ds_ false true inta e f = r := by
    simp [Registers.clk90Fall, actionStep, istrStep, cntrStep, Access.contrWr, Access.stDma,
      Access.spDma, Access.clrInt, Access.istrRd, Access.flush, Access.acrWr, Access.sspbdatWr,
      Access.flashAddrWr, Access.wr, Access.rd, hn]
  rw [he]
  exact hr

end Clear

/-- In reset all registers but `VERSION` and the two for the device are cleared. -/
theorem settle_inReset (r : Registers) (as_ : Bool) : ∃ c k, r.settle false as_ =
    { ({} : Registers) with
      termCounter := c, dsackTerm_ := k
      version := r.version, deviceTxt := r.deviceTxt, device := r.device } := ⟨_, _, rfl⟩

/-- These are loaded at the first edge in reset, `DEVICE` by the name that was there before. -/
theorem clk90Rise_inReset {r r' : Registers} {as_ : Bool} (h : r' = r.settle false as_) (a : Access)
    (dspData : Byte) : (r'.clk90Rise a false dspData).Clear (deviceNumber r.deviceTxt) := by
  obtain ⟨c, k, e⟩ := r.settle_inReset as_
  rw [h, e]
  exact ⟨_, _, rfl⟩

end Registers

namespace Chip

theorem clear_of_inReset (s : Chip) {q : Period} (hq : q.InReset) :
    (s.period q).regs.Clear (Registers.deviceNumber s.regs.deviceTxt) := by
  obtain ⟨h1, h2, h3, h4, h5, h6⟩ := hq
  have hA : ∃ as_, (s.atClk90Rise q).regs = (s.settle q.sclkRise).regs.settle false as_ :=
    ⟨_, by rw [← h2]; rfl⟩
  obtain ⟨as_, hA⟩ := hA
  have hB : ((s.atClk90Rise q).onClk90Rise q.clk90Rise).regs.Clear
      (Registers.deviceNumber s.regs.deviceTxt) := by
    change (Registers.clk90Rise _ _ q.clk90Rise.rst_ _).Clear _
    rw [h2]
    have h := Registers.clk90Rise_inReset hA ((s.atClk90Rise q).access q.clk90Rise)
      q.clk90Rise.dspData
    have ht : (s.settle q.sclkRise).regs.deviceTxt = s.regs.deviceTxt := by
      change (Registers.settle _ q.sclkRise.rst_ _).deviceTxt = _
      rw [h1]
      rfl
    rwa [ht] at h
  have hD : (s.atClk90Fall q).regs.Clear (Registers.deviceNumber s.regs.deviceTxt) :=
    ((hB.settle _ _).settle _ _).settle _ _
  change (Registers.settle (Registers.clk90Fall _ _ q.clk90Fall.rst_ _ _ _ _ _ _ _) _ _).Clear _
  rw [h5]
  exact hD.settle _ _

/-- No cycle of the CPU is on the bus in the period. -/
def Period.NoCycle (q : Period) : Prop :=
  q.sclkRise.as_ = true ∧ q.clk90Rise.as_ = true ∧ q.clk135Rise.as_ = true ∧
    q.sclkFall.as_ = true ∧ q.clk90Fall.as_ = true ∧ q.clk135Fall.as_ = true

instance (q : Period) : Decidable q.NoCycle :=
  inferInstanceAs (Decidable (_ ∧ _ ∧ _ ∧ _ ∧ _ ∧ _))

section Release

variable {s : Chip} {q : Period} (hr : Resetting s)
include hr

/-- The latches that `AS_` and `S2CPU` clear, and the registers clocked with `AS_O_`. -/
theorem Resetting.period_rest (ha : q.clk135Fall.as_ = true) :
    ((s.period q).cpu.dsackLatched0_ = true ∧ (s.period q).cpu.dsackLatched1_ = true) ∧
      (s.period q).path.rxLatched = 0 ∧ (s.period q).llw = false ∧ (s.period q).lhw = false := by
  have has := hr.asI_clk135Fall (q := q)
  have hout := hr.atSclkFall_cpu (q := q)
  have hs2cpu : ((s.atClk90Fall q).onClk90Fall q.clk90Fall).reset.scsi.out.s2cpu = false :=
    congrArg ScsiSm.Out.s2cpu
      (hr.atClk135Fall_cpu (q := q) (s.atClk135Fall q) (by simp [lastEdges])).2.2.2
  refine ⟨⟨?_, ?_⟩, ?_, ?_, ?_⟩
  · change (((s.atClk90Fall q).onClk90Fall q.clk90Fall).reset.asI_ q.clk135Fall || _) = true
    rw [has, ha, Bool.true_or]
  · change (((s.atClk90Fall q).onClk90Fall q.clk90Fall).reset.asI_ q.clk135Fall || _) = true
    rw [has, ha, Bool.true_or]
  · change (if ((s.atClk90Fall q).onClk90Fall q.clk90Fall).reset.scsi.out.s2cpu then _ else _) = _
    rw [hs2cpu]
    rfl
  · change (s.atSclkFall q).cpu.out.pllw = false
    rw [hout.1]
  · change (s.atSclkFall q).cpu.out.plhw = false
    rw [hout.1]

variable (hq : q.NoReset)
include hq

variable {d : BitVec 5} (hd : s.regs.Clear d) (ha : q.NoCycle)
include hd ha

/-- Out of reset, and without an access, the register file stays as it was cleared. -/
theorem Resetting.atClk90Fall_clear : (s.atClk90Fall q).regs.Clear d := by
  have hA : (s.atClk90Rise q).regs.Clear d := (hd.settle _ _).settle _ _
  have hout : (s.atClk90Rise q).cpu.out = {} := (Resetting.of_settle hr.edges.1).1
  have hB : ((s.atClk90Rise q).onClk90Rise q.clk90Rise).regs.Clear d := by
    change (Registers.clk90Rise _ _ q.clk90Rise.rst_ _).Clear _
    rw [hq.2.1]
    refine hA.clk90Rise ?_ _
    rw [Access.dspRd, Access.rd, not_hit_of_out hout ha.2.1, Bool.false_and]
  exact ((hB.settle _ _).settle _ _).settle _ _

theorem Resetting.period_regs : (s.period q).regs = { Registers.afterReset with device := d } := by
  obtain ⟨hout, -⟩ := hr.atClk135Fall_cpu (q := q) (s.atClk90Fall q) (by simp [lastEdges])
  have hE : ((s.atClk90Fall q).onClk90Fall q.clk90Fall).regs.Clear d := by
    have hstop : (s.atClk90Fall q).cpu.out.stopflush = false := by rw [hout]
    change (Registers.clk90Fall _ _ q.clk90Fall.rst_ _ _ (s.atClk90Fall q).cpu.out.stopflush
      (s.atClk90Fall q).asO_ _ _ _).Clear _
    rw [hq.2.2.2.2.1, hstop, hr.atClk90Fall_asO_]
    exact (hr.atClk90Fall_clear hq hd ha).clk90Fall (not_hit_of_out hout ha.2.2.2.2.1) _ _ _ _ _
  -- `AS_` is high at the last edge
  obtain ⟨c, k, e⟩ := hE
  change Registers.settle ((s.atClk90Fall q).onClk90Fall q.clk90Fall).regs q.clk135Fall.rst_
    (((s.atClk90Fall q).onClk90Fall q.clk90Fall).reset.asI_ q.clk135Fall) = _
  rw [hr.asI_clk135Fall, ha.2.2.2.2.2, hq.2.2.2.2.2, e]
  rfl

end Release

end Chip

/-! ## §4 The reset state -/

namespace System

/-- One clock of `_RST` and one more in which the CPU begins no cycle bring the engine into its
reset state, whatever the registers hold. -/
theorem engineReset_of_any (x : System) {q₀ q₁ : Period} (h0 : q₀.InReset) (h1 : q₁.NoReset)
    (ha : q₁.clk90Fall.as_ = true) (ha' : q₁.clk135Fall.as_ = true) :
    EngineReset (Runs.run step x [q₀, q₁]) := by
  have hr : Chip.Resetting (x.chip.period q₀) := Chip.resetting_of_inReset h0
  have hc := Chip.cleared_of_inReset x.chip h0
  have hchip : (Runs.run step x [q₀, q₁]).chip = (x.chip.period q₀).period q₁ := rfl
  have hterm : (Runs.run step x [q₀, q₁]).term =
      if !(x.chip.period q₀).asO_ && !((x.chip.period q₀).period q₁).asO_
      then q₁.sclkFall.term else .wait := rfl
  have hcycle : (Runs.run step x [q₀, q₁]).cycle = none := if_pos ha
  generalize x.chip.period q₀ = s at *
  obtain ⟨hC, hb⟩ := hc.release hr h1 ha
  obtain ⟨e1, e2, e3, e4, hst, -, hO, -⟩ := hc.released hr h1 ha
  obtain ⟨hout, -⟩ :=
    hr.atClk135Fall_cpu (q := q₁) (s.atClk135Fall q₁) (by simp [Chip.lastEdges])
  have hown : (s.atClk135Fall q₁).own = false := by rw [Chip.own, hout]
  -- `AS_` is high at the last edge
  have has : ((s.atClk90Fall q₁).onClk90Fall q₁.clk90Fall).reset.asI_ q₁.clk135Fall = true :=
    hr.asI_clk135Fall.trans ha'
  have hnls : (s.atClk135Fall q₁).scsi.nls2cpu = false := by
    change (_ && !((s.atClk90Fall q₁).onClk90Fall q₁.clk90Fall).reset.asI_ q₁.clk135Fall) = false
    rw [has, Bool.not_true, Bool.and_false]
  have hdma : (s.atClk135Fall q₁).regs.dmaena = false := hC.dmaena
  refine
    { awake := hchip ▸ Chip.awake_of_noReset h1
      cpu_state := hchip ▸ e2
      cpu_inp := hchip ▸ e3
      cpu_out := hchip ▸ e1
      scsi_state := hchip ▸ hst
      scsi_inp := ?_
      scsi_out := hchip ▸ e4
      rififoO := hchip ▸ hC.rififoO
      rdfifoO := hchip ▸ hC.rdfifoO
      nls2cpu := hchip ▸ hnls
      dmaena := hchip ▸ hC.dmaena
      flushfifo := hchip ▸ hC.flushfifo
      dsackTerm_ := ?_
      bytePtr := hchip ▸ hb
      asO_ := hchip ▸ hO
      cycle := hcycle
      term := by rw [hterm, hO, Bool.not_true, Bool.and_false]; rfl }
  · rw [hchip]
    have hcr : (s.atClk135Fall q₁).scsi.creset_ = true := h1.2.2.2.1
    change (if (s.atClk135Fall q₁).scsi.creset_ then
      (s.atClk135Fall q₁).scsiClocked q₁.clk135Fall else {}) = {}
    rw [if_pos hcr, Chip.scsiClocked, ScsiSm.ls2cpu, hnls, Chip.dreq_, hdma, Chip.access, Chip.asI_,
      hown, ha']
    simp [Access.wdregreq, Access.valid]
  · rw [hchip]
    change (((s.atClk90Fall q₁).onClk90Fall q₁.clk90Fall).reset.asI_ q₁.clk135Fall || _) = true
    rw [has, Bool.true_or]

/-- Two clocks of `_RST` and one more without a cycle of the CPU bring every state of the chip,
whatever its registers hold, into the reset state. The second clock is that of `DEVICE`. -/
theorem reset_of_any (x : System) {q₀ q₁ q₂ : Period} (h0 : q₀.InReset) (h1 : q₁.InReset)
    (h2 : q₂.NoReset) (ha : q₂.NoCycle) : Reset (Runs.run step x [q₀, q₁, q₂]) := by
  -- the first clock sets the name that the second one decodes
  have hname : (x.chip.period q₀).regs.deviceTxt = Registers.defDeviceTxt := by
    obtain ⟨c, k, e⟩ := Chip.clear_of_inReset x.chip h0
    rw [e]
    rfl
  have hd := Chip.clear_of_inReset (x.chip.period q₀) h1
  rw [hname] at hd
  have hr : Chip.Resetting ((x.chip.period q₀).period q₁) := Chip.resetting_of_inReset h1
  have hc := Chip.cleared_of_inReset (x.chip.period q₀) h1
  obtain ⟨hdsack, hrx, hllw, hlhw⟩ := hr.period_rest ha.2.2.2.2.2
  have ha1 : (((x.chip.period q₀).period q₁).atClk90Fall q₂).regs.a1 = true := by
    obtain ⟨c, k, e⟩ := hr.atClk90Fall_clear h2 hd ha
    rw [e]
    rfl
  rw [Runs.run_cons]
  exact
    { toEngineReset := engineReset_of_any (x.step q₀) h1 h2 ha.2.2.2.2.1 ha.2.2.2.2.2
      dsackLatched_ := hdsack
      regs := hr.period_regs h2 hd ha
      fifo := by
        change (((x.chip.period q₀).period q₁).period q₂).fifo = _
        rw [hc.period_fifo hr h2, ha1]
        rfl
      rxLatched := hrx
      dsO_ := (hc.released hr h2 ha.2.2.2.2.1).2.2.2.2.2.2.2
      llw := hllw
      lhw := hlhw }

/-- A chip in the middle of a transfer is reset, with an access of the CPU in between. -/
theorem reset_of_any_midway :
    Reset (Runs.run step { chip := Chip.midway, cycle := some ⟨0x0F, false, true, false⟩ }
      [.steady { rst_ := false, as_ := false }, .steady { rst_ := false }, .steady {}]) :=
  reset_of_any _ ⟨rfl, rfl, rfl, rfl, rfl, rfl⟩ ⟨rfl, rfl, rfl, rfl, rfl, rfl⟩
    ⟨rfl, rfl, rfl, rfl, rfl, rfl⟩ ⟨rfl, rfl, rfl, rfl, rfl, rfl⟩

end System

end Resdmac
