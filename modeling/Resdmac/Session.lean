import Resdmac.Library.Runs
import Resdmac.Period

/-!
# DMA Sessions

A session starts with both state machines idle and the FIFO just released from its
reset by `DMAENA`; `DMADIR` and `A1` were written before, and `DMAENA` stays set. In
each period the pins are free: bus grants, terminations, `_DREQ`, `PD_PORT` and the
cycles of the other bus master are whatever the environment makes them, as long as
no access that ends the session is decoded.

## Main definitions

- `Chip.DmaStart` — the start of a session
- `Chip.InSession` — a period of a session
- `Chip.Underflow`, `Chip.Overflow` — `COUNT` is about to wrap
-/

namespace Resdmac

namespace Chip

/-! ## §1 Sessions -/

/-- The start of a DMA session, just before an SCLK rising edge. -/
structure DmaStart (s : Chip) : Prop where
  awake : s.Awake
  dmaena : s.regs.dmaena = true
  cpu_state : s.cpu.state = .s0 ∨ s.cpu.state = .s20
  cpu_out : s.cpu.out = {}
  scsi_state : s.scsi.state = .idleDmaRd ∨ s.scsi.state = .idleDmaWr
  scsi_out : s.scsi.out = {}
  rififoO : s.scsi.rififoO = false
  rdfifoO : s.scsi.rdfifoO = false
  count : s.fifo.count = 0
  writePtr : s.fifo.writePtr = 0
  readPtr : s.fifo.readPtr = 0
  bytePtr : s.fifo.bytePtr = if s.regs.a1 then 2 else 0
  asO_ : s.asO_ = true
  dsO_ : s.dsO_ = true
  llw : s.llw = false
  lhw : s.lhw = false

/-- A period of a session: no reset, and neither `CNTR` nor `ACR` is written nor
`SP_DMA` strobed at the edge that clocks the registers. -/
structure InSession (s : Chip) (q : Period) : Prop where
  noReset : q.NoReset
  contrWr : (s.endAccess q).contrWr = false
  acrWr : (s.endAccess q).acrWr = false
  spDma : (s.endAccess q).spDma = false

instance (s : Chip) (q : Period) : Decidable (InSession s q) :=
  decidable_of_iff
    (q.NoReset ∧ (s.endAccess q).contrWr = false ∧ (s.endAccess q).acrWr = false ∧
      (s.endAccess q).spDma = false)
    ⟨fun ⟨h1, h2, h3, h4⟩ => ⟨h1, h2, h3, h4⟩, fun ⟨h1, h2, h3, h4⟩ => ⟨h1, h2, h3, h4⟩⟩

/-- The registers at the start of a session after reset. -/
def fresh (ndmadir a1 : Bool) : Chip where
  cpu := { ccreset_ := true }
  scsi := { creset_ := true }
  fifo := { bytePtr := if a1 then 2 else 0 }
  regs := { ndmadir := ndmadir, dmaena := true, a1 := a1 }

theorem fresh_dmaStart (ndmadir a1 : Bool) : DmaStart (fresh ndmadir a1) := by
  constructor <;> first | rfl | exact .inl rfl | exact ⟨rfl, rfl⟩

/-- The same pins at all six edges. -/
def Period.steady (p : Pins) : Period := ⟨p, p, p, p, p, p⟩

/-! ## §2 The wraps of `COUNT` -/

/-- `DECFIFO` is active at the SCLK falling edge while `COUNT` is zero and the FIFO is
out of reset. -/
def Underflow (s : Chip) (q : Period) : Prop :=
  (s.atSclkFall q).cpu.out.decfifo = true ∧ (s.atSclkFall q).fifo.count = 0 ∧
    (s.atSclkFall q).rstFifo_ = true

/-- `INCFIFO` is active at the SCLK falling edge while `COUNT` is at its maximum. -/
def Overflow (s : Chip) (q : Period) : Prop :=
  (s.atSclkFall q).cpu.out.incfifo = true ∧ (s.atSclkFall q).fifo.count = Fifo.max 3

instance (s : Chip) (q : Period) : Decidable (Underflow s q) :=
  inferInstanceAs (Decidable (_ ∧ _))

instance (s : Chip) (q : Period) : Decidable (Overflow s q) :=
  inferInstanceAs (Decidable (_ ∧ _))

section Edges

variable {s : Chip} {q : Period} (h : Live s q)
include h

theorem atSclkFall_count : (s.atSclkFall q).fifo.count = s.fifo.count := by
  rw [atSclkFall_eq h, atClk135Rise_eq h]
  exact (Fifo.movePtrs_count ..).trans (Fifo.store_count ..)

theorem atSclkFall_rstFifo_ : (s.atSclkFall q).rstFifo_ = s.rstOut_ q := by
  rw [← atClk90Fall_rstFifo_ h, atClk90Fall_eq h]
  rfl

theorem atClk135Rise_rstFifo_ : (s.atClk135Rise q).rstFifo_ = s.rstOut_ q := by
  rw [← atSclkFall_rstFifo_ h, atSclkFall_eq h]
  rfl

theorem atClk135Rise_incni :
    (s.atClk135Rise q).incni = ((s.cpuOut q).incni || (s.scsiOut q).incni) := by
  rw [atClk135Rise_eq h]
  rfl

theorem atClk135Rise_incno :
    (s.atClk135Rise q).incno = ((s.cpuOut q).incno || (s.scsiOut q).incno) := by
  rw [atClk135Rise_eq h]
  rfl

theorem underflow_iff :
    Underflow s q ↔
      (s.cpuOut q).decfifo = true ∧ s.fifo.level = 0 ∧ s.rstOut_ q = true := by
  rw [Underflow, atSclkFall_cpu_out h, atSclkFall_count h, atSclkFall_rstFifo_ h,
    Fifo.count_eq_zero_iff]

theorem overflow_iff :
    Overflow s q ↔ (s.cpuOut q).incfifo = true ∧ s.fifo.level = 8 := by
  rw [Overflow, atSclkFall_cpu_out h, atSclkFall_count h, Fifo.count_eq_max_iff]
  exact Iff.rfl

/-- The fill level after the period. -/
theorem period_level (hl : s.fifo.level ≤ 8) :
    (s.period q).fifo.level =
      if s.rstOut_ q then
        if (s.cpuOut q).decfifo then if s.fifo.level = 0 then 8 else s.fifo.level - 1
        else if (s.cpuOut q).incfifo then if s.fifo.level = 8 then 0 else s.fifo.level + 1
        else s.fifo.level
      else 0 := by
  have e := Fifo.level_countStep s.fifo (s.rstOut_ q) (s.cpuOut q).incfifo (s.cpuOut q).decfifo hl
  -- of the steps of a period only that at SCLK falling changes `COUNT`
  rw [Fifo.level, Fifo.countStep_count] at e
  rw [Fifo.level, period_count h]
  exact e

end Edges

/-! ## §3 The counter strobes -/

section Strobes

variable {s : Chip} {q : Period}

theorem scsiOut_incbo :
    (s.scsiOut q).incbo = (s.scsi.state == .s2f3 || s.scsi.state == .f2s3) :=
  ScsiSm.incbo_eq

theorem cpuOut_incni : (s.cpuOut q).incni = (s.cpu.state == .s35) :=
  CpuSm.incni_eq

variable (h : Live s q)
include h

theorem cpuOut_decfifo :
    (s.cpuOut q).decfifo =
      ((!(s.cpuComb q).intIncfifo && (s.scsi.rdfifoO && !s.cpu.out.decfifo)) ||
        (s.cpuComb q).intDecfifo) := by
  rw [cpuOut, CpuSm.Comb.registered, cpuIn_eq h]
  simp

theorem cpuOut_incfifo :
    (s.cpuOut q).incfifo =
      ((!(s.cpuComb q).intDecfifo && (s.scsi.rififoO && !s.cpu.out.incfifo)) ||
        (s.cpuComb q).intIncfifo) := by
  rw [cpuOut, CpuSm.Comb.registered, cpuIn_eq h]
  simp

theorem scsiOut_rififo :
    (s.scsiOut q).rififo = (s.scsi.state == .s2f3 && s.fifo.boeq3) := by
  rw [scsiOut, ScsiSm.rififo_eq, scsiIn_eq h]

theorem scsiOut_incni :
    (s.scsiOut q).incni = (s.scsi.state == .s2f3 && s.fifo.boeq3) := by
  rw [scsiOut, ScsiSm.incni_eq, scsiIn_eq h]

theorem scsiOut_rdfifo :
    (s.scsiOut q).rdfifo = (s.scsi.state == .f2s3 && s.fifo.boeq3) := by
  rw [scsiOut, ScsiSm.rdfifo_eq, scsiIn_eq h]

theorem scsiOut_incno :
    (s.scsiOut q).incno = (s.scsi.state == .f2s3 && s.fifo.boeq3) := by
  rw [scsiOut, ScsiSm.incno_eq, scsiIn_eq h]

end Strobes

/-! ## §4 What a session keeps -/

section Kept

variable {s : Chip} {q : Period} (h : Live s q) (hq : InSession s q)
include h hq

theorem session_dmaena (hd : s.regs.dmaena = true) : (s.period q).regs.dmaena = true := by
  rw [period_dmaena h, hq.contrWr, hq.spDma, hd]
  simp

theorem session_ndmadir : (s.period q).regs.ndmadir = s.regs.ndmadir := by
  rw [period_ndmadir h, hq.contrWr]
  rfl

theorem session_a1 : (s.period q).regs.a1 = (s.regs.a1 && !(s.cpuOut q).pas) := by
  rw [period_a1 h, hq.acrWr]
  cases (s.cpuOut q).pas <;> simp

end Kept

/-! ## §5 Sessions without a flush -/

/-- A period in which `FLUSH` is not strobed. -/
def NoFlush (s : Chip) (q : Period) : Prop := (s.endAccess q).flush = false

instance (s : Chip) (q : Period) : Decidable (NoFlush s q) :=
  inferInstanceAs (Decidable (_ = _))

theorem NoFlush.flushfifo {s : Chip} {q : Period} (hn : NoFlush s q) (h : Live s q) :
    (s.period q).regs.flushfifo = (s.regs.flushfifo && !(s.cpuOut q).stopflush) := by
  rw [period_flushfifo h, show (s.endAccess q).flush = false from hn]
  cases s.regs.flushfifo <;> cases (s.cpuOut q).stopflush <;> rfl

/-- No flush is asked for. -/
def Quiet (s : Chip) : Prop := s.regs.flushfifo = false ∧ s.cpu.inp.flushfifo = false

theorem Quiet.step {s : Chip} {q : Period} (hz : Quiet s) (h : Live s q) (hn : NoFlush s q) :
    Quiet (s.period q) := by
  refine ⟨?_, ?_⟩
  · rw [hn.flushfifo h, hz.1, Bool.false_and]
  · -- CLK135 rising samples `FLUSHFIFO` as the period found it
    rw [period_cpu_inp h]
    exact hz.1

/-! ## §6 A quiet peripheral -/

/-- `_DREQ` is inactive at the edge that samples it. -/
def NoDreq (q : Period) : Prop := q.clk135Fall.dreq_ = true

instance (q : Period) : Decidable (NoDreq q) := inferInstanceAs (Decidable (_ = _))

/-! ## §7 Pieces of runs -/

/-- The CPU begins an access to a register. -/
def strobe (addr : BitVec 5) : Period :=
  { Period.steady {} with
    clk90Fall := { as_ := false, cs_ := false, addr := addr }
    clk135Fall := { as_ := false, cs_ := false, addr := addr } }

/-- The CPU goes on with the access until `registers_term` has answered it. -/
def held (addr : BitVec 5) : List Period :=
  List.replicate 4 (.steady { as_ := false, cs_ := false, addr := addr })

/-- The CPU ends the access. -/
def ended (addr : BitVec 5) : Period :=
  { Period.steady { as_ := false, cs_ := false, addr := addr } with
    clk90Fall := {}, clk135Fall := {} }

/-- The rest of an access that was begun. -/
def answered (addr : BitVec 5) : List Period := held addr ++ [ended addr]

/-- The CPU strobes `FLUSH`, which is decoded until the access ends. -/
def flushCycle : List Period := strobe 0x05 :: answered 0x05

/-- The WD33C93 asks for one byte to be taken or given. -/
def oneByte : List Period := .steady { dreq_ := false, pd := 0xA5 } ::
  List.replicate 5 (.steady { pd := 0xA5 })

/-- Six bytes, a longword and half of one. -/
def sixBytes : List Period := (List.replicate 6 oneByte).flatten

/-- The bus is granted until the first cycle, which is then terminated at once. -/
def oneCycle : List Period := List.replicate 4 (.steady { bg_ := false }) ++
  .steady { sterm_ := false } :: List.replicate 6 (.steady {})

/-- The bus is granted, and memory answers each cycle with `_STERM`. -/
def tenure : List Period := List.replicate 4 (.steady { bg_ := false }) ++
  List.replicate 24 (.steady { sterm_ := false }) ++ [.steady {}]

/-- The FIFO is filled with eight longwords, each terminated by `_STERM`. -/
def filledOnce : List Period :=
  List.replicate 2 (.steady { dreq_ := false }) ++ List.replicate 3 (.steady { bg_ := false }) ++
    List.replicate 18 (.steady { sterm_ := false }) ++ [.steady {}]

/-- The FIFO is filled while the WD33C93 takes bytes from it. -/
def filledAndDrained : List Period :=
  List.replicate 2 (.steady { dreq_ := false }) ++
    List.replicate 3 (.steady { dreq_ := false, bg_ := false }) ++
      List.replicate 60 (.steady { dreq_ := false, sterm_ := false })

end Chip

end Resdmac
