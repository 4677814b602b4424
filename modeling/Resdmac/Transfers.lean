import Resdmac.Session

/-!
# What Passes the Pins in a Period

The chip moves data in two places: a memory cycle ends where `AS_O_` rises, and a byte
passes `PD_PORT` where a strobe of the WD33C93 ends under `DACK`. This module says
which bytes these are, and computes them from the registers before the period.

## Main definitions

- `Chip.written`, `Chip.read` — the bytes of the memory cycle that ends in the period
- `Chip.taken`, `Chip.given` — the byte of the strobe that ends in the period
-/

namespace Resdmac

namespace Chip

/-! ## §1 Memory cycles and bytes -/

/-- The memory cycle ends in the period: `AS_O_` rises at its SCLK falling edge. -/
def endsCycle (s : Chip) (q : Period) : Bool :=
  !(s.atSclkFall q).asO_ && !(s.atSclkFall q).cpu.out.pas

/-- The bytes that memory takes from `DATA_O` when a write cycle ends: the longword, or
its upper word for a word cycle or a 16-bit port. -/
def written (s : Chip) (q : Period) : List Byte :=
  let c := s.atSclkFall q
  if s.endsCycle q && !c.rw q.sclkFall then
    if c.cpu.out.size1 || q.sclkFall.term.isNarrow then (c.dataO q.sclkFall).upper.bytes
    else (c.dataO q.sclkFall).bytes
  else []

/-- The bytes that memory supplies when a read cycle ends: the longword, the upper word
from a 16-bit port (also in the second cycle of a longword, under `BRIDGEIN`), or the
lower word for a word cycle at an odd word address of a 32-bit port. -/
def read (s : Chip) (q : Period) : List Byte :=
  let c := s.atSclkFall q
  if s.endsCycle q && c.rw q.sclkFall then
    if q.sclkFall.term.isNarrow || c.cpu.out.bridgein then q.sclkFall.data.upper.bytes
    else if c.cpu.out.size1 then q.sclkFall.data.lower.bytes
    else q.sclkFall.data.bytes
  else []

/-- The byte on `PD_PORT` when `DACK` with `IOR` ends. -/
def taken (s : Chip) (q : Period) : List Byte :=
  if !(s.atClk90Rise q).scsi.lbyte_ && (s.atClk135Rise q).scsi.lbyte_ then [q.clk90Rise.pd]
  else []

/-- `DACK` with `IOW` is active. -/
def giving (s : Chip) : Bool := s.scsi.out.dack && s.scsi.out.we

/-- The byte driven on `PD_PORT` when `DACK` with `IOW` ends. -/
def given (s : Chip) (q : Period) : List Byte :=
  if (s.atClk90Rise q).giving && !(s.atClk135Rise q).giving then [(s.atClk90Rise q).pdOut]
  else []

/-! ## §2 The signals at the edges -/

theorem cpuOut_bgack {s : Chip} {q : Period} :
    (s.cpuOut q).bgack = (CpuSm.nextState (s.cpuIn q) s.cpu.state).onBus :=
  CpuSm.bgack_eq

section Edges

variable {s : Chip} {q : Period} (h : Live s q)
include h

theorem atSclkFall_asO_ : (s.atSclkFall q).asO_ = s.asO_ := by
  rw [atSclkFall_eq h, atClk135Rise_eq h, atClk90Rise_eq h]
  rfl

theorem endsCycle_eq : s.endsCycle q = (!s.asO_ && !(s.cpuOut q).pas) := by
  rw [endsCycle, atSclkFall_asO_ h, atSclkFall_cpu_out h]

theorem atSclkFall_rw (hb : (s.cpuOut q).bgack = true) :
    (s.atSclkFall q).rw q.sclkFall = s.regs.ndmadir := by
  -- as bus master the chip drives `R_W` from `DMADIR`, which CLK90 falling alone changes
  have hA : (s.atClk90Rise q).regs.ndmadir = s.regs.ndmadir := by rw [atClk90Rise_eq h]; rfl
  have hr : (s.atSclkFall q).regs.ndmadir = s.regs.ndmadir := by
    rw [← hA, atSclkFall_eq h, atClk135Rise_eq h]
    rfl
  rw [rw, own, atSclkFall_cpu_out h, hb, if_pos rfl, Registers.dmadir, hr, Bool.not_not]

/-! ### Answers -/

/-- Nothing in the chip drives `_DSACK` at CLK90 rising. -/
theorem atClk90Rise_dsackInt (hd : s.regs.dsackTerm_ = true) (hn : s.scsi.nls2cpu = false)
    (hf : q.clk90Rise.flashTerm = false) :
    (s.atClk90Rise q).dsackInt q.clk90Rise = true := by
  have e1 : (s.atClk90Rise q).regs.dsackTerm_ = true := by
    rw [atClk90Rise_eq h]
    simp [clear, onSclkRise, hd]
  have e2 : (s.atClk90Rise q).scsi.nls2cpu = false := by
    rw [atClk90Rise_eq h]
    simp [clear, onSclkRise, hn]
  rw [dsackInt, ScsiSm.ls2cpu, e1, e2, hf]
  rfl

/-- The answer of memory as `CPU_SM` reads it in a cycle of its own. -/
theorem cpuIn_answer (hd : s.regs.dsackTerm_ = true) (hn : s.scsi.nls2cpu = false)
    (ho : s.own = true) (ha : s.asO_ = false) (hp : q.clk90Rise.Clean) :
    (s.cpuIn q).nsterm = q.clk90Rise.sterm_ ∧ (s.cpuIn q).ndsack0 = q.clk90Rise.dsack0_ ∧
      (s.cpuIn q).ndsack1 = q.clk90Rise.dsack1_ ∧ (s.cpuIn q).dsack = s.cpu.dsack := by
  have hi := atClk90Rise_dsackInt h hd hn hp.flashTerm
  refine ⟨rfl, ?_, ?_, ?_⟩
  · change (s.atClk90Rise q).dsk0In_ q.clk90Rise = _
    rw [dsk0In_, hi, hp.berr_, Bool.and_true, Bool.true_and]
  · change (s.atClk90Rise q).dsk1In_ q.clk90Rise = _
    rw [dsk1In_, hi, hp.berr_, Bool.and_true, Bool.true_and]
  · -- `AS_O_` is low at both edges, so the latches are not cleared
    change (s.atClk90Rise q).cpu.dsack = _
    have h1 : s.asI_ q.sclkRise = false := by rw [asI_, ho, ha]; rfl
    have h2 : s.asI_ q.clk90Rise = false := by rw [asI_, ho, ha]; rfl
    have e : (s.atClk90Rise q).cpu.dsack =
        !((s.asI_ q.clk90Rise || (s.asI_ q.sclkRise || s.cpu.dsackLatched0_)) &&
          (s.asI_ q.clk90Rise || (s.asI_ q.sclkRise || s.cpu.dsackLatched1_))) := by
      rw [atClk90Rise_eq h]
      rfl
    rw [e, h1, h2, CpuSm.dsack]
    simp

/-- `registers_term` answers only an access that it has decoded. -/
theorem atSclkFall_dsackTerm_ (hd : s.regs.dsackTerm_ = true)
    (hc : Registers.cycleActive ((s.atClk90Rise q).access q.clk90Rise) = false) :
    (s.atSclkFall q).regs.dsackTerm_ = true := by
  have e1 : (s.atClk90Rise q).regs.dsackTerm_ = true := by
    rw [atClk90Rise_eq h]
    simp [clear, onSclkRise, hd]
  have e2 : ((s.atClk90Rise q).regs.clk90Rise ((s.atClk90Rise q).access q.clk90Rise) true
      q.clk90Rise.dspData).dsackTerm_ = true := by
    simp [Registers.clk90Rise, hc, e1]
  have e3 : (s.atClk135Rise q).regs.dsackTerm_ = true := by
    rw [atClk135Rise_eq h]
    exact (congrArg (_ || ·) e2).trans (Bool.or_true _)
  rw [atSclkFall_eq h]
  exact (congrArg (_ || ·) e3).trans (Bool.or_true _)

theorem atClk90Fall_asI_ (p : Pins) :
    (s.atClk90Fall q).asI_ p = if (s.cpuOut q).bgack then !(s.cpuOut q).pas else p.as_ := by
  rw [atClk90Fall_eq h, ← atSclkFall_cpu_out h]
  rfl

theorem period_dsackTerm_ :
    (s.period q).regs.dsackTerm_ =
      ((if (s.cpuOut q).bgack then !(s.cpuOut q).pas else q.clk135Fall.as_) ||
        ((if (s.cpuOut q).bgack then !(s.cpuOut q).pas else q.clk90Fall.as_) ||
          (s.atSclkFall q).regs.dsackTerm_)) := by
  -- CLK90 falling writes other registers, and `AS_` clears the answer before and after it
  have hD : (s.atClk90Fall q).regs.dsackTerm_ =
      ((if (s.cpuOut q).bgack then !(s.cpuOut q).pas else q.clk90Fall.as_) ||
        (s.atSclkFall q).regs.dsackTerm_) := by
    rw [atClk90Fall_eq h, ← atSclkFall_cpu_out h]
    rfl
  have hE : ((s.atClk90Fall q).onClk90Fall q.clk90Fall).regs.dsackTerm_ =
      (s.atClk90Fall q).regs.dsackTerm_ := by
    rw [onClk90Fall, h.2.2.2.2.2.1]
    exact Registers.clk90Fall_dsackTerm_ ..
  rw [← hD, ← hE, ← atClk90Fall_asI_ h, period, atClk135Fall_eq h]
  rfl

omit h in
theorem atSclkFall_dsackInt (hd : (s.atSclkFall q).regs.dsackTerm_ = true)
    (hn : (s.atSclkFall q).scsi.nls2cpu = false) (hf : q.sclkFall.flashTerm = false) :
    (s.atSclkFall q).dsackInt q.sclkFall = true := by
  rw [dsackInt, ScsiSm.ls2cpu, hd, hn, hf]
  rfl

/-- A cycle of the CPU is in progress. -/
theorem ncycledone_of_as (hb : (s.cpuOut q).bgack = false) (ha : q.clk135Rise.as_ = false) :
    s.ncycledone q = true := by
  have ho : (s.atClk135Rise q).own = false := by
    rw [own, ← hb, atClk135Rise_eq h]
    rfl
  have hi : (s.atClk135Rise q).asI_ q.clk135Rise = false := by
    rw [asI_, ho, ha]
    rfl
  rw [ncycledone, cpuClocked, hi]
  simp

/-- The latched answer after a period of a memory cycle. -/
theorem period_dsack (hb : (s.cpuOut q).bgack = true) :
    (s.period q).cpu.dsack =
      (!s.asO_ && (s.cpuOut q).pas &&
        !((s.atSclkFall q).dsk0In_ q.sclkFall && (s.atSclkFall q).dsk1In_ q.sclkFall)) := by
  -- SCLK falling latches `_DSACK` under the old `AS_O_`, and the clears after it see the new one
  have ha : (s.atSclkFall q).asI_ q.sclkFall = s.asO_ := by
    rw [asI_, own, atSclkFall_cpu_out h, hb, atSclkFall_asO_ h]
    rfl
  have e : (s.period q).cpu.dsack =
      !(((if (s.cpuOut q).bgack then !(s.cpuOut q).pas else q.clk135Fall.as_) ||
          ((if (s.cpuOut q).bgack then !(s.cpuOut q).pas else q.clk90Fall.as_) ||
            ((s.atSclkFall q).asI_ q.sclkFall || (s.atSclkFall q).dsk0In_ q.sclkFall))) &&
        ((if (s.cpuOut q).bgack then !(s.cpuOut q).pas else q.clk135Fall.as_) ||
          ((if (s.cpuOut q).bgack then !(s.cpuOut q).pas else q.clk90Fall.as_) ||
            ((s.atSclkFall q).asI_ q.sclkFall || (s.atSclkFall q).dsk1In_ q.sclkFall)))) := by
    rw [period, atClk135Fall_eq h, atClk90Fall_eq h, ← atSclkFall_cpu_out h]
    rfl
  rw [e, ha, hb]
  cases s.asO_ <;> cases (s.cpuOut q).pas <;> simp

/-! ### Data -/

theorem atSclkFall_scsi_out : (s.atSclkFall q).scsi.out = s.scsiOut q := by
  rw [atSclkFall_eq h, atClk135Rise_eq h]
  rfl

/-- The output latches hold the entry at the read pointer once `PAS` was clocked. -/
theorem atSclkFall_latches (hp : s.cpu.out.pas = true) :
    (s.atSclkFall q).path.udLatch = s.fifo.od.upper ∧
      (s.atSclkFall q).path.ldLatch = s.fifo.od.lower := by
  -- SCLK rising clocks them with `PAS`, and no later edge of the period does
  have e : (s.atClk90Rise q).path.udLatch = s.fifo.od.upper ∧
      (s.atClk90Rise q).path.ldLatch = s.fifo.od.lower := by
    rw [atClk90Rise_eq h]
    simp [clear, onSclkRise, Datapath.settle, Datapath.sclkRise, hp]
  rw [atSclkFall_eq h, atClk135Rise_eq h]
  exact e

/-- `DATA_O` with both halves of the FIFO output enabled. -/
theorem atSclkFall_dataO (hp : s.cpu.out.pas = true) (hs : (s.scsiOut q).s2cpu = false)
    (hu : (s.cpuOut q).f2cpuh = true) (hl : (s.cpuOut q).f2cpul = true) :
    (s.atSclkFall q).dataO q.sclkFall = s.fifo.od := by
  obtain ⟨e1, e2⟩ := atSclkFall_latches h hp
  rw [dataO, Datapath.dataO, atSclkFall_scsi_out h, atSclkFall_cpu_out h, hs, hu, hl, e1, e2]
  rfl

/-- `DATA_O` with the lower half bridged to `D31-16`. -/
theorem atSclkFall_dataO_bridged (hp : s.cpu.out.pas = true) (hs : (s.scsiOut q).s2cpu = false)
    (hu : (s.cpuOut q).f2cpuh = false) (hb : (s.cpuOut q).bridgeout = true) :
    ((s.atSclkFall q).dataO q.sclkFall).upper = s.fifo.od.lower := by
  obtain ⟨-, e2⟩ := atSclkFall_latches h hp
  rw [dataO, Datapath.dataO, atSclkFall_scsi_out h, atSclkFall_cpu_out h, hs, hu, hb, e2]
  rfl

theorem taken_eq :
    s.taken q =
      if !s.scsi.lbyte_ && (s.period q).scsi.lbyte_ then [q.clk90Rise.pd] else [] := by
  have e1 : (s.atClk90Rise q).scsi.lbyte_ = s.scsi.lbyte_ := by rw [atClk90Rise_eq h]; rfl
  have e2 : (s.atClk135Rise q).scsi.lbyte_ = (s.period q).scsi.lbyte_ := by
    rw [ScsiSm.lbyte_, ScsiSm.lbyte_, period_scsi_out h, atClk135Rise_eq h]
    rfl
  rw [taken, e1, e2]

theorem given_eq :
    s.given q =
      if s.giving && !(s.period q).giving then
        [if s.scsi.out.f2s || s.scsi.out.cpu2s then s.path.txLatched else 0]
      else [] := by
  have e1 : (s.atClk90Rise q).giving = s.giving := by rw [atClk90Rise_eq h]; rfl
  have e2 : (s.atClk135Rise q).giving = (s.period q).giving := by
    rw [giving, giving, period_scsi_out h, atClk135Rise_eq h]
    rfl
  have e3 : (s.atClk90Rise q).pdOut =
      if s.scsi.out.f2s || s.scsi.out.cpu2s then s.path.txLatched else 0 := by
    rw [atClk90Rise_eq h]
    rfl
  rw [given, e1, e2, e3]

/-- The transmit latch follows the FIFO output while a byte of the DMA is given. -/
theorem period_txLatched (hs : (s.scsiOut q).cpu2s = false) (hf : (s.scsiOut q).f2s = true) :
    (s.period q).path.txLatched = (s.period q).fifo.od.lane (s.period q).fifo.bytePtr := by
  have ho : (s.atClk135Fall q).scsi.out = s.scsiOut q := by
    rw [← atSclkFall_scsi_out h, atClk135Fall_eq h, atClk90Fall_eq h]
    rfl
  have e : (s.period q).path.txLatched =
      Datapath.scsiDataTx (s.period q).fifo.od ((s.atClk135Fall q).cpuOd q.clk135Fall)
        (s.atClk135Fall q).scsi.out.cpu2s (s.atClk135Fall q).scsi.out.f2s
        (q.clk135Fall.addr.getLsbD 1) (s.period q).fifo.bo1 (s.period q).fifo.bo0 := rfl
  rw [e, ho, hs, hf, Fifo.bo0, Fifo.bo1]
  exact Datapath.scsiDataTx_fifo ..

/-- The bridge latch follows `D31-16` while `DS_O_` is low. -/
theorem period_inUdLatch :
    (s.period q).path.inUdLatch =
      if (s.cpuOut q).pds then q.clk90Fall.data.upper else s.path.inUdLatch := by
  have e1 : (s.atSclkFall q).path.inUdLatch = s.path.inUdLatch := by
    rw [atSclkFall_eq h, atClk135Rise_eq h, atClk90Rise_eq h]
    rfl
  have e2 : (s.period q).path.inUdLatch =
      if !!(s.atSclkFall q).cpu.out.pds then q.clk90Fall.data.upper
      else (s.atSclkFall q).path.inUdLatch := by
    rw [period, atClk135Fall_eq h, atClk90Fall_eq h]
    rfl
  rw [e2, e1, atSclkFall_cpu_out h, Bool.not_not]

end Edges

end Chip

end Resdmac
