import Resdmac.Board
import Resdmac.FlushFlag
import Resdmac.Isolation

/-!
# The Driver's End of a Transfer

`dma_stop` of the Linux driver winds up a transfer to memory: it masks the interrupt in
`CNTR`, strobes `FLUSH`, polls `FE_FLG`, and stops the engine by `SP_DMA`
(`Docs/LinuxCodeA3000SCSI/a3000.c`). This module runs it beside the board.

## Main definitions

- `DmaStop` — the statements of `dma_stop`
- `Host` — the board with a CPU that executes them

## Main results

- `Host.dma_stop_stores` — where the driver has left its loop, the block is in memory
-/

namespace Resdmac

open Chip (Period)

namespace CpuSm

/-- Where `CPU_SM` is off the bus after a clock, no cycle is under way. -/
theorem idle_of_not_onBus {i : Inputs} {st : State} (h : (nextState i st).onBus = false) :
    st.strobing = false ∧ st.low = false ∧ (nextState i st).low = false := by
  have hlow : ∀ st : State, st.onBus = false → st.low = false := fun st hs => by
    cases st <;> first | rfl | exact Bool.noConfusion hs
  cases hs : st.onBus with
  | false => exact ⟨State.not_strobing_of_not_onBus hs, hlow _ hs, hlow _ h⟩
  | true =>
      rw [nextState_not_onBus hs h]
      exact ⟨rfl, rfl, rfl⟩

end CpuSm

/-! ## §1 A write of `CNTR` in a session -/

/-- The period with the access at its end turned into a read. -/
def Chip.Period.readBack (q : Period) : Period :=
  { q with clk90Fall := { q.clk90Fall with rw := true } }

/-- The flag is the lowest bit of `ISTR`. -/
theorem Registers.istrO_getLsbD_zero (r : Registers) : r.istrO.ll.getLsbD 0 = r.fe := by
  have hbit : ∀ b7 b6 b5 b4 b3 b2 b1 b0 : Bool,
      (Byte.ofBits b7 b6 b5 b4 b3 b2 b1 b0).getLsbD 0 = b0 := by
    decide
  exact hbit ..

namespace Registers

variable {r : Registers} {a : Access} {mid : Longword} {ds_ stopflush asO_ inta e f : Bool}

/-- A write of `CNTR` that leaves `DMADIR` alone changes `INTENA` and `PRESET` only. -/
theorem clk90Fall_of_contrWr (ha : a.contrWr = true) (hd : mid.ll.getLsbD 1 = r.ndmadir) :
    r.clk90Fall a true mid ds_ stopflush asO_ inta e f =
      { r.clk90Fall { a with rw := true } true mid ds_ stopflush asO_ inta e f with
        intena := mid.ll.getLsbD 2, preset := mid.ll.getLsbD 4 } := by
  obtain ⟨hh, hr⟩ := Bool.and_eq_true_iff.mp ha
  have hn : ∀ n, (8 : BitVec 8) ≠ n → a.hit n = false ∧ ({ a with rw := true } : Access).hit n = false :=
    fun n hn => ⟨Access.hit_unique hh hn, Access.hit_unique (a := { a with rw := true }) hh hn⟩
  have hw : ({ a with rw := true } : Access).contrWr = false := Bool.and_false _
  simp only [clk90Fall, if_true, cntrStep, istrStep, actionStep, ha, hw, Access.stDma, Access.spDma,
    Access.clrInt, Access.istrRd, Access.flush, Access.acrWr, Access.sspbdatWr, Access.flashAddrWr,
    Access.rd, Access.wr, hn _ (by decide : (8 : BitVec 8) ≠ 0x10),
    hn _ (by decide : (8 : BitVec 8) ≠ 0x3C), hn _ (by decide : (8 : BitVec 8) ≠ 0x18),
    hn _ (by decide : (8 : BitVec 8) ≠ 0x1C), hn _ (by decide : (8 : BitVec 8) ≠ 0x14),
    hn _ (by decide : (8 : BitVec 8) ≠ 0x0C), hn _ (by decide : (8 : BitVec 8) ≠ 0x58),
    hn _ (by decide : (8 : BitVec 8) ≠ 0x24), Bool.false_and, Bool.false_eq_true, if_false, hd]

end Registers

namespace Chip

/-- Where `SCSI_SM` is not taking a byte in, none is latched. -/
theorem Strobed.taken_eq_nil {s : Chip} {q : Period} (hs : Strobed s) (h : Live s q)
    (ht : s.scsi.state.taking = false) : s.taken q = [] := by
  have hl : s.scsi.lbyte_ = true := by
    rw [hs.lbyte]
    revert ht
    cases s.scsi.state <;> simp [ScsiSm.State.taking]
  simp [taken_eq h, hl]

/-- A period of a session, in which `CNTR` may be written with the direction it has. -/
structure Keeps (s : Chip) (q : Period) : Prop where
  noReset : q.NoReset
  acrWr : (s.endAccess q).acrWr = false
  spDma : (s.endAccess q).spDma = false
  contrWr : (s.endAccess q).contrWr = true → q.clk90Fall.data.ll.getLsbD 1 = s.regs.ndmadir

section Keeps

variable {s : Chip} {q : Period} (hk : Keeps s q) (ho : (s.atClk90Fall q).own = false)
  (hw : (s.endAccess q).contrWr = true)
include hk ho hw

theorem Keeps.readBack : InSession s q.readBack := by
  have ha : s.endAccess q.readBack = { s.endAccess q with rw := true } := by
    change (s.atClk90Fall q).access q.readBack.clk90Fall = _
    rw [endAccess, access, access, rw, rw, ho]
    rfl
  have hh := (Bool.and_eq_true_iff.mp hw).1
  refine ⟨hk.noReset, ?_, ?_, ?_⟩
  · rw [ha]
    exact Bool.and_false _
  · rw [ha]
    exact Bool.and_false _
  · rw [ha]
    exact Access.hit_unique (a := { s.endAccess q with rw := true }) hh (by decide)

/-- The write is as its read, but for the interrupt mask and the reset of the WD33C93. -/
theorem Keeps.period_eq (ha : s.Awake) : ∃ i p, s.period q =
    { s.period q.readBack with regs :=
      { (s.period q.readBack).regs with intena := i, preset := p } } := by
  have hacc : (s.atClk90Fall q).access q.readBack.clk90Fall =
      { s.endAccess q with rw := true } := by
    rw [endAccess, access, access, rw, rw, ho]
    rfl
  have hd : q.clk90Fall.data.ll.getLsbD 1 = (s.atClk90Fall q).regs.ndmadir := by
    obtain ⟨_, _, _, _, _, _, hr⟩ := atClk90Fall_regs ⟨ha, hk.noReset⟩
    rw [hr]
    exact hk.contrWr hw
  have e : (s.atClk90Fall q).onClk90Fall q.clk90Fall =
      { (s.atClk90Fall q).onClk90Fall q.readBack.clk90Fall with regs :=
        { ((s.atClk90Fall q).onClk90Fall q.readBack.clk90Fall).regs with
          intena := q.clk90Fall.data.ll.getLsbD 2, preset := q.clk90Fall.data.ll.getLsbD 4 } } := by
    have hr : q.clk90Fall.rst_ = true := hk.noReset.2.2.2.2.1
    have hr' : q.readBack.clk90Fall.rst_ = true := hr
    rw [onClk90Fall, onClk90Fall, hacc, hr, hr', ← endAccess,
      Registers.clk90Fall_of_contrWr hw hd]
    rfl
  -- the rest of the period does not look at the two bits
  have hrest : ∀ (t : Chip) (i p : Bool),
      ((({ t with regs := { t.regs with intena := i, preset := p } } : Chip).settle
        q.clk135Fall).onClk135Fall q.clk135Fall) =
      { (t.settle q.clk135Fall).onClk135Fall q.clk135Fall with regs :=
        { ((t.settle q.clk135Fall).onClk135Fall q.clk135Fall).regs with
          intena := i, preset := p } } := by
    intro t i p
    have hs : q.clk135Fall.rst_ = true := hk.noReset.2.2.2.2.2
    simp only [settle, Registers.settle, hs, if_true]
    rfl
  refine ⟨q.clk90Fall.data.ll.getLsbD 2, q.clk90Fall.data.ll.getLsbD 4, ?_⟩
  change (((s.atClk90Fall q).onClk90Fall q.clk90Fall).settle q.clk135Fall).onClk135Fall
    q.clk135Fall = _
  rw [e, hrest]
  rfl

end Keeps

/-! ### What holds of a chip but for the two bits -/

section Masked

variable {s : Chip} (i p : Bool)

/-- The chip with another interrupt mask and another reset of the WD33C93. -/
def masked (s : Chip) (i p : Bool) : Chip :=
  { s with regs := { s.regs with intena := i, preset := p } }

theorem Reading.masked (h : Reading s) : Reading (s.masked i p) := { h with }

theorem Fed.masked (h : Fed s) : Fed (s.masked i p) := { h with }

theorem Aligned.masked (h : Aligned s) : Aligned (s.masked i p) := h

theorem Still.masked (h : Still s) : Still (s.masked i p) := { h with }

theorem Capped.masked (h : Capped s) : Capped (s.masked i p) := h

end Masked

end Chip

namespace Board

/-! ## §2 The end of the block -/

/-- The WD33C93 has given its last byte, and it was the last one of a longword. -/
structure Closing (m : Address → Byte) (a : Address) (b : Board) : Prop where
  storing : Storing m a b
  still : Chip.Still b.sys.chip
  whole : b.sys.chip.fifo.bytePtr = 0
  tail : b.sys.chip.cpu.state.tail = false

section Closing

variable {m : Address → Byte} {a : Address} {b : Board} {q : Period} (hc : Closing m a b)
include hc

/-- There is no last word for a flush. -/
theorem Closing.lastword : b.sys.chip.lastword = false := by
  have h0 : b.sys.chip.fifo.boeq0 = true := by
    rw [Fifo.boeq0, hc.whole]
    rfl
  rw [Chip.lastword, h0]
  rfl

theorem Closing.not_spuriousTail : ¬ Chip.SpuriousTail b.sys.chip := by
  rintro ⟨hl, -⟩
  exact Bool.noConfusion (hc.lastword.symm.trans hl)

theorem Closing.tail_step (h : Chip.Live b.sys.chip q) :
    (b.sys.chip.period q).cpu.state.tail = false := by
  refine Bool.eq_false_iff.mpr fun hn => ?_
  rw [Chip.period_cpu_state h] at hn
  rcases CpuSm.nextState_tail hn with h1 | h1
  · exact Bool.noConfusion (hc.tail.symm.trans h1)
  · rw [Chip.cpuIn_eq h] at h1
    exact Bool.noConfusion (hc.lastword.symm.trans h1)

theorem Closing.whole_step (hq : q.NoReset) : (b.sys.chip.period q).fifo.bytePtr = 0 := by
  rw [hc.storing.draining.reading.period_bytePtr_eq q hq,
    ScsiSm.State.beq_s2f3 hc.still.state, if_neg Bool.false_ne_true, hc.whole]

theorem Closing.taken (hq : q.NoReset) : b.sys.chip.taken q = [] :=
  hc.storing.draining.strobed.taken_eq_nil ⟨hc.storing.draining.reading.awake, hq⟩ hc.still.state

variable (hq : System.BusRules b.sys q) (hk : Chip.Keeps b.sys.chip q) (hd : Chip.NoDreq q)
include hq hk hd

omit hd in
/-- In a write of `CNTR` the chip is off the bus, and nothing moves. -/
theorem Closing.contents_of_contrWr (hw : (b.sys.chip.endAccess q).contrWr = true) :
    (b.sys.chip.period q).contents = b.sys.chip.contents ∧
      (b.sys.chip.period q).skip = b.sys.chip.skip ∧ b.sys.chip.endsCycle q = false := by
  have hD := hc.storing.draining
  have hI := hD.reading
  have h := hD.coupled.live hq
  have hb := hD.coupled.not_bgack_of_hit hq (Bool.and_eq_true_iff.mp hw).1
  have ho : (b.sys.chip.atClk90Fall q).own = false := by
    rw [Chip.own, Chip.atClk90Fall_cpu_out h]
    exact hb
  -- the same period with the bits of `CNTR` written back is one of a session
  have hs := hk.readBack ho hw
  obtain ⟨i, p, e⟩ := hk.period_eq ho hw h.1
  have hn : (CpuSm.nextState (b.sys.chip.cpuIn q) b.sys.chip.cpu.state).onBus = false :=
    Chip.cpuOut_bgack.symm.trans hb
  obtain ⟨hst, hlow, hlow'⟩ := CpuSm.idle_of_not_onBus hn
  have hdec : (b.sys.chip.cpuComb q).intDecfifo = false := (CpuSm.fifo_of_not_onBus (.inr hn)).2.1
  refine ⟨?_, ?_, ?_⟩
  · have hp := hI.period_contents hD.strobed hs (hI.not_underflow hs hD.fed)
    have ht : b.sys.chip.taken q.readBack = [] := hc.taken hk.noReset
    have hdec' : (b.sys.chip.cpuComb q.readBack).intDecfifo = false := hdec
    rw [ht, hdec', List.append_nil, if_neg Bool.false_ne_true, List.drop_zero] at hp
    rw [e]
    exact hp
  · have ha : (b.sys.chip.cpuOut q).pas = false := (CpuSm.not_bgack_spec hb).2
    have hl : (b.sys.chip.period q).cpu.state.low = false := by
      rw [Chip.period_cpu_state h]
      exact hlow'
    rw [Chip.skip, Chip.skip, Chip.period_a1 h, hk.acrWr, ha, hl, hlow]
    rfl
  · rw [Chip.endsCycle_eq h, hD.coupled.asO_, hst]
    rfl

/-- A write of `CNTR` that keeps the direction is no end of the transfer. -/
theorem Closing.step_contrWr (hw : (b.sys.chip.endAccess q).contrWr = true) :
    Closing m a (b.step q) := by
  have hD := hc.storing.draining
  have hC := hD.coupled
  have hI := hD.reading
  have h := hC.live hq
  have ho : (b.sys.chip.atClk90Fall q).own = false := by
    rw [Chip.own, Chip.atClk90Fall_cpu_out h]
    exact hC.not_bgack_of_hit hq (Bool.and_eq_true_iff.mp hw).1
  have hs := hk.readBack ho hw
  have hu := hI.not_underflow hs hD.fed
  -- what holds after the period of the session holds with other interrupt bits too
  have hm : ∀ P : Chip → Prop,
      (∀ i p, P ((b.sys.chip.period q.readBack).masked i p)) → P (b.sys.chip.period q) := by
    intro P hP
    obtain ⟨i, p, e⟩ := hk.period_eq ho hw h.1
    rw [e]
    exact hP i p
  obtain ⟨hcont, hskip, hends⟩ := hc.contents_of_contrWr hq hk hw
  have hwr : (b.step q).sys.written = b.sys.written := by
    change b.sys.written ++ b.sys.chip.written q = _
    rw [Chip.written, hends, Bool.false_and, if_neg Bool.false_ne_true, List.append_nil]
  obtain ⟨hacr, hmem⟩ := step_of_not_ends hends
  have hdr : System.Draining (b.sys.step q) :=
    { coupled := hC.step hq
      reading := hm _ (hI.step hs hu).masked
      fed := hm _ (hI.fed_step hs hD.fed hc.not_spuriousTail).masked
      strobed := Chip.period_strobed h
      aligned := hm _ (hD.aligned.step ⟨h.1, hs.noReset⟩ hs).masked
      stream := by
        constructor
        · change b.sys.taken ++ b.sys.chip.taken q = (b.step q).sys.written ++ _
          rw [hc.taken hk.noReset, List.append_nil, hwr, hD.stream.bytes, Chip.undelivered,
            Chip.undelivered]
          exact congrArg _ (by rw [← hcont, ← hskip]; rfl)
        · change (b.sys.chip.period q).skip ≤ (b.sys.chip.period q).contents.length
          rw [hskip, hcont]
          exact hD.stream.skip_le }
  refine ⟨⟨hdr, ?_, ?_, ?_, ?_⟩, ?_, hc.whole_step hk.noReset, hc.tail_step h⟩
  · exact hm _ (hI.capped_step hs hu hc.storing.capped).masked
  · rw [hacr, hwr, hc.storing.acr]
  · rw [hacr, hc.storing.odd, ← hskip]
    rfl
  · rw [hmem, hwr, hc.storing.mem]
  · exact hm _ (hc.still.step hI hs hd).masked

/-- A period of the wind-up. -/
theorem Closing.step : Closing m a (b.step q) := by
  have hD := hc.storing.draining
  have h := hD.coupled.live hq
  cases hw : (b.sys.chip.endAccess q).contrWr with
  | true => exact hc.step_contrWr hq hk hd hw
  | false =>
      have hs : Chip.InSession b.sys.chip q := ⟨hk.noReset, hw, hk.acrWr, hk.spDma⟩
      exact
        { storing := hc.storing.step hq hs hc.not_spuriousTail hc.tail
          still := hc.still.step hD.reading hs hd
          whole := hc.whole_step hq.noReset
          tail := hc.tail_step h }

end Closing

/-! ## §3 The empty FIFO -/

end Board

namespace Chip

/-- The FIFO is empty, `CPU_SM` is off the bus and nothing will bring it there, whether
`DMAENA` is set or not. -/
structure Drained (s : Chip) : Prop where
  awake : s.Awake
  ndmadir : s.regs.ndmadir = false
  cpu : s.cpu.state = .s0 ∨ s.cpu.state = .s20
  level : s.fifo.level = 0
  bytePtr : s.fifo.bytePtr = 0
  a1 : s.regs.a1 = false
  taking : s.scsi.state.taking = false
  giving : s.scsi.state.giving = false
  rififoO : s.scsi.rififoO = false
  rdfifoO : s.scsi.rdfifoO = false
  cdreq_ : s.scsi.inp.cdreq_ = true
  strobed : Strobed s
  asO_ : s.asO_ = true

/-- A period in which neither `ACR` nor the direction is written. -/
structure Leaves (s : Chip) (q : Period) : Prop where
  noReset : q.NoReset
  acrWr : (s.endAccess q).acrWr = false
  contrWr : (s.endAccess q).contrWr = true → q.clk90Fall.data.ll.getLsbD 1 = s.regs.ndmadir
  noDreq : NoDreq q

section Drained

variable {s : Chip} {q : Period} (hs : Drained s)
include hs

theorem Drained.not_requesting : ¬ Requesting s := by
  have hfull : s.fifo.full = false := by
    rw [Fifo.full_eq, hs.level]
    rfl
  have hempty : s.fifo.empty = true := by
    rw [Fifo.empty_eq, hs.level]
    rfl
  have hlast : s.lastword = false := by
    rw [lastword, Fifo.boeq0, hs.bytePtr]
    rfl
  have hdir : s.regs.dmadir = true := by
    rw [Registers.dmadir, hs.ndmadir]
    rfl
  rw [Requesting, hfull, hempty, hlast, hdir]
  rcases hs.cpu with e | e <;> rw [e] <;> simp

variable (hq : Leaves s q)
include hq

/-- Nothing passes the pins. -/
theorem Drained.still : s.taken q = [] ∧ s.endsCycle q = false := by
  have h : Live s q := ⟨hs.awake, hq.noReset⟩
  refine ⟨hs.strobed.taken_eq_nil h hs.taking, ?_⟩
  rw [endsCycle_eq h, hs.asO_]
  rfl

theorem Drained.step : Drained (s.period q) := by
  have h : Live s q := ⟨hs.awake, hq.noReset⟩
  obtain ⟨hpas, hbg, hn⟩ := CpuSm.idle_spec (i := s.cpuIn q) hs.cpu
  rw [if_neg (fun hr => hs.not_requesting ((requests_iff h hs.cpu).mp hr))] at hn
  have hoff : (CpuSm.nextState (s.cpuIn q) s.cpu.state).onBus = false := by
    rcases hn with e | e <;> rw [e] <;> rfl
  obtain ⟨-, hdec, hinc, -⟩ := CpuSm.fifo_of_not_onBus (.inr hoff)
  -- neither machine asks for the counter
  have hdec' : (s.cpuOut q).decfifo = false := by
    rw [cpuOut_decfifo h, hs.rdfifoO, show (s.cpuComb q).intDecfifo = false from hdec]
    simp
  have hinc' : (s.cpuOut q).incfifo = false := by
    rw [cpuOut_incfifo h, hs.rififoO, show (s.cpuComb q).intIncfifo = false from hinc]
    simp
  have hdir : (s.scsiIn q).dmadir = true := by
    rw [scsiIn_eq h, Registers.dmadir, hs.ndmadir]
    rfl
  have hcd : (s.scsiIn q).cdreq_ = true := by
    rw [scsiIn_eq h]
    exact hs.cdreq_
  have h2 := ScsiSm.State.beq_s2f3 hs.taking
  have h3 := ScsiSm.State.beq_f2s3 hs.giving
  have hap : (s.cpuOut q).pas = false := hpas
  constructor
  case awake => exact period_awake h
  case ndmadir =>
    rw [period_ndmadir h]
    split_ifs with hw
    · rw [hq.contrWr hw, hs.ndmadir]
    · exact hs.ndmadir
  case cpu =>
    rw [period_cpu_state h]
    exact hn
  case level =>
    rw [period_level h (by rw [hs.level]; exact Nat.zero_le 8), hdec', hinc', hs.level]
    split_ifs <;> simp_all
  case bytePtr =>
    rw [period_bytePtr h, scsiOut_incbo, h2, h3, hs.a1, hs.bytePtr]
    split_ifs <;> simp_all
  case a1 =>
    rw [period_a1 h, hq.acrWr, hap]
    exact hs.a1
  -- without `DREQ` no byte is begun
  case taking =>
    rw [period_scsi_state h]
    refine Bool.eq_false_iff.mpr fun ht => ?_
    have hs' := hs.taking
    rcases ScsiSm.nextState_taking ht with e | e | ⟨-, hi⟩
    · simp [e, ScsiSm.State.taking] at hs'
    · simp [e, ScsiSm.State.taking] at hs'
    · simp [ScsiSm.Inputs.startS2f, hcd] at hi
  case giving =>
    rw [period_scsi_state h]
    refine Bool.eq_false_iff.mpr fun hg => ?_
    have hs' := hs.giving
    rcases ScsiSm.nextState_giving hg with e | e | ⟨-, hi⟩
    · simp [e, ScsiSm.State.giving] at hs'
    · simp [e, ScsiSm.State.giving] at hs'
    · simp [ScsiSm.Inputs.startF2s, hdir] at hi
  case rififoO =>
    rw [period_rififoO h, scsiOut_rififo h, h2, hs.rififoO]
    simp
  case rdfifoO =>
    rw [period_rdfifoO h, scsiOut_rdfifo h, h3, hs.rdfifoO]
    simp
  case cdreq_ =>
    rw [period_scsi_inp h]
    simp [scsiClocked, dreq_, show q.clk135Fall.dreq_ = true from hq.noDreq]
  case strobed => exact period_strobed h
  case asO_ =>
    rw [period_asO_ h, hap]
    rfl

end Drained

end Chip

namespace Board

/-- All bytes of the block are in memory. -/
structure Stored (m : Address → Byte) (a : Address) (block : List Byte) (b : Board) : Prop where
  drained : Chip.Drained b.sys.chip
  taken : b.sys.taken = block
  acr : b.acr = a + (block.length : Address)
  mem : b.mem = Memory.store m a block

section Stored

variable {m : Address → Byte} {a : Address} {block : List Byte} {b : Board} {q : Period}

theorem Stored.step (hs : Stored m a block b) (hq : Chip.Leaves b.sys.chip q) :
    Stored m a block (b.step q) := by
  obtain ⟨ht, he⟩ := hs.drained.still hq
  obtain ⟨hacr, hmem⟩ := step_of_not_ends he
  refine ⟨hs.drained.step hq, ?_, ?_, ?_⟩
  · change b.sys.taken ++ b.sys.chip.taken q = block
    rw [ht, List.append_nil, hs.taken]
  · rw [hacr, hs.acr]
  · rw [hmem, hs.mem]

/-- With the FIFO empty and the CPU on the bus, the block is in memory. -/
theorem Closing.stored (hc : Closing m a b) (hl : b.sys.chip.fifo.level = 0)
    (ho : b.sys.chip.cpu.state.onBus = false) : Stored m a b.sys.taken b := by
  have hD := hc.storing.draining
  have hI := hD.reading
  have hrec : b.sys.chip.received = 0 := by
    rw [Chip.received, hl, hc.still.rififoO]
    rfl
  have hcont : b.sys.chip.contents = [] := by
    rw [Chip.contents, hrec, ScsiSm.State.beq_s2f3 hc.still.state, hc.whole]
    rfl
  have hskip : b.sys.chip.skip = 0 := by
    have h := hD.stream.skip_le
    rw [hcont] at h
    exact Nat.le_zero.mp h
  have hbytes : b.sys.taken = b.sys.written := by
    rw [hD.stream.bytes, Chip.undelivered, hcont, List.drop_nil, List.append_nil]
  have ha1 : b.sys.chip.regs.a1 = false := by
    refine Bool.eq_false_iff.mpr fun h1 => ?_
    rw [Chip.skip, h1] at hskip
    simp at hskip
  have hcpu : b.sys.chip.cpu.state = .s0 ∨ b.sys.chip.cpu.state = .s20 := by
    rcases CpuSm.State.cases_of_not_onBus ho with e | e | hw
    · exact .inl e
    · exact .inr e
    · -- a request is made for a longword or the last word only
      rcases CpuSm.State.eq_of_waiting hw with e | e
      · rcases hD.fed.request e with h1 | h1
        · omega
        · exact Bool.noConfusion (hc.lastword.symm.trans h1)
      · have hf := hI.cpu
        rw [e] at hf
        exact Bool.noConfusion hf
  refine ⟨?_, rfl, ?_, ?_⟩
  · exact
      { awake := hI.awake
        ndmadir := hI.ndmadir
        cpu := hcpu
        level := hl
        bytePtr := hc.whole
        a1 := ha1
        taking := hc.still.state
        giving := hI.scsi
        rififoO := hc.still.rififoO
        rdfifoO := hI.rdfifoO
        cdreq_ := hc.still.cdreq_
        strobed := hD.strobed
        asO_ := hD.coupled.asO_of_not_onBus ho }
  · rw [hc.storing.acr, hbytes]
  · rw [hc.storing.mem, hbytes]

end Stored

end Board

/-! ## §4 `dma_stop` -/

namespace System

/-- The CPU accesses the chip. -/
def accessing (x : System) : Bool := x.cycle.any fun b => !b.cs_

/-- An access to the chip ends in the period. -/
def endsAccess (x : System) (q : Period) : Bool := x.accessing && (x.step q).cycle.isNone

theorem exists_of_accessing {x : System} (hs : x.accessing = true) :
    ∃ b, x.cycle = some b ∧ b.cs_ = false := by
  obtain ⟨b, hb, hcs⟩ := (Option.any_eq_true ..).mp hs
  exact ⟨b, hb, (Bool.not_eq_true' _).mp hcs⟩

theorem cycle_of_accessing {x : System} (hs : x.accessing = true) : x.cycle.isSome = true := by
  obtain ⟨b, hb, -⟩ := exists_of_accessing hs
  exact Option.isSome_iff_exists.mpr ⟨b, hb⟩

theorem of_endsAccess {x : System} {q : Period} (h : x.endsAccess q = true) :
    x.accessing = true ∧ (x.step q).accessing = false := by
  obtain ⟨hacc, hn⟩ := Bool.and_eq_true_iff.mp h
  exact ⟨hacc, by rw [accessing, Option.isNone_iff_eq_none.mp hn]; rfl⟩

/-- With `AS_` high nothing is accessed. -/
theorem hit_steady (s : Chip) (n : BitVec 8) : (s.endAccess (.steady {})).hit n = false := by
  apply Access.hit_of_not_valid
  simp [Chip.endAccess, Chip.access, Access.valid, Period.steady]

/-- Where no cycle is under way, nothing has to happen. -/
theorem busRules_steady {x : System} (hc : x.cycle = none) (ha : x.chip.asO_ = true) :
    x.BusRules (.steady {}) := by
  have hnr : (Period.steady {}).NoReset := ⟨rfl, rfl, rfl, rfl, rfl, rfl⟩
  refine ⟨hnr, ?_, rfl, ?_, ?_, ?_, ⟨fun _ => rfl, fun _ => ⟨rfl, rfl⟩⟩, ?_⟩
  · rw [hc]
    exact ⟨rfl, rfl, rfl, rfl⟩
  · exact fun _ h => Bool.noConfusion h
  · exact fun _ _ h => Bool.noConfusion h
  · rw [hc]
    exact fun b hb => (Option.not_mem_none b hb).elim
  · exact fun h => Bool.noConfusion (ha.symm.trans h)

/-- The CPU accesses a location of the chip, and waits some clocks for the answer. -/
def accessPeriods (w : BitVec 5 × Bool) (data : Longword) (n : ℕ) : List Period :=
  let p : Pins := { as_ := false, cs_ := false, addr := w.1, rw := w.2, data }
  { Period.steady {} with clk90Fall := p, clk135Fall := p } :: List.replicate n (.steady p) ++
    [{ Period.steady p with clk90Fall := {}, clk135Fall := {} }]

/-- The only location of the chip that the CPU accesses. -/
def Accesses (x : System) (q : Period) (w : Option (BitVec 5 × Bool)) : Prop :=
  ∀ b ∈ (x.step q).cycle, b.cs_ = false → w = some (b.addr, b.rw)

instance (x : System) (q : Period) (w : Option (BitVec 5 × Bool)) : Decidable (x.Accesses q w) :=
  inferInstanceAs (Decidable (∀ _, _))

/-- The decoder hits that location. -/
theorem Accesses.of_hit {x : System} {q : Period} {w : Option (BitVec 5 × Bool)}
    (ha : x.Accesses q w) (hC : Coupled x) (hq : BusRules x q) {n : BitVec 8}
    (hn : (x.chip.endAccess q).hit n = true) : w.map (fun w => 0#1 ++ w.1 ++ 0#2) = some n := by
  rw [hC.hit_eq hq] at hn
  obtain ⟨b, hb, hn⟩ := (Option.any_eq_true ..).mp hn
  rw [BusCycle.hits, Bool.and_eq_true, Bool.not_eq_true', beq_iff_eq] at hn
  rw [ha b hb hn.1, Option.map_some, hn.2]

/-- An access to that location is decoded. -/
theorem Accesses.hit {x : System} {q : Period} {w : BitVec 5 × Bool} (ha : x.Accesses q (some w))
    (hC : Coupled x) (hq : BusRules x q) (hs : (x.step q).accessing = true) :
    (x.chip.endAccess q).hit (0#1 ++ w.1 ++ 0#2) = true ∧ (x.chip.endAccess q).rw = w.2 := by
  obtain ⟨b, hb, hcs⟩ := exists_of_accessing hs
  have hw : w = (b.addr, b.rw) := Option.some.inj (ha b hb hcs)
  refine ⟨?_, ?_⟩
  · rw [hC.hit_eq hq, hb, Option.any_some, BusCycle.hits, hcs, hw]
    exact (Bool.true_and _).trans (beq_self_eq_true _)
  · have hown : (x.chip.atClk90Fall q).own = false := by
      rw [Chip.own, Chip.atClk90Fall_cpu_out (hC.live hq)]
      exact hC.bgack_of_step hq (cycle_of_accessing hs)
    have hn : x.nextCycle q = some b := hb
    rw [nextCycle] at hn
    split_ifs at hn
    rw [hw, Chip.endAccess, Chip.access, Chip.rw, hown]
    exact congrArg BusCycle.rw (Option.some.inj hn)

end System

/-- The statements of `dma_stop` that reach the chip, after a transfer to memory. -/
inductive DmaStop where
  /-- `regs->CNTR = CNTR_PDMD` -/
  | maskInterrupts
  /-- `regs->FLUSH = 1` -/
  | flush
  /-- `while (!(regs->ISTR & ISTR_FE_FLG))` -/
  | poll
  /-- `regs->CINT = 1` -/
  | clearInterrupt
  /-- `regs->SP_DMA = 1` -/
  | stopDma
  /-- `regs->CNTR = CNTR_PDMD | CNTR_INTEN` -/
  | restoreControl
  | returned
deriving DecidableEq, Repr

namespace DmaStop

/-- The longword that a statement accesses, and its `R_W`. -/
def access : DmaStop → Option (BitVec 5 × Bool)
  | .maskInterrupts => some (0x02, false)
  | .flush => some (0x05, false)
  | .poll => some (0x07, true)
  | .clearInterrupt => some (0x06, false)
  | .stopDma => some (0x0F, false)
  | .restoreControl => some (0x02, false)
  | .returned => none

/-- The offset of that longword. -/
def offset (d : DmaStop) : Option (BitVec 8) := d.access.map fun w => 0#1 ++ w.1 ++ 0#2

/-- What a statement writes. -/
def data : DmaStop → Byte
  | .maskInterrupts => 0x08
  | .restoreControl => 0x0C
  | _ => 1

/-- The statement after an access; the loop is left once `FE_FLG` is read as set. -/
def next (istr : Byte) : DmaStop → DmaStop
  | .maskInterrupts => .flush
  | .flush => .poll
  | .poll => if istr.getLsbD 0 then .clearInterrupt else .poll
  | .clearInterrupt => .stopDma
  | .stopDma => .restoreControl
  | .restoreControl => .returned
  | .returned => .returned

/-- The CPU accesses the longword of a statement, and waits some clocks for the answer. -/
def periods (d : DmaStop) (n : ℕ) : List Period :=
  match d.access with
  | none => []
  | some w => System.accessPeriods w { ll := d.data } n

/-- The loop is left. -/
def polled : DmaStop → Bool
  | .maskInterrupts | .flush | .poll => false
  | _ => true

theorem next_polled {d : DmaStop} (istr : Byte) (h : d.polled = true) :
    (d.next istr).polled = true := by
  cases d <;> first | rfl | exact Bool.noConfusion h

/-- The loop is left for `CINT`. -/
theorem next_eq_clearInterrupt {d : DmaStop} {istr : Byte}
    (h : d.next istr = .clearInterrupt) : d = .poll ∧ istr.getLsbD 0 = true := by
  cases d with
  | poll =>
      refine ⟨rfl, ?_⟩
      by_contra hf
      rw [next, if_neg hf] at h
      exact DmaStop.noConfusion h
  | maskInterrupts => exact DmaStop.noConfusion h
  | flush => exact DmaStop.noConfusion h
  | clearInterrupt => exact DmaStop.noConfusion h
  | stopDma => exact DmaStop.noConfusion h
  | restoreControl => exact DmaStop.noConfusion h
  | returned => exact DmaStop.noConfusion h

theorem next_eq_returned {d : DmaStop} {istr : Byte} (h : d.next istr = .returned) :
    d = .restoreControl ∨ d = .returned := by
  cases d with
  | restoreControl => exact .inl rfl
  | returned => exact .inr rfl
  | poll =>
      rw [next] at h
      split_ifs at h
  | maskInterrupts => exact DmaStop.noConfusion h
  | flush => exact DmaStop.noConfusion h
  | clearInterrupt => exact DmaStop.noConfusion h
  | stopDma => exact DmaStop.noConfusion h

theorem next_eq_of_polled {d : DmaStop} {istr : Byte} (hd : d.polled = false)
    (hn : (d.next istr).polled = true) : d.next istr = .clearInterrupt := by
  cases d with
  | poll =>
      rw [next] at hn ⊢
      split_ifs at hn ⊢ with hf
      · rfl
      · exact Bool.noConfusion hn
  | maskInterrupts => exact Bool.noConfusion hn
  | flush => exact Bool.noConfusion hn
  | clearInterrupt => exact Bool.noConfusion hd
  | stopDma => exact Bool.noConfusion hd
  | restoreControl => exact Bool.noConfusion hd
  | returned => exact Bool.noConfusion hd

end DmaStop

/-- The board with a CPU in `dma_stop`. -/
structure Host where
  board : Board
  stop : DmaStop

namespace Host

/-- An access to the chip ends in the period. -/
def ends (h : Host) (q : Period) : Bool := h.board.sys.endsAccess q

def step (h : Host) (q : Period) : Host where
  board := h.board.step q
  stop := if h.ends q then h.stop.next h.board.sys.chip.regs.istrO.ll else h.stop

/-- A period in which the CPU accesses the chip for `dma_stop` only, and the WD33C93 is done.
It may use the bus for other cycles. `CNTR` takes what is on the bus at each edge of an access,
so what the CPU writes is there at all of them. -/
structure Executes (h : Host) (q : Period) : Prop where
  bus : System.BusRules h.board.sys q
  access : h.board.sys.Accesses q h.stop.access
  data : (h.board.sys.chip.endAccess q).contrWr = true → q.clk90Fall.data.ll = h.stop.data
  noDreq : Chip.NoDreq q

instance (h : Host) (q : Period) : Decidable (h.Executes q) :=
  decidable_of_iff
    (System.BusRules h.board.sys q ∧
      h.board.sys.Accesses q h.stop.access ∧
      ((h.board.sys.chip.endAccess q).contrWr = true → q.clk90Fall.data.ll = h.stop.data) ∧
      Chip.NoDreq q)
    ⟨fun ⟨h1, h2, h3, h4⟩ => ⟨h1, h2, h3, h4⟩, fun ⟨h1, h2, h3, h4⟩ => ⟨h1, h2, h3, h4⟩⟩

/-- A statement is followed by the next one where an access ends. -/
theorem step_stop (h : Host) (q : Period) :
    (h.step q).stop = h.stop ∨
      h.board.sys.accessing = true ∧ (h.step q).stop = h.stop.next h.board.sys.chip.regs.istrO.ll := by
  unfold step
  split_ifs with he
  · exact .inr ⟨(Bool.and_eq_true_iff.mp he).1, rfl⟩
  · exact .inl rfl

section Step

variable {h : Host} {q : Period}

theorem stop_of_ends (he : h.ends q = true) :
    (h.step q).stop = h.stop.next h.board.sys.chip.regs.istrO.ll := if_pos he

theorem stop_of_not_ends (he : h.ends q = false) : (h.step q).stop = h.stop :=
  if_neg (by rw [he]; exact Bool.false_ne_true)

/-- With a cycle in progress the statement is the same. -/
theorem stop_of_cycle (hs : (h.board.sys.step q).cycle.isSome = true) :
    (h.step q).stop = h.stop :=
  stop_of_not_ends (by rw [ends, System.endsAccess, Option.isNone_eq_false_iff.mpr hs, Bool.and_false])

/-- The decoder hits the location of the statement. -/
theorem Executes.offset_of_hit (hq : h.Executes q) (hC : System.Coupled h.board.sys)
    {n : BitVec 8} (hn : (h.board.sys.chip.endAccess q).hit n = true) :
    h.stop.offset = some n := hq.access.of_hit hC hq.bus hn

theorem Executes.not_hit (hq : h.Executes q) (hC : System.Coupled h.board.sys) {n : BitVec 8}
    (hn : h.stop.offset ≠ some n) : (h.board.sys.chip.endAccess q).hit n = false :=
  Bool.eq_false_iff.mpr fun hh => hn (hq.offset_of_hit hC hh)

theorem Executes.acrWr (hq : h.Executes q) (hC : System.Coupled h.board.sys) :
    (h.board.sys.chip.endAccess q).acrWr = false := by
  have hn : (h.board.sys.chip.endAccess q).hit 0x0C = false := by
    apply hq.not_hit hC
    cases h.stop <;> decide
  rw [Access.acrWr, Access.wr, hn, Bool.false_and]

/-- Both writes of `CNTR` have the direction of the transfer. -/
theorem Executes.contrWr (hq : h.Executes q) (hC : System.Coupled h.board.sys)
    (hw : (h.board.sys.chip.endAccess q).contrWr = true) :
    q.clk90Fall.data.ll.getLsbD 1 = false := by
  have ho := hq.offset_of_hit hC (Bool.and_eq_true_iff.mp hw).1
  rw [hq.data hw]
  revert ho
  cases h.stop <;> decide

theorem Executes.leaves (hq : h.Executes q) (hC : System.Coupled h.board.sys)
    (hd : h.board.sys.chip.regs.ndmadir = false) : Chip.Leaves h.board.sys.chip q :=
  ⟨hq.bus.noReset, hq.acrWr hC, fun hw => (hq.contrWr hC hw).trans hd.symm, hq.noDreq⟩

theorem Executes.keeps (hq : h.Executes q) (hC : System.Coupled h.board.sys)
    (hd : h.board.sys.chip.regs.ndmadir = false) (hp : h.stop.polled = false) :
    Chip.Keeps h.board.sys.chip q := by
  refine ⟨hq.bus.noReset, hq.acrWr hC, ?_, fun hw => (hq.contrWr hC hw).trans hd.symm⟩
  apply hq.not_hit hC
  revert hp
  cases h.stop <;> decide

/-- An access of the loop samples the flag in each of its clocks. -/
theorem Executes.fe (hq : h.Executes q) (hC : System.Coupled h.board.sys) (hp : h.stop = .poll)
    (hs : (h.step q).board.sys.accessing = true) :
    (h.board.sys.step q).chip.regs.fe = (h.board.sys.step q).chip.fifo.empty := by
  have hl := hC.live hq.bus
  have ha : h.board.sys.Accesses q (some (0x07, true)) := by
    have ha := hq.access
    rwa [hp] at ha
  obtain ⟨hhit, hrw⟩ := ha.hit hC hq.bus hs
  have hread : (h.board.sys.chip.endAccess q).istrRd = true := Bool.and_eq_true_iff.mpr ⟨hhit, hrw⟩
  change (h.board.sys.chip.period q).regs.fe = _
  rw [Chip.period_fe hl, show (h.board.sys.chip.endAccess q).clrInt = false from
    Access.hit_unique hhit (by decide), hread]
  rfl

end Step

/-- The run of `dma_stop`: up to the flag the block is on its way, after it the block is in
memory, and after `SP_DMA` the engine is at rest. -/
structure Winding (m : Address → Byte) (a : Address) (block : List Byte) (h : Host) : Prop where
  coupled : System.Coupled h.board.sys
  closing : h.stop.polled = false → Board.Closing m a h.board ∧ h.board.sys.taken = block
  flag : h.stop = .poll → h.board.sys.accessing = true →
    h.board.sys.chip.regs.fe = h.board.sys.chip.fifo.empty
  stored : h.stop.polled = true → Board.Stored m a block h.board
  dmaena : h.stop = .stopDma ∧ h.board.sys.accessing = true ∨ h.stop = .restoreControl ∨
    h.stop = .returned → h.board.sys.chip.regs.dmaena = false

section Winding

variable {m : Address → Byte} {a : Address} {block : List Byte} {h : Host} {q : Period}

theorem Winding.taken (hw : Winding m a block h) : h.board.sys.taken = block := by
  cases hp : h.stop.polled with
  | false => exact (hw.closing hp).2
  | true => exact (hw.stored hp).taken

/-- Before the loop is left, the block stays on its way. -/
theorem Winding.closing_step (hw : Winding m a block h) (hq : h.Executes q)
    (hp : h.stop.polled = false) :
    Board.Closing m a (h.board.step q) ∧ (h.board.step q).sys.taken = block := by
  obtain ⟨hc, ht⟩ := hw.closing hp
  refine ⟨hc.step hq.bus (hq.keeps hw.coupled hc.storing.draining.reading.ndmadir hp) hq.noDreq, ?_⟩
  change h.board.sys.taken ++ h.board.sys.chip.taken q = block
  rw [hc.taken hq.bus.noReset, List.append_nil, ht]

/-- The access that reads the flag as set finds the block in memory. -/
theorem Winding.stored_of_flag (hw : Winding m a block h) (hp : h.stop = .poll)
    (hs : h.board.sys.accessing = true) (hf : h.board.sys.chip.regs.istrO.ll.getLsbD 0 = true) :
    Board.Stored m a block h.board := by
  obtain ⟨hc, ht⟩ := hw.closing (by rw [hp]; rfl)
  rw [Registers.istrO_getLsbD_zero, hw.flag hp hs, Fifo.empty_eq] at hf
  exact ht ▸ hc.stored (of_decide_eq_true hf) (hw.coupled.busy (System.cycle_of_accessing hs)).1

/-- Where the loop is left, the block is in memory, and it stays there. -/
theorem Winding.stored_step (hw : Winding m a block h) (hq : h.Executes q)
    (hp : (h.step q).stop.polled = true) : Board.Stored m a block (h.board.step q) := by
  -- the block was in memory, or the flag is read now
  have hst : Board.Stored m a block h.board := by
    cases hp' : h.stop.polled with
    | true => exact hw.stored hp'
    | false =>
        rcases step_stop h q with e | ⟨hs, e⟩
        · rw [e, hp'] at hp
          exact Bool.noConfusion hp
        · rw [e] at hp
          obtain ⟨hst, hf⟩ :=
            DmaStop.next_eq_clearInterrupt (DmaStop.next_eq_of_polled hp' hp)
          exact hw.stored_of_flag hst hs hf
  exact hst.step (hq.leaves hw.coupled hst.drained.ndmadir)

/-- The strobe of `SP_DMA` ends the session, and `dma_stop` does not start another one. -/
theorem Winding.dmaena_step (hw : Winding m a block h) (hq : h.Executes q)
    (hs : (h.step q).stop = .stopDma ∧ (h.step q).board.sys.accessing = true ∨
      (h.step q).stop = .restoreControl ∨ (h.step q).stop = .returned) :
    (h.board.sys.chip.period q).regs.dmaena = false := by
  have hC := hw.coupled
  have hstart : (h.board.sys.chip.endAccess q).stDma = false := by
    apply hq.not_hit hC
    cases h.stop <;> decide
  rw [Chip.period_dmaena (hC.live hq.bus), hstart, if_neg Bool.false_ne_true]
  rcases hs with ⟨hs, hc⟩ | hs
  · -- the strobe
    have hst : h.stop = .stopDma :=
      (stop_of_cycle (System.cycle_of_accessing hc)).symm.trans hs
    have ha : h.board.sys.Accesses q (some (0x0F, false)) := by
      have ha := hq.access
      rwa [hst] at ha
    have hhit : (h.board.sys.chip.endAccess q).spDma = true := (ha.hit hC hq.bus hc).1
    have hcw : (h.board.sys.chip.endAccess q).contrWr = false := by
      rw [Access.contrWr, Access.wr, Access.hit_unique hhit (by decide), Bool.false_and]
    rw [hcw, hhit]
    rfl
  · -- after it
    have hoff : h.board.sys.chip.regs.dmaena = false := by
      apply hw.dmaena
      rcases step_stop h q with e | ⟨hc, e⟩
      · exact .inr (e ▸ hs)
      · rw [e] at hs
        revert hs
        cases h.stop <;> simp_all [DmaStop.next]
        all_goals split_ifs <;> simp
    rw [hoff]
    simp

theorem Winding.step (hw : Winding m a block h) (hq : h.Executes q) :
    Winding m a block (h.step q) := by
  constructor
  case coupled => exact hw.coupled.step hq.bus
  case closing =>
    intro hp
    apply hw.closing_step hq
    refine Bool.eq_false_iff.mpr fun hp' => ?_
    rcases step_stop h q with e | ⟨-, e⟩
    · rw [e, hp'] at hp
      exact Bool.noConfusion hp
    · rw [e, DmaStop.next_polled _ hp'] at hp
      exact Bool.noConfusion hp
  case flag =>
    intro hp hs
    have hst := stop_of_cycle (h := h) (q := q) (System.cycle_of_accessing hs)
    exact hq.fe hw.coupled (hst.symm.trans hp) hs
  case stored => exact fun hp => hw.stored_step hq hp
  case dmaena => exact fun hs => hw.dmaena_step hq hs

end Winding

end Host

/-! ## §5 A transfer to memory -/

namespace Chip

/-- The bytes that a period takes step the byte pointer. -/
theorem Reading.bytePtr_step {s : Chip} {q : Period} (hI : Reading s) (hS : Strobed s)
    (hf : Fed s) (hq : InSession s q) :
    ((s.period q).fifo.bytePtr.toNat + ((s.period q).scsi.state == .s2f3).toNat) % 4 =
      (s.fifo.bytePtr.toNat + (s.scsi.state == .s2f3).toNat + (s.taken q).length) % 4 := by
  have hu := hI.not_underflow hq hf
  have hlen := congrArg List.length (hI.period_contents hS hq hu)
  rw [List.length_drop, List.length_append, contents_length, contents_length] at hlen
  -- a longword that leaves was there
  have hdec := hI.intDecfifo_spec hq hu
  have hrec : s.fifo.level ≤ s.received := Nat.le_add_right ..
  cases hd : (s.cpuComb q).intDecfifo with
  | true =>
      have h1 := hdec hd
      rw [hd, if_pos rfl] at hlen
      omega
  | false =>
      rw [hd, if_neg Bool.false_ne_true] at hlen
      omega

end Chip

namespace Board

/-- The byte pointer is the address of the next byte within its longword. -/
structure Lanes (m : Address → Byte) (a : Address) (b : Board) : Prop where
  storing : Storing m a b
  quiet : Chip.Quiet b.sys.chip
  tail : b.sys.chip.cpu.state.tail = false
  lane : (b.sys.chip.fifo.bytePtr.toNat + (b.sys.chip.scsi.state == .s2f3).toNat) % 4 =
    (a.toNat + b.sys.taken.length) % 4

section Lanes

variable {m : Address → Byte} {a : Address} {b : Board} {q : Period}

theorem Lanes.of_start (hx : System.Start b.sys) (hd : b.sys.chip.regs.ndmadir = false)
    (ha : b.acr.getLsbD 1 = b.sys.chip.regs.a1) (he : b.acr.toNat % 2 = 0) :
    Lanes b.mem b.acr b := by
  refine ⟨.of_start hx hd ha, hx.quiet, ?_, ?_⟩
  · rcases hx.dma.cpu_state with e | e <;> rw [e] <;> rfl
  · have h3 : (b.sys.chip.scsi.state == .s2f3) = false := by
      rcases hx.dma.scsi_state with e | e <;> rw [e] <;> rfl
    rw [hx.dma.bytePtr, h3, hx.taken, ← ha, Ramsey.getLsbD_one, Bool.toNat_false, List.length_nil]
    split_ifs with h1
    · have h1 := of_decide_eq_true h1
      change (2 + 0) % 4 = _
      omega
    · have h1 : ¬ b.acr.toNat / 2 % 2 = 1 := fun e => h1 (decide_eq_true e)
      change (0 + 0) % 4 = _
      omega

theorem Lanes.step (hL : Lanes m a b) (hq : System.Streaming b.sys q) : Lanes m a (b.step q) := by
  obtain ⟨hb, hs, hf⟩ := hq
  have hD := hL.storing.draining
  have h := hD.coupled.live hb
  refine ⟨hL.storing.step hb hs hL.quiet.not_spuriousTail hL.tail, hL.quiet.step h hf,
    System.tail_step h hL.quiet hL.tail, ?_⟩
  have hp := hD.reading.bytePtr_step hD.strobed hD.fed hs
  have hl := hL.lane
  change ((b.sys.chip.period q).fifo.bytePtr.toNat +
    ((b.sys.chip.period q).scsi.state == .s2f3).toNat) % 4 =
      (a.toNat + (b.sys.taken ++ b.sys.chip.taken q).length) % 4
  rw [List.length_append, hp]
  omega

/-- A block that ends on a longword boundary leaves no bytes for a flush. -/
theorem Lanes.closing (hL : Lanes m a b) (hz : Chip.Still b.sys.chip)
    (hend : (a.toNat + b.sys.taken.length) % 4 = 0) : Closing m a b := by
  refine ⟨hL.storing, hz, ?_, hL.tail⟩
  have hl := hL.lane
  have hp := b.sys.chip.fifo.bytePtr.isLt
  rw [ScsiSm.State.beq_s2f3 hz.state, Bool.toNat_false, hend] at hl
  apply BitVec.eq_of_toNat_eq
  change b.sys.chip.fifo.bytePtr.toNat = 0
  omega

end Lanes

end Board

namespace Host

/-- What `dma_stop` finds after a block of whole longwords. -/
theorem winding_of_lanes {m : Address → Byte} {a : Address} {b : Board}
    (hL : Board.Lanes m a b) (hz : Chip.Still b.sys.chip)
    (hend : (a.toNat + b.sys.taken.length) % 4 = 0) :
    Winding m a b.sys.taken ⟨b, .maskInterrupts⟩ := by
  refine ⟨hL.storing.draining.coupled, fun _ => ⟨hL.closing hz hend, rfl⟩,
    fun h => DmaStop.noConfusion h, fun h => Bool.noConfusion h, fun h => ?_⟩
  rcases h with ⟨h, -⟩ | h | h <;> exact DmaStop.noConfusion h

section Transfer

variable {b : Board} (hx : System.Start b.sys) (hd : b.sys.chip.regs.ndmadir = false)
  (ha : b.acr.getLsbD 1 = b.sys.chip.regs.a1) (he : b.acr.toNat % 2 = 0) {qs : List Period}
  (hqs : Runs.Along Board.step (fun b q => System.Streaming b.sys q) b qs)
  (hz : Chip.Still (Runs.run Board.step b qs).sys.chip)
  (hend : (b.acr.toNat + (Runs.run Board.step b qs).sys.taken.length) % 4 = 0)
include hx hd ha he hqs hz hend

theorem winding_of_streaming :
    Winding b.mem b.acr (Runs.run Board.step b qs).sys.taken
      ⟨Runs.run Board.step b qs, .maskInterrupts⟩ :=
  winding_of_lanes (Runs.invariant_run (I := Board.Lanes b.mem b.acr) (fun _ _ hL hq => hL.step hq)
    (.of_start hx hd ha he) hqs) hz hend

/-- A block that is taken from the WD33C93 and ends on a longword boundary is in memory when
the polling loop of `dma_stop` ends, and when `dma_stop` returns nothing moves any more. -/
theorem dma_stop_stores {ps : List Period}
    (hps : Runs.Along step Executes ⟨Runs.run Board.step b qs, .maskInterrupts⟩ ps) :
    let block := (Runs.run Board.step b qs).sys.taken
    let h := Runs.run step ⟨Runs.run Board.step b qs, .maskInterrupts⟩ ps
    (h.stop.polled = true → h.board.sys.taken = block ∧
      h.board.acr = b.acr + (block.length : Address) ∧
      h.board.mem = Memory.store b.mem b.acr block) ∧
    (h.stop = .returned → Chip.AtRest h.board.sys.chip) := by
  have hw := Runs.invariant_run (fun _ _ hw hq => Winding.step hw hq)
    (winding_of_streaming hx hd ha he hqs hz hend) hps
  constructor
  · intro hp
    have hs := hw.stored hp
    exact ⟨hs.taken, hs.acr, hs.mem⟩
  · intro hr
    have hs := (hw.stored (by rw [hr]; rfl)).drained
    exact ⟨hs.awake, hw.dmaena (.inr (.inr hr)), hs.cpu, hs.not_requesting⟩

end Transfer

/-- Four bytes are taken from the WD33C93. -/
def fourBytes : List Period :=
  List.replicate 20 (.steady { dreq_ := false, pd := 0xA5 }) ++ List.replicate 6 (.steady {})

/-- The flag is found clear once, and the chip gets the bus between two accesses of the loop. -/
def twoPolls : List Period :=
  DmaStop.maskInterrupts.periods 0 ++ DmaStop.flush.periods 0 ++ DmaStop.poll.periods 0 ++
    List.replicate 3 (.steady { bg_ := false }) ++
    List.replicate 2 (.steady { bg_ := false, dsack0_ := false, dsack1_ := false }) ++
    List.replicate 4 (.steady {}) ++ DmaStop.poll.periods 0 ++ DmaStop.clearInterrupt.periods 0 ++
    DmaStop.stopDma.periods 0 ++ (DmaStop.restoreControl.periods 0).take 1

/-- The period in which the last access ends. -/
def restored : Period :=
  { Period.steady { as_ := false, cs_ := false, addr := 0x02, rw := false, data := { ll := 0x0C } }
    with clk90Fall := {}, clk135Fall := {} }

theorem dma_stop_stores_fresh :
    let b : Board := ⟨System.fresh false false, 0x1000, fun _ => 0⟩
    let block := (Runs.run Board.step b fourBytes).sys.taken
    let h := Runs.run step ⟨Runs.run Board.step b fourBytes, .maskInterrupts⟩
      (twoPolls ++ [restored])
    (h.stop.polled = true → h.board.sys.taken = block ∧
      h.board.acr = b.acr + (block.length : Address) ∧
      h.board.mem = Memory.store b.mem b.acr block) ∧
    (h.stop = .returned → Chip.AtRest h.board.sys.chip) :=
  dma_stop_stores (System.fresh_start false false) rfl (by decide +kernel) (by decide +kernel)
    (by decide +kernel) ⟨by decide +kernel, by decide +kernel, by decide +kernel⟩
    (by decide +kernel) (by decide +kernel)

end Host

end Resdmac
