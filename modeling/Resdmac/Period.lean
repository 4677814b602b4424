import Resdmac.Chip

/-!
# One Period Seen from its Ends

Out of reset a period of SCLK reads as one synchronous step: both state machines
move on the values that the registers had before the period, and every other
register takes one value that depends on these moves.

## Main definitions

- `Chip.Live` — the clocked resets are released and `_RST` is high all period
- `Chip.cpuIn`, `Chip.scsiIn` — what the state machines read in the period
- `Chip.cpuComb`, `Chip.cpuOut`, `Chip.scsiOut` — what they put out

The theorems `period_*` give each register after the period, so no later module
unfolds an edge.
-/

namespace Resdmac

namespace Chip

/-! ## §1 Out of reset -/

/-- The clocked resets of both state machines are released. -/
def Awake (s : Chip) : Prop := s.cpu.ccreset_ = true ∧ s.scsi.creset_ = true

/-- `_RST` is high at all edges of the period. -/
def Period.NoReset (q : Period) : Prop :=
  q.sclkRise.rst_ = true ∧ q.clk90Rise.rst_ = true ∧ q.clk135Rise.rst_ = true ∧
    q.sclkFall.rst_ = true ∧ q.clk90Fall.rst_ = true ∧ q.clk135Fall.rst_ = true

/-- A period without any reset. -/
def Live (s : Chip) (q : Period) : Prop := s.Awake ∧ q.NoReset

instance (s : Chip) : Decidable s.Awake := inferInstanceAs (Decidable (_ ∧ _))

instance (q : Period) : Decidable q.NoReset :=
  inferInstanceAs (Decidable (_ ∧ _ ∧ _ ∧ _ ∧ _ ∧ _))

instance (s : Chip) (q : Period) : Decidable (Live s q) := inferInstanceAs (Decidable (_ ∧ _))

/-- What is left of `settle` out of reset: the clears by `AS_` and by the counter
strobes. -/
def clear (s : Chip) (p : Pins) : Chip :=
  { s with
    cpu := { s.cpu with
      dsackLatched0_ := s.asI_ p || s.cpu.dsackLatched0_
      dsackLatched1_ := s.asI_ p || s.cpu.dsackLatched1_ }
    scsi := { s.scsi with
      rdfifoO := s.scsi.rdfifoO && !s.cpu.out.decfifo
      rififoO := s.scsi.rififoO && !s.cpu.out.incfifo
      nls2cpu := s.scsi.nls2cpu && !s.asI_ p }
    regs := { s.regs with
      termCounter := if s.asI_ p then 0 else s.regs.termCounter
      dsackTerm_ := s.asI_ p || s.regs.dsackTerm_ }
    path := s.path.settle s.scsi.out.s2cpu }

theorem reset_eq {s : Chip} (h : s.Awake) : s.reset = s := by
  have hc : s.cpu.reset = s.cpu := by
    rw [CpuSm.reset, if_pos h.1, if_pos h.1, if_pos h.1]
  have hs : s.scsi.reset = s.scsi := by
    rw [ScsiSm.reset, if_pos h.2, if_pos h.2, if_pos h.2]
  rw [reset, hc, hs]

theorem settle_eq_clear {s : Chip} {p : Pins} (h : s.Awake) (hp : p.rst_ = true) :
    s.settle p = s.clear p := by
  rw [settle, reset_eq h]
  simp [clear, CpuSm.settle, ScsiSm.settle, Registers.settle, hp]

/-- With `AS_` high the chip drives no `_DSACK`. -/
theorem dsackInt_clear {s : Chip} {p : Pins} (ha : (s.clear p).asI_ p = true)
    (hf : p.flashTerm = false) : (s.clear p).dsackInt p = true := by
  have ha' : s.asI_ p = true := ha
  simp [dsackInt, clear, ScsiSm.ls2cpu, ha', hf]

/-! ## §2 The moves of the state machines -/

/-- What `CPU_SM_INTERNALS` reads at the CLK90 rising edge of the period. -/
def cpuIn (s : Chip) (q : Period) : CpuSm.Inputs := (s.atClk90Rise q).cpuInputs q.clk90Rise

/-- What `SCSI_SM_INTERNALS` reads at the CLK90 rising edge of the period. -/
def scsiIn (s : Chip) (q : Period) : ScsiSm.Inputs := (s.atClk90Rise q).scsiInputs q.clk90Rise

/-- What the output block of `CPU_SM_INTERNALS` assigns before the edge. -/
def cpuComb (s : Chip) (q : Period) : CpuSm.Comb := CpuSm.comb (s.cpuIn q) s.cpu.state

/-- The clocked outputs of `CPU_SM` after the edge. -/
def cpuOut (s : Chip) (q : Period) : CpuSm.Out := (s.cpuComb q).registered (s.cpuIn q)

/-- The clocked outputs of `SCSI_SM` after the edge. -/
def scsiOut (s : Chip) (q : Period) : ScsiSm.Out := ScsiSm.comb (s.scsiIn q) s.scsi.state

/-- `nCYCLEDONE` as `CPU_SM` clocks it in at CLK135 rising. -/
def ncycledone (s : Chip) (q : Period) : Bool :=
  ((s.atClk135Rise q).cpuClocked q.clk135Rise).ncycledone

/-- `RST_FIFO` after the CLK90 rising edge, active low. -/
def rstOut_ (s : Chip) (q : Period) : Bool := s.regs.dmaena && !(s.cpuOut q).rstFifo

/-! ## §3 The registers at each edge -/

section Cuts

variable {s : Chip} {q : Period}

theorem atClk90Rise_eq (h : Live s q) :
    s.atClk90Rise q = ((s.clear q.sclkRise).onSclkRise q.sclkRise).clear q.clk90Rise := by
  rw [atClk90Rise, settle_eq_clear h.1 h.2.1]
  exact settle_eq_clear h.1 h.2.2.1

theorem onClk90Rise_eq {t : Chip} {p : Pins} (h : t.Awake) :
    t.onClk90Rise p =
      { t with
        cpu := { t.cpu with
          state := CpuSm.nextState (t.cpuInputs p) t.cpu.state
          out := (CpuSm.comb (t.cpuInputs p) t.cpu.state).registered (t.cpuInputs p) }
        scsi := { t.scsi with
          state := ScsiSm.nextState (t.scsiInputs p) t.scsi.state
          out := ScsiSm.comb (t.scsiInputs p) t.scsi.state }
        fifo := t.fifo.store t.rstFifo_ (t.fifo.writeStrobes t.lhw t.llw t.scsi.lbyte_)
          (t.fifoId p)
        regs := t.regs.clk90Rise (t.access p) p.rst_ p.dspData } := by
  rw [onClk90Rise, CpuSm.clk90Rise, ScsiSm.clk90Rise, if_pos h.1, if_pos h.2]

theorem atClk90Rise_awake (h : Live s q) : (s.atClk90Rise q).Awake := by
  rw [atClk90Rise_eq h]
  exact h.1

/-- The registers at CLK135 rising, from those at CLK90 rising. -/
theorem atClk135Rise_eq (h : Live s q) :
    s.atClk135Rise q =
      ({ s.atClk90Rise q with
        cpu := { (s.atClk90Rise q).cpu with
          state := CpuSm.nextState (s.cpuIn q) s.cpu.state
          out := s.cpuOut q }
        scsi := { (s.atClk90Rise q).scsi with
          state := ScsiSm.nextState (s.scsiIn q) s.scsi.state
          out := s.scsiOut q }
        fifo := s.fifo.store s.rstFifo_ (s.fifo.writeStrobes s.lhw s.llw s.scsi.lbyte_)
          (s.fifoId q.clk90Rise)
        regs := (s.atClk90Rise q).regs.clk90Rise ((s.atClk90Rise q).access q.clk90Rise) true
          q.clk90Rise.dspData } : Chip).clear q.clk135Rise := by
  -- SCLK rising and the clears leave the states and what the FIFO is written with
  have hc : (s.atClk90Rise q).cpu.state = s.cpu.state := by rw [atClk90Rise_eq h]; rfl
  have hs : (s.atClk90Rise q).scsi.state = s.scsi.state := by rw [atClk90Rise_eq h]; rfl
  have hf : (s.atClk90Rise q).fifo.store (s.atClk90Rise q).rstFifo_
      ((s.atClk90Rise q).fifo.writeStrobes (s.atClk90Rise q).lhw (s.atClk90Rise q).llw
        (s.atClk90Rise q).scsi.lbyte_) ((s.atClk90Rise q).fifoId q.clk90Rise) =
      s.fifo.store s.rstFifo_ (s.fifo.writeStrobes s.lhw s.llw s.scsi.lbyte_)
        (s.fifoId q.clk90Rise) := by
    rw [atClk90Rise_eq h]; rfl
  have e := onClk90Rise_eq (p := q.clk90Rise) (atClk90Rise_awake h)
  rw [hc, hs, hf, h.2.2.1] at e
  rw [atClk135Rise, e]
  exact settle_eq_clear (atClk90Rise_awake h) h.2.2.2.1

theorem atClk135Rise_awake (h : Live s q) : (s.atClk135Rise q).Awake := by
  rw [atClk135Rise_eq h]
  exact atClk90Rise_awake h

theorem onClk135Rise_eq {t : Chip} {p : Pins} (h : t.Awake) (hp : p.rst_ = true) :
    t.onClk135Rise p =
      { t with
        cpu := { t.cpu with inp := t.cpuClocked p }
        scsi := t.scsi.clk135Rise true t.cpu.out.incfifo t.cpu.out.decfifo (t.asI_ p)
        fifo := t.fifo.movePtrs t.rstFifo_ t.incni t.incno } := by
  rw [onClk135Rise, CpuSm.clk135Rise, if_pos h.1, hp]

/-- The registers at SCLK falling, from those at CLK135 rising. -/
theorem atSclkFall_eq (h : Live s q) :
    s.atSclkFall q =
      ({ s.atClk135Rise q with
        cpu := { (s.atClk135Rise q).cpu with
          inp := (s.atClk135Rise q).cpuClocked q.clk135Rise }
        scsi := (s.atClk135Rise q).scsi.clk135Rise true (s.cpuOut q).incfifo (s.cpuOut q).decfifo
          ((s.atClk135Rise q).asI_ q.clk135Rise)
        fifo := (s.atClk135Rise q).fifo.movePtrs (s.rstOut_ q)
          ((s.cpuOut q).incni || (s.scsiOut q).incni)
          ((s.cpuOut q).incno || (s.scsiOut q).incno) } : Chip).clear q.sclkFall := by
  have ha := atClk135Rise_awake h
  -- the pointers step on the outputs that CLK90 rising has just clocked
  have ho : (s.atClk135Rise q).cpu.out = s.cpuOut q := by rw [atClk135Rise_eq h]; rfl
  have hp : (s.atClk135Rise q).scsi.out = s.scsiOut q := by rw [atClk135Rise_eq h]; rfl
  have hd : (s.atClk135Rise q).regs.dmaena = s.regs.dmaena := by
    rw [atClk135Rise_eq h, atClk90Rise_eq h]; rfl
  have e := onClk135Rise_eq ha h.2.2.2.1
  rw [rstFifo_, incni, incno, ho, hp, hd] at e
  rw [atSclkFall, e]
  exact settle_eq_clear ha h.2.2.2.2.1

/-- The registers at CLK90 falling, from those at SCLK falling. -/
theorem atClk90Fall_eq (h : Live s q) :
    s.atClk90Fall q = ((s.atSclkFall q).onSclkFall q.sclkFall).clear q.clk90Fall := by
  exact settle_eq_clear ⟨h.2.2.2.2.1, h.2.2.2.2.1⟩ h.2.2.2.2.2.1

/-- The registers at CLK135 falling, from those at CLK90 falling. -/
theorem atClk135Fall_eq (h : Live s q) :
    s.atClk135Fall q = ((s.atClk90Fall q).onClk90Fall q.clk90Fall).clear q.clk135Fall := by
  have ha : ((s.atClk90Fall q).onClk90Fall q.clk90Fall).Awake := by
    rw [atClk90Fall_eq h]
    exact ⟨h.2.2.2.2.1, h.2.2.2.2.1⟩
  exact settle_eq_clear ha h.2.2.2.2.2.2

end Cuts

/-! ## §4 What the state machines read -/

section Reads

variable {s : Chip} {q : Period} (h : Live s q)
include h

theorem cpuIn_eq :
    s.cpuIn q =
      { a1 := s.regs.a1
        nbgrant := s.cpu.inp.bgrant_
        boeq3 := s.fifo.boeq3
        cycledone := !s.cpu.inp.ncycledone
        dmadir := s.regs.dmadir
        dmaena := s.cpu.inp.dmaena
        ndreq := s.cpu.inp.dreq_
        ndsack0 := (s.atClk90Rise q).dsk0In_ q.clk90Rise
        ndsack1 := (s.atClk90Rise q).dsk1In_ q.clk90Rise
        fifoempty := s.fifo.empty
        fifofull := s.fifo.full
        flushfifo := s.cpu.inp.flushfifo
        lastword := s.lastword
        dsack := (s.atClk90Rise q).cpu.dsack
        nsterm := q.clk90Rise.sterm_
        nrdfifo := !(s.scsi.rdfifoO && !s.cpu.out.decfifo)
        nrififo := !(s.scsi.rififoO && !s.cpu.out.incfifo) } := by
  -- two clears come before CLK90 rising, and the second one finds nothing left to clear
  have hd : (s.atClk90Rise q).scsi.rdfifoO = (s.scsi.rdfifoO && !s.cpu.out.decfifo) := by
    rw [atClk90Rise_eq h]
    exact (Bool.and_assoc ..).trans (congrArg _ (Bool.and_self _))
  have hi : (s.atClk90Rise q).scsi.rififoO = (s.scsi.rififoO && !s.cpu.out.incfifo) := by
    rw [atClk90Rise_eq h]
    exact (Bool.and_assoc ..).trans (congrArg _ (Bool.and_self _))
  rw [cpuIn, cpuInputs, hd, hi]
  congr 1 <;> rw [atClk90Rise_eq h] <;> rfl

theorem scsiIn_eq :
    s.scsiIn q =
      { boeq3 := s.fifo.boeq3
        ccpureq := s.scsi.inp.ccpureq
        cdreq_ := s.scsi.inp.cdreq_
        cdsack_ := s.scsi.inp.cdsack_
        dmadir := s.regs.dmadir
        fifoempty := s.fifo.empty
        fifofull := s.fifo.full
        rdfifoO := s.scsi.rdfifoO && !s.cpu.out.decfifo
        rififoO := s.scsi.rififoO && !s.cpu.out.incfifo
        rw := s.rw q.clk90Rise } := by
  have hc := cpuIn_eq h
  have hd : (s.atClk90Rise q).scsi.rdfifoO = (s.scsi.rdfifoO && !s.cpu.out.decfifo) :=
    Bool.not_inj (congrArg CpuSm.Inputs.nrdfifo hc)
  have hi : (s.atClk90Rise q).scsi.rififoO = (s.scsi.rififoO && !s.cpu.out.incfifo) :=
    Bool.not_inj (congrArg CpuSm.Inputs.nrififo hc)
  rw [scsiIn, scsiInputs, hd, hi]
  congr 1 <;> rw [atClk90Rise_eq h] <;> rfl

end Reads

/-! ## §5 The registers after the period -/

/-- What the address decoder shows at the CLK90 falling edge, where the registers
are written. -/
def endAccess (s : Chip) (q : Period) : Access := (s.atClk90Fall q).access q.clk90Fall

section Result

variable {s : Chip} {q : Period} (h : Live s q)
include h

theorem period_awake : (s.period q).Awake := by
  rw [period, atClk135Fall_eq h, atClk90Fall_eq h]
  exact ⟨h.2.2.2.2.1, h.2.2.2.2.1⟩

/-! ### The state machines -/

theorem period_cpu_state :
    (s.period q).cpu.state = CpuSm.nextState (s.cpuIn q) s.cpu.state := by
  rw [period, atClk135Fall_eq h, atClk90Fall_eq h, atSclkFall_eq h, atClk135Rise_eq h]
  rfl

theorem period_cpu_out : (s.period q).cpu.out = s.cpuOut q := by
  rw [period, atClk135Fall_eq h, atClk90Fall_eq h, atSclkFall_eq h, atClk135Rise_eq h]
  rfl

theorem period_cpu_inp :
    (s.period q).cpu.inp =
      { bgrant_ := q.clk135Rise.bg_
        dmaena := s.regs.dmaena
        dreq_ := !s.regs.dmaena || q.clk135Rise.dreq_
        flushfifo := s.regs.flushfifo
        ncycledone := s.ncycledone q } := by
  have hd : (s.atClk135Rise q).regs.dmaena = s.regs.dmaena := by
    rw [atClk135Rise_eq h, atClk90Rise_eq h]; rfl
  have hf : (s.atClk135Rise q).regs.flushfifo = s.regs.flushfifo := by
    rw [atClk135Rise_eq h, atClk90Rise_eq h]; rfl
  have hc : (s.period q).cpu.inp = (s.atClk135Rise q).cpuClocked q.clk135Rise := by
    rw [period, atClk135Fall_eq h, atClk90Fall_eq h, atSclkFall_eq h]; rfl
  rw [hc, cpuClocked, dreq_, hd, hf]
  rfl

theorem period_scsi_state :
    (s.period q).scsi.state = ScsiSm.nextState (s.scsiIn q) s.scsi.state := by
  rw [period, atClk135Fall_eq h, atClk90Fall_eq h, atSclkFall_eq h, atClk135Rise_eq h]
  rfl

theorem period_scsi_out : (s.period q).scsi.out = s.scsiOut q := by
  rw [period, atClk135Fall_eq h, atClk90Fall_eq h, atSclkFall_eq h, atClk135Rise_eq h]
  rfl

theorem atSclkFall_cpu_out : (s.atSclkFall q).cpu.out = s.cpuOut q := by
  rw [atSclkFall_eq h, atClk135Rise_eq h]
  rfl

theorem atClk90Fall_cpu_out : (s.atClk90Fall q).cpu.out = s.cpuOut q := by
  rw [atClk90Fall_eq h]
  exact atSclkFall_cpu_out h

/-- A request of `SCSI_SM` for a step up is set by `RIFIFO_d` and acknowledged by
`INCFIFO`. -/
theorem period_rififoO :
    (s.period q).scsi.rififoO =
      (!(s.cpuOut q).incfifo &&
        ((s.scsiOut q).rififo || (s.scsi.rififoO && !s.cpu.out.incfifo))) := by
  -- up to CLK90 rising the old `INCFIFO` clears the request, from then on the new one
  have hA : (s.atClk90Rise q).scsi.rififoO = (s.scsi.rififoO && !s.cpu.out.incfifo) :=
    Bool.not_inj (congrArg CpuSm.Inputs.nrififo (cpuIn_eq h))
  have hB : (s.atSclkFall q).scsi.rififoO =
      ((if (s.cpuOut q).incfifo || !true then false
        else if (s.scsiOut q).rififo then true
        else (s.atClk90Rise q).scsi.rififoO && !(s.cpuOut q).incfifo) && !(s.cpuOut q).incfifo) := by
    rw [atSclkFall_eq h, atClk135Rise_eq h]
    rfl
  have hC : (s.period q).scsi.rififoO =
      (((s.atSclkFall q).scsi.rififoO && !(s.cpuOut q).incfifo) && !(s.cpuOut q).incfifo) := by
    rw [period, atClk135Fall_eq h, atClk90Fall_eq h, ← atSclkFall_cpu_out h]
    rfl
  rw [hC, hB, hA]
  cases (s.cpuOut q).incfifo <;> cases (s.scsiOut q).rififo <;> simp

theorem period_rdfifoO :
    (s.period q).scsi.rdfifoO =
      (!(s.cpuOut q).decfifo &&
        ((s.scsiOut q).rdfifo || (s.scsi.rdfifoO && !s.cpu.out.decfifo))) := by
  have hA : (s.atClk90Rise q).scsi.rdfifoO = (s.scsi.rdfifoO && !s.cpu.out.decfifo) :=
    Bool.not_inj (congrArg CpuSm.Inputs.nrdfifo (cpuIn_eq h))
  have hB : (s.atSclkFall q).scsi.rdfifoO =
      ((if (s.cpuOut q).decfifo || !true then false
        else if (s.scsiOut q).rdfifo then true
        else (s.atClk90Rise q).scsi.rdfifoO && !(s.cpuOut q).decfifo) && !(s.cpuOut q).decfifo) := by
    rw [atSclkFall_eq h, atClk135Rise_eq h]
    rfl
  have hC : (s.period q).scsi.rdfifoO =
      (((s.atSclkFall q).scsi.rdfifoO && !(s.cpuOut q).decfifo) && !(s.cpuOut q).decfifo) := by
    rw [period, atClk135Fall_eq h, atClk90Fall_eq h, ← atSclkFall_cpu_out h]
    rfl
  rw [hC, hB, hA]
  cases (s.cpuOut q).decfifo <;> cases (s.scsiOut q).rdfifo <;> simp

theorem period_scsi_inp :
    (s.period q).scsi.inp = (s.atClk135Fall q).scsiClocked q.clk135Fall := by
  have hr : (s.atClk135Fall q).scsi.creset_ = true := by
    rw [atClk135Fall_eq h, atClk90Fall_eq h]
    exact h.2.2.2.2.1
  rw [period, onClk135Fall, ScsiSm.clk135Fall, if_pos hr]

/-- `CDSACK_` is clocked from `LS2CPU`. -/
theorem period_cdsack_ : (s.period q).scsi.inp.cdsack_ = !(s.period q).scsi.nls2cpu := by
  rw [period_scsi_inp h]
  rfl

/-- `nLS2CPU` at SCLK falling: it toggles on `SET_DSACK` while `AS_` is low. -/
theorem atSclkFall_nls2cpu_eq :
    (s.atSclkFall q).scsi.nls2cpu =
      ((if (s.atClk135Rise q).asI_ q.clk135Rise then false
        else (s.atClk135Rise q).scsi.ls2cpu &&
          ScsiSm.setDsack (ScsiSm.nextState (s.scsiIn q) s.scsi.state)) &&
        !(s.atClk135Rise q).asI_ q.sclkFall) := by
  have hB : (s.atClk135Rise q).scsi.state = ScsiSm.nextState (s.scsiIn q) s.scsi.state := by
    rw [atClk135Rise_eq h]
    rfl
  rw [← hB, atSclkFall_eq h]
  rfl

theorem period_nls2cpu_eq :
    (s.period q).scsi.nls2cpu =
      (((s.atSclkFall q).scsi.nls2cpu &&
        !(if (s.cpuOut q).bgack then !(s.cpuOut q).pas else q.clk90Fall.as_)) &&
        !(if (s.cpuOut q).bgack then !(s.cpuOut q).pas else q.clk135Fall.as_)) := by
  rw [period, atClk135Fall_eq h, atClk90Fall_eq h, ← atSclkFall_cpu_out h]
  rfl

/-- `_DSACK` is driven only from `SET_DSACK` on. -/
theorem period_nls2cpu_eq_false
    (hs : ScsiSm.setDsack (ScsiSm.nextState (s.scsiIn q) s.scsi.state) = false) :
    (s.atSclkFall q).scsi.nls2cpu = false ∧ (s.period q).scsi.nls2cpu = false := by
  have hC : (s.atSclkFall q).scsi.nls2cpu = false := by
    rw [atSclkFall_nls2cpu_eq h, hs, Bool.and_false, ite_self, Bool.false_and]
  rw [period_nls2cpu_eq h, hC]
  exact ⟨rfl, rfl⟩

/-- Inside a cycle of the CPU `SET_DSACK` drives `_DSACK`, for one clock. -/
theorem atSclkFall_nls2cpu (hb : (s.cpuOut q).bgack = false) (h0 : s.scsi.nls2cpu = false)
    (h3 : q.clk135Rise.as_ = false) (h4 : q.sclkFall.as_ = false) :
    (s.atSclkFall q).scsi.nls2cpu =
      ScsiSm.setDsack (ScsiSm.nextState (s.scsiIn q) s.scsi.state) := by
  have hn : (s.atClk135Rise q).scsi.nls2cpu = false := by
    have e : (s.atClk135Rise q).scsi.nls2cpu =
        (((s.scsi.nls2cpu && !s.asI_ q.sclkRise) && !s.asI_ q.clk90Rise) &&
          !(s.atClk135Rise q).asI_ q.clk135Rise) := by
      rw [atClk135Rise_eq h, atClk90Rise_eq h]
      rfl
    rw [e, h0]
    rfl
  have ho : (s.atClk135Rise q).own = false := by
    rw [own, ← hb, atClk135Rise_eq h]
    rfl
  rw [atSclkFall_nls2cpu_eq h, asI_, asI_, ho, h3, h4, ScsiSm.ls2cpu, hn]
  simp

/-- A request of the CPU is the address decoder's `WDREGREQ` at CLK135 falling. -/
theorem period_ccpureq :
    (s.period q).scsi.inp.ccpureq = ((s.atClk135Fall q).access q.clk135Fall).wdregreq := by
  rw [period_scsi_inp h]
  rfl

theorem atClk135Fall_own : (s.atClk135Fall q).own = (s.cpuOut q).bgack := by
  rw [own, ← atClk90Fall_cpu_out h, atClk135Fall_eq h]
  rfl

/-! ### The FIFO -/

/-- The registers of the register file that only CLK90 falling changes keep their
values up to that edge. -/
theorem atClk90Fall_regs :
    ∃ c d p v t n, (s.atClk90Fall q).regs =
      { s.regs with
        termCounter := c, dsackTerm_ := d, dsp := p, version := v, deviceTxt := t
        device := n } := by
  -- the clears touch `registers_term` only, and CLK90 rising what it clocks itself
  have hA : ∃ c d, (s.atClk90Rise q).regs = { s.regs with termCounter := c, dsackTerm_ := d } := by
    rw [atClk90Rise_eq h]
    exact ⟨_, _, rfl⟩
  have hB : ∃ c d p v t n, (s.atClk135Rise q).regs =
      { s.regs with
        termCounter := c, dsackTerm_ := d, dsp := p, version := v, deviceTxt := t
        device := n } := by
    obtain ⟨c, d, hA⟩ := hA
    rw [atClk135Rise_eq h, clear, hA]
    exact ⟨_, _, _, _, _, _, rfl⟩
  have hC : ∃ c d p v t n, (s.atSclkFall q).regs =
      { s.regs with
        termCounter := c, dsackTerm_ := d, dsp := p, version := v, deviceTxt := t
        device := n } := by
    obtain ⟨c, d, p, v, t, n, hB⟩ := hB
    rw [atSclkFall_eq h, clear, hB]
    exact ⟨_, _, _, _, _, _, rfl⟩
  obtain ⟨c, d, p, v, t, n, hC⟩ := hC
  rw [atClk90Fall_eq h, clear, onSclkFall, hC]
  exact ⟨_, _, _, _, _, _, rfl⟩

theorem atClk90Fall_rstFifo_ : (s.atClk90Fall q).rstFifo_ = s.rstOut_ q := by
  obtain ⟨c, d, p, v, t, n, hr⟩ := atClk90Fall_regs h
  rw [rstFifo_, hr, atClk90Fall_cpu_out h, rstOut_]

/-- The FIFO after the period: each register is stepped once. -/
theorem period_fifo :
    (s.period q).fifo =
      ((((s.fifo.store s.rstFifo_ (s.fifo.writeStrobes s.lhw s.llw s.scsi.lbyte_)
        (s.fifoId q.clk90Rise)).movePtrs (s.rstOut_ q)
          ((s.cpuOut q).incni || (s.scsiOut q).incni)
          ((s.cpuOut q).incno || (s.scsiOut q).incno)).countStep (s.rstOut_ q)
          (s.cpuOut q).incfifo (s.cpuOut q).decfifo).moveBytePtr (s.rstOut_ q)
          (s.scsiOut q).incbo s.regs.a1) := by
  -- `BUFFER` at CLK90 rising, the pointers at CLK135 rising, `COUNT` at SCLK falling and
  -- `BYTE_PTR` at CLK90 falling
  have hB : (s.atClk135Rise q).fifo =
      s.fifo.store s.rstFifo_ (s.fifo.writeStrobes s.lhw s.llw s.scsi.lbyte_)
        (s.fifoId q.clk90Rise) := by
    rw [atClk135Rise_eq h]; rfl
  have hC : (s.atSclkFall q).fifo =
      (s.atClk135Rise q).fifo.movePtrs (s.rstOut_ q)
        ((s.cpuOut q).incni || (s.scsiOut q).incni)
        ((s.cpuOut q).incno || (s.scsiOut q).incno) := by
    rw [atSclkFall_eq h]; rfl
  have hD : (s.atClk90Fall q).fifo =
      (s.atSclkFall q).fifo.countStep (s.rstOut_ q) (s.cpuOut q).incfifo (s.cpuOut q).decfifo := by
    rw [← atClk90Fall_rstFifo_ h, ← atSclkFall_cpu_out h, atClk90Fall_eq h]; rfl
  have hE : (s.atClk135Fall q).fifo =
      (s.atClk90Fall q).fifo.moveBytePtr (s.rstOut_ q) (s.scsiOut q).incbo s.regs.a1 := by
    obtain ⟨c, d, p, v, t, n, hr⟩ := atClk90Fall_regs h
    have ha : (s.atClk90Fall q).regs.a1 = s.regs.a1 := by rw [hr]
    have ho : (s.atClk90Fall q).scsi.out = s.scsiOut q := by
      rw [atClk90Fall_eq h, atSclkFall_eq h, atClk135Rise_eq h]; rfl
    rw [← atClk90Fall_rstFifo_ h, ← ha, ← ho, atClk135Fall_eq h]; rfl
  rw [← hB, ← hC, ← hD, ← hE]
  rfl

theorem period_count :
    (s.period q).fifo.count =
      if s.rstOut_ q then
        if (s.cpuOut q).decfifo then if s.fifo.count = 0 then Fifo.max 3 else s.fifo.count - 1
        else if (s.cpuOut q).incfifo then
          if s.fifo.count = Fifo.max 3 then 0 else s.fifo.count + 1
        else s.fifo.count
      else 0 := by
  simp only [period_fifo h, Fifo.moveBytePtr_count, Fifo.countStep_count, Fifo.movePtrs_count,
    Fifo.store_count]

theorem period_writePtr :
    (s.period q).fifo.writePtr =
      if s.rstOut_ q then
        if (s.cpuOut q).incni || (s.scsiOut q).incni then s.fifo.writePtr + 1
        else s.fifo.writePtr
      else 0 := by
  simp only [period_fifo h, Fifo.moveBytePtr_writePtr, Fifo.countStep_writePtr,
    Fifo.movePtrs_writePtr, Fifo.store_writePtr]

theorem period_readPtr :
    (s.period q).fifo.readPtr =
      if s.rstOut_ q then
        if (s.cpuOut q).incno || (s.scsiOut q).incno then s.fifo.readPtr + 1
        else s.fifo.readPtr
      else 0 := by
  simp only [period_fifo h, Fifo.moveBytePtr_readPtr, Fifo.countStep_readPtr,
    Fifo.movePtrs_readPtr, Fifo.store_readPtr]

theorem period_bytePtr :
    (s.period q).fifo.bytePtr =
      if s.rstOut_ q then
        if (s.scsiOut q).incbo then s.fifo.bytePtr + 1 else s.fifo.bytePtr
      else if s.regs.a1 then 2 else 0 := by
  simp only [period_fifo h, Fifo.moveBytePtr_bytePtr, Fifo.countStep_bytePtr,
    Fifo.movePtrs_bytePtr, Fifo.store_bytePtr]

theorem period_buffer :
    (s.period q).fifo.buffer =
      if s.rstFifo_ then
        Function.update s.fifo.buffer s.fifo.writePtr
          ((s.fifo.writeStrobes s.lhw s.llw s.scsi.lbyte_).write (s.fifoId q.clk90Rise)
            (s.fifo.buffer s.fifo.writePtr))
      else fun _ => {} := by
  simp only [period_fifo h, Fifo.moveBytePtr_buffer, Fifo.countStep_buffer,
    Fifo.movePtrs_buffer, Fifo.store_buffer]

/-! ### The register file and the top level -/

theorem period_asO_ : (s.period q).asO_ = !(s.cpuOut q).pas := by
  rw [period, atClk135Fall_eq h, atClk90Fall_eq h, ← atSclkFall_cpu_out h]
  rfl

theorem period_dsO_ : (s.period q).dsO_ = !(s.cpuOut q).pds := by
  rw [period, atClk135Fall_eq h, atClk90Fall_eq h, ← atSclkFall_cpu_out h]
  rfl

theorem period_llw : (s.period q).llw = (s.cpuOut q).pllw := by
  rw [period, atClk135Fall_eq h, atClk90Fall_eq h, ← atSclkFall_cpu_out h]
  rfl

theorem period_lhw : (s.period q).lhw = (s.cpuOut q).plhw := by
  rw [period, atClk135Fall_eq h, atClk90Fall_eq h, ← atSclkFall_cpu_out h]
  rfl

/-- The write of the register file that ends the period. -/
theorem period_regs :
    ∃ c d, (s.period q).regs =
      { (s.atClk90Fall q).regs.clk90Fall (s.endAccess q) true q.clk90Fall.data
          ((s.atClk90Fall q).dsI_ q.clk90Fall) (s.cpuOut q).stopflush (!(s.cpuOut q).pas)
          q.clk90Fall.inta (s.period q).fifo.empty (s.period q).fifo.full with
        termCounter := c, dsackTerm_ := d } := by
  -- `FE` and `FF` are copied at the edge after the step of `COUNT`
  have hf : (s.atClk90Fall q).fifo.count = (s.period q).fifo.count := by
    rw [period, atClk135Fall_eq h]
    exact (Fifo.moveBytePtr_count ..).symm
  have ha : (!(s.cpuOut q).pas) = (s.atClk90Fall q).asO_ := by
    rw [atClk90Fall_eq h, ← atSclkFall_cpu_out h]
    rfl
  rw [Fifo.empty, Fifo.full, ← hf, ha, ← atClk90Fall_cpu_out h, ← h.2.2.2.2.2.1, period,
    atClk135Fall_eq h]
  exact ⟨_, _, rfl⟩

theorem period_dmaena :
    (s.period q).regs.dmaena =
      if (s.endAccess q).contrWr then s.regs.dmaena
      else if (s.endAccess q).stDma then true
      else if (s.endAccess q).spDma then false
      else s.regs.dmaena := by
  obtain ⟨_, _, _, _, _, _, hr⟩ := atClk90Fall_regs h
  obtain ⟨_, _, hp⟩ := period_regs h
  rw [hp, Registers.clk90Fall_dmaena, hr]

theorem period_ndmadir :
    (s.period q).regs.ndmadir =
      if (s.endAccess q).contrWr then q.clk90Fall.data.ll.getLsbD 1 else s.regs.ndmadir := by
  obtain ⟨_, _, _, _, _, _, hr⟩ := atClk90Fall_regs h
  obtain ⟨_, _, hp⟩ := period_regs h
  rw [hp, Registers.clk90Fall_ndmadir, hr]

theorem period_fe :
    (s.period q).regs.fe =
      if (s.endAccess q).clrInt then s.regs.fe
      else if (s.endAccess q).istrRd then (s.period q).fifo.empty else s.regs.fe := by
  obtain ⟨_, _, _, _, _, _, hr⟩ := atClk90Fall_regs h
  obtain ⟨_, _, hp⟩ := period_regs h
  conv_lhs => rw [hp, Registers.clk90Fall_fe, hr]

theorem period_flushfifo :
    (s.period q).regs.flushfifo =
      if (s.endAccess q).flush then true
      else if (s.cpuOut q).stopflush then false
      else s.regs.flushfifo := by
  obtain ⟨_, _, _, _, _, _, hr⟩ := atClk90Fall_regs h
  obtain ⟨_, _, hp⟩ := period_regs h
  rw [hp, Registers.clk90Fall_flushfifo, hr]

theorem period_a1 :
    (s.period q).regs.a1 =
      if (s.endAccess q).acrWr then q.clk90Fall.data.uu.getLsbD 1
      else if (s.cpuOut q).pas then false
      else s.regs.a1 := by
  obtain ⟨_, _, _, _, _, _, hr⟩ := atClk90Fall_regs h
  obtain ⟨_, _, hp⟩ := period_regs h
  rw [hp, Registers.clk90Fall_a1, hr, Bool.not_not]

end Result

end Chip

end Resdmac
