import Resdmac.Transfers

/-!
# The Chip in its System

The bus is shared with the CPU, a 68030: its address strobe moves after SCLK falling
edges, an access to the WD33C93 lasts until the clock after its `_DSACK` was sampled,
and no cycle is started once the bus is granted. Memory answers the cycles of the chip
after any number of clocks and holds its answer until `AS_O_` rises.

## Main definitions

- `System` — the chip, the cycle of the CPU, the answer of memory and the bytes that
  passed the pins so far
- `System.BusRules` — a period in which CPU and memory keep to the rules of the bus
- `System.Coupled` — the invariant that keeps accesses of the CPU and memory cycles of
  the chip apart

## Main results

- `System.Coupled.step` — kept by every period that keeps to the rules
-/

namespace Resdmac

open Chip (Period)

/-! ## §1 Cycles of the CPU -/

/-- A bus cycle of the CPU. -/
structure BusCycle where
  addr : BitVec 5
  cs_ : Bool
  rw : Bool
  /-- The CPU has sampled `_DSACK` low. -/
  seen : Bool := false
deriving DecidableEq, Repr

/-- An access to the WD33C93. -/
def BusCycle.wd (b : BusCycle) : Bool :=
  !b.cs_ && ((0#1 ++ b.addr ++ 0#2 : BitVec 8).extractLsb' 4 4 == 4#4)

/-- The pins show the cycle, or no cycle. -/
def Pins.Shows (p : Pins) : Option BusCycle → Prop
  | none => p.as_ = true
  | some b => p.as_ = false ∧ p.cs_ = b.cs_ ∧ p.addr = b.addr ∧ p.rw = b.rw

instance (p : Pins) : ∀ c, Decidable (p.Shows c)
  | none => inferInstanceAs (Decidable (_ = _))
  | some _ => inferInstanceAs (Decidable (_ ∧ _))

/-- An access to the WD33C93 is what the address decoder makes of the pins. -/
theorem Pins.Shows.wdregreq {p : Pins} {c : Option BusCycle} (h : p.Shows c) (r : Bool) :
    Access.wdregreq ⟨p.offset, p.cs_, p.as_, r⟩ = c.any BusCycle.wd := by
  cases c with
  | none =>
      have ha : p.as_ = true := h
      simp [Access.wdregreq, Access.valid, ha]
  | some b =>
      obtain ⟨h1, h2, h3, -⟩ := h
      simp [Access.wdregreq, Access.valid, BusCycle.wd, Pins.offset, h1, h2, h3]

/-! ## §2 The system -/

/-- The chip, its bus and the bytes that passed the pins so far. -/
structure System where
  chip : Chip
  /-- The cycle of the CPU. -/
  cycle : Option BusCycle := none
  /-- The answer of memory at the last SCLK falling edge of a cycle of the chip. -/
  term : Term := .wait
  /-- The data bus at the last SCLK falling edge. -/
  data : Longword := {}
  /-- The bytes taken from the WD33C93. -/
  taken : List Byte := []
  /-- The bytes given to the WD33C93. -/
  given : List Byte := []
  /-- The bytes written to memory. -/
  written : List Byte := []
  /-- The bytes read from memory. -/
  read : List Byte := []

namespace System

/-- The cycle of the CPU after the SCLK falling edge, at which it samples `_DSACK`. -/
def nextCycle (x : System) (q : Period) : Option BusCycle :=
  if q.clk90Fall.as_ then none
  else some
    { addr := q.clk90Fall.addr, cs_ := q.clk90Fall.cs_, rw := q.clk90Fall.rw
      seen := x.cycle.isSome && !(x.chip.atSclkFall q).scsi.ls2cpu }

/-- The system after a period. -/
def step (x : System) (q : Period) : System where
  chip := x.chip.period q
  cycle := x.nextCycle q
  term := if !x.chip.asO_ && !(x.chip.period q).asO_ then q.sclkFall.term else .wait
  data := q.sclkFall.data
  taken := x.taken ++ x.chip.taken q
  given := x.given ++ x.chip.given q
  written := x.written ++ x.chip.written q
  read := x.read ++ x.chip.read q

theorem step_cpu_state {x : System} {q : Period} (h : Chip.Live x.chip q) :
    (x.step q).chip.cpu.state = CpuSm.nextState (x.chip.cpuIn q) x.chip.cpu.state :=
  Chip.period_cpu_state h

/-- A period in which the CPU and memory keep to the rules of the bus. -/
structure BusRules (x : System) (q : Period) : Prop where
  noReset : q.NoReset
  /-- Up to the SCLK falling edge the pins show the cycle that was begun. -/
  shown : q.sclkRise.Shows x.cycle ∧ q.clk90Rise.Shows x.cycle ∧ q.clk135Rise.Shows x.cycle ∧
    q.sclkFall.Shows x.cycle
  follows : q.clk135Fall.Shows (x.nextCycle q)
  /-- A cycle is begun only by a CPU that owns the bus and has not granted it. -/
  starts : x.cycle = none → q.clk90Fall.as_ = false →
    q.clk135Rise.bg_ = true ∧ (x.chip.atClk90Fall q).own = false
  continues : ∀ b ∈ x.cycle, q.clk90Fall.as_ = false → q.clk90Fall.Shows (some b)
  /-- An access to the WD33C93 ends one clock after its `_DSACK` was sampled. -/
  access : ∀ b ∈ x.cycle, b.wd = true → q.clk90Fall.as_ = b.seen
  /-- The chip does not address itself. -/
  deselected : (x.chip.own = true → q.clk90Rise.cs_ = true) ∧
    ((x.chip.atClk90Fall q).own = true → q.clk90Fall.cs_ = true ∧ q.clk135Fall.cs_ = true)
  /-- Memory holds its answer while `AS_O_` is low. -/
  answers : x.chip.asO_ = false → q.clk90Rise.Clean ∧ q.sclkFall.Clean ∧
    x.term.Held q.clk90Rise.term ∧ q.clk90Rise.term.Held q.sclkFall.term

instance (x : System) (q : Period) : Decidable (x.BusRules q) :=
  decidable_of_iff
    (q.NoReset ∧ (q.sclkRise.Shows x.cycle ∧ q.clk90Rise.Shows x.cycle ∧
        q.clk135Rise.Shows x.cycle ∧ q.sclkFall.Shows x.cycle) ∧
      q.clk135Fall.Shows (x.nextCycle q) ∧
      (x.cycle = none → q.clk90Fall.as_ = false →
        q.clk135Rise.bg_ = true ∧ (x.chip.atClk90Fall q).own = false) ∧
      (∀ b ∈ x.cycle, q.clk90Fall.as_ = false → q.clk90Fall.Shows (some b)) ∧
      (∀ b ∈ x.cycle, b.wd = true → q.clk90Fall.as_ = b.seen) ∧
      ((x.chip.own = true → q.clk90Rise.cs_ = true) ∧
        ((x.chip.atClk90Fall q).own = true →
          q.clk90Fall.cs_ = true ∧ q.clk135Fall.cs_ = true)) ∧
      (x.chip.asO_ = false → q.clk90Rise.Clean ∧ q.sclkFall.Clean ∧
        x.term.Held q.clk90Rise.term ∧ q.clk90Rise.term.Held q.sclkFall.term))
    ⟨fun ⟨h1, h2, h3, h4, h5, h6, h7, h8⟩ => ⟨h1, h2, h3, h4, h5, h6, h7, h8⟩,
      fun ⟨h1, h2, h3, h4, h5, h6, h7, h8⟩ => ⟨h1, h2, h3, h4, h5, h6, h7, h8⟩⟩

/-- A period in which memory keeps to the rules of a read cycle: the data are stable
from the edge that samples its answer until `AS_O_` rises. -/
structure DataRules (x : System) (q : Period) : Prop where
  held : x.chip.asO_ = false → x.term.isDsack = true →
    q.clk90Rise.data = x.data ∧ q.sclkFall.data = x.data
  sterm : x.chip.asO_ = false → q.clk90Rise.term.isSterm = true →
    q.sclkFall.data = q.clk90Rise.data
  latch : x.chip.asO_ = false → (x.chip.period q).asO_ = false →
    q.sclkFall.term.isDsack = true → q.clk90Fall.data = q.sclkFall.data

instance (x : System) (q : Period) : Decidable (x.DataRules q) :=
  decidable_of_iff
    ((x.chip.asO_ = false → x.term.isDsack = true →
        q.clk90Rise.data = x.data ∧ q.sclkFall.data = x.data) ∧
      (x.chip.asO_ = false → q.clk90Rise.term.isSterm = true →
        q.sclkFall.data = q.clk90Rise.data) ∧
      (x.chip.asO_ = false → (x.chip.period q).asO_ = false →
        q.sclkFall.term.isDsack = true → q.clk90Fall.data = q.sclkFall.data))
    ⟨fun ⟨h1, h2, h3⟩ => ⟨h1, h2, h3⟩, fun ⟨h1, h2, h3⟩ => ⟨h1, h2, h3⟩⟩

/-! ## §3 Accesses of the CPU and cycles of the chip -/

/-- Accesses of the CPU and memory cycles of the chip keep apart. -/
structure Coupled (x : System) : Prop where
  awake : x.chip.Awake
  own : x.chip.own = x.chip.cpu.state.onBus
  pas : x.chip.cpu.out.pas = x.chip.cpu.state.strobing
  asO_ : x.chip.asO_ = !x.chip.cpu.state.strobing
  dsack : x.chip.cpu.state.strobing = true → x.chip.cpu.dsack = x.term.isDsack
  term : x.chip.cpu.state.strobing = false → x.term = .wait
  /-- In a cycle of the CPU the bus is not granted. -/
  busy : x.cycle.isSome = true → x.chip.cpu.state.onBus = false ∧
    (x.chip.cpu.inp.bgrant_ = true ∨ x.chip.cpu.inp.ncycledone = true)
  request : x.chip.scsi.inp.ccpureq = x.cycle.any BusCycle.wd
  selects : x.chip.scsi.state.selects = true →
    ∃ b ∈ x.cycle, b.wd = true ∧ b.seen = ScsiSm.setDsack x.chip.scsi.state
  unseen : ∀ b ∈ x.cycle, b.seen = true → ScsiSm.setDsack x.chip.scsi.state = true
  leaving : x.chip.scsi.state.leaving = true →
    x.cycle = none ∧ x.chip.cpu.inp.ncycledone = true
  parked : x.chip.scsi.state.parked = true → x.chip.scsi.inp.cdsack_ = true
  onBus : x.chip.cpu.state.onBus = true → x.chip.scsi.state.dma = true
  nls2cpu : x.chip.scsi.nls2cpu = true → ScsiSm.setDsack x.chip.scsi.state = true
  /-- `registers_term` answers a cycle of the CPU that is no access to the WD33C93. -/
  dsackTerm_ : x.chip.regs.dsackTerm_ = false → ∃ b ∈ x.cycle, b.wd = false
  closed : x.chip.cpu.state.onBus = true → x.chip.cpu.state.granted = false →
    x.chip.scsi.out.s2cpu = false ∧ x.chip.scsi.out.cpu2s = false

namespace Coupled

variable {x : System} {q : Period}

section Facts

variable (hC : Coupled x)
include hC

theorem cycle_of_onBus (hs : x.chip.cpu.state.onBus = true) : x.cycle = none := by
  cases hc : x.cycle with
  | none => rfl
  | some b =>
      have h1 := (hC.busy (by rw [hc]; rfl)).1
      rw [hs] at h1
      exact Bool.noConfusion h1

theorem dsackTerm_of_cycle (hc : x.cycle = none) : x.chip.regs.dsackTerm_ = true := by
  refine Bool.eq_true_of_not_eq_false fun hd => ?_
  obtain ⟨b, hb, -⟩ := hC.dsackTerm_ hd
  rw [hc] at hb
  exact (Option.not_mem_none b hb).elim

theorem nls2cpu_of_dma (hs : x.chip.scsi.state.dma = true) : x.chip.scsi.nls2cpu = false := by
  refine Bool.eq_false_iff.mpr fun hn => ?_
  have h1 := hC.nls2cpu hn
  rw [ScsiSm.setDsack_of_dma hs] at h1
  exact Bool.noConfusion h1

end Facts

/-! ### The bus changes hands -/

section Bus

variable (hC : Coupled x) (hq : BusRules x q)
include hC hq

theorem live : Chip.Live x.chip q := ⟨hC.awake, hq.noReset⟩

/-- The bus is not granted in a cycle of the CPU. -/
theorem cycle_of_bgack (hb : (x.chip.cpuOut q).bgack = true) : x.cycle = none := by
  have hs : (CpuSm.nextState (x.chip.cpuIn q) x.chip.cpu.state).onBus = true :=
    CpuSm.bgack_eq.symm.trans hb
  rcases CpuSm.nextState_onBus hs with hs | ⟨hg, hd⟩
  · exact hC.cycle_of_onBus hs
  · rw [Chip.cpuIn_eq (hC.live hq)] at hg hd
    cases hc : x.cycle with
    | none => rfl
    | some b =>
        rcases (hC.busy (by rw [hc]; rfl)).2 with h1 | h1
        · exact Bool.noConfusion (h1.symm.trans hg)
        · simp [h1] at hd

theorem bgack_of_cycle {b : BusCycle} (hc : b ∈ x.cycle) : (x.chip.cpuOut q).bgack = false := by
  refine Bool.eq_false_iff.mpr fun hb => ?_
  rw [hC.cycle_of_bgack hq hb] at hc
  exact Option.not_mem_none b hc

/-- The chip takes the bus only when `SCSI_SM` is done with the CPU. -/
theorem nextState_dma_of_bgack (hb : (x.chip.cpuOut q).bgack = true) :
    (ScsiSm.nextState (x.chip.scsiIn q) x.chip.scsi.state).dma = true := by
  have h := hC.live hq
  have hc := hC.cycle_of_bgack hq hb
  have hr : (x.chip.scsiIn q).ccpureq = false := by
    rw [Chip.scsiIn_eq h]
    exact hC.request.trans (by rw [hc]; rfl)
  rcases ScsiSm.State.cases x.chip.scsi.state with hd | hs | hl | hp
  · exact ScsiSm.nextState_dma hr hd
  · obtain ⟨b, hb', -⟩ := hC.selects hs
    rw [hc] at hb'
    exact (Option.not_mem_none b hb').elim
  · have hs : (CpuSm.nextState (x.chip.cpuIn q) x.chip.cpu.state).onBus = true :=
      CpuSm.bgack_eq.symm.trans hb
    rcases CpuSm.nextState_onBus hs with hs | ⟨-, hd⟩
    · have h1 := hC.onBus hs
      revert hl h1
      cases x.chip.scsi.state <;> intro hl h1 <;> first | exact Bool.noConfusion hl | exact Bool.noConfusion h1
    · rw [Chip.cpuIn_eq h] at hd
      simp [(hC.leaving hl).2] at hd
  · rw [ScsiSm.nextState_parked ?_ hp]
    · rfl
    · rw [Chip.scsiIn_eq h]
      exact hC.parked hp

/-- The answer of memory as `CPU_SM` reads it. -/
theorem answered (hs : x.chip.cpu.state.strobing = true) :
    (x.chip.cpuIn q).Answered x.term q.clk90Rise.term := by
  have hb := CpuSm.State.onBus_of_strobing hs
  have ha : x.chip.asO_ = false := by rw [hC.asO_, hs]; rfl
  obtain ⟨hp, -, ht, -⟩ := hq.answers ha
  obtain ⟨h1, h2, h3, h4⟩ := Chip.cpuIn_answer (hC.live hq)
    (hC.dsackTerm_of_cycle (hC.cycle_of_onBus hb)) (hC.nls2cpu_of_dma (hC.onBus hb))
    (hC.own.trans hb) ha hp
  refine ⟨by rw [h1, Pins.Clean.sterm_eq], by rw [h4, hC.dsack hs], fun hd => ?_⟩
  have he := ht.eq hd
  rw [← he] at hd
  obtain ⟨-, h5, h6⟩ := Pins.Clean.port_eq hd
  exact ⟨he, by rw [h3, h5], by rw [h2, h6, he]⟩

theorem cpuOut_pas :
    (x.chip.cpuOut q).pas = (CpuSm.nextState (x.chip.cpuIn q) x.chip.cpu.state).strobing := by
  refine CpuSm.pas_eq fun hs hd => ?_
  have ha := hC.answered hq hs
  exact (ha.port (ha.dsack.symm.trans hd)).2.1

/-- Without a cycle of the CPU nothing is decoded. -/
theorem cycleActive_of_cycle (hc : x.cycle = none) :
    Registers.cycleActive ((x.chip.atClk90Rise q).access q.clk90Rise) = false := by
  have ho : (x.chip.atClk90Rise q).own = x.chip.own := by
    rw [Chip.atClk90Rise_eq (hC.live hq)]
    rfl
  have hp := hq.shown.2.1
  rw [hc] at hp
  have ha : q.clk90Rise.as_ = true := hp
  cases hb : x.chip.own with
  | true =>
      have hs := hq.deselected.1 hb
      simp [Registers.cycleActive, Chip.access, hs]
  | false =>
      simp [Registers.cycleActive, Chip.access, Chip.asI_, ho, hb, ha]

/-- Nothing but memory answers a cycle of the chip. -/
theorem atSclkFall_dsackInt (hb : (x.chip.cpuOut q).bgack = true)
    (hf : q.sclkFall.flashTerm = false) :
    (x.chip.atSclkFall q).dsackInt q.sclkFall = true := by
  have h := hC.live hq
  have hc := hC.cycle_of_bgack hq hb
  refine Chip.atSclkFall_dsackInt ?_ ?_ hf
  · exact Chip.atSclkFall_dsackTerm_ h (hC.dsackTerm_of_cycle hc) (hC.cycleActive_of_cycle hq hc)
  · exact (Chip.period_nls2cpu_eq_false h
      (ScsiSm.setDsack_of_dma (hC.nextState_dma_of_bgack hq hb))).1

/-! ### The next period -/

theorem step_onBus (hs : (x.step q).chip.cpu.state.onBus = true) :
    (x.chip.cpuOut q).bgack = true := by
  rw [Chip.cpuOut_bgack, ← Chip.period_cpu_state (hC.live hq)]
  exact hs

theorem step_pas : (x.chip.cpuOut q).pas = (x.step q).chip.cpu.state.strobing := by
  rw [hC.cpuOut_pas hq, ← Chip.period_cpu_state (hC.live hq)]
  rfl

theorem step_asO_ : (x.step q).chip.asO_ = !(x.step q).chip.cpu.state.strobing := by
  rw [← hC.step_pas hq]
  exact Chip.period_asO_ (hC.live hq)

theorem step_dsack (hs : (x.step q).chip.cpu.state.strobing = true) :
    (x.step q).chip.cpu.dsack = (x.step q).term.isDsack := by
  have h := hC.live hq
  have hb := hC.step_onBus hq (CpuSm.State.onBus_of_strobing hs)
  have hp := (hC.step_pas hq).trans hs
  have e := Chip.period_dsack h hb
  have ha : (x.chip.period q).asO_ = false := by
    rw [Chip.period_asO_ h, hp]
    rfl
  rw [hp, Bool.and_true] at e
  change (x.chip.period q).cpu.dsack =
    (if !x.chip.asO_ && !(x.chip.period q).asO_ then q.sclkFall.term else .wait).isDsack
  rw [e, ha, Bool.not_false, Bool.and_true]
  cases hl : x.chip.asO_ with
  | true => rfl
  | false =>
      obtain ⟨-, hc, -, -⟩ := hq.answers hl
      have hi := hC.atSclkFall_dsackInt hq hb hc.flashTerm
      rw [Chip.dsk0In_, Chip.dsk1In_, hi, hc.berr_, Bool.and_true, Bool.and_true, Bool.true_and,
        Bool.true_and, Bool.not_false, Bool.true_and]
      exact hc.dsack_eq

theorem step_term (hs : (x.step q).chip.cpu.state.strobing = false) :
    (x.step q).term = .wait := by
  have ha := hC.step_asO_ hq
  rw [hs] at ha
  change (if !x.chip.asO_ && !(x.chip.period q).asO_ then q.sclkFall.term else .wait) = .wait
  rw [show (x.chip.period q).asO_ = true from ha, Bool.not_true, Bool.and_false]
  rfl

/-- A cycle that goes on or begins finds the bus with the CPU. -/
theorem step_busy (hc : (x.step q).cycle.isSome = true) :
    (x.step q).chip.cpu.state.onBus = false ∧
      ((x.step q).chip.cpu.inp.bgrant_ = true ∨ (x.step q).chip.cpu.inp.ncycledone = true) := by
  have h := hC.live hq
  have ha : q.clk90Fall.as_ = false := by
    refine Bool.eq_false_iff.mpr fun ha => ?_
    have e : (x.step q).cycle = none := if_pos ha
    rw [e] at hc
    exact Bool.noConfusion hc
  change (x.chip.period q).cpu.state.onBus = false ∧ ((x.chip.period q).cpu.inp.bgrant_ = true ∨
    (x.chip.period q).cpu.inp.ncycledone = true)
  rw [Chip.period_cpu_state h, ← Chip.cpuOut_bgack, Chip.period_cpu_inp h]
  cases hx : x.cycle with
  | none =>
      obtain ⟨hg, ho⟩ := hq.starts hx ha
      rw [Chip.own, Chip.atClk90Fall_cpu_out h] at ho
      exact ⟨ho, .inl hg⟩
  | some b =>
      have hb := hC.bgack_of_cycle hq (show b ∈ x.cycle from hx)
      have hp := hq.shown.2.2.1
      rw [hx] at hp
      exact ⟨hb, .inr (Chip.ncycledone_of_as h hb hp.1)⟩

theorem step_request :
    (x.step q).chip.scsi.inp.ccpureq = (x.step q).cycle.any BusCycle.wd := by
  have h := hC.live hq
  have ho := Chip.atClk135Fall_own h
  have e := Chip.period_ccpureq h
  rw [Chip.access, Chip.asI_, ho] at e
  change (x.chip.period q).scsi.inp.ccpureq = _
  rw [e]
  cases hb : (x.chip.cpuOut q).bgack with
  | true =>
      have hn : (x.step q).cycle = none := by
        cases hc : (x.step q).cycle with
        | none => rfl
        | some b =>
            have h1 := (hC.step_busy hq (by rw [hc]; rfl)).1
            change (x.chip.period q).cpu.state.onBus = false at h1
            rw [Chip.period_cpu_state h, ← Chip.cpuOut_bgack, hb] at h1
            exact Bool.noConfusion h1
      have hs := (hq.deselected.2 (by rw [Chip.own, Chip.atClk90Fall_cpu_out h]; exact hb)).2
      rw [hn, Access.wdregreq, Access.valid, hs]
      rfl
  | false => exact hq.follows.wdregreq _

omit hC in
/-- An access to the WD33C93 goes on until the CPU has seen its `_DSACK`. -/
theorem step_access {b : BusCycle} (hb : b ∈ x.cycle) (hw : b.wd = true)
    (hs : b.seen = false) :
    ∃ b' ∈ (x.step q).cycle, b'.wd = true ∧
      b'.seen = (x.chip.atSclkFall q).scsi.nls2cpu := by
  have ha : q.clk90Fall.as_ = false := (hq.access b hb hw).trans hs
  obtain ⟨-, h2, h3, -⟩ := hq.continues b hb ha
  have hsome : x.cycle.isSome = true := Option.isSome_iff_exists.mpr ⟨b, hb⟩
  refine ⟨_, if_neg (by rw [ha]; exact Bool.false_ne_true), ?_, ?_⟩
  · rw [← hw, BusCycle.wd, BusCycle.wd, h2, h3]
  · change (x.cycle.isSome && !(x.chip.atSclkFall q).scsi.ls2cpu) = _
    rw [hsome, ScsiSm.ls2cpu, Bool.not_not, Bool.true_and]

theorem step_selects (hs : (x.step q).chip.scsi.state.selects = true) :
    ∃ b ∈ (x.step q).cycle, b.wd = true ∧
      b.seen = ScsiSm.setDsack (x.step q).chip.scsi.state := by
  have h := hC.live hq
  have e : (x.step q).chip.scsi.state =
      ScsiSm.nextState (x.chip.scsiIn q) x.chip.scsi.state := Chip.period_scsi_state h
  rw [e] at hs ⊢
  rcases ScsiSm.nextState_selects hs with ⟨hd, hr, hn⟩ | ⟨hsel, hn⟩
  · rw [Chip.scsiIn_eq h] at hr
    have hr' := hC.request.symm.trans hr
    obtain ⟨b, hb, hw⟩ := (Option.any_eq_true ..).mp hr'
    have hseen : b.seen = false := by
      refine Bool.eq_false_iff.mpr fun h1 => ?_
      have h2 := hC.unseen b hb h1
      rw [ScsiSm.setDsack_of_dma hd] at h2
      exact Bool.noConfusion h2
    obtain ⟨b', hb', hw', hs'⟩ := step_access hq hb hw hseen
    exact ⟨b', hb', hw', by rw [hs', (Chip.period_nls2cpu_eq_false h hn).1, hn]⟩
  · obtain ⟨b, hb, hw, hseen⟩ := hC.selects hsel
    rw [hn] at hseen
    obtain ⟨b', hb', hw', hs'⟩ := step_access hq hb hw hseen
    have h0 : x.chip.scsi.nls2cpu = false := by
      refine Bool.eq_false_iff.mpr fun h1 => ?_
      rw [hC.nls2cpu h1] at hn
      exact Bool.noConfusion hn
    have hp := hq.shown
    rw [show x.cycle = some b from hb] at hp
    exact ⟨b', hb', hw', hs'.trans (Chip.atSclkFall_nls2cpu h (hC.bgack_of_cycle hq hb) h0
      hp.2.2.1.1 hp.2.2.2.1)⟩

theorem step_unseen : ∀ b ∈ (x.step q).cycle, b.seen = true →
    ScsiSm.setDsack (x.step q).chip.scsi.state = true := by
  intro b hb hs
  have h := hC.live hq
  have e : (x.step q).chip.scsi.state =
      ScsiSm.nextState (x.chip.scsiIn q) x.chip.scsi.state := Chip.period_scsi_state h
  rw [e]
  refine Bool.eq_true_of_not_eq_false fun hn => ?_
  have h0 := (Chip.period_nls2cpu_eq_false h hn).1
  change x.nextCycle q = some b at hb
  rw [nextCycle] at hb
  split_ifs at hb
  obtain rfl := Option.some.inj hb
  simp [ScsiSm.ls2cpu, h0] at hs

theorem step_leaving (hl : (x.step q).chip.scsi.state.leaving = true) :
    (x.step q).cycle = none ∧ (x.step q).chip.cpu.inp.ncycledone = true := by
  have h := hC.live hq
  change (x.chip.period q).scsi.state.leaving = true at hl
  rw [Chip.period_scsi_state h] at hl
  have hset := ScsiSm.nextState_leaving hl
  obtain ⟨b, hb, hw, hseen⟩ := hC.selects (ScsiSm.selects_of_setDsack hset)
  have hp := hq.shown.2.2.1
  rw [show x.cycle = some b from hb] at hp
  refine ⟨if_pos (by rw [hq.access b hb hw, hseen, hset]), ?_⟩
  change (x.chip.period q).cpu.inp.ncycledone = true
  rw [Chip.period_cpu_inp h]
  exact Chip.ncycledone_of_as h (hC.bgack_of_cycle hq hb) hp.1

theorem step_nls2cpu (hn : (x.step q).chip.scsi.nls2cpu = true) :
    ScsiSm.setDsack (x.step q).chip.scsi.state = true := by
  have h := hC.live hq
  refine Bool.eq_true_of_not_eq_false fun hs => ?_
  change ScsiSm.setDsack (x.chip.period q).scsi.state = false at hs
  rw [Chip.period_scsi_state h] at hs
  exact Bool.noConfusion ((Chip.period_nls2cpu_eq_false h hs).2.symm.trans hn)

theorem step_parked (hp : (x.step q).chip.scsi.state.parked = true) :
    (x.step q).chip.scsi.inp.cdsack_ = true := by
  have h := hC.live hq
  have h0 : (x.chip.period q).scsi.nls2cpu = false := by
    refine Bool.eq_false_iff.mpr fun hn => ?_
    have h1 := hC.step_nls2cpu hq hn
    rw [ScsiSm.setDsack_of_parked hp] at h1
    exact Bool.noConfusion h1
  exact (Chip.period_cdsack_ h).trans (by rw [h0]; rfl)

/-- A cycle to `PORT0` is not answered by the registers. -/
theorem not_dsackTerm_of_wd {b : BusCycle} (hb : b ∈ x.cycle) (hw : b.wd = true) :
    (x.chip.atSclkFall q).regs.dsackTerm_ = true := by
  have h := hC.live hq
  have hterm : x.chip.regs.dsackTerm_ = true := by
    refine Bool.eq_true_of_not_eq_false fun h1 => ?_
    obtain ⟨b', hb', hw'⟩ := hC.dsackTerm_ h1
    obtain rfl := Option.mem_unique hb' hb
    rw [hw] at hw'
    exact Bool.noConfusion hw'
  have hp := hq.shown.2.1
  rw [show x.cycle = some b from hb] at hp
  have hown : (x.chip.atClk90Rise q).own = false := by
    have h1 : (x.chip.atClk90Rise q).own = x.chip.own := by
      rw [Chip.atClk90Rise_eq h]
      rfl
    rw [h1, hC.own]
    exact (hC.busy (by rw [show x.cycle = some b from hb]; rfl)).1
  have hact : Registers.cycleActive ((x.chip.atClk90Rise q).access q.clk90Rise) = false := by
    have hreq := (show q.clk90Rise.Shows (some b) from hp).wdregreq
      ((x.chip.atClk90Rise q).rw q.clk90Rise)
    have hacc : (x.chip.atClk90Rise q).access q.clk90Rise =
        ⟨q.clk90Rise.offset, q.clk90Rise.cs_, q.clk90Rise.as_,
          (x.chip.atClk90Rise q).rw q.clk90Rise⟩ := by
      rw [Chip.access, Chip.asI_, hown]
      rfl
    rw [hacc, Registers.cycleActive, hreq, Option.any_some, hw]
    simp
  exact Chip.atSclkFall_dsackTerm_ h hterm hact

theorem step_dsackTerm_ (hd : (x.step q).chip.regs.dsackTerm_ = false) :
    ∃ b ∈ (x.step q).cycle, b.wd = false := by
  have h := hC.live hq
  have e := (Chip.period_dsackTerm_ h).symm.trans hd
  simp only [Bool.or_eq_false_iff] at e
  obtain ⟨-, ha, ht⟩ := e
  -- the access was answered in this period or before
  have hlow : x.cycle ≠ none := by
    intro hc
    have h1 := Chip.atSclkFall_dsackTerm_ h (hC.dsackTerm_of_cycle hc)
      (hC.cycleActive_of_cycle hq hc)
    rw [h1] at ht
    exact Bool.noConfusion ht
  obtain ⟨b, hb⟩ := Option.ne_none_iff_exists'.mp hlow
  have hbg := hC.bgack_of_cycle hq (show b ∈ x.cycle from hb)
  rw [hbg] at ha
  have ha' : q.clk90Fall.as_ = false := ha
  obtain ⟨-, h2, h3, -⟩ := hq.continues b hb ha'
  refine ⟨_, if_neg (by rw [ha']; exact Bool.false_ne_true), ?_⟩
  have hw : b.wd = false := Bool.eq_false_iff.mpr fun hw => by
    rw [hC.not_dsackTerm_of_wd hq hb hw] at ht
    exact Bool.noConfusion ht
  rw [← hw, BusCycle.wd, BusCycle.wd, h2, h3]

theorem step_closed (hs : (x.step q).chip.cpu.state.onBus = true)
    (hg : (x.step q).chip.cpu.state.granted = false) :
    (x.step q).chip.scsi.out.s2cpu = false ∧ (x.step q).chip.scsi.out.cpu2s = false := by
  have h := hC.live hq
  change (x.chip.period q).cpu.state.onBus = true at hs
  change (x.chip.period q).cpu.state.granted = false at hg
  rw [Chip.period_cpu_state h] at hs hg
  change (x.chip.period q).scsi.out.s2cpu = false ∧ (x.chip.period q).scsi.out.cpu2s = false
  rw [Chip.period_scsi_out h]
  exact ScsiSm.comb_of_dma (hC.onBus (CpuSm.onBus_of_nextState hs hg))

/-- Accesses and memory cycles keep apart in every period that keeps to the rules. -/
theorem step : Coupled (x.step q) where
  awake := Chip.period_awake (hC.live hq)
  own := by
    have h := hC.live hq
    change (x.chip.period q).cpu.out.bgack = (x.chip.period q).cpu.state.onBus
    rw [Chip.period_cpu_out h, Chip.period_cpu_state h]
    exact Chip.cpuOut_bgack
  pas := by
    rw [← hC.step_pas hq]
    exact congrArg CpuSm.Out.pas (Chip.period_cpu_out (hC.live hq))
  asO_ := hC.step_asO_ hq
  dsack := hC.step_dsack hq
  term := hC.step_term hq
  busy := hC.step_busy hq
  request := hC.step_request hq
  selects := hC.step_selects hq
  unseen := hC.step_unseen hq
  leaving := hC.step_leaving hq
  parked := hC.step_parked hq
  onBus := fun hs => by
    change (x.chip.period q).scsi.state.dma = true
    rw [Chip.period_scsi_state (hC.live hq)]
    exact hC.nextState_dma_of_bgack hq (hC.step_onBus hq hs)
  nls2cpu := hC.step_nls2cpu hq
  dsackTerm_ := hC.step_dsackTerm_ hq
  closed := hC.step_closed hq

end Bus

end Coupled

/-- The strobes of the CPU find the bus with the CPU. -/
theorem Coupled.not_bgack_of_hit {x : System} {q : Period} (hC : Coupled x) (hq : BusRules x q)
    {n : BitVec 8} (hn : (x.chip.endAccess q).hit n = true) : (x.chip.cpuOut q).bgack = false := by
  refine Bool.eq_false_iff.mpr fun hb => ?_
  have hcs := (hq.deselected.2 (by rw [Chip.own, Chip.atClk90Fall_cpu_out (hC.live hq)]; exact hb)).1
  rw [Access.hit_of_not_valid] at hn
  · exact Bool.noConfusion hn
  · simp [Chip.endAccess, Chip.access, Access.valid, hcs]

theorem Coupled.noFlush {x : System} {q : Period} (hC : Coupled x) (hq : BusRules x q)
    (hb : (x.chip.cpuOut q).bgack = true) : Chip.NoFlush x.chip q :=
  Bool.eq_false_iff.mpr fun hn => Bool.noConfusion (hb.symm.trans (hC.not_bgack_of_hit hq hn))

/-! ## §4 The start of a session -/

/-- The start of a session: the CPU may be in the cycle that started the engine, which
is no access to the WD33C93, and it still owns the bus. -/
structure Start (x : System) : Prop where
  dma : Chip.DmaStart x.chip
  quiet : Chip.Quiet x.chip
  ccpureq : x.chip.scsi.inp.ccpureq = false
  nls2cpu : x.chip.scsi.nls2cpu = false
  cycle : ∀ b ∈ x.cycle, b.wd = false ∧ b.seen = false
  busy : x.cycle.isSome = true →
    x.chip.cpu.inp.bgrant_ = true ∨ x.chip.cpu.inp.ncycledone = true
  dsackTerm_ : x.chip.regs.dsackTerm_ = false → x.cycle.isSome = true
  term : x.term = .wait
  taken : x.taken = []
  given : x.given = []
  written : x.written = []
  read : x.read = []

/-- The start of a session after reset. -/
def fresh (ndmadir a1 : Bool) : System where
  chip := Chip.fresh ndmadir a1

theorem fresh_start (ndmadir a1 : Bool) : Start (fresh ndmadir a1) where
  dma := Chip.fresh_dmaStart ndmadir a1
  quiet := ⟨rfl, rfl⟩
  ccpureq := rfl
  nls2cpu := rfl
  cycle := nofun
  busy := nofun
  dsackTerm_ := nofun
  term := rfl
  taken := rfl
  given := rfl
  written := rfl
  read := rfl

/-- With both state machines idle the CPU may be in any cycle that has not been answered. -/
theorem Coupled.of_idle {x : System} (awake : x.chip.Awake)
    (cpu_state : x.chip.cpu.state = .s0 ∨ x.chip.cpu.state = .s20) (cpu_out : x.chip.cpu.out = {})
    (scsi_state : x.chip.scsi.state = .idleDmaRd ∨ x.chip.scsi.state = .idleDmaWr)
    (asO_ : x.chip.asO_ = true) (term : x.term = .wait)
    (busy : x.cycle.isSome = true →
      x.chip.cpu.inp.bgrant_ = true ∨ x.chip.cpu.inp.ncycledone = true)
    (request : x.chip.scsi.inp.ccpureq = x.cycle.any BusCycle.wd)
    (unseen : ∀ b ∈ x.cycle, b.seen = false) (nls2cpu : x.chip.scsi.nls2cpu = false)
    (dsackTerm_ : x.chip.regs.dsackTerm_ = false → ∃ b ∈ x.cycle, b.wd = false) : Coupled x := by
  -- most of the invariant is about states on the bus or in an access, and neither is one
  have hon : x.chip.cpu.state.onBus = false := by
    rcases cpu_state with e | e <;> rw [e] <;> rfl
  have hst := CpuSm.State.not_strobing_of_not_onBus hon
  have hsc : x.chip.scsi.state.dma = true := by
    rcases scsi_state with e | e <;> rw [e] <;> rfl
  exact
    { awake := awake
      own := by rw [Chip.own, cpu_out, hon]
      pas := by rw [cpu_out, hst]
      asO_ := by rw [asO_, hst]; rfl
      dsack := fun h => by rw [hst] at h; exact Bool.noConfusion h
      term := fun _ => term
      busy := fun h => ⟨hon, busy h⟩
      request := request
      selects := fun h => by
        rw [ScsiSm.State.not_selects_of_dma hsc] at h
        exact Bool.noConfusion h
      unseen := fun b hb h => Bool.noConfusion ((unseen b hb).symm.trans h)
      leaving := fun h => by
        rcases scsi_state with e | e <;> rw [e] at h <;> exact Bool.noConfusion h
      parked := fun h => by
        rcases scsi_state with e | e <;> rw [e] at h <;> exact Bool.noConfusion h
      onBus := fun h => by rw [hon] at h; exact Bool.noConfusion h
      nls2cpu := fun h => Bool.noConfusion (nls2cpu.symm.trans h)
      dsackTerm_ := dsackTerm_
      closed := fun h => by rw [hon] at h; exact Bool.noConfusion h }

theorem Start.coupled {x : System} (hs : Start x) : Coupled x := by
  refine Coupled.of_idle hs.dma.awake hs.dma.cpu_state hs.dma.cpu_out hs.dma.scsi_state hs.dma.asO_
    hs.term hs.busy ?_ (fun b hb => (hs.cycle b hb).2) hs.nls2cpu fun h => ?_
  · rw [hs.ccpureq]
    refine (Bool.eq_false_iff.mpr fun h => ?_).symm
    obtain ⟨b, hb, hw⟩ := (Option.any_eq_true ..).mp h
    exact Bool.noConfusion ((hs.cycle b hb).1.symm.trans hw)
  · obtain ⟨b, hb⟩ := Option.isSome_iff_exists.mp (hs.dsackTerm_ h)
    exact ⟨b, hb, (hs.cycle b hb).1⟩

end System

end Resdmac
