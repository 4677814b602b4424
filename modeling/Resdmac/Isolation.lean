import Resdmac.StopDma
import Resdmac.System

/-!
# One Session after Another

`SP_DMA` holds the FIFO in reset and masks `_DREQ`. What else the session leaves behind has
to drain by itself before the next `ST_DMA`: the byte that `SCSI_SM` has begun, the requests
for a step of `COUNT`, a bus request of `CPU_SM`, and `FLUSHFIFO`.

The strobe is a register cycle of the CPU, which `registers_term` ends at the fourth clock.
That is time enough for `SCSI_SM` and its requests, at whatever phase the strobe finds them.
A bus request waits for its grant, and a flush flag for the next session.

## Main definitions

- `Chip.SessionStart` — the state in which a session is to start
- `System.EngineReset`, `System.Reset` — the engine, and all registers, out of reset
- `System.CpuRules` — a period in which the CPU keeps to the rules of the bus and of the
  registers
- `System.Settling` — what is left of a stopped session in front of `CPU_SM`

## Main results

- `System.sessions_isolated_iff` — at `ST_DMA` the engine is in that state exactly when the
  last `SP_DMA` left neither a bus request that is still waiting nor a flush
-/

namespace Resdmac

open Chip (Period strobe answered)

namespace CpuSm

theorem State.cases_of_not_onBus {st : State} (h : st.onBus = false) :
    st = .s0 ∨ st = .s20 ∨ st.waiting = true := by
  cases st <;> simp_all [State.onBus, State.waiting]

section Moves

variable {i : Inputs} {st : State}

/-- Idle, `CPU_SM` ends a flush that has nothing to deliver. -/
theorem stopflush_of_idle (hs : st = .s0 ∨ st = .s20)
    (hf : i.fifofull = true → i.fifoempty = false) :
    (comb i st).stopflush = true ↔
      i.dmaena = true ∧ i.flushfifo = true ∧ i.fifoempty = true ∧
        (st = .s0 ∧ i.dmadir = true ∧ i.lastword = false ∨ st = .s20 ∧ i.dmadir = false) := by
  obtain ⟨_, _, _, _, dmadir, dmaena, _, _, _, fifoempty, fifofull, flushfifo, lastword,
    _, _, _, _⟩ := i
  rcases hs with rfl | rfl
  · cases dmaena <;> cases fifofull <;> cases dmadir <;> cases flushfifo <;>
      cases fifoempty <;> cases lastword <;> simp_all [comb]
  · cases dmaena <;> cases fifofull <;> cases dmadir <;> cases flushfifo <;>
      cases fifoempty <;> simp_all [comb]

/-- A tenure that does not end because the FIFO is full ends the flush. -/
theorem stopflush_of_nextState_letgo (hf : i.fifofull = false) (h : nextState i st = .letgo) :
    (comb i st).stopflush = true := by
  cases hs : st.filling with
  | false => exact stopflush_of_letgo hs h
  | true =>
      exfalso
      cases st <;> first | exact Bool.noConfusion hs | skip
      all_goals simp only [nextState, hf] at h; (repeat' split at h) <;> simp_all

end Moves

end CpuSm

namespace ScsiSm

theorem State.toIdle_le (st : State) : st.toIdle ≤ 4 := by
  cases st <;> decide

/-- Without `_DREQ` no byte is begun, and the one that was is finished. -/
theorem nextState_toIdle {i : Inputs} {st : State} (hi : i.cdreq_ = true) :
    (nextState i st).toIdle = st.toIdle - 1 := by
  cases st <;> simp only [nextState] <;> (repeat' split) <;>
    simp_all [State.toIdle, Inputs.startS2f, Inputs.startF2s]

end ScsiSm

namespace Chip

/-! ## §1 The state in which a session is to start -/

/-- The engine at `ST_DMA`. -/
structure SessionStart (s : Chip) : Prop where
  cpu_state : s.cpu.state = .s0 ∨ s.cpu.state = .s20
  breq : s.cpu.out.breq = false
  bgack : s.cpu.out.bgack = false
  /-- `SCSI_SM` is not inside a transfer between the FIFO and the WD33C93. -/
  scsi_state : s.scsi.state.toIdle = 0
  rififoO : s.scsi.rififoO = false
  rdfifoO : s.scsi.rdfifoO = false
  incfifo : s.cpu.out.incfifo = false
  decfifo : s.cpu.out.decfifo = false
  count : s.fifo.count = 0
  writePtr : s.fifo.writePtr = 0
  readPtr : s.fifo.readPtr = 0
  bytePtr : s.fifo.bytePtr = if s.regs.a1 then 2 else 0
  flushfifo : s.regs.flushfifo = false

/-- `CPU_SM` is about to end a flush on its stale sample of `DMAENA`. -/
def DropsFlush (s : Chip) : Prop :=
  s.cpu.inp.dmaena = true ∧ s.cpu.inp.flushfifo = true ∧ s.fifo.empty = true ∧
    (s.cpu.state = .s0 ∧ s.regs.dmadir = true ∧ s.lastword = false ∨
      s.cpu.state = .s20 ∧ s.regs.dmadir = false)

instance (s : Chip) : Decidable (DropsFlush s) := inferInstanceAs (Decidable (_ ∧ _ ∧ _ ∧ _))

/-! ### The strobes -/

section Strobes

variable {s : Chip} {q : Period} (h : Live s q)
include h

/-- Only `ST_DMA` and `SP_DMA` change `DMAENA`. -/
theorem hit_of_dmaena (hd : (s.period q).regs.dmaena ≠ s.regs.dmaena) :
    (s.endAccess q).hit (if s.regs.dmaena then 0x3C else 0x10) = true := by
  rw [period_dmaena h] at hd
  split_ifs at hd with h1 h2 h3
  · exact absurd rfl hd
  · rw [show s.regs.dmaena = false from Bool.eq_false_iff.mpr (Ne.symm hd)]
    exact h2
  · rw [show s.regs.dmaena = true from Bool.eq_true_of_not_eq_false (Ne.symm hd)]
    exact h3
  · exact absurd rfl hd

/-- A strobe leaves `DMAENA` as it asks for. -/
theorem dmaena_of_hit (d : Bool) (hn : (s.endAccess q).hit (if d then 0x10 else 0x3C) = true) :
    (s.period q).regs.dmaena = d := by
  have hw : (s.endAccess q).contrWr = false := by
    rw [Access.contrWr, Access.wr, Access.hit_unique hn (by cases d <;> decide), Bool.false_and]
  rw [period_dmaena h, hw, if_neg Bool.false_ne_true]
  cases d with
  | true => exact if_pos hn
  | false =>
      rw [show (s.endAccess q).stDma = false from Access.hit_unique hn (by decide)]
      exact if_pos hn

end Strobes

/-! ### The termination counter -/

section Counter

variable {s : Chip} {q : Period} (h : Live s q)
include h

/-- Between CLK135 rising and SCLK falling only `AS_` clears the counter and its answer. -/
theorem atSclkFall_term_eq :
    (s.atSclkFall q).regs.termCounter =
        (if (s.atClk135Rise q).asI_ q.sclkFall then 0 else (s.atClk135Rise q).regs.termCounter) ∧
      (s.atSclkFall q).regs.dsackTerm_ =
        ((s.atClk135Rise q).asI_ q.sclkFall || (s.atClk135Rise q).regs.dsackTerm_) := by
  rw [atSclkFall_eq h]
  exact ⟨rfl, rfl⟩

/-- The counter and its answer at SCLK falling, in a cycle of the CPU. -/
theorem atSclkFall_term (ho : s.own = false) (hb : (s.cpuOut q).bgack = false)
    (ha : q.sclkRise.as_ = false ∧ q.clk90Rise.as_ = false ∧ q.clk135Rise.as_ = false ∧
      q.sclkFall.as_ = false) :
    let a : Access := ⟨q.clk90Rise.offset, q.clk90Rise.cs_, false, q.clk90Rise.rw⟩
    (s.atSclkFall q).regs.termCounter =
        (if Registers.cycleActive a && s.regs.termCounter != 3 then s.regs.termCounter + 1
          else s.regs.termCounter) ∧
      (s.atSclkFall q).regs.dsackTerm_ =
        (if Registers.cycleActive a && s.regs.termCounter == 3 then false
          else s.regs.dsackTerm_) := by
  obtain ⟨h1, h2, h3, h4⟩ := ha
  have hA : (s.atClk90Rise q).regs.termCounter = s.regs.termCounter ∧
      (s.atClk90Rise q).regs.dsackTerm_ = s.regs.dsackTerm_ := by
    rw [atClk90Rise_eq h]
    simp [clear, onSclkRise, asI_, own, show s.cpu.out.bgack = false from ho, h1, h2]
  have hacc : (s.atClk90Rise q).access q.clk90Rise =
      ⟨q.clk90Rise.offset, q.clk90Rise.cs_, false, q.clk90Rise.rw⟩ := by
    have ho' : (s.atClk90Rise q).own = false := by
      rw [← ho, atClk90Rise_eq h]
      rfl
    rw [access, asI_, rw, ho', h2]
    rfl
  have hB : ∀ p : Pins, p.as_ = false → (s.atClk135Rise q).asI_ p = false := fun p hp => by
    have ho' : (s.atClk135Rise q).own = false := by
      rw [own, ← hb, atClk135Rise_eq h]
      rfl
    rw [asI_, ho', hp]
    rfl
  -- the counter is clocked at CLK90 rising and kept while `AS_` is low
  have hC : (s.atClk135Rise q).regs.termCounter =
        (if (s.atClk135Rise q).asI_ q.clk135Rise then 0 else
          ((s.atClk90Rise q).regs.clk90Rise ((s.atClk90Rise q).access q.clk90Rise) true
            q.clk90Rise.dspData).termCounter) ∧
      (s.atClk135Rise q).regs.dsackTerm_ = ((s.atClk135Rise q).asI_ q.clk135Rise ||
          ((s.atClk90Rise q).regs.clk90Rise ((s.atClk90Rise q).access q.clk90Rise) true
            q.clk90Rise.dspData).dsackTerm_) := by
    rw [atClk135Rise_eq h]
    exact ⟨rfl, rfl⟩
  rw [(atSclkFall_term_eq h).1, (atSclkFall_term_eq h).2, hC.1, hC.2, hB _ h3, hB _ h4, hacc]
  simp only [Registers.clk90Rise, hA.1, hA.2, Bool.false_or, Bool.false_eq_true, if_false, and_self]

/-- With `AS_` high the counter is clear and there is no answer. -/
theorem atSclkFall_term_clear (hb : (s.cpuOut q).bgack = false) (ha : q.sclkFall.as_ = true) :
    (s.atSclkFall q).regs.termCounter = 0 ∧ (s.atSclkFall q).regs.dsackTerm_ = true := by
  have hi : (s.atClk135Rise q).asI_ q.sclkFall = true := by
    have ho : (s.atClk135Rise q).own = false := by
      rw [own, ← hb, atClk135Rise_eq h]
      rfl
    rw [asI_, ho, ha]
    rfl
  rw [(atSclkFall_term_eq h).1, (atSclkFall_term_eq h).2, hi]
  exact ⟨rfl, rfl⟩

/-- The counter after a period in which the CPU owns the bus. -/
theorem period_termCounter (hb : (s.cpuOut q).bgack = false) :
    (s.period q).regs.termCounter =
      if q.clk135Fall.as_ || q.clk90Fall.as_ then 0 else (s.atSclkFall q).regs.termCounter := by
  have hD : (s.atClk90Fall q).regs.termCounter =
      if q.clk90Fall.as_ then 0 else (s.atSclkFall q).regs.termCounter := by
    have ho : (s.atClk90Fall q).asI_ q.clk90Fall = q.clk90Fall.as_ := by
      rw [atClk90Fall_asI_ h, hb]
      rfl
    rw [← ho, atClk90Fall_eq h]
    rfl
  have hE : ((s.atClk90Fall q).onClk90Fall q.clk90Fall).regs.termCounter =
      (s.atClk90Fall q).regs.termCounter := by
    rw [onClk90Fall, h.2.2.2.2.2.1]
    exact Registers.clk90Fall_termCounter ..
  have hF : (s.period q).regs.termCounter =
      if (s.atClk90Fall q).asI_ q.clk135Fall then 0
      else ((s.atClk90Fall q).onClk90Fall q.clk90Fall).regs.termCounter := by
    rw [period, atClk135Fall_eq h]
    rfl
  rw [hF, hE, hD, atClk90Fall_asI_ h, hb]
  cases q.clk135Fall.as_ <;> cases q.clk90Fall.as_ <;> rfl

end Counter

end Chip

/-! ## §2 Register cycles of the CPU -/

/-- The address decoder hits the location at offset `n`. -/
def BusCycle.hits (b : BusCycle) (n : BitVec 8) : Bool :=
  !b.cs_ && (0#1 ++ b.addr ++ 0#2 : BitVec 8) == n

/-- `registers_term` counts the clocks of the cycle. -/
def BusCycle.counted (b : BusCycle) : Bool :=
  Registers.cycleActive ⟨0#1 ++ b.addr ++ 0#2, b.cs_, false, b.rw⟩

namespace System

/-- A period in which the CPU keeps to the rules of the bus and of the registers. -/
structure CpuRules (x : System) (q : Period) : Prop where
  bus : BusRules x q
  /-- A cycle that `registers_term` answers is not ended before the answer. -/
  registers : ∀ b ∈ x.cycle, b.counted = true → q.clk90Fall.as_ = true →
    (x.chip.atSclkFall q).regs.dsackTerm_ = false
  /-- `FLUSH` is strobed only while `DMAENA` is set. -/
  flush : (x.chip.endAccess q).flush = true → x.chip.regs.dmaena = true
  /-- `DMADIR` is rewritten only while `DMAENA` is clear. -/
  dmadir : (x.chip.endAccess q).contrWr = true → x.chip.regs.dmaena = true →
    q.clk90Fall.data.ll.getLsbD 1 = x.chip.regs.ndmadir

instance (x : System) (q : Period) : Decidable (x.CpuRules q) :=
  decidable_of_iff
    (BusRules x q ∧ (∀ b ∈ x.cycle, b.counted = true → q.clk90Fall.as_ = true →
        (x.chip.atSclkFall q).regs.dsackTerm_ = false) ∧
      ((x.chip.endAccess q).flush = true → x.chip.regs.dmaena = true) ∧
      ((x.chip.endAccess q).contrWr = true → x.chip.regs.dmaena = true →
        q.clk90Fall.data.ll.getLsbD 1 = x.chip.regs.ndmadir))
    ⟨fun ⟨h1, h2, h3, h4⟩ => ⟨h1, h2, h3, h4⟩, fun ⟨h1, h2, h3, h4⟩ => ⟨h1, h2, h3, h4⟩⟩

/-- `ST_DMA` raises `DMAENA` in the period. -/
def Raises (x : System) (q : Period) : Prop :=
  x.chip.regs.dmaena = false ∧ (x.step q).chip.regs.dmaena = true

instance (x : System) (q : Period) : Decidable (Raises x q) :=
  inferInstanceAs (Decidable (_ ∧ _))

/-- `CPU_SM` waits for the bus and finds it granted and free. -/
def Granted (x : System) : Prop :=
  x.chip.cpu.state.waiting = true ∧ x.chip.cpu.inp.bgrant_ = false ∧
    x.chip.cpu.inp.ncycledone = false

/-- The engine out of reset: both state machines, their requests and what starts them. The
other registers may hold anything. -/
structure EngineReset (x : System) : Prop where
  awake : x.chip.Awake
  cpu_state : x.chip.cpu.state = .s0
  cpu_inp : x.chip.cpu.inp = {}
  cpu_out : x.chip.cpu.out = {}
  scsi_state : x.chip.scsi.state = .idleDmaRd
  scsi_inp : x.chip.scsi.inp = {}
  scsi_out : x.chip.scsi.out = {}
  rififoO : x.chip.scsi.rififoO = false
  rdfifoO : x.chip.scsi.rdfifoO = false
  nls2cpu : x.chip.scsi.nls2cpu = false
  dmaena : x.chip.regs.dmaena = false
  flushfifo : x.chip.regs.flushfifo = false
  dsackTerm_ : x.chip.regs.dsackTerm_ = true
  bytePtr : x.chip.fifo.bytePtr = if x.chip.regs.a1 then 2 else 0
  asO_ : x.chip.asO_ = true
  cycle : x.cycle = none
  term : x.term = .wait

/-- The system out of reset: every register that `_RST` clears, itself or through another
register, is clear. Four latches of the datapath have no reset. -/
structure Reset (x : System) : Prop extends EngineReset x where
  dsackLatched_ : x.chip.cpu.dsackLatched0_ = true ∧ x.chip.cpu.dsackLatched1_ = true
  regs : x.chip.regs = .afterReset
  fifo : x.chip.fifo = { bytePtr := 2 }
  rxLatched : x.chip.path.rxLatched = 0
  dsO_ : x.chip.dsO_ = true
  llw : x.chip.llw = false
  lhw : x.chip.lhw = false

/-- The system out of reset, with all registers at their reset values. -/
def reset : System where
  chip := { cpu := { ccreset_ := true }, scsi := { creset_ := true }, fifo := { bytePtr := 2 }
            regs := .afterReset }

theorem reset_reset : Reset reset where
  toEngineReset := by constructor <;> first | rfl | exact ⟨rfl, rfl⟩
  dsackLatched_ := ⟨rfl, rfl⟩
  regs := rfl
  fifo := rfl
  rxLatched := rfl
  dsO_ := rfl
  llw := rfl
  lhw := rfl

/-! ## §3 Register cycles and the strobes -/

section Cycle

variable {x : System} {q : Period}

/-- The CPU owns the bus in a period that begins a cycle or goes on with one. -/
theorem Coupled.bgack_of_step (hC : Coupled x) (hq : BusRules x q)
    (hs : (x.step q).cycle.isSome = true) : (x.chip.cpuOut q).bgack = false := by
  have h1 := (hC.step_busy hq hs).1
  change (x.chip.period q).cpu.state.onBus = false at h1
  rw [Chip.period_cpu_state (hC.live hq), ← Chip.cpuOut_bgack] at h1
  exact h1

/-- The period begins or goes on with a cycle at the offsets that the decoder shows. -/
theorem Coupled.hit_eq (hC : Coupled x) (hq : BusRules x q) (n : BitVec 8) :
    (x.chip.endAccess q).hit n = (x.step q).cycle.any (·.hits n) := by
  have h := hC.live hq
  have ho : (x.chip.atClk90Fall q).own = (x.chip.cpuOut q).bgack := by
    rw [Chip.own, Chip.atClk90Fall_cpu_out h]
  cases hb : (x.chip.cpuOut q).bgack with
  | true =>
      -- the chip does not address itself, and the CPU begins no cycle
      have hn : (x.step q).cycle = none := by
        cases hc : (x.step q).cycle with
        | none => rfl
        | some b =>
            exact Bool.noConfusion (hb.symm.trans (hC.bgack_of_step hq (by rw [hc]; rfl)))
      rw [hn]
      exact Bool.eq_false_iff.mpr fun hh =>
        Bool.noConfusion (hb.symm.trans (hC.not_bgack_of_hit hq hh))
  | false =>
      have ha : (x.chip.atClk90Fall q).asI_ q.clk90Fall = q.clk90Fall.as_ := by
        rw [Chip.asI_, ho, hb]
        rfl
      have hn : (x.step q).cycle = x.nextCycle q := rfl
      rw [hn, nextCycle]
      cases hp : q.clk90Fall.as_ with
      | true => simp [Chip.endAccess, Chip.access, Access.hit, Access.valid, ha, hp]
      | false =>
          simp [Chip.endAccess, Chip.access, Access.hit, Access.valid, ha, hp, BusCycle.hits,
            Pins.offset]

/-- A location that is hit first now is hit by a cycle that begins now. -/
theorem Coupled.cycle_of_hit (hC : Coupled x) (hq : BusRules x q) {n : BitVec 8}
    (h0 : x.cycle.any (·.hits n) = false) (hn : (x.chip.endAccess q).hit n = true) :
    x.cycle = none := by
  rw [hC.hit_eq hq] at hn
  cases hc : x.cycle with
  | none => rfl
  | some b =>
      have ha : q.clk90Fall.as_ = false := by
        refine Bool.eq_false_iff.mpr fun ha => ?_
        rw [show (x.step q).cycle = none from if_pos ha] at hn
        exact Bool.noConfusion hn
      obtain ⟨-, h2, h3, -⟩ := hq.continues b hc ha
      have e : (x.step q).cycle = some
          { addr := q.clk90Fall.addr, cs_ := q.clk90Fall.cs_, rw := q.clk90Fall.rw
            seen := x.cycle.isSome && !(x.chip.atSclkFall q).scsi.ls2cpu } :=
        if_neg (by rw [ha]; exact Bool.false_ne_true)
      rw [e, Option.any_some, BusCycle.hits, h2, h3] at hn
      rw [hc, Option.any_some, BusCycle.hits, hn] at h0
      exact Bool.noConfusion h0

/-- The clocks that the termination counter has counted in the cycle of the CPU; four once
there is nothing to count. -/
def clocks (x : System) : ℕ :=
  if x.cycle.any BusCycle.counted && x.chip.regs.dsackTerm_ then x.chip.regs.termCounter.toNat
  else 4

/-- The counter stays within its range in a cycle of the CPU. -/
def InRange (x : System) : Prop :=
  x.cycle.isSome = true → x.chip.regs.termCounter.toNat ≤ 3

theorem InRange.clocks_le (hr : InRange x) : x.clocks ≤ 4 := by
  unfold clocks
  split_ifs with hc
  · obtain ⟨b, hb, -⟩ := (Option.any_eq_true ..).mp (Bool.and_eq_true_iff.mp hc).1
    exact Nat.le_succ_of_le (hr (Option.isSome_iff_exists.mpr ⟨b, hb⟩))
  · exact Nat.le_refl 4

theorem clocks_of_none (hc : x.cycle = none) : x.clocks = 4 := by
  rw [clocks, hc]
  rfl

/-- A cycle of the CPU goes on at the location where it was begun. -/
theorem BusRules.continued (hq : BusRules x q) {b b' : BusCycle} (hb : b ∈ x.cycle)
    (hb' : b' ∈ (x.step q).cycle) :
    q.clk90Fall.as_ = false ∧ b'.addr = b.addr ∧ b'.cs_ = b.cs_ ∧ b'.rw = b.rw := by
  have ha : q.clk90Fall.as_ = false := by
    refine Bool.eq_false_iff.mpr fun ha => ?_
    rw [show (x.step q).cycle = none from if_pos ha] at hb'
    exact (Option.not_mem_none b' hb').elim
  obtain ⟨-, h2, h3, h4⟩ := hq.continues b hb ha
  have e : (x.step q).cycle = some
      { addr := q.clk90Fall.addr, cs_ := q.clk90Fall.cs_, rw := q.clk90Fall.rw
        seen := x.cycle.isSome && !(x.chip.atSclkFall q).scsi.ls2cpu } :=
    if_neg (by rw [ha]; exact Bool.false_ne_true)
  rw [e] at hb'
  obtain rfl := Option.some.inj hb'
  exact ⟨ha, h3, h2, h4⟩

section Counter

variable (hC : Coupled x) (hq : BusRules x q)
include hC hq

/-- The counter and its answer at SCLK falling. -/
theorem Coupled.atSclkFall_term {b : BusCycle} (hb : x.cycle = some b) :
    (x.chip.atSclkFall q).regs.termCounter =
        (if b.counted && x.chip.regs.termCounter != 3 then x.chip.regs.termCounter + 1
          else x.chip.regs.termCounter) ∧
      (x.chip.atSclkFall q).regs.dsackTerm_ =
        (if b.counted && x.chip.regs.termCounter == 3 then false else x.chip.regs.dsackTerm_) := by
  have hp := hq.shown
  rw [hb] at hp
  obtain ⟨⟨a1, -⟩, ⟨a2, c2, d2, r2⟩, ⟨a3, -⟩, ⟨a4, -⟩⟩ := hp
  have ho : x.chip.own = false := hC.own.trans (hC.busy (by rw [hb]; rfl)).1
  have h := Chip.atSclkFall_term (hC.live hq) ho (hC.bgack_of_cycle hq hb) ⟨a1, a2, a3, a4⟩
  rw [Pins.offset, c2, d2, r2] at h
  exact h

/-- The counter after the period. -/
theorem Coupled.step_termCounter (hs : (x.step q).cycle.isSome = true) :
    (x.step q).chip.regs.termCounter = (x.chip.atSclkFall q).regs.termCounter ∧
      (x.step q).chip.regs.dsackTerm_ = (x.chip.atSclkFall q).regs.dsackTerm_ := by
  have h := hC.live hq
  have hb := hC.bgack_of_step hq hs
  obtain ⟨b, hb'⟩ := Option.isSome_iff_exists.mp hs
  have hp := hq.follows
  rw [show x.nextCycle q = some b from hb'] at hp
  have ha : q.clk90Fall.as_ = false := by
    refine Bool.eq_false_iff.mpr fun ha => ?_
    rw [show (x.step q).cycle = none from if_pos ha] at hs
    exact Bool.noConfusion hs
  refine ⟨(Chip.period_termCounter h hb).trans ?_, (Chip.period_dsackTerm_ h).trans ?_⟩
  · rw [hp.1, ha]
    rfl
  · rw [hb, hp.1, ha]
    rfl

/-- A cycle begins with the counter clear. -/
theorem Coupled.begun (hc : x.cycle = none) (hs : (x.step q).cycle.isSome = true) :
    (x.step q).chip.regs.termCounter = 0 ∧ (x.step q).chip.regs.dsackTerm_ = true := by
  have h := hC.live hq
  have hb := hC.bgack_of_step hq hs
  have hp := hq.shown.2.2.2
  rw [hc] at hp
  obtain ⟨h1, h2⟩ := hC.step_termCounter hq hs
  rw [h1, h2]
  exact Chip.atSclkFall_term_clear h hb hp

theorem Coupled.step_inRange (hr : InRange x) : InRange (x.step q) := by
  intro hs
  cases hc : x.cycle with
  | none =>
      rw [(hC.begun hq hc hs).1]
      exact Nat.zero_le 3
  | some b =>
      have h3 := hr (by rw [hc]; rfl)
      rw [(hC.step_termCounter hq hs).1, (hC.atSclkFall_term hq hc).1]
      split_ifs with hn
      · have hn : x.chip.regs.termCounter ≠ 3 := by simpa using (Bool.and_eq_true_iff.mp hn).2
        have hlt : x.chip.regs.termCounter.toNat ≠ 3 := fun e => hn (BitVec.eq_of_toNat_eq e)
        rw [BitVec.toNat_add]
        exact Nat.le_trans (Nat.mod_le _ _) (by change x.chip.regs.termCounter.toNat + 1 ≤ 3; omega)
      · exact h3

end Counter

/-- Each clock of a register cycle is counted. -/
theorem CpuRules.step_clocks (hC : Coupled x) (hr : InRange x) (hq : CpuRules x q)
    (hk : x.clocks < 4) : x.cycle.isSome = true ∧ (x.step q).clocks = x.clocks + 1 := by
  -- there is a cycle to count, and no answer yet
  have hcond : (x.cycle.any BusCycle.counted && x.chip.regs.dsackTerm_) = true := by
    refine Bool.eq_true_of_not_eq_false fun hn => ?_
    rw [clocks, hn] at hk
    exact Nat.lt_irrefl 4 hk
  have hk' : x.clocks = x.chip.regs.termCounter.toNat := by rw [clocks, hcond, if_pos rfl]
  obtain ⟨hany, hd⟩ := Bool.and_eq_true_iff.mp hcond
  obtain ⟨b, hb, hcnt⟩ := (Option.any_eq_true ..).mp hany
  have hsome : x.cycle.isSome = true := Option.isSome_iff_exists.mpr ⟨b, hb⟩
  have h3 := hr hsome
  obtain ⟨ht, hterm⟩ := hC.atSclkFall_term hq.bus hb
  rw [hcnt, Bool.true_and, hd] at hterm
  rw [hcnt, Bool.true_and] at ht
  refine ⟨hsome, ?_⟩
  rw [hk']
  by_cases hlast : x.chip.regs.termCounter = 3
  · -- the answer ends the count, whether the CPU ends the cycle at once or not
    rw [hlast, beq_self_eq_true, if_pos rfl] at hterm
    have hcl : (x.step q).clocks = 4 := by
      cases hn : (x.step q).cycle with
      | none => exact clocks_of_none hn
      | some b' =>
          rw [clocks, (hC.step_termCounter hq.bus (by rw [hn]; rfl)).2, hterm, Bool.and_false]
          rfl
    rw [hcl, hlast]
    rfl
  · -- before the answer the cycle goes on
    rw [beq_eq_false_iff_ne.mpr hlast, if_neg Bool.false_ne_true] at hterm
    rw [bne_iff_ne.mpr hlast, if_pos rfl] at ht
    have ha : q.clk90Fall.as_ = false := by
      refine Bool.eq_false_iff.mpr fun ha => ?_
      exact Bool.noConfusion (hterm.symm.trans (hq.registers b hb hcnt ha))
    have hs : (x.step q).cycle.isSome = true := by
      change (x.nextCycle q).isSome = true
      rw [nextCycle, ha]
      rfl
    obtain ⟨b', hb'⟩ := Option.isSome_iff_exists.mp hs
    obtain ⟨-, e1, e2, e3⟩ := hq.bus.continued hb hb'
    have hcnt' : b'.counted = true := by rw [← hcnt, BusCycle.counted, BusCycle.counted, e1, e2, e3]
    obtain ⟨s1, s2⟩ := hC.step_termCounter hq.bus hs
    rw [clocks, hb', Option.any_some, hcnt', s2, hterm, s1, ht]
    change (x.chip.regs.termCounter + 1).toNat = _
    rw [BitVec.toNat_add]
    exact Nat.mod_eq_of_lt (by change x.chip.regs.termCounter.toNat + 1 < 8; omega)

end Cycle

/-! ## §4 What drains in the cycle of the strobe -/

/-- With `DMAENA` clear the transfers of `SCSI_SM` drain within the clocks of a register
cycle. -/
structure Settling (x : System) : Prop where
  cdreq_ : x.chip.scsi.inp.cdreq_ = true
  byte : x.chip.scsi.state.toIdle + x.clocks ≤ 4
  /-- The FIFO is in reset, so a byte that is still on its way steps nothing. -/
  boeq3 : 1 ≤ x.clocks → x.chip.fifo.boeq3 = false
  requests : 2 ≤ x.clocks → x.chip.scsi.rififoO = false ∧ x.chip.scsi.rdfifoO = false

/-- What holds in every reachable state: a strobe changes `DMAENA` in the clock in which its
cycle begins, and a stopped session settles. -/
structure Sound (x : System) : Prop where
  coupled : Coupled x
  inRange : InRange x
  on : x.chip.regs.dmaena = true → x.cycle.any (·.hits 0x3C) = false
  off : x.chip.regs.dmaena = false → x.cycle.any (·.hits 0x10) = false ∧ Settling x

section Settling

variable {x : System} {q : Period}

/-- In reset the byte pointer is not at the last byte. -/
theorem step_boeq3 (h : Chip.Live x.chip q) (hd : x.chip.regs.dmaena = false) :
    (x.step q).chip.fifo.boeq3 = false := by
  change (x.chip.period q).fifo.boeq3 = false
  rw [Fifo.boeq3, Chip.period_bytePtr h, Chip.rstOut_, hd]
  cases x.chip.regs.a1 <;> rfl

/-- With `DMAENA` clear after the period, `SCSI_SM` sees no `_DREQ`. -/
theorem step_cdreq_ (h : Chip.Live x.chip q) (hd : (x.step q).chip.regs.dmaena = false) :
    (x.step q).chip.scsi.inp.cdreq_ = true := by
  have hr : (x.chip.atClk135Fall q).regs.dmaena = (x.chip.period q).regs.dmaena := rfl
  change (x.chip.period q).scsi.inp.cdreq_ = true
  rw [Chip.period_scsi_inp h]
  change (!(x.chip.atClk135Fall q).regs.dmaena || _) = true
  rw [hr, show (x.chip.period q).regs.dmaena = false from hd]
  rfl

theorem Settling.step_toIdle (hS : Settling x) (h : Chip.Live x.chip q) :
    (x.step q).chip.scsi.state.toIdle = x.chip.scsi.state.toIdle - 1 := by
  change (x.chip.period q).scsi.state.toIdle = _
  rw [Chip.period_scsi_state h]
  exact ScsiSm.nextState_toIdle (by rw [Chip.scsiIn_eq h]; exact hS.cdreq_)

/-- A request for a step of `COUNT` is answered in the next clock, unless `CPU_SM` steps. -/
theorem step_requests (h : Chip.Live x.chip q) (hb : x.chip.fifo.boeq3 = false)
    (hs : x.chip.scsi.rififoO = false ∧ x.chip.scsi.rdfifoO = false ∨
      (x.chip.cpuOut q).bgack = false) :
    (x.step q).chip.scsi.rififoO = false ∧ (x.step q).chip.scsi.rdfifoO = false := by
  change (x.chip.period q).scsi.rififoO = false ∧ (x.chip.period q).scsi.rdfifoO = false
  rw [Chip.period_rififoO h, Chip.period_rdfifoO h, Chip.scsiOut_rififo h, Chip.scsiOut_rdfifo h,
    hb, Chip.cpuOut_incfifo h, Chip.cpuOut_decfifo h]
  rcases hs with ⟨h1, h2⟩ | hb
  · rw [h1, h2]
    simp
  · obtain ⟨-, h1, h2, -⟩ := @CpuSm.fifo_of_not_onBus (x.chip.cpuIn q) x.chip.cpu.state
      (.inr (Chip.cpuOut_bgack.symm.trans hb))
    rw [show (x.chip.cpuComb q).intDecfifo = false from h1,
      show (x.chip.cpuComb q).intIncfifo = false from h2, Bool.and_false, Bool.and_false]
    cases x.chip.scsi.rififoO <;> cases x.chip.cpu.out.incfifo <;> cases x.chip.scsi.rdfifoO <;>
      cases x.chip.cpu.out.decfifo <;> exact ⟨rfl, rfl⟩

theorem Settling.step (hS : Settling x) (hC : Coupled x) (hr : InRange x) (hq : CpuRules x q)
    (hd : x.chip.regs.dmaena = false) (hd' : (x.step q).chip.regs.dmaena = false) :
    Settling (x.step q) := by
  have h := hC.live hq.bus
  have hle := (hC.step_inRange hq.bus hr).clocks_le
  have hbyte := hS.byte
  have hidle := hS.step_toIdle h
  by_cases hk : x.clocks < 4
  · obtain ⟨hc, hk'⟩ := CpuRules.step_clocks hC hr hq hk
    have hb : (x.chip.cpuOut q).bgack = false := by
      obtain ⟨b, hb⟩ := Option.isSome_iff_exists.mp hc
      exact hC.bgack_of_cycle hq.bus hb
    refine ⟨step_cdreq_ h hd', by omega, fun _ => step_boeq3 h hd, fun h2 => ?_⟩
    exact step_requests h (hS.boeq3 (by omega)) (.inr hb)
  · refine ⟨step_cdreq_ h hd', by omega, fun _ => step_boeq3 h hd, fun _ => ?_⟩
    exact step_requests h (hS.boeq3 (by omega)) (.inl (hS.requests (by omega)))

/-- The strobe of `SP_DMA` has all of its cycle before it. -/
theorem Coupled.settling_of_fall (hC : Coupled x) (hq : BusRules x q)
    (hon : x.cycle.any (·.hits 0x3C) = false) (hd : x.chip.regs.dmaena = true)
    (hd' : (x.step q).chip.regs.dmaena = false) : Settling (x.step q) := by
  have h := hC.live hq
  have hn : (x.chip.endAccess q).hit 0x3C = true := by
    have hne := Chip.hit_of_dmaena h (fun e => Bool.noConfusion (hd'.symm.trans (e.trans hd)))
    rw [hd] at hne
    exact hne
  have hc := hC.cycle_of_hit hq hon hn
  rw [hC.hit_eq hq] at hn
  obtain ⟨b, hb, hb'⟩ := (Option.any_eq_true ..).mp hn
  obtain ⟨h1, h2⟩ := hC.begun hq hc (Option.isSome_iff_exists.mpr ⟨b, hb⟩)
  have hcnt : b.counted = true := by
    rw [BusCycle.hits, Bool.and_eq_true, beq_iff_eq] at hb'
    rw [BusCycle.counted, hb'.2, (Bool.not_eq_true' _).mp hb'.1]
    cases b.rw <;> decide
  have hk : (x.step q).clocks = 0 := by
    rw [clocks, show (x.step q).cycle = some b from hb, Option.any_some, hcnt, h1, h2]
    rfl
  have hle := (x.step q).chip.scsi.state.toIdle_le
  exact ⟨step_cdreq_ h hd', by omega, fun h0 => by omega, fun h0 => by omega⟩

theorem Sound.step (hI : Sound x) (hq : CpuRules x q) : Sound (x.step q) where
  coupled := hI.coupled.step hq.bus
  inRange := hI.coupled.step_inRange hq.bus hI.inRange
  on hd' := by
    rw [← hI.coupled.hit_eq hq.bus]
    refine Bool.eq_false_iff.mpr fun hn => ?_
    exact Bool.noConfusion (hd'.symm.trans (Chip.dmaena_of_hit (hI.coupled.live hq.bus) false hn))
  off hd' := by
    refine ⟨?_, ?_⟩
    · rw [← hI.coupled.hit_eq hq.bus]
      refine Bool.eq_false_iff.mpr fun hn => ?_
      exact Bool.noConfusion
        (hd'.symm.trans (Chip.dmaena_of_hit (hI.coupled.live hq.bus) true hn))
    · cases hd : x.chip.regs.dmaena with
      | true => exact hI.coupled.settling_of_fall hq.bus (hI.on hd) hd hd'
      | false => exact (hI.off hd).2.step hI.coupled hI.inRange hq hd hd'

end Settling

theorem EngineReset.coupled {x : System} (hx : EngineReset x) : Coupled x := by
  have hnone : ∀ b, b ∉ x.cycle := fun b hb => by
    rw [hx.cycle] at hb
    exact (Option.not_mem_none b hb).elim
  refine Coupled.of_idle hx.awake (.inl hx.cpu_state) hx.cpu_out (.inl hx.scsi_state) hx.asO_ hx.term
    (fun h => ?_) ?_ (fun b hb => (hnone b hb).elim) hx.nls2cpu fun h => ?_
  · rw [hx.cycle] at h
    exact Bool.noConfusion h
  · rw [hx.scsi_inp, hx.cycle]
    rfl
  · exact Bool.noConfusion (hx.dsackTerm_.symm.trans h)

theorem EngineReset.sound {x : System} (hx : EngineReset x) : Sound x where
  coupled := hx.coupled
  inRange hs := by
    rw [hx.cycle] at hs
    exact Bool.noConfusion hs
  on hd := Bool.noConfusion (hx.dmaena.symm.trans hd)
  off _ := by
    refine ⟨by rw [hx.cycle]; rfl, by rw [hx.scsi_inp], ?_, fun _ => ?_, fun _ => ?_⟩
    · rw [hx.scsi_state, clocks_of_none hx.cycle]
      exact Nat.le_refl 4
    · rw [Fifo.boeq3, hx.bytePtr]
      cases x.chip.regs.a1 <;> rfl
    · exact ⟨hx.rififoO, hx.rdfifoO⟩

/-! ## §5 What `CPU_SM` does once stopped -/

/-- `CPU_SM` is idle and has sampled `DMAENA`. -/
structure Halted (flush : Bool) (x : System) : Prop where
  state : x.chip.cpu.state = .s0 ∨ x.chip.cpu.state = .s20
  sampled : x.chip.cpu.inp.dmaena = false
  flushfifo : x.chip.regs.flushfifo = flush

/-- The chip owns the bus with the FIFO in reset. -/
structure Serving (x : System) : Prop where
  onBus : x.chip.cpu.state.onBus = true
  full : x.chip.fifo.full = false
  letgo : x.chip.cpu.state = .letgo → x.chip.regs.flushfifo = false

theorem requesting_of_waiting {x : System} (hw : x.chip.cpu.state.waiting = true) :
    Chip.Requesting x.chip := by
  rcases CpuSm.State.eq_of_waiting hw with e | e
  · exact .inl e
  · exact .inr (.inl e)

section Stopped

variable {x : System} {q : Period} (hC : Coupled x) (hq : CpuRules x q)
  (hd : x.chip.regs.dmaena = false)
include hC hq hd

/-- A stopped engine is not flushed. -/
theorem step_flushfifo :
    (x.step q).chip.regs.flushfifo = (x.chip.regs.flushfifo && !(x.chip.cpuOut q).stopflush) := by
  have hn : (x.chip.endAccess q).flush = false :=
    Bool.eq_false_iff.mpr fun hn => Bool.noConfusion (hd.symm.trans (hq.flush hn))
  exact Chip.NoFlush.flushfifo hn (hC.live hq.bus)

theorem step_full : (x.step q).chip.fifo.full = false := by
  change (x.chip.period q).fifo.full = false
  rw [Fifo.full, Chip.period_count (hC.live hq.bus), Chip.rstOut_, hd]
  rfl

theorem step_sampled : (x.step q).chip.cpu.inp.dmaena = false := by
  change (x.chip.period q).cpu.inp.dmaena = false
  rw [Chip.period_cpu_inp (hC.live hq.bus)]
  exact hd

/-- Idle and not requesting, `CPU_SM` halts; a flush that it does not end stays pending. -/
theorem halted_step (hs : x.chip.cpu.state = .s0 ∨ x.chip.cpu.state = .s20)
    (hr : ¬ Chip.Requesting x.chip) {f : Bool}
    (hf : x.chip.regs.flushfifo = true ∧ ¬ Chip.DropsFlush x.chip ↔ f = true) :
    Halted f (x.step q) := by
  have h := hC.live hq.bus
  have hst : (x.chip.cpuOut q).stopflush = true ↔ Chip.DropsFlush x.chip := by
    have e := CpuSm.stopflush_of_idle (i := x.chip.cpuIn q) hs fun hfull => ?_
    · rw [Chip.cpuIn_eq h] at e
      rw [Chip.DropsFlush, ← e, ← Chip.cpuIn_eq h]
      exact Iff.rfl
    · rw [Chip.cpuIn_eq h] at hfull ⊢
      simp only [Fifo.full_eq, Fifo.empty_eq] at hfull ⊢
      simp_all
  refine ⟨?_, step_sampled hC hq hd, ?_⟩
  · obtain ⟨-, -, hn⟩ := CpuSm.idle_spec (i := x.chip.cpuIn q) hs
    rw [if_neg fun e => hr ((Chip.requests_iff h hs).mp e), ← Chip.period_cpu_state h] at hn
    exact hn
  · rw [step_flushfifo hC hq hd, Bool.eq_iff_iff, ← hf, ← hst]
    simp

theorem Halted.step {f : Bool} (hH : Halted f x) : Halted f (x.step q) := by
  refine halted_step hC hq hd hH.state ?_ ?_
  · rintro (e | e | ⟨e, -⟩)
    · rcases hH.state with e' | e' <;> rw [e'] at e <;> cases e
    · rcases hH.state with e' | e' <;> rw [e'] at e <;> cases e
    · exact Bool.noConfusion (hH.sampled.symm.trans e)
  · rw [hH.flushfifo]
    exact ⟨fun e => e.1, fun e => ⟨e, fun he => Bool.noConfusion (hH.sampled.symm.trans he.1)⟩⟩

omit hd in
/-- A request that is not granted goes on. -/
theorem waiting_step (hr : Chip.Requesting x.chip) (hg : ¬ Granted x) :
    (x.step q).chip.cpu.state.waiting = true := by
  have h := hC.live hq.bus
  change (x.chip.period q).cpu.state.waiting = true
  rw [Chip.period_cpu_state h]
  by_cases hw : x.chip.cpu.state.waiting = true
  · have hn := (CpuSm.waiting_spec (i := x.chip.cpuIn q) hw).2
    rw [if_neg ?_] at hn
    · rw [hn.1]
      exact hw
    · rw [Chip.cpuIn_eq h]
      intro hb
      simp only [Bool.and_eq_true, Bool.not_eq_true'] at hb
      exact hg ⟨hw, hb⟩
  · have hs : x.chip.cpu.state = .s0 ∨ x.chip.cpu.state = .s20 := by
      rcases hr with e | e | ⟨-, ⟨e, -⟩ | ⟨e, -⟩⟩
      · exact absurd (by rw [e]; rfl) hw
      · exact absurd (by rw [e]; rfl) hw
      · exact .inl e
      · exact .inr e
    obtain ⟨-, -, hn⟩ := CpuSm.idle_spec (i := x.chip.cpuIn q) hs
    rw [if_pos ((Chip.requests_iff h hs).mpr hr)] at hn
    exact hn

/-- The grant takes the bus. -/
theorem Granted.step (hg : Granted x) : Serving (x.step q) := by
  have h := hC.live hq.bus
  obtain ⟨hw, hb, hn⟩ := hg
  have e := Chip.period_granted h hw hb hn
  refine ⟨CpuSm.State.onBus_of_granted e, step_full hC hq hd, fun hl => ?_⟩
  rw [show (x.chip.period q).cpu.state = .letgo from hl] at e
  exact Bool.noConfusion e

/-- The chip keeps the bus, or it leaves it with the flush ended. -/
theorem Serving.step (hS : Serving x) : Serving (x.step q) ∨ Halted false (x.step q) := by
  have h := hC.live hq.bus
  have hst := step_cpu_state h
  have hfull : (x.chip.cpuIn q).fifofull = false := by
    rw [Chip.cpuIn_eq h]
    exact hS.full
  cases hon : (x.step q).chip.cpu.state.onBus with
  | true =>
      refine .inl ⟨hon, step_full hC hq hd, fun hl => ?_⟩
      rw [step_flushfifo hC hq hd, show (x.chip.cpuOut q).stopflush = true from
        CpuSm.stopflush_of_nextState_letgo hfull (hst.symm.trans hl), Bool.not_true, Bool.and_false]
  | false =>
      have hl : x.chip.cpu.state = .letgo := by
        rw [hst] at hon
        exact CpuSm.nextState_not_onBus hS.onBus hon
      refine .inr ⟨.inl ?_, step_sampled hC hq hd, ?_⟩
      · rw [hst, hl]
        rfl
      · rw [step_flushfifo hC hq hd, hS.letgo hl, Bool.false_and]

end Stopped

/-! ## §6 Runs of sessions -/

theorem Raises.hit {x : System} {q : Period} (h : Chip.Live x.chip q) (hr : Raises x q) :
    (x.chip.endAccess q).hit 0x10 = true := by
  have hne := Chip.hit_of_dmaena h (fun e => Bool.noConfusion (hr.2.symm.trans (e.trans hr.1)))
  rw [hr.1] at hne
  exact hne

/-- A strobe of the CPU finds and leaves the bus with the CPU. -/
theorem Coupled.offBus_of_hit {x : System} {q : Period} (hC : Coupled x) (hq : BusRules x q)
    {n : BitVec 8} (hn : (x.chip.endAccess q).hit n = true) :
    (x.step q).chip.cpu.state.onBus = false := by
  change (x.chip.period q).cpu.state.onBus = false
  rw [Chip.period_cpu_state (hC.live hq), ← Chip.cpuOut_bgack]
  exact hC.not_bgack_of_hit hq hn

/-- At `ST_DMA` only `CPU_SM` and `FLUSHFIFO` are in question. -/
theorem Sound.sessionStart_iff {x : System} {q : Period} (hI : Sound x) (hq : CpuRules x q)
    (hr : Raises x q) : Chip.SessionStart (x.step q).chip ↔ Halted false (x.step q) := by
  have h := hI.coupled.live hq.bus
  obtain ⟨hd, hd'⟩ := hr
  refine ⟨fun hs => ⟨hs.cpu_state, step_sampled hI.coupled hq hd, hs.flushfifo⟩, fun hH => ?_⟩
  -- the strobe begins its cycle, so the transfers have settled
  have hn := Raises.hit h ⟨hd, hd'⟩
  obtain ⟨hoff, hS⟩ := hI.off hd
  have hk := clocks_of_none (hI.coupled.cycle_of_hit hq.bus hoff hn)
  have hreq := hS.requests (by omega)
  obtain ⟨hri, hrd⟩ := step_requests h (hS.boeq3 (by omega)) (.inl hreq)
  have hb := hI.coupled.not_bgack_of_hit hq.bus hn
  obtain ⟨-, hdec, hinc, -⟩ := @CpuSm.fifo_of_not_onBus (x.chip.cpuIn q) x.chip.cpu.state
    (.inr (Chip.cpuOut_bgack.symm.trans hb))
  have hrst : x.chip.rstOut_ q = false := by rw [Chip.rstOut_, hd]; rfl
  have hout : (x.step q).chip.cpu.out = x.chip.cpuOut q := Chip.period_cpu_out h
  have hst := step_cpu_state h
  refine ⟨hH.state, ?_, by rw [hout, hb], ?_, hri, hrd, ?_, ?_, ?_, ?_, ?_, ?_, hH.flushfifo⟩
  · rw [hout]
    apply CpuSm.not_breq
    · rcases hH.state with e | e <;> rw [← hst, e] <;> rfl
    · rcases hH.state with e | e <;> rw [← hst, e] <;> rfl
  · have hbyte := hS.byte
    rw [hS.step_toIdle h]
    omega
  · rw [hout, Chip.cpuOut_incfifo h, hreq.1, show (x.chip.cpuComb q).intIncfifo = false from hinc]
    simp
  · rw [hout, Chip.cpuOut_decfifo h, hreq.2, show (x.chip.cpuComb q).intDecfifo = false from hdec]
    simp
  · change (x.chip.period q).fifo.count = 0
    rw [Chip.period_count h, hrst]
    rfl
  · change (x.chip.period q).fifo.writePtr = 0
    rw [Chip.period_writePtr h, hrst]
    rfl
  · change (x.chip.period q).fifo.readPtr = 0
    rw [Chip.period_readPtr h, hrst]
    rfl
  · have ha : (x.chip.endAccess q).acrWr = false := by
      rw [Access.acrWr, Access.wr, Access.hit_unique hn (by decide), Bool.false_and]
    have hp : (x.chip.cpuOut q).pas = false := (CpuSm.not_bgack_spec hb).2
    change (x.chip.period q).fifo.bytePtr = if (x.chip.period q).regs.a1 then 2 else 0
    rw [Chip.period_bytePtr h, hrst, Chip.period_a1 h, ha, hp]
    rfl

/-- What a stop has left with `CPU_SM` is done with: the request that it finds is granted in
the periods that follow, and the flush is ended by the tenure or in the next clock. -/
def Resolved (y : System) (qs : List Period) : Prop :=
  (Chip.Requesting y.chip → ¬ Runs.Along step (fun z _ => ¬ Granted z) y qs) ∧
    (y.chip.regs.flushfifo = true → Chip.Requesting y.chip ∨ Chip.DropsFlush y.chip)

section Stop

variable {y : System} {qs : List Period} {q : Period}

/-- A stopped engine keeps to the rules, with `DMAENA` clear. -/
def Off (y : System) (q : Period) : Prop := CpuRules y q ∧ y.chip.regs.dmaena = false

theorem run_halted {f : Bool} (hI : Sound y) (hH : Halted f y)
    (hr : Runs.Along step Off y qs) : Halted f (Runs.run step y qs) :=
  (Runs.invariant_run (I := fun z => Sound z ∧ Halted f z)
    (fun _ _ h hq => ⟨h.1.step hq.1, h.2.step h.1.coupled hq.1 hq.2⟩) ⟨hI, hH⟩ hr).2

theorem run_serving (hI : Sound y) (hS : Serving y) (hr : Runs.Along step Off y qs) :
    Serving (Runs.run step y qs) ∨ Halted false (Runs.run step y qs) := by
  refine (Runs.invariant_run (I := fun z => Sound z ∧ (Serving z ∨ Halted false z))
    (fun z q h hq => ⟨h.1.step hq.1, ?_⟩) ⟨hI, .inl hS⟩ hr).2
  rcases h.2 with hS | hH
  · exact hS.step h.1.coupled hq.1 hq.2
  · exact .inr (hH.step h.1.coupled hq.1 hq.2)

theorem run_requesting (hI : Sound y) (hq : Chip.Requesting y.chip)
    (hr : Runs.Along step Off y qs) (hg : Runs.Along step (fun z _ => ¬ Granted z) y qs) :
    Chip.Requesting (Runs.run step y qs).chip := by
  refine (Runs.invariant_run (I := fun z => Sound z ∧ Chip.Requesting z.chip)
    (fun z q h hq => ⟨h.1.step hq.1.1, ?_⟩) ⟨hI, hq⟩ (hr.and hg)).2
  exact requesting_of_waiting (waiting_step h.1.coupled hq.1.1 h.2 hq.2)

/-- One stop of the engine and the next start. -/
theorem Sound.start_iff (hI : Sound y) (hoff : y.chip.cpu.state.onBus = false)
    (hr : Runs.Along System.step Off y (qs ++ [q])) (hst : Raises (Runs.run System.step y qs) q) :
    Chip.SessionStart ((Runs.run System.step y qs).step q).chip ↔ Resolved y qs := by
  obtain ⟨hqs, hq, -⟩ := Runs.along_append.mp hr
  have hx : Sound (Runs.run System.step y qs) :=
    Runs.invariant_run (fun _ _ hI hq => hI.step hq.1) hI hqs
  have hz : Runs.run System.step y (qs ++ [q]) = (Runs.run System.step y qs).step q :=
    Runs.run_append
  -- the CPU owns the bus
  have hfree : ((Runs.run System.step y qs).step q).chip.cpu.state.onBus = false :=
    hx.coupled.offBus_of_hit hq.1.bus (hst.hit (hx.coupled.live hq.1.bus))
  rw [hx.sessionStart_iff hq.1 hst]
  by_cases hreq : Chip.Requesting y.chip
  · by_cases hg : Runs.Along System.step (fun z _ => ¬ Granted z) y qs
    · -- the request is still waiting
      have hw : ((Runs.run System.step y qs).step q).chip.cpu.state.waiting = true := by
        apply waiting_step hx.coupled hq.1 (run_requesting hI hreq hqs hg)
        intro hgr
        exact Bool.noConfusion (hfree.symm.trans (hgr.step hx.coupled hq.1 hq.2).onBus)
      refine iff_of_false (fun hH => ?_) fun hR => hR.1 hreq hg
      rcases hH.state with e | e <;> rw [e] at hw <;> exact Bool.noConfusion hw
    · -- the tenure of the request has ended
      obtain ⟨js, i, ks, rfl, hgr⟩ := Runs.exists_of_not_along hg
      refine iff_of_true ?_ ⟨fun _ => hg, fun _ => .inl hreq⟩
      rw [List.append_assoc, List.cons_append] at hr hz
      obtain ⟨hjs, hi, hks⟩ := Runs.along_append.mp hr
      have hj : Sound (Runs.run System.step y js) :=
        Runs.invariant_run (fun _ _ hI hq => hI.step hq.1) hI hjs
      rw [← hz, Runs.run_append] at hfree ⊢
      rcases run_serving (hj.step hi.1)
        ((Classical.not_not.mp hgr).step hj.coupled hi.1 hi.2) hks with hS | hH
      · exact Bool.noConfusion (hfree.symm.trans hS.onBus)
      · exact hH
  · -- `CPU_SM` was idle, and stays so with what is left of the flush
    have hidle : y.chip.cpu.state = .s0 ∨ y.chip.cpu.state = .s20 := by
      rcases CpuSm.State.cases_of_not_onBus hoff with hs | hs | hs
      · exact .inl hs
      · exact .inr hs
      · exact absurd (requesting_of_waiting hs) hreq
    obtain ⟨r, rs, hcons⟩ : ∃ r rs, qs ++ [q] = r :: rs :=
      List.exists_cons_of_ne_nil (List.append_ne_nil_of_right_ne_nil qs (List.cons_ne_nil q []))
    rw [hcons] at hr hz
    have hH := run_halted (hI.step hr.1.1) (halted_step hI.coupled hr.1.1 hr.1.2 hidle hreq
      (decide_eq_true_iff (p := y.chip.regs.flushfifo = true ∧ ¬ Chip.DropsFlush y.chip)).symm) hr.2
    rw [show Runs.run System.step (y.step r) rs = (Runs.run System.step y qs).step q from hz] at hH
    constructor
    · intro hH'
      refine ⟨fun h => absurd h hreq, fun hf => .inr ?_⟩
      by_contra he
      have hfalse := hH'.flushfifo.symm.trans hH.flushfifo
      rw [decide_eq_true (p := _ ∧ _) ⟨hf, he⟩] at hfalse
      exact Bool.noConfusion hfalse
    · intro hR
      refine ⟨hH.state, hH.sampled, hH.flushfifo.trans (decide_eq_false ?_)⟩
      rintro ⟨hf, he⟩
      rcases hR.2 hf with h | h
      · exact hreq h
      · exact he h

end Stop

/-- The run `rs` is `ps`, up to and with the last fall of `DMAENA` (empty when there was none
after reset), and then `qs` with `DMAENA` clear. -/
structure LastStop (x : System) (rs ps qs : List Period) : Prop where
  split : rs = ps ++ qs
  stop : ∀ ps' p, ps = ps' ++ [p] → (Runs.run System.step x ps').chip.regs.dmaena = true
  off : Runs.Along System.step (fun y _ => y.chip.regs.dmaena = false)
    (Runs.run System.step x ps) qs

theorem LastStop.exists {x : System} {rs : List Period}
    (hd : (Runs.run System.step x rs).chip.regs.dmaena = false) : ∃ ps qs, LastStop x rs ps qs := by
  obtain ⟨ps, qs, hsplit, hstop, hoff⟩ := Runs.exists_stretch
    (p := fun y : System => y.chip.regs.dmaena = true) (by rw [hd]; exact Bool.false_ne_true)
  exact ⟨ps, qs, hsplit, hstop, hoff.mono fun _ _ h => Bool.eq_false_iff.mpr h⟩

/-- After the stop, or after reset, the CPU owns the bus. -/
theorem LastStop.offBus {x : System} (hx : EngineReset x) {rs ps qs : List Period}
    (hl : LastStop x rs ps qs) (hr : Runs.Along System.step CpuRules x ps)
    (hd : (Runs.run System.step x ps).chip.regs.dmaena = false) :
    (Runs.run System.step x ps).chip.cpu.state.onBus = false := by
  rcases List.eq_nil_or_concat ps with rfl | ⟨ps', p, rfl⟩
  · rw [Runs.run_nil, hx.cpu_state]
    rfl
  · rw [List.concat_eq_append] at hr hd hl ⊢
    obtain ⟨hps', hp, -⟩ := Runs.along_append.mp hr
    have hI : Sound (Runs.run System.step x ps') :=
      Runs.invariant_run (fun _ _ hI hq => hI.step hq) hx.sound hps'
    rw [Runs.run_append] at hd ⊢
    have hne := Chip.hit_of_dmaena (hI.coupled.live hp.bus)
      (fun e => Bool.noConfusion ((hd.symm.trans e).trans (hl.stop ps' p rfl)))
    exact hI.coupled.offBus_of_hit hp.bus hne

/-- **Sessions are isolated from each other** exactly when `CPU_SM` is done with the last one.
In every run after reset and at every `ST_DMA` that raises `DMAENA`, the engine is in the state
in which a session is to start if and only if a bus request that the last stop has found was
granted before `ST_DMA`, and a flush that it has found was ended with the request or in the next
clock. -/
theorem sessions_isolated_iff {x : System} (hx : EngineReset x) {rs : List Period} {q : Period}
    (hr : Runs.Along System.step CpuRules x (rs ++ [q]))
    (hst : Raises (Runs.run System.step x rs) q) :
    (∃ ps qs, LastStop x rs ps qs) ∧ ∀ ps qs, LastStop x rs ps qs →
      (Chip.SessionStart ((Runs.run System.step x rs).step q).chip ↔
        Resolved (Runs.run System.step x ps) qs) := by
  refine ⟨LastStop.exists hst.1, fun ps qs hl => ?_⟩
  obtain rfl := hl.split
  rw [List.append_assoc] at hr
  obtain ⟨hps, hqs⟩ := Runs.along_append.mp hr
  rw [Runs.run_append] at hst ⊢
  have hI : Sound (Runs.run System.step x ps) :=
    Runs.invariant_run (fun _ _ hI hq => hI.step hq) hx.sound hps
  have hoff : Runs.Along System.step (fun y _ => y.chip.regs.dmaena = false)
      (Runs.run System.step x ps) (qs ++ [q]) := Runs.along_append.mpr ⟨hl.off, hst.1, trivial⟩
  have hd : (Runs.run System.step x ps).chip.regs.dmaena = false := by
    cases qs with
    | nil => exact hst.1
    | cons r rs => exact hl.off.1
  exact hI.start_iff (hl.offBus hx hps hd) (hqs.and hoff) hst

/-- A session is started, the CPU stops it, and the next one is started. -/
def twoSessions : List Period := strobe 0x04 :: answered 0x04 ++ strobe 0x0F :: answered 0x0F

theorem sessions_isolated_iff_reset :
    (∃ ps qs, LastStop reset twoSessions ps qs) ∧ ∀ ps qs, LastStop reset twoSessions ps qs →
      (Chip.SessionStart ((Runs.run System.step reset twoSessions).step (strobe 0x04)).chip ↔
        Resolved (Runs.run System.step reset ps) qs) :=
  sessions_isolated_iff reset_reset.toEngineReset (by decide +kernel) (by decide +kernel)

/-- `SP_DMA` with a flush that is still to be granted the bus. -/
def stoppedFlush : List Period :=
  strobe 0x04 :: answered 0x04 ++ strobe 0x05 :: answered 0x05 ++ strobe 0x0F :: answered 0x0F

/-- The flush asks for the bus, `SP_DMA` and `ST_DMA` are strobed before the grant: the second
session starts in the middle of the first one's flush. -/
theorem sessions_not_isolated :
    ¬ ∀ x, Reset x → ∀ rs q, Runs.Along System.step CpuRules x (rs ++ [q]) →
      Raises (Runs.run System.step x rs) q →
        Chip.SessionStart ((Runs.run System.step x rs).step q).chip := by
  intro h
  have hs := (h reset reset_reset stoppedFlush (strobe 0x04) (by decide +kernel)
    (by decide +kernel)).flushfifo
  revert hs
  decide +kernel

end System

end Resdmac
