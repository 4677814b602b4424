import Mathlib.Data.Prod.Lex
import Resdmac.FlushStream
import Resdmac.Tenure
import Resdmac.WriteStream

/-!
# A Session Goes On

Neither machine waits for the other for ever: a full FIFO is drained and an empty one is
filled, as long as the bus is granted again and again, memory answers and the WD33C93 asks.
What is waited for is the grant or the answer of memory; everything else takes a number of
clocks that is counted here.

## Main definitions

- `System.stage` — the clocks of `CPU_SM` to the next entry, waits not counted
- `System.Granting`, `System.Demanding` — what the bus arbiter and the WD33C93 keep to

## Main results

- `System.read_session_goes_on` — the bytes written to memory grow without bound
- `System.write_session_goes_on` — so do the bytes given to the WD33C93
-/

namespace Resdmac

open Chip (Period)

namespace CpuSm

/-! ## §1 The way to the next entry -/

/-- The place on the way to the bus, and on it on the way through the entry. -/
def State.heading (dmadir : Bool) : State → ℕ
  | .letgo => 14
  | .s0 => if dmadir then 12 else 13
  | .s20 => if dmadir then 13 else 12
  | .s1 | .s21 => 11
  | st => st.rank

theorem State.heading_of_waiting {st : State} {d : Bool} (h : st.waiting = true) :
    st.heading d = 11 := by
  rcases State.eq_of_waiting h with rfl | rfl <;> rfl

theorem State.heading_of_onBus {st : State} {d : Bool} (h : st.onBus = true)
    (hl : st ≠ .letgo) : st.heading d = st.rank := by
  cases st <;> first | rfl | exact Bool.noConfusion h | exact absurd rfl hl

theorem State.not_waiting_of_onBus {st : State} (h : st.onBus = true) : st.waiting = false := by
  cases st <;> first | rfl | exact Bool.noConfusion h

theorem State.cases (st : State) :
    (st = .s0 ∨ st = .s20 ∨ st = .letgo) ∨ st.waiting = true ∨ st.onBus = true ∧ st ≠ .letgo := by
  cases st <;> simp [State.waiting, State.onBus]

section Moves

variable {i : Inputs} {st : State}

/-- Off the bus `CPU_SM` comes to the request that is due. -/
theorem heading_of_idle (hs : st = .s0 ∨ st = .s20 ∨ st = .letgo) (he : i.dmaena = true)
    (hr : i.dmadir = true → i.fifofull = true ∨ i.flushfifo = true ∧ i.fifoempty = false)
    (hw : i.dmadir = false → i.fifoempty = true ∧ i.ndreq = false) :
    (nextState i st).heading i.dmadir < st.heading i.dmadir := by
  cases hd : i.dmadir with
  | true =>
      rcases hr hd with hf | ⟨hf, hne⟩
      · rcases hs with rfl | rfl | rfl <;> simp [nextState, he, hd, hf, State.heading]
      · rcases hs with rfl | rfl | rfl <;> cases h8 : i.fifofull <;>
          simp [nextState, he, hd, hf, hne, h8, State.heading]
  | false =>
      obtain ⟨h1, h2⟩ := hw hd
      rcases hs with rfl | rfl | rfl <;> simp [nextState, he, hd, h1, h2, State.heading]

theorem State.granted_rank {st : State} (h : st.granted = true) :
    st.onBus = true ∧ st ≠ .letgo := by
  cases st <;> first | exact ⟨rfl, State.noConfusion⟩ | exact Bool.noConfusion h

/-- The bus is left when the FIFO is empty or full. -/
theorem nextState_eq_letgo (h : nextState i st = .letgo) :
    st = .s15 ∧ i.fifoempty = true ∨ st = .s35 ∧ i.fifofull = true := by
  cases st <;> simp only [nextState] at h <;> (repeat' split at h) <;> simp_all

end Moves

end CpuSm

/-- The bus is granted and nobody uses it. -/
structure Pins.Free (p : Pins) : Prop where
  bg_ : p.bg_ = false
  bgack_ : p.bgack_ = true
  as_ : p.as_ = true
  dsack : p.dsack0_ = true ∧ p.dsack1_ = true
  sterm_ : p.sterm_ = true
  berr_ : p.berr_ = true
  flashTerm : p.flashTerm = false

namespace Chip

/-- `CPU_SM` has an entry to move: the FIFO is full or flushed, or it is empty and the
WD33C93 asks. -/
structure Due (s : Chip) : Prop where
  dmaena : s.cpu.inp.dmaena = true
  lastword : s.lastword = false
  drain : s.regs.ndmadir = false →
    1 ≤ s.fifo.level ∧ (s.fifo.level = 8 ∨ s.cpu.inp.flushfifo = true) ∧ s.cpu.state ≠ .s35
  fill : s.regs.ndmadir = true →
    s.fifo.level = 0 ∧ s.cpu.inp.dreq_ = false ∧ s.cpu.state ≠ .s15 ∧ s.cpu.state ≠ .s35

theorem Quiet.lastword {s : Chip} (hz : Quiet s) : s.lastword = false := by
  rw [Chip.lastword, hz.1, Bool.and_false, Bool.false_and]

theorem ncycledone_of_free {s : Chip} {q : Period} (h : Live s q)
    (hb : (s.cpuOut q).bgack = false) (hf : q.clk135Rise.Free) : s.ncycledone q = false := by
  have ho : (s.atClk135Rise q).own = false := by
    rw [atClk135Rise_eq h]
    exact hb
  have ha : (s.atClk135Rise q).asI_ q.clk135Rise = true := by
    rw [asI_, ho]
    exact hf.as_
  have hd : (s.atClk135Rise q).dsackInt q.clk135Rise = true := by
    rw [atClk135Rise_eq h] at ha ⊢
    exact dsackInt_clear ha hf.flashTerm
  rw [ncycledone, cpuClocked, bgackI_, ho, ha, dsk0In_, dsk1In_, hd, hf.bgack_, hf.dsack.1,
    hf.dsack.2, hf.sterm_, hf.berr_]
  rfl

end Chip

namespace System

/-- What `CPU_SM` may have to wait for. -/
inductive Awaited where
  | grant | answer

def awaits (x : System) : Awaited := if x.chip.cpu.state.waiting then .grant else .answer

/-- What is waited for happens in the period. -/
def Happens : Awaited → System → Period → Prop
  | .grant, x, q => x.chip.cpu.out.breq = true → q.clk135Rise.Free
  | .answer, x, q => x.chip.asO_ = false → q.clk90Rise.term ≠ .wait

/-- The clocks of `CPU_SM` to the next entry, with those that ask for the bus and that take
the answer of memory in. -/
def stage (x : System) : ℕ :=
  4 * x.chip.cpu.state.heading x.chip.regs.dmadir +
    if x.chip.cpu.state.waiting then
      2 * (!x.chip.cpu.out.breq).toNat +
        (x.chip.cpu.inp.bgrant_ || x.chip.cpu.inp.ncycledone).toNat
    else (!x.term.isDsack).toNat

theorem stage_of_not_waiting {x : System} (h : x.chip.cpu.state.waiting = false) :
    4 * x.chip.cpu.state.heading x.chip.regs.dmadir ≤ x.stage ∧
      x.stage ≤ 4 * x.chip.cpu.state.heading x.chip.regs.dmadir + 1 := by
  have h4 := Bool.toNat_le (!x.term.isDsack)
  rw [stage, h, if_neg Bool.false_ne_true]
  omega

section Stage

variable {x : System} {q : Period} (hC : Coupled x) (hq : BusRules x q)
  (hs : Chip.InSession x.chip q) (hd : Chip.Due x.chip)
include hC hq hs

theorem step_dmadir : (x.step q).chip.regs.dmadir = x.chip.regs.dmadir :=
  congrArg (! ·) (Chip.session_ndmadir (hC.live hq) hs)

/-- A request is seen by the arbiter one clock later, and the grant is sampled a clock
before it is used. -/
theorem stage_of_waiting (hw : x.chip.cpu.state.waiting = true) :
    (x.step q).stage < x.stage ∨
      (x.step q).stage = x.stage ∧ awaits (x.step q) = awaits x ∧ ¬ Happens (awaits x) x q := by
  have h := hC.live hq
  have hst : (x.step q).chip.cpu.state = CpuSm.nextState (x.chip.cpuIn q) x.chip.cpu.state :=
    Chip.period_cpu_state h
  have hdir := step_dmadir hC hq hs
  have hx : x.stage = 44 + (2 * (!x.chip.cpu.out.breq).toNat +
      (x.chip.cpu.inp.bgrant_ || x.chip.cpu.inp.ncycledone).toNat) := by
    rw [stage, hw, if_pos rfl, CpuSm.State.heading_of_waiting hw]
  have hn := (CpuSm.waiting_spec (i := x.chip.cpuIn q) hw).2
  split_ifs at hn with hg
  · -- the bus is granted
    obtain ⟨hon, hl⟩ := CpuSm.State.granted_rank hn.1
    rw [← hst] at hon hl
    have hle := (stage_of_not_waiting (CpuSm.State.not_waiting_of_onBus hon)).2
    rw [CpuSm.State.heading_of_onBus hon hl] at hle
    have hr := (x.step q).chip.cpu.state.rank_le
    exact .inl (by omega)
  · have hw' : (x.step q).chip.cpu.state.waiting = true := by rw [hst, hn.1]; exact hw
    have hbreq : (x.step q).chip.cpu.out.breq = true := by
      change (x.chip.period q).cpu.out.breq = true
      rw [Chip.period_cpu_out h]
      exact CpuSm.breq_of_waiting hw
    have hx' : (x.step q).stage = 44 + ((x.step q).chip.cpu.inp.bgrant_ ||
        (x.step q).chip.cpu.inp.ncycledone).toNat := by
      rw [stage, hw', if_pos rfl, CpuSm.State.heading_of_waiting hw', hbreq]
      simp
    have hno : (x.chip.cpu.inp.bgrant_ || x.chip.cpu.inp.ncycledone) = true := by
      rw [Chip.cpuIn_eq h] at hg
      revert hg
      cases x.chip.cpu.inp.bgrant_ <;> cases x.chip.cpu.inp.ncycledone <;> simp
    rw [hno, Bool.toNat_true] at hx
    have hle := Bool.toNat_le ((x.step q).chip.cpu.inp.bgrant_ ||
      (x.step q).chip.cpu.inp.ncycledone)
    cases hb : x.chip.cpu.out.breq with
    | false =>
        rw [hb, Bool.not_false, Bool.toNat_true] at hx
        exact .inl (by omega)
    | true =>
        rw [hb, Bool.not_true, Bool.toNat_false] at hx
        cases hg' : ((x.step q).chip.cpu.inp.bgrant_ || (x.step q).chip.cpu.inp.ncycledone) with
        | false =>
            rw [hg', Bool.toNat_false] at hx'
            exact .inl (by omega)
        | true =>
            rw [hg', Bool.toNat_true] at hx'
            refine .inr ⟨by omega, by rw [awaits, awaits, hw, hw'], fun hj => ?_⟩
            rw [awaits, hw] at hj
            have hf : q.clk135Rise.Free := hj hb
            have hbg : (x.chip.cpuOut q).bgack = false := hn.2
            have e : (x.step q).chip.cpu.inp = _ := Chip.period_cpu_inp h
            rw [e, Chip.ncycledone_of_free h hbg hf] at hg'
            simp only [hf.bg_] at hg'
            exact Bool.noConfusion hg'

omit hs in
/-- A cycle in progress takes in the answer of memory. -/
theorem stage_of_waits (hon : x.chip.cpu.state.strobing = true)
    (hn : CpuSm.nextState (x.chip.cpuIn q) x.chip.cpu.state = x.chip.cpu.state)
    (hp : (x.chip.cpuOut q).pas = true) (ht : q.clk90Rise.term.isSterm = false)
    (hprev : x.term.isDsack = false) (hdir : (x.step q).chip.regs.dmadir = x.chip.regs.dmadir) :
    (x.step q).stage < x.stage ∨
      (x.step q).stage = x.stage ∧ awaits (x.step q) = awaits x ∧ ¬ Happens (awaits x) x q := by
  have h := hC.live hq
  have hst : (x.step q).chip.cpu.state = x.chip.cpu.state := (Chip.period_cpu_state h).trans hn
  have hw := CpuSm.State.not_waiting_of_onBus (CpuSm.State.onBus_of_strobing hon)
  have hO : x.chip.asO_ = false := by rw [hC.asO_, hon]; rfl
  have hx : x.stage = 4 * x.chip.cpu.state.heading x.chip.regs.dmadir + 1 := by
    rw [stage, hw, if_neg Bool.false_ne_true, hprev]
    rfl
  have hx' : (x.step q).stage =
      4 * x.chip.cpu.state.heading x.chip.regs.dmadir + (!(x.step q).term.isDsack).toNat := by
    rw [stage, hst, hdir, hw, if_neg Bool.false_ne_true]
  have hterm : (x.step q).term = q.sclkFall.term := by
    change (if !x.chip.asO_ && !(x.chip.period q).asO_ then q.sclkFall.term else .wait) = _
    rw [hO, Chip.period_asO_ h, hp]
    rfl
  -- an answer that is there at CLK90 is still there when `DSACK` is latched
  obtain ⟨-, -, -, hheld⟩ := hq.answers hO
  cases hd : (x.step q).term.isDsack with
  | true =>
      rw [hd, Bool.not_true, Bool.toNat_false] at hx'
      exact .inl (by omega)
  | false =>
      rw [hd, Bool.not_false, Bool.toNat_true] at hx'
      refine .inr ⟨by omega, by rw [awaits, awaits, hst], fun hj => ?_⟩
      rw [awaits, hw] at hj
      have hne : q.clk90Rise.term ≠ .wait := hj hO
      have hds : q.clk90Rise.term.isDsack = true := by
        revert ht hne
        cases q.clk90Rise.term <;> simp [Term.isSterm, Term.isDsack]
      rw [hterm, hheld.eq hds, hds] at hd
      exact Bool.noConfusion hd

include hd

/-- Off the bus `CPU_SM` goes on to its request. -/
theorem stage_of_idle (hidle : x.chip.cpu.state = .s0 ∨ x.chip.cpu.state = .s20 ∨
    x.chip.cpu.state = .letgo) : (x.step q).stage < x.stage := by
  have h := hC.live hq
  have ei := Chip.cpuIn_eq h
  have hst : (x.step q).chip.cpu.state = CpuSm.nextState (x.chip.cpuIn q) x.chip.cpu.state :=
    Chip.period_cpu_state h
  have hfull : x.chip.fifo.full = decide (x.chip.fifo.level = 8) := Fifo.full_eq _
  have hempty : x.chip.fifo.empty = decide (x.chip.fifo.level = 0) := Fifo.empty_eq _
  have hlt : (x.step q).chip.cpu.state.heading x.chip.regs.dmadir <
      x.chip.cpu.state.heading x.chip.regs.dmadir := by
    have hi := CpuSm.heading_of_idle (i := x.chip.cpuIn q) hidle (by rw [ei]; exact hd.dmaena)
      (fun hdm => by
        have e : x.chip.regs.ndmadir = false := Bool.not_inj ((congrArg _ ei).symm.trans hdm)
        obtain ⟨h1, hfl, -⟩ := hd.drain e
        rw [ei]
        refine hfl.imp (fun h8 => hfull.trans (decide_eq_true h8)) fun hf => ⟨hf, ?_⟩
        exact hempty.trans (decide_eq_false (by omega)))
      (fun hdm => by
        have e : x.chip.regs.ndmadir = true := Bool.not_inj ((congrArg _ ei).symm.trans hdm)
        rw [ei]
        exact ⟨hempty.trans (decide_eq_true (hd.fill e).1), (hd.fill e).2.1⟩)
    have edir : (x.chip.cpuIn q).dmadir = x.chip.regs.dmadir := by rw [ei]
    rw [hst, ← edir]
    exact hi
  have hnw : x.chip.cpu.state.waiting = false := by
    rcases hidle with e | e | e <;> rw [e] <;> rfl
  have h1 := (stage_of_not_waiting hnw).1
  -- a step of the heading outweighs whatever the next state has to wait for
  have h2 : (x.step q).stage ≤ 4 * (x.step q).chip.cpu.state.heading x.chip.regs.dmadir + 3 := by
    have hb1 := Bool.toNat_le (!(x.step q).chip.cpu.out.breq)
    have hb2 := Bool.toNat_le ((x.step q).chip.cpu.inp.bgrant_ ||
      (x.step q).chip.cpu.inp.ncycledone)
    have hb3 := Bool.toNat_le (!(x.step q).term.isDsack)
    rw [stage, step_dmadir hC hq hs]
    split_ifs <;> omega
  omega

omit hs in
/-- While an entry is due, the bus is not given up. -/
theorem not_letgo_of_due : (x.step q).chip.cpu.state ≠ .letgo := by
  have h := hC.live hq
  have hst : (x.step q).chip.cpu.state = CpuSm.nextState (x.chip.cpuIn q) x.chip.cpu.state :=
    Chip.period_cpu_state h
  have hempty : x.chip.fifo.empty = decide (x.chip.fifo.level = 0) := Fifo.empty_eq _
  intro he
  rw [hst] at he
  rcases CpuSm.nextState_eq_letgo he with ⟨e, hf⟩ | ⟨e, hf⟩
  · rw [Chip.cpuIn_eq h] at hf
    have h0 := of_decide_eq_true (hempty.symm.trans hf)
    cases hn : x.chip.regs.ndmadir with
    | true => exact (hd.fill hn).2.2.1 e
    | false =>
        have h1 := (hd.drain hn).1
        omega
  · cases hn : x.chip.regs.ndmadir with
    | true => exact (hd.fill hn).2.2.2 e
    | false => exact (hd.drain hn).2.2 e

/-- A period moves an entry, brings `CPU_SM` nearer to it, or waits. -/
theorem stage_step (hr : RepeatsByDsack x q) :
    (x.chip.cpuComb q).intDecfifo = true ∨ (x.chip.cpuComb q).intIncfifo = true ∨
      (x.step q).stage < x.stage ∨
      (x.step q).stage = x.stage ∧ awaits (x.step q) = awaits x ∧ ¬ Happens (awaits x) x q := by
  have h := hC.live hq
  have hst : (x.step q).chip.cpu.state = CpuSm.nextState (x.chip.cpuIn q) x.chip.cpu.state :=
    Chip.period_cpu_state h
  rcases x.chip.cpu.state.cases with hidle | hw | ⟨hon, hl⟩
  · exact .inr (.inr (.inl (stage_of_idle hC hq hs hd hidle)))
  · exact .inr (.inr (stage_of_waiting hC hq hs hw))
  · -- on the bus: through the entry
    have hnext : (x.step q).chip.cpu.state.onBus = true := by
      rw [hst]
      exact Bool.eq_true_of_not_eq_false fun he => hl (CpuSm.nextState_not_onBus hon he)
    have hmove : CpuSm.Move (x.chip.cpuIn q) x.term q.clk90Rise.term x.chip.cpu.state := by
      cases hstr : x.chip.cpu.state.strobing with
      | true => exact CpuSm.move_of_strobing (hC.answered hq hstr) hstr hr
      | false => exact CpuSm.move_of_not_strobing hon hstr (hst ▸ hnext)
    rcases hmove with ⟨hstr, hn, hp, -, ht, hprev⟩ | ⟨hrank, -⟩ | ⟨-, hdec, -⟩ | ⟨-, -, hinc, -⟩ |
      ⟨-, hlast, -⟩
    · have hdir := step_dmadir hC hq hs
      exact .inr (.inr (stage_of_waits hC hq hstr hn hp ht hprev hdir))
    · have h1 := (stage_of_not_waiting (CpuSm.State.not_waiting_of_onBus hon)).1
      have h2 := (stage_of_not_waiting (CpuSm.State.not_waiting_of_onBus hnext)).2
      rw [CpuSm.State.heading_of_onBus hon hl] at h1
      rw [CpuSm.State.heading_of_onBus hnext (not_letgo_of_due hC hq hd)] at h2
      rw [← hst] at hrank
      exact .inr (.inr (.inl (by omega)))
    · exact .inl hdec
    · exact .inr (.inl hinc)
    · rw [Chip.cpuIn_eq h] at hlast
      exact Bool.noConfusion (hd.lastword.symm.trans hlast)

end Stage

end System

namespace ScsiSm

/-! ## §2 The way to the next byte -/

/-- The clocks in which a byte or an access of the CPU is finished. -/
def State.busy : State → ℕ
  | .c2s4 | .s2c5 => 2
  | .c2s5 | .s2c6 => 1
  | st => st.toIdle

/-- The states in which `DACK` is given. -/
def State.acking : State → Bool
  | .s2f1 | .s2f2 | .f2s1 | .f2s2 => true
  | _ => false

section Moves

variable {i : Inputs} {st : State}

theorem dack_eq : (comb i st).dack = (nextState i st).acking := by
  obtain ⟨boeq3, ccpureq, cdreq_, cdsack_, dmadir, fifoempty, fifofull, rdfifoO, rififoO, rw⟩ := i
  cases st <;> simp only [comb, nextState] <;> (repeat' split) <;>
    simp_all [Inputs.startS2f, Inputs.startF2s, Inputs.startDmaRd, Inputs.startDmaWr,
      State.acking]

/-- `DACK` is given for two clocks. -/
theorem not_acking_twice {j : Inputs} (h : st.acking = true) :
    (nextState j (nextState i st)).acking = false := by
  cases st <;> first | rfl | exact Bool.noConfusion h

theorem nextState_acking (h : (nextState i st).acking = true) :
    st.acking = true ∨ nextState i st = .s2f1 ∨ nextState i st = .f2s1 := by
  cases st <;> simp only [nextState] at h ⊢ <;> (repeat' split) <;> simp_all [State.acking]

/-- What is going on is finished unless the CPU asks. -/
theorem busy_lt (hs : st.selects = false) (hp : st.parked = true → i.cdsack_ = true)
    (hb : st ≠ .idleDmaRd) (hb' : st ≠ .idleDmaWr) : (nextState i st).busy < st.busy := by
  cases st <;> first | exact absurd rfl hb | exact absurd rfl hb' | exact Bool.noConfusion hs | skip
  all_goals simp_all [nextState, State.busy, State.toIdle, State.parked]

theorem nextState_idleDmaRd (hc : i.ccpureq = false) :
    nextState i .idleDmaRd =
      if i.startS2f then .s2f1 else if i.dmadir then .idleDmaRd else .idleDmaWr := by
  rw [nextState, hc, Inputs.startDmaWr, hc]
  cases hs : i.startS2f <;> cases hd : i.dmadir <;> simp_all [Inputs.startS2f]

theorem nextState_idleDmaWr (hc : i.ccpureq = false) :
    nextState i .idleDmaWr = if i.startF2s then .f2s1 else .idleDmaRd := by
  rw [nextState, hc, Inputs.startDmaRd, hc]
  cases hs : i.startF2s <;> cases hd : i.dmadir <;> simp_all [Inputs.startF2s]

end Moves

end ScsiSm

namespace System

/-- The WD33C93 asks for a byte and the CPU leaves it alone. -/
structure Asks (x : System) (q : Period) : Prop where
  dreq_ : q.clk135Rise.dreq_ = false ∧ q.clk135Fall.dreq_ = false
  wd : x.cycle.any BusCycle.wd = false

/-- The bus is granted again and again while it is asked for. -/
def Granting (x : System) (q : ℕ → Period) : Prop :=
  ∀ m, ∃ n, m ≤ n ∧
    ((Runs.states step x q n).chip.cpu.out.breq = true → (q n).clk135Rise.Free)

/-- Again and again the WD33C93 asks for a byte until it gets its `DACK`. -/
def Demanding (x : System) (q : ℕ → Period) : Prop :=
  ∀ m, ∃ k, m ≤ k ∧ (Runs.states step x q k).chip.scsi.out.dack = false ∧
    ∀ n, k ≤ n →
      (∀ j, k ≤ j → j ≤ n → (Runs.states step x q j).chip.scsi.out.dack = false) →
        Asks (Runs.states step x q n) (q n)

/-- What the machines have sampled while they are asked. -/
structure Ready (x : System) : Prop where
  dmaena : x.chip.cpu.inp.dmaena = true
  dreq_ : x.chip.cpu.inp.dreq_ = false
  cdreq_ : x.chip.scsi.inp.cdreq_ = false
  wd : x.cycle.any BusCycle.wd = false

theorem Asks.ready {x : System} {q : Period} (h : Chip.Live x.chip q) (ha : Asks x q)
    (hd : x.chip.regs.dmaena = true) (hd' : (x.step q).chip.regs.dmaena = true)
    (hw : (x.step q).cycle.any BusCycle.wd = false) : Ready (x.step q) := by
  have e : (x.step q).chip.cpu.inp = _ := Chip.period_cpu_inp h
  have e' : (x.step q).chip.scsi.inp = _ := Chip.period_scsi_inp h
  refine ⟨by rw [e]; exact hd, ?_, ?_, hw⟩
  · rw [e, hd]
    exact ha.dreq_.1
  · rw [e']
    have hdma : (x.chip.atClk135Fall q).regs.dmaena = (x.step q).chip.regs.dmaena := rfl
    rw [Chip.scsiClocked, Chip.dreq_, hdma, hd']
    exact ha.dreq_.2

section Ready

variable {x : System} (hC : Coupled x) (hr : Ready x)
include hC hr

theorem Ready.not_selects : x.chip.scsi.state.selects = false := by
  refine Bool.eq_false_iff.mpr fun hs => ?_
  obtain ⟨b, hb, hw, -⟩ := hC.selects hs
  have h1 : x.cycle.any BusCycle.wd = true := (Option.any_eq_true ..).mpr ⟨b, hb, hw⟩
  exact Bool.noConfusion (hr.wd.symm.trans h1)

theorem Ready.ccpureq : x.chip.scsi.inp.ccpureq = false := hC.request.trans hr.wd

end Ready

section Dack

variable {x : System} {q : ℕ → Period} (hl : ∀ n, Chip.Live (Runs.states step x q n).chip (q n))
include hl

theorem dack_states (n : ℕ) :
    (Runs.states step x q (n + 1)).chip.scsi.out.dack =
      (Runs.states step x q (n + 1)).chip.scsi.state.acking := by
  have e1 : (Runs.states step x q (n + 1)).chip.scsi.out = _ := Chip.period_scsi_out (hl n)
  have e2 : (Runs.states step x q (n + 1)).chip.scsi.state = _ := Chip.period_scsi_state (hl n)
  rw [e1, e2]
  exact ScsiSm.dack_eq

/-- If no byte is begun any more, the WD33C93 asks for ever. -/
theorem Demanding.asks_from (ha : Demanding x q) {m : ℕ}
    (hno : ∀ n, m < n → (Runs.states step x q n).chip.scsi.state ≠ .s2f1 ∧
      (Runs.states step x q n).chip.scsi.state ≠ .f2s1) :
    ∃ k, m < k ∧ ∀ n, k ≤ n → Asks (Runs.states step x q n) (q n) := by
  obtain ⟨k, hk, hdack, hask⟩ := ha (m + 1)
  -- without a new byte a `DACK` that is up falls and stays down
  have hnone : ∀ n, k ≤ n → (Runs.states step x q n).chip.scsi.out.dack = false := by
    refine @Runs.states_from _ _ step (fun x => x.chip.scsi.out.dack = false) x q k hdack fun n hn hd => ?_
    obtain ⟨n', rfl⟩ : ∃ n', n = n' + 1 := ⟨n - 1, by omega⟩
    change (Runs.states step x q (n' + 1 + 1)).chip.scsi.out.dack = false
    rw [dack_states hl]
    refine Bool.eq_false_iff.mpr fun hack => ?_
    have e2 : (Runs.states step x q (n' + 1 + 1)).chip.scsi.state = _ :=
      Chip.period_scsi_state (hl (n' + 1))
    have h12 := hno (n' + 1 + 1) (by omega)
    rw [e2] at hack h12
    rcases ScsiSm.nextState_acking hack with h1 | h1 | h1
    · rw [← dack_states hl, hd] at h1
      exact Bool.noConfusion h1
    · exact h12.1 h1
    · exact h12.2 h1
  exact ⟨k, by omega, fun n hn => hask n hn fun j hj _ => hnone j hj⟩

/-- Again and again no `DACK` is given. -/
theorem exists_not_dack (m : ℕ) :
    ∃ k, m ≤ k ∧ (Runs.states step x q k).chip.scsi.out.dack = false := by
  cases hd : (Runs.states step x q (m + 1)).chip.scsi.out.dack with
  | false => exact ⟨m + 1, by omega, hd⟩
  | true =>
      rw [dack_states hl] at hd
      refine ⟨m + 3, by omega, ?_⟩
      have e2 : (Runs.states step x q (m + 2)).chip.scsi.state = _ :=
        Chip.period_scsi_state (hl (m + 1))
      have e3 : (Runs.states step x q (m + 3)).chip.scsi.state = _ :=
        Chip.period_scsi_state (hl (m + 2))
      rw [dack_states hl, e3, e2]
      exact ScsiSm.not_acking_twice hd

end Dack

/-! ## §3 The session to memory -/

/-- How far the next byte from the WD33C93 is: what `SCSI_SM` has to finish, the request that
has still to be counted, and the way of `CPU_SM` if the FIFO is full. -/
def readRank (x : System) : ℕ ×ₗ ℕ ×ₗ ℕ :=
  toLex (if x.chip.scsi.state = .idleDmaRd then 0 else x.chip.scsi.state.busy + 1,
    toLex (if x.chip.scsi.rififoO then x.chip.received + 1 else 0,
      if x.chip.fifo.level = 8 then x.stage + 1 else 0))

/-- While a drain is due an entry leaves the FIFO, or it comes nearer, or it waits. -/
theorem Draining.drain_step {x : System} {q : Period} (hD : Draining x) (hq : BusRules x q)
    (hs : Chip.InSession x.chip q) (hena : x.chip.cpu.inp.dmaena = true)
    (hlast : x.chip.lastword = false) (h1 : 1 ≤ x.chip.fifo.level)
    (hdue : x.chip.fifo.level = 8 ∨ x.chip.cpu.inp.flushfifo = true) :
    (x.chip.cpuComb q).intDecfifo = true ∨ (x.step q).stage < x.stage ∨
      (x.step q).stage = x.stage ∧ awaits (x.step q) = awaits x ∧ ¬ Happens (awaits x) x q := by
  have hI := hD.reading
  -- `CPU_SM` is on the side that empties the FIFO
  have hfill := hI.cpu
  have hdue : Chip.Due x.chip :=
    ⟨hena, hlast, fun _ => ⟨h1, hdue, fun e => by
        rw [e] at hfill
        exact Bool.noConfusion hfill⟩,
      fun e => Bool.noConfusion (hI.ndmadir.symm.trans e)⟩
  have hrep : RepeatsByDsack x q := fun e => by
    rw [CpuSm.State.filling_of_second e] at hfill
    exact Bool.noConfusion hfill
  rcases stage_step hD.coupled hq hs hdue hrep with hdec | hinc | hnear
  · exact .inl hdec
  · exact Bool.noConfusion ((hI.cpuComb_spec q hq.noReset).1.symm.trans hinc)
  · exact .inr hnear

/-- From a full FIFO an entry leaves, or the drain comes nearer, or it waits. -/
theorem Draining.step_of_full {x : System} {q : Period} (hD : Draining x) (hq : BusRules x q)
    (hs : Chip.InSession x.chip q) (hz : Chip.Quiet x.chip) (hr : Ready x)
    (hri : x.chip.scsi.rififoO = false) (h8 : x.chip.fifo.level = 8) :
    (x.step q).chip.fifo.level ≠ 8 ∨
      (x.step q).chip.fifo.level = 8 ∧
        ((x.step q).stage < x.stage ∨
          (x.step q).stage = x.stage ∧ awaits (x.step q) = awaits x ∧
            ¬ Happens (awaits x) x q) := by
  have hlev := hD.reading.period_level hs (hD.reading.not_underflow hs hD.fed)
  change (x.step q).chip.fifo.level = _ at hlev
  have hrec : x.chip.received = 8 := by rw [Chip.received, hri, h8]; rfl
  -- with the request line down nothing is added meanwhile
  cases hdec : (x.chip.cpuComb q).intDecfifo with
  | true =>
      rw [hdec, if_pos rfl, h8] at hlev
      exact .inl (by omega)
  | false =>
      rw [hdec, if_neg Bool.false_ne_true, hrec] at hlev
      have hnear := hD.drain_step hq hs hr.dmaena hz.lastword (by omega) (.inl h8)
      exact .inr ⟨hlev, hnear.resolve_left fun h => Bool.noConfusion (hdec.symm.trans h)⟩

/-- A period begins a byte, brings it nearer, or waits. -/
theorem Draining.rank_step {x : System} {q : Period} (hD : Draining x) (hq : BusRules x q)
    (hs : Chip.InSession x.chip q) (hz : Chip.Quiet x.chip) (hr : Ready x) :
    (x.step q).chip.scsi.state = .s2f1 ∨
      (x.step q).readRank < x.readRank ∨
      (x.step q).readRank = x.readRank ∧ awaits (x.step q) = awaits x ∧
        ¬ Happens (awaits x) x q := by
  have hC := hD.coupled
  have hI := hD.reading
  have h := hC.live hq
  have hst : (x.step q).chip.scsi.state = ScsiSm.nextState (x.chip.scsiIn q) x.chip.scsi.state :=
    Chip.period_scsi_state h
  have ei := Chip.scsiIn_eq h
  have hcc : (x.chip.scsiIn q).ccpureq = false := by rw [ei]; exact hr.ccpureq hC
  have hdir : (x.chip.scsiIn q).dmadir = true := by
    rw [ei, Registers.dmadir, hI.ndmadir]
    rfl
  simp only [readRank, Prod.Lex.toLex_lt_toLex]
  by_cases hidle : x.chip.scsi.state = .idleDmaRd
  · have hn := ScsiSm.nextState_idleDmaRd hcc
    rw [hdir, if_pos rfl, ← hidle, ← hst] at hn
    split_ifs at hn with hstart
    · exact .inl hn
    · right
      replace hn := hn.trans hidle
      have h3 : (x.chip.scsi.state == .s2f3) = false := by rw [hidle]; rfl
      have hu := hI.not_underflow hs hD.fed
      have hrec := hI.period_received hs hu
      have hrif : (x.step q).chip.scsi.rififoO =
          (x.chip.scsi.rififoO && (x.chip.cpuComb q).intDecfifo) := by
        have e := hI.period_rififoO hs
        rw [h3, Bool.false_and, Bool.false_or] at e
        exact e
      rw [h3, Bool.false_and, Bool.toNat_false, Nat.add_zero] at hrec
      rw [if_pos hn, if_pos hidle]
      change (x.step q).chip.received + _ = _ at hrec
      cases hri : x.chip.scsi.rififoO with
      | true =>
          -- the request is counted, or an entry left in its place
          rw [hri, Bool.true_and] at hrif
          rw [hrif]
          cases hdec : (x.chip.cpuComb q).intDecfifo with
          | true =>
              rw [hdec, Bool.toNat_true] at hrec
              exact .inl (.inr ⟨rfl, .inl (by simp only [if_true]; omega)⟩)
          | false => exact .inl (.inr ⟨rfl, .inl (by simp)⟩)
      | false =>
          -- the FIFO is full, and its drain is due
          have h8 : x.chip.fifo.level = 8 := by
            rw [ei, ScsiSm.Inputs.startS2f, hri, Fifo.full_eq, Registers.dmadir, hI.ndmadir,
              hr.cdreq_, hr.ccpureq hC] at hstart
            simpa using hstart
          rw [hri, Bool.false_and] at hrif
          rw [hrif, if_neg Bool.false_ne_true, if_pos h8]
          rcases hD.step_of_full hq hs hz hr hri h8 with hne | ⟨he, hlt | ⟨heq, hw, hj⟩⟩
          · rw [if_neg hne]
            exact .inl (.inr ⟨rfl, .inr ⟨rfl, Nat.succ_pos _⟩⟩)
          · rw [if_pos he]
            exact .inl (.inr ⟨rfl, .inr ⟨rfl, Nat.succ_lt_succ hlt⟩⟩)
          · rw [if_pos he, heq]
            exact .inr ⟨rfl, hw, hj⟩
  · right
    left
    left
    rw [if_neg hidle]
    by_cases hwr : x.chip.scsi.state = .idleDmaWr
    · have hn := ScsiSm.nextState_idleDmaWr hcc
      rw [ScsiSm.Inputs.startF2s, hdir, if_neg (by simp), ← hwr, ← hst] at hn
      rw [if_pos hn]
      exact Nat.succ_pos _
    · have hb := ScsiSm.busy_lt (i := x.chip.scsiIn q) (hr.not_selects hC)
        (fun hp => by rw [ei]; exact hC.parked hp) hidle hwr
      rw [← hst] at hb
      split_ifs <;> omega

/-! ## §4 The session from memory -/

/-- How far the next byte for the WD33C93 is: what `SCSI_SM` has to finish, the request that
has still to be counted, and the way of `CPU_SM` if the FIFO is empty; `SCSI_SM` looks at the
FIFO in every other clock. -/
def writeRank (x : System) : ℕ ×ₗ ℕ ×ₗ ℕ :=
  toLex (x.chip.scsi.state.busy,
    toLex (if x.chip.scsi.rdfifoO then if x.chip.cpu.state = .s35 then 1 else 2 else 0,
      if x.chip.fifo.level = 0 then x.stage + 2
      else if x.chip.scsi.state = .idleDmaWr then 0 else 1))

section Fill

variable {x : System} {q : Period} (hL : Loading x) (hq : BusRules x q)
  (hs : Chip.InSession x.chip q) (hr : Ready x)
include hL hq hs hr

/-- An empty FIFO gets an entry, or the fill comes nearer, or it waits. -/
theorem Loading.step_of_empty (hrep : RepeatsByDsack x q) (hri : x.chip.scsi.rdfifoO = false)
    (h0 : x.chip.fifo.level = 0) :
    (x.step q).chip.fifo.level ≠ 0 ∨
      (x.step q).chip.fifo.level = 0 ∧
        ((x.step q).stage < x.stage ∨
          (x.step q).stage = x.stage ∧ awaits (x.step q) = awaits x ∧
            ¬ Happens (awaits x) x q) := by
  have hW := hL.filling.writing
  have hquiet := hL.filling.quiet
  have hdr := hW.cpu
  have howed := hW.owed
  have hlev := hW.period_level hs (Chip.rstFifo_of_quiet (hL.coupled.live hq) hquiet)
  change (x.step q).chip.fifo.level + _ = _ at hlev
  rw [hri, Bool.false_and, Bool.toNat_false, Nat.add_zero, h0, Nat.zero_add] at hlev
  -- the fill is due: `CPU_SM` is on the side that fills, and owes no entry
  have hdue : Chip.Due x.chip :=
    ⟨hr.dmaena, hquiet.lastword, fun e => Bool.noConfusion (hW.ndmadir.symm.trans e),
      fun _ => ⟨h0, hr.dreq_, fun e => by rw [e] at hdr; exact Bool.noConfusion hdr,
        fun e => by
          rw [e, h0, beq_self_eq_true, Bool.toNat_true] at howed
          omega⟩⟩
  cases hinc : (x.chip.cpuComb q).intIncfifo with
  | true =>
      rw [hinc, Bool.toNat_true] at hlev
      exact .inl (by omega)
  | false =>
      rw [hinc, Bool.toNat_false] at hlev
      refine .inr ⟨hlev, ?_⟩
      rcases stage_step hL.coupled hq hs hdue hrep with hdec | hinc' | hlt | hwait
      · exact Bool.noConfusion ((hW.intDecfifo q).symm.trans hdec)
      · exact Bool.noConfusion (hinc.symm.trans hinc')
      · exact .inl hlt
      · exact .inr hwait

omit hs in
/-- An idle `SCSI_SM` begins a byte, or it changes between its two idle states. -/
theorem Loading.scsi_of_idle
    (hidle : x.chip.scsi.state = .idleDmaRd ∨ x.chip.scsi.state = .idleDmaWr) :
    (x.step q).chip.scsi.state = .f2s1 ∨
      x.chip.scsi.state = .idleDmaRd ∧ (x.step q).chip.scsi.state = .idleDmaWr ∨
        x.chip.scsi.state = .idleDmaWr ∧ (x.step q).chip.scsi.state = .idleDmaRd ∧
          (x.chip.scsiIn q).startF2s = false := by
  have h := hL.coupled.live hq
  have ei := Chip.scsiIn_eq h
  have hst : (x.step q).chip.scsi.state = ScsiSm.nextState (x.chip.scsiIn q) x.chip.scsi.state :=
    Chip.period_scsi_state h
  have hcc : (x.chip.scsiIn q).ccpureq = false := by rw [ei]; exact hr.ccpureq hL.coupled
  have hdir : (x.chip.scsiIn q).dmadir = false := by
    rw [ei, Registers.dmadir, hL.filling.writing.ndmadir]
    rfl
  rcases hidle with e | e
  · have hn := ScsiSm.nextState_idleDmaRd hcc
    rw [ScsiSm.Inputs.startS2f, hdir, if_neg (by simp), if_neg Bool.false_ne_true] at hn
    exact .inr (.inl ⟨e, by rw [hst, e, hn]⟩)
  · have hn := ScsiSm.nextState_idleDmaWr hcc
    cases hf : (x.chip.scsiIn q).startF2s with
    | true =>
        rw [hf, if_pos rfl] at hn
        exact .inl (by rw [hst, e, hn])
    | false =>
        rw [hf, if_neg Bool.false_ne_true] at hn
        exact .inr (.inr ⟨e, by rw [hst, e, hn], rfl⟩)

/-- With `SCSI_SM` idle, a byte is begun, or what it waits for comes nearer. -/
theorem Loading.rank_of_idle (hrep : RepeatsByDsack x q)
    (hidle : x.chip.scsi.state = .idleDmaRd ∨ x.chip.scsi.state = .idleDmaWr) :
    (x.step q).chip.scsi.state = .f2s1 ∨
      (x.step q).writeRank < x.writeRank ∨
      (x.step q).writeRank = x.writeRank ∧ awaits (x.step q) = awaits x ∧
        ¬ Happens (awaits x) x q := by
  have hC := hL.coupled
  have hW := hL.filling.writing
  have h := hC.live hq
  have hrst := Chip.rstFifo_of_quiet h hL.filling.quiet
  have ei := Chip.scsiIn_eq h
  have hlev := hW.period_level hs hrst
  change (x.step q).chip.fifo.level + _ = _ at hlev
  have hrd : (x.step q).chip.scsi.rdfifoO =
      (x.chip.scsi.rdfifoO && (x.chip.cpuComb q).intIncfifo) := by
    have h3 : (x.chip.scsi.state == .f2s3) = false := by
      rcases hidle with e | e <;> rw [e] <;> rfl
    have e := hW.period_rdfifoO hs
    rw [h3, Bool.false_and, Bool.false_or] at e
    exact e
  rcases hL.scsi_of_idle hq hr hidle with hn | hn
  · exact .inl hn
  right
  have hbusy : x.chip.scsi.state.busy = 0 ∧ (x.step q).chip.scsi.state.busy = 0 := by
    rcases hn with ⟨e1, e2⟩ | ⟨e1, e2, -⟩ <;> rw [e1, e2] <;> exact ⟨rfl, rfl⟩
  simp only [writeRank, Prod.Lex.toLex_lt_toLex]
  rw [hbusy.1, hbusy.2, hrd]
  cases hri : x.chip.scsi.rdfifoO with
  | true =>
      -- the request is counted, after the entry that is counted now
      refine .inl (.inr ⟨rfl, .inl ?_⟩)
      cases hinc : (x.chip.cpuComb q).intIncfifo with
      | true =>
          have e35 : (x.step q).chip.cpu.state = .s35 :=
            eq_of_beq ((hW.period_s35 hs).trans hinc)
          have hne : x.chip.cpu.state ≠ .s35 := fun e => by
            have hl := (CpuSm.intIncfifo_spec hinc).1
            rw [e] at hl
            exact Bool.noConfusion hl
          rw [e35, if_neg hne]
          decide
      | false =>
          rw [Bool.and_false, if_neg Bool.false_ne_true, if_pos rfl]
          split_ifs <;> decide
  | false =>
      rw [Bool.false_and, if_neg Bool.false_ne_true]
      rw [hri, Bool.false_and, Bool.toNat_false, Nat.add_zero] at hlev
      by_cases h0 : x.chip.fifo.level = 0
      · rw [if_pos h0]
        rcases hL.step_of_empty hq hs hr hrep hri h0 with hne | ⟨he, hlt | ⟨heq, hw, hj⟩⟩
        · rw [if_neg hne]
          refine .inl (.inr ⟨rfl, .inr ⟨rfl, ?_⟩⟩)
          split_ifs <;> omega
        · rw [if_pos he]
          exact .inl (.inr ⟨rfl, .inr ⟨rfl, by omega⟩⟩)
        · rw [if_pos he, heq, if_neg Bool.false_ne_true]
          exact .inr ⟨rfl, hw, hj⟩
      · rw [if_neg h0, if_neg (show ¬ (x.step q).chip.fifo.level = 0 by omega)]
        rcases hn with ⟨e1, e2⟩ | ⟨e1, -, hstart⟩
        · rw [e1, e2]
          exact .inl (.inr ⟨rfl, .inr ⟨rfl, by decide⟩⟩)
        · -- there is a longword to send
          rw [ei, ScsiSm.Inputs.startF2s, hri, Fifo.empty_eq, Registers.dmadir, hW.ndmadir,
            hr.cdreq_, hr.ccpureq hC] at hstart
          exact absurd hstart (by simp [h0])

/-- A period begins a byte, brings it nearer, or waits. -/
theorem Loading.rank_step (hrep : RepeatsByDsack x q) :
    (x.step q).chip.scsi.state = .f2s1 ∨
      (x.step q).writeRank < x.writeRank ∨
      (x.step q).writeRank = x.writeRank ∧ awaits (x.step q) = awaits x ∧
        ¬ Happens (awaits x) x q := by
  have hC := hL.coupled
  have h := hC.live hq
  have hst : (x.step q).chip.scsi.state = ScsiSm.nextState (x.chip.scsiIn q) x.chip.scsi.state :=
    Chip.period_scsi_state h
  by_cases hrd : x.chip.scsi.state = .idleDmaRd
  · exact hL.rank_of_idle hq hs hr hrep (.inl hrd)
  by_cases hwr : x.chip.scsi.state = .idleDmaWr
  · exact hL.rank_of_idle hq hs hr hrep (.inr hwr)
  have hb := ScsiSm.busy_lt (i := x.chip.scsiIn q) (hr.not_selects hC)
    (fun hp => by rw [Chip.scsiIn_eq h]; exact hC.parked hp) hrd hwr
  rw [← hst] at hb
  simp only [writeRank, Prod.Lex.toLex_lt_toLex]
  exact .inr (.inl (.inl hb))

end Fill

/-! ## §5 Infinite sessions -/

section Infinite

variable {x : System} {q : ℕ → Period}

/-- A byte is begun again and again. -/
theorem begins_again (rank : System → ℕ ×ₗ ℕ ×ₗ ℕ) (st : ScsiSm.State)
    (hC : ∀ n, Coupled (Runs.states step x q n)) (hq : ∀ n, BusRules (Runs.states step x q n) (q n))
    (hen : ∀ n, (Runs.states step x q n).chip.regs.dmaena = true)
    (hans : Answering x q) (hgr : Granting x q) (hask : Demanding x q)
    (hst : ∀ n, (Runs.states step x q n).chip.scsi.state = .s2f1 ∨
      (Runs.states step x q n).chip.scsi.state = .f2s1 →
        (Runs.states step x q n).chip.scsi.state = st)
    (hstep : ∀ n, Ready (Runs.states step x q n) →
      (Runs.states step x q (n + 1)).chip.scsi.state = st ∨
        rank (Runs.states step x q (n + 1)) < rank (Runs.states step x q n) ∨
        rank (Runs.states step x q (n + 1)) = rank (Runs.states step x q n) ∧
          awaits (Runs.states step x q (n + 1)) = awaits (Runs.states step x q n) ∧
            ¬ Happens (awaits (Runs.states step x q n)) (Runs.states step x q n) (q n)) (m : ℕ) :
    ∃ n, m < n ∧ (Runs.states step x q n).chip.scsi.state = st := by
  -- if not, the WD33C93 asks for ever, and the rank falls at every event that is awaited
  by_contra hno
  obtain ⟨k, hk, hasks⟩ := hask.asks_from (fun n => (hC n).live (hq n)) (m := m) fun n hn =>
    ⟨fun e => hno ⟨n, hn, hst n (.inl e)⟩, fun e => hno ⟨n, hn, hst n (.inr e)⟩⟩
  have hready : ∀ n, k ≤ n → Ready (Runs.states step x q (n + 1)) := fun n hn =>
    (hasks n hn).ready ((hC n).live (hq n)) (hen n) (hen (n + 1)) (hasks (n + 1) (by omega)).wd
  obtain ⟨n, hn, hg⟩ := @Runs.reaches_of_just _ _ step Ready
    (fun x => x.chip.scsi.state = st) x q (k + 1) _ _ _ _ rank awaits Happens (hready k (le_refl k))
    (fun n hn hr => by
      rcases hstep n hr with hg | hlt
      · exact .inl hg
      · exact .inr ⟨hready n (by omega), hlt⟩)
    (fun j n => by
      cases j with
      | grant => exact hgr n
      | answer => exact hans n)
  exact hno ⟨n, by omega, hg⟩

/-- The bytes that passed the pins stay. -/
theorem le_length_of_le {f : System → List Byte}
    (hf : ∀ x q, (f x).length ≤ (f (step x q)).length) {m n : ℕ} (h : m ≤ n) :
    (f (Runs.states step x q m)).length ≤ (f (Runs.states step x q n)).length :=
  @Runs.states_from _ _ step
    (fun y => (f (Runs.states step x q m)).length ≤ (f y).length) x q m (le_refl _)
    (fun _ _ hle => hle.trans (hf _ _)) n h

/-- The invariants of a session to memory hold for ever. -/
theorem draining_states (hx : Start x) (hd : x.chip.regs.ndmadir = false)
    (hq : ∀ n, Streaming (Runs.states step x q n) (q n)) (n : ℕ) :
    Draining (Runs.states step x q n) ∧ Chip.Quiet (Runs.states step x q n).chip ∧
      (Runs.states step x q n).chip.cpu.state.tail = false := by
  have ht0 : x.chip.cpu.state.tail = false := by
    rcases hx.dma.cpu_state with e | e <;> rw [e] <;> rfl
  exact @Runs.states_from _ _ step
    (fun x => Draining x ∧ Chip.Quiet x.chip ∧ x.chip.cpu.state.tail = false) x q 0
    ⟨hx.draining hd, hx.quiet, ht0⟩
    (fun n _ ⟨hD, hz, ht⟩ => by
      obtain ⟨hb, hs, hf⟩ := hq n
      have h := hD.coupled.live hb
      exact ⟨hD.step hb hs hz.not_spuriousTail ht, hz.step h hf, tail_step h hz ht⟩) n (Nat.zero_le n)

/-- In a session to memory a byte is taken again and again. -/
theorem takes_again (hx : Start x) (hd : x.chip.regs.ndmadir = false)
    (hq : ∀ n, Streaming (Runs.states step x q n) (q n)) (hans : Answering x q)
    (hgr : Granting x q) (hask : Demanding x q) (m : ℕ) :
    ∃ n, (Runs.states step x q m).taken.length < (Runs.states step x q n).taken.length := by
  let y := Runs.states step x q
  have hI : ∀ n, Draining (y n) ∧ Chip.Quiet (y n).chip := fun n =>
    ⟨(draining_states hx hd hq n).1, (draining_states hx hd hq n).2.1⟩
  obtain ⟨n, hn, hst⟩ := begins_again readRank .s2f1 (fun n => (hI n).1.coupled)
    (fun n => (hq n).1) (fun n => (hI n).1.reading.dmaena) hans hgr hask
    (fun n h => h.resolve_right fun e => by
      have hg := (hI n).1.reading.scsi
      change (y n).chip.scsi.state = _ at e
      rw [e] at hg
      exact Bool.noConfusion hg)
    (fun n hr => (hI n).1.rank_step (hq n).1 (hq n).2.1 (hI n).2 hr) m
  -- a byte that is begun is taken two clocks later
  have e2 : (y (n + 1)).chip.scsi.state = .s2f2 := by
    have e := Chip.period_scsi_state ((hI n).1.coupled.live (hq n).1)
    rw [hst] at e
    exact e
  have hlive := (hI (n + 1)).1.coupled.live (hq (n + 1)).1
  have e3 : ((y (n + 1)).chip.period (q (n + 1))).scsi.state = .s2f3 := by
    have e := Chip.period_scsi_state hlive
    rw [e2] at e
    exact e
  have hl : (y (n + 1)).chip.scsi.lbyte_ = false := by rw [(hI (n + 1)).1.strobed.lbyte, e2]; rfl
  have hl' : ((y (n + 1)).chip.period (q (n + 1))).scsi.lbyte_ = true := by
    rw [(Chip.period_strobed hlive).lbyte, e3]
    rfl
  have htk : (y (n + 2)).taken = (y (n + 1)).taken ++ [(q (n + 1)).clk90Rise.pd] := by
    change (y (n + 1)).taken ++ (y (n + 1)).chip.taken (q (n + 1)) = _
    rw [Chip.taken_eq hlive, hl, hl']
    rfl
  have hmono := le_length_of_le (x := x) (q := q) (f := System.taken)
    (fun x q => by rw [System.step, List.length_append]; exact Nat.le_add_right _ _)
    (show m ≤ n + 1 by omega)
  refine ⟨n + 2, ?_⟩
  change _ < (y (n + 2)).taken.length
  rw [htk, List.length_append]
  exact Nat.lt_of_le_of_lt hmono (Nat.lt_succ_self _)

/-- A session to memory goes on for ever: if the WD33C93 asks again and again, the bus is
granted again and again and memory answers, there is no bound to the bytes written. -/
theorem read_session_goes_on (hx : Start x) (hd : x.chip.regs.ndmadir = false)
    (hq : ∀ n, Streaming (Runs.states step x q n) (q n)) (hans : Answering x q)
    (hgr : Granting x q) (hask : Demanding x q) (N : ℕ) :
    ∃ n, N ≤ (Runs.states step x q n).written.length := by
  let y := Runs.states step x q
  obtain ⟨n, hn⟩ := Runs.unbounded_of_again (takes_again hx hd hq hans hgr hask) (N + 36)
  refine ⟨n, ?_⟩
  have hD : Draining (y n) := (draining_states hx hd hq n).1
  have hbytes := congrArg List.length hD.stream.bytes
  have hlen := (y n).chip.contents_length
  have hcap := hD.reading.cap
  have hp := (y n).chip.fifo.bytePtr.isLt
  have hb := Bool.toNat_le ((y n).chip.scsi.state == .s2f3)
  rw [List.length_append, Chip.undelivered, List.length_drop] at hbytes
  change N + 36 ≤ (y n).taken.length at hn
  change N ≤ (y n).written.length
  omega

/-- The invariants of a session from memory hold for ever. -/
theorem loading_states (hx : Start x) (hd : x.chip.regs.ndmadir = true)
    (hq : ∀ n, Supplying (Runs.states step x q n) (q n)) (n : ℕ) :
    Loading (Runs.states step x q n) :=
  @Runs.states_from _ _ step Loading x q 0 (hx.loading hd)
    (fun n _ hL => by
      obtain ⟨hb, hm, hs, hn⟩ := hq n
      exact hL.step hb hm hs hn) n (Nat.zero_le n)

/-- In a session from memory a byte is given again and again. -/
theorem gives_again (hx : Start x) (hd : x.chip.regs.ndmadir = true)
    (hq : ∀ n, Supplying (Runs.states step x q n) (q n) ∧
      RepeatsByDsack (Runs.states step x q n) (q n))
    (hans : Answering x q) (hgr : Granting x q) (hask : Demanding x q) (m : ℕ) :
    ∃ n, (Runs.states step x q m).given.length < (Runs.states step x q n).given.length := by
  let y := Runs.states step x q
  have hI : ∀ n, Loading (y n) := loading_states hx hd fun n => (hq n).1
  obtain ⟨n, hn, hst⟩ := begins_again writeRank .f2s1 (fun n => (hI n).coupled)
    (fun n => (hq n).1.1) (fun n => (hI n).filling.writing.dmaena) hans hgr hask
    (fun n h => h.resolve_left fun e => by
      have hg := (hI n).filling.writing.scsi
      change (y n).chip.scsi.state = _ at e
      rw [e] at hg
      exact Bool.noConfusion hg)
    (fun n hr => (hI n).rank_step (hq n).1.1 (hq n).1.2.2.1 hr (hq n).2) m
  -- the byte is handed on with the second `DACK` clock
  have e2 : (y (n + 1)).chip.scsi.state = .f2s2 := by
    have e := Chip.period_scsi_state ((hI n).coupled.live (hq n).1.1)
    rw [hst] at e
    exact e
  have hgv : (y (n + 2)).given.length = (y (n + 1)).given.length + 1 := by
    change ((y (n + 1)).given ++ (y (n + 1)).chip.given (q (n + 1))).length = _
    rw [(hI (n + 1)).filling.given_spec (hq (n + 1)).1.2.2.1, if_pos e2, List.length_append]
    rfl
  have hmono := le_length_of_le (x := x) (q := q) (f := System.given)
    (fun x q => by rw [System.step, List.length_append]; exact Nat.le_add_right _ _)
    (show m ≤ n + 1 by omega)
  refine ⟨n + 2, ?_⟩
  change _ < (y (n + 2)).given.length
  rw [hgv]
  exact Nat.lt_succ_of_le hmono

/-- A session from memory goes on for ever in the same way, if the repeated word cycle of a
16-bit port is answered by `_DSACK`: there is no bound to the bytes given to the WD33C93. -/
theorem write_session_goes_on (hx : Start x) (hd : x.chip.regs.ndmadir = true)
    (hq : ∀ n, Supplying (Runs.states step x q n) (q n) ∧
      RepeatsByDsack (Runs.states step x q n) (q n))
    (hans : Answering x q) (hgr : Granting x q) (hask : Demanding x q) (N : ℕ) :
    ∃ n, N ≤ (Runs.states step x q n).given.length :=
  @Runs.unbounded_of_again (fun n => (Runs.states step x q n).given.length)
    (gives_again hx hd hq hans hgr hask) N

end Infinite

/-! ## §6 Surroundings that never wait -/

/-- The bus is granted and a 32-bit memory answers at once. -/
def obliging (dreq_ : Bool) (pd : Byte) (x : System) : Period :=
  .steady { dreq_, bg_ := false, dsack0_ := x.chip.asO_, dsack1_ := x.chip.asO_, pd }

/-- What the surroundings keep up: the CPU is idle, and all data read are zero. -/
structure Obliged (x : System) : Prop where
  coupled : Coupled x
  cycle : x.cycle = none
  term : x.term = .wait ∨ x.term = .dsack32
  data : x.data = {}
  breq : x.chip.cpu.out.breq = true → x.chip.asO_ = true

section Obliging

variable {x : System} {d : Bool} {b : Byte}

theorem obliging_term : (obliging d b x).sclkFall.term = if x.chip.asO_ then .wait else .dsack32 := by
  cases ha : x.chip.asO_ <;> simp [obliging, Period.steady, Pins.term, ha]

variable (hx : Obliged x)
include hx

theorem Obliged.rules : BusRules x (obliging d b x) where
  noReset := ⟨rfl, rfl, rfl, rfl, rfl, rfl⟩
  shown := by rw [hx.cycle]; exact ⟨rfl, rfl, rfl, rfl⟩
  follows := (rfl : (obliging d b x).clk135Fall.as_ = true)
  starts := fun _ h => Bool.noConfusion h
  continues := fun _ _ h => Bool.noConfusion h
  access := fun b hb => by rw [hx.cycle] at hb; exact (Option.not_mem_none b hb).elim
  deselected := ⟨fun _ => rfl, fun _ => ⟨rfl, rfl⟩⟩
  answers := fun ha => by
    have ht : (obliging d b x).sclkFall.term = .dsack32 := by
      rw [obliging_term, ha]
      rfl
    have hc : (obliging d b x).clk90Rise = (obliging d b x).sclkFall := rfl
    have hclean : (obliging d b x).sclkFall.Clean := ⟨rfl, rfl, fun h => Bool.noConfusion h, id⟩
    rw [hc, ht]
    refine ⟨hclean, hclean, ?_, .inr rfl⟩
    rcases hx.term with e | e <;> rw [e]
    · exact .inl rfl
    · exact .inr rfl

theorem Obliged.step : Obliged (x.step (obliging d b x)) where
  coupled := hx.coupled.step hx.rules
  cycle := rfl
  term := by
    have e : (x.step (obliging d b x)).term =
        if !x.chip.asO_ && !(x.chip.period (obliging d b x)).asO_ then (obliging d b x).sclkFall.term
        else .wait := rfl
    rw [e, obliging_term]
    split_ifs
    · exact .inl rfl
    · exact .inr rfl
    · exact .inl rfl
  data := rfl
  breq := fun hb => by
    have hq : BusRules x (obliging d b x) := hx.rules
    have h := hx.coupled.live hq
    have hC := hx.coupled.step hq
    change (x.chip.period (obliging d b x)).cpu.out.breq = true at hb
    rw [Chip.period_cpu_out h] at hb
    have hs : (x.step (obliging d b x)).chip.cpu.state = _ := Chip.period_cpu_state h
    have hn : (x.step (obliging d b x)).chip.cpu.state.strobing = false := by
      rw [hs]
      refine Bool.eq_false_iff.mpr fun hst => ?_
      -- `BREQ` is up only before the first strobe
      rcases CpuSm.breq_spec hb with hw | hg
      · have h1 := CpuSm.State.not_waiting_of_onBus (CpuSm.State.onBus_of_strobing hst)
        exact Bool.noConfusion (h1.symm.trans hw)
      · exact Bool.noConfusion ((CpuSm.State.not_granted_of_strobing hst).symm.trans hg)
    rw [hC.asO_, hn]
    rfl

theorem Obliged.session :
    Chip.InSession x.chip (obliging d b x) ∧ Chip.NoFlush x.chip (obliging d b x) := by
  have hv : (x.chip.endAccess (obliging d b x)).valid = false := by
    simp [Chip.endAccess, Chip.access, Access.valid, obliging, Period.steady]
  have hn := Access.hit_of_not_valid hv
  exact ⟨⟨hx.rules.noReset, by rw [Access.contrWr, Access.wr, hn, Bool.false_and],
    by rw [Access.acrWr, Access.wr, hn, Bool.false_and], hn _⟩, hn _⟩

/-- The data of a `_DSACK` are those of the last one, and every answer is a `_DSACK`. -/
theorem Obliged.supplying :
    Supplying x (obliging d b x) ∧ RepeatsByDsack x (obliging d b x) := by
  refine ⟨⟨hx.rules, ⟨fun _ _ => ?_, fun _ _ => rfl, fun _ _ _ => rfl⟩, hx.session⟩, fun _ => ?_⟩
  · rw [hx.data]
    exact ⟨rfl, rfl⟩
  · have ht : (obliging d b x).clk90Rise.term = _ := obliging_term
    rw [ht]
    split_ifs <;> rfl

end Obliging

/-- Surroundings that never wait grant the bus and answer. -/
theorem Obliged.environment {x : System} {q : ℕ → Period}
    (hq : ∀ n, Obliged (Runs.states System.step x q n) ∧
      ∃ d b, q n = obliging d b (Runs.states System.step x q n)) : Answering x q ∧ Granting x q := by
  refine ⟨fun m => ⟨m, le_refl m, fun ha => ?_⟩, fun m => ⟨m, le_refl m, fun hb => ?_⟩⟩
  · obtain ⟨-, d, b, e⟩ := hq m
    have ht : (obliging d b (Runs.states System.step x q m)).clk90Rise.term = _ := obliging_term
    rw [e, ht, ha]
    decide
  · obtain ⟨ho, d, b, e⟩ := hq m
    have ha := ho.breq hb
    rw [e]
    exact ⟨rfl, rfl, rfl, ⟨ha, ha⟩, rfl, rfl, rfl⟩

/-- The run in surroundings that never wait, with a WD33C93 that always asks. -/
def obliged (x : System) (n : ℕ) : Period :=
  obliging false 0xA5 (Runs.driven step (obliging false 0xA5) x n)

theorem Obliged.states {x : System} (hx : Obliged x) (n : ℕ) :
    Obliged (Runs.states System.step x (obliged x) n) ∧
      obliged x n = obliging false 0xA5 (Runs.states System.step x (obliged x) n) := by
  have e : Runs.states System.step x (obliged x) n =
      Runs.driven System.step (obliging false 0xA5) x n := Runs.states_driven n
  rw [e]
  exact ⟨Runs.driven_from hx (fun _ h => h.step) n, rfl⟩

theorem Obliged.demanding {x : System} (hx : Obliged x) : Demanding x (obliged x) := by
  intro m
  obtain ⟨k, hk, hd⟩ := exists_not_dack (x := x) (q := obliged x)
    (fun n => (hx.states n).1.coupled.live ((hx.states n).2 ▸ (hx.states n).1.rules)) m
  exact ⟨k, hk, hd, fun n _ _ => ⟨⟨rfl, rfl⟩, (congrArg _ (hx.states n).1.cycle).trans rfl⟩⟩

theorem fresh_obliged (ndmadir a1 : Bool) : Obliged (fresh ndmadir a1) :=
  ⟨(fresh_start ndmadir a1).coupled, rfl, .inl rfl, rfl, fun h => Bool.noConfusion h⟩

theorem read_session_goes_on_fresh :
    ∃ n, 1000 ≤
      (Runs.states System.step (fresh false true) (obliged (fresh false true)) n).written.length :=
  have hx := fresh_obliged false true
  have he := Obliged.environment fun n => ⟨(hx.states n).1, _, _, (hx.states n).2⟩
  read_session_goes_on (fresh_start false true) rfl
    (fun n => (hx.states n).2 ▸ ⟨(hx.states n).1.rules, (hx.states n).1.session⟩)
    he.1 he.2 hx.demanding 1000

theorem write_session_goes_on_fresh :
    ∃ n, 1000 ≤
      (Runs.states System.step (fresh true true) (obliged (fresh true true)) n).given.length :=
  have hx := fresh_obliged true true
  have he := Obliged.environment fun n => ⟨(hx.states n).1, _, _, (hx.states n).2⟩
  write_session_goes_on (fresh_start true true) rfl
    (fun n => (hx.states n).2 ▸ (hx.states n).1.supplying) he.1 he.2 hx.demanding 1000

end System

end Resdmac
