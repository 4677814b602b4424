import Mathlib.Tactic.SplitIfs
import Resdmac.Signals

/-!
# CPU_SM: the Bus-Side State Machine

`RTL/CPU_SM/CPU_SM_INTERNALS.v` (next-state logic and outputs) and
`RTL/CPU_SM/CPU_SM.v` (clocked inputs and outputs).

`State.s0` to `s15` write FIFO entries to memory, `s20` to `s35` fill the FIFO
from memory. A `casex` of the source is a `match` on the same signals in the
same order; its `default : next_state <= state` is the last pattern.
-/

namespace Resdmac

namespace CpuSm

/-! ## §1 States and signals -/

/-- The encodings of `state` that are used. -/
inductive State where
  | s0 | s1 | s2 | s3 | s4 | s6 | s7 | s8 | s10 | s11 | s12 | s15
  | s20 | s21 | s22 | s23 | s24 | s26 | s27 | s28
  | s30 | s31 | s32 | s33 | s34 | s35 | letgo
deriving DecidableEq, Repr

/-- Inputs of `CPU_SM_INTERNALS`. -/
structure Inputs where
  a1 : Bool
  nbgrant : Bool
  boeq3 : Bool
  cycledone : Bool
  dmadir : Bool
  dmaena : Bool
  ndreq : Bool
  ndsack0 : Bool
  ndsack1 : Bool
  fifoempty : Bool
  fifofull : Bool
  flushfifo : Bool
  lastword : Bool
  dsack : Bool
  nsterm : Bool
  nrdfifo : Bool
  nrififo : Bool

/-- What the output block assigns in one state, before the counter arbitration. -/
structure Comb where
  incni : Bool := false
  breq : Bool := false
  size1 : Bool := false
  pas : Bool := false
  pds : Bool := false
  f2cpul : Bool := false
  f2cpuh : Bool := false
  bridgeout : Bool := false
  pllw : Bool := false
  plhw : Bool := false
  intIncfifo : Bool := false
  intDecfifo : Bool := false
  stopflush : Bool := false
  dieh : Bool := false
  diel : Bool := false
  bridgein : Bool := false
  bgack : Bool := false
  rstFifo : Bool := false
deriving DecidableEq

/-- The clocked outputs of `CPU_SM`. -/
structure Out where
  bgack : Bool := false
  breq : Bool := false
  bridgein : Bool := false
  bridgeout : Bool := false
  decfifo : Bool := false
  dieh : Bool := false
  diel : Bool := false
  f2cpuh : Bool := false
  f2cpul : Bool := false
  incfifo : Bool := false
  incni : Bool := false
  incno : Bool := false
  pas : Bool := false
  pds : Bool := false
  plhw : Bool := false
  pllw : Bool := false
  size1 : Bool := false
  stopflush : Bool := false
  rstFifo : Bool := false
deriving DecidableEq

/-- The clocked inputs of `CPU_SM`, with their reset values. -/
structure Clocked where
  bgrant_ : Bool := true
  dmaena : Bool := false
  dreq_ : Bool := true
  flushfifo : Bool := false
  ncycledone : Bool := true
deriving DecidableEq

/-! ## §2 Next-state logic -/

/-- `next_state` of `CPU_SM_INTERNALS`. -/
def nextState (i : Inputs) : State → State
  -- DMA read from FIFO writing to CPU
  | .s0 =>
    match i.dmaena, i.fifofull, i.dmadir, i.flushfifo, i.fifoempty, i.lastword with
    | false, _, _, _, _, _ => .s0
    | true, false, true, false, _, _ => .s0
    | true, false, true, true, true, false => .s0
    | true, false, true, true, false, _ => .s1
    | true, false, true, true, true, true => .s1
    | true, true, true, _, _, _ => .s1
    | true, _, false, _, _, _ => .s20
  -- `DMAENA` is not looked at: the request stands until the bus is granted
  | .s1 =>
    match i.nbgrant, i.cycledone, i.a1, i.lastword, i.boeq3 with
    | true, _, _, _, _ => .s1
    | false, false, _, _, _ => .s1
    | false, true, false, false, _ => .s2
    | false, true, false, true, true => .s2
    | false, true, true, _, _ => .s6
    | false, true, false, true, false => .s10
  -- Attempt to write the entire aligned longword
  | .s2 => .s3
  | .s3 => if i.nsterm then .s4 else .s15
  | .s4 =>
    match i.nsterm, i.dsack, i.ndsack1, i.ndsack0 with
    | false, _, _, _ => .s15
    | true, false, _, _ => .s4
    | true, true, false, false => .s15
    | true, true, false, true => .s6
    | true, true, true, _ => .s4
  -- Write the 16 bit odd word value
  | .s6 => .s7
  | .s7 => if i.nsterm then .s8 else .s15
  | .s8 =>
    match i.nsterm, i.dsack, i.ndsack1, i.ndsack0 with
    | false, _, _, _ => .s15
    | true, false, _, _ => .s8
    | true, true, false, false => .s15
    | true, true, false, true => .s15
    | true, true, true, _ => .s8
  -- Special case to write last byte or word
  | .s10 => .s11
  | .s11 => if i.nsterm then .s12 else .s15
  | .s12 =>
    match i.nsterm, i.dsack, i.ndsack1, i.ndsack0 with
    | false, _, _, _ => .s15
    | true, false, _, _ => .s12
    | true, true, false, false => .s15
    | true, true, false, true => .s15
    | true, true, true, _ => .s12
  -- Check if there is anything left to do
  | .s15 =>
    match i.fifoempty, i.lastword, i.boeq3 with
    | true, false, _ => .letgo
    | true, true, false => .s11
    | true, true, true => .s3
    | false, _, _ => .s3
  -- DMA read from CPU writing to FIFO
  | .s20 =>
    match i.dmaena, i.dmadir, i.fifoempty, i.ndreq, i.flushfifo with
    | true, false, true, false, _ => .s21
    | true, true, _, _, _ => .s0
    | _, _, _, _, _ => .s20
  -- as in `s1`, the request stands whatever `DMAENA` is
  | .s21 =>
    match i.nbgrant, i.cycledone, i.a1 with
    | true, _, _ => .s21
    | false, false, _ => .s21
    | false, true, false => .s22
    | false, true, true => .s30
  | .s22 => .s23
  | .s23 => if i.nsterm then .s24 else .s35
  | .s24 =>
    match i.nsterm, i.dsack, i.ndsack1, i.ndsack0 with
    | false, _, _, _ => .s35
    | true, false, _, _ => .s24
    | true, true, false, false => .s35
    | true, true, false, true => .s26
    | true, true, true, _ => .s24
  -- Responded as 16 bits only
  | .s26 => .s27
  | .s27 => .s28
  -- the second word of a 16-bit port is ended by `DSACK` only
  | .s28 => if i.dsack then .s35 else .s28
  -- Special case for very first odd word access of a DMA
  | .s30 => .s31
  | .s31 => if i.nsterm then .s32 else .s35
  | .s32 =>
    match i.nsterm, i.dsack, i.ndsack1, i.ndsack0 with
    | false, _, _, _ => .s35
    | true, false, _, _ => .s32
    | true, true, false, false => .s35
    | true, true, false, true => .s33
    | true, true, true, _ => .s32
  | .s33 => .s34
  | .s34 => .s35
  -- the only way out of a filling tenure is a full FIFO
  | .s35 => if i.fifofull then .letgo else .s23
  | .letgo => .s0

/-! ## §3 Outputs -/

/-- The output block of `CPU_SM_INTERNALS`. -/
def comb (i : Inputs) : State → Comb
  | .s0 =>
    match i.dmaena, i.fifofull, i.dmadir, i.flushfifo, i.fifoempty, i.lastword with
    | true, false, true, true, true, false => { stopflush := true }
    | true, false, true, true, false, _ => { breq := true }
    | true, false, true, true, true, true => { breq := true }
    | true, true, true, _, _, _ => { breq := true }
    | _, _, _, _, _, _ => {}
  | .s1 =>
    match i.nbgrant, i.cycledone, i.a1, i.lastword, i.boeq3 with
    | false, true, false, false, _ => { breq := true, bgack := true }
    | false, true, true, _, _ => { breq := true, bgack := true }
    -- a flush is taken back when its last word or longword begins, not when it is written
    | false, true, false, true, _ => { breq := true, bgack := true, stopflush := true }
    | _, _, _, _, _ => { breq := true }
  | .s2 => { bgack := true, pas := true, f2cpuh := true, f2cpul := true }
  | .s3 =>
    if i.nsterm then
      { bgack := true, f2cpul := true, f2cpuh := true, pas := true, pds := true }
    else
      { bgack := true, f2cpul := true, f2cpuh := true, intDecfifo := true }
  | .s4 =>
    match i.nsterm, i.dsack, i.ndsack1, i.ndsack0 with
    | true, false, _, _ =>
      { bgack := true, f2cpul := true, f2cpuh := true, pas := true, pds := true }
    | true, true, false, false =>
      { bgack := true, f2cpul := true, f2cpuh := true, intDecfifo := true }
    | false, _, _, _ => { bgack := true, f2cpul := true, f2cpuh := true, intDecfifo := true }
    | true, true, _, _ => { bgack := true, f2cpul := true, f2cpuh := true }
  | .s6 => { bgack := true, pas := true, bridgeout := true, f2cpul := true, size1 := true }
  | .s7 =>
    if i.nsterm then
      { bgack := true, bridgeout := true, f2cpul := true, size1 := true, pas := true, pds := true }
    else
      { bgack := true, bridgeout := true, f2cpul := true, size1 := true, intDecfifo := true }
  | .s8 =>
    match i.nsterm, i.dsack, i.ndsack1, i.ndsack0 with
    | true, false, _, _ =>
      { bgack := true, bridgeout := true, f2cpul := true, size1 := true, pas := true, pds := true }
    | true, true, false, _ =>
      { bgack := true, bridgeout := true, f2cpul := true, size1 := true, intDecfifo := true }
    | false, _, _, _ =>
      { bgack := true, bridgeout := true, f2cpul := true, size1 := true, intDecfifo := true }
    | true, true, true, _ => { bgack := true, bridgeout := true, f2cpul := true, size1 := true }
  | .s10 => { bgack := true, pas := true, f2cpuh := true, f2cpul := true, size1 := true }
  | .s11 =>
    if i.nsterm then
      { bgack := true, f2cpuh := true, f2cpul := true, size1 := true, pas := true, pds := true }
    else
      { bgack := true, f2cpuh := true, f2cpul := true, size1 := true }
  | .s12 =>
    if i.nsterm && !i.dsack then
      { bgack := true, f2cpuh := true, f2cpul := true, size1 := true, pas := true, pds := true }
    else
      { bgack := true, f2cpuh := true, f2cpul := true, size1 := true }
  | .s15 =>
    match i.fifoempty, i.lastword, i.boeq3 with
    | true, false, _ => { bgack := true, stopflush := true }
    | true, true, false =>
      { bgack := true, pas := true, f2cpuh := true, f2cpul := true, size1 := true,
        stopflush := true }
    | true, true, true =>
      { bgack := true, pas := true, f2cpuh := true, f2cpul := true, stopflush := true }
    | false, _, _ => { bgack := true, pas := true, f2cpuh := true, f2cpul := true }
  -- a flush drops what the FIFO holds once no `DREQ` is sampled; a byte that `SCSI_SM` has
  -- begun is not looked at
  | .s20 =>
    { rstFifo := i.flushfifo && !i.fifoempty && i.dmaena && !i.dmadir && i.ndreq
      stopflush := i.flushfifo && !i.fifofull && i.fifoempty && i.dmaena && !i.dmadir }
  | .s21 => { breq := true, bgack := i.cycledone && !i.nbgrant }
  | .s22 =>
    { bgack := true, pas := true, pds := true, plhw := true, pllw := true, diel := true,
      dieh := true }
  | .s23 =>
    if i.nsterm then
      { bgack := true, diel := true, dieh := true, pas := true, pds := true, plhw := true,
        pllw := true }
    else
      { bgack := true, diel := true, dieh := true, intIncfifo := true }
  | .s24 =>
    match i.nsterm, i.dsack, i.ndsack1, i.ndsack0 with
    | true, false, _, _ =>
      { bgack := true, dieh := true, pas := true, pds := true, plhw := true, pllw := true,
        diel := true }
    | false, _, _, _ => { bgack := true, dieh := true, intIncfifo := true, diel := true }
    | true, true, false, false => { bgack := true, dieh := true, intIncfifo := true, diel := true }
    | true, true, _, _ => { bgack := true, dieh := true }
  | .s26 =>
    { bgack := true, pas := true, pds := true, pllw := true, size1 := true, dieh := true,
      bridgein := true }
  | .s27 =>
    { bgack := true, pas := true, pds := true, pllw := true, size1 := true, dieh := true,
      bridgein := true }
  | .s28 =>
    if i.dsack then
      { bgack := true, size1 := true, dieh := true, bridgein := true, intIncfifo := true }
    else
      { bgack := true, size1 := true, dieh := true, bridgein := true, pas := true, pds := true,
        pllw := true }
  | .s30 =>
    { bgack := true, pas := true, pds := true, pllw := true, size1 := true, dieh := true,
      diel := true }
  | .s31 =>
    if i.nsterm then
      { bgack := true, size1 := true, dieh := true, diel := true, pas := true, pds := true,
        pllw := true }
    else
      { bgack := true, size1 := true, dieh := true, diel := true, intIncfifo := true }
  | .s32 =>
    match i.nsterm, i.dsack, i.ndsack1, i.ndsack0 with
    | true, false, _, _ =>
      { bgack := true, size1 := true, pas := true, pds := true, pllw := true, dieh := true,
        diel := true }
    | false, _, _, _ =>
      { bgack := true, size1 := true, dieh := true, diel := true, intIncfifo := true }
    | true, true, false, false =>
      { bgack := true, size1 := true, dieh := true, diel := true, intIncfifo := true }
    | true, true, false, true => { bgack := true, size1 := true, pllw := true }
    | true, true, true, _ => { bgack := true, size1 := true }
  -- the word that came on D31-16 goes through the bridge latch into the lower half
  | .s33 => { bgack := true, pllw := true, bridgein := true }
  | .s34 => { bgack := true, bridgein := true, intIncfifo := true }
  | .s35 =>
    if i.fifofull then { bgack := true, incni := true }
    else
      { bgack := true, incni := true, pas := true, pds := true, plhw := true, pllw := true,
        diel := true, dieh := true }
  | .letgo => {}

/-- The values that the clocked outputs take: the two `assign`s keep the state
machines from stepping the counter at the same time, and `INCNO = int_DECFIFO`. -/
def Comb.registered (c : Comb) (i : Inputs) : Out where
  bgack := c.bgack
  breq := c.breq
  bridgein := c.bridgein
  bridgeout := c.bridgeout
  decfifo := (!c.intIncfifo && !i.nrdfifo) || c.intDecfifo
  dieh := c.dieh
  diel := c.diel
  f2cpuh := c.f2cpuh
  f2cpul := c.f2cpul
  incfifo := (!c.intDecfifo && !i.nrififo) || c.intIncfifo
  incni := c.incni
  incno := c.intDecfifo
  pas := c.pas
  pds := c.pds
  plhw := c.plhw
  pllw := c.pllw
  size1 := c.size1
  stopflush := c.stopflush
  rstFifo := c.rstFifo

end CpuSm

/-! ## §4 Registers and clock edges -/

/-- The registers of `CPU_SM`. -/
structure CpuSm where
  ccreset_ : Bool := false
  state : CpuSm.State := .s0
  inp : CpuSm.Clocked := {}
  out : CpuSm.Out := {}
  /-- `DSACK_LATCHED_[0]` -/
  dsackLatched0_ : Bool := true
  /-- `DSACK_LATCHED_[1]` -/
  dsackLatched1_ : Bool := true

namespace CpuSm

/-- `iDSACK`. -/
def dsack (c : CpuSm) : Bool := !(c.dsackLatched0_ && c.dsackLatched1_)

/-- The asynchronous reset by `negedge CCRESET_`. -/
def reset (c : CpuSm) : CpuSm :=
  { c with
    state := if c.ccreset_ then c.state else .s0
    inp := if c.ccreset_ then c.inp else {}
    out := if c.ccreset_ then c.out else {} }

/-- The asynchronous reset by `posedge AS_`. -/
def settle (c : CpuSm) (as_ : Bool) : CpuSm :=
  { c with
    dsackLatched0_ := as_ || c.dsackLatched0_
    dsackLatched1_ := as_ || c.dsackLatched1_ }

/-- CLK90 rising: state register and clocked outputs. -/
def clk90Rise (c : CpuSm) (i : Inputs) : CpuSm :=
  if c.ccreset_ then
    { c with state := nextState i c.state, out := (comb i c.state).registered i }
  else
    { c with state := .s0, out := {} }

/-- CLK135 rising: clocked inputs. -/
def clk135Rise (c : CpuSm) (a : Clocked) : CpuSm :=
  { c with inp := if c.ccreset_ then a else {} }

/-- SCLK falling: clocked reset and `DSACK_LATCHED_`. -/
def sclkFall (c : CpuSm) (reset_ as_ dsack0_ dsack1_ : Bool) : CpuSm :=
  { c with
    ccreset_ := reset_
    dsackLatched0_ := as_ || dsack0_
    dsackLatched1_ := as_ || dsack1_ }

/-! ## §5 What a step can do -/

/-- The states of a tenure that drains the FIFO into memory, with the wait for it. -/
def State.draining : State → Bool
  | .s1 | .s2 | .s3 | .s4 | .s6 | .s7 | .s8 | .s10 | .s11 | .s12 | .s15 => true
  | _ => false

/-- The states of a tenure that fills the FIFO from memory, with the wait for it. -/
def State.filling : State → Bool
  | .s21 | .s22 | .s23 | .s24 | .s26 | .s27 | .s28 | .s30 | .s31 | .s32 | .s33 | .s34 | .s35 => true
  | _ => false

/-- The states in which the FIFO entry at the read pointer is being delivered. -/
def State.delivering : State → Bool
  | .s2 | .s3 | .s4 | .s6 | .s7 | .s8 => true
  | _ => false

/-- The states in which the FIFO entry at the write pointer is being loaded. -/
def State.loading : State → Bool
  | .s22 | .s23 | .s24 | .s26 | .s27 | .s28 | .s30 | .s31 | .s32 | .s33 | .s34 => true
  | _ => false

/-- The states in which the chip is the bus master. -/
def State.onBus : State → Bool
  | .s0 | .s1 | .s20 | .s21 => false
  | _ => true

/-- The states in which `AS_O_` is low. -/
def State.strobing : State → Bool
  | .s3 | .s4 | .s7 | .s8 | .s11 | .s12 | .s23 | .s24 | .s27 | .s28 | .s31 | .s32 => true
  | _ => false

theorem State.filling_of_loading {st : State} (h : st.loading = true) : st.filling = true := by
  cases st <;> simp_all [State.loading, State.filling]

theorem State.draining_of_delivering {st : State} (h : st.delivering = true) :
    st.draining = true := by
  cases st <;> simp_all [State.delivering, State.draining]

theorem State.draining_of_strobing {st : State} (h : st.strobing = true)
    (hf : st.filling = false) : st.draining = true := by
  cases st <;> first | rfl | exact Bool.noConfusion h | exact Bool.noConfusion hf

theorem State.beq_s35 {st : State} (h : st.filling = false) : (st == .s35) = false := by
  cases st <;> first | rfl | cases h

section Moves

variable {i : Inputs} {st : State}

theorem intDecfifo_spec (h : (comb i st).intDecfifo = true) :
    st.delivering = true ∧ nextState i st = .s15 := by
  cases st <;> simp only [comb] at h <;> (try split at h) <;>
    simp_all [nextState, State.delivering]
  cases i.ndsack0 <;> rfl

theorem intDecfifo_of_not_delivering (h : st.delivering = false) :
    (comb i st).intDecfifo = false := by
  refine Bool.eq_false_iff.mpr fun hd => ?_
  exact Bool.noConfusion (h.symm.trans (intDecfifo_spec hd).1)

theorem intIncfifo_spec (h : (comb i st).intIncfifo = true) :
    st.loading = true ∧ nextState i st = .s35 := by
  cases st <;> simp only [comb] at h <;> (try split at h) <;>
    simp_all [nextState, State.loading]

theorem nextState_eq_s35 (h : nextState i st = .s35) : (comb i st).intIncfifo = true := by
  cases st <;> simp only [nextState] at h <;> (try split at h) <;> simp_all [comb]

theorem nextState_beq_s35 : (nextState i st == .s35) = (comb i st).intIncfifo := by
  rw [Bool.eq_iff_iff, beq_iff_eq]
  exact ⟨nextState_eq_s35, fun h => (intIncfifo_spec h).2⟩

theorem incni_eq : (comb i st).incni = (st == .s35) := by
  cases st <;> simp only [comb] <;> (try split) <;> rfl

theorem rstFifo_spec (h : (comb i st).rstFifo = true) :
    st = .s20 ∧ i.dmadir = false ∧ i.fifoempty = false ∧ i.flushfifo = true ∧
      i.dmaena = true ∧ i.ndreq = true := by
  cases st <;> simp only [comb] at h <;> (try split at h) <;> simp_all

theorem nextState_draining (hi : i.dmadir = false) (h : st.draining = false) :
    (nextState i st).draining = false := by
  cases st <;> simp only [nextState] <;> (try split) <;> simp_all [State.draining]

theorem nextState_filling (hi : i.dmadir = true) (h : st.filling = false) :
    (nextState i st).filling = false := by
  cases st <;> simp only [nextState] <;> (try split) <;> simp_all [State.filling]

/-- A longword strobe is armed only for an entry that is being loaded. -/
theorem strobe_spec (h : (comb i st).pllw = true ∨ (comb i st).plhw = true) :
    (nextState i st).loading = true := by
  cases st <;> simp only [comb] at h <;> (try split at h) <;>
    simp_all [nextState, State.loading]

theorem nextState_loading (h : (nextState i st).loading = true) :
    st.loading = true ∨ st = .s21 ∨ st = .s35 ∧ i.fifofull = false := by
  cases st <;> simp only [nextState] at h <;> (try split at h) <;> simp_all [State.loading]

theorem nextState_delivering (h : (nextState i st).delivering = true) :
    st.delivering = true ∨
      st = .s1 ∧ i.nbgrant = false ∧ i.cycledone = true ∧
        (i.lastword = true → i.a1 = true ∨ i.boeq3 = true) ∨
      st = .s15 ∧ (i.fifoempty = true → i.lastword = true ∧ i.boeq3 = true) := by
  cases st <;> simp only [nextState] at h <;> (try split at h) <;> simp_all [State.delivering]

theorem nextState_eq_s1 (h : nextState i st = .s1) :
    st = .s1 ∨ st = .s0 ∧ (i.fifofull = true ∨ i.fifoempty = false ∨ i.lastword = true) := by
  cases st <;> simp only [nextState] at h <;> (try split at h) <;> simp_all

theorem stopflush_of_nextState_eq_s1 (h : nextState i st = .s1) :
    (comb i st).stopflush = false ∧ (comb i st).intDecfifo = false := by
  cases st <;> simp only [nextState] at h <;> (try split at h) <;> simp_all [comb]

theorem nextState_eq_s21 (h : nextState i st = .s21) :
    st = .s21 ∨ st = .s20 ∧ i.fifoempty = true := by
  cases st <;> simp only [nextState] at h <;> (try split at h) <;> simp_all

/-! ### The bus -/

/-- The states in which `CPU_SM` waits for the bus. -/
def State.waiting : State → Bool
  | .s1 | .s21 => true
  | _ => false

theorem State.eq_of_waiting {st : State} (h : st.waiting = true) : st = .s1 ∨ st = .s21 := by
  cases st <;> simp_all [State.waiting]

/-- The first states of a tenure. -/
def State.granted : State → Bool
  | .s2 | .s6 | .s10 | .s22 | .s30 => true
  | _ => false

/-- The guards under which `s0` and `s20` request the bus. -/
def Inputs.requests (i : Inputs) : State → Bool
  | .s0 => i.dmaena && i.dmadir &&
      (i.fifofull || i.flushfifo && (!i.fifoempty || i.lastword))
  | .s20 => i.dmaena && !i.dmadir && i.fifoempty && !i.ndreq
  | _ => false

theorem idle_spec (hs : st = .s0 ∨ st = .s20) :
    (comb i st).pas = false ∧ (comb i st).bgack = false ∧
      (if i.requests st then (nextState i st).waiting = true
        else nextState i st = .s0 ∨ nextState i st = .s20) := by
  obtain ⟨_, _, _, _, dmadir, dmaena, ndreq, _, _, fifoempty, fifofull, flushfifo, lastword,
    _, _, _, _⟩ := i
  rcases hs with rfl | rfl
  · cases dmaena <;> cases fifofull <;> cases dmadir <;> cases flushfifo <;>
      cases fifoempty <;> cases lastword <;> simp [comb, nextState, Inputs.requests, State.waiting]
  · cases dmaena <;> cases dmadir <;> cases fifoempty <;> cases ndreq <;>
      simp [comb, nextState, Inputs.requests, State.waiting]

/-- In the read direction `s0` asks for the bus or stays, and a flush that it ends has
nothing to deliver. -/
theorem s0_spec (hd : i.dmadir = true) :
    nextState i .s0 = (if i.requests .s0 then .s1 else .s0) ∧
      ((comb i .s0).stopflush = true → i.fifoempty = true ∧ i.lastword = false) := by
  obtain ⟨_, _, _, _, dmadir, dmaena, _, _, _, fifoempty, fifofull, flushfifo, lastword,
    _, _, _, _⟩ := i
  cases hd
  cases dmaena <;> cases fifofull <;> cases flushfifo <;> cases fifoempty <;> cases lastword <;>
    simp [nextState, comb, Inputs.requests]

theorem waiting_spec (hs : st.waiting = true) :
    (comb i st).pas = false ∧
      (if !i.nbgrant && i.cycledone then
        (nextState i st).granted = true ∧ (comb i st).bgack = true
      else nextState i st = st ∧ (comb i st).bgack = false) := by
  obtain ⟨a1, nbgrant, boeq3, cycledone, _, _, _, _, _, _, _, _, lastword, _, _, _, _⟩ := i
  rcases State.eq_of_waiting hs with rfl | rfl
  · cases nbgrant <;> cases cycledone <;> cases a1 <;> cases lastword <;> cases boeq3 <;>
      simp [comb, nextState, State.granted]
  · cases nbgrant <;> cases cycledone <;> cases a1 <;> simp [comb, nextState, State.granted]

/-- Off the bus, `CPU_SM` is idle or waits, and it drives no strobe. -/
theorem not_bgack_spec (h : (comb i st).bgack = false) :
    (nextState i st = .s0 ∨ nextState i st = .s20 ∨ (nextState i st).waiting = true) ∧
      (comb i st).pas = false := by
  have hs : st = .s0 ∨ st = .s20 ∨ st.waiting = true ∨ st = .letgo := by
    cases st <;> simp only [comb] at h <;> (try split at h) <;> simp_all [State.waiting]
  rcases hs with rfl | rfl | hs | rfl
  · obtain ⟨hp, -, hn⟩ := idle_spec (i := i) (.inl rfl)
    refine ⟨?_, hp⟩
    split_ifs at hn
    · exact .inr (.inr hn)
    · exact hn.imp_right .inl
  · obtain ⟨hp, -, hn⟩ := idle_spec (i := i) (.inr rfl)
    refine ⟨?_, hp⟩
    split_ifs at hn
    · exact .inr (.inr hn)
    · exact hn.imp_right .inl
  · obtain ⟨hp, hn⟩ := waiting_spec (i := i) hs
    rw [h] at hn
    split_ifs at hn
    · exact hn.2.elim
    · exact ⟨.inr (.inr (by rw [hn.1]; exact hs)), hp⟩
  · exact ⟨.inl rfl, rfl⟩

theorem granted_spec (hs : st.granted = true) : (comb i st).pas = true := by
  cases st <;> first | rfl | cases hs

theorem State.not_granted_of_strobing {st : State} (h : st.strobing = true) :
    st.granted = false := by
  cases st <;> first | rfl | exact Bool.noConfusion h

theorem State.onBus_of_strobing {st : State} (h : st.strobing = true) : st.onBus = true := by
  cases st <;> first | rfl | exact Bool.noConfusion h

theorem State.not_strobing_of_not_onBus {st : State} (h : st.onBus = false) :
    st.strobing = false := by
  cases st <;> first | rfl | exact Bool.noConfusion h

theorem bgack_eq : (comb i st).bgack = (nextState i st).onBus := by
  cases st <;> simp only [comb, nextState] <;> (repeat' split) <;> simp_all [State.onBus]

theorem pas_eq (h : st.strobing = true → i.dsack = true → i.ndsack1 = false) :
    (comb i st).pas = (nextState i st).strobing := by
  cases st <;> simp only [comb, nextState] <;> (repeat' split) <;> simp_all [State.strobing]

theorem onBus_of_nextState (h : (nextState i st).onBus = true)
    (hg : (nextState i st).granted = false) : st.onBus = true := by
  cases st <;> simp only [nextState] at h hg <;> (repeat' split at h) <;>
    simp_all [State.granted, State.onBus]

/-- The bus is taken only on a grant. -/
theorem nextState_onBus (h : (nextState i st).onBus = true) :
    st.onBus = true ∨ i.nbgrant = false ∧ i.cycledone = true := by
  cases st <;> simp only [nextState] at h <;> (try split at h) <;> simp_all [State.onBus]

/-- `AS_O_` is driven low only in and before a state that expects an answer. -/
theorem strobing_of_pas (h : (comb i st).pas = true) : (nextState i st).strobing = true := by
  cases st <;> simp only [comb] at h <;> (repeat' split at h) <;>
    simp_all [nextState, State.strobing]

theorem pas_of_pds (h : (comb i st).pds = true) : (comb i st).pas = true := by
  cases st <;> simp only [comb] at h ⊢ <;> (repeat' split at h) <;> simp_all

theorem State.onBus_of_granted {st : State} (h : st.granted = true) : st.onBus = true := by
  cases st <;> first | rfl | exact Bool.noConfusion h

/-- Once the bus is left, `CPU_SM` comes from `letgo`. -/
theorem nextState_not_onBus (hs : st.onBus = true) (h : (nextState i st).onBus = false) :
    st = .letgo := by
  cases st <;> simp only [nextState] at h <;> (repeat' split at h) <;>
    first | rfl | exact Bool.noConfusion h | exact Bool.noConfusion hs

/-- Off the bus, and in the clock that leaves it, `CPU_SM` moves nothing in the FIFO. -/
theorem fifo_of_not_onBus (h : st.onBus = false ∨ (nextState i st).onBus = false) :
    (comb i st).incni = false ∧ (comb i st).intDecfifo = false ∧ (comb i st).intIncfifo = false ∧
      st.loading = false := by
  have hs : st.onBus = false ∨ st = .letgo := by
    rcases h with h | h
    · exact .inl h
    · cases hb : st.onBus with
      | false => exact .inl rfl
      | true => exact .inr (nextState_not_onBus hb h)
  cases st <;> simp_all [State.onBus, State.loading] <;> simp only [comb] <;> (repeat' split) <;>
    simp

theorem breq_spec (h : (comb i st).breq = true) :
    (nextState i st).waiting = true ∨ (nextState i st).granted = true := by
  have hs : st = .s0 ∨ st.waiting = true := by
    cases st <;> simp only [comb] at h <;> (repeat' split at h) <;> simp_all [State.waiting]
  rcases hs with rfl | hs
  · obtain ⟨_, _, _, _, dmadir, dmaena, _, _, _, fifoempty, fifofull, flushfifo, lastword,
      _, _, _, _⟩ := i
    cases dmaena <;> cases fifofull <;> cases dmadir <;> cases flushfifo <;>
      cases fifoempty <;> cases lastword <;> first | exact .inl rfl | exact Bool.noConfusion h
  · have hn := (waiting_spec (i := i) hs).2
    split_ifs at hn
    · exact .inr hn.1
    · exact .inl (by rw [hn.1]; exact hs)

/-- Where the bus is neither waited for nor got, it is not requested. -/
theorem not_breq (hw : (nextState i st).waiting = false) (hg : (nextState i st).granted = false) :
    (comb i st).breq = false := by
  refine Bool.eq_false_iff.mpr fun hb => ?_
  rcases breq_spec hb with e | e
  · exact Bool.noConfusion (hw.symm.trans e)
  · exact Bool.noConfusion (hg.symm.trans e)

theorem breq_of_waiting (h : st.waiting = true) : (comb i st).breq = true := by
  rcases State.eq_of_waiting h with rfl | rfl
  · simp only [comb]
    split <;> rfl
  · rfl

/-! ### Memory cycles -/

/-- Memory answered with `prev` at the last SCLK falling edge, which latched a `_DSACK`,
and answers with `t` now. -/
structure Inputs.Answered (i : Inputs) (prev t : Term) : Prop where
  nsterm : i.nsterm = !t.isSterm
  dsack : i.dsack = prev.isDsack
  port : prev.isDsack = true → t = prev ∧ i.ndsack1 = false ∧ i.ndsack0 = prev.isNarrow

/-- The states that write a whole longword. -/
def State.whole : State → Bool
  | .s2 | .s3 | .s4 => true
  | _ => false

/-- The states that write the lower word of a longword. -/
def State.low : State → Bool
  | .s6 | .s7 | .s8 => true
  | _ => false

/-- The states that write the word left over by a flush. -/
def State.tail : State → Bool
  | .s10 | .s11 | .s12 => true
  | _ => false

/-- A cycle of a draining tenure waits, or it ends and what was written is dealt with:
all of the entry at the read pointer, its upper half with the lower one to follow, its
lower half, or the last word of a flush, which is no entry. -/
theorem drain_spec {prev t : Term} (ha : i.Answered prev t) (hs : st.strobing = true)
    (hd : st.draining = true) :
    ((comb i st).pas = true ∧ (comb i st).intDecfifo = false ∧
      (nextState i st).whole = st.whole ∧ (nextState i st).low = st.low ∧
      (nextState i st).tail = st.tail) ∨
    ((comb i st).pas = false ∧ t ≠ .wait ∧ (comb i st).f2cpul = true ∧
      ((st.whole = true ∧ (comb i st).f2cpuh = true ∧ (comb i st).size1 = false ∧
          t.isNarrow = false ∧ (comb i st).intDecfifo = true ∧ nextState i st = .s15) ∨
        (st.whole = true ∧ (comb i st).f2cpuh = true ∧ (comb i st).size1 = false ∧
          t.isNarrow = true ∧ (comb i st).intDecfifo = false ∧ nextState i st = .s6) ∨
        (st.low = true ∧ (comb i st).f2cpuh = false ∧ (comb i st).bridgeout = true ∧
          (comb i st).size1 = true ∧ (comb i st).intDecfifo = true ∧ nextState i st = .s15) ∨
        (st.tail = true ∧ (comb i st).f2cpuh = true ∧ (comb i st).size1 = true ∧
          (comb i st).intDecfifo = false ∧ nextState i st = .s15))) := by
  obtain ⟨a1, nbgrant, boeq3, cycledone, dmadir, dmaena, ndreq, ndsack0, ndsack1, fifoempty,
    fifofull, flushfifo, lastword, dsack, nsterm, nrdfifo, nrififo⟩ := i
  obtain ⟨h1, h2, h3⟩ := ha
  simp only at h1 h2 h3
  subst h1 h2
  cases st <;> first | exact Bool.noConfusion hs | exact Bool.noConfusion hd | skip
  all_goals cases prev <;> cases t <;>
    simp_all [comb, nextState, Term.isSterm, Term.isNarrow, Term.isDsack, State.whole,
      State.low, State.tail]

theorem State.delivering_of_whole {st : State} (h : st.whole = true) : st.delivering = true := by
  cases st <;> first | rfl | exact Bool.noConfusion h

theorem State.delivering_of_low {st : State} (h : st.low = true) : st.delivering = true := by
  cases st <;> first | rfl | exact Bool.noConfusion h

theorem State.low_of_whole {st : State} (h : st.whole = true) : st.low = false := by
  cases st <;> first | rfl | exact Bool.noConfusion h

theorem State.not_delivering_of_tail {st : State} (h : st.tail = true) :
    st.delivering = false := by
  cases st <;> first | rfl | exact Bool.noConfusion h

theorem nextState_tail (h : (nextState i st).tail = true) :
    st.tail = true ∨ i.lastword = true := by
  cases st <;> simp only [nextState] at h <;> (try split at h) <;> simp_all [State.tail]

/-- An entry is being delivered until it is stepped over. -/
theorem nextState_delivering_of (h : st.delivering = true)
    (hd : (comb i st).intDecfifo = false) : (nextState i st).delivering = true := by
  cases st <;> first | exact Bool.noConfusion h | skip
  all_goals simp only [comb, nextState] at hd ⊢; (repeat' split at hd) <;>
    simp_all [State.delivering]
  cases h1 : i.ndsack1 <;> cases h0 : i.ndsack0 <;> simp_all

theorem nextState_tail_of (h : st.tail = true) (hs : st.strobing = false) :
    (nextState i st).tail = true := by
  cases st <;> first | rfl | exact Bool.noConfusion h | exact Bool.noConfusion hs

/-- A flush ends with nothing left, with the word left over still to be written, or with a
last longword still to be written. -/
theorem stopflush_spec (hd : i.dmadir = true) (h : (comb i st).stopflush = true) :
    (st = .s0 ∧ i.dmaena = true ∧ i.flushfifo = true ∧ i.fifoempty = true ∧ i.lastword = false ∧
        nextState i st = .s0) ∨
      (st = .s1 ∧ i.nbgrant = false ∧ i.cycledone = true ∧ i.a1 = false ∧ i.lastword = true ∧
        nextState i st = if i.boeq3 then .s2 else .s10) ∨
      (st = .s15 ∧ i.fifoempty = true ∧
        nextState i st = if i.lastword then if i.boeq3 then .s3 else .s11 else .letgo) := by
  cases st <;> simp only [comb] at h <;> (repeat' split at h) <;>
    simp_all [nextState]
  cases i.boeq3 <;> rfl

/-- A filling session ends a flush only in `s20`, with nothing in the FIFO. -/
theorem stopflush_spec_filling (hd : i.dmadir = false) (hs : st.draining = false)
    (h : (comb i st).stopflush = true) :
    st = .s20 ∧ i.fifoempty = true ∧ (nextState i st = .s20 ∨ nextState i st = .s21) := by
  cases st <;> first | exact Bool.noConfusion hs | skip
  all_goals simp only [comb] at h; (repeat' split at h) <;> simp_all [nextState]
  cases i.ndreq <;> simp

/-- A draining tenure ends with the end of a flush. -/
theorem stopflush_of_letgo (hf : st.filling = false) (h : nextState i st = .letgo) :
    (comb i st).stopflush = true := by
  cases st <;> first | exact Bool.noConfusion hf | skip
  all_goals simp only [nextState] at h; (repeat' split at h) <;> simp_all [comb]

/-- The last word of a flush is begun with `STOPFLUSH`. -/
theorem stopflush_of_tail (ht : st.tail = false) (h : (nextState i st).tail = true) :
    (comb i st).stopflush = true := by
  cases st <;> first | exact Bool.noConfusion ht | skip
  all_goals simp only [nextState] at h; (repeat' split at h) <;> simp_all [State.tail, comb]

theorem stopflush_eq (hd : i.dmadir = true) (hf : i.fifofull = true → i.fifoempty = false) :
    (comb i st).stopflush = true ↔
      (st = .s0 ∧ i.dmaena = true ∧ i.flushfifo = true ∧ i.fifoempty = true ∧ i.lastword = false) ∨
      (st = .s1 ∧ i.nbgrant = false ∧ i.cycledone = true ∧ i.a1 = false ∧ i.lastword = true) ∨
      (st = .s15 ∧ i.fifoempty = true) := by
  constructor
  · intro h
    rcases stopflush_spec hd h with ⟨h1, h2, h3, h4, h5, -⟩ | ⟨h1, h2, h3, h4, h5, -⟩ | ⟨h1, h2, -⟩
    · exact .inl ⟨h1, h2, h3, h4, h5⟩
    · exact .inr (.inl ⟨h1, h2, h3, h4, h5⟩)
    · exact .inr (.inr ⟨h1, h2⟩)
  · rintro (⟨rfl, h2, h3, h4, h5⟩ | ⟨rfl, h2, h3, h4, h5⟩ | ⟨rfl, h2⟩)
    · have hn : i.fifofull = false := by
        cases hx : i.fifofull with
        | false => rfl
        | true => exact Bool.noConfusion (h4.symm.trans (hf hx))
      simp only [comb, h2, hn, hd, h3, h4, h5]
    · simp only [comb, h2, h3, h4, h5]
    · simp only [comb, h2]
      cases i.lastword <;> cases i.boeq3 <;> rfl

theorem strobing_of_intDecfifo (h : (comb i st).intDecfifo = true) : st.strobing = true := by
  cases st <;> simp only [comb] at h <;> (try split at h) <;> simp_all [State.strobing]

/-- The states of a draining tenure that follow its first strobe, or that are entered
with `A1` clear. -/
def State.aligned : State → Bool
  | .s2 | .s3 | .s4 | .s7 | .s8 | .s10 | .s11 | .s12 | .s15 => true
  | _ => false

theorem State.aligned_of_tail {st : State} (h : st.tail = true) :
    st.aligned = true ∧ st.low = false := by
  cases st <;> first | exact ⟨rfl, rfl⟩ | exact Bool.noConfusion h

theorem State.aligned_of_strobing {st : State} (h : st.strobing = true)
    (hd : st.draining = true) : st.aligned = true := by
  cases st <;> first | rfl | exact Bool.noConfusion h | exact Bool.noConfusion hd

theorem nextState_aligned (h : (nextState i st).aligned = true) :
    st.aligned = true ∨ (comb i st).pas = true ∨ i.a1 = false := by
  cases st <;> simp only [nextState] at h <;> (try split at h) <;>
    simp_all [State.aligned, comb]

/-- In a draining tenure the first strobe comes with `A1` clear, or it is that of `s6`. -/
theorem aligned_of_pas (hf : st.filling = false) (h : (comb i st).pas = true) :
    st.aligned = true ∨ st.delivering = true := by
  cases st <;> first
    | exact Bool.noConfusion hf
    | exact .inl rfl
    | exact .inr rfl
    | (simp only [comb] at h; (repeat' split at h) <;> simp at h)

/-- Outside a cycle `A1` and the lower half are exchanged for each other. -/
theorem low_spec (hs : st.strobing = false) (hf : st.filling = false)
    (ha : st.aligned = true → i.a1 = false) :
    (i.a1 && !(comb i st).pas || (nextState i st).low) = (i.a1 || st.low) := by
  obtain ⟨a1, nbgrant, boeq3, cycledone, dmadir, dmaena, ndreq, ndsack0, ndsack1, fifoempty,
    fifofull, flushfifo, lastword, dsack, nsterm, nrdfifo, nrififo⟩ := i
  cases a1 with
  | false =>
      simp only [Bool.false_and, Bool.false_or]
      cases st <;> first | exact Bool.noConfusion hs | exact Bool.noConfusion hf | skip
      case s0 =>
        cases dmaena <;> cases fifofull <;> cases dmadir <;> cases flushfifo <;>
          cases fifoempty <;> cases lastword <;> rfl
      case s1 => cases nbgrant <;> cases cycledone <;> cases lastword <;> cases boeq3 <;> rfl
      case s15 => cases fifoempty <;> cases lastword <;> cases boeq3 <;> rfl
      case s20 => cases dmaena <;> cases dmadir <;> cases fifoempty <;> cases ndreq <;> rfl
      all_goals rfl
  | true =>
      simp only [Bool.true_and, Bool.true_or]
      cases st <;> first
        | exact Bool.noConfusion hs | exact Bool.noConfusion hf | exact Bool.noConfusion (ha rfl)
        | skip
      case s0 =>
        cases dmaena <;> cases fifofull <;> cases dmadir <;> cases flushfifo <;>
          cases fifoempty <;> cases lastword <;> rfl
      case s1 => cases nbgrant <;> cases cycledone <;> cases lastword <;> cases boeq3 <;> rfl
      all_goals rfl

/-! ### Loading an entry -/

/-- The states whose strobes load both halves of the entry. -/
def State.wide : State → Bool
  | .s23 | .s24 => true
  | _ => false

/-- The states that read the second word from a 16-bit port. -/
def State.second : State → Bool
  | .s26 | .s27 | .s28 => true
  | _ => false

/-- The states of the first word of a session with `A1` set. -/
def State.odd : State → Bool
  | .s30 | .s31 | .s32 | .s33 | .s34 => true
  | _ => false

/-- The states that bring a word of `D31-16` into the lower half of the entry. -/
def State.bridging : State → Bool
  | .s33 | .s34 => true
  | _ => false

/-- The states whose strobe loads the lower half. -/
def State.loadsLow : State → Bool
  | .s23 | .s24 | .s27 | .s28 | .s31 | .s32 | .s33 | .s34 => true
  | _ => false

/-- The states in which the lower half comes from the bridge latch. -/
def State.latched : State → Bool
  | .s27 | .s28 | .s34 => true
  | _ => false

/-- The states in which the lower half comes from `D15-0`. -/
def State.direct : State → Bool
  | .s23 | .s24 | .s31 | .s32 => true
  | _ => false

/-- The states of a filling tenure that follow its first strobe, or that are entered with
`A1` clear. -/
def State.begun : State → Bool
  | .s22 | .s23 | .s24 | .s26 | .s27 | .s28 | .s31 | .s32 | .s33 | .s34 | .s35 => true
  | _ => false

theorem plhw_eq (h : st.strobing = true → i.dsack = true → i.ndsack1 = false) :
    (comb i st).plhw = (nextState i st).wide := by
  cases st <;> simp only [comb, nextState] <;> (repeat' split) <;> simp_all [State.wide, State.strobing]

theorem pllw_eq (h : st.strobing = true → i.dsack = true → i.ndsack1 = false) :
    (comb i st).pllw = (nextState i st).loadsLow := by
  cases st <;> simp only [comb, nextState] <;> (repeat' split) <;>
    simp_all [State.loadsLow, State.strobing]

theorem dieh_of_wide (h : st.strobing = true → i.dsack = true → i.ndsack1 = false)
    (hn : (nextState i st).wide = true) : (comb i st).dieh = true := by
  cases st <;> simp only [nextState] at hn <;> (repeat' split at hn) <;>
    simp_all [comb, State.wide, State.strobing]

theorem diel_of_direct (h : st.strobing = true → i.dsack = true → i.ndsack1 = false)
    (hn : (nextState i st).direct = true) : (comb i st).diel = true := by
  cases st <;> simp only [nextState] at hn <;> (repeat' split at hn) <;>
    simp_all [comb, State.direct, State.strobing]

theorem bridgein_of_latched (hn : (nextState i st).latched = true) :
    (comb i st).bridgein = true ∧ (comb i st).diel = false := by
  cases st <;> simp only [nextState] at hn <;> (repeat' split at hn) <;>
    simp_all [comb, State.latched]

/-- A cycle of a filling tenure waits, or it ends and what was read is dealt with: a
whole entry, its upper half with a second cycle to follow, that second cycle, or the odd
word of a 32-bit port or of a 16-bit one, which is still to be bridged. -/
theorem fill_spec {prev t : Term} (ha : i.Answered prev t) (hs : st.strobing = true)
    (hd : st.draining = false) :
    ((comb i st).pas = true ∧ (comb i st).intIncfifo = false ∧
      (nextState i st).second = st.second ∧ (nextState i st).odd = st.odd ∧
      (nextState i st).bridging = false ∧ (nextState i st).onBus = true) ∨
    ((comb i st).pas = false ∧ (t.isSterm = true ∨ prev.isDsack = true) ∧
      ((st.wide = true ∧ t.isNarrow = false ∧ (comb i st).bridgein = false ∧
          (comb i st).size1 = false ∧ (comb i st).intIncfifo = true ∧ nextState i st = .s35) ∨
        (st = .s24 ∧ t.isNarrow = true ∧ (comb i st).intIncfifo = false ∧
          nextState i st = .s26) ∨
        (st = .s28 ∧ prev.isDsack = true ∧ (comb i st).bridgein = true ∧
          (comb i st).intIncfifo = true ∧ nextState i st = .s35) ∨
        ((st = .s31 ∨ st = .s32) ∧ t.isNarrow = false ∧ (comb i st).bridgein = false ∧
          (comb i st).size1 = true ∧ (comb i st).intIncfifo = true ∧ nextState i st = .s35) ∨
        (st = .s32 ∧ t.isNarrow = true ∧ prev.isDsack = true ∧ (comb i st).pds = false ∧
          (comb i st).intIncfifo = false ∧ nextState i st = .s33))) := by
  obtain ⟨a1, nbgrant, boeq3, cycledone, dmadir, dmaena, ndreq, ndsack0, ndsack1, fifoempty,
    fifofull, flushfifo, lastword, dsack, nsterm, nrdfifo, nrififo⟩ := i
  obtain ⟨h1, h2, h3⟩ := ha
  simp only at h1 h2 h3
  subst h1 h2
  cases st <;> first | exact Bool.noConfusion hs | exact Bool.noConfusion hd | skip
  all_goals cases prev <;> cases t <;>
    simp_all [comb, nextState, Term.isDsack, Term.isSterm, Term.isNarrow, State.wide, State.second,
      State.odd, State.bridging, State.onBus]

/-- Outside a cycle a filling tenure ends no read, and only the bridge adds an entry. -/
theorem fill_idle_spec (hs : st.strobing = false) (hd : st.draining = false)
    (hi : i.dmadir = false) :
    (comb i st).intIncfifo = (st == .s34) ∧
      (st.second = true → nextState i st = .s27) ∧
      (st.bridging = true → (comb i st).pds = false ∧
        (nextState i st = .s34 ∧ st = .s33 ∨ nextState i st = .s35 ∧ st = .s34)) ∧
      (st.second = false → (nextState i st).second = false) ∧
      (st.bridging = false → (nextState i st).bridging = false) := by
  obtain ⟨a1, nbgrant, boeq3, cycledone, dmadir, dmaena, ndreq, ndsack0, ndsack1, fifoempty,
    fifofull, flushfifo, lastword, dsack, nsterm, nrdfifo, nrififo⟩ := i
  cases hi
  cases st <;> first | exact Bool.noConfusion hs | exact Bool.noConfusion hd | skip
  case s0 =>
    cases dmaena <;> cases fifofull <;> cases flushfifo <;> cases fifoempty <;> cases lastword <;>
      simp [comb, nextState, State.second, State.bridging]
  case s20 =>
    cases dmaena <;> cases fifoempty <;> cases ndreq <;>
      simp [comb, nextState, State.second, State.bridging]
  case s21 =>
    cases nbgrant <;> cases cycledone <;> cases a1 <;>
      simp [comb, nextState, State.second, State.bridging]
  case s35 => cases fifofull <;> simp [comb, nextState, State.second, State.bridging]
  all_goals simp [comb, nextState, State.second, State.bridging]

theorem pds_of_pas (hd : st.draining = false) (h : (comb i st).pas = true) :
    (comb i st).pds = true := by
  cases st <;> first | exact Bool.noConfusion hd | skip
  all_goals simp only [comb] at h ⊢ <;> (repeat' split at h) <;> simp_all

theorem beq_s35_of_nextState_second (h : (nextState i st).second = true) :
    (st == .s35) = false := by
  cases st <;> simp only [nextState] at h <;> (repeat' split at h) <;> simp_all [State.second]

theorem State.excl_of_second {st : State} (h : st.second = true) :
    st.wide = false ∧ st.bridging = false ∧ st.odd = false ∧ st.begun = true := by
  cases st <;> first | exact ⟨rfl, rfl, rfl, rfl⟩ | exact Bool.noConfusion h

theorem State.not_bridging_of_strobing {st : State} (h : st.strobing = true) :
    st.bridging = false := by
  cases st <;> first | rfl | exact Bool.noConfusion h

theorem State.excl_of_wide {st : State} (h : st.wide = true) :
    st.direct = true ∧ st.second = false ∧ st.bridging = false ∧ st.odd = false ∧
      st.begun = true := by
  cases st <;> first | exact ⟨rfl, rfl, rfl, rfl, rfl⟩ | exact Bool.noConfusion h

theorem loadsLow_of_intIncfifo (h : (comb i st).intIncfifo = true) : st.loadsLow = true := by
  cases st <;> simp only [comb] at h <;> (try split at h) <;> simp_all [State.loadsLow]

theorem State.loading_of_loadsLow {st : State} (h : st.loadsLow = true) : st.loading = true := by
  cases st <;> first | rfl | exact Bool.noConfusion h

theorem State.wide_of_not_loadsLow {st : State} (h : st.loadsLow = false) :
    st.wide = false ∧ st.direct = false ∧ st.latched = false := by
  cases st <;> first | exact ⟨rfl, rfl, rfl⟩ | exact Bool.noConfusion h

theorem nextState_begun (h : (nextState i st).begun = true) :
    st.begun = true ∨ (comb i st).pas = true ∨ i.a1 = false := by
  cases st <;> simp only [nextState] at h <;> (try split at h) <;>
    simp_all [State.begun, comb]

theorem State.begun_of_loading {st : State} (h : st.loading = true) (hs : st ≠ .s30) :
    st.begun = true := by
  cases st <;> first | rfl | exact Bool.noConfusion h | exact absurd rfl hs

/-- `A1` and the states of the odd word are exchanged for each other until the word is
loaded. -/
theorem odd_spec (hd : st.draining = false) (hb : st.begun = true → i.a1 = false)
    (hi : (comb i st).intIncfifo = false) :
    (i.a1 && !(comb i st).pas || (nextState i st).odd) = (i.a1 || st.odd) := by
  obtain ⟨a1, nbgrant, boeq3, cycledone, dmadir, dmaena, ndreq, ndsack0, ndsack1, fifoempty,
    fifofull, flushfifo, lastword, dsack, nsterm, nrdfifo, nrififo⟩ := i
  cases st <;> first | exact Bool.noConfusion hd | skip
  case s0 =>
    cases a1 <;> cases dmaena <;> cases fifofull <;> cases dmadir <;> cases flushfifo <;>
      cases fifoempty <;> cases lastword <;> rfl
  case s20 => cases a1 <;> cases dmaena <;> cases dmadir <;> cases fifoempty <;> cases ndreq <;> rfl
  case s21 => cases a1 <;> cases nbgrant <;> cases cycledone <;> rfl
  case s30 => cases a1 <;> rfl
  case letgo => cases a1 <;> rfl
  all_goals cases (hb rfl : a1 = false)
  case s23 => cases nsterm <;> rfl
  case s24 => cases nsterm <;> cases dsack <;> cases ndsack1 <;> cases ndsack0 <;> rfl
  case s28 => cases dsack <;> rfl
  case s31 =>
    cases nsterm with
    | true => rfl
    | false => exact Bool.noConfusion hi
  case s32 =>
    cases nsterm with
    | true => cases dsack <;> cases ndsack1 <;> cases ndsack0 <;> first | rfl | exact Bool.noConfusion hi
    | false => exact Bool.noConfusion hi
  case s34 => exact Bool.noConfusion hi
  case s35 => cases fifofull <;> rfl
  all_goals rfl

end Moves

end CpuSm

end Resdmac
