import Resdmac.Signals

/-!
# SCSI_SM: the WD33C93-Side State Machine

`RTL/SCSI_SM/SCSI_SM_INTERNALS.v` (state machine) and `RTL/SCSI_SM/SCSI_SM.v`
(clocked inputs and outputs, the two FIFO requests and the cycle termination).
-/

namespace Resdmac

namespace ScsiSm

/-! ## §1 States and signals -/

/-- The encodings of `state_reg` that are used. -/
inductive State where
  | idleDmaRd | cpureq | idleDmaWr
  | c2s1 | c2s2 | c2s3 | c2s4 | c2s5
  | f2s1 | f2s2 | f2s3 | f2s4
  | s2c1 | s2c2 | s2c3 | s2c4 | s2c5 | s2c6
  | s2f1 | s2f2 | s2f3 | s2f4
deriving DecidableEq, Repr

/-- Inputs of `SCSI_SM_INTERNALS`. -/
structure Inputs where
  boeq3 : Bool
  ccpureq : Bool
  cdreq_ : Bool
  cdsack_ : Bool
  dmadir : Bool
  fifoempty : Bool
  fifofull : Bool
  rdfifoO : Bool
  rififoO : Bool
  rw : Bool

/-- The outputs that `SCSI_SM` clocks out (all but `SET_DSACK`). -/
structure Out where
  cpu2s : Bool := false
  dack : Bool := false
  f2s : Bool := false
  incbo : Bool := false
  incni : Bool := false
  incno : Bool := false
  rdfifo : Bool := false
  re : Bool := false
  rififo : Bool := false
  s2cpu : Bool := false
  s2f : Bool := false
  scsiCs : Bool := false
  we : Bool := false
deriving DecidableEq

/-- The clocked inputs of `SCSI_SM`, with their reset values. -/
structure Clocked where
  cdsack_ : Bool := true
  ccpureq : Bool := false
  cdreq_ : Bool := true
deriving DecidableEq

/-! ## §2 Next-state logic and outputs -/

/-- `START_S2F`. -/
def Inputs.startS2f (i : Inputs) : Bool :=
  !i.cdreq_ && !i.fifofull && i.dmadir && !i.ccpureq && !i.rififoO

/-- `START_F2S`. -/
def Inputs.startF2s (i : Inputs) : Bool :=
  !i.cdreq_ && !i.fifoempty && !i.dmadir && !i.ccpureq && !i.rdfifoO

/-- `START_DMA_WR`. -/
def Inputs.startDmaWr (i : Inputs) : Bool := !i.dmadir && !i.ccpureq

/-- `START_DMA_RD`. -/
def Inputs.startDmaRd (i : Inputs) : Bool := i.dmadir && !i.ccpureq

/-- The state register of `SCSI_SM_INTERNALS`. -/
def nextState (i : Inputs) : State → State
  | .idleDmaRd =>
    match i.startS2f, i.ccpureq, i.startDmaWr with
    | true, false, false => .s2f1
    | _, true, _ => .cpureq
    | _, _, true => .idleDmaWr
    | _, _, _ => .idleDmaRd
  | .idleDmaWr =>
    match i.startF2s, i.ccpureq, i.startDmaRd with
    | true, false, false => .f2s1
    | _, true, _ => .cpureq
    | _, _, true => .idleDmaRd
    | _, _, _ => .idleDmaRd
  | .cpureq => if i.rw then .s2c1 else .c2s1
  -- CPU to SCSI
  | .c2s1 => .c2s2
  | .c2s2 => .c2s3
  | .c2s3 => .c2s4
  | .c2s4 => .c2s5
  | .c2s5 => if i.cdsack_ then .idleDmaRd else .c2s5
  -- SCSI to CPU
  | .s2c1 => .s2c2
  | .s2c2 => .s2c3
  | .s2c3 => .s2c4
  | .s2c4 => .s2c5
  | .s2c5 => .s2c6
  | .s2c6 => if i.cdsack_ then .idleDmaRd else .s2c6
  -- FIFO to SCSI
  | .f2s1 => .f2s2
  | .f2s2 => .f2s3
  | .f2s3 => .f2s4
  | .f2s4 => .idleDmaWr
  -- SCSI to FIFO
  | .s2f1 => .s2f2
  | .s2f2 => .s2f3
  | .s2f3 => .s2f4
  | .s2f4 => .idleDmaRd

/-- The output block of `SCSI_SM_INTERNALS`. -/
def comb (i : Inputs) : State → Out
  | .idleDmaRd => if i.startS2f then { dack := true, re := true, s2f := true } else {}
  | .idleDmaWr => if i.startF2s then { dack := true, we := true, f2s := true } else {}
  | .cpureq =>
    if i.rw then { scsiCs := true, re := true, s2cpu := true }
    else { scsiCs := true, we := true, cpu2s := true }
  -- CPU to SCSI
  | .c2s1 => { scsiCs := true, cpu2s := true, we := true }
  | .c2s2 => { scsiCs := true, cpu2s := true, we := true }
  | .c2s3 => { scsiCs := true, cpu2s := true }
  -- FIFO to SCSI
  | .f2s1 => { we := true, f2s := true, dack := true }
  | .f2s2 => { f2s := true }
  | .f2s3 => { f2s := true, incbo := true, incno := i.boeq3, rdfifo := i.boeq3 }
  -- SCSI to CPU
  | .s2c1 => { re := true, s2cpu := true, scsiCs := true }
  | .s2c2 => { re := true, s2cpu := true, scsiCs := true }
  | .s2c3 => { re := true, s2cpu := true, scsiCs := true }
  | .s2c4 => { re := true, s2cpu := true, scsiCs := true }
  | .s2c5 => { s2cpu := true }
  | .s2c6 => { s2cpu := true }
  -- SCSI to FIFO
  | .s2f1 => { re := true, s2f := true, dack := true }
  | .s2f2 => { s2f := true }
  | .s2f3 => { incbo := true, s2f := true, incni := i.boeq3, rififo := i.boeq3 }
  | .c2s4 | .c2s5 | .f2s4 | .s2f4 => {}

/-- `SET_DSACK`. -/
def setDsack : State → Bool
  | .c2s3 | .s2c4 => true
  | _ => false

end ScsiSm

/-! ## §3 Registers and clock edges -/

/-- The registers of `SCSI_SM`. -/
structure ScsiSm where
  creset_ : Bool := false
  state : ScsiSm.State := .idleDmaRd
  inp : ScsiSm.Clocked := {}
  out : ScsiSm.Out := {}
  rdfifoO : Bool := false
  rififoO : Bool := false
  nls2cpu : Bool := false

namespace ScsiSm

def ls2cpu (c : ScsiSm) : Bool := !c.nls2cpu

def lbyte_ (c : ScsiSm) : Bool := !(c.out.dack && c.out.re)

/-- The asynchronous reset by `negedge CRESET_`. -/
def reset (c : ScsiSm) : ScsiSm :=
  { c with
    state := if c.creset_ then c.state else .idleDmaRd
    inp := if c.creset_ then c.inp else {}
    out := if c.creset_ then c.out else {} }

/-- The asynchronous resets of the others: the acknowledge of the two FIFO requests by the
counter strobes (`posedge INCFIFO`, `posedge DECFIFO`), `RESET_`, and `posedge AS_`. -/
def settle (c : ScsiSm) (reset_ incfifo decfifo as_ : Bool) : ScsiSm :=
  { c with
    rdfifoO := c.rdfifoO && !decfifo && reset_
    rififoO := c.rififoO && !incfifo && reset_
    nls2cpu := c.nls2cpu && !as_ }

/-- CLK90 rising: state register and clocked outputs. -/
def clk90Rise (c : ScsiSm) (i : Inputs) : ScsiSm :=
  if c.creset_ then
    { c with state := nextState i c.state, out := comb i c.state }
  else
    { c with state := .idleDmaRd, out := {} }

/-- CLK135 rising: the FIFO requests and `nLS2CPU`. -/
def clk135Rise (c : ScsiSm) (reset_ incfifo decfifo as_ : Bool) : ScsiSm :=
  { c with
    rififoO := if incfifo || !reset_ then false else if c.out.rififo then true else c.rififoO
    rdfifoO := if decfifo || !reset_ then false else if c.out.rdfifo then true else c.rdfifoO
    -- set in the clock of `SET_DSACK` and cleared again in the next one, also with `AS_` low
    nls2cpu := if as_ then false else c.ls2cpu && setDsack c.state }

/-- SCLK falling: clocked reset. -/
def sclkFall (c : ScsiSm) (reset_ : Bool) : ScsiSm := { c with creset_ := reset_ }

/-- CLK135 falling: clocked inputs. -/
def clk135Fall (c : ScsiSm) (a : Clocked) : ScsiSm :=
  { c with inp := if c.creset_ then a else {} }

/-! ## §4 What a step can do -/

/-- The states of a byte on its way from the peripheral into the FIFO, before the byte
pointer moves. -/
def State.taking : State → Bool
  | .s2f1 | .s2f2 | .s2f3 => true
  | _ => false

/-- The states of a byte on its way from the FIFO to the peripheral, before the byte
pointer moves. -/
def State.giving : State → Bool
  | .f2s1 | .f2s2 | .f2s3 => true
  | _ => false

/-- The states outside a CPU access: idle, or a byte of the DMA. -/
def State.dma : State → Bool
  | .idleDmaRd | .idleDmaWr | .f2s1 | .f2s2 | .f2s3 | .f2s4 | .s2f1 | .s2f2 | .s2f3 | .s2f4 => true
  | _ => false

/-- The number of clocks to the end of the byte. -/
def State.toIdle : State → ℕ
  | .f2s1 | .s2f1 => 4
  | .f2s2 | .s2f2 => 3
  | .f2s3 | .s2f3 => 2
  | .f2s4 | .s2f4 => 1
  | _ => 0

/-- The states of a CPU access in which the WD33C93 is selected. -/
def State.selects : State → Bool
  | .cpureq | .c2s1 | .c2s2 | .c2s3 | .s2c1 | .s2c2 | .s2c3 | .s2c4 => true
  | _ => false

/-- The states in which the CPU ends its cycle. -/
def State.leaving : State → Bool
  | .c2s4 | .s2c5 => true
  | _ => false

/-- The states that wait for `CDSACK_`. -/
def State.parked : State → Bool
  | .c2s5 | .s2c6 => true
  | _ => false

theorem State.cases (st : State) :
    st.dma = true ∨ st.selects = true ∨ st.leaving = true ∨ st.parked = true := by
  cases st <;> simp [State.dma, State.selects, State.leaving, State.parked]

theorem setDsack_of_dma {st : State} (h : st.dma = true) : setDsack st = false := by
  cases st <;> first | rfl | cases h

theorem selects_of_setDsack {st : State} (h : setDsack st = true) : st.selects = true := by
  cases st <;> first | rfl | exact Bool.noConfusion h

theorem State.not_selects_of_dma {st : State} (h : st.dma = true) : st.selects = false := by
  cases st <;> first | rfl | cases h

theorem State.beq_s2f3 {st : State} (h : st.taking = false) : (st == .s2f3) = false := by
  cases st <;> first | rfl | cases h

theorem State.beq_f2s3 {st : State} (h : st.giving = false) : (st == .f2s3) = false := by
  cases st <;> first | rfl | cases h

/-- The states of a CPU write before which `WE_o` is set. -/
def State.writing : State → Bool
  | .c2s1 | .c2s2 | .c2s3 => true
  | _ => false

/-- The states of a CPU read up to `SET_DSACK`. -/
def State.reading : State → Bool
  | .s2c1 | .s2c2 | .s2c3 | .s2c4 => true
  | _ => false

theorem State.selects_of_writing {st : State} (h : st.writing = true) : st.selects = true := by
  cases st <;> first | rfl | exact Bool.noConfusion h

theorem State.selects_of_reading {st : State} (h : st.reading = true) : st.selects = true := by
  cases st <;> first | rfl | exact Bool.noConfusion h

section Moves

variable {i : Inputs} {st : State}

theorem nextState_taking (h : (nextState i st).taking = true) :
    st = .s2f1 ∨ st = .s2f2 ∨ st = .idleDmaRd ∧ i.startS2f = true := by
  cases st <;> simp only [nextState] at h <;> (try split at h) <;> simp_all [State.taking]

theorem nextState_giving (h : (nextState i st).giving = true) :
    st = .f2s1 ∨ st = .f2s2 ∨ st = .idleDmaWr ∧ i.startF2s = true := by
  cases st <;> simp only [nextState] at h <;> (try split at h) <;> simp_all [State.giving]

theorem rififo_eq : (comb i st).rififo = (st == .s2f3 && i.boeq3) := by
  cases st <;> simp only [comb] <;> (try split) <;> simp

theorem incni_eq : (comb i st).incni = (st == .s2f3 && i.boeq3) := by
  cases st <;> simp only [comb] <;> (try split) <;> simp

theorem rdfifo_eq : (comb i st).rdfifo = (st == .f2s3 && i.boeq3) := by
  cases st <;> simp only [comb] <;> (try split) <;> simp

theorem incno_eq : (comb i st).incno = (st == .f2s3 && i.boeq3) := by
  cases st <;> simp only [comb] <;> (try split) <;> simp

theorem incbo_eq : (comb i st).incbo = (st == .s2f3 || st == .f2s3) := by
  cases st <;> simp only [comb] <;> (try split) <;> simp

theorem nextState_dma (hi : i.ccpureq = false) (h : st.dma = true) :
    (nextState i st).dma = true := by
  cases st <;> simp only [nextState] <;> (try split) <;> simp_all [State.dma]

/-- With the CPU asking, a byte in transit is finished and then the request is taken. -/
theorem nextState_of_ccpureq (hi : i.ccpureq = true) (h : st.dma = true) :
    if st.toIdle = 0 then nextState i st = .cpureq
    else (nextState i st).dma = true ∧ (nextState i st).toIdle + 1 = st.toIdle := by
  cases st <;> simp only [nextState] <;> (try split) <;>
    simp_all [State.dma, State.toIdle, Inputs.startS2f, Inputs.startF2s]

theorem nextState_selects (h : (nextState i st).selects = true) :
    st.dma = true ∧ i.ccpureq = true ∧ setDsack (nextState i st) = false ∨
      st.selects = true ∧ setDsack st = false := by
  cases st <;> simp only [nextState] at h ⊢ <;> (repeat' split at h) <;>
    simp_all [State.dma, State.selects, setDsack, Inputs.startS2f, Inputs.startF2s]

theorem nextState_leaving (h : (nextState i st).leaving = true) : setDsack st = true := by
  cases st <;> simp only [nextState] at h <;> (repeat' split at h) <;>
    simp_all [State.leaving, setDsack]

theorem setDsack_of_parked (h : st.parked = true) : setDsack st = false := by
  cases st <;> first | rfl | exact Bool.noConfusion h

theorem nextState_parked (hi : i.cdsack_ = true) (h : st.parked = true) :
    nextState i st = .idleDmaRd := by
  cases st <;> simp only [nextState, hi] <;> first | rfl | exact Bool.noConfusion h

/-- Outside a CPU access the data paths of the CPU are closed. -/
theorem comb_of_dma (h : st.dma = true) :
    (comb i st).s2cpu = false ∧ (comb i st).cpu2s = false := by
  cases st <;> simp only [comb] <;> (try split) <;> simp_all [State.dma]

/-- The chip drives `PD_PORT` only in states that do not read the WD33C93. -/
theorem re_of_pd (h : ((comb i st).f2s || (comb i st).cpu2s) = true) : (comb i st).re = false := by
  cases st <;> simp only [comb] at h ⊢ <;> (repeat' split at h) <;> simp_all

theorem scsiCs_eq : (comb i st).scsiCs = st.selects := by
  cases st <;> simp only [comb] <;> (try split) <;> rfl

/-- A byte strobe is armed only for a byte that is being taken. -/
theorem lbyte_spec (h : (comb i st).dack = true ∧ (comb i st).re = true) :
    nextState i st = .s2f1 ∨ nextState i st = .s2f2 := by
  cases st <;> simp only [comb] at h <;> (try split at h) <;>
    simp_all [nextState, Inputs.startS2f, Inputs.startDmaWr]

theorem lbyte_eq :
    ((comb i st).dack && (comb i st).re) = (nextState i st == .s2f1 || nextState i st == .s2f2) := by
  obtain ⟨boeq3, ccpureq, cdreq_, cdsack_, dmadir, fifoempty, fifofull, rdfifoO, rififoO, rw⟩ := i
  cases st <;> simp only [comb, nextState] <;> (repeat' split) <;>
    simp_all [Inputs.startS2f, Inputs.startDmaWr]

theorem s2f_of_lbyte (h : ((comb i st).dack && (comb i st).re) = true) :
    (comb i st).s2f = true := by
  cases st <;> simp only [comb] at h ⊢ <;> (repeat' split at h) <;> simp_all

theorem nextState_beq_s2f3 : (nextState i st == .s2f3) = (st == .s2f2) := by
  cases st <;> simp only [nextState] <;> (repeat' split) <;> rfl

/-- `DACK` with `IOW` is armed exactly for the two states of a byte that is given. -/
theorem dack_we_eq :
    ((comb i st).dack && (comb i st).we) = (nextState i st == .f2s1 || nextState i st == .f2s2) := by
  obtain ⟨boeq3, ccpureq, cdreq_, cdsack_, dmadir, fifoempty, fifofull, rdfifoO, rififoO, rw⟩ := i
  cases st <;> simp only [comb, nextState] <;> (repeat' split) <;>
    simp_all [Inputs.startF2s, Inputs.startDmaRd]

theorem s2f_of_giving (hi : i.dmadir = false) (h : st.taking = false) :
    (comb i st).s2f = false := by
  cases st <;> simp only [comb] <;> (repeat' split) <;>
    simp_all [State.taking, Inputs.startS2f]

theorem nextState_eq_f2s2 (h : nextState i st = .f2s2) : st = .f2s1 := by
  cases st <;> simp only [nextState] at h <;> (repeat' split at h) <;> simp_all

theorem nextState_beq_f2s3 : (nextState i st == .f2s3) = (st == .f2s2) := by
  cases st <;> simp only [nextState] <;> (repeat' split) <;> rfl

/-! ### Accesses of the CPU -/

theorem nextState_writing (h : (nextState i st).writing = true) :
    st = .cpureq ∧ i.rw = false ∨ st.writing = true := by
  cases st <;> simp only [nextState] at h <;> (repeat' split at h) <;>
    simp_all [State.writing]

theorem nextState_reading (h : (nextState i st).reading = true) :
    st = .cpureq ∧ i.rw = true ∨ st.reading = true := by
  cases st <;> simp only [nextState] at h <;> (repeat' split at h) <;>
    simp_all [State.reading]

/-- `WE_o` and `CPU2S_o` are set together exactly before the states of a CPU write. -/
theorem we_cpu2s_eq : ((comb i st).we && (comb i st).cpu2s) = (nextState i st).writing := by
  cases st <;> simp only [comb, nextState] <;> (repeat' split) <;> simp_all [State.writing]

theorem cpu2s_of_writing (h : st.writing = true) :
    (comb i st).cpu2s = true ∧ (comb i st).f2s = false := by
  cases st <;> first | exact ⟨rfl, rfl⟩ | exact Bool.noConfusion h

theorem f2s_of_cpu2s (h : (comb i st).cpu2s = true) : (comb i st).f2s = false := by
  cases st <;> simp only [comb] at h ⊢ <;> (repeat' split at h) <;> simp_all

/-- `SET_DSACK` of a read comes from `S2C_3`, with the WD33C93 still selected. -/
theorem nextState_eq_s2c4 (h : nextState i st = .s2c4) :
    (comb i st).re = true ∧ (comb i st).scsiCs = true ∧ (comb i st).s2cpu = true := by
  cases st <;> simp only [nextState] at h <;> (repeat' split at h) <;> simp_all [comb]

theorem eq_of_setDsack (h : setDsack st = true) : st = .s2c4 ∨ st.writing = true := by
  cases st <;> first | exact .inl rfl | exact .inr rfl | exact Bool.noConfusion h

/-- In an access of the CPU nothing moves in the FIFO. -/
theorem comb_of_access (h : st.dma = false ∨ (nextState i st).dma = false) :
    (comb i st).incbo = false ∧ (comb i st).incni = false ∧ (comb i st).incno = false ∧
      (comb i st).rififo = false ∧ (comb i st).rdfifo = false := by
  cases st <;> simp only [comb, nextState] at h ⊢ <;> (repeat' split) <;> simp_all [State.dma]

theorem not_taking_of_access (h : st.dma = false ∨ (nextState i st).dma = false) :
    st ≠ .s2f1 ∧ st ≠ .s2f2 := by
  cases st <;> simp_all [State.dma, nextState]

end Moves

/-! ### The states of an access -/

/-- The states of an access of the CPU up to `SET_DSACK`, a clock each. -/
def accessStates : Bool → List State
  | true => [.cpureq, .s2c1, .s2c2, .s2c3, .s2c4]
  | false => [.cpureq, .c2s1, .c2s2, .c2s3]

theorem accessStates_length (rw : Bool) : (accessStates rw).length = 4 + rw.toNat := by
  cases rw <;> rfl

section Access

variable {i : Inputs} {rw : Bool} {j : ℕ} {st st' : State}

theorem accessStates_zero (h : (accessStates rw)[0]? = some st) : .cpureq = st := by
  cases rw <;> exact Option.some.inj h

/-- Only `CPUREQ` looks at `R_W`. -/
theorem nextState_access (h : (accessStates rw)[j]? = some st)
    (h' : (accessStates rw)[j + 1]? = some st') (hi : j = 0 → i.rw = rw) :
    nextState i st = st' := by
  cases rw <;> rcases j with _ | _ | _ | _ | j <;> cases h' <;> cases h <;>
    first | rfl | simp [nextState, hi rfl]

theorem setDsack_access (h : (accessStates rw)[j]? = some st) :
    setDsack st = decide (j + 1 = (accessStates rw).length) := by
  cases rw <;> rcases j with _ | _ | _ | _ | _ | j <;> cases h <;> rfl

theorem selects_access (h : (accessStates rw)[j]? = some st) : st.selects = true := by
  cases rw <;> rcases j with _ | _ | _ | _ | _ | j <;> cases h <;> rfl

/-- `RE_o` is a pulse of five clocks in a read, `WE_o` one of three clocks in a write. -/
theorem strobe_access (h : (accessStates rw)[j]? = some st) (hi : j = 0 → i.rw = rw) :
    (if rw then (comb i st).re else (comb i st).we) = decide (j < 3 + 2 * rw.toNat) ∧
      (if !rw then (comb i st).re else (comb i st).we) = false := by
  cases rw <;> rcases j with _ | _ | _ | _ | _ | j <;> cases h <;>
    first | exact ⟨rfl, rfl⟩ | simp [comb, hi rfl]

end Access

end ScsiSm

end Resdmac
