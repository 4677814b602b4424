import Mathlib.Tactic.SplitIfs
import Resdmac.Signals

/-!
# The Register File

`RTL/Registers`: the address decoder, the control, interrupt-status and action
registers, and the termination counter. All of them but `registers_term` and
`DSP` are clocked on CLK90 falling, and `FLASH_DATA` is answered by
`registers_flash`, whose outputs come in through the pins.
-/

namespace Resdmac

/-! ## §1 Address decoder -/

/-- The inputs of `addr_decoder`. -/
structure Access where
  addr : BitVec 8
  dmac_ : Bool
  as_ : Bool
  rw : Bool

namespace Access

/-- `ADDR_VALID`. -/
def valid (a : Access) : Bool := !(a.dmac_ || a.as_)

/-- `h_XX`: the location at offset `n` is addressed. -/
def hit (a : Access) (n : BitVec 8) : Bool := a.valid && a.addr == n

/-- `WDREGREQ`: offsets `0x40` to `0x4C`. -/
def wdregreq (a : Access) : Bool := a.valid && a.addr.extractLsb' 4 4 == 4#4

/-- A read strobe, active high (the source inverts it). -/
def rd (a : Access) (n : BitVec 8) : Bool := a.hit n && a.rw

/-- A write strobe. -/
def wr (a : Access) (n : BitVec 8) : Bool := a.hit n && !a.rw

def h0C (a : Access) : Bool := a.hit 0x0C
def h28 (a : Access) : Bool := a.hit 0x28
def wtcRd (a : Access) : Bool := a.rd 0x04
def contrRd (a : Access) : Bool := a.rd 0x08
def istrRd (a : Access) : Bool := a.rd 0x1C
def sspbdatRd (a : Access) : Bool := a.rd 0x58
def versionRd (a : Access) : Bool := a.rd 0x20
def dspRd (a : Access) : Bool := a.rd 0x5C
def flashAddrRd (a : Access) : Bool := a.rd 0x24
def flashDataRd (a : Access) : Bool := a.rd 0x28
def devRd (a : Access) : Bool := a.rd 0x2C
def contrWr (a : Access) : Bool := a.wr 0x08
def acrWr (a : Access) : Bool := a.wr 0x0C
def sspbdatWr (a : Access) : Bool := a.wr 0x58
def flashAddrWr (a : Access) : Bool := a.wr 0x24
def flashDataWr (a : Access) : Bool := a.wr 0x28
def stDma (a : Access) : Bool := a.hit 0x10
def spDma (a : Access) : Bool := a.hit 0x3C
def clrInt (a : Access) : Bool := a.hit 0x18
def flush (a : Access) : Bool := a.hit 0x14

/-- Only one location is addressed at a time. -/
theorem hit_unique {a : Access} {m n : BitVec 8} (h : a.hit m = true) (hmn : m ≠ n) :
    a.hit n = false := by
  rw [hit, Bool.and_eq_true, beq_iff_eq] at h
  rw [hit, h.2, beq_eq_false_iff_ne.mpr hmn, Bool.and_false]

theorem hit_of_not_valid {a : Access} (h : a.valid = false) (n : BitVec 8) : a.hit n = false := by
  rw [hit, h, Bool.false_and]

end Access

/-! ## §2 Registers -/

/-- The registers of `registers` and its submodules. -/
structure Registers where
  /-- `DMADIR` of `registers_cntr`; the chip uses its complement -/
  ndmadir : Bool := false
  intena : Bool := false
  preset : Bool := false
  dmaena : Bool := false
  /-- `INT_F` -/
  intF : Bool := false
  ints : Bool := false
  /-- `E_INT` -/
  eInt : Bool := false
  /-- `INT_P` -/
  intP : Bool := false
  ff : Bool := false
  fe : Bool := true
  /-- `TERM_COUNTER` of `registers_term` -/
  termCounter : BitVec 3 := 0
  /-- `REG_DSK_` of `registers_term` -/
  dsackTerm_ : Bool := true
  flushfifo : Bool := false
  a1 : Bool := true
  sspbdat : Longword := {}
  /-- `FLASH_ADDR`, in the lower three lanes -/
  flashAddr : Longword := {}
  dsp : Byte := 0
  version : Longword := {}
  /-- `DEVICE_TXT`, the name of the FPGA -/
  deviceTxt : String := ""
  device : BitVec 5 := 0

/-- The eight bits of a byte, most significant first. -/
def Byte.ofBits (b7 b6 b5 b4 b3 b2 b1 b0 : Bool) : Byte :=
  BitVec.ofBoolListBE [b7, b6, b5, b4, b3, b2, b1, b0]

namespace Registers

def dmadir (r : Registers) : Bool := !r.ndmadir

/-- `{23'h0, ISTR_O}`. -/
def istrO (r : Registers) : Longword where
  ll := Byte.ofBits r.intF r.ints r.eInt r.intP false false r.ff r.fe

/-- `{23'h0, CNTR_O}`. -/
def cntrO (r : Registers) : Longword where
  lm := Byte.ofBits false false false false false false false r.dmaena
  ll := Byte.ofBits false false false r.preset false r.intena r.ndmadir false

/-- `MuxSelect`. -/
def muxSelect (a : Access) : BitVec 9 :=
  BitVec.ofBoolListBE [a.wtcRd, a.istrRd, a.contrRd, a.sspbdatRd, a.versionRd, a.dspRd,
    a.flashDataRd, a.flashAddrRd, a.devRd]

/-- `REG_OD`. -/
def regOd (r : Registers) (a : Access) (flashData : Longword) : Longword :=
  let sel := muxSelect a
  if sel = 0b100000000#9 then {}
  else if sel = 0b010000000#9 then r.istrO
  else if sel = 0b001000000#9 then r.cntrO
  else if sel = 0b000100000#9 then r.sspbdat
  else if sel = 0b000010000#9 then r.version
  else if sel = 0b000001000#9 then { ll := r.dsp }
  else if sel = 0b000000100#9 then flashData
  else if sel = 0b000000010#9 then r.flashAddr
  else if sel = 0b000000001#9 then { ll := r.device.setWidth 8 }
  else {}

/-- `CYCLE_ACTIVE` of `registers_term`. -/
def cycleActive (a : Access) : Bool := !(a.as_ || a.dmac_ || a.wdregreq || a.h0C || a.h28)

/-- The version text that the simulation build loads, `"v9.9"`. -/
def defVersion : Longword := ⟨0x76, 0x39, 0x2E, 0x39⟩

/-- The FPGA of the simulation build. -/
def defDeviceTxt : String := "10M16SCU169C8G"

/-- The number of an FPGA, by its name. -/
def deviceNumber (txt : String) : BitVec 5 :=
  if txt = "10M02SCU169C8G" then 2
  else if txt = "10M04SCU169C8G" then 4
  else if txt = "10M16SCU169C8G" then 16
  else 0

/-- The registers as two clocks of `RST_` leave them. -/
def afterReset : Registers :=
  { version := defVersion, deviceTxt := defDeviceTxt, device := deviceNumber defDeviceTxt }

/-! ## §3 Clock edges -/

/-- The asynchronous resets: `negedge RST_` and, for `registers_term`, `posedge AS_`. -/
def settle (r : Registers) (rst_ as_ : Bool) : Registers :=
  { (if rst_ then r else
      { ({} : Registers) with
        termCounter := r.termCounter, dsackTerm_ := r.dsackTerm_
        version := r.version, deviceTxt := r.deviceTxt, device := r.device }) with
    termCounter := if as_ then 0 else r.termCounter
    dsackTerm_ := as_ || r.dsackTerm_ }

/-- CLK90 rising: `registers_term`, `DSP`, `VERSION` and `DEVICE`. -/
def clk90Rise (r : Registers) (a : Access) (rst_ : Bool) (dspData : Byte) : Registers :=
  { r with
    termCounter :=
      if a.as_ then 0
      else if cycleActive a && r.termCounter != 3 then r.termCounter + 1
      else r.termCounter
    dsackTerm_ :=
      if a.as_ then true
      else if cycleActive a && r.termCounter == 3 then false
      else r.dsackTerm_
    dsp := if rst_ then if a.dspRd then dspData else r.dsp else 0
    version := if rst_ then r.version else defVersion
    deviceTxt := if rst_ then r.deviceTxt else defDeviceTxt
    -- the name is decoded as it was before the edge, so `DEVICE` takes two clocks of `RST_`
    device := if rst_ then r.device else deviceNumber r.deviceTxt }

/-- CLK90 falling: `registers_cntr`. -/
def cntrStep (r : Registers) (a : Access) (mid : Longword) : Registers :=
  -- `CONTR_WR` is decoded without `DS_`, so the bus is captured before its data are valid
  if a.contrWr then
    { r with
      ndmadir := mid.ll.getLsbD 1, intena := mid.ll.getLsbD 2, preset := mid.ll.getLsbD 4 }
  -- the two strobes do not look at `R_W`
  else if a.stDma then { r with dmaena := true }
  else if a.spDma then { r with dmaena := false }
  else r

/-- CLK90 falling: `registers_istr`. -/
def istrStep (r : Registers) (a : Access) (intena inta fifoempty fifofull : Bool) : Registers :=
  if a.clrInt then { r with intF := false, ints := false, eInt := false, intP := false }
  -- a read of `ISTR` samples the interrupt and the flags of the FIFO
  else if a.istrRd then
    { r with
      intF := inta, ints := inta, eInt := inta
      intP := if intena then inta else false
      ff := fifofull, fe := fifoempty }
  else r

/-- CLK90 falling: `FLUSHFIFO`, `A1`, `SSPBDAT` and `FLASH_ADDR`. -/
def actionStep (r : Registers) (a : Access) (mid : Longword) (ds_ stopflush asO_ : Bool) :
    Registers :=
  { r with
    -- a strobe that meets `STOPFLUSH` wins
    flushfifo := if a.flush then true else if stopflush then false else r.flushfifo
    -- the first address strobe of the chip itself clears `A1`
    a1 := if a.acrWr then mid.uu.getLsbD 1 else if !asO_ then false else r.a1
    sspbdat := if a.sspbdatWr then mid else r.sspbdat
    -- the one write that waits for `DS_`
    flashAddr := if a.flashAddrWr && !ds_ then { mid with uu := 0 } else r.flashAddr }

/-- CLK90 falling, with `RST_` high: the three blocks read the old registers. -/
def clk90Fall (r : Registers) (a : Access) (rst_ : Bool) (mid : Longword)
    (ds_ stopflush asO_ inta fifoempty fifofull : Bool) : Registers :=
  if rst_ then
    ((r.cntrStep a mid).istrStep a r.intena inta fifoempty fifofull).actionStep a mid ds_
      stopflush asO_
  else r

/-! ## §4 What CLK90 falling does to the registers that the rest of the chip reads -/

section Effect

variable (r : Registers) (a : Access) (mid : Longword) (ds_ stopflush asO_ inta e f : Bool)

@[simp] theorem istrStep_dmaena : (r.istrStep a ds_ inta e f).dmaena = r.dmaena := by
  unfold istrStep; split_ifs <;> rfl

@[simp] theorem istrStep_ndmadir : (r.istrStep a ds_ inta e f).ndmadir = r.ndmadir := by
  unfold istrStep; split_ifs <;> rfl

@[simp] theorem istrStep_flushfifo : (r.istrStep a ds_ inta e f).flushfifo = r.flushfifo := by
  unfold istrStep; split_ifs <;> rfl

@[simp] theorem istrStep_a1 : (r.istrStep a ds_ inta e f).a1 = r.a1 := by
  unfold istrStep; split_ifs <;> rfl

theorem istrStep_fe : (r.istrStep a ds_ inta e f).fe =
    if a.clrInt then r.fe else if a.istrRd then e else r.fe := by
  unfold istrStep; split_ifs <;> rfl

theorem cntrStep_dmaena : (r.cntrStep a mid).dmaena =
    if a.contrWr then r.dmaena
    else if a.stDma then true else if a.spDma then false else r.dmaena := by
  unfold cntrStep; split_ifs <;> rfl

theorem cntrStep_ndmadir : (r.cntrStep a mid).ndmadir =
    if a.contrWr then mid.ll.getLsbD 1 else r.ndmadir := by
  unfold cntrStep; split_ifs <;> rfl

theorem cntrStep_intena : (r.cntrStep a mid).intena =
    if a.contrWr then mid.ll.getLsbD 2 else r.intena := by
  unfold cntrStep; split_ifs <;> rfl

theorem cntrStep_preset : (r.cntrStep a mid).preset =
    if a.contrWr then mid.ll.getLsbD 4 else r.preset := by
  unfold cntrStep; split_ifs <;> rfl

@[simp] theorem istrStep_intena : (r.istrStep a ds_ inta e f).intena = r.intena := by
  unfold istrStep; split_ifs <;> rfl

@[simp] theorem istrStep_preset : (r.istrStep a ds_ inta e f).preset = r.preset := by
  unfold istrStep; split_ifs <;> rfl

@[simp] theorem istrStep_sspbdat : (r.istrStep a ds_ inta e f).sspbdat = r.sspbdat := by
  unfold istrStep; split_ifs <;> rfl

@[simp] theorem istrStep_flashAddr : (r.istrStep a ds_ inta e f).flashAddr = r.flashAddr := by
  unfold istrStep; split_ifs <;> rfl

@[simp] theorem cntrStep_sspbdat : (r.cntrStep a mid).sspbdat = r.sspbdat := by
  unfold cntrStep; split_ifs <;> rfl

@[simp] theorem cntrStep_flashAddr : (r.cntrStep a mid).flashAddr = r.flashAddr := by
  unfold cntrStep; split_ifs <;> rfl

@[simp] theorem cntrStep_flushfifo : (r.cntrStep a mid).flushfifo = r.flushfifo := by
  unfold cntrStep; split_ifs <;> rfl

@[simp] theorem cntrStep_a1 : (r.cntrStep a mid).a1 = r.a1 := by
  unfold cntrStep; split_ifs <;> rfl

@[simp] theorem cntrStep_fe : (r.cntrStep a mid).fe = r.fe := by
  unfold cntrStep; split_ifs <;> rfl

@[simp] theorem istrStep_dsackTerm_ : (r.istrStep a ds_ inta e f).dsackTerm_ = r.dsackTerm_ := by
  unfold istrStep; split_ifs <;> rfl

@[simp] theorem cntrStep_dsackTerm_ : (r.cntrStep a mid).dsackTerm_ = r.dsackTerm_ := by
  unfold cntrStep; split_ifs <;> rfl

@[simp] theorem istrStep_termCounter : (r.istrStep a ds_ inta e f).termCounter = r.termCounter := by
  unfold istrStep; split_ifs <;> rfl

@[simp] theorem cntrStep_termCounter : (r.cntrStep a mid).termCounter = r.termCounter := by
  unfold cntrStep; split_ifs <;> rfl

theorem clk90Fall_dsackTerm_ :
    (r.clk90Fall a true mid ds_ stopflush asO_ inta e f).dsackTerm_ = r.dsackTerm_ := by
  rw [← cntrStep_dsackTerm_ r a mid]
  exact istrStep_dsackTerm_ ..

theorem clk90Fall_termCounter :
    (r.clk90Fall a true mid ds_ stopflush asO_ inta e f).termCounter = r.termCounter := by
  rw [← cntrStep_termCounter r a mid]
  exact istrStep_termCounter ..

theorem clk90Fall_dmaena :
    (r.clk90Fall a true mid ds_ stopflush asO_ inta e f).dmaena =
      if a.contrWr then r.dmaena
      else if a.stDma then true else if a.spDma then false else r.dmaena := by
  rw [← cntrStep_dmaena r a mid]
  exact istrStep_dmaena ..

theorem clk90Fall_ndmadir :
    (r.clk90Fall a true mid ds_ stopflush asO_ inta e f).ndmadir =
      if a.contrWr then mid.ll.getLsbD 1 else r.ndmadir := by
  rw [← cntrStep_ndmadir r a mid]
  exact istrStep_ndmadir ..

theorem clk90Fall_intena :
    (r.clk90Fall a true mid ds_ stopflush asO_ inta e f).intena =
      if a.contrWr then mid.ll.getLsbD 2 else r.intena := by
  rw [← cntrStep_intena r a mid]
  exact istrStep_intena ..

theorem clk90Fall_preset :
    (r.clk90Fall a true mid ds_ stopflush asO_ inta e f).preset =
      if a.contrWr then mid.ll.getLsbD 4 else r.preset := by
  rw [← cntrStep_preset r a mid]
  exact istrStep_preset ..

theorem clk90Fall_fe :
    (r.clk90Fall a true mid ds_ stopflush asO_ inta e f).fe =
      if a.clrInt then r.fe else if a.istrRd then e else r.fe := by
  rw [← cntrStep_fe r a mid]
  exact istrStep_fe ..

theorem clk90Fall_istrO (ha : a.istrRd = true) (hc : a.clrInt = false) :
    (r.clk90Fall a true mid ds_ stopflush asO_ inta e f).istrO =
      { ll := Byte.ofBits inta inta inta (r.intena && inta) false false f e } := by
  have hw : a.contrWr = false := by
    rw [Access.contrWr, Access.wr, (Bool.and_eq_true_iff.mp ha).2, Bool.not_true, Bool.and_false]
  rw [clk90Fall, if_pos rfl, actionStep, istrStep, hc, ha]
  cases r.intena <;> rfl

theorem clk90Fall_flushfifo :
    (r.clk90Fall a true mid ds_ stopflush asO_ inta e f).flushfifo =
      if a.flush then true else if stopflush then false else r.flushfifo := by
  rw [← cntrStep_flushfifo r a mid, ← istrStep_flushfifo (r.cntrStep a mid) a r.intena inta e f]
  rfl

theorem clk90Fall_a1 :
    (r.clk90Fall a true mid ds_ stopflush asO_ inta e f).a1 =
      if a.acrWr then mid.uu.getLsbD 1 else if !asO_ then false else r.a1 := by
  rw [← cntrStep_a1 r a mid, ← istrStep_a1 (r.cntrStep a mid) a r.intena inta e f]
  rfl

theorem clk90Fall_sspbdat :
    (r.clk90Fall a true mid ds_ stopflush asO_ inta e f).sspbdat =
      if a.sspbdatWr then mid else r.sspbdat := by
  rw [← cntrStep_sspbdat r a mid, ← istrStep_sspbdat (r.cntrStep a mid) a r.intena inta e f]
  rfl

theorem clk90Fall_flashAddr :
    (r.clk90Fall a true mid ds_ stopflush asO_ inta e f).flashAddr =
      if a.flashAddrWr && !ds_ then { mid with uu := 0 } else r.flashAddr := by
  rw [← cntrStep_flashAddr r a mid, ← istrStep_flashAddr (r.cntrStep a mid) a r.intena inta e f]
  rfl

end Effect

end Registers

end Resdmac
