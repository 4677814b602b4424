import Resdmac.Signals

/-!
# The Data Path

`RTL/datapath`: the output latches towards memory, the upper-word latch of the
bridge from memory, and the two byte latches of the peripheral port.
-/

namespace Resdmac

/-- The registers of `datapath` and its submodules. -/
structure Datapath where
  /-- `LD_LATCH` of `datapath_output` -/
  ldLatch : Word := {}
  /-- `UD_LATCH` of `datapath_output` -/
  udLatch : Word := {}
  /-- `UD_LATCH` of `datapath_input` -/
  inUdLatch : Word := {}
  /-- `SCSI_DATA__RX_LATCHED` -/
  rxLatched : Byte := 0
  /-- `SCSI_DATA__TX_LATCHED` -/
  txLatched : Byte := 0

namespace Datapath

/-! ## §1 Combinational paths -/

/-- `CPU_OD` of `datapath_input`. -/
def cpuOd (d : Datapath) (data : Longword) (bbridgein bdieh bdiel : Bool) : Longword :=
  .ofWords (if bdieh then data.upper else {})
    (if bdiel then data.lower else if bbridgein then d.inUdLatch else {})

/-- `MOD_SCSI`. -/
def modScsi (d : Datapath) : Longword := ⟨0, d.rxLatched, 0, d.rxLatched⟩

/-- `DATA` of `datapath_output`, with `MOD_TX` from `datapath`. -/
def dataO (d : Datapath) (regOd : Longword) (f2cpul f2cpuh bridgeout s2cpu : Bool) : Longword :=
  let mod := if s2cpu then d.modScsi else regOd
  let lower := if f2cpul then d.ldLatch else mod.lower
  let upper := if f2cpuh then d.udLatch else if bridgeout then d.ldLatch else mod.upper
  if s2cpu then mod else .ofWords upper lower

/-- `SCSI_DATA_RX`. -/
def scsiDataRx (pd : Byte) (s2f s2cpu : Bool) : Byte := if s2f || s2cpu then pd else 0

/-- `SCSI_DATA_TX`: `datapath_24dec` and the one-hot `datapath_8b_MUX`. -/
def scsiDataTx (fifoOd cpuOd : Longword) (cpu2s f2s a3 bo1 bo0 : Bool) : Byte :=
  match cpu2s && !a3, cpu2s && a3, f2s && !bo1 && !bo0, f2s && !bo1 && bo0, f2s && bo1 && !bo0,
    f2s && bo1 && bo0 with
  | false, false, false, false, false, true => fifoOd.ll
  | false, false, false, false, true, false => fifoOd.lm
  | false, false, false, true, false, false => fifoOd.um
  | false, false, true, false, false, false => fifoOd.uu
  | false, true, false, false, false, false => cpuOd.um
  | true, false, false, false, false, false => cpuOd.ll
  | _, _, _, _, _, _ => 0

/-- A byte of the FIFO output. -/
theorem scsiDataTx_fifo (fifoOd cpuOd : Longword) (a3 : Bool) (bo : BitVec 2) :
    scsiDataTx fifoOd cpuOd false true a3 (bo.getLsbD 1) (bo.getLsbD 0) = fifoOd.lane bo := by
  have h : bo = 0 ∨ bo = 1 ∨ bo = 2 ∨ bo = 3 := by revert bo; decide
  rcases h with rfl | rfl | rfl | rfl <;> rfl

/-- `PD_OUT[7:0]`. -/
def pdOut (d : Datapath) (scsiOut : Bool) : Byte := if scsiOut then d.txLatched else 0

/-! ## §2 Clock edges -/

/-- The asynchronous reset of the receive latch, `negedge S2CPU`. -/
def settle (d : Datapath) (s2cpu : Bool) : Datapath :=
  { d with rxLatched := if s2cpu then d.rxLatched else 0 }

/-- SCLK rising: the output latches. -/
def sclkRise (d : Datapath) (od : Longword) (pas : Bool) : Datapath :=
  { d with
    ldLatch := if pas then od.lower else d.ldLatch
    udLatch := if pas then od.upper else d.udLatch }

/-- SCLK falling: the receive latch. -/
def sclkFall (d : Datapath) (rx : Byte) (s2cpu ls2cpu : Bool) : Datapath :=
  { d with rxLatched := if !s2cpu then 0 else if !ls2cpu then rx else d.rxLatched }

/-- CLK90 falling: the bridge latch. -/
def clk90Fall (d : Datapath) (data : Longword) (dsO_ : Bool) : Datapath :=
  { d with inUdLatch := if !dsO_ then data.upper else d.inUdLatch }

/-- CLK135 falling: the transmit latch. -/
def clk135Fall (d : Datapath) (tx : Byte) : Datapath := { d with txLatched := tx }

end Datapath

end Resdmac
