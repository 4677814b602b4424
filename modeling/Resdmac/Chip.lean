import Resdmac.CpuSm
import Resdmac.Datapath
import Resdmac.Fifo
import Resdmac.Registers
import Resdmac.ScsiSm

/-!
# The Composed Design

`RTL/RESDMAC.v`: the modules, the nets between them and the four registers of the
top level, clocked by the ideal phases of the PLL. One period of SCLK has six
edges in this order:

| edge          | registers                                                        |
|---------------|------------------------------------------------------------------|
| SCLK rising   | output latches towards memory                                    |
| CLK90 rising  | both state machines and their outputs, `BUFFER`, `registers_term` |
| CLK135 rising | inputs of `CPU_SM`, FIFO requests, `nLS2CPU`, FIFO pointers       |
| SCLK falling  | `DSACK_LATCHED_`, `COUNT`, `AS_O_`, `DS_O_`, `LLW`, `LHW`         |
| CLK90 falling | `BYTE_PTR`, bridge latch, registers                              |
| CLK135 falling| inputs of `SCSI_SM`, transmit latch                              |

At each edge the pins have arbitrary values. Before it the asynchronous resets
take effect (`settle`); the edge then reads the settled registers and these pins.
-/

namespace Resdmac

/-- The registers of the chip. -/
structure Chip where
  cpu : CpuSm := {}
  scsi : ScsiSm := {}
  fifo : Fifo 3 := {}
  regs : Registers := {}
  path : Datapath := {}
  /-- `AS_O_` -/
  asO_ : Bool := true
  /-- `DS_O_` -/
  dsO_ : Bool := true
  llw : Bool := false
  lhw : Bool := false

namespace Chip

/-! ## §1 Nets -/

/-- `OWN`: the chip is the bus master. -/
def own (s : Chip) : Bool := s.cpu.out.bgack

/-- `AS_I_`. -/
def asI_ (s : Chip) (p : Pins) : Bool := if s.own then s.asO_ else p.as_

/-- `DS_I_`. -/
def dsI_ (s : Chip) (p : Pins) : Bool := if s.own then s.dsO_ else p.ds_

/-- `R_W`. -/
def rw (s : Chip) (p : Pins) : Bool := if s.own then !s.regs.dmadir else p.rw

/-- `_BGACK_I`. -/
def bgackI_ (s : Chip) (p : Pins) : Bool := if s.own then false else p.bgack_

/-- `dsack_int`, low while the chip itself drives `_DSACK_IO`. -/
def dsackInt (s : Chip) (p : Pins) : Bool :=
  s.regs.dsackTerm_ && !p.flashTerm && s.scsi.ls2cpu

/-- `DSK0_IN_`. -/
def dsk0In_ (s : Chip) (p : Pins) : Bool := p.berr_ && (p.dsack0_ && s.dsackInt p)

/-- `DSK1_IN_`. -/
def dsk1In_ (s : Chip) (p : Pins) : Bool := p.berr_ && (p.dsack1_ && s.dsackInt p)

/-- What the address decoder of the register file sees. -/
def access (s : Chip) (p : Pins) : Access where
  addr := p.offset
  dmac_ := p.cs_
  as_ := s.asI_ p
  rw := s.rw p

/-- `DREQ_`, masked by `DMAENA`. -/
def dreq_ (s : Chip) (p : Pins) : Bool := !s.regs.dmaena || p.dreq_

/-- `RST_FIFO`, active low. -/
def rstFifo_ (s : Chip) : Bool := s.regs.dmaena && !s.cpu.out.rstFifo

/-- `INCNO`. -/
def incno (s : Chip) : Bool := s.cpu.out.incno || s.scsi.out.incno

/-- `INCNI`. -/
def incni (s : Chip) : Bool := s.cpu.out.incni || s.scsi.out.incni

/-- `LASTWORD`. -/
def lastword (s : Chip) : Bool := !s.fifo.boeq0 && s.regs.flushfifo && s.fifo.empty

/-- `CPU_OD`. -/
def cpuOd (s : Chip) (p : Pins) : Longword :=
  s.path.cpuOd p.data s.cpu.out.bridgein (s.cpu.out.dieh || s.scsi.out.cpu2s)
    (s.cpu.out.diel || s.scsi.out.cpu2s)

/-- `SCSI_DATA_RX`. -/
def scsiDataRx (s : Chip) (p : Pins) : Byte :=
  Datapath.scsiDataRx p.pd s.scsi.out.s2f s.scsi.out.s2cpu

/-- `FIFO_ID`. -/
def fifoId (s : Chip) (p : Pins) : Longword :=
  if s.scsi.out.s2f then .replicate (s.scsiDataRx p) else s.cpuOd p

/-- `DATA_O`. -/
def dataO (s : Chip) (p : Pins) : Longword :=
  s.path.dataO (s.regs.regOd (s.access p) p.flashData) s.cpu.out.f2cpul s.cpu.out.f2cpuh
    s.cpu.out.bridgeout s.scsi.out.s2cpu

/-- `PD_OUT[7:0]`. -/
def pdOut (s : Chip) : Byte := s.path.pdOut (s.scsi.out.f2s || s.scsi.out.cpu2s)

/-- The inputs of `CPU_SM_INTERNALS`. -/
def cpuInputs (s : Chip) (p : Pins) : CpuSm.Inputs where
  a1 := s.regs.a1
  nbgrant := s.cpu.inp.bgrant_
  boeq3 := s.fifo.boeq3
  cycledone := !s.cpu.inp.ncycledone
  dmadir := s.regs.dmadir
  dmaena := s.cpu.inp.dmaena
  ndreq := s.cpu.inp.dreq_
  ndsack0 := s.dsk0In_ p
  ndsack1 := s.dsk1In_ p
  fifoempty := s.fifo.empty
  fifofull := s.fifo.full
  flushfifo := s.cpu.inp.flushfifo
  lastword := s.lastword
  dsack := s.cpu.dsack
  nsterm := p.sterm_
  nrdfifo := !s.scsi.rdfifoO
  nrififo := !s.scsi.rififoO

/-- The inputs that `CPU_SM` clocks in. -/
def cpuClocked (s : Chip) (p : Pins) : CpuSm.Clocked where
  bgrant_ := p.bg_
  dmaena := s.regs.dmaena
  dreq_ := s.dreq_ p
  flushfifo := s.regs.flushfifo
  ncycledone := !(s.bgackI_ p && s.asI_ p && s.dsk0In_ p && s.dsk1In_ p && p.sterm_)

/-- The inputs of `SCSI_SM_INTERNALS`. -/
def scsiInputs (s : Chip) (p : Pins) : ScsiSm.Inputs where
  boeq3 := s.fifo.boeq3
  ccpureq := s.scsi.inp.ccpureq
  cdreq_ := s.scsi.inp.cdreq_
  cdsack_ := s.scsi.inp.cdsack_
  dmadir := s.regs.dmadir
  fifoempty := s.fifo.empty
  fifofull := s.fifo.full
  rdfifoO := s.scsi.rdfifoO
  rififoO := s.scsi.rififoO
  rw := s.rw p

/-- The inputs that `SCSI_SM` clocks in. -/
def scsiClocked (s : Chip) (p : Pins) : ScsiSm.Clocked where
  cdsack_ := s.scsi.ls2cpu
  ccpureq := (s.access p).wdregreq
  cdreq_ := s.dreq_ p

/-! ## §2 Clock edges -/

/-- The asynchronous resets of both state machines. -/
def reset (s : Chip) : Chip := { s with cpu := s.cpu.reset, scsi := s.scsi.reset }

/-- The asynchronous resets of all modules. Those of the state machines come first: `AS_I_`,
the counter strobes and `S2CPU`, which reset the rest, are taken from their outputs. -/
def settle (s : Chip) (p : Pins) : Chip :=
  { s.reset with
    cpu := s.reset.cpu.settle (s.reset.asI_ p)
    scsi := s.reset.scsi.settle p.rst_ s.reset.cpu.out.incfifo s.reset.cpu.out.decfifo
      (s.reset.asI_ p)
    regs := s.regs.settle p.rst_ (s.reset.asI_ p)
    path := s.path.settle s.reset.scsi.out.s2cpu }

/-- The registers clocked on SCLK rising. -/
def onSclkRise (s : Chip) (_ : Pins) : Chip :=
  { s with path := s.path.sclkRise s.fifo.od s.cpu.out.pas }

/-- The registers clocked on CLK90 rising. -/
def onClk90Rise (s : Chip) (p : Pins) : Chip :=
  { s with
    cpu := s.cpu.clk90Rise (s.cpuInputs p)
    scsi := s.scsi.clk90Rise (s.scsiInputs p)
    fifo := s.fifo.store s.rstFifo_ (s.fifo.writeStrobes s.lhw s.llw s.scsi.lbyte_) (s.fifoId p)
    regs := s.regs.clk90Rise (s.access p) p.rst_ p.dspData }

/-- The registers clocked on CLK135 rising. -/
def onClk135Rise (s : Chip) (p : Pins) : Chip :=
  { s with
    cpu := s.cpu.clk135Rise (s.cpuClocked p)
    scsi := s.scsi.clk135Rise p.rst_ s.cpu.out.incfifo s.cpu.out.decfifo (s.asI_ p)
    fifo := s.fifo.movePtrs s.rstFifo_ s.incni s.incno }

/-- The registers clocked on SCLK falling. -/
def onSclkFall (s : Chip) (p : Pins) : Chip :=
  { s with
    cpu := s.cpu.sclkFall p.rst_ (s.asI_ p) (s.dsk0In_ p) (s.dsk1In_ p)
    scsi := s.scsi.sclkFall p.rst_
    fifo := s.fifo.countStep s.rstFifo_ s.cpu.out.incfifo s.cpu.out.decfifo
    path := s.path.sclkFall (s.scsiDataRx p) s.scsi.out.s2cpu s.scsi.ls2cpu
    asO_ := !s.cpu.out.pas
    dsO_ := !s.cpu.out.pds
    llw := s.cpu.out.pllw
    lhw := s.cpu.out.plhw }

/-- The registers clocked on CLK90 falling. -/
def onClk90Fall (s : Chip) (p : Pins) : Chip :=
  { s with
    fifo := s.fifo.moveBytePtr s.rstFifo_ s.scsi.out.incbo s.regs.a1
    regs := s.regs.clk90Fall (s.access p) p.rst_ p.data (s.dsI_ p) s.cpu.out.stopflush s.asO_
      p.inta s.fifo.empty s.fifo.full
    path := s.path.clk90Fall p.data s.dsO_ }

/-- The registers clocked on CLK135 falling. -/
def onClk135Fall (s : Chip) (p : Pins) : Chip :=
  { s with
    scsi := s.scsi.clk135Fall (s.scsiClocked p)
    path := s.path.clk135Fall (Datapath.scsiDataTx s.fifo.od (s.cpuOd p) s.scsi.out.cpu2s
      s.scsi.out.f2s (p.addr.getLsbD 1) s.fifo.bo1 s.fifo.bo0) }

/-! ## §3 One period of SCLK -/

/-- The pins at the six edges of one period. -/
structure Period where
  sclkRise : Pins := {}
  clk90Rise : Pins := {}
  clk135Rise : Pins := {}
  sclkFall : Pins := {}
  clk90Fall : Pins := {}
  clk135Fall : Pins := {}

/-- The registers that the CLK90 rising edge of the period reads. -/
def atClk90Rise (s : Chip) (q : Period) : Chip :=
  ((s.settle q.sclkRise).onSclkRise q.sclkRise).settle q.clk90Rise

/-- The registers that the CLK135 rising edge of the period reads. -/
def atClk135Rise (s : Chip) (q : Period) : Chip :=
  ((s.atClk90Rise q).onClk90Rise q.clk90Rise).settle q.clk135Rise

/-- The registers that the SCLK falling edge of the period reads. -/
def atSclkFall (s : Chip) (q : Period) : Chip :=
  ((s.atClk135Rise q).onClk135Rise q.clk135Rise).settle q.sclkFall

/-- The registers that the CLK90 falling edge of the period reads. -/
def atClk90Fall (s : Chip) (q : Period) : Chip :=
  ((s.atSclkFall q).onSclkFall q.sclkFall).settle q.clk90Fall

/-- The registers that the CLK135 falling edge of the period reads. -/
def atClk135Fall (s : Chip) (q : Period) : Chip :=
  ((s.atClk90Fall q).onClk90Fall q.clk90Fall).settle q.clk135Fall

/-- The registers after one period, just before the next SCLK rising edge. -/
def period (s : Chip) (q : Period) : Chip :=
  (s.atClk135Fall q).onClk135Fall q.clk135Fall

end Chip

end Resdmac
