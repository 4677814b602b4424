import Mathlib.Data.List.TakeWhile
import Resdmac.RegisterFile

/-!
# Cycles of `FLASH_DATA` and Transfers of the Flash Interface

`RTL/Registers/registers_flash.v` as it is synthesised for the 10M04 and the 10M16. A cycle of
the CPU at `FLASH_DATA` raises a request flag at a falling edge of CLK90; the bridge of the
flash interface acknowledges it at a rising edge at which the fabric does not hold
`waitrequest`, and `Term` ends the cycle. The data of a write are latched at the rising edges
at which `DS_` is low, and the flag stays up as long as the CPU keeps its strobes.

The strobes move after SCLK falling, before or after CLK90 falling: a cycle is seen first by an
edge of either kind.

## Main definitions

- `Flash` — the registers of `registers_flash`
- `Port` — the register file with `registers_flash`
- `Port.transfers` — the transfers that the fabric accepts along a number of edges
- `Cycle` — a cycle of the CPU and the edges up to the next one
- `Cycle.Paced` — the fabric takes one transfer of the cycle, and not before its data

## Main results

- `Port.one_transfer_iff` — cycles of `FLASH_DATA` and transfers are one to one iff the fabric
  keeps pace with the CPU
-/

namespace Resdmac

open Runs
open Registers (Edge Event offset)

/-! ## §1 The module `registers_flash` -/

/-- The registers of `registers_flash`. -/
structure Flash where
  /-- `LATCHED_FLASH_DATA_OUT` -/
  latchedDataOut : Longword := {}
  /-- `LATCHED_FLASH_DATA_IN` -/
  latchedDataIn : Longword := {}
  /-- `LATCHED_ADDR`, in the lower three lanes -/
  latchedAddr : Longword := {}
  write : Bool := false
  read : Bool := false
  /-- `Term` -/
  term : Bool := false
deriving DecidableEq

namespace Flash

/-- `acknowledge` of the bridge. -/
def ack (f : Flash) (waitrequest : Bool) : Bool := !waitrequest && (f.read || f.write)

/-- The asynchronous reset. -/
def settle (f : Flash) (rst_ : Bool) : Flash := if rst_ then f else {}

/-- CLK90 rising. -/
def clk90Rise (f : Flash) (a : Access) (ds_ : Bool) (flashAddr mid : Longword)
    (waitrequest : Bool) (readdata : Longword) : Flash :=
  { f with
    latchedAddr := if !a.as_ then flashAddr else f.latchedAddr
    latchedDataOut := if a.flashDataRd && f.ack waitrequest then readdata else f.latchedDataOut
    latchedDataIn := if a.flashDataWr && !ds_ then mid else f.latchedDataIn
    term := f.ack waitrequest }

/-- CLK90 falling. -/
def clk90Fall (f : Flash) (a : Access) (ds_ : Bool) : Flash :=
  { f with
    read := a.flashDataRd && !ds_
    write := a.flashDataWr && !ds_ }

end Flash

/-! ## §2 The register file with the flash interface -/

/-- An edge of CLK90, with what the fabric puts on the interface. -/
structure Tick extends Edge where
  waitrequest : Bool := true
  readdata : Longword := {}

/-- A transfer that the fabric accepts. -/
structure Transfer where
  rw : Bool
  addr : Longword
  data : Longword
deriving DecidableEq

/-- The register file with `registers_flash`. -/
structure Port where
  regs : Registers := {}
  flash : Flash := {}

namespace Port

/-- An edge of CLK90 out of reset. -/
def tick (p : Port) (t : Tick) : Port where
  regs := p.regs.edge t.toEdge
  flash :=
    if t.rising then
      p.flash.clk90Rise t.access t.ds_ p.regs.flashAddr t.mid t.waitrequest t.readdata
    else p.flash.clk90Fall t.access t.ds_

/-- The registers after reset. -/
def reset (p : Port) : Port := ⟨p.regs.settle false true, p.flash.settle false⟩

/-- The transfers that the fabric accepts at an edge. -/
def accepted (p : Port) (t : Tick) : List Transfer :=
  if t.rising && !t.waitrequest then
    (if p.flash.write then [⟨false, p.flash.latchedAddr, p.flash.latchedDataIn⟩] else []) ++
      if p.flash.read then [⟨true, p.flash.latchedAddr, t.readdata⟩] else []
  else []

/-- The transfers that the fabric accepts along a number of edges. -/
def transfers (p : Port) : List Tick → List Transfer
  | [] => []
  | t :: ts => p.accepted t ++ (p.tick t).transfers ts

end Port

/-! ## §3 Cycles of the CPU -/

/-- A cycle of the CPU at the register file, and the edges from its end to the next one. -/
structure Cycle where
  addr : BitVec 5
  rw : Bool
  data : Longword := {}
  /-- `AS_` is low. -/
  early : List Tick
  /-- `AS_` and `DS_` are low. -/
  late : List Tick
  /-- Cycles of other devices are among these. -/
  gap : List Tick

namespace Cycle

/-- All edges of the cycle and of the gap behind it. -/
def ticks (c : Cycle) : List Tick := c.early ++ c.late ++ c.gap

/-- The cycle as an event of the register file. -/
def event (c : Cycle) : Event :=
  .cycle c.addr c.rw c.data (c.early.map Tick.toEdge) (c.late.map Tick.toEdge)

/-- The cycle is one of `FLASH_DATA`. -/
def flashData (c : Cycle) : Bool := offset c.addr == 0x28

/-- `Term` is raised while the CPU holds its strobes, and they are kept for another clock. -/
def Terminated (c : Cycle) : Prop :=
  ∃ before t after, c.late = before ++ t :: after ∧ before.any (·.falling) = true ∧
    t.rising = true ∧ t.waitrequest = false ∧ after.any (·.rising) = true

/-- A cycle with the timing of the 68030: `AS_` is high at a falling edge before the next one,
`DS_` is low for more than a clock, and nothing but `Term` ends a cycle of `FLASH_DATA`. -/
structure Legal (c : Cycle) : Prop where
  event : c.event.Legal
  rises : ∃ before after, c.late = before ++ after ∧ before.any (·.falling) = true ∧
    after.any (·.rising) = true
  gap : ∀ t ∈ c.gap, t.as_ = true ∨ t.cs_ = true
  released : ∃ high others, c.gap = high ++ others ∧ (∀ t ∈ high, t.as_ = true) ∧
    high.any (·.falling) = true
  terminated : c.flashData = true → c.Terminated

/-- The rising edges at which the request flag of a cycle of `FLASH_DATA` is up. -/
def requests (c : Cycle) : List Tick :=
  (c.late.dropWhile (·.rising) ++ c.gap.takeWhile (·.rising)).filter (·.rising)

/-- The longwords of the accepted transfers, with `latched` in the data latch at the first
request. -/
def answered (c : Cycle) : Longword → List Tick → List Longword
  | _, [] => []
  | latched, t :: ts =>
      (if t.waitrequest then [] else [if c.rw then t.readdata else latched]) ++
        c.answered c.data ts

/-- What the data latch holds at the first request of a write. -/
def first (latched : Longword) (c : Cycle) : Longword :=
  if c.late.head?.any (·.rising) then c.data else latched

/-- The fabric holds `waitrequest` at all rising edges at which the flag is up but one, and a
write does not find it low at the first edge at which `DS_` is low, unless the longword is
the one that was latched before. -/
def Paced (latched : Longword) (c : Cycle) : Prop :=
  c.requests.Pairwise (fun s t => s.waitrequest = true ∨ t.waitrequest = true) ∧
    (c.rw = false → (∃ t ∈ c.late.head?, t.rising = true) ∨
      (∃ t ∈ c.requests.head?, t.waitrequest = true) ∨ c.data = latched)

end Cycle

namespace Port

/-- The registers after a cycle and the gap behind it. -/
def cycle (p : Port) (c : Cycle) : Port := run tick p c.ticks

/-- The longword that the CPU reads in the cycle. -/
def returned (p : Port) (c : Cycle) : Longword :=
  let p' := run tick p (c.early ++ c.late)
  p'.regs.regOd ⟨offset c.addr, false, false, c.rw⟩ p'.flash.latchedDataOut

/-- In a cycle of another location or device `Term` is clear, up to the edge and after it. -/
def NoTerm (p : Port) (t : Tick) : Prop :=
  t.as_ = false → t.access.h28 = false → p.flash.term = false ∧ (p.tick t).flash.term = false

end Port

/-- The last value written to a location. -/
def lastWritten (n : BitVec 8) (cs : List Cycle) : Longword :=
  (cs.filterMap fun c => c.event.written n).getLast?.getD {}

/-- A cycle after a history of cycles: one of `FLASH_DATA` makes one transfer at the address
that was last written to `FLASH_ADDR`, with its own data, and any other makes none. -/
structure OneTransfer (p : Port) (cs : List Cycle) (c : Cycle) : Prop where
  write : c.flashData = true → c.rw = false →
    (run Port.cycle p cs).transfers c.ticks =
      [⟨false, { lastWritten 0x24 cs with uu := 0 }, c.data⟩]
  read : c.flashData = true → c.rw = true →
    (run Port.cycle p cs).transfers c.ticks =
      [⟨true, { lastWritten 0x24 cs with uu := 0 }, (run Port.cycle p cs).returned c⟩]
  other : c.flashData = false → (run Port.cycle p cs).transfers c.ticks = []
  term : Along Port.tick Port.NoTerm (run Port.cycle p cs) c.ticks

/-! ## §4 One edge -/

/-- `LATCHED_ADDR` has followed `FLASH_ADDR`. -/
structure Synced (addr : Longword) (p : Port) : Prop where
  latchedAddr : p.flash.latchedAddr = addr
  flashAddr : p.regs.flashAddr = addr

/-- No request is up. -/
structure Clear (p : Port) : Prop where
  read : p.flash.read = false
  write : p.flash.write = false

/-- The request of a cycle is up. -/
structure Asking (c : Cycle) (p : Port) : Prop where
  read : p.flash.read = c.rw
  write : p.flash.write = !c.rw

/-- At the edge no cycle of `FLASH_DATA` has `DS_` low. -/
def Silent (t : Tick) : Prop := t.access.h28 = false ∨ t.ds_ = true

/-- An edge of a cycle of `FLASH_DATA` at which `DS_` is low. -/
structure Strobing (c : Cycle) (t : Tick) : Prop where
  hit : t.access.h28 = true
  rw : t.access.rw = c.rw
  as_ : t.as_ = false
  ds_ : t.ds_ = false
  mid : c.rw = false → t.mid = c.data

section Tick

variable {p : Port} {t : Tick}

theorem Synced.tick {addr : Longword} (hp : Synced addr p) (ht : t.flashAddr = none) :
    Synced addr (p.tick t) := by
  have hf : (p.tick t).regs.flashAddr = addr := by
    change (p.regs.edge t.toEdge).flashAddr = addr
    rw [Registers.edge_flashAddr, ht]
    exact hp.flashAddr
  refine ⟨?_, hf⟩
  unfold Port.tick Flash.clk90Rise Flash.clk90Fall
  cases t.rising
  · exact hp.latchedAddr
  · simp only [if_true, hp.flashAddr, hp.latchedAddr, ite_self]

theorem Silent.rd (ht : Silent t) : (t.access.flashDataRd && !t.ds_) = false := by
  rcases ht with h | h
  · rw [Access.flashDataRd, Access.rd, show t.access.hit 0x28 = false from h]
    rfl
  · rw [h, Bool.not_true, Bool.and_false]

theorem Silent.wr (ht : Silent t) : (t.access.flashDataWr && !t.ds_) = false := by
  rcases ht with h | h
  · rw [Access.flashDataWr, Access.wr, show t.access.hit 0x28 = false from h]
    rfl
  · rw [h, Bool.not_true, Bool.and_false]

theorem Clear.accepted (hp : Clear p) : p.accepted t = [] := by
  simp [Port.accepted, hp.read, hp.write]

theorem Clear.tick (hp : Clear p) (ht : Silent t) : Clear (p.tick t) := by
  unfold Port.tick
  cases t.rising with
  | false => exact ⟨ht.rd, ht.wr⟩
  | true => exact ⟨hp.read, hp.write⟩

/-- A falling edge without the strobes of `FLASH_DATA` takes the request back. -/
theorem clear_of_falling (hf : t.rising = false) (ht : Silent t) : Clear (p.tick t) := by
  unfold Port.tick
  rw [hf]
  exact ⟨ht.rd, ht.wr⟩

/-- Without a request `Term` is not raised. -/
theorem Clear.term (hp : Clear p) (hn : p.flash.term = false) : (p.tick t).flash.term = false := by
  unfold Port.tick
  cases t.rising with
  | false => exact hn
  | true => simp [Flash.clk90Rise, Flash.ack, hp.read, hp.write]

end Tick

section Strobing

variable {c : Cycle} {p : Port} {t : Tick}

theorem Strobing.rd (ht : Strobing c t) : (t.access.flashDataRd && !t.ds_) = c.rw := by
  rw [Access.flashDataRd, Access.rd, show t.access.hit 0x28 = true from ht.hit, ht.rw, ht.ds_,
    Bool.true_and, Bool.not_false, Bool.and_true]

theorem Strobing.wr (ht : Strobing c t) : (t.access.flashDataWr && !t.ds_) = !c.rw := by
  rw [Access.flashDataWr, Access.wr, show t.access.hit 0x28 = true from ht.hit, ht.rw, ht.ds_,
    Bool.true_and, Bool.not_false, Bool.and_true]

theorem asking_of_falling (ht : Strobing c t) (hf : t.rising = false) : Asking c (p.tick t) := by
  unfold Port.tick
  rw [hf]
  exact ⟨ht.rd, ht.wr⟩

/-- A falling edge within the cycle changes nothing. -/
theorem Asking.tick_of_falling (hp : Asking c p) (ht : Strobing c t) (hf : t.rising = false) :
    (p.tick t).flash = p.flash := by
  change (if t.rising then _ else p.flash.clk90Fall t.access t.ds_) = p.flash
  rw [hf, if_neg Bool.false_ne_true, Flash.clk90Fall, ht.rd, ht.wr, ← hp.write, ← hp.read]

/-- The flags are clocked on the falling edges alone. -/
theorem Asking.tick_of_rising (hp : Asking c p) (hr : t.rising = true) : Asking c (p.tick t) := by
  unfold Port.tick
  rw [hr]
  exact ⟨hp.read, hp.write⟩

theorem Asking.term (hp : Asking c p) (hr : t.rising = true) :
    (p.tick t).flash.term = !t.waitrequest := by
  unfold Port.tick
  rw [hr]
  simp [Flash.clk90Rise, Flash.ack, hp.read, hp.write]

theorem Asking.accepted {addr : Longword} (hp : Asking c p) (hs : Synced addr p)
    (hr : t.rising = true) :
    p.accepted t = if t.waitrequest then []
      else [⟨c.rw, addr, if c.rw then t.readdata else p.flash.latchedDataIn⟩] := by
  rw [Port.accepted, hr, hp.read, hp.write, hs.latchedAddr]
  cases t.waitrequest <;> cases c.rw <;> rfl

/-- A rising edge within the cycle latches the data of a write. -/
theorem Strobing.latches (ht : Strobing c t) (hr : t.rising = true) :
    c.rw = true ∨ (p.tick t).flash.latchedDataIn = c.data := by
  cases hw : c.rw with
  | true => exact .inl rfl
  | false =>
      right
      unfold Port.tick
      rw [hr, if_pos rfl, Flash.clk90Rise, ht.wr, hw]
      exact ht.mid hw

theorem Strobing.flashAddr (ht : Strobing c t) : t.flashAddr = none := by
  have h : t.access.flashAddrWr = false := by
    rw [Access.flashAddrWr, Access.wr, Access.hit_unique ht.hit (by decide), Bool.false_and]
  rw [Edge.flashAddr, h, Bool.and_false, Bool.false_and]
  rfl

end Strobing

/-! ## §5 One cycle -/

theorem Port.transfers_append {ts us : List Tick} (p : Port) :
    p.transfers (ts ++ us) = p.transfers ts ++ (run tick p ts).transfers us := by
  induction ts generalizing p with
  | nil => rfl
  | cons t ts ih => simp only [List.cons_append, transfers, run_cons, ih, List.append_assoc]

theorem Port.transfers_append_append {ts us vs : List Tick} (p : Port) :
    p.transfers (ts ++ us ++ vs) = p.transfers ts ++ (Runs.run tick p ts).transfers us ++
      (Runs.run tick (Runs.run tick p ts) us).transfers vs := by
  rw [transfers_append, transfers_append, run_append]

/-- Without a request there is no transfer. -/
theorem Clear.run {p : Port} {ts : List Tick} (hp : Clear p) (hts : ∀ t ∈ ts, Silent t) :
    p.transfers ts = [] ∧ Clear (run Port.tick p ts) := by
  induction ts generalizing p with
  | nil => exact ⟨rfl, hp⟩
  | cons t ts ih =>
      obtain ⟨h1, h2⟩ := ih (hp.tick (hts t List.mem_cons_self))
        fun u hu => hts u (List.mem_cons_of_mem _ hu)
      refine ⟨?_, h2⟩
      rw [Port.transfers, hp.accepted, h1]
      rfl

/-- An edge at which a request stays up. -/
def Carries (c : Cycle) (latched : Longword) (t : Tick) : Prop :=
  Strobing c t ∨ t.rising = true ∧ t.access.h28 = false ∧ t.flashAddr = none ∧ latched = c.data

/-- Rising edges take a request on, and falling ones do nothing. -/
theorem Asking.run {c : Cycle} {addr latched : Longword} {p : Port} {ts : List Tick}
    (hp : Asking c p) (hs : Synced addr p) (hl : c.rw = true ∨ p.flash.latchedDataIn = latched)
    (hts : ∀ t ∈ ts, Carries c latched t) :
    p.transfers ts = (c.answered latched (ts.filter (·.rising))).map (⟨c.rw, addr, ·⟩) ∧
      Asking c (run Port.tick p ts) ∧ Synced addr (run Port.tick p ts) := by
  -- induction on the edges, for every content of the data latch: a rising edge changes it
  induction ts generalizing p latched with
  | nil => exact ⟨rfl, hp, hs⟩
  | cons t ts ih =>
      have ht := hts t List.mem_cons_self
      have hs' : Synced addr (p.tick t) := hs.tick (ht.elim Strobing.flashAddr (·.2.2.1))
      cases hr : t.rising with
      | false =>
          have ht : Strobing c t := ht.resolve_right fun h => Bool.noConfusion (hr.symm.trans h.1)
          have e := hp.tick_of_falling ht hr
          have hp' : Asking c (p.tick t) := asking_of_falling ht hr
          obtain ⟨h1, h2⟩ := ih hp' hs' (by rw [e]; exact hl)
            fun u hu => hts u (List.mem_cons_of_mem _ hu)
          refine ⟨?_, h2⟩
          rw [Port.transfers, h1, Port.accepted, hr, List.filter_cons_of_neg (by simp [hr])]
          rfl
      | true =>
          have hl' : c.rw = true ∨ (p.tick t).flash.latchedDataIn = c.data := by
            rcases ht with ht | ⟨-, hn, -, rfl⟩
            · exact ht.latches hr
            · -- out of the cycle the data latch stays
              refine hl.imp_right fun hl => ?_
              unfold Port.tick
              rw [hr, if_pos rfl, Flash.clk90Rise, (Silent.wr (.inl hn) : _ = false)]
              exact hl
          obtain ⟨h1, h2⟩ := ih (hp.tick_of_rising hr) hs' hl' fun u hu =>
            (hts u (List.mem_cons_of_mem _ hu)).imp_right fun h => ⟨h.1, h.2.1, h.2.2.1, rfl⟩
          refine ⟨?_, h2⟩
          rw [Port.transfers, h1, hp.accepted hs hr, List.filter_cons_of_pos (by simp [hr]),
            Cycle.answered, List.map_append]
          congr 1
          cases t.waitrequest with
          | true => rfl
          | false =>
              rcases hl with hl | hl
              · simp [hl]
              · simp [hl]

/-- `Term` after a number of edges at which a request is up. -/
theorem Asking.run_term {c : Cycle} {latched : Longword} {p : Port} {ts : List Tick}
    (hp : Asking c p) (hts : ∀ t ∈ ts, Carries c latched t) :
    (Runs.run Port.tick p ts).flash.term =
      (ts.filter (·.rising)).getLast?.elim p.flash.term (!·.waitrequest) := by
  induction ts generalizing p with
  | nil => rfl
  | cons t ts ih =>
      have hts' : ∀ u ∈ ts, Carries c latched u := fun u hu => hts u (List.mem_cons_of_mem _ hu)
      cases hr : t.rising with
      | false =>
          have ht : Strobing c t := (hts t List.mem_cons_self).resolve_right fun h =>
            Bool.noConfusion (hr.symm.trans h.1)
          have hp' : Asking c (p.tick t) := asking_of_falling ht hr
          rw [run_cons, ih hp' hts', hp.tick_of_falling ht hr,
            List.filter_cons_of_neg (by simp [hr])]
      | true =>
          rw [run_cons, ih (hp.tick_of_rising hr) hts', hp.term hr,
            List.filter_cons_of_pos (by simp [hr]), List.getLast?_cons]
          cases (ts.filter (·.rising)).getLast? <;> rfl

/-- What a read has returned after a number of edges within the cycle. -/
theorem Asking.run_dataOut {c : Cycle} {latched : Longword} {p : Port} {ts : List Tick}
    (hp : Asking c p) (hrw : c.rw = true) (hts : ∀ t ∈ ts, Strobing c t) :
    (Runs.run Port.tick p ts).flash.latchedDataOut =
      (c.answered latched (ts.filter (·.rising))).getLast?.getD p.flash.latchedDataOut := by
  induction ts generalizing p latched with
  | nil => rfl
  | cons t ts ih =>
      have ht := hts t List.mem_cons_self
      have hts' : ∀ u ∈ ts, Strobing c u := fun u hu => hts u (List.mem_cons_of_mem _ hu)
      cases hr : t.rising with
      | false =>
          have hp' : Asking c (p.tick t) := asking_of_falling ht hr
          rw [run_cons, ih hp' hts', hp.tick_of_falling ht hr,
            List.filter_cons_of_neg (by simp [hr])]
      | true =>
          have hout : (p.tick t).flash.latchedDataOut =
              if t.waitrequest then p.flash.latchedDataOut else t.readdata := by
            have h := ht.rd
            rw [ht.ds_, Bool.not_false, Bool.and_true, hrw] at h
            unfold Port.tick
            rw [hr, if_pos rfl, Flash.clk90Rise, h]
            simp only [Flash.ack, hp.read, hrw]
            cases t.waitrequest <;> rfl
          have h : (Runs.run Port.tick (p.tick t) ts).flash.latchedDataOut =
              (c.answered c.data (ts.filter (·.rising))).getLast?.getD
                (p.tick t).flash.latchedDataOut := ih (hp.tick_of_rising hr) hts'
          rw [run_cons, h, hout, List.filter_cons_of_pos (by simp [hr]), Cycle.answered,
            List.getLast?_append, hrw]
          cases t.waitrequest <;>
            cases (c.answered c.data (ts.filter (·.rising))).getLast? <;> rfl

/-- While the flags are down, rising edges change nothing but the latches. -/
theorem Clear.run_rising {p : Port} {ts : List Tick} (hp : Clear p)
    (hts : ∀ t ∈ ts, t.rising = true) :
    p.transfers ts = [] ∧ Clear (Runs.run Port.tick p ts) := by
  induction ts generalizing p with
  | nil => exact ⟨rfl, hp⟩
  | cons t ts ih =>
      have hp' : Clear (p.tick t) := by
        unfold Port.tick
        rw [hts t List.mem_cons_self]
        exact ⟨hp.read, hp.write⟩
      obtain ⟨h1, h2⟩ := ih hp' fun u hu => hts u (List.mem_cons_of_mem _ hu)
      refine ⟨?_, h2⟩
      rw [Port.transfers, hp.accepted, h1]
      rfl

/-- The data latch after a number of edges within the cycle. -/
theorem run_latches {c : Cycle} {latched : Longword} {p : Port} {ts : List Tick}
    (hl : c.rw = true ∨ p.flash.latchedDataIn = latched) (hts : ∀ t ∈ ts, Strobing c t) :
    c.rw = true ∨ (Runs.run Port.tick p ts).flash.latchedDataIn =
      if ts.any (·.rising) then c.data else latched := by
  induction ts generalizing p latched with
  | nil => exact hl
  | cons t ts ih =>
      have hts' : ∀ u ∈ ts, Strobing c u := fun u hu => hts u (List.mem_cons_of_mem _ hu)
      rw [List.any_cons]
      cases hr : t.rising with
      | false =>
          have hl' : c.rw = true ∨ (p.tick t).flash.latchedDataIn = latched := by
            unfold Port.tick
            rw [hr]
            exact hl
          exact ih hl' hts'
      | true =>
          have hl' : c.rw = true ∨ (p.tick t).flash.latchedDataIn = c.data :=
            (hts t List.mem_cons_self).latches hr
          refine (ih hl' hts').imp_right fun h => ?_
          rw [run_cons, h, ite_self, Bool.true_or, if_pos rfl]

theorem Synced.run {addr : Longword} {p : Port} {ts : List Tick} (hp : Synced addr p)
    (hts : ∀ t ∈ ts, t.flashAddr = none) : Synced addr (Runs.run Port.tick p ts) :=
  invariant_run (P := fun _ t => t.flashAddr = none) (fun _ _ h ht => h.tick ht) hp
    (along_of_forall hts)

/-- The data latch waits for `DS_`. -/
theorem run_latched_of_silent {p : Port} {ts : List Tick} (hts : ∀ t ∈ ts, Silent t) :
    (Runs.run Port.tick p ts).flash.latchedDataIn = p.flash.latchedDataIn := by
  induction ts generalizing p with
  | nil => rfl
  | cons t ts ih =>
      rw [run_cons, ih fun u hu => hts u (List.mem_cons_of_mem _ hu)]
      unfold Port.tick
      cases t.rising with
      | false => rfl
      | true => rw [if_pos rfl, Flash.clk90Rise, (hts t List.mem_cons_self).wr]; rfl

namespace Cycle

variable {c : Cycle} {latched : Longword} {ts us : List Tick}

/-- After the first request the data latch holds the data of the cycle. -/
theorem answered_append (h : ts ≠ []) :
    c.answered latched (ts ++ us) = c.answered latched ts ++ c.answered c.data us := by
  induction ts generalizing latched with
  | nil => exact absurd rfl h
  | cons t ts ih =>
      rw [List.cons_append, answered, answered, List.append_assoc]
      congr 1
      cases ts with
      | nil => rfl
      | cons u ts => exact ih (List.cons_ne_nil u ts)

theorem answered_read (hr : c.rw = true) :
    c.answered latched ts = (ts.filter (!·.waitrequest)).map (·.readdata) := by
  induction ts generalizing latched with
  | nil => rfl
  | cons t ts ih =>
      rw [answered, ih, hr]
      cases hw : t.waitrequest <;> simp [hw]

theorem answered_data (hr : c.rw = false) :
    c.answered c.data ts = List.replicate (ts.filter (!·.waitrequest)).length c.data := by
  induction ts with
  | nil => rfl
  | cons t ts ih =>
      rw [answered, ih, hr]
      cases hw : t.waitrequest <;> simp [hw, List.replicate_succ]

/-- One write carries the data of the cycle iff one request is acknowledged, and it is not the
first one before the data are latched. -/
theorem answered_write (hr : c.rw = false) :
    c.answered latched ts = [c.data] ↔ (ts.filter (!·.waitrequest)).length = 1 ∧
      ((∃ t ∈ ts.head?, t.waitrequest = true) ∨ c.data = latched) := by
  cases ts with
  | nil => simp [answered]
  | cons t ts =>
      rw [answered, answered_data hr, hr]
      generalize hn : (ts.filter (!·.waitrequest)).length = n
      cases hw : t.waitrequest with
      | true =>
          rw [List.filter_cons_of_neg (by simp [hw]), hn]
          constructor
          · intro h
            exact ⟨by simpa using congrArg List.length h, .inl ⟨t, rfl, hw⟩⟩
          · rintro ⟨rfl, -⟩
            rfl
      | false =>
          rw [List.filter_cons_of_pos (by simp [hw]), List.length_cons, hn]
          constructor
          · intro h
            exact ⟨by simpa using congrArg List.length h, .inr (List.cons.inj h).1.symm⟩
          · rintro ⟨h0, ⟨u, hu, hu'⟩ | rfl⟩
            · obtain rfl := Option.some.inj hu
              exact Bool.noConfusion (hw.symm.trans hu')
            · obtain rfl : n = 0 := by omega
              rfl

/-- At most one edge does not wait. -/
theorem pairwise_waits_iff :
    ts.Pairwise (fun s t => s.waitrequest = true ∨ t.waitrequest = true) ↔
      (ts.filter (!·.waitrequest)).length ≤ 1 := by
  induction ts with
  | nil => simp
  | cons t ts ih =>
      rw [List.pairwise_cons, ih]
      cases hw : t.waitrequest with
      | true =>
          rw [List.filter_cons_of_neg (by simp [hw])]
          exact and_iff_right fun _ _ => .inl rfl
      | false =>
          rw [List.filter_cons_of_pos (by simp [hw]), List.length_cons]
          constructor
          · rintro ⟨h, -⟩
            have h0 : ts.filter (!·.waitrequest) = [] := List.filter_eq_nil_iff.mpr fun u hu => by
              simpa using h u hu
            rw [h0]
            exact Nat.le_refl 1
          · intro h
            have h0 := List.length_eq_zero_iff.mp (Nat.le_zero.mp (Nat.le_of_succ_le_succ h))
            refine ⟨fun u hu => .inr ?_, by rw [h0]; exact Nat.zero_le 1⟩
            simpa using List.filter_eq_nil_iff.mp h0 u hu

end Cycle

/-! ### The parts of a cycle -/

/-- The edges up to the first falling one, and those from there on. -/
theorem split_at_falling {before : List Tick} (after : List Tick)
    (h : before.any (·.falling) = true) :
    ∃ f rest, f ∈ before ∧ f.rising = false ∧
      (before ++ after).takeWhile (·.rising) = before.takeWhile (·.rising) ∧
      (before ++ after).dropWhile (·.rising) = f :: (rest ++ after) := by
  induction before with
  | nil => exact Bool.noConfusion h
  | cons t ts ih =>
      cases ht : t.rising with
      | false =>
          refine ⟨t, ts, List.mem_cons_self, ht, ?_, ?_⟩
          · simp [ht]
          · simp [ht]
      | true =>
          rw [List.any_cons, Edge.falling, ht, Bool.not_true, Bool.false_or] at h
          obtain ⟨f, rest, hf, hr, h1, h2⟩ := ih h
          refine ⟨f, rest, List.mem_cons_of_mem _ hf, hr, ?_, ?_⟩
          · simp only [List.cons_append, List.takeWhile_cons, ht, h1]
          · simp only [List.cons_append, List.dropWhile_cons, ht, h2, if_true]

/-- The edges of a cycle of `FLASH_DATA`: its request comes up at `f`, the first falling edge
at which `DS_` is low, and goes down at `g`, the first falling edge of the gap. -/
structure Cycle.Splits (c : Cycle) (ups : List Tick) (f : Tick) (rest downs : List Tick)
    (g : Tick) (others : List Tick) : Prop where
  late : c.late = ups ++ f :: rest
  drop : c.late.dropWhile (·.rising) = f :: rest
  gap : c.gap = downs ++ g :: others
  requests : c.requests = rest.filter (·.rising) ++ downs
  head : ups.any (·.rising) = c.late.head?.any (·.rising)
  ups_rising : ∀ t ∈ ups, t.rising = true
  f_falling : f.rising = false
  rest_rising : rest.any (·.rising) = true
  downs_rising : ∀ t ∈ downs, t.rising = true
  g_falling : g.rising = false

namespace Cycle.Legal

variable {c : Cycle} (hc : c.Legal)
include hc

theorem hit {t : Tick} (ht : t ∈ c.early ++ c.late) (n : BitVec 8) :
    t.access.hit n = (offset c.addr == n) ∧ t.access.rw = c.rw ∧ t.as_ = false := by
  have hm : t.toEdge ∈ c.early.map Tick.toEdge ++ c.late.map Tick.toEdge := by
    rw [← List.map_append]
    exact List.mem_map_of_mem ht
  obtain ⟨hh, hr⟩ := Event.hit_of_cycle hc.event hm n
  exact ⟨hh, hr, (hc.event.1 _ hm).2.1⟩

theorem strobing (hf : c.flashData = true) {t : Tick} (ht : t ∈ c.late) : Strobing c t := by
  obtain ⟨hh, hr, ha⟩ := hc.hit (List.mem_append_right _ ht) 0x28
  obtain ⟨hd, hm⟩ := hc.event.2.2.1 t.toEdge (List.mem_map_of_mem ht)
  exact ⟨hh.trans hf, hr, ha, hd, hm⟩

theorem silent_early {t : Tick} (ht : t ∈ c.early) : Silent t :=
  .inr (hc.event.2.1 t.toEdge (List.mem_map_of_mem ht))

/-- In the gap the register file is not addressed. -/
theorem hit_gap {t : Tick} (ht : t ∈ c.gap) (n : BitVec 8) : t.access.hit n = false := by
  apply Access.hit_of_not_valid
  rcases hc.gap t ht with h | h
  · simp [Access.valid, Edge.access, h]
  · simp [Access.valid, Edge.access, h]

theorem flashAddr_gap {t : Tick} (ht : t ∈ c.gap) : t.flashAddr = none := by
  rw [Edge.flashAddr, Access.flashAddrWr, Access.wr, hc.hit_gap ht, Bool.false_and,
    Bool.and_false, Bool.false_and]
  rfl

theorem splits : ∃ ups f rest downs g others, c.Splits ups f rest downs g others := by
  obtain ⟨before, after, hl, hb, ha⟩ := hc.rises
  obtain ⟨f, rest, -, hf, -, h1⟩ := split_at_falling after hb
  obtain ⟨high, others, hg, -, hh⟩ := hc.released
  obtain ⟨g, rest', -, hg', -, h2⟩ := split_at_falling others hh
  rw [← hl] at h1
  rw [← hg] at h2
  refine ⟨c.late.takeWhile (·.rising), f, rest ++ after, c.gap.takeWhile (·.rising), g,
    rest' ++ others, ?_⟩
  exact
    { late := by rw [← h1, List.takeWhile_append_dropWhile]
      drop := h1
      gap := by rw [← h2, List.takeWhile_append_dropWhile]
      requests := by
        have hd : (c.gap.takeWhile (·.rising)).filter (·.rising) =
            c.gap.takeWhile (·.rising) := List.filter_eq_self.mpr fun t ht =>
          List.mem_takeWhile_imp (p := fun t : Tick => t.rising) ht
        rw [Cycle.requests, h1, List.filter_append, hd, List.filter_cons_of_neg (by simp [hf])]
      head := by
        cases c.late with
        | nil => rfl
        | cons t ts => cases ht : t.rising <;> simp [ht]
      ups_rising := fun t ht => List.mem_takeWhile_imp (p := fun t : Tick => t.rising) ht
      f_falling := hf
      rest_rising := by rw [List.any_append, ha, Bool.or_true]
      downs_rising := fun t ht => List.mem_takeWhile_imp (p := fun t : Tick => t.rising) ht
      g_falling := hg' }

end Cycle.Legal

/-! ### Transfers of a cycle -/

section FlashData

variable {c : Cycle} (hc : c.Legal) (hf : c.flashData = true) {p : Port} {addr : Longword}
  {ups rest downs others : List Tick} {f g : Tick} (h : c.Splits ups f rest downs g others)
include hc hf h

theorem Cycle.Splits.strobing : ∀ t ∈ ups ++ f :: rest, Strobing c t := fun t ht =>
  hc.strobing hf (by rw [h.late]; exact ht)

/-- Up to the falling edge `f` nothing is requested. -/
theorem Cycle.Splits.raised (hp : Clear p) (hs : Synced addr p) :
    p.transfers (c.early ++ ups ++ [f]) = [] ∧
      Asking c (run Port.tick p (c.early ++ ups ++ [f])) ∧
      Synced addr (run Port.tick p (c.early ++ ups ++ [f])) ∧
      (c.rw = true ∨ (run Port.tick p (c.early ++ ups ++ [f])).flash.latchedDataIn =
        c.first p.flash.latchedDataIn) := by
  have hst := h.strobing hc hf
  have hups : ∀ t ∈ ups, Strobing c t := fun t ht => hst t (List.mem_append_left _ ht)
  have hstf : Strobing c f := hst f (List.mem_append_right _ List.mem_cons_self)
  have hearly : ∀ t ∈ c.early, t.flashAddr = none := fun t ht => by
    obtain ⟨hh, -⟩ := hc.hit (List.mem_append_left _ ht) 0x28
    rw [Edge.flashAddr, Access.flashAddrWr, Access.wr, Access.hit_unique (hh.trans hf) (by decide),
      Bool.false_and, Bool.and_false, Bool.false_and]
    rfl
  -- without `DS_` the flags stay down, and with it they come up at the falling edge only
  obtain ⟨t1, hp1⟩ := hp.run fun t ht => hc.silent_early (c := c) ht
  have hl1 := run_latched_of_silent (p := p) fun t ht => hc.silent_early (c := c) ht
  obtain ⟨t2, hp2⟩ := hp1.run_rising h.ups_rising
  have hl2 := run_latches (.inr hl1) hups
  have hs2 := (hs.run hearly).run fun t ht => (hups t ht).flashAddr
  have hrun : run Port.tick p (c.early ++ ups ++ [f]) =
      (run Port.tick (run Port.tick p c.early) ups).tick f := by
    rw [run_append, run_append]
    rfl
  rw [hrun]
  refine ⟨?_, asking_of_falling hstf h.f_falling, hs2.tick hstf.flashAddr, ?_⟩
  · rw [Port.transfers_append_append, t1, t2, Port.transfers, hp2.accepted]
    rfl
  · refine hl2.imp_right fun hl2 => ?_
    rw [Cycle.first, ← h.head, ← hl2]
    change Flash.latchedDataIn (if f.rising then _ else _) = _
    rw [h.f_falling]
    rfl

/-- From `f` to `g` the requests are answered. -/
theorem Cycle.Splits.carried {latched : Longword} (hp : Asking c p) (hs : Synced addr p)
    (hl : c.rw = true ∨ p.flash.latchedDataIn = latched) :
    p.transfers (rest ++ downs) = (c.answered latched c.requests).map (⟨c.rw, addr, ·⟩) ∧
      Asking c (run Port.tick p (rest ++ downs)) ∧
      (run Port.tick p (rest ++ downs)).flash.term =
        c.requests.getLast?.elim p.flash.term (!·.waitrequest) := by
  have hrest : ∀ t ∈ rest, Strobing c t := fun t ht =>
    h.strobing hc hf t (List.mem_append_right _ (List.mem_cons_of_mem _ ht))
  have hdowns : ∀ t ∈ downs, Carries c c.data t := fun t ht => by
    have ht' : t ∈ c.gap := by
      rw [h.gap]
      exact List.mem_append_left _ ht
    exact .inr ⟨h.downs_rising t ht, hc.hit_gap ht' _, hc.flashAddr_gap ht', rfl⟩
  have hne : rest.filter (·.rising) ≠ [] := fun he => by
    obtain ⟨t, ht, hr⟩ := List.any_eq_true.mp h.rest_rising
    exact List.filter_eq_nil_iff.mp he t ht hr
  have hd : downs.filter (·.rising) = downs := List.filter_eq_self.mpr h.downs_rising
  -- within the cycle the data are latched; in the gap the flags are still up
  obtain ⟨t1, hp1, hs1⟩ := hp.run hs hl fun t ht => .inl (hrest t ht)
  have hl1 := run_latches hl hrest
  rw [h.rest_rising, if_pos rfl] at hl1
  obtain ⟨t2, hp2, -⟩ := hp1.run hs1 hl1 hdowns
  rw [Port.transfers_append, run_append, t1, t2, hp1.run_term hdowns,
    hp.run_term (fun t ht => (.inl (hrest t ht) : Carries c latched t)), h.requests, hd,
    Cycle.answered_append hne, List.map_append, List.getLast?_append]
  refine ⟨rfl, hp2, ?_⟩
  cases downs.getLast? <;> rfl

/-- The transfers of a cycle of `FLASH_DATA` are its answered requests. -/
theorem Cycle.Splits.transfers_eq (hp : Clear p) (hs : Synced addr p) :
    p.transfers c.ticks =
      (c.answered (c.first p.flash.latchedDataIn) c.requests).map (⟨c.rw, addr, ·⟩) := by
  obtain ⟨t1, hp1, hs1, hl1⟩ := h.raised hc hf hp hs
  obtain ⟨t2, -⟩ := h.carried hc hf hp1 hs1 hl1
  have hgap : ∀ t ∈ g :: others, Silent t := fun t ht =>
    .inl (hc.hit_gap (by rw [h.gap]; exact List.mem_append_right _ ht) _)
  let p2 := run Port.tick (run Port.tick p (c.early ++ ups ++ [f])) (rest ++ downs)
  have hp3 : Clear (p2.tick g) := clear_of_falling h.g_falling (hgap g List.mem_cons_self)
  obtain ⟨t3, -⟩ := hp3.run fun t ht => hgap t (List.mem_cons_of_mem _ ht)
  have t4 : p2.accepted g = [] := by
    rw [Port.accepted, h.g_falling]
    rfl
  have hticks : c.ticks = (c.early ++ ups ++ [f]) ++ (rest ++ downs) ++ g :: others := by
    rw [Cycle.ticks, h.late, h.gap]
    simp only [List.append_assoc, List.cons_append, List.nil_append]
  rw [hticks, Port.transfers_append_append, t1, t2, Port.transfers]
  change [] ++ _ ++ (p2.accepted g ++ (p2.tick g).transfers others) = _
  rw [t3, t4, List.append_nil, List.append_nil, List.nil_append]

/-- A request is acknowledged before the last one. -/
theorem Cycle.Splits.acknowledged : ∃ r₁ a r₂, rest = r₁ ++ a :: r₂ ∧ a.rising = true ∧
    a.waitrequest = false ∧ r₂.any (·.rising) = true := by
  obtain ⟨before, a, after, hl, hb, hr, hw, ha⟩ := hc.terminated hf
  obtain ⟨f', rest', -, -, -, h1⟩ := split_at_falling (a :: after) hb
  rw [← hl, h.drop] at h1
  exact ⟨rest', a, after, (List.cons.inj h1).2, hr, hw, ha⟩

/-- A read returns what the last transfer within the cycle carried. -/
theorem Cycle.Splits.returned_eq (hp : Clear p) (hs : Synced addr p) (hrw : c.rw = true)
    {v : Longword}
    (hv : c.answered (c.first p.flash.latchedDataIn) c.requests = [v]) : p.returned c = v := by
  obtain ⟨-, hp1, -, -⟩ := h.raised hc hf hp hs
  have hrest : ∀ t ∈ rest, Strobing c t := fun t ht =>
    h.strobing hc hf t (List.mem_append_right _ (List.mem_cons_of_mem _ ht))
  obtain ⟨r₁, a, r₂, hr, har, haw, -⟩ := h.acknowledged hc hf
  have ha : a ∈ (rest.filter (·.rising)).filter (!·.waitrequest) := by
    rw [List.mem_filter, List.mem_filter, hr]
    exact ⟨⟨List.mem_append_right _ List.mem_cons_self, har⟩, by simp [haw]⟩
  -- a transfer falls into the rest of the cycle, so the single one is it
  have hne : rest.filter (·.rising) ≠ [] := fun he => by
    rw [he] at ha
    exact absurd ha List.not_mem_nil
  rw [h.requests, Cycle.answered_append hne] at hv
  have hv' : c.answered (c.first p.flash.latchedDataIn) (rest.filter (·.rising)) = [v] := by
    rcases List.append_eq_singleton_iff.mp hv with ⟨h0, -⟩ | ⟨h1, -⟩
    · rw [Cycle.answered_read hrw, List.map_eq_nil_iff] at h0
      rw [h0] at ha
      exact absurd ha List.not_mem_nil
    · exact h1
  have hout : (run Port.tick (run Port.tick p (c.early ++ ups ++ [f])) rest).flash.latchedDataOut =
      (c.answered (c.first p.flash.latchedDataIn) (rest.filter (·.rising))).getLast?.getD _ :=
    hp1.run_dataOut hrw hrest
  rw [hv', ← run_append] at hout
  have hl : c.early ++ c.late = c.early ++ ups ++ [f] ++ rest := by
    rw [h.late]
    simp only [List.append_assoc, List.cons_append, List.nil_append]
  have ho : offset c.addr = 0x28 := eq_of_beq hf
  rw [Port.returned, hl, hrw, ho]
  change Registers.regOd _ _ (Flash.latchedDataOut _) = v
  rw [hout]
  rfl

/-- The fabric takes the data of a write once, and a read returns what the fabric gave once,
iff the cycle is paced. -/
theorem Cycle.Splits.single_iff (hp : Clear p) (hs : Synced addr p) :
    p.transfers c.ticks = [⟨c.rw, addr, if c.rw then p.returned c else c.data⟩] ↔
      c.Paced p.flash.latchedDataIn := by
  have hinj : Function.Injective fun v : Longword => (⟨c.rw, addr, v⟩ : Transfer) :=
    fun v w hvw => congrArg Transfer.data hvw
  have hmap : ∀ v : Longword, [(⟨c.rw, addr, v⟩ : Transfer)] =
      [v].map fun v => (⟨c.rw, addr, v⟩ : Transfer) := fun _ => rfl
  obtain ⟨r₁, a, r₂, hr, har, haw, -⟩ := h.acknowledged hc hf
  have hone : 1 ≤ (c.requests.filter (!·.waitrequest)).length := by
    apply List.length_pos_of_mem (a := a)
    rw [List.mem_filter, h.requests, List.mem_append, List.mem_filter, hr]
    exact ⟨.inl ⟨List.mem_append_right _ List.mem_cons_self, har⟩, by simp [haw]⟩
  -- both sides count the acknowledged requests; a write asks for the right data besides
  rw [h.transfers_eq hc hf hp hs, hmap, hinj.list_map.eq_iff, Cycle.Paced,
    Cycle.pairwise_waits_iff]
  cases hrw : c.rw with
  | true =>
      rw [if_pos rfl]
      constructor
      · intro hv
        rw [Cycle.answered_read hrw] at hv
        have hlen := congrArg List.length hv
        rw [List.length_map] at hlen
        exact ⟨hlen.le, fun h0 => Bool.noConfusion h0⟩
      · rintro ⟨hle, -⟩
        obtain ⟨u, hu⟩ := List.length_eq_one_iff.mp (le_antisymm hle hone)
        have hv : c.answered (c.first p.flash.latchedDataIn) c.requests = [u.readdata] := by
          rw [Cycle.answered_read hrw, hu]
          rfl
        rw [h.returned_eq hc hf hp hs hrw hv, hv]
  | false =>
      rw [if_neg Bool.false_ne_true, Cycle.answered_write hrw]
      have hfirst : c.data = c.first p.flash.latchedDataIn ↔
          (∃ t ∈ c.late.head?, t.rising = true) ∨ c.data = p.flash.latchedDataIn := by
        rw [Cycle.first]
        cases hl : c.late.head? with
        | none => simp
        | some t => cases ht : t.rising <;> simp [ht]
      rw [hfirst, le_antisymm_iff, and_iff_left hone]
      refine and_congr_right fun _ => ?_
      constructor
      · rintro (h1 | h1 | h1)
        · exact fun _ => .inr (.inl h1)
        · exact fun _ => .inl h1
        · exact fun _ => .inr (.inr h1)
      · intro h0
        rcases h0 rfl with h1 | h1 | h1
        · exact .inr (.inl h1)
        · exact .inl h1
        · exact .inr (.inr h1)

end FlashData

/-! ## §6 A history of cycles -/

/-- What a rising edge latches of the data bus. -/
def Tick.dataIn (t : Tick) : Option Longword :=
  if t.rising && (t.access.flashDataWr && !t.ds_) then some t.mid else none

theorem Port.tick_dataIn (p : Port) (t : Tick) :
    (p.tick t).flash.latchedDataIn = t.dataIn.elim p.flash.latchedDataIn id := by
  unfold Port.tick Tick.dataIn Flash.clk90Rise Flash.clk90Fall
  cases t.rising with
  | false => rfl
  | true => cases (t.access.flashDataWr && !t.ds_) <;> rfl

namespace Cycle

variable {c : Cycle}

/-- The edges of a cycle that writes `FLASH_ADDR`, from `DS_` low on. -/
structure Loads (c : Cycle) (t : Tick) : Prop where
  as_ : t.as_ = false
  falling : t.rising = false → t.flashAddr = some c.data
  rising : t.rising = true → t.flashAddr = none

theorem Loads.flashAddr {p : Port} {t : Tick} (ht : Loads c t)
    (h : t.rising = false ∨ p.regs.flashAddr = { c.data with uu := 0 }) :
    (p.tick t).regs.flashAddr = { c.data with uu := 0 } := by
  change (p.regs.edge t.toEdge).flashAddr = _
  rw [Registers.edge_flashAddr]
  cases hr : t.rising with
  | false => rw [ht.falling hr]; rfl
  | true =>
      rw [ht.rising hr]
      exact h.resolve_left fun hn => Bool.noConfusion (hr.symm.trans hn)

/-- A falling edge loads `FLASH_ADDR`. -/
theorem run_loads {p : Port} {ts : List Tick} (hts : ∀ t ∈ ts, Loads c t)
    (h : ts.any (·.falling) = true ∨ p.regs.flashAddr = { c.data with uu := 0 }) :
    (run Port.tick p ts).regs.flashAddr = { c.data with uu := 0 } := by
  induction ts generalizing p with
  | nil => exact h.resolve_left Bool.false_ne_true
  | cons t ts ih =>
      apply ih fun u hu => hts u (List.mem_cons_of_mem _ hu)
      have ht := hts t List.mem_cons_self
      rw [List.any_cons, Bool.or_eq_true] at h
      rcases h with (h | h) | h
      · exact .inr (ht.flashAddr (.inl (by simpa [Edge.falling] using h)))
      · exact .inl h
      · exact .inr (ht.flashAddr (.inr h))

/-- A rising edge after it makes `LATCHED_ADDR` follow. -/
theorem run_follows {p : Port} {ts : List Tick} (hts : ∀ t ∈ ts, Loads c t)
    (hp : p.regs.flashAddr = { c.data with uu := 0 })
    (h : ts.any (·.rising) = true ∨ p.flash.latchedAddr = { c.data with uu := 0 }) :
    (run Port.tick p ts).flash.latchedAddr = { c.data with uu := 0 } := by
  induction ts generalizing p with
  | nil => exact h.resolve_left Bool.false_ne_true
  | cons t ts ih =>
      have ht := hts t List.mem_cons_self
      refine ih (fun u hu => hts u (List.mem_cons_of_mem _ hu)) (ht.flashAddr (.inr hp)) ?_
      rw [List.any_cons, Bool.or_eq_true, or_assoc] at h
      have hl : (p.tick t).flash.latchedAddr =
          if t.rising then p.regs.flashAddr else p.flash.latchedAddr := by
        unfold Port.tick Flash.clk90Rise Flash.clk90Fall
        cases t.rising
        · rfl
        · have ha : t.access.as_ = false := ht.as_
          simp only [if_true, ha, Bool.not_false]
      cases hr : t.rising with
      | false =>
          rw [hr, if_neg Bool.false_ne_true] at hl
          rw [hl]
          exact h.resolve_left fun hn => Bool.noConfusion (hr.symm.trans hn)
      | true =>
          rw [hr, if_pos rfl, hp] at hl
          exact .inr hl

namespace Legal

variable (hc : c.Legal) {p : Port}
include hc

/-- The gap takes back what is requested. -/
theorem clear_cycle (p : Port) : Clear (p.cycle c) := by
  obtain ⟨ups, f, rest, downs, g, others, h⟩ := hc.splits
  have hgap : ∀ t ∈ g :: others, Silent t := fun t ht =>
    .inl (hc.hit_gap (by rw [h.gap]; exact List.mem_append_right _ ht) _)
  rw [Port.cycle, ticks, h.gap, ← List.append_assoc, run_append, run_cons]
  exact ((clear_of_falling h.g_falling (hgap g List.mem_cons_self)).run fun t ht =>
    hgap t (List.mem_cons_of_mem _ ht)).2

/-- Edges of the cycle and of the gap, as the register file sees them. -/
theorem wr_ticks {n : BitVec 8} (hn : c.event.written n = none) {t : Tick} (ht : t ∈ c.ticks) :
    t.access.wr n = false := by
  rw [ticks, List.mem_append] at ht
  rcases ht with ht | ht
  · refine Event.wr_of_written_none hc.event hn ?_
    change t.toEdge ∈ c.early.map Tick.toEdge ++ c.late.map Tick.toEdge
    rw [← List.map_append]
    exact List.mem_map_of_mem ht
  · rw [Access.wr, hc.hit_gap ht, Bool.false_and]

omit hc in
theorem written_eq {n : BitVec 8} {v : Longword} (hn : c.event.written n = some v) :
    v = c.data ∧ c.rw = false ∧ offset c.addr = n := by
  rw [Cycle.event] at hn
  cases hrw : c.rw with
  | true => rw [hrw] at hn; exact absurd hn (by simp [Event.written])
  | false =>
      rw [hrw] at hn
      simp only [Event.written, Option.ite_none_right_eq_some, Option.some.injEq] at hn
      exact ⟨hn.2.symm, rfl, hn.1⟩

/-- `LATCHED_ADDR` follows `FLASH_ADDR`. -/
theorem synced_cycle (hp : p.flash.latchedAddr = p.regs.flashAddr) :
    (p.cycle c).flash.latchedAddr = (p.cycle c).regs.flashAddr := by
  -- without a write both stay; a write loads `FLASH_ADDR` and then has a rising edge
  cases hn : c.event.written 0x24 with
  | none =>
      have hs : Synced p.regs.flashAddr (p.cycle c) :=
        Synced.run ⟨hp, rfl⟩ fun t ht => by
          rw [Edge.flashAddr, Access.flashAddrWr, hc.wr_ticks hn ht, Bool.and_false, Bool.false_and]
          rfl
      rw [hs.latchedAddr, hs.flashAddr]
  | some v =>
      obtain ⟨-, hrw, ho⟩ := written_eq hn
      obtain ⟨before, after, hl, hb, ha⟩ := hc.rises
      have hload : ∀ t ∈ c.late, Loads c t := fun t ht => by
        obtain ⟨hh, hr, has⟩ := hc.hit (List.mem_append_right _ ht) 0x24
        obtain ⟨hd, hm⟩ := hc.event.2.2.1 t.toEdge (List.mem_map_of_mem ht)
        have hw : t.access.flashAddrWr = true := by
          rw [Access.flashAddrWr, Access.wr, hh, hr, ho, hrw]
          rfl
        refine ⟨has, fun hf => ?_, fun hf => ?_⟩
        · rw [Edge.flashAddr, Edge.falling, hf, hw, hd, ← hm hrw]
          rfl
        · rw [Edge.flashAddr, Edge.falling, hf]
          rfl
      have h1 := run_loads (p := run Port.tick p c.early)
        (fun t ht => hload t (by rw [hl]; exact List.mem_append_left _ ht)) (.inl hb)
      have hafter : ∀ t ∈ after, Loads c t := fun t ht =>
        hload t (by rw [hl]; exact List.mem_append_right _ ht)
      have hs : Synced { c.data with uu := 0 } (p.cycle c) := by
        rw [Port.cycle, ticks, hl, run_append, run_append, run_append]
        exact Synced.run ⟨run_follows hafter h1 (.inl ha), run_loads hafter (.inr h1)⟩
          fun t ht => hc.flashAddr_gap ht
      rw [hs.latchedAddr, hs.flashAddr]

/-- `FLASH_ADDR` holds what was written to it last. -/
theorem flashAddr_cycle (p : Port) : (p.cycle c).regs.flashAddr =
    (c.event.written 0x24).elim p.regs.flashAddr ({ · with uu := 0 }) := by
  have hgap : c.gap.filterMap (fun t => t.flashAddr) = [] :=
    List.filterMap_eq_nil_iff.mpr fun t ht => hc.flashAddr_gap ht
  have hedges : (c.early ++ c.late).filterMap (fun t => t.flashAddr) =
      c.event.edges.filterMap Edge.flashAddr := by
    change _ = (c.early.map Tick.toEdge ++ c.late.map Tick.toEdge).filterMap Edge.flashAddr
    rw [← List.map_append, List.filterMap_map]
    rfl
  rw [← Event.last_flashAddr hc.event, ← hedges]
  have h : (run Port.tick p c.ticks).regs.flashAddr =
      (c.ticks.filterMap fun t => t.flashAddr).getLast?.elim p.regs.flashAddr
        ({ · with uu := 0 }) := by
    apply run_last (f := fun p : Port => p.regs.flashAddr)
    exact fun t _ s => Registers.edge_flashAddr s.regs t.toEdge
  rw [ticks, List.filterMap_append, hgap, List.append_nil] at h
  exact h

/-- The data latch holds what was written to `FLASH_DATA` last. -/
theorem dataIn_cycle (p : Port) : (p.cycle c).flash.latchedDataIn =
    (c.event.written 0x28).elim p.flash.latchedDataIn id := by
  have h : (run Port.tick p c.ticks).flash.latchedDataIn =
      (c.ticks.filterMap Tick.dataIn).getLast?.elim p.flash.latchedDataIn id := by
    apply run_last (f := fun p : Port => p.flash.latchedDataIn)
    exact fun t _ s => s.tick_dataIn t
  rw [Port.cycle, h]
  cases hn : c.event.written 0x28 with
  | none =>
      have hnone : c.ticks.filterMap Tick.dataIn = [] := List.filterMap_eq_nil_iff.mpr fun t ht => by
        rw [Tick.dataIn, Access.flashDataWr, hc.wr_ticks hn ht, Bool.false_and, Bool.and_false]
        rfl
      rw [hnone]
      rfl
  | some v =>
      obtain ⟨rfl, hrw, ho⟩ := written_eq hn
      have hf : c.flashData = true := beq_iff_eq.mpr ho
      -- the latch is loaded in the part of the cycle with `DS_` low only
      have hearly : c.early.filterMap Tick.dataIn = [] := List.filterMap_eq_nil_iff.mpr fun t ht => by
        rw [Tick.dataIn, (hc.silent_early ht).wr, Bool.and_false]
        rfl
      have hgap : c.gap.filterMap Tick.dataIn = [] := List.filterMap_eq_nil_iff.mpr fun t ht => by
        rw [Tick.dataIn, (Silent.wr (.inl (hc.hit_gap ht _)) : _ = false), Bool.and_false]
        rfl
      have hlate : (c.late.filterMap Tick.dataIn).getLast? = some c.data := by
        obtain ⟨before, after, hl, -, ha⟩ := hc.rises
        rw [getLast?_filterMap_const (p := fun t : Tick => t.rising) (v := c.data), hl,
          List.any_append, ha, Bool.or_true, if_pos rfl]
        intro t ht
        have hst := hc.strobing hf ht
        rw [Tick.dataIn, hst.wr, hrw, hst.mid hrw]
        simp
      rw [ticks, List.filterMap_append, List.filterMap_append, hearly, hgap, List.nil_append,
        List.append_nil, hlate, Option.elim_some]

/-- A cycle of another location requests nothing. -/
theorem silent_of_other (hf : c.flashData = false) {t : Tick} (ht : t ∈ c.ticks) :
    t.access.h28 = false := by
  rw [ticks, List.mem_append] at ht
  rcases ht with ht | ht
  · exact (hc.hit ht 0x28).1.trans hf
  · exact hc.hit_gap ht _

end Legal

end Cycle

/-! ### `Term` -/

/-- No request is up, and none was acknowledged. -/
structure Quiet (p : Port) : Prop where
  clear : Clear p
  term : p.flash.term = false

/-- Where nothing is requested `Term` stays clear. -/
theorem Quiet.run {p : Port} {ts : List Tick} (hp : Quiet p) (hts : ∀ t ∈ ts, Silent t) :
    Along Port.tick Port.NoTerm p ts ∧ Quiet (Runs.run Port.tick p ts) := by
  have hstep : ∀ (p : Port) (t : Tick), Quiet p → Silent t →
      Port.NoTerm p t ∧ Quiet (p.tick t) := fun p t hp ht => by
    have hn := hp.clear.term (t := t) hp.term
    exact ⟨fun _ _ => ⟨hp.term, hn⟩, hp.clear.tick ht, hn⟩
  have hall : Along Port.tick (fun _ t => Silent t) p ts := along_of_forall hts
  exact ⟨along_of_invariant hstep hp hall,
    invariant_run (fun p t hp ht => (hstep p t hp ht).2) hp hall⟩

/-- A request that waits raises no `Term`. -/
theorem Asking.run_waits {c : Cycle} {p : Port} {ts : List Tick} (hp : Asking c p)
    (hn : p.flash.term = false) (hts : ∀ t ∈ ts, t.rising = true ∧ t.waitrequest = true) :
    Along Port.tick Port.NoTerm p ts ∧ (Runs.run Port.tick p ts).flash.term = false := by
  induction ts generalizing p with
  | nil => exact ⟨trivial, hn⟩
  | cons t ts ih =>
      obtain ⟨hr, hw⟩ := hts t List.mem_cons_self
      have hn' : (p.tick t).flash.term = false := by
        rw [hp.term hr, hw]
        rfl
      obtain ⟨h1, h2⟩ := ih (hp.tick_of_rising hr) hn' fun u hu =>
        hts u (List.mem_cons_of_mem _ hu)
      exact ⟨⟨fun _ _ => ⟨hn, hn'⟩, h1⟩, h2⟩

section FlashData

variable {c : Cycle} (hc : c.Legal) (hf : c.flashData = true) {p : Port} {addr : Longword}
  {ups rest downs others : List Tick} {f g : Tick} (h : c.Splits ups f rest downs g others)
include hc hf h

/-- In a cycle that is paced the requests after the acknowledged one wait. -/
theorem Cycle.Splits.waits {latched : Longword} (hpace : c.Paced latched) :
    (∃ u, (rest.filter (·.rising)).getLast? = some u ∧ u.waitrequest = true) ∧
      ∀ t ∈ downs, t.waitrequest = true := by
  obtain ⟨r₁, a, r₂, hr, har, haw, h2⟩ := h.acknowledged hc hf
  have hsplit : rest.filter (·.rising) =
      r₁.filter (·.rising) ++ a :: r₂.filter (·.rising) := by
    rw [hr, List.filter_append, List.filter_cons_of_pos (by simp [har])]
  -- the acknowledged request is the one that does not wait
  have hpair := hpace.1
  rw [h.requests, hsplit, List.append_assoc, List.pairwise_append, List.cons_append,
    List.pairwise_cons] at hpair
  have hlater : ∀ t ∈ r₂.filter (·.rising) ++ downs, t.waitrequest = true := fun t ht =>
    (hpair.2.1.1 t ht).resolve_left fun hw => Bool.noConfusion (haw.symm.trans hw)
  refine ⟨?_, fun t ht => hlater t (List.mem_append_right _ ht)⟩
  have hne : r₂.filter (·.rising) ≠ [] := fun he => by
    obtain ⟨t, ht, htr⟩ := List.any_eq_true.mp h2
    exact List.filter_eq_nil_iff.mp he t ht htr
  refine ⟨(r₂.filter (·.rising)).getLast hne, ?_,
    hlater _ (List.mem_append_left _ (List.getLast_mem hne))⟩
  rw [hsplit, List.getLast?_append, List.getLast?_cons, List.getLast?_eq_some_getLast hne]
  rfl

/-- In a cycle that is paced, `Term` is clear before the gap is over. -/
theorem Cycle.Splits.noTerm (hp : Clear p) (hs : Synced addr p) {latched : Longword}
    (hpace : c.Paced latched) :
    Along Port.tick Port.NoTerm p c.ticks ∧ (p.cycle c).flash.term = false := by
  obtain ⟨⟨u, hu, huw⟩, hdowns⟩ := h.waits hc hf hpace
  have hrest : ∀ t ∈ rest, Strobing c t := fun t ht =>
    h.strobing hc hf t (List.mem_append_right _ (List.mem_cons_of_mem _ ht))
  have hgap : ∀ t ∈ g :: others, Silent t := fun t ht =>
    .inl (hc.hit_gap (by rw [h.gap]; exact List.mem_append_right _ ht) _)
  -- within the cycle there is nothing to show
  have hcycle : Along Port.tick Port.NoTerm p (c.early ++ c.late) := by
    have hall : Along Port.tick (fun _ t => t.access.h28 = true) p (c.early ++ c.late) :=
      along_of_forall fun t ht => (hc.hit ht 0x28).1.trans hf
    exact hall.mono fun _ t ht _ hn => Bool.noConfusion (ht.symm.trans hn)
  have hl : c.early ++ c.late = (c.early ++ ups ++ [f]) ++ rest := by
    rw [h.late]
    simp only [List.append_assoc, List.cons_append, List.nil_append]
  obtain ⟨-, hp1, hs1, hl1⟩ := h.raised hc hf hp hs
  obtain ⟨-, hp2, -⟩ := hp1.run hs1 hl1 fun t ht => .inl (hrest t ht)
  have ht2 : (run Port.tick (run Port.tick p (c.early ++ ups ++ [f])) rest).flash.term = false := by
    rw [hp1.run_term (fun t ht => (.inl (hrest t ht) : Carries c latched t)), hu]
    change (!u.waitrequest) = false
    rw [huw]
    rfl
  rw [← run_append, ← hl] at hp2 ht2
  obtain ⟨h3, ht3⟩ := hp2.run_waits ht2 fun t ht => ⟨h.downs_rising t ht, hdowns t ht⟩
  have hterm : ∀ p' : Port, (p'.tick g).flash.term = p'.flash.term := fun p' => by
    unfold Port.tick
    rw [h.g_falling]
    rfl
  have hq : Quiet (Port.tick _ g) :=
    ⟨clear_of_falling h.g_falling (hgap g List.mem_cons_self), (hterm _).trans ht3⟩
  obtain ⟨h4, hq4⟩ := hq.run fun t ht => hgap t (List.mem_cons_of_mem _ ht)
  have hticks : c.ticks = (c.early ++ c.late) ++ (downs ++ g :: others) := by
    rw [Cycle.ticks, h.gap]
  rw [Port.cycle, hticks, run_append, run_append]
  refine ⟨along_append.mpr ⟨hcycle, along_append.mpr ⟨h3, ?_, h4⟩⟩, hq4.term⟩
  exact fun _ _ => ⟨ht3, (hterm _).trans ht3⟩

end FlashData

/-! ## §7 Cycles and transfers -/

section History

variable {cs : List Cycle} (hcs : ∀ c ∈ cs, c.Legal)
include hcs

/-- After a history of cycles no request is up, and the latches hold what was last written. -/
theorem Port.run_cycle (p : Port) :
    Clear (run cycle p.reset cs) ∧
      Synced { lastWritten 0x24 cs with uu := 0 } (run cycle p.reset cs) ∧
      (run cycle p.reset cs).flash.latchedDataIn = lastWritten 0x28 cs := by
  have hlegal : Along cycle (fun _ c => c.Legal) p.reset cs := along_of_forall hcs
  have hclear : Clear (run cycle p.reset cs) :=
    invariant_run (fun p c _ hc => hc.clear_cycle p) ⟨rfl, rfl⟩ hlegal
  have hlatch : (run cycle p.reset cs).flash.latchedAddr = (run cycle p.reset cs).regs.flashAddr :=
    invariant_run (I := fun p : Port => p.flash.latchedAddr = p.regs.flashAddr)
      (fun p c hp hc => hc.synced_cycle hp) rfl hlegal
  have haddr : (run cycle p.reset cs).regs.flashAddr =
      { lastWritten 0x24 cs with uu := 0 } := by
    have h : (run cycle p.reset cs).regs.flashAddr =
        (cs.filterMap fun c => c.event.written 0x24).getLast?.elim {} ({ · with uu := 0 }) := by
      apply run_last (f := fun p : Port => p.regs.flashAddr)
      exact fun c hc s => (hcs c hc).flashAddr_cycle s
    rw [h, lastWritten]
    cases (cs.filterMap fun c => c.event.written 0x24).getLast? <;> rfl
  have hdata : (run cycle p.reset cs).flash.latchedDataIn =
      (cs.filterMap fun c => c.event.written 0x28).getLast?.elim {} id := by
    apply run_last (f := fun p : Port => p.flash.latchedDataIn)
    exact fun c hc s => (hcs c hc).dataIn_cycle s
  refine ⟨hclear, ⟨hlatch.trans haddr, haddr⟩, ?_⟩
  rw [hdata, lastWritten]
  cases (cs.filterMap fun c => c.event.written 0x28).getLast? <;> rfl

end History

/-- `Term` is not seen in another cycle, and it is clear after each one, if the cycles of
`FLASH_DATA` are paced. -/
theorem Cycle.Legal.noTerm {c : Cycle} (hc : c.Legal) {p : Port} {addr latched : Longword}
    (hp : Quiet p) (hs : Synced addr p) (hpace : c.flashData = true → c.Paced latched) :
    Along Port.tick Port.NoTerm p c.ticks ∧ (p.cycle c).flash.term = false := by
  cases hf : c.flashData with
  | true =>
      obtain ⟨ups, f, rest, downs, g, others, h⟩ := hc.splits
      exact h.noTerm hc hf hp.clear hs (hpace hf)
  | false =>
      obtain ⟨h1, h2⟩ := hp.run fun t ht => .inl (hc.silent_of_other hf ht)
      exact ⟨h1, h2.term⟩

/-- **Cycles of `FLASH_DATA` and transfers of the flash interface are one to one** — each
cycle of a run makes one transfer, with the address last written to `FLASH_ADDR` and the data
of that cycle, no other cycle makes one or sees `Term` — iff the fabric paces each of them:
for every sequence of cycles, every `waitrequest` and every position of the strobes between
the edges. -/
theorem Port.one_transfer_iff (p : Port) {cs : List Cycle} (hcs : ∀ c ∈ cs, c.Legal) :
    (∀ before c, before ++ [c] <+: cs → OneTransfer p.reset before c) ↔
      ∀ before c, before ++ [c] <+: cs → c.flashData = true →
        c.Paced (lastWritten 0x28 before) := by
  have hlegal : ∀ before c, before ++ [c] <+: cs → c.Legal ∧ ∀ b ∈ before, b.Legal :=
    fun before c h =>
      ⟨hcs c (h.subset (List.mem_append_right _ (List.mem_singleton_self c))),
        fun b hb => hcs b (h.subset (List.mem_append_left _ hb))⟩
  constructor
  · intro hone before c h hf
    obtain ⟨hc, hb⟩ := hlegal before c h
    obtain ⟨hclear, hs, hdata⟩ := Port.run_cycle hb p
    obtain ⟨ups, f, rest, downs, g, others, hsplit⟩ := hc.splits
    rw [← hdata, ← hsplit.single_iff hc hf hclear hs]
    have hc1 := hone before c h
    cases hrw : c.rw with
    | true => exact hc1.read hf hrw
    | false => exact hc1.write hf hrw
  · intro hpace
    -- `Term` is clear before each cycle: induction on the cycles before it
    have hterm : ∀ before, before <+: cs → (run Port.cycle p.reset before).flash.term = false := by
      intro before
      induction before using List.reverseRecOn with
      | nil => exact fun _ => rfl
      | append_singleton before c ih =>
          intro h
          obtain ⟨hc, hb⟩ := hlegal before c h
          obtain ⟨hclear, hs, -⟩ := Port.run_cycle hb p
          rw [run_append]
          exact (hc.noTerm ⟨hclear, ih ((List.prefix_append _ _).trans h)⟩ hs (hpace before c h)).2
    intro before c h
    obtain ⟨hc, hb⟩ := hlegal before c h
    obtain ⟨hclear, hs, hdata⟩ := Port.run_cycle hb p
    obtain ⟨ups, f, rest, downs, g, others, hsplit⟩ := hc.splits
    have hsingle : c.flashData = true → _ := fun hf =>
      (hsplit.single_iff hc hf hclear hs).mpr (by rw [hdata]; exact hpace before c h hf)
    exact
      { write := fun hf hrw => by simpa [hrw] using hsingle hf
        read := fun hf hrw => by simpa [hrw] using hsingle hf
        other := fun hf => (hclear.run fun t ht => .inl (hc.silent_of_other hf ht)).1
        term := (hc.noTerm ⟨hclear, hterm before ((List.prefix_append _ _).trans h)⟩ hs
          (hpace before c h)).1 }

/-- A clock of CLK90, falling edge first. -/
def flashClock (e : Edge) (waitrequest : Bool) : List Tick :=
  [{ e with waitrequest := waitrequest }, { e with rising := true, waitrequest := waitrequest }]

/-- A write cycle with one clock up to `DS_` and the answers of the fabric in those after it. -/
def writeCycle (addr : BitVec 5) (data : Longword) (waits : List Bool) : Cycle :=
  let e : Edge := { cs_ := false, as_ := false, rw := false, addr := addr }
  { addr, rw := false, data
    early := flashClock e true
    late := waits.flatMap (flashClock { e with ds_ := false, mid := data })
    gap := flashClock {} true }

/-- A write cycle of at least two clocks that is terminated is one of the 68030. -/
theorem writeCycle_legal {addr : BitVec 5} {data : Longword} {waits : List Bool}
    (hn : waits ≠ [])
    (ht : offset addr = 0x28 → (writeCycle addr data waits).Terminated) :
    (writeCycle addr data waits).Legal := by
  have hlate : ∀ t ∈ (writeCycle addr data waits).late, t.cs_ = false ∧ t.as_ = false ∧
      t.rw = false ∧ t.addr = addr ∧ t.ds_ = false ∧ t.mid = data := fun t ht => by
    obtain ⟨w, -, ht⟩ := List.mem_flatMap.mp ht
    rcases List.mem_cons.mp ht with rfl | ht
    · exact ⟨rfl, rfl, rfl, rfl, rfl, rfl⟩
    · obtain rfl := List.mem_singleton.mp ht
      exact ⟨rfl, rfl, rfl, rfl, rfl, rfl⟩
  have hearly : ∀ t ∈ (writeCycle addr data waits).early, t.cs_ = false ∧ t.as_ = false ∧
      t.rw = false ∧ t.addr = addr ∧ t.ds_ = true := fun t ht => by
    rcases List.mem_cons.mp ht with rfl | ht
    · exact ⟨rfl, rfl, rfl, rfl, rfl⟩
    · obtain rfl := List.mem_singleton.mp ht
      exact ⟨rfl, rfl, rfl, rfl, rfl⟩
  obtain ⟨w, ws, rfl⟩ := List.exists_cons_of_ne_nil hn
  have hgap : ∀ t ∈ flashClock {} true, t.as_ = true ∨ t.cs_ = true := by decide
  refine ⟨⟨fun e he => ?_, fun e he => ?_, fun e he => ?_, rfl⟩, ⟨[_], _, rfl, rfl, rfl⟩,
    hgap, ⟨flashClock {} true, [], rfl, by decide, rfl⟩, fun hf => ht (eq_of_beq hf)⟩
  · rw [List.mem_append, List.mem_map, List.mem_map] at he
    rcases he with ⟨t, ht, rfl⟩ | ⟨t, ht, rfl⟩
    · obtain ⟨h1, h2, h3, h4, -⟩ := hearly t ht
      exact ⟨h1, h2, h3, h4⟩
    · obtain ⟨h1, h2, h3, h4, -⟩ := hlate t ht
      exact ⟨h1, h2, h3, h4⟩
  · obtain ⟨t, ht, rfl⟩ := List.mem_map.mp he
    exact (hearly t ht).2.2.2.2
  · obtain ⟨t, ht, rfl⟩ := List.mem_map.mp he
    obtain ⟨-, -, -, -, h5, h6⟩ := hlate t ht
    exact ⟨h5, fun _ => h6⟩

/-- `FLASH_ADDR` and `FLASH_DATA` are written, and the fabric waits before and after it takes
the data. -/
def pacedWrite : List Cycle :=
  [writeCycle 0x09 { ll := 0x40 } [true, true, true, true],
    writeCycle 0x0A { ll := 0x12 } [true, false, true]]

theorem pacedWrite_legal : ∀ c ∈ pacedWrite, c.Legal := by
  intro c hc
  rcases List.mem_cons.mp hc with rfl | hc
  · exact writeCycle_legal (List.cons_ne_nil _ _) fun h => absurd h (by decide)
  · obtain rfl := List.mem_singleton.mp hc
    exact writeCycle_legal (List.cons_ne_nil _ _) fun _ =>
      ⟨[_, _, _], _, _, rfl, rfl, rfl, rfl, rfl⟩

theorem Port.one_transfer_iff_pacedWrite :
    (∀ before c, before ++ [c] <+: pacedWrite → OneTransfer (Port.reset {}) before c) ↔
      ∀ before c, before ++ [c] <+: pacedWrite → c.flashData = true →
        c.Paced (lastWritten 0x28 before) :=
  Port.one_transfer_iff {} pacedWrite_legal

/-- A fabric without wait states takes the data of the write before, and then those of the
write itself. -/
theorem Port.stale_and_double_write :
    ¬ ∀ (p : Port) (cs : List Cycle), (∀ c ∈ cs, c.Legal) →
      ∀ before c, before ++ [c] <+: cs → OneTransfer p.reset before c := by
  intro h
  have hc : (writeCycle 0x0A { ll := 0x34 } [false, false]).Legal :=
    writeCycle_legal (List.cons_ne_nil _ _) fun _ => ⟨[_], _, _, rfl, rfl, rfl, rfl, rfl⟩
  have hlegal : ∀ b ∈ pacedWrite ++ [writeCycle 0x0A { ll := 0x34 } [false, false]],
      b.Legal := fun b hb => by
    rcases List.mem_append.mp hb with hb | hb
    · exact pacedWrite_legal b hb
    · rw [List.mem_singleton.mp hb]
      exact hc
  have hw := (h {} _ hlegal pacedWrite _ (List.prefix_refl _)).write (by decide) rfl
  revert hw
  decide

example : (run Port.cycle (Port.reset {}) pacedWrite).transfers
    (writeCycle 0x0A { ll := 0x34 } [false, false]).ticks =
      [⟨false, { ll := 0x40 }, { ll := 0x12 }⟩, ⟨false, { ll := 0x40 }, { ll := 0x34 }⟩] := by
  decide

end Resdmac
