import Mathlib.Tactic.FinCases
import Resdmac.Driver

/-!
# Requests of the Driver

The driver of the CPU serves one request after the other (`Docs/LinuxCodeA3000SCSI/a3000.c`):
`dma_setup` writes the direction and the address and starts the engine, the WD33C93 then has
its bytes taken, and `dma_stop` ends the transfer. This module follows the chip, RAMSEY and the
memory through any number of requests to memory, from reset on.

## Main definitions

- `DmaSetup` — the statements of `dma_setup`
- `Service` — the board with a CPU that serves requests

## Main results

- `Service.requests_served` — the memory is the one that the blocks served so far leave
- `Service.load_of_served` — a block reads back unless a later one overlaps it
-/

namespace Resdmac

open Chip (Period)

/-! ## §1 The end of a flush -/

theorem Chip.stopflush_of_dropsFlush {s : Chip} {q : Period} (h : Chip.Live s q)
    (hd : Chip.DropsFlush s) : (s.cpuOut q).stopflush = true := by
  obtain ⟨hena, hff, he, hst⟩ := hd
  have hidle : s.cpu.state = .s0 ∨ s.cpu.state = .s20 :=
    hst.imp (fun h => h.1) fun h => h.1
  refine (CpuSm.stopflush_of_idle hidle fun hfull => ?_).mpr ?_
  · rw [Chip.cpuIn_eq h] at hfull
    have h8 : s.fifo.level = 8 := of_decide_eq_true ((Fifo.full_eq _).symm.trans hfull)
    have h0 : s.fifo.level = 0 := of_decide_eq_true ((Fifo.empty_eq _).symm.trans he)
    omega
  · rw [Chip.cpuIn_eq h]
    exact ⟨hena, hff, he, hst⟩

namespace Host

/-- The flush of `dma_stop` is over before `SP_DMA`: an idle `CPU_SM` ends it within the two
clocks in which the next access can not yet begin. -/
structure Settled (h : Host) : Prop where
  awake : h.stop = .poll → h.board.sys.chip.cpu.inp.dmaena = true
  sampled : h.stop = .clearInterrupt → h.board.sys.chip.regs.dmaena = true ∧
    h.board.sys.chip.cpu.inp.dmaena = true ∧ h.board.sys.chip.cpu.state = .s0 ∧
    (h.board.sys.chip.regs.flushfifo = true → h.board.sys.chip.cpu.inp.flushfifo = true)
  ended : h.stop.polled = true → (h.stop = .clearInterrupt → h.board.sys.accessing = true) →
    h.board.sys.chip.regs.flushfifo = false

section Settled

variable {m : Address → Byte} {a : Address} {block : List Byte} {h : Host} {q : Period}

/-- An idle `CPU_SM` that samples `DMAENA` goes to `s0`. -/
theorem state_of_drained (hd : Chip.Drained h.board.sys.chip) (hq : q.NoReset)
    (hs : h.board.sys.chip.cpu.inp.dmaena = true) :
    (h.board.sys.chip.period q).cpu.state = .s0 := by
  have hl : Chip.Live h.board.sys.chip q := ⟨hd.awake, hq⟩
  have hdir : (h.board.sys.chip.cpuIn q).dmadir = true := by
    rw [Chip.cpuIn_eq hl]
    change (!h.board.sys.chip.regs.ndmadir) = true
    rw [hd.ndmadir]
    rfl
  rw [Chip.period_cpu_state hl]
  rcases hd.cpu with e | e
  · have hr : ¬ (h.board.sys.chip.cpuIn q).requests .s0 = true := fun hr =>
      hd.not_requesting ((Chip.requests_iff hl hd.cpu).mp (by rw [e]; exact hr))
    rw [e, (CpuSm.s0_spec hdir).1, if_neg hr]
  · have hena : (h.board.sys.chip.cpuIn q).dmaena = true := by
      rw [Chip.cpuIn_eq hl]
      exact hs
    rw [e, CpuSm.nextState, hena, hdir]

variable (hw : Winding m a block h) (hS : Settled h) (hq : h.Executes q)
include hw hS hq

/-- The flag is cleared, and `FLUSH` is not strobed again. -/
theorem Settled.flushfifo_step (hp : h.stop.polled = true)
    (hf : h.stop = .clearInterrupt ∨ h.board.sys.chip.regs.flushfifo = false) :
    (h.board.sys.chip.period q).regs.flushfifo = false := by
  have hl := hw.coupled.live hq.bus
  have hd := (hw.stored hp).drained
  have hn : Chip.NoFlush h.board.sys.chip q := by
    apply hq.not_hit hw.coupled
    revert hp
    cases h.stop <;> decide
  rw [hn.flushfifo hl]
  rcases hf with hc | hf
  · cases hff : h.board.sys.chip.regs.flushfifo with
    | false => rfl
    | true =>
        -- the flag was sampled, so `CPU_SM` drops the flush now
        obtain ⟨-, hena, hst, hsam⟩ := hS.sampled hc
        have hdrop : Chip.DropsFlush h.board.sys.chip := by
          refine ⟨hena, hsam hff, ?_, .inl ⟨hst, ?_, ?_⟩⟩
          · rw [Fifo.empty_eq, hd.level]
            rfl
          · rw [Registers.dmadir, hd.ndmadir]
            rfl
          · rw [Chip.lastword, Fifo.boeq0, hd.bytePtr]
            rfl
        rw [Chip.stopflush_of_dropsFlush hl hdrop]
        rfl
  · rw [hf, Bool.false_and]

omit hS hq in
/-- The engine runs until `SP_DMA`. -/
theorem Winding.dmaena_of_not_polled (hp : h.stop.polled = false) :
    h.board.sys.chip.regs.dmaena = true :=
  (hw.closing hp).1.storing.draining.reading.dmaena

omit hS hq in
theorem Winding.dmaena_of_next_poll (hs : (h.step q).stop = .poll) :
    h.board.sys.chip.regs.dmaena = true := by
  apply hw.dmaena_of_not_polled
  refine Bool.eq_false_iff.mpr fun hp => ?_
  have hp' : (h.step q).stop.polled = true := by
    rcases step_stop h q with e | ⟨-, e⟩
    · rw [e, hp]
    · rw [e, DmaStop.next_polled _ hp]
  rw [hs] at hp'
  exact Bool.noConfusion hp'

omit hq in
/-- The engine is drained when the loop is left, and for as long as `CINT` is written. -/
theorem Settled.drained (hs : (h.step q).stop = .clearInterrupt) :
    (h.stop = .clearInterrupt ∨ h.stop = .poll) ∧ Chip.Drained h.board.sys.chip ∧
      h.board.sys.chip.regs.dmaena = true ∧ h.board.sys.chip.cpu.inp.dmaena = true := by
  rcases step_stop h q with e | ⟨hacc, e⟩
  · have hst : h.stop = .clearInterrupt := e.symm.trans hs
    obtain ⟨hena, hinp, -⟩ := hS.sampled hst
    exact ⟨.inl hst, (hw.stored (by rw [hst]; rfl)).drained, hena, hinp⟩
  · obtain ⟨hst, hf⟩ := DmaStop.next_eq_clearInterrupt (e.symm.trans hs)
    exact ⟨.inr hst, (hw.stored_of_flag hst hacc hf).drained,
      hw.dmaena_of_not_polled (by rw [hst]; rfl), hS.awake hst⟩

theorem Settled.sampled_step (hs : (h.step q).stop = .clearInterrupt) :
    (h.board.sys.chip.period q).regs.dmaena = true ∧
      (h.board.sys.chip.period q).cpu.inp.dmaena = true ∧
      (h.board.sys.chip.period q).cpu.state = .s0 ∧
      ((h.board.sys.chip.period q).regs.flushfifo = true →
        (h.board.sys.chip.period q).cpu.inp.flushfifo = true) := by
  have hl := hw.coupled.live hq.bus
  have hinp : (h.board.sys.chip.period q).cpu.inp = _ := Chip.period_cpu_inp hl
  obtain ⟨hst, hd, hena, hsam⟩ := hS.drained hw hs
  -- neither `SP_DMA` nor `FLUSH` is accessed here
  have hnot : (h.board.sys.chip.endAccess q).spDma = false ∧
      Chip.NoFlush h.board.sys.chip q := by
    constructor
    · apply hq.not_hit hw.coupled
      rcases hst with e | e <;> rw [e] <;> decide
    · apply hq.not_hit hw.coupled
      rcases hst with e | e <;> rw [e] <;> decide
  refine ⟨?_, ?_, state_of_drained hd hq.bus.noReset hsam, fun hff => ?_⟩
  · rw [Chip.period_dmaena hl, hnot.1, hena]
    simp
  · rw [hinp]
    exact hena
  · rw [hinp]
    rw [hnot.2.flushfifo hl] at hff
    exact (Bool.and_eq_true_iff.mp hff).1

theorem Settled.ended_step (hp : (h.step q).stop.polled = true)
    (hacc : (h.step q).stop = .clearInterrupt → (h.step q).board.sys.accessing = true) :
    (h.board.sys.chip.period q).regs.flushfifo = false := by
  rcases step_stop h q with e | ⟨hc, e⟩
  · rw [e] at hp
    apply hS.flushfifo_step hw hq hp
    by_cases hst : h.stop = .clearInterrupt
    · exact .inl hst
    · exact .inr (hS.ended hp fun e => absurd e hst)
  · cases hp' : h.stop.polled with
    | true =>
        exact hS.flushfifo_step hw hq hp' (.inr (hS.ended hp' fun _ => hc))
    | false =>
        -- the loop is left with the end of an access, and the next one has not begun
        exfalso
        have hst : (h.step q).stop = .clearInterrupt :=
          e.trans (DmaStop.next_eq_of_polled hp' (e ▸ hp))
        have hsame := stop_of_cycle (System.cycle_of_accessing (hacc hst))
        rw [hsame, hp'] at hp
        exact Bool.noConfusion hp

theorem Settled.step : Settled (h.step q) where
  awake hs := by
    change (h.board.sys.chip.period q).cpu.inp.dmaena = true
    rw [Chip.period_cpu_inp (hw.coupled.live hq.bus)]
    exact hw.dmaena_of_next_poll hs
  sampled hs := hS.sampled_step hw hq hs
  ended hp hacc := hS.ended_step hw hq hp hacc

end Settled

end Host

/-! ## §2 `dma_setup` -/

namespace Ramsey

/-- A byte of an address, from the high one on. -/
def byte (a : Address) (i : Fin 4) : Byte := a.extractLsb' (8 * (3 - i.val)) 8

/-- A write to the 8-bit port of the address counter. -/
def setByte (a : Address) (v : Byte) : Fin 4 → Address
  | 0 => v ++ a.extractLsb' 0 24
  | 1 => a.extractLsb' 24 8 ++ v ++ a.extractLsb' 0 16
  | 2 => a.extractLsb' 16 16 ++ v ++ a.extractLsb' 0 8
  | 3 => a.extractLsb' 8 24 ++ v

theorem byte_setByte (a : Address) (v : Byte) (i j : Fin 4) :
    byte (setByte a v i) j = if j = i then v else byte a j := by
  apply BitVec.eq_of_getLsbD_eq
  intro n hn
  fin_cases i <;> fin_cases j <;>
    simp [byte, setByte, BitVec.getLsbD_extractLsb'] <;> grind

theorem eq_of_bytes {a b : Address} (h : ∀ i, byte a i = byte b i) : a = b := by
  apply BitVec.eq_of_getLsbD_eq
  intro n hn
  have hbyte := congrArg (fun v => v.getLsbD (n % 8)) (h ⟨3 - n / 8, by omega⟩)
  have e : 8 * (3 - (3 - n / 8)) + n % 8 = n := by omega
  simpa [byte, BitVec.getLsbD_extractLsb', Nat.mod_lt n (show 0 < 8 by decide), e] using hbyte

/-- `A1` is in the low byte. -/
theorem getLsbD_one_eq (a : Address) : a.getLsbD 1 = (byte a 3).getLsbD 1 := by
  simp [byte]

end Ramsey

/-- The statements of `dma_setup` that reach the chip, for a transfer to memory. `ACR` is a
register of RAMSEY with an 8-bit port, so its write is one access for each byte. -/
inductive DmaSetup where
  /-- `regs->CNTR = cntr`, with `CNTR_PDMD | CNTR_INTEN` -/
  | setControl
  /-- `regs->ACR = addr` -/
  | setAddress (byte : Fin 4)
  /-- `regs->ST_DMA = 1` -/
  | startDma
deriving DecidableEq, Repr

namespace DmaSetup

/-- The longword that a statement accesses, and its `R_W`. -/
def access : DmaSetup → BitVec 5 × Bool
  | .setControl => (0x02, false)
  | .setAddress _ => (0x03, false)
  | .startDma => (0x04, false)

/-- What a statement writes: the registers of the chip are on D7-0, RAMSEY is on D31-24. -/
def data (addr : Address) : DmaSetup → Longword
  | .setControl => { ll := 0x0C }
  | .setAddress i => { uu := Ramsey.byte addr i }
  | .startDma => { ll := 1 }

def next : DmaSetup → DmaSetup
  | .setControl => .setAddress 0
  | .setAddress i => if h : i.val < 3 then .setAddress ⟨i.val + 1, Nat.succ_lt_succ h⟩ else .startDma
  | .startDma => .startDma

/-- The bytes of the address that RAMSEY has. -/
def loaded : DmaSetup → Bool → ℕ
  | .setControl, _ => 0
  | .setAddress i, accessing => i.val + accessing.toNat
  | .startDma, _ => 4

theorem loaded_le (s : DmaSetup) (accessing : Bool) : s.loaded accessing ≤ 4 := by
  cases s with
  | setControl => exact Nat.zero_le 4
  | setAddress i =>
      have hi := i.isLt
      have ha := Bool.toNat_le accessing
      change i.val + accessing.toNat ≤ 4
      omega
  | startDma => exact Nat.le_refl 4

theorem loaded_mono (s : DmaSetup) (accessing : Bool) : s.loaded false ≤ s.loaded accessing := by
  cases s with
  | setControl => exact Nat.le_refl 0
  | setAddress i => exact Nat.le_add_right i.val _
  | startDma => exact Nat.le_refl 4

theorem loaded_next {s : DmaSetup} : s.next.loaded false ≤ s.loaded true := by
  cases s with
  | setControl => exact Nat.le_refl 0
  | setAddress i =>
      rw [next]
      split_ifs with h
      · exact Nat.le_refl _
      · have := i.isLt
        change 4 ≤ i.val + 1
        omega
  | startDma => exact Nat.le_refl 4

end DmaSetup

/-! ## §3 The service -/

/-- Where the driver is. -/
inductive Call where
  | idle
  | setup (s : DmaSetup)
  | transfer
  | stop (s : DmaStop)
deriving DecidableEq, Repr

/-- The board with a CPU that serves requests to memory. -/
structure Service where
  board : Board
  call : Call := .idle
  /-- The address of the request. -/
  addr : Address := 0
  /-- The blocks of the requests that are done, and where they go. -/
  served : List (Address × List Byte) := []

namespace Service

/-- A period, and what the operating system and the WD33C93 make of it. -/
structure Input where
  period : Period
  /-- A request comes in. -/
  request : Option Address := none
  /-- The WD33C93 has raised its interrupt. -/
  done : Bool := false

end Service

namespace System

/-- The bytes that passed the pins are those of the new session. -/
def forget (x : System) : System := { x with taken := [], given := [], written := [], read := [] }

end System

namespace Service

/-- The board in a period of `dma_setup`: RAMSEY takes the bytes of `ACR`. A write of `ACR`
by an idle driver is not followed, for `dma_setup` writes all four bytes. -/
def load (b : Board) (s : DmaSetup) (q : Period) : Board :=
  match s with
  | .setAddress i =>
    if (b.sys.chip.endAccess q).acrWr then
      { b.step q with acr := Ramsey.setByte (b.step q).acr q.clk90Fall.data.uu i }
    else b.step q
  | _ => b.step q

def step (x : Service) (i : Input) : Service :=
  match x.call with
  | .idle =>
    match i.request with
    | none => { x with board := x.board.step i.period }
    | some a => { x with board := x.board.step i.period, call := .setup .setControl, addr := a }
  | .setup s =>
    let b := load x.board s i.period
    -- the strobe of `ST_DMA` starts the session
    if b.sys.chip.regs.dmaena then
      { x with board := { b with sys := b.sys.forget }, call := .transfer }
    else
      { x with board := b, call := .setup (if x.board.sys.endsAccess i.period then s.next else s) }
  | .transfer =>
    { x with
      board := x.board.step i.period
      call := if i.done then .stop .maskInterrupts else .transfer }
  | .stop d =>
    let h := Host.step ⟨x.board, d⟩ i.period
    if h.stop = .returned then
      { x with board := h.board, call := .idle, served := x.served ++ [(x.addr, h.board.sys.taken)] }
    else { x with board := h.board, call := .stop h.stop }

/-- What the CPU and the WD33C93 keep to in a period. The registers take what is on the bus at
each edge of an access, so what the CPU writes is there at all of them. -/
def Legal (x : Service) (i : Input) : Prop :=
  System.CpuRules x.board.sys i.period ∧
    match x.call with
    | .idle =>
      -- the CPU may access everything, the WD33C93 among it, but it starts no session
      (x.board.sys.chip.endAccess i.period).stDma = false ∧
        ∀ a ∈ i.request, a.toNat % 4 = 0 ∧ (x.board.sys.step i.period).cycle = none
    | .setup s =>
      x.board.sys.Accesses i.period (some s.access) ∧
        ((x.board.sys.chip.endAccess i.period).contrWr = true →
          i.period.clk90Fall.data.ll = (s.data x.addr).ll) ∧
        ((x.board.sys.chip.endAccess i.period).acrWr = true →
          i.period.clk90Fall.data.uu = (s.data x.addr).uu)
    | .transfer =>
      System.Streaming x.board.sys i.period ∧
        (i.done = true → (x.board.sys.step i.period).cycle = none ∧
          Chip.Still (x.board.sys.step i.period).chip ∧
          (x.board.sys.step i.period).taken.length % 4 = 0)
    | .stop d => Host.Executes ⟨x.board, d⟩ i.period

instance (s : Chip) : Decidable (Chip.Still s) :=
  decidable_of_iff (s.scsi.state.taking = false ∧ s.scsi.rififoO = false ∧ s.scsi.inp.cdreq_ = true)
    ⟨fun ⟨h1, h2, h3⟩ => ⟨h1, h2, h3⟩, fun ⟨h1, h2, h3⟩ => ⟨h1, h2, h3⟩⟩

instance : (x : Service) → (i : Input) → Decidable (x.Legal i)
  | ⟨b, .idle, _, _⟩, i =>
    -- not by trying all addresses
    haveI : Decidable (∀ a ∈ i.request, a.toNat % 4 = 0 ∧ (b.sys.step i.period).cycle = none) :=
      Option.decidableForallMem i.request
    inferInstanceAs (Decidable (_ ∧ _ ∧ _))
  | ⟨_, .setup _, _, _⟩, _ => inferInstanceAs (Decidable (_ ∧ _ ∧ _ ∧ _))
  | ⟨_, .transfer, _, _⟩, _ => inferInstanceAs (Decidable (_ ∧ _ ∧ _))
  | ⟨_, .stop _, _, _⟩, _ => inferInstanceAs (Decidable (_ ∧ _))

end Service

/-! ## §4 From the request to the session -/

namespace CpuSm

/-- An idle machine that has not sampled `DMAENA` shows nothing. -/
theorem comb_of_halted {i : Inputs} {st : State} (hs : st = .s0 ∨ st = .s20)
    (hd : i.dmaena = false) : comb i st = {} := by
  rcases hs with rfl | rfl
  · rw [comb, hd]
  · simp [comb, hd]

theorem Comb.registered_empty {i : Inputs} (hi : (({} : Comb).registered i).incfifo = false)
    (hd : (({} : Comb).registered i).decfifo = false) : ({} : Comb).registered i = {} := by
  simp only [registered] at hi hd ⊢
  rw [hi, hd]

end CpuSm

namespace ScsiSm

theorem State.idle_of_dma {st : State} (hd : st.dma = true) (h0 : st.toIdle = 0) :
    st = .idleDmaRd ∨ st = .idleDmaWr := by
  revert hd h0
  cases st <;> simp [State.dma, State.toIdle]

theorem comb_of_idle {i : Inputs} {st : State} (hs : st = .idleDmaRd ∨ st = .idleDmaWr)
    (hi : i.cdreq_ = true) : comb i st = {} := by
  rcases hs with rfl | rfl
  · simp [comb, Inputs.startS2f, hi]
  · simp [comb, Inputs.startF2s, hi]

end ScsiSm

namespace Board

/-- Between two requests. -/
structure Resting (m : Address → Byte) (b : Board) : Prop where
  sound : System.Sound b.sys
  halted : System.Halted false b.sys
  dmaena : b.sys.chip.regs.dmaena = false
  mem : b.mem = m

section Resting

variable {m : Address → Byte} {b : Board} {q : Period}

theorem Resting.asO_ (hR : Resting m b) : b.sys.chip.asO_ = true := by
  rw [hR.sound.coupled.asO_]
  rcases hR.halted.state with e | e <;> rw [e] <;> rfl

theorem Resting.not_ends (hR : Resting m b) (hq : System.CpuRules b.sys q) :
    b.sys.chip.endsCycle q = false := by
  rw [Chip.endsCycle_eq (hR.sound.coupled.live hq.bus), hR.asO_]
  rfl

theorem Resting.step (hR : Resting m b) (hq : System.CpuRules b.sys q)
    (hd : (b.step q).sys.chip.regs.dmaena = false) : Resting m (b.step q) :=
  ⟨hR.sound.step hq, hR.halted.step hR.sound.coupled hq hR.dmaena, hd,
    (step_of_not_ends (hR.not_ends hq)).2.trans hR.mem⟩

end Resting

/-- In `dma_setup`: what was written so far, and the accesses to the WD33C93 are over. -/
structure Preparing (m : Address → Byte) (addr : Address) (s : DmaSetup) (b : Board) : Prop where
  resting : Resting m b
  port : ∀ c ∈ b.sys.cycle, c.wd = false
  control : s ≠ .setControl ∨ b.sys.accessing = true → b.sys.chip.regs.ndmadir = false
  free : s ≠ .setControl → b.sys.chip.scsi.state.dma = true
  bytes : ∀ j : Fin 4, j.val < s.loaded b.sys.accessing →
    Ramsey.byte b.acr j = Ramsey.byte addr j
  a1 : s.loaded b.sys.accessing = 4 → b.sys.chip.regs.a1 = (Ramsey.byte addr 3).getLsbD 1

section Preparing

variable {m : Address → Byte} {addr : Address} {s : DmaSetup} {b : Board} {q : Period}

theorem load_sys : (Service.load b s q).sys = b.sys.step q := by
  unfold Service.load
  split
  · split_ifs <;> rfl
  · rfl

theorem load_mem : (Service.load b s q).mem = (b.step q).mem := by
  unfold Service.load
  split
  · split_ifs <;> rfl
  · rfl

variable (hP : Preparing m addr s b) (hq : System.CpuRules b.sys q)
  (ha : b.sys.Accesses q (some s.access))
include hP hq ha

/-- The statements write `CNTR`, then `ACR`, and then strobe `ST_DMA`. -/
theorem Preparing.statement :
    ((b.sys.chip.endAccess q).contrWr = true → s = .setControl) ∧
      ((b.sys.chip.endAccess q).acrWr = true → ∃ i, s = .setAddress i) ∧
      ((b.sys.chip.endAccess q).stDma = true → s = .startDma) := by
  have hof : ∀ {n}, (b.sys.chip.endAccess q).hit n = true → 0#1 ++ s.access.1 ++ 0#2 = n :=
    fun hn => Option.some.inj (ha.of_hit hP.resting.sound.coupled hq.bus hn)
  -- each kind of statement has its own offset
  refine ⟨fun hw => ?_, fun hw => ?_, fun hn => ?_⟩
  · have ho := hof (Bool.and_eq_true_iff.mp hw).1
    cases s with
    | setControl => rfl
    | setAddress i => rw [DmaSetup.access] at ho; exact absurd ho (by decide)
    | startDma => exact absurd ho (by decide)
  · have ho := hof (Bool.and_eq_true_iff.mp hw).1
    cases s with
    | setControl => exact absurd ho (by decide)
    | setAddress i => exact ⟨i, rfl⟩
    | startDma => exact absurd ho (by decide)
  · have ho := hof hn
    cases s with
    | setControl => exact absurd ho (by decide)
    | setAddress i => rw [DmaSetup.access] at ho; exact absurd ho (by decide)
    | startDma => rfl

omit hq in
/-- No access to the WD33C93 is begun. -/
theorem Preparing.port_step : ∀ c ∈ (b.sys.step q).cycle, c.wd = false := by
  intro c hc
  cases hcs : c.cs_ with
  | true => rw [BusCycle.wd, hcs]; rfl
  | false =>
      have hw : s.access = (c.addr, c.rw) := Option.some.inj (ha c hc hcs)
      have haddr : c.addr = s.access.1 := (congrArg Prod.fst hw).symm
      rw [BusCycle.wd, haddr]
      cases s <;> rw [DmaSetup.access] <;> exact Bool.and_false _

omit ha in
/-- `SCSI_SM` has done with an access to the WD33C93 when the first statement has. -/
theorem Preparing.free_step (hs : s ≠ .setControl ∨ b.sys.accessing = true) :
    (b.sys.chip.period q).scsi.state.dma = true := by
  have hC := hP.resting.sound.coupled
  have h := hC.live hq.bus
  have hreq : (b.sys.chip.scsiIn q).ccpureq = false := by
    rw [Chip.scsiIn_eq h]
    change b.sys.chip.scsi.inp.ccpureq = false
    rw [hC.request, Option.any_eq_false]
    exact fun c hc => by rw [hP.port c hc]
  rw [Chip.period_scsi_state h]
  by_cases hne : s = .setControl
  · -- in the access of the first statement `SCSI_SM` is not serving the CPU any more
    have hacc := hs.resolve_left fun h => h hne
    obtain ⟨c, hc, -⟩ := System.exists_of_accessing hacc
    rcases ScsiSm.State.cases b.sys.chip.scsi.state with hd | hsel | hl | hp
    · exact ScsiSm.nextState_dma hreq hd
    · obtain ⟨c', hc', hw, -⟩ := hC.selects hsel
      exact Bool.noConfusion ((hP.port c' hc').symm.trans hw)
    · have hnone := (hC.leaving hl).1
      exact absurd (hc.symm.trans hnone) (Option.some_ne_none c)
    · rw [ScsiSm.nextState_parked ?_ hp]
      · rfl
      · rw [Chip.scsiIn_eq h]
        exact hC.parked hp
  · exact ScsiSm.nextState_dma hreq (hP.free hne)

variable (hctl : (b.sys.chip.endAccess q).contrWr = true →
    q.clk90Fall.data.ll = (s.data addr).ll)
  (hacr : (b.sys.chip.endAccess q).acrWr = true → q.clk90Fall.data.uu = (s.data addr).uu)

omit ha in
include hacr in
/-- RAMSEY takes a byte of the address and keeps those it has. -/
theorem Preparing.byte_load {j : Fin 4}
    (hj : Ramsey.byte b.acr j = Ramsey.byte addr j ∨
      s = .setAddress j ∧ (b.sys.chip.endAccess q).acrWr = true) :
    Ramsey.byte (Service.load b s q).acr j = Ramsey.byte addr j := by
  have hkeep : (b.step q).acr = b.acr := (step_of_not_ends (hP.resting.not_ends hq)).1
  -- only the statements that write the address change the counter
  cases s with
  | setControl => exact (congrArg (Ramsey.byte · j) hkeep).trans (hj.resolve_right (by simp))
  | startDma => exact (congrArg (Ramsey.byte · j) hkeep).trans (hj.resolve_right (by simp))
  | setAddress i =>
      rw [Service.load]
      split_ifs with hw
      · change Ramsey.byte (Ramsey.setByte (b.step q).acr q.clk90Fall.data.uu i) j = _
        rw [Ramsey.byte_setByte, hkeep, hacr hw]
        split_ifs with hji
        · rw [hji]
          rfl
        · refine hj.resolve_right fun h => hji ?_
          exact (DmaSetup.setAddress.inj h.1).symm
      · rw [hkeep]
        exact hj.resolve_right fun h => hw h.2

omit hctl hacr in
/-- An access to the address writes its byte before it ends; nothing else adds to the bytes. -/
theorem Preparing.loaded_step :
    (if b.sys.endsAccess q then s.next else s).loaded (b.sys.step q).accessing ≤
        s.loaded b.sys.accessing ∨
      ∃ i, s = .setAddress i ∧ (b.sys.chip.endAccess q).acrWr = true ∧
        (if b.sys.endsAccess q then s.next else s).loaded (b.sys.step q).accessing = i.val + 1 := by
  cases he : b.sys.endsAccess q with
  | true =>
      obtain ⟨hacc, hacc'⟩ := System.of_endsAccess he
      rw [if_pos rfl, hacc', hacc]
      exact .inl DmaSetup.loaded_next
  | false =>
      rw [if_neg Bool.false_ne_true]
      cases hacc : (b.sys.step q).accessing with
      | false => exact .inl (s.loaded_mono b.sys.accessing)
      | true =>
          obtain ⟨hhit, hrw⟩ := ha.hit hP.resting.sound.coupled hq.bus hacc
          cases s with
          | setControl => exact .inl (Nat.zero_le _)
          | startDma => exact .inl (Nat.le_refl _)
          | setAddress i =>
              rw [DmaSetup.access] at hhit hrw
              exact .inr ⟨i, rfl, Bool.and_eq_true_iff.mpr ⟨hhit, by rw [hrw]; rfl⟩, rfl⟩

omit hacr in
include hctl in
/-- The first statement has set the direction before its access ends. -/
theorem Preparing.control_step
    (hs : (if b.sys.endsAccess q then s.next else s) ≠ .setControl ∨
      (b.sys.step q).accessing = true) :
    (b.sys.chip.period q).regs.ndmadir = false := by
  have hC := hP.resting.sound.coupled
  rw [Chip.period_ndmadir (hC.live hq.bus)]
  split_ifs with hcw
  · rw [hctl hcw, (hP.statement hq ha).1 hcw, DmaSetup.data]
    decide
  · apply hP.control
    cases he : b.sys.endsAccess q with
    | true => exact .inr (System.of_endsAccess he).1
    | false =>
        rw [he, if_neg Bool.false_ne_true] at hs
        refine .inl fun e => hcw ?_
        rw [e] at ha
        obtain ⟨hhit, hrw⟩ := ha.hit hC hq.bus (hs.resolve_left fun h => h e)
        exact Bool.and_eq_true_iff.mpr ⟨hhit, by rw [hrw]; rfl⟩

omit hctl in
include hacr in
/-- The chip has taken `A1` with the last byte of the address. -/
theorem Preparing.a1_step
    (h4 : (if b.sys.endsAccess q then s.next else s).loaded (b.sys.step q).accessing = 4) :
    (b.sys.chip.period q).regs.a1 = (Ramsey.byte addr 3).getLsbD 1 := by
  have hR := hP.resting
  have hpas : (b.sys.chip.cpuOut q).pas = false := (CpuSm.idle_spec hR.halted.state).1
  rw [Chip.period_a1 (hR.sound.coupled.live hq.bus), hpas, if_neg Bool.false_ne_true]
  have hle := s.loaded_le b.sys.accessing
  have hstep := hP.loaded_step hq ha
  split_ifs with haw
  -- every byte passes the bit of `A1`, so it is the last one that counts
  · obtain ⟨i, hi⟩ := (hP.statement hq ha).2.1 haw
    have hi3 : i = 3 := by
      rcases hstep with hold | ⟨j, hj, -, hnew⟩
      · have hi4 : i.val + b.sys.accessing.toNat = 4 := by
          rw [hi] at hold hle h4
          exact Nat.le_antisymm hle (h4.symm.le.trans hold)
        have ht := Bool.toNat_le b.sys.accessing
        have hlt := i.isLt
        exact Fin.ext (by change i.val = 3; omega)
      · have hij : i = j := DmaSetup.setAddress.inj (hi.symm.trans hj)
        exact Fin.ext (by change i.val = 3; rw [hij]; omega)
    rw [hacr haw, hi, hi3]
    rfl
  · rcases hstep with hold | ⟨-, -, haw', -⟩
    · exact hP.a1 (by omega)
    · exact absurd haw' haw

include hctl hacr

/-- `dma_setup` goes on. -/
theorem Preparing.step (hd : (b.sys.step q).chip.regs.dmaena = false) :
    Preparing m addr (if b.sys.endsAccess q then s.next else s) (Service.load b s q) := by
  have hstep := hP.resting.step hq hd
  have hload : (Service.load b s q).sys = b.sys.step q := load_sys
  constructor
  case resting =>
    exact ⟨hload ▸ hstep.sound, hload ▸ hstep.halted, hload ▸ hstep.dmaena,
      load_mem.trans hstep.mem⟩
  case port =>
    rw [hload]
    exact hP.port_step ha
  case control =>
    rw [hload]
    exact hP.control_step hq ha hctl
  case free =>
    rw [hload]
    intro hs
    apply hP.free_step hq
    cases he : b.sys.endsAccess q with
    | true => exact .inr (System.of_endsAccess he).1
    | false =>
        rw [he, if_neg Bool.false_ne_true] at hs
        exact .inl hs
  case bytes =>
    rw [hload]
    intro j hj
    apply hP.byte_load hq hacr
    by_cases hold : j.val < s.loaded b.sys.accessing
    · exact .inl (hP.bytes j hold)
    · -- the byte is new, so it is the one of the access under way
      rcases hP.loaded_step hq ha with hle | ⟨i, hi, haw, hnew⟩
      · exact absurd (Nat.lt_of_lt_of_le hj hle) hold
      · have hi' : i.val ≤ s.loaded b.sys.accessing := by
          rw [hi]
          exact Nat.le_add_right _ _
        have hij : i = j := Fin.ext (by omega)
        exact .inr ⟨hij ▸ hi, haw⟩
  case a1 =>
    rw [hload]
    exact hP.a1_step hq ha hacr

omit hctl hacr

/-- `DMAENA` is raised by the strobe of `ST_DMA` alone, and it writes no register. -/
theorem Preparing.strobe (hd : (b.sys.step q).chip.regs.dmaena = true) :
    s = .startDma ∧ b.sys.cycle = none ∧
      (b.sys.chip.endAccess q).contrWr = false ∧ (b.sys.chip.endAccess q).acrWr = false := by
  have hR := hP.resting
  have hC := hR.sound.coupled
  have hraise : System.Raises b.sys q := ⟨hR.dmaena, hd⟩
  have hhit := hraise.hit (hC.live hq.bus)
  have hn : ∀ n, (0x10 : BitVec 8) ≠ n → (b.sys.chip.endAccess q).hit n = false :=
    fun n hn => Access.hit_unique hhit hn
  exact ⟨(hP.statement hq ha).2.2 hhit,
    hC.cycle_of_hit hq.bus (hR.sound.off hR.dmaena).1 hhit,
    by rw [Access.contrWr, Access.wr, hn _ (by decide), Bool.false_and],
    by rw [Access.acrWr, Access.wr, hn _ (by decide), Bool.false_and]⟩

/-- The engine and the FIFO are empty at the strobe. -/
theorem Preparing.dmaStart (hd : (b.sys.step q).chip.regs.dmaena = true) :
    Chip.DmaStart (b.sys.step q).chip := by
  have hR := hP.resting
  have hI := hR.sound
  have hC := hI.coupled
  have h := hC.live hq.bus
  have hC' := hC.step hq.bus
  have hS := (hI.off hR.dmaena).2
  obtain ⟨hst, hnone, -, -⟩ := hP.strobe hq ha hd
  have hss := (hI.sessionStart_iff hq ⟨hR.dmaena, hd⟩).mpr (hR.halted.step hC hq hR.dmaena)
  have hlater : s ≠ .setControl := by
    rw [hst]
    exact DmaSetup.noConfusion
  -- `SCSI_SM` is idle before and after the strobe
  have hidle := ScsiSm.State.idle_of_dma (hP.free hlater)
    (by have := hS.byte; rw [System.clocks_of_none hnone] at this; omega)
  have hscsi : b.sys.chip.scsiOut q = {} :=
    ScsiSm.comb_of_idle hidle (by rw [Chip.scsiIn_eq h]; exact hS.cdreq_)
  have hcpu : b.sys.chip.cpuComb q = {} := CpuSm.comb_of_halted hR.halted.state
    (by rw [Chip.cpuIn_eq h]; exact hR.halted.sampled)
  have hout : (b.sys.step q).chip.cpu.out = {} := by
    have e : (b.sys.step q).chip.cpu.out = CpuSm.Comb.registered {} (b.sys.chip.cpuIn q) :=
      (Chip.period_cpu_out h).trans (congrArg (CpuSm.Comb.registered · _) hcpu)
    have hinc := hss.incfifo
    have hdec := hss.decfifo
    rw [e] at hinc hdec ⊢
    exact CpuSm.Comb.registered_empty hinc hdec
  have hpds : b.sys.chip.cpuOut q = {} := (Chip.period_cpu_out h).symm.trans hout
  have hstrobing : (b.sys.step q).chip.cpu.state.strobing = false := by
    rcases hss.cpu_state with e | e <;> rw [e] <;> rfl
  exact
    { awake := hC'.awake
      dmaena := hd
      cpu_state := hss.cpu_state
      cpu_out := hout
      scsi_state := ScsiSm.State.idle_of_dma (hP.free_step hq (.inl hlater)) hss.scsi_state
      scsi_out := (Chip.period_scsi_out h).trans hscsi
      rififoO := hss.rififoO
      rdfifoO := hss.rdfifoO
      count := hss.count
      writePtr := hss.writePtr
      readPtr := hss.readPtr
      bytePtr := hss.bytePtr
      asO_ := by rw [hC'.asO_, hstrobing]; rfl
      dsO_ := (Chip.period_dsO_ h).trans (by rw [hpds]; rfl)
      llw := (Chip.period_llw h).trans (by rw [hpds])
      lhw := (Chip.period_lhw h).trans (by rw [hpds]) }

/-- The session starts with its streams empty, and the CPU is not at the WD33C93. -/
theorem Preparing.sessionStart (hd : (b.sys.step q).chip.regs.dmaena = true) :
    System.Start (b.sys.step q).forget := by
  have hR := hP.resting
  have hC := hR.sound.coupled
  have hC' := hC.step hq.bus
  have hdma := hP.dmaStart hq ha hd
  obtain ⟨hst, hnone, -, -⟩ := hP.strobe hq ha hd
  have hss := (hR.sound.sessionStart_iff hq ⟨hR.dmaena, hd⟩).mpr
    (hR.halted.step hC hq hR.dmaena)
  have hport := hP.port_step ha
  have hfree : (b.sys.chip.period q).scsi.state.dma = true :=
    hP.free_step hq (.inl (by rw [hst]; exact DmaSetup.noConfusion))
  have hstrobing : (b.sys.step q).chip.cpu.state.strobing = false := by
    rcases hss.cpu_state with e | e <;> rw [e] <;> rfl
  -- the flush of the session before has left no trace
  have hsampled : (b.sys.step q).chip.cpu.inp.flushfifo = false := by
    change (b.sys.chip.period q).cpu.inp.flushfifo = false
    rw [Chip.period_cpu_inp (hC.live hq.bus)]
    exact hR.halted.flushfifo
  have hreq : (b.sys.step q).chip.scsi.inp.ccpureq = false := by
    rw [hC'.request, Option.any_eq_false]
    exact fun c hc => by rw [hport c hc]
  exact
    { dma := hdma
      quiet := ⟨hss.flushfifo, hsampled⟩
      ccpureq := hreq
      nls2cpu := hC'.nls2cpu_of_dma hfree
      cycle := fun c hc => ⟨hport c hc, by
        have hn : b.sys.nextCycle q = some c := hc
        rw [System.nextCycle, hnone] at hn
        split_ifs at hn
        exact (congrArg BusCycle.seen (Option.some.inj hn)).symm⟩
      busy := fun hs => (hC'.busy hs).2
      dsackTerm_ := fun ht => by
        obtain ⟨c, hc, -⟩ := hC'.dsackTerm_ ht
        exact Option.isSome_iff_exists.mpr ⟨c, hc⟩
      term := hC'.term hstrobing
      taken := rfl
      given := rfl
      written := rfl
      read := rfl }

/-- The strobe of `ST_DMA` finds everything in place for the session. -/
theorem Preparing.start (hd : (b.sys.step q).chip.regs.dmaena = true) :
    System.Start (b.sys.step q).forget ∧ (b.sys.step q).chip.regs.ndmadir = false ∧
      (Service.load b s q).acr = addr ∧ (b.sys.step q).chip.regs.a1 = addr.getLsbD 1 ∧
      (Service.load b s q).mem = m := by
  have hR := hP.resting
  have h := hR.sound.coupled.live hq.bus
  obtain ⟨hst, -, hcw, haw⟩ := hP.strobe hq ha hd
  have hpas : (b.sys.chip.cpuOut q).pas = false := (CpuSm.idle_spec hR.halted.state).1
  refine ⟨hP.sessionStart hq ha hd, ?_, ?_, ?_, ?_⟩
  · change (b.sys.chip.period q).regs.ndmadir = false
    rw [Chip.period_ndmadir h, hcw, if_neg Bool.false_ne_true]
    exact hP.control (.inl (by rw [hst]; exact DmaSetup.noConfusion))
  -- all four bytes were loaded before the strobe
  · apply Ramsey.eq_of_bytes
    intro j
    apply hP.byte_load hq (fun haw' => Bool.noConfusion (haw.symm.trans haw'))
    exact .inl (hP.bytes j (by rw [hst]; exact j.isLt))
  · change (b.sys.chip.period q).regs.a1 = _
    rw [Chip.period_a1 h, haw, if_neg Bool.false_ne_true, hpas, if_neg Bool.false_ne_true,
      Ramsey.getLsbD_one_eq]
    exact hP.a1 (by rw [hst]; rfl)
  · exact load_mem.trans ((step_of_not_ends (hR.not_ends hq)).2.trans hR.mem)

end Preparing

end Board

/-! ## §5 Any number of requests -/

theorem System.Sound.forget {x : System} (hI : Sound x) : Sound x.forget :=
  { coupled := { hI.coupled with }, inRange := hI.inRange, on := hI.on
    off := fun hd => ⟨(hI.off hd).1, { (hI.off hd).2 with }⟩ }

namespace Host

/-- `dma_stop` leaves the engine ready for the next request. -/
theorem Winding.resting {m : Address → Byte} {a : Address} {block : List Byte} {h : Host}
    {q : Period} (hw : Winding m a block h) (hS : Settled h) (hq : h.Executes q)
    (hI : System.Sound h.board.sys) (hr : System.CpuRules h.board.sys q)
    (hs : h.stop ≠ .returned) (hs' : (h.step q).stop = .returned) :
    Board.Resting (Memory.store m a block) (h.step q).board := by
  have hw' := hw.step hq
  have hS' := hS.step hw hq
  have hst := hw'.stored (by rw [hs']; rfl)
  have hoff : h.board.sys.chip.regs.dmaena = false := by
    apply hw.dmaena
    rcases step_stop h q with e | ⟨-, e⟩
    · exact absurd (e.symm.trans hs') hs
    · exact .inr ((DmaStop.next_eq_returned (e.symm.trans hs')))
  refine ⟨hI.step hr, ⟨hst.drained.cpu, System.step_sampled hI.coupled hr hoff, ?_⟩,
    hw'.dmaena (.inr (.inr hs')), hst.mem⟩
  exact hS'.ended (by rw [hs']; rfl) fun e => DmaStop.noConfusion (hs'.symm.trans e)

end Host

namespace Service

/-- The memory holds the blocks that were served, and the request in progress is where the
driver is. -/
def Invariant (m : Address → Byte) (x : Service) : Prop :=
  System.Sound x.board.sys ∧ (x.call ≠ .idle → x.addr.toNat % 4 = 0) ∧
    match x.call with
    | .idle => Board.Resting (Memory.storeAll m x.served) x.board
    | .setup s => Board.Preparing (Memory.storeAll m x.served) x.addr s x.board
    | .transfer => Board.Lanes (Memory.storeAll m x.served) x.addr x.board
    | .stop d => d ≠ .returned ∧
      Host.Winding (Memory.storeAll m x.served) x.addr x.board.sys.taken ⟨x.board, d⟩ ∧
      Host.Settled ⟨x.board, d⟩

section Invariant

variable {m : Address → Byte} {b : Board} {a : Address} {rs : List (Address × List Byte)}
  {i : Input}

theorem idle_step (hI : Invariant m ⟨b, .idle, a, rs⟩) (hi : Legal ⟨b, .idle, a, rs⟩ i) :
    Invariant m (step ⟨b, .idle, a, rs⟩ i) := by
  obtain ⟨hs, -, hR⟩ := hI
  obtain ⟨hq, hn, hreq⟩ := hi
  have hR : Board.Resting (Memory.storeAll m rs) b := hR
  have hd : (b.step i.period).sys.chip.regs.dmaena = false := by
    change (b.sys.chip.period i.period).regs.dmaena = false
    rw [Chip.period_dmaena (hs.coupled.live hq.bus), hn, hR.dmaena]
    simp
  have hR' := hR.step hq hd
  cases hr : i.request with
  | none =>
      simp only [step, hr]
      exact ⟨hR'.sound, fun h => absurd rfl h, hR'⟩
  | some a' =>
      -- a request comes in between two cycles
      obtain ⟨hal, hnone⟩ := hreq a' hr
      simp only [step, hr]
      have hacc : (b.step i.period).sys.accessing = false := by
        change (b.sys.step i.period).cycle.any _ = false
        rw [hnone]
        rfl
      refine ⟨hR'.sound, fun _ => hal, ?_⟩
      exact
        { resting := hR'
          port := fun c hc => by
            have hc : c ∈ (b.sys.step i.period).cycle := hc
            rw [hnone] at hc
            exact absurd hc (Option.not_mem_none c)
          control := fun h => by
            rcases h with h | h
            · exact absurd rfl h
            · exact Bool.noConfusion (hacc.symm.trans h)
          free := fun h => absurd rfl h
          bytes := fun j hj => absurd hj (Nat.not_lt_zero _)
          a1 := fun h => absurd (show 0 = 4 from h) (by decide) }

theorem setup_step {s : DmaSetup} (hI : Invariant m ⟨b, .setup s, a, rs⟩)
    (hi : Legal ⟨b, .setup s, a, rs⟩ i) : Invariant m (step ⟨b, .setup s, a, rs⟩ i) := by
  obtain ⟨hs, hal, hP⟩ := hI
  obtain ⟨hq, hacc, hctl, hacr⟩ := hi
  have hP : Board.Preparing (Memory.storeAll m rs) a s b := hP
  have hsys : (load b s i.period).sys = b.sys.step i.period := Board.load_sys
  have hal : a.toNat % 4 = 0 := hal Call.noConfusion
  simp only [step]
  cases hd : (load b s i.period).sys.chip.regs.dmaena with
  | false =>
      rw [if_neg Bool.false_ne_true]
      have hP' := hP.step hq hacc hctl hacr (hsys ▸ hd)
      exact ⟨hP'.resting.sound, fun _ => hal, hP'⟩
  | true =>
      rw [if_pos rfl]
      -- the strobe: the streams of the new session are empty
      obtain ⟨hx, hdir, haddr, ha1, hmem⟩ := hP.start hq hacc (hsys ▸ hd)
      have hlanes : ∀ c : Board, c.mem = Memory.storeAll m rs → c.acr = a →
          c.sys = (b.sys.step i.period).forget →
          Board.Lanes (Memory.storeAll m rs) a c := by
        intro c hm hc ha
        rw [← hm, ← hc]
        refine Board.Lanes.of_start (ha ▸ hx) (ha ▸ hdir) ?_ (by rw [hc]; omega)
        rw [ha, hc]
        exact ha1.symm
      refine ⟨?_, fun _ => hal, hlanes _ hmem haddr (by rw [hsys])⟩
      rw [hsys]
      exact (hs.step hq).forget

theorem transfer_step (hI : Invariant m ⟨b, .transfer, a, rs⟩)
    (hi : Legal ⟨b, .transfer, a, rs⟩ i) : Invariant m (step ⟨b, .transfer, a, rs⟩ i) := by
  obtain ⟨hs, hal, hL⟩ := hI
  obtain ⟨hq, hstream, hdone⟩ := hi
  have hL : Board.Lanes (Memory.storeAll m rs) a b := hL
  have hL' := hL.step hstream
  have hal : a.toNat % 4 = 0 := hal Call.noConfusion
  simp only [step]
  cases hd : i.done with
  | false =>
      rw [if_neg Bool.false_ne_true]
      exact ⟨hs.step hq, fun _ => hal, hL'⟩
  | true =>
      rw [if_pos rfl]
      -- the block is complete in the chip, and the CPU has nothing under way
      obtain ⟨-, hz, hlen⟩ := hdone hd
      refine ⟨hs.step hq, fun _ => hal, DmaStop.noConfusion, ?_, ?_⟩
      · refine Host.winding_of_lanes hL' hz ?_
        change (a.toNat + (b.sys.step i.period).taken.length) % 4 = 0
        have hlen : (b.sys.step i.period).taken.length % 4 = 0 := hlen
        omega
      · exact ⟨fun h => DmaStop.noConfusion h, fun h => DmaStop.noConfusion h,
          fun h => Bool.noConfusion h⟩

theorem stop_step {d : DmaStop} (hI : Invariant m ⟨b, .stop d, a, rs⟩)
    (hi : Legal ⟨b, .stop d, a, rs⟩ i) : Invariant m (step ⟨b, .stop d, a, rs⟩ i) := by
  obtain ⟨hs, hal, hne, hw, hS⟩ := hI
  obtain ⟨hq, hex⟩ := hi
  have hw : Host.Winding (Memory.storeAll m rs) a b.sys.taken ⟨b, d⟩ := hw
  have hw' := hw.step hex
  simp only [step]
  split_ifs with hr
  · have hR := hw.resting hS hex hs hq hne hr
    refine ⟨hR.sound, fun h => absurd rfl h, ?_⟩
    change Board.Resting (Memory.storeAll m (rs ++ [(a, _)])) _
    rw [Memory.storeAll_append, hw'.taken]
    exact hR
  · refine ⟨hs.step hq, fun _ => hal Call.noConfusion, hr, ?_, hS.step hw hex⟩
    change Host.Winding _ a (Host.step ⟨b, d⟩ i.period).board.sys.taken _
    rw [hw'.taken]
    exact hw'

theorem Invariant.step {x : Service} (hI : Invariant m x) (hi : Legal x i) :
    Invariant m (step x i) := by
  obtain ⟨b, call, a, rs⟩ := x
  cases call with
  | idle => exact idle_step hI hi
  | setup s => exact setup_step hI hi
  | transfer => exact transfer_step hI hi
  | stop d => exact stop_step hI hi

/-- In a request a part of its block is in memory; between requests nothing moves. -/
theorem Invariant.mem {x : Service} (hI : Invariant m x) :
    (∃ n, x.board.mem =
      Memory.store (Memory.storeAll m x.served) x.addr (x.board.sys.taken.take n)) ∧
    (x.call = .idle →
      x.board.mem = Memory.storeAll m x.served ∧ Chip.AtRest x.board.sys.chip) := by
  obtain ⟨b, call, a, rs⟩ := x
  cases call with
  | idle =>
      obtain ⟨hs, -, hR⟩ := hI
      have hR : Board.Resting (Memory.storeAll m rs) b := hR
      refine ⟨⟨0, hR.mem⟩, fun _ => ⟨hR.mem, hs.coupled.awake, hR.dmaena, hR.halted.state, ?_⟩⟩
      rintro (e | e | ⟨e, -⟩)
      · rcases hR.halted.state with e' | e' <;> rw [e'] at e <;> cases e
      · rcases hR.halted.state with e' | e' <;> rw [e'] at e <;> cases e
      · exact Bool.noConfusion (hR.halted.sampled.symm.trans e)
  | setup s => exact ⟨⟨0, hI.2.2.resting.mem⟩, fun h => Call.noConfusion h⟩
  | transfer =>
      have hL : Board.Lanes (Memory.storeAll m rs) a b := hI.2.2
      exact ⟨⟨b.sys.written.length, hL.storing.mem_taken⟩, fun h => Call.noConfusion h⟩
  | stop d =>
      obtain ⟨-, -, -, hw, -⟩ := hI
      refine ⟨?_, fun h => Call.noConfusion h⟩
      cases hp : d.polled with
      | false =>
          exact ⟨b.sys.written.length, (hw.closing hp).1.storing.mem_taken⟩
      | true =>
          refine ⟨b.sys.taken.length, ?_⟩
          rw [List.take_length]
          exact (hw.stored hp).mem

end Invariant

/-- The board out of reset, with the driver waiting for the first request. -/
def initial (sys : System) (acr : Address) (m : Address → Byte) : Service :=
  { board := ⟨sys, acr, m⟩ }

theorem invariant_of_reset {sys : System} (hx : System.EngineReset sys) (acr : Address)
    (m : Address → Byte) : Invariant m (initial sys acr m) :=
  ⟨hx.sound, fun h => absurd rfl h, hx.sound,
    ⟨.inl hx.cpu_state, by rw [initial, hx.cpu_inp], hx.flushfifo⟩, hx.dmaena, rfl⟩

/-- **Requests are served one after the other**: from reset on, the memory holds the blocks of
the requests that are done, each at its address and in their order, and a first part of the
block in progress. Whenever the driver is idle there is nothing else, and the engine is at
rest. -/
theorem requests_served {sys : System} (hx : System.EngineReset sys) (acr : Address)
    (m : Address → Byte) {is : List Input}
    (his : Runs.Along step Legal (initial sys acr m) is) :
    let x := Runs.run step (initial sys acr m) is
    (∃ n, x.board.mem =
      Memory.store (Memory.storeAll m x.served) x.addr (x.board.sys.taken.take n)) ∧
    (x.call = .idle →
      x.board.mem = Memory.storeAll m x.served ∧ Chip.AtRest x.board.sys.chip) :=
  (Runs.invariant_run (fun _ _ hI hi => Invariant.step hI hi)
    (invariant_of_reset hx acr m) his).mem

/-- A request for four bytes: its flag is found clear once, and the chip gets the bus between
two accesses of the loop. -/
def fourByteRequest (a : Address) : List Input :=
  let setup : List DmaSetup :=
    [.setControl, .setAddress 0, .setAddress 1, .setAddress 2, .setAddress 3, .startDma]
  let loop : List DmaStop := [.maskInterrupts, .flush, .poll]
  let rest : List DmaStop := [.poll, .clearInterrupt, .stopDma, .restoreControl]
  let start := setup.flatMap fun s => System.accessPeriods s.access (s.data a) 4
  let stop := loop.flatMap (·.periods 4) ++ List.replicate 3 (.steady { bg_ := false }) ++
    List.replicate 2 (.steady { bg_ := false, dsack0_ := false, dsack1_ := false }) ++
    List.replicate 4 (.steady {}) ++ rest.flatMap (·.periods 4)
  { period := .steady {}, request := some a } ::
    (start ++ Host.fourBytes).map (fun q => { period := q }) ++
    { period := .steady {}, done := true } :: stop.map fun q => { period := q }

theorem requests_served_reset :
    let is := fourByteRequest 0x1000 ++ fourByteRequest 0x2004
    let x := Runs.run step (initial System.reset 0 fun _ => 0) is
    (∃ n, x.board.mem =
      Memory.store (Memory.storeAll (fun _ => 0) x.served) x.addr (x.board.sys.taken.take n)) ∧
    (x.call = .idle →
      x.board.mem = Memory.storeAll (fun _ => 0) x.served ∧ Chip.AtRest x.board.sys.chip) :=
  requests_served System.reset_reset.toEngineReset 0 (fun _ => 0) (by decide +kernel)

/-- The block of a request is read back between two later ones, unless one of those that were
served after it overlaps it. -/
theorem load_of_served {sys : System} (hx : System.EngineReset sys) (acr : Address)
    (m : Address → Byte) {is : List Input}
    (his : Runs.Along step Legal (initial sys acr m) is)
    {before after : List (Address × List Byte)} {a : Address} {bs : List Byte}
    (hserved : (Runs.run step (initial sys acr m) is).served = before ++ (a, bs) :: after)
    (hidle : (Runs.run step (initial sys acr m) is).call = .idle) (hlen : bs.length ≤ 2 ^ 32)
    (hafter : ∀ r ∈ after, ∀ i < r.2.length, ∀ j < bs.length, a + (j : Address) ≠ r.1 + i) :
    Memory.load (Runs.run step (initial sys acr m) is).board.mem a bs.length = bs := by
  have hI : Invariant m (Runs.run step (initial sys acr m) is) :=
    Runs.invariant_run (fun _ _ hI hi => Invariant.step hI hi) (invariant_of_reset hx acr m) his
  rw [(hI.mem.2 hidle).1, hserved]
  exact Memory.load_storeAll (Ramsey.fits a hlen) hafter

end Service

end Resdmac
