import Resdmac.FlushStream
import Resdmac.Library.Memory
import Resdmac.WriteStream

/-!
# The Memory of the Board

The chip drives no address. RAMSEY puts its address counter on the bus while `_DMAEN` is
low and increments it on the rising edge of `_AS`, by what the port has moved
(`Docs/SDMAC.md`, ACR). A port takes its lanes of the data bus from the size of the cycle
and from `A1` of that counter, and nothing tells it what the chip makes of its answer.
This module puts RAMSEY and the memory beside the chip.

## Main definitions

- `Ramsey.increment` — the step of the address counter
- `Longword.moved` — the lanes that a port takes part with
- `Board` — the system with the address counter and the memory

## Main results

- `Board.read_session_memory` — a session to memory leaves the bytes of the WD33C93 at
  consecutive addresses
- `Board.write_session_memory` — a session from memory gives the WD33C93 the bytes of
  consecutive addresses
-/

namespace Resdmac

open Chip (Period)

/-! ## §1 RAMSEY and the ports -/

abbrev Address := BitVec 32

namespace Ramsey

/-- What a cycle adds to the address counter: a 16-bit port moves a word, and so does
every port while `A1` is high. -/
def increment (acr : Address) (t : Term) : ℕ := if acr.getLsbD 1 || t.isNarrow then 2 else 4

theorem increment_cases (acr : Address) (t : Term) : increment acr t = 2 ∨ increment acr t = 4 := by
  unfold increment
  split_ifs
  · exact .inl rfl
  · exact .inr rfl

theorem getLsbD_one (a : Address) : a.getLsbD 1 = decide (a.toNat / 2 % 2 = 1) :=
  Nat.testBit_eq_decide_div_mod_eq

/-- A longword keeps `A1`, a word changes it. -/
theorem getLsbD_one_add (a : Address) {n : ℕ} (h : n = 2 ∨ n = 4) :
    (a + (n : Address)).getLsbD 1 = (a.getLsbD 1 ^^ n == 2) := by
  rcases h with rfl | rfl
  · rw [getLsbD_one, getLsbD_one, BitVec.toNat_add]
    change decide ((a.toNat + 2) % 2 ^ 32 / 2 % 2 = 1) = (decide (a.toNat / 2 % 2 = 1) ^^ true)
    rw [Bool.xor_true, ← decide_not]
    exact decide_eq_decide.mpr (by omega)
  · rw [getLsbD_one, getLsbD_one, BitVec.toNat_add]
    change decide ((a.toNat + 4) % 2 ^ 32 / 2 % 2 = 1) = (decide (a.toNat / 2 % 2 = 1) ^^ false)
    rw [Bool.xor_false]
    exact decide_eq_decide.mpr (by omega)

/-- A block no longer than the address space does not overlap itself. -/
theorem fits (a : Address) {n : ℕ} (h : n ≤ 2 ^ 32) : Memory.Fits a n := by
  intro i hi j hj he
  have hcast : (i : Address) = j := add_left_cancel he
  have hmod : i % 2 ^ 32 = j % 2 ^ 32 := congrArg BitVec.toNat hcast
  rwa [Nat.mod_eq_of_lt (hi.trans_le h), Nat.mod_eq_of_lt (hj.trans_le h)] at hmod

end Ramsey

/-- The bytes on the lanes with which a port takes part in a cycle: a 16-bit port has
`D31-16`, a 32-bit port has `D15-0` for an odd word and `D31-16` for an even one. -/
def Longword.moved (d : Longword) (size1 a1 : Bool) (t : Term) : List Byte :=
  if t.isNarrow then d.upper.bytes
  else if a1 then d.lower.bytes
  else if size1 then d.upper.bytes
  else d.bytes

/-- The system with the memory that its bus leads to. -/
structure Board where
  sys : System
  /-- The address counter of RAMSEY. -/
  acr : Address
  mem : Address → Byte

namespace Board

/-- What the bus shows when a memory cycle ends, on the lanes of the port. -/
def moved (b : Board) (q : Period) (d : Longword) : List Byte :=
  d.moved (b.sys.chip.atSclkFall q).cpu.out.size1 (b.acr.getLsbD 1) q.sclkFall.term

/-- The board after a period: a cycle that ends steps the address counter, and a write
cycle stores what `DATA_O` shows. -/
def step (b : Board) (q : Period) : Board :=
  let c := b.sys.chip.atSclkFall q
  { sys := b.sys.step q
    acr :=
      if b.sys.chip.endsCycle q then b.acr + (Ramsey.increment b.acr q.sclkFall.term : Address)
      else b.acr
    mem :=
      if b.sys.chip.endsCycle q && !c.rw q.sclkFall then
        Memory.store b.mem b.acr (b.moved q (c.dataO q.sclkFall))
      else b.mem }

section Step

variable {b : Board} {q : Period}

theorem step_acr_of_ends (he : b.sys.chip.endsCycle q = true) :
    (b.step q).acr = b.acr + (Ramsey.increment b.acr q.sclkFall.term : Address) := if_pos he

theorem step_mem_of_ends (he : b.sys.chip.endsCycle q = true)
    (hw : (b.sys.chip.atSclkFall q).rw q.sclkFall = false) :
    (b.step q).mem =
      Memory.store b.mem b.acr (b.moved q ((b.sys.chip.atSclkFall q).dataO q.sclkFall)) :=
  if_pos (by rw [he, hw]; rfl)

theorem step_of_not_ends (he : b.sys.chip.endsCycle q = false) :
    (b.step q).acr = b.acr ∧ (b.step q).mem = b.mem :=
  ⟨if_neg (by rw [he]; exact Bool.false_ne_true), if_neg (by rw [he]; exact Bool.false_ne_true)⟩

end Step

end Board

/-! ## §2 Write cycles -/

namespace Chip

/-- With the lower half bridged both words of `DATA_O` are the lower word of the entry. -/
theorem atSclkFall_dataO_lower {s : Chip} {q : Period} (h : Live s q)
    (hp : s.cpu.out.pas = true) (hs : (s.scsiOut q).s2cpu = false)
    (hl : (s.cpuOut q).f2cpul = true) :
    ((s.atSclkFall q).dataO q.sclkFall).lower = s.fifo.od.lower := by
  obtain ⟨-, e2⟩ := atSclkFall_latches h hp
  rw [dataO, Datapath.dataO, atSclkFall_scsi_out h, atSclkFall_cpu_out h, hs, hl, e2]
  rfl

end Chip

namespace System

variable {x : System} {q : Period}

/-- A cycle that ends was strobed, and it is not strobed on. -/
theorem Coupled.of_endsCycle (hC : Coupled x) (hq : BusRules x q)
    (he : x.chip.endsCycle q = true) :
    x.chip.cpu.state.strobing = true ∧ (x.chip.cpuOut q).pas = false := by
  rw [Chip.endsCycle_eq (hC.live hq), hC.asO_, Bool.not_not, Bool.and_eq_true,
    Bool.not_eq_true'] at he
  exact he

/-- What a write cycle that ends has on the lanes of its port is what the chip counts as
written, and it has as many bytes as RAMSEY adds to its counter. -/
theorem moved_of_ends (hC : Coupled x) (hq : BusRules x q) (hs : Chip.InSession x.chip q)
    (hI : Chip.Reading x.chip) (ha : Chip.Aligned x.chip) (ht : x.chip.cpu.state.tail = false)
    {acr : Address} (hacr : acr.getLsbD 1 = (x.chip.skip == 2))
    (he : x.chip.endsCycle q = true) :
    (x.chip.atSclkFall q).rw q.sclkFall = false ∧
      ((x.chip.atSclkFall q).dataO q.sclkFall).moved (x.chip.atSclkFall q).cpu.out.size1
        (acr.getLsbD 1) q.sclkFall.term = x.chip.written q ∧
      (x.chip.written q).length = Ramsey.increment acr q.sclkFall.term ∧
      ((x.chip.period q).skip == 2) =
        (acr.getLsbD 1 ^^ Ramsey.increment acr q.sclkFall.term == 2) := by
  have h := hC.live hq
  obtain ⟨hst, hpas⟩ := hC.of_endsCycle hq he
  have hp : x.chip.cpu.out.pas = true := hC.pas.trans hst
  have hcl := (ScsiSm.comb_of_dma (i := x.chip.scsiIn q)
    (hC.onBus (CpuSm.State.onBus_of_strobing hst))).1
  have hdr := CpuSm.State.draining_of_strobing hst hI.cpu
  have ha1 := ha (CpuSm.State.aligned_of_strobing hst hdr)
  have hO : x.chip.asO_ = false := by rw [hC.asO_, hst]; rfl
  obtain ⟨-, -, -, hheld⟩ := hq.answers hO
  have hskip : x.chip.skip = if x.chip.cpu.state.low then 2 else 0 := by
    rw [Chip.skip, ha1, Bool.false_or]
  have hskip' : (x.chip.period q).skip =
      if (CpuSm.nextState (x.chip.cpuIn q) x.chip.cpu.state).low then 2 else 0 := by
    rw [Chip.skip, Chip.session_a1 h hs, Chip.period_cpu_state h, ha1]
    rfl
  have hbus : ∀ st, CpuSm.nextState (x.chip.cpuIn q) x.chip.cpu.state = st → st.onBus = true →
      (x.chip.atSclkFall q).rw q.sclkFall = false := fun st e hon => by
    rw [Chip.atSclkFall_rw h (Chip.cpuOut_bgack.trans (e ▸ hon)), hI.ndmadir]
  have hwr : ∀ {st}, CpuSm.nextState (x.chip.cpuIn q) x.chip.cpu.state = st → st.onBus = true →
      x.chip.written q =
        if (x.chip.atSclkFall q).cpu.out.size1 || q.sclkFall.term.isNarrow then
          ((x.chip.atSclkFall q).dataO q.sclkFall).upper.bytes
        else ((x.chip.atSclkFall q).dataO q.sclkFall).bytes := fun e hon => by
    rw [Chip.written, he, hbus _ e hon]
    rfl
  have hsize : (x.chip.atSclkFall q).cpu.out.size1 = (x.chip.cpuComb q).size1 := by
    rw [Chip.atSclkFall_cpu_out h]
    rfl
  rcases CpuSm.drain_spec (hC.answered hq hst) hst hdr with
    ⟨hpas', -⟩ | ⟨-, hterm, hfl, ⟨hw, -, hsz, hn, -, hnx⟩ | ⟨hw, -, hsz, hn, -, hnx⟩ |
      ⟨hw, hfh, hbr, hsz, -, hnx⟩ | ⟨hw, -⟩⟩
  · exact Bool.noConfusion (hpas.symm.trans hpas')
  · -- a longword to a 32-bit port
    have hn' : q.sclkFall.term.isNarrow = false := by rw [hheld.resolve_left hterm, hn]
    have e0 : acr.getLsbD 1 = false := by
      rw [hacr, hskip, CpuSm.State.low_of_whole hw]
      rfl
    have hsz' : (x.chip.atSclkFall q).cpu.out.size1 = false := hsize.trans hsz
    rw [hskip', hwr hnx rfl, hnx, Longword.moved, Ramsey.increment, hn', e0, hsz']
    exact ⟨hbus _ hnx rfl, rfl, rfl, rfl⟩
  · -- its upper word to a 16-bit port
    have hn' : q.sclkFall.term.isNarrow = true := by rw [hheld.resolve_left hterm, hn]
    have e0 : acr.getLsbD 1 = false := by
      rw [hacr, hskip, CpuSm.State.low_of_whole hw]
      rfl
    rw [hskip', hwr hnx rfl, hnx, Longword.moved, Ramsey.increment, hn', e0, Bool.or_true]
    exact ⟨hbus _ hnx rfl, rfl, rfl, rfl⟩
  · -- its lower word, which is on both halves of the bus
    have e1 : acr.getLsbD 1 = true := by
      rw [hacr, hskip, hw]
      rfl
    have hsz' : (x.chip.atSclkFall q).cpu.out.size1 = true := hsize.trans hsz
    have hup := Chip.atSclkFall_dataO_bridged h hp hcl hfh hbr
    have hlo := Chip.atSclkFall_dataO_lower h hp hcl hfl
    rw [hskip', hwr hnx rfl, hnx, Longword.moved, Ramsey.increment, e1, hsz', hup, hlo,
      Bool.true_or]
    refine ⟨hbus _ hnx rfl, ?_, rfl, rfl⟩
    cases q.sclkFall.term.isNarrow <;> rfl
  · exact Bool.noConfusion (ht.symm.trans hw)

end System

namespace Chip

/-- A full FIFO has no byte behind its longwords. -/
def Capped (s : Chip) : Prop :=
  s.received = 8 → s.fifo.bytePtr = 0 ∧ s.scsi.state.taking = false

theorem Reading.capped_step {s : Chip} {q : Period} (hI : Reading s) (hq : InSession s q)
    (hu : ¬ Underflow s q) (hc : Capped s) : Capped (s.period q) := by
  intro h8
  have h : Live s q := ⟨hI.awake, hq.noReset⟩
  have hrec := hI.period_received hq hu
  have hcap := hI.cap
  have hI' := hI.step hq hu
  constructor
  · rw [hI.period_bytePtr_eq q hq.noReset]
    cases hr : (s.scsi.state == .s2f3 && s.fifo.boeq3) with
    | true =>
        -- the pointer wraps with the fourth byte
        obtain ⟨h3, hb⟩ := Bool.and_eq_true_iff.mp hr
        have e : s.fifo.bytePtr = 3 := eq_of_beq hb
        rw [h3, if_pos rfl, e]
        rfl
    | false =>
        rw [hr, Bool.toNat_false] at hrec
        obtain ⟨h0, ht⟩ := hc (by omega)
        rw [ScsiSm.State.beq_s2f3 ht, if_neg Bool.false_ne_true, h0]
  · refine Bool.eq_false_iff.mpr fun ht => ?_
    have hlow := hI'.room ht
    have hreq : (s.period q).scsi.rififoO = false := Bool.eq_false_iff.mpr fun hr =>
      Bool.noConfusion ((hI'.request hr).symm.trans ht)
    rw [received, hreq, Bool.toNat_false] at h8
    omega

/-- The FIFO holds 32 bytes at most. -/
theorem Reading.contents_le {s : Chip} (hI : Reading s) (hc : Capped s) :
    s.contents.length ≤ 32 := by
  have hp := s.fifo.bytePtr.isLt
  have ht := Bool.toNat_le (s.scsi.state == .s2f3)
  have hcap := hI.cap
  rw [contents_length]
  by_cases h8 : s.received = 8
  · obtain ⟨h0, hs⟩ := hc h8
    rw [h8, h0, ScsiSm.State.beq_s2f3 hs]
    rfl
  · omega

end Chip

/-! ## §3 The session to memory -/

namespace Board

/-- A session that stores what it writes from an address on. -/
structure Storing (m : Address → Byte) (a : Address) (b : Board) : Prop where
  draining : System.Draining b.sys
  capped : Chip.Capped b.sys.chip
  acr : b.acr = a + (b.sys.written.length : Address)
  odd : b.acr.getLsbD 1 = (b.sys.chip.skip == 2)
  mem : b.mem = Memory.store m a b.sys.written

theorem Storing.step {m : Address → Byte} {a : Address} {b : Board} {q : Period}
    (hS : Storing m a b) (hq : System.BusRules b.sys q) (hs : Chip.InSession b.sys.chip q)
    (hn : ¬ Chip.SpuriousTail b.sys.chip) (ht : b.sys.chip.cpu.state.tail = false) :
    Storing m a (b.step q) := by
  have hD := hS.draining
  have hC := hD.coupled
  have hI := hD.reading
  have hw : (b.step q).sys.written = b.sys.written ++ b.sys.chip.written q := rfl
  have hcap := hI.capped_step hs (hI.not_underflow hs hD.fed) hS.capped
  cases he : b.sys.chip.endsCycle q with
  | true =>
      obtain ⟨hrw, hm, hlen, hodd⟩ :=
        System.moved_of_ends hC hq hs hI hD.aligned ht hS.odd he
      -- RAMSEY counts the bytes that the port takes
      have hacr := step_acr_of_ends he
      refine ⟨hD.step hq hs hn ht, hcap, ?_, ?_, ?_⟩
      · rw [hacr, hS.acr, hw, List.length_append, hlen, hS.acr, Nat.cast_add, add_assoc]
      · rw [hacr, Ramsey.getLsbD_one_add b.acr (Ramsey.increment_cases ..)]
        exact hodd.symm
      · rw [step_mem_of_ends he hrw, moved, hm, hw, Memory.store_append, ← hS.acr, hS.mem]
  | false =>
      -- no cycle ends, so nothing is written and the counter stands
      have hnone : b.sys.chip.written q = [] := by
        rw [Chip.written, he, Bool.false_and, if_neg Bool.false_ne_true]
      have hskip : (b.sys.chip.period q).skip = b.sys.chip.skip := by
        rcases System.delivers hC hq hs hI hD.aligned with
          ⟨-, -, hk⟩ | ⟨-, hw', -, -⟩ | ⟨-, hw', -, -⟩ | ⟨-, hw', -, -⟩ | ⟨ht', -⟩
        · exact hk
        · exact absurd (congrArg List.length (hnone.symm.trans hw')) (by simp)
        · exact absurd (congrArg List.length (hnone.symm.trans hw')) (by simp)
        · exact absurd (congrArg List.length (hnone.symm.trans hw')) (by simp)
        · exact Bool.noConfusion (ht.symm.trans ht')
      obtain ⟨hacr, hmem⟩ := step_of_not_ends he
      refine ⟨hD.step hq hs hn ht, hcap, ?_, ?_, ?_⟩
      · rw [hacr, hw, hnone, List.append_nil, hS.acr]
      · rw [hacr, hS.odd, ← hskip]
        rfl
      · rw [hmem, hw, hnone, List.append_nil, hS.mem]

/-- What is in memory of the block is a first part of the bytes that were taken. -/
theorem Storing.mem_taken {m : Address → Byte} {a : Address} {b : Board} (hS : Storing m a b) :
    b.mem = Memory.store m a (b.sys.taken.take b.sys.written.length) := by
  rw [hS.draining.stream.bytes, List.take_left]
  exact hS.mem

theorem Storing.of_start {b : Board} (hx : System.Start b.sys)
    (hd : b.sys.chip.regs.ndmadir = false) (ha : b.acr.getLsbD 1 = b.sys.chip.regs.a1) :
    Storing b.mem b.acr b := by
  have hlow : b.sys.chip.cpu.state.low = false := by
    rcases hx.dma.cpu_state with e | e <;> rw [e] <;> rfl
  refine ⟨hx.draining hd, fun h8 => ?_, ?_, ?_, ?_⟩
  · rw [Chip.received, hx.dma.level, hx.dma.rififoO] at h8
    exact absurd h8 (by decide)
  · rw [hx.written, List.length_nil, Nat.cast_zero]
    exact (BitVec.add_zero _).symm
  · rw [ha, Chip.skip, hlow, Bool.or_false]
    cases b.sys.chip.regs.a1 <;> rfl
  · rw [hx.written, Memory.store_nil]

/-- In a session to memory the bytes taken from the WD33C93 are stored in order at
consecutive addresses, and the last 32 of them at most are still on their way. -/
theorem read_session_memory {b : Board} (hx : System.Start b.sys)
    (hd : b.sys.chip.regs.ndmadir = false) (ha : b.acr.getLsbD 1 = b.sys.chip.regs.a1)
    {qs : List Period} (hqs : Runs.Along step (fun b q => System.Streaming b.sys q) b qs) :
    ∃ n, n ≤ (Runs.run step b qs).sys.taken.length ∧
      (Runs.run step b qs).sys.taken.length ≤ n + 32 ∧
      (Runs.run step b qs).acr = b.acr + (n : Address) ∧
      (Runs.run step b qs).mem =
        Memory.store b.mem b.acr ((Runs.run step b qs).sys.taken.take n) := by
  have ht : b.sys.chip.cpu.state.tail = false := by
    rcases hx.dma.cpu_state with e | e <;> rw [e] <;> rfl
  have hrun := Runs.invariant_run
    (I := fun c => Storing b.mem b.acr c ∧ Chip.Quiet c.sys.chip ∧
      c.sys.chip.cpu.state.tail = false)
    (fun c q hI hq => by
      obtain ⟨hS, hz, ht⟩ := hI
      obtain ⟨hb, hs, hf⟩ := hq
      have h := hS.draining.coupled.live hb
      exact ⟨hS.step hb hs hz.not_spuriousTail ht, hz.step h hf, System.tail_step h hz ht⟩)
    ⟨.of_start hx hd ha, hx.quiet, ht⟩ hqs
  obtain ⟨hS, -, -⟩ := hrun
  have hbytes := hS.draining.stream.bytes
  -- the rest is still in the FIFO
  have hlen : (Runs.run step b qs).sys.chip.undelivered.length ≤ 32 := by
    rw [Chip.undelivered, List.length_drop]
    exact (Nat.sub_le _ _).trans (hS.draining.reading.contents_le hS.capped)
  refine ⟨(Runs.run step b qs).sys.written.length, ?_, ?_, hS.acr, hS.mem_taken⟩
  · rw [hbytes, List.length_append]
    exact Nat.le_add_right _ _
  · rw [hbytes, List.length_append]
    omega

/-- The FIFO fills from an odd word on, and its longwords go to ports of all kinds. -/
theorem read_session_memory_fresh :
    let b : Board := ⟨System.fresh false true, 0x1002, fun _ => 0⟩
    let c := Runs.run step b System.threePorts
    ∃ n, n ≤ c.sys.taken.length ∧ c.sys.taken.length ≤ n + 32 ∧
      c.acr = b.acr + (n : Address) ∧ c.mem = Memory.store b.mem b.acr (c.sys.taken.take n) :=
  read_session_memory (System.fresh_start false true) rfl (by decide +kernel) (by decide +kernel)

end Board

/-! ## §4 Read cycles -/

namespace Chip

/-- The next word that memory supplies is an odd one: the first of a session with `A1`
set, or the second from a 16-bit port. -/
def lowDue (s : Chip) : Bool := s.oddStart && !s.cpu.state.bridging || s.cpu.state.second

theorem lowDue_of_odd {s : Chip} (h : s.cpu.state.odd = true) (hb : s.cpu.state.bridging = false) :
    s.lowDue = true := by
  rw [lowDue, oddStart, h, hb, Bool.or_true]
  rfl

/-- The FIFO and the bridge latch hold 32 bytes at most. -/
theorem Writing.waiting_le {s : Chip} (hI : Writing s) : s.waiting.length ≤ 32 := by
  have hcap := hI.cap
  have howed := hI.owed
  have hroom := hI.room
  have hstored : s.stored ≤ s.fifo.level := by
    rw [stored, unsent]
    omega
  have hhalf : s.half.length = if s.cpu.state.second || s.cpu.state.bridging then 2 else 0 := by
    rw [half]
    cases s.cpu.state.second <;> cases s.cpu.state.bridging <;> rfl
  -- a half longword in the bridge latch has its place in the FIFO
  have hlt : (s.cpu.state.second || s.cpu.state.bridging) = true → s.fifo.level < 8 := fun h => by
    refine hroom (.inl ?_)
    revert h
    cases s.cpu.state <;> intro h <;> first | rfl | exact Bool.noConfusion h
  rw [waiting, List.length_append, List.length_drop, Longword.flatMap_bytes_length,
    Ring.window_length, hhalf]
  split_ifs with h
  · have := hlt h
    omega
  · omega

end Chip

namespace System

variable {x : System} {q : Period} (hL : Loading x) (hq : BusRules x q)
  (hs : Chip.InSession x.chip q)
include hL hq hs

/-- Without a read cycle that ends the same word stays due. -/
theorem Loading.lowDue_of_not_ends (he : x.chip.endsCycle q = false) :
    (x.chip.period q).lowDue = x.chip.lowDue ∧
      ((x.chip.period q).cpu.state.second = true → x.chip.cpu.state.second = true) := by
  have hC := hL.coupled
  have hF := hL.filling
  have h := hC.live hq
  have hodd := fun hi => hF.writing.period_oddStart_eq hs hF.begun hi
  have hn := Chip.period_cpu_state h
  have key : (x.chip.cpuComb q).intIncfifo = false →
      (CpuSm.nextState (x.chip.cpuIn q) x.chip.cpu.state).second = x.chip.cpu.state.second →
      (CpuSm.nextState (x.chip.cpuIn q) x.chip.cpu.state).bridging =
        x.chip.cpu.state.bridging →
      (x.chip.period q).lowDue = x.chip.lowDue ∧
        ((x.chip.period q).cpu.state.second = true → x.chip.cpu.state.second = true) := by
    intro hi h2 hb
    rw [Chip.lowDue, hodd hi, hn, h2, hb, Chip.lowDue]
    exact ⟨rfl, id⟩
  cases hst : x.chip.cpu.state.strobing with
  | true =>
      rw [Chip.endsCycle_eq h, hC.asO_, hst] at he
      have hp : (x.chip.cpuOut q).pas = true := by
        cases hp : (x.chip.cpuOut q).pas with
        | true => rfl
        | false =>
            rw [hp] at he
            exact Bool.noConfusion he
      rcases CpuSm.fill_spec (hC.answered hq hst) hst hF.writing.cpu with
        ⟨-, hi, hsec, -, hnb, -⟩ | ⟨hp', -⟩
      · exact key hi hsec (hnb.trans (CpuSm.State.not_bridging_of_strobing hst).symm)
      · exact Bool.noConfusion (hp.symm.trans hp')
  | false =>
      have hdir : (x.chip.cpuIn q).dmadir = false := by
        rw [Chip.cpuIn_eq h, Registers.dmadir, hF.writing.ndmadir]
        rfl
      obtain ⟨hi, hsec, hbri, hns, hnb⟩ := CpuSm.fill_idle_spec hst hF.writing.cpu hdir
      cases hb : x.chip.cpu.state.bridging with
      | true =>
          obtain ⟨-, ⟨he1, he2⟩ | ⟨he1, he2⟩⟩ := hbri hb
          · refine key (hi.trans (by rw [he2]; rfl)) (by rw [he1, he2]; rfl) (by rw [he1, he2]; rfl)
          · -- `s34` completes the entry with the first word of the session
            have hinc := hF.writing.period_oddStart_of_inc hs hF.begun (hi.trans (by rw [he2]; rfl))
            have hdue : x.chip.lowDue = false := by
              rw [Chip.lowDue, he2]
              exact congrArg (· || false) (Bool.and_false _)
            rw [hdue, Chip.lowDue, hinc, hn, he1]
            exact ⟨rfl, fun h2 => Bool.noConfusion h2⟩
      | false =>
          have hi0 : (x.chip.cpuComb q).intIncfifo = false := by
            refine hi.trans ?_
            revert hb
            cases x.chip.cpu.state <;> intro hb <;> first | rfl | exact Bool.noConfusion hb
          have h2 : (CpuSm.nextState (x.chip.cpuIn q) x.chip.cpu.state).second =
              x.chip.cpu.state.second := by
            cases h2 : x.chip.cpu.state.second with
            | true => rw [hsec h2]; rfl
            | false => exact hns h2
          exact key hi0 h2 ((hnb hb).trans hb.symm)

/-- What a port has on its lanes when a read cycle ends is what the chip reads, and it has
as many bytes as RAMSEY adds to its counter. -/
theorem Loading.moved_of_ends {acr : Address} (hacr : acr.getLsbD 1 = x.chip.lowDue)
    (hport : x.chip.cpu.state.second = true → q.sclkFall.term.isNarrow = true)
    (he : x.chip.endsCycle q = true) :
    (x.chip.atSclkFall q).rw q.sclkFall = true ∧
      q.sclkFall.data.moved (x.chip.atSclkFall q).cpu.out.size1 (acr.getLsbD 1)
        q.sclkFall.term = x.chip.read q ∧
      (x.chip.read q).length = Ramsey.increment acr q.sclkFall.term ∧
      (x.chip.period q).lowDue =
        (acr.getLsbD 1 ^^ Ramsey.increment acr q.sclkFall.term == 2) ∧
      ((x.chip.period q).cpu.state.second = true →
        acr.getLsbD 1 = false ∧ q.sclkFall.term.isNarrow = true) := by
  have hC := hL.coupled
  have hF := hL.filling
  have h := hC.live hq
  obtain ⟨hst, hpas⟩ := hC.of_endsCycle hq he
  have hn := Chip.period_cpu_state h
  have hinc := fun hi => hF.writing.period_oddStart_of_inc hs hF.begun hi
  have hon : ∀ {st}, CpuSm.nextState (x.chip.cpuIn q) x.chip.cpu.state = st → st.onBus = true →
      (CpuSm.nextState (x.chip.cpuIn q) x.chip.cpu.state).onBus = true := fun e he => e ▸ he
  have hsize : (x.chip.atSclkFall q).cpu.out.size1 = (x.chip.cpuComb q).size1 := by
    rw [Chip.atSclkFall_cpu_out h]
    rfl
  rcases CpuSm.fill_spec (hC.answered hq hst) hst hF.writing.cpu with
    ⟨hp, -⟩ | ⟨-, hk, ⟨hw, hnar, hbr, hsz, hi, hnx⟩ | ⟨he', hnar, hi, hnx⟩ |
      ⟨he', hds, hbr, hi, hnx⟩ | ⟨he', hnar, hbr, hsz, hi, hnx⟩ | ⟨he', hnar, hds, -, hi, hnx⟩⟩
  · exact Bool.noConfusion (hpas.symm.trans hp)
  · -- an aligned longword
    obtain ⟨-, hs2, -, hodd, hbeg⟩ := CpuSm.State.excl_of_wide hw
    have e0 : acr.getLsbD 1 = false := by
      rw [hacr, Chip.lowDue, Chip.oddStart, hF.begun hbeg, hodd, hs2]
      rfl
    rw [hL.term_of_ends hq hst hk] at hnar
    obtain ⟨hrw, hread⟩ := hL.read_at_end hq he (hon hnx rfl)
    rw [hread, hsize, Longword.moved, Ramsey.increment, Chip.lowDue, hinc hi, hn, hnx,
      hnar, e0, show (x.chip.cpuComb q).bridgein = false from hbr,
      show (x.chip.cpuComb q).size1 = false from hsz]
    exact ⟨hrw, rfl, rfl, rfl, fun h2 => Bool.noConfusion h2⟩
  · -- its upper word from a 16-bit port
    have e0 : acr.getLsbD 1 = false := by
      rw [hacr, Chip.lowDue, Chip.oddStart, hF.begun (by rw [he']; rfl), he']
      rfl
    have ho : x.chip.oddStart = false := by
      rw [Chip.oddStart, hF.begun (by rw [he']; rfl), he']
      rfl
    rw [hL.term_of_ends hq hst hk] at hnar
    obtain ⟨hrw, hread⟩ := hL.read_at_end hq he (hon hnx rfl)
    rw [hread, hsize, Longword.moved, Ramsey.increment, Chip.lowDue,
      hF.writing.period_oddStart_eq hs hF.begun hi, ho, hn, hnx, hnar, e0, Bool.or_true]
    exact ⟨hrw, rfl, rfl, rfl, fun _ => ⟨rfl, rfl⟩⟩
  · -- its lower word from the same port
    have hnar := hport (by rw [he']; rfl)
    have e1 : acr.getLsbD 1 = true := by
      rw [hacr, Chip.lowDue, he']
      exact Bool.or_true _
    obtain ⟨hrw, hread⟩ := hL.read_at_end hq he (hon hnx rfl)
    rw [hread, hsize, Longword.moved, Ramsey.increment, Chip.lowDue, hinc hi, hn, hnx,
      hnar, e1, Bool.or_true]
    exact ⟨hrw, rfl, rfl, rfl, fun h2 => Bool.noConfusion h2⟩
  · -- the odd word from a 32-bit port
    have e1 : acr.getLsbD 1 = true := by
      rcases he' with e | e <;>
        exact hacr.trans (Chip.lowDue_of_odd (by rw [e]; rfl) (by rw [e]; rfl))
    rw [hL.term_of_ends hq hst hk] at hnar
    obtain ⟨hrw, hread⟩ := hL.read_at_end hq he (hon hnx rfl)
    rw [hread, hsize, Longword.moved, Ramsey.increment, Chip.lowDue, hinc hi, hn, hnx,
      hnar, e1, show (x.chip.cpuComb q).bridgein = false from hbr,
      show (x.chip.cpuComb q).size1 = true from hsz]
    exact ⟨hrw, rfl, rfl, rfl, fun h2 => Bool.noConfusion h2⟩
  · -- the odd word from a 16-bit port
    have e1 : acr.getLsbD 1 = true :=
      hacr.trans (Chip.lowDue_of_odd (by rw [he']; rfl) (by rw [he']; rfl))
    rw [hL.term_of_ends hq hst hk] at hnar
    obtain ⟨hrw, hread⟩ := hL.read_at_end hq he (hon hnx rfl)
    rw [hread, hsize, Longword.moved, Ramsey.increment, Chip.lowDue, hn, hnx, hnar, e1,
      Bool.or_true]
    exact ⟨hrw, rfl, rfl, congrArg (· || false) (Bool.and_false _), fun h2 => Bool.noConfusion h2⟩

end System

/-! ## §5 The session from memory -/

namespace Board

/-- The longword at an address. -/
def longword (a : Address) : BitVec 30 := a.extractLsb' 2 30

theorem longword_add_two {a : Address} (h : a.getLsbD 1 = false) :
    longword (a + 2) = longword a := by
  rw [Ramsey.getLsbD_one, decide_eq_false_iff_not] at h
  refine BitVec.eq_of_toNat_eq ?_
  rw [longword, longword, BitVec.extractLsb'_toNat, BitVec.extractLsb'_toNat, BitVec.toNat_add,
    Nat.shiftRight_eq_div_pow, Nat.shiftRight_eq_div_pow]
  change (a.toNat + 2) % 2 ^ 32 / 2 ^ 2 % 2 ^ 30 = a.toNat / 2 ^ 2 % 2 ^ 30
  have := a.isLt
  omega

/-- A period in which the ports keep to the rules of a read cycle: a longword lies in one
port, and a port puts the bytes at the address on its lanes. -/
structure Served (ports : BitVec 30 → Bool) (b : Board) (q : Period) : Prop where
  narrow : b.sys.chip.endsCycle q = true → q.sclkFall.term.isNarrow = ports (longword b.acr)
  data : b.sys.chip.endsCycle q = true → b.moved q q.sclkFall.data =
    Memory.load b.mem b.acr (b.moved q q.sclkFall.data).length

instance (ports : BitVec 30 → Bool) (b : Board) (q : Period) : Decidable (Served ports b q) :=
  decidable_of_iff
    ((b.sys.chip.endsCycle q = true → q.sclkFall.term.isNarrow = ports (longword b.acr)) ∧
      (b.sys.chip.endsCycle q = true → b.moved q q.sclkFall.data =
        Memory.load b.mem b.acr (b.moved q q.sclkFall.data).length))
    ⟨fun ⟨h1, h2⟩ => ⟨h1, h2⟩, fun ⟨h1, h2⟩ => ⟨h1, h2⟩⟩

/-- A session that reads memory from an address on. -/
structure Fetching (ports : BitVec 30 → Bool) (m : Address → Byte) (a : Address) (b : Board) :
    Prop where
  loading : System.Loading b.sys
  acr : b.acr = a + (b.sys.read.length : Address)
  odd : b.acr.getLsbD 1 = b.sys.chip.lowDue
  port : b.sys.chip.cpu.state.second = true → ports (longword b.acr) = true
  mem : b.mem = m
  read : b.sys.read = Memory.load m a b.sys.read.length

section Fetch

variable {ports : BitVec 30 → Bool}

theorem Fetching.step {m : Address → Byte} {a : Address} {b : Board} {q : Period}
    (hR : Fetching ports m a b) (hq : System.Supplying b.sys q) (hp : Served ports b q) :
    Fetching ports m a (b.step q) := by
  obtain ⟨hb, hd, hs, hn⟩ := hq
  have hL := hR.loading
  have hr : (b.step q).sys.read = b.sys.read ++ b.sys.chip.read q := rfl
  cases he : b.sys.chip.endsCycle q with
  | true =>
      obtain ⟨hrw, hm, hlen, hodd, hsec⟩ := hL.moved_of_ends hb hs hR.odd
        (fun h2 => (hp.narrow he).trans (hR.port h2)) he
      have hm' : b.moved q q.sclkFall.data = b.sys.chip.read q := hm
      have hdata := hp.data he
      rw [hm', hR.mem] at hdata
      have hacr := step_acr_of_ends he
      refine ⟨hL.step hb hd hs hn, ?_, ?_, fun h2 => ?_, ?_, ?_⟩
      · rw [hacr, hR.acr, hr, List.length_append, hlen, hR.acr, Nat.cast_add, add_assoc]
      · rw [hacr, Ramsey.getLsbD_one_add b.acr (Ramsey.increment_cases ..)]
        exact hodd.symm
      · -- the second word of a longword lies in the port of the first one
        obtain ⟨h0, hnar⟩ := hsec h2
        have e2 : Ramsey.increment b.acr q.sclkFall.term = 2 := by
          rw [Ramsey.increment, hnar, Bool.or_true]
          rfl
        rw [hacr, e2]
        exact (congrArg ports (longword_add_two h0)).trans ((hp.narrow he).symm.trans hnar)
      · have hmem : (b.step q).mem = b.mem :=
          if_neg (by rw [hrw, Bool.not_true, Bool.and_false]; exact Bool.false_ne_true)
        rw [hmem, hR.mem]
      · rw [hr, List.length_append, Memory.load_add, ← hR.acr, ← hR.read, ← hdata]
  | false =>
      have hnone : b.sys.chip.read q = [] := by
        rw [Chip.read, he, Bool.false_and, if_neg Bool.false_ne_true]
      obtain ⟨hlow, hsec⟩ := hL.lowDue_of_not_ends hb hs he
      obtain ⟨hacr, hmem⟩ := step_of_not_ends he
      refine ⟨hL.step hb hd hs hn, ?_, ?_, fun h2 => ?_, ?_, ?_⟩
      · rw [hacr, hr, hnone, List.append_nil, hR.acr]
      · rw [hacr, hR.odd]
        exact hlow.symm
      · rw [hacr]
        exact hR.port (hsec h2)
      · rw [hmem, hR.mem]
      · rw [hr, hnone, List.append_nil]
        exact hR.read

theorem Fetching.of_start {b : Board} (hx : System.Start b.sys)
    (hd : b.sys.chip.regs.ndmadir = true) (ha : b.acr.getLsbD 1 = b.sys.chip.regs.a1) :
    Fetching ports b.mem b.acr b := by
  have hcpu : b.sys.chip.cpu.state.odd = false ∧ b.sys.chip.cpu.state.bridging = false ∧
      b.sys.chip.cpu.state.second = false := by
    rcases hx.dma.cpu_state with e | e <;> rw [e] <;> exact ⟨rfl, rfl, rfl⟩
  obtain ⟨h1, h2, h3⟩ := hcpu
  refine ⟨hx.loading hd, ?_, ?_, fun h => Bool.noConfusion (h3.symm.trans h), rfl, ?_⟩
  · rw [hx.read, List.length_nil, Nat.cast_zero]
    exact (BitVec.add_zero _).symm
  · rw [ha, Chip.lowDue, Chip.oddStart, h1, h2, h3, Bool.or_false, Bool.not_false, Bool.and_true,
      Bool.or_false]
  · rw [hx.read]
    rfl

/-- In a session from memory the bytes given to the WD33C93 are those at consecutive
addresses, memory stays as it is, and 32 bytes at most are read ahead. -/
theorem write_session_memory {b : Board} (hx : System.Start b.sys)
    (hd : b.sys.chip.regs.ndmadir = true) (ha : b.acr.getLsbD 1 = b.sys.chip.regs.a1)
    {qs : List Period}
    (hqs : Runs.Along step (fun b q => System.Supplying b.sys q ∧ Served ports b q) b qs) :
    ∃ n, (Runs.run step b qs).sys.given.length ≤ n ∧
      n ≤ (Runs.run step b qs).sys.given.length + 32 ∧
      (Runs.run step b qs).acr = b.acr + (n : Address) ∧
      (Runs.run step b qs).mem = b.mem ∧
      (Runs.run step b qs).sys.given =
        Memory.load b.mem b.acr (Runs.run step b qs).sys.given.length := by
  have hR : Fetching ports b.mem b.acr (Runs.run step b qs) :=
    Runs.invariant_run (fun c q hR hq => hR.step hq.1 hq.2) (.of_start hx hd ha) hqs
  have hbytes := hR.loading.stream
  have hlen := congrArg List.length hbytes
  rw [List.length_append] at hlen
  have hle := hR.loading.filling.writing.waiting_le
  refine ⟨(Runs.run step b qs).sys.read.length, by omega, by omega, hR.acr, hR.mem, ?_⟩
  -- what was given is a first part of what was read, and so is the block itself
  have hpre : (Runs.run step b qs).sys.given <+: Memory.load b.mem b.acr
      (Runs.run step b qs).sys.read.length :=
    ⟨(Runs.run step b qs).sys.chip.waiting, by rw [← hbytes]; exact hR.read⟩
  have hpre' := Memory.load_prefix (m := b.mem) (a := b.acr)
    (show (Runs.run step b qs).sys.given.length ≤ (Runs.run step b qs).sys.read.length by omega)
  exact (List.prefix_of_prefix_length_le hpre hpre' (by rw [Memory.load_length])).eq_of_length
    (by rw [Memory.load_length])

/-- Words are read from a 16-bit port, the first one from an odd address. -/
theorem write_session_memory_fresh :
    let b : Board :=
      ⟨System.fresh true true, 0x1002, fun a => if a.getLsbD 0 then 0xEF else 0xBE⟩
    let qs : List Period :=
      List.replicate 3 (.steady { dreq_ := false, bg_ := false }) ++
        List.replicate 60
          (.steady { dreq_ := false, bg_ := false, dsack1_ := false, data := ⟨0xBE, 0xEF, 0, 0⟩ })
    ∃ n, (Runs.run step b qs).sys.given.length ≤ n ∧
      n ≤ (Runs.run step b qs).sys.given.length + 32 ∧
      (Runs.run step b qs).acr = b.acr + (n : Address) ∧
      (Runs.run step b qs).mem = b.mem ∧
      (Runs.run step b qs).sys.given =
        Memory.load b.mem b.acr (Runs.run step b qs).sys.given.length :=
  @write_session_memory (fun _ => true) _ (System.fresh_start true true) rfl (by decide +kernel) _
    (by decide +kernel)

end Fetch

end Board

end Resdmac
