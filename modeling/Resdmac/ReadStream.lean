import Resdmac.Accounting
import Resdmac.System

/-!
# The Stream from the Peripheral to Memory

Bytes enter the FIFO one at a time and leave it as longwords or words. The bytes taken
from the WD33C93 are at any time those written to memory, in order, followed by those
in the FIFO.

## Main definitions

- `Chip.contents` — the bytes in the FIFO
- `Chip.undelivered` — those of them that memory has not got yet

## Main results

- `System.read_stream_fidelity` — nothing is lost, doubled or reordered on the way
-/

namespace Resdmac

open Chip (Period)

/-! ## §1 One byte into the buffer -/

namespace Fifo

variable {k : ℕ} (f : Fifo k) (b : Byte) (id w : Longword)

/-- A byte strobe writes the lane of the byte pointer. -/
theorem write_byte :
    ((f.writeStrobes false false false).write (.replicate b) w).bytes.take f.bytePtr.toNat =
        w.bytes.take f.bytePtr.toNat ∧
      ((f.writeStrobes false false false).write (.replicate b) w).lane f.bytePtr = b := by
  have h : f.bytePtr = 0 ∨ f.bytePtr = 1 ∨ f.bytePtr = 2 ∨ f.bytePtr = 3 := by
    generalize f.bytePtr = p
    revert p
    decide
  simp only [writeStrobes, bo0, bo1]
  rcases h with h | h | h | h <;> rw [h] <;> exact ⟨rfl, rfl⟩

end Fifo

namespace Chip

/-! ## §2 The contents of the FIFO -/

/-- The bytes in the FIFO: the complete longwords and those of the next one. -/
def contents (s : Chip) : List Byte :=
  (Ring.window s.fifo.buffer s.fifo.readPtr s.received).flatMap Longword.bytes ++
    (s.fifo.buffer s.fifo.writePtr).bytes.take
      (s.fifo.bytePtr.toNat + (s.scsi.state == .s2f3).toNat)

/-- A byte strobe is armed exactly while a byte is on `PD_PORT`. -/
structure Strobed (s : Chip) : Prop where
  lbyte : s.scsi.lbyte_ = !(s.scsi.state == .s2f1 || s.scsi.state == .s2f2)
  s2f : s.scsi.lbyte_ = false → s.scsi.out.s2f = true

theorem period_strobed {s : Chip} {q : Period} (h : Live s q) : Strobed (s.period q) where
  lbyte := by
    rw [ScsiSm.lbyte_, period_scsi_out h, period_scsi_state h, ← ScsiSm.lbyte_eq]
    rfl
  s2f := by
    rw [ScsiSm.lbyte_, period_scsi_out h, Bool.not_eq_false']
    exact ScsiSm.s2f_of_lbyte

namespace Reading

variable {s : Chip} {q : Period} (hI : Reading s) (hS : Strobed s)
include hI hS

/-- The entry at the write pointer after the CLK90 rising edge. -/
theorem store_eq (hq : q.NoReset) :
    ∃ w, (s.period q).fifo.buffer = Function.update s.fifo.buffer s.fifo.writePtr w ∧
      if s.scsi.lbyte_ then w = s.fifo.buffer s.fifo.writePtr
      else w.bytes.take s.fifo.bytePtr.toNat =
          (s.fifo.buffer s.fifo.writePtr).bytes.take s.fifo.bytePtr.toNat ∧
        w.lane s.fifo.bytePtr = q.clk90Rise.pd := by
  have h : Live s q := ⟨hI.awake, hq⟩
  have hr : s.rstFifo_ = true := by rw [rstFifo_, hI.dmaena, hI.rstFifo]; rfl
  refine ⟨_, by rw [period_buffer h, hr, if_pos rfl], ?_⟩
  rw [hI.llw, hI.lhw]
  cases hl : s.scsi.lbyte_ with
  | true => exact Fifo.write_idle ..
  | false =>
      have hf : s.fifoId q.clk90Rise = .replicate q.clk90Rise.pd := by
        rw [fifoId, scsiDataRx, hS.s2f hl]
        rfl
      rw [hf]
      exact Fifo.write_byte ..

omit hS in
/-- A byte is stored only behind fewer than eight longwords. -/
theorem received_lt (hl : s.scsi.lbyte_ = false) : s.received < 2 ^ 3 := by
  have ht := hI.lbyte hl
  have hroom := hI.room ht
  have hreq : s.scsi.rififoO = false := Bool.eq_false_iff.mpr fun hr => by
    rw [hI.request hr] at ht
    exact Bool.noConfusion ht
  rw [received, hreq, Bool.toNat_false]
  omega

/-- The bytes in the FIFO before anything is removed from it: a byte on `PD_PORT` is
added, and the fourth byte completes a longword. -/
theorem filled_eq (hq : InSession s q) :
    (Ring.window (s.period q).fifo.buffer s.fifo.readPtr
        (s.received + (s.scsi.state == .s2f3 && s.fifo.boeq3).toNat)).flatMap Longword.bytes ++
      ((s.period q).fifo.buffer (s.period q).fifo.writePtr).bytes.take
        ((s.period q).fifo.bytePtr.toNat + ((s.period q).scsi.state == .s2f3).toNat) =
      s.contents ++ s.taken q := by
  have h : Live s q := ⟨hI.awake, hq.noReset⟩
  obtain ⟨w, hbuf, hw⟩ := hI.store_eq hS hq.noReset
  have hst : ((s.period q).scsi.state == .s2f3) = (s.scsi.state == .s2f2) := by
    rw [period_scsi_state h]
    exact ScsiSm.nextState_beq_s2f3
  have hlb : (s.period q).scsi.lbyte_ = !((s.period q).scsi.state == .s2f1 ||
      (s.period q).scsi.state == .s2f2) := (period_strobed h).lbyte
  have hl := hS.lbyte
  have hnext : (s.period q).scsi.state = ScsiSm.nextState (s.scsiIn q) s.scsi.state :=
    period_scsi_state h
  rw [taken_eq h, contents, hst, hI.period_bytePtr_eq q hq.noReset, hlb, hbuf,
    hI.period_writePtr_eq q hq.noReset]
  by_cases hbyte : s.scsi.state = .s2f1 ∨ s.scsi.state = .s2f2
  · -- a byte is stored behind the complete longwords
    have hlf : s.scsi.lbyte_ = false := by
      rcases hbyte with e | e <;> rw [hl, e] <;> rfl
    have h8 := hI.received_lt hlf
    rw [if_neg (by rw [hlf]; exact Bool.false_ne_true)] at hw
    obtain ⟨hw1, hw2⟩ := hw
    rw [hlf]
    rcases hbyte with e | e
    · rw [e] at hnext ⊢
      rw [hnext]
      change (Ring.window _ _ s.received).flatMap Longword.bytes ++
        (Function.update s.fifo.buffer s.fifo.writePtr w s.fifo.writePtr).bytes.take
          s.fifo.bytePtr.toNat = _
      rw [Ring.window_update hI.ptrs h8, Function.update_self, hw1]
      exact (List.append_nil _).symm
    · rw [e] at hnext ⊢
      rw [hnext]
      change (Ring.window _ _ s.received).flatMap Longword.bytes ++
        (Function.update s.fifo.buffer s.fifo.writePtr w s.fifo.writePtr).bytes.take
          (s.fifo.bytePtr.toNat + 1) = _
      rw [Ring.window_update hI.ptrs h8, Function.update_self, Longword.take_lane, hw1, hw2]
      exact (List.append_assoc ..).symm
  · -- no byte is stored, and the step after the fourth byte completes its longword
    have hlt : s.scsi.lbyte_ = true := by
      rw [hl]
      simp only [not_or] at hbyte
      simp [hbyte]
    rw [hlt, if_pos rfl] at hw
    have h2 : (s.scsi.state == .s2f2) = false := by
      simp only [not_or] at hbyte
      simp [hbyte]
    rw [hlt, h2, hw, Function.update_eq_self, Bool.not_true, Bool.false_and,
      if_neg Bool.false_ne_true, List.append_nil]
    cases h3 : (s.scsi.state == .s2f3) with
    | false => rfl
    | true =>
        cases hb : s.fifo.boeq3 with
        | true =>
            have e : s.fifo.bytePtr = 3 := eq_of_beq hb
            rw [e]
            change (Ring.window _ _ (s.received + 1)).flatMap Longword.bytes ++ [] = _ ++
              (s.fifo.buffer s.fifo.writePtr).bytes
            rw [Ring.window_succ, List.flatMap_append, List.append_nil, ← hI.ptrs]
            simp
        | false =>
            change _ ++ (s.fifo.buffer s.fifo.writePtr).bytes.take (s.fifo.bytePtr + 1).toNat = _
            rw [Fifo.toNat_bytePtr_succ hb]
            rfl

/-- The bytes in the FIFO after the period. -/
theorem period_contents (hq : InSession s q) (hu : ¬ Underflow s q) :
    (s.period q).contents =
      (s.contents ++ s.taken q).drop (if (s.cpuComb q).intDecfifo then 4 else 0) := by
  have h : Live s q := ⟨hI.awake, hq.noReset⟩
  have hfill := hI.filled_eq hS hq
  have hrec := hI.period_received hq hu
  have hno := hI.scsiOut_incno q hq.noReset
  have hnc : (s.cpuOut q).incno = (s.cpuComb q).intDecfifo := rfl
  rw [← hfill, contents, period_readPtr h, hI.rstOut_ q hq.noReset, if_pos rfl, hno,
    Bool.or_false, hnc, ← hrec]
  cases (s.cpuComb q).intDecfifo with
  | false => rfl
  | true =>
      rw [Bool.toNat_true, Ring.window_cons, List.flatMap_cons, List.append_assoc]
      rfl

end Reading

/-! ## §3 What memory has got -/

/-- The bytes at the front of `contents` that are no payload or that memory has got
already: the upper half of a longword that starts at an odd word, or whose upper half
was written to a 16-bit port. -/
def skip (s : Chip) : ℕ := if s.regs.a1 || s.cpu.state.low then 2 else 0

/-- The bytes in the FIFO that memory has not got yet. -/
def undelivered (s : Chip) : List Byte := s.contents.drop s.skip

/-- `A1` is clear once the first cycle was strobed. -/
def Aligned (s : Chip) : Prop := s.cpu.state.aligned = true → s.regs.a1 = false

theorem Aligned.step {s : Chip} {q : Period} (h : Live s q) (hq : InSession s q)
    (ha : Aligned s) : Aligned (s.period q) := by
  intro hs
  rw [period_cpu_state h] at hs
  rw [session_a1 h hq]
  rcases CpuSm.nextState_aligned hs with h1 | h1 | h1
  · rw [ha h1, Bool.false_and]
  · have e : (s.cpuOut q).pas = true := h1
    rw [e, Bool.not_true, Bool.and_false]
  · rw [cpuIn_eq h] at h1
    have e : s.regs.a1 = false := h1
    rw [e, Bool.false_and]

/-- With a longword to deliver, it is at the front of the contents. -/
theorem contents_eq {s : Chip} (h : 1 ≤ s.received) :
    ∃ r, s.contents = s.fifo.od.bytes ++ r := by
  obtain ⟨n, hn⟩ : ∃ n, s.received = n + 1 := ⟨s.received - 1, by omega⟩
  rw [contents, hn, Ring.window_cons, List.flatMap_cons, List.append_assoc]
  exact ⟨_, rfl⟩

end Chip

namespace System

/-- What a period of a draining session does to the stream: a cycle waits or none is in
progress, or it ends with the longword, its upper half or its lower half delivered. -/
inductive Delivers (x : System) (q : Period) : Prop where
  | none (written : x.chip.written q = []) (dec : (x.chip.cpuComb q).intDecfifo = false)
      (skip : (x.chip.period q).skip = x.chip.skip)
  | whole (state : x.chip.cpu.state.delivering = true)
      (written : x.chip.written q = x.chip.fifo.od.bytes)
      (dec : (x.chip.cpuComb q).intDecfifo = true)
      (skip : x.chip.skip = 0 ∧ (x.chip.period q).skip = 0)
  | upper (state : x.chip.cpu.state.delivering = true)
      (written : x.chip.written q = x.chip.fifo.od.upper.bytes)
      (dec : (x.chip.cpuComb q).intDecfifo = false)
      (skip : x.chip.skip = 0 ∧ (x.chip.period q).skip = 2)
  | lower (state : x.chip.cpu.state.delivering = true)
      (written : x.chip.written q = x.chip.fifo.od.lower.bytes)
      (dec : (x.chip.cpuComb q).intDecfifo = true)
      (skip : x.chip.skip = 2 ∧ (x.chip.period q).skip = 0)
  | tail (state : x.chip.cpu.state.tail = true)
      (written : x.chip.written q = x.chip.fifo.od.upper.bytes)
      (dec : (x.chip.cpuComb q).intDecfifo = false)
      (next : (x.chip.period q).cpu.state = .s15)

section Delivery

variable {x : System} {q : Period} (hC : Coupled x) (hq : BusRules x q)
  (hs : Chip.InSession x.chip q) (hI : Chip.Reading x.chip) (ha : Chip.Aligned x.chip)
include hC hq hs hI ha

omit hs ha in
/-- A cycle that ends is a write cycle, and memory still holds its answer. -/
theorem written_of_ends (hst : x.chip.cpu.state.strobing = true)
    (hp : (x.chip.cpuComb q).pas = false) (ht : q.clk90Rise.term ≠ .wait)
    (hon : (CpuSm.nextState (x.chip.cpuIn q) x.chip.cpu.state).onBus = true) :
    x.chip.written q =
      if (x.chip.cpuComb q).size1 || q.clk90Rise.term.isNarrow then
        ((x.chip.atSclkFall q).dataO q.sclkFall).upper.bytes
      else ((x.chip.atSclkFall q).dataO q.sclkFall).bytes := by
  have h := hC.live hq
  have hO : x.chip.asO_ = false := by rw [hC.asO_, hst]; rfl
  obtain ⟨-, -, -, hheld⟩ := hq.answers hO
  have hend := Chip.endsCycle_eq h
  rw [hO, show (x.chip.cpuOut q).pas = false from hp] at hend
  have hbg : (x.chip.cpuOut q).bgack = true := Chip.cpuOut_bgack.trans hon
  have hte : q.sclkFall.term = q.clk90Rise.term := hheld.resolve_left ht
  rw [Chip.written, hend, Chip.atSclkFall_rw h hbg, hI.ndmadir, hte, Chip.atSclkFall_cpu_out h]
  rfl

/-- Between two cycles nothing is written, and the low half of a longword stays due. -/
theorem delivers_of_idle (hst : x.chip.cpu.state.strobing = false) : Delivers x q := by
  have h := hC.live hq
  refine .none ?_ ?_ ?_
  · rw [Chip.written, Chip.endsCycle_eq h, hC.asO_, hst]
    rfl
  · refine Bool.eq_false_iff.mpr fun hd => ?_
    rw [CpuSm.strobing_of_intDecfifo hd] at hst
    exact Bool.noConfusion hst
  · have e := CpuSm.low_spec (i := x.chip.cpuIn q) hst hI.cpu
      (fun hal => by rw [Chip.cpuIn_eq h]; exact ha hal)
    have ea : (x.chip.cpuIn q).a1 = x.chip.regs.a1 := by rw [Chip.cpuIn_eq h]
    rw [ea] at e
    rw [Chip.skip, Chip.session_a1 h hs, Chip.period_cpu_state h, Chip.skip, ← e]
    rfl

theorem delivers : Delivers x q := by
  have h := hC.live hq
  cases hst : x.chip.cpu.state.strobing with
  | false => exact delivers_of_idle hC hq hs hI ha hst
  | true =>
      have hpas : x.chip.cpu.out.pas = true := hC.pas.trans hst
      have hb := CpuSm.State.onBus_of_strobing hst
      have hcl := (ScsiSm.comb_of_dma (i := x.chip.scsiIn q) (hC.onBus hb)).1
      have hdr := CpuSm.State.draining_of_strobing hst hI.cpu
      have ha1 := ha (CpuSm.State.aligned_of_strobing hst hdr)
      have hsk : x.chip.skip = if x.chip.cpu.state.low then 2 else 0 := by
        rw [Chip.skip, ha1, Bool.false_or]
      have hskip : (x.chip.period q).skip =
          if (CpuSm.nextState (x.chip.cpuIn q) x.chip.cpu.state).low then 2 else 0 := by
        rw [Chip.skip, Chip.session_a1 h hs, Chip.period_cpu_state h, ha1]
        rfl
      have hwr := fun hp ht hon => written_of_ends hC hq hI hst hp ht hon
      -- a wait state, a longword, its two halves at a 16-bit port, the word of a flush
      rcases CpuSm.drain_spec (hC.answered hq hst) hst hdr with
        ⟨hp, hd, -, hl, -⟩ | ⟨hp, ht, hfl, ⟨hw, hfh, hsz, hn, hd, hnx⟩ |
          ⟨hw, hfh, hsz, hn, hd, hnx⟩ | ⟨hw, hfh, hbr, hsz, hd, hnx⟩ | ⟨hw, hfh, hsz, hd, hnx⟩⟩
      · refine .none ?_ hd (by rw [hskip, hl, hsk])
        rw [Chip.written, Chip.endsCycle_eq h, show (x.chip.cpuOut q).pas = true from hp,
          Bool.not_true, Bool.and_false]
        rfl
      · refine .whole (CpuSm.State.delivering_of_whole hw) ?_ hd
          ⟨by rw [hsk, CpuSm.State.low_of_whole hw]; rfl, by rw [hskip, hnx]; rfl⟩
        rw [hwr hp ht (by rw [hnx]; rfl), Chip.atSclkFall_dataO h hpas hcl hfh hfl, hn,
          show (x.chip.cpuComb q).size1 = false from hsz]
        rfl
      · refine .upper (CpuSm.State.delivering_of_whole hw) ?_ hd
          ⟨by rw [hsk, CpuSm.State.low_of_whole hw]; rfl, by rw [hskip, hnx]; rfl⟩
        rw [hwr hp ht (by rw [hnx]; rfl), Chip.atSclkFall_dataO h hpas hcl hfh hfl, hn,
          Bool.or_true]
        rfl
      · refine .lower (CpuSm.State.delivering_of_low hw) ?_ hd
          ⟨by rw [hsk, hw]; rfl, by rw [hskip, hnx]; rfl⟩
        rw [hwr hp ht (by rw [hnx]; rfl), show (x.chip.cpuComb q).size1 = true from hsz,
          Bool.true_or, if_pos rfl, Chip.atSclkFall_dataO_bridged h hpas hcl hfh hbr]
      · refine .tail hw ?_ hd ((Chip.period_cpu_state h).trans hnx)
        rw [hwr hp ht (by rw [hnx]; rfl), Chip.atSclkFall_dataO h hpas hcl hfh hfl,
          show (x.chip.cpuComb q).size1 = true from hsz]
        rfl

end Delivery

/-! ## §4 The stream -/

/-- The bytes taken from the WD33C93 are those written to memory and those still in the
FIFO. -/
structure Stream (x : System) : Prop where
  bytes : x.taken = x.written ++ x.chip.undelivered
  skip_le : x.chip.skip ≤ x.chip.contents.length

/-- A session that drains the FIFO, with its stream. -/
structure Draining (x : System) : Prop where
  coupled : Coupled x
  reading : Chip.Reading x.chip
  fed : Chip.Fed x.chip
  strobed : Chip.Strobed x.chip
  aligned : Chip.Aligned x.chip
  stream : Stream x

section Step

variable {x : System} {q : Period} (hD : Draining x) (hq : BusRules x q)
  (hs : Chip.InSession x.chip q)
include hD hq hs

/-- The stream is kept by every period that does not deliver the last word of a flush. -/
theorem Draining.stream_step (ht : x.chip.cpu.state.tail = false) : Stream (x.step q) := by
  have hI := hD.reading
  have hu := hI.not_underflow hs hD.fed
  have hcont := hI.period_contents hD.strobed hs hu
  have hle := hD.stream.skip_le
  -- the entry to deliver is at the front of the contents
  have hfront : x.chip.cpu.state.delivering = true →
      ∃ r, x.chip.contents = x.chip.fifo.od.bytes ++ r := fun hd =>
    Chip.contents_eq ((hD.fed.delivering hd).trans (Nat.le_add_right ..))
  have key : ∀ w, x.chip.written q = w →
      x.chip.contents.drop x.chip.skip ++ x.chip.taken q = w ++ (x.chip.period q).undelivered →
      (x.chip.period q).skip ≤ (x.chip.period q).contents.length → Stream (x.step q) := by
    intro w hw hbytes hle'
    refine ⟨?_, hle'⟩
    change x.taken ++ x.chip.taken q = (x.written ++ x.chip.written q) ++ (x.chip.period q).undelivered
    rw [hw, hD.stream.bytes, Chip.undelivered, List.append_assoc, hbytes, List.append_assoc]
  rcases delivers hD.coupled hq hs hI hD.aligned with
    ⟨hw, hd, hk⟩ | ⟨hst, hw, hd, hk, hk'⟩ | ⟨hst, hw, hd, hk, hk'⟩ | ⟨hst, hw, hd, hk, hk'⟩ |
      ⟨hst, -, -, -⟩
  · rw [hd, if_neg Bool.false_ne_true, List.drop_zero] at hcont
    refine key _ hw ?_ ?_
    · rw [Chip.undelivered, hcont, hk, List.nil_append, List.drop_append_of_le_length hle]
    · rw [hk, hcont, List.length_append]
      omega
  · obtain ⟨r, hr⟩ := hfront hst
    rw [hd, if_pos rfl, hr] at hcont
    refine key _ hw ?_ (by rw [hk']; exact Nat.zero_le _)
    rw [Chip.undelivered, hcont, hk, hk', hr]
    exact List.append_assoc ..
  · obtain ⟨r, hr⟩ := hfront hst
    rw [hd, if_neg Bool.false_ne_true, List.drop_zero, hr] at hcont
    refine key _ hw ?_ ?_
    · rw [Chip.undelivered, hcont, hk, hk', hr]
      rfl
    · rw [hk', hcont]
      simp only [List.length_append, Longword.bytes_length]
      omega
  · obtain ⟨r, hr⟩ := hfront hst
    rw [hd, if_pos rfl, hr] at hcont
    refine key _ hw ?_ (by rw [hk']; exact Nat.zero_le _)
    rw [Chip.undelivered, hcont, hk, hk', hr]
    rfl
  · rw [ht] at hst
    exact Bool.noConfusion hst

theorem Draining.step (hn : ¬ Chip.SpuriousTail x.chip) (ht : x.chip.cpu.state.tail = false) :
    Draining (x.step q) := by
  have h := hD.coupled.live hq
  exact
    { coupled := hD.coupled.step hq
      reading := hD.reading.step hs (hD.reading.not_underflow hs hD.fed)
      fed := hD.reading.fed_step hs hD.fed hn
      strobed := Chip.period_strobed h
      aligned := hD.aligned.step h hs
      stream := hD.stream_step hq hs ht }

end Step

theorem Start.draining {x : System} (hx : Start x) (hd : x.chip.regs.ndmadir = false) :
    Draining x := by
  have hs := hx.dma
  have hI := hs.reading hd
  have hcpu : x.chip.cpu.state.aligned = false ∧ x.chip.cpu.state.low = false ∧
      x.chip.cpu.state.delivering = false ∧ x.chip.cpu.state ≠ .s1 := by
    rcases hs.cpu_state with e | e <;> rw [e] <;> exact ⟨rfl, rfl, rfl, nofun⟩
  have h3 : (x.chip.scsi.state == .s2f3) = false := by
    rcases hs.scsi_state with e | e <;> rw [e] <;> rfl
  have hrec : x.chip.received = 0 := by
    rw [Chip.received, hs.level, hs.rififoO]
    rfl
  -- with `A1` set the FIFO begins with a word that is skipped
  have hcont : x.chip.contents =
      (x.chip.fifo.buffer x.chip.fifo.writePtr).bytes.take (if x.chip.regs.a1 then 2 else 0) := by
    rw [Chip.contents, hrec, h3, hs.bytePtr]
    cases x.chip.regs.a1 <;> rfl
  have hskip : x.chip.skip = if x.chip.regs.a1 then 2 else 0 := by
    rw [Chip.skip, hcpu.2.1, Bool.or_false]
  exact
    { coupled := hx.coupled
      reading := hI
      fed := ⟨fun h => by rw [hcpu.2.2.1] at h; exact Bool.noConfusion h,
        fun h => absurd h hcpu.2.2.2⟩
      strobed := by
        have hl : x.chip.scsi.lbyte_ = true := by rw [ScsiSm.lbyte_, hs.scsi_out]; rfl
        refine ⟨?_, fun h => by rw [hl] at h; exact Bool.noConfusion h⟩
        rw [hl]
        rcases hs.scsi_state with e | e <;> rw [e] <;> rfl
      aligned := fun h => by rw [hcpu.1] at h; exact Bool.noConfusion h
      stream := by
        refine ⟨?_, ?_⟩
        · rw [hx.taken, hx.written, Chip.undelivered, hcont, hskip]
          cases x.chip.regs.a1 <;> rfl
        · rw [hcont, hskip]
          cases x.chip.regs.a1 <;> exact le_rfl }

/-- A period of a session without a flush. -/
def Streaming (x : System) (q : Period) : Prop :=
  BusRules x q ∧ Chip.InSession x.chip q ∧ Chip.NoFlush x.chip q

instance (x : System) (q : Period) : Decidable (Streaming x q) :=
  inferInstanceAs (Decidable (_ ∧ _ ∧ _))

theorem tail_step {x : System} {q : Period} (h : Chip.Live x.chip q) (hz : Chip.Quiet x.chip)
    (ht : x.chip.cpu.state.tail = false) : (x.step q).chip.cpu.state.tail = false := by
  refine Bool.eq_false_iff.mpr fun hn => ?_
  change (x.chip.period q).cpu.state.tail = true at hn
  rw [Chip.period_cpu_state h] at hn
  rcases CpuSm.nextState_tail hn with h1 | h1
  · rw [ht] at h1
    exact Bool.noConfusion h1
  · rw [Chip.cpuIn_eq h, Chip.lastword, hz.1] at h1
    simp at h1

/-- Without a flush the stream is kept. -/
theorem Start.stream {x : System} (hx : Start x) (hd : x.chip.regs.ndmadir = false)
    {qs : List Period} (hqs : Runs.Along step Streaming x qs) : Stream (Runs.run step x qs) := by
  have ht : x.chip.cpu.state.tail = false := by
    rcases hx.dma.cpu_state with e | e <;> rw [e] <;> rfl
  have hrun := Runs.invariant_run
    (I := fun x => Draining x ∧ Chip.Quiet x.chip ∧ x.chip.cpu.state.tail = false)
    (fun x q hI hq => by
      obtain ⟨hD, hz, ht⟩ := hI
      obtain ⟨hb, hs, hf⟩ := hq
      have h := hD.coupled.live hb
      exact ⟨hD.step hb hs hz.not_spuriousTail ht, hz.step h hf, tail_step h hz ht⟩)
    ⟨hx.draining hd, hx.quiet, ht⟩ hqs
  exact hrun.1.stream

/-- In every session from the WD33C93 to memory in which `FLUSH` is not strobed, what
was written to memory are the bytes taken from the WD33C93, each once and in order, and
the rest of them is what the FIFO holds. -/
theorem read_stream_fidelity {x : System} (hx : Start x) (hd : x.chip.regs.ndmadir = false)
    {qs : List Period} (hqs : Runs.Along step Streaming x qs) :
    (Runs.run step x qs).taken =
      (Runs.run step x qs).written ++ (Runs.run step x qs).chip.undelivered :=
  (hx.stream hd hqs).bytes

/-- The WD33C93 asks all the time, and the bus is granted when the FIFO is full. Memory answers
with `_STERM`, as a 32-bit port after two clocks, and as a 16-bit port. -/
def threePorts : List Period :=
  let asking : Pins := { dreq_ := false, pd := 0xA5 }
  List.replicate 153 (.steady asking) ++ List.replicate 4 (.steady { asking with bg_ := false }) ++
    List.replicate 4 (.steady { asking with sterm_ := false }) ++
      List.replicate 3 (.steady asking) ++
        List.replicate 2 (.steady { asking with dsack0_ := false, dsack1_ := false }) ++
          List.replicate 9 (.steady { asking with dsack1_ := false })

theorem read_stream_fidelity_fresh :
    (Runs.run step (fresh false true) threePorts).taken =
      (Runs.run step (fresh false true) threePorts).written ++
        (Runs.run step (fresh false true) threePorts).chip.undelivered :=
  read_stream_fidelity (fresh_start false true) rfl (by decide +kernel)

end System

end Resdmac
