import Resdmac.Accounting
import Resdmac.System

/-!
# The Stream from Memory to the Peripheral

A memory cycle fills an entry of the FIFO, or half of it: a 16-bit port supplies the two
halves one after the other, and the first word of a session with `A1` set goes into the
lower half, through the bridge latch if it came on `D31-16`. The bytes read from memory
are at any time those given to the WD33C93, in order, followed by those that wait in the
FIFO or in the bridge latch.

## Main definitions

- `Chip.waiting` — the bytes read from memory and not given yet

## Main results

- `System.write_stream_fidelity` — the bytes given are the first bytes of those read
-/

namespace Resdmac

open Chip (Period)

/-! ## §1 One entry into the buffer -/

namespace Fifo

variable {k : ℕ} (f : Fifo k) (lhw llw : Bool) (id w : Longword)

theorem write_words :
    (f.writeStrobes lhw llw true).write id w =
      .ofWords (if lhw then id.upper else w.upper) (if llw then id.lower else w.lower) := by
  cases lhw <;> cases llw <;> simp [writeStrobes, Strobes.write, Longword.ofWords, Longword.upper,
    Longword.lower]

end Fifo

namespace Chip

/-- The word strobes and the input enables go with the state that they were clocked out
with. -/
structure Armed (s : Chip) : Prop where
  lhw : s.lhw = s.cpu.state.wide
  llw : s.llw = s.cpu.state.loadsLow
  dieh : s.cpu.state.wide = true → s.cpu.out.dieh = true
  diel : s.cpu.state.direct = true → s.cpu.out.diel = true
  bridgein : s.cpu.state.latched = true → s.cpu.out.bridgein = true ∧ s.cpu.out.diel = false
  s2f : s.scsi.out.s2f = false
  rstFifo : s.cpu.out.rstFifo = false

/-- The entry at the write pointer after the CLK90 rising edge. -/
def loaded (s : Chip) (q : Period) : Longword :=
  let w := s.fifo.buffer s.fifo.writePtr
  .ofWords (if s.cpu.state.wide then q.clk90Rise.data.upper else w.upper)
    (if s.cpu.state.direct then q.clk90Rise.data.lower
      else if s.cpu.state.latched then s.path.inUdLatch
      else if s.cpu.state.loadsLow then (s.cpuOd q.clk90Rise).lower else w.lower)

theorem rstFifo_of_quiet {s : Chip} {q : Period} (h : Live s q) (hz : Quiet s) :
    (s.cpuOut q).rstFifo = false := by
  refine Bool.eq_false_iff.mpr fun hr => ?_
  have hf := (CpuSm.rstFifo_spec hr).2.2.2.1
  rw [cpuIn_eq h, hz.2] at hf
  exact Bool.noConfusion hf

namespace Writing

variable {s : Chip} {q : Period} (hI : Writing s) (hA : Armed s)
include hI hA

theorem load_eq (hq : q.NoReset) (hc : s.cpu.state.loadsLow = true → s.scsi.out.cpu2s = false) :
    (s.period q).fifo.buffer = Function.update s.fifo.buffer s.fifo.writePtr (s.loaded q) := by
  have h : Live s q := ⟨hI.awake, hq⟩
  have hr : s.rstFifo_ = true := by rw [rstFifo_, hI.dmaena, hA.rstFifo]; rfl
  have hid : s.fifoId q.clk90Rise = s.cpuOd q.clk90Rise := by
    rw [fifoId, hA.s2f]
    rfl
  rw [period_buffer h, hr, if_pos rfl, hI.lbyte, Fifo.write_words, hid, hA.lhw, hA.llw, loaded]
  have hdh := hA.dieh
  have hdl := hA.diel
  have hbr := hA.bridgein
  congr 2
  · cases hw : s.cpu.state.wide with
    | false => rfl
    | true => simp [cpuOd, Datapath.cpuOd, hdh hw]
  · cases hl : s.cpu.state.loadsLow with
    | false =>
        have e := CpuSm.State.wide_of_not_loadsLow hl
        simp [e.2.1, e.2.2]
    | true =>
        have hcs := hc hl
        cases hd : s.cpu.state.direct with
        | true => simp [cpuOd, Datapath.cpuOd, hdl hd]
        | false =>
            cases ht : s.cpu.state.latched with
            | true => simp [cpuOd, Datapath.cpuOd, hbr ht, hcs]
            | false => rfl

end Writing

/-! ## §2 What waits in the FIFO -/

/-- The longwords in the FIFO, with the one that `s35` is about to step over. -/
def stored (s : Chip) : ℕ := s.unsent + (s.cpu.state == .s35).toNat

/-- The bytes of half an entry: the first word from a 16-bit port, or the odd word in the
bridge latch. -/
def half (s : Chip) : List Byte :=
  if s.cpu.state.second then (s.fifo.buffer s.fifo.writePtr).upper.bytes
  else if s.cpu.state.bridging then s.path.inUdLatch.bytes
  else []

theorem period_half {s : Chip} {q : Period} (h : Live s q) :
    (s.period q).half =
      if (CpuSm.nextState (s.cpuIn q) s.cpu.state).second then
        ((s.period q).fifo.buffer (s.period q).fifo.writePtr).upper.bytes
      else if (CpuSm.nextState (s.cpuIn q) s.cpu.state).bridging then
        (s.period q).path.inUdLatch.bytes
      else [] := by
  rw [half, period_cpu_state h]

theorem loaded_upper {s : Chip} {q : Period} (hw : s.cpu.state.wide = false) :
    (s.loaded q).upper = (s.fifo.buffer s.fifo.writePtr).upper := by
  rw [loaded, hw]
  rfl

/-- The bytes read from memory and not given yet. -/
def waiting (s : Chip) : List Byte :=
  ((Ring.window s.fifo.buffer s.fifo.readPtr s.stored).flatMap Longword.bytes).drop
      (s.fifo.bytePtr.toNat + (s.scsi.state == .f2s3).toNat) ++
    s.half

/-- The first word of the session is still to come, and it goes into the lower half of
the first entry. -/
def oddStart (s : Chip) : Bool := s.regs.a1 || s.cpu.state.odd

section OddStart

variable {s : Chip} {q : Period} (hI : Writing s) (hq : InSession s q)
  (hb : s.cpu.state.begun = true → s.regs.a1 = false)
include hI hq hb

/-- `A1` is clear once the first cycle was strobed. -/
theorem Writing.begun_step (hs : (s.period q).cpu.state.begun = true) :
    (s.period q).regs.a1 = false := by
  have h : Live s q := ⟨hI.awake, hq.noReset⟩
  rw [period_cpu_state h] at hs
  rw [session_a1 h hq]
  rcases CpuSm.nextState_begun hs with h1 | h1 | h1
  · rw [hb h1, Bool.false_and]
  · rw [show (s.cpuOut q).pas = true from h1, Bool.not_true, Bool.and_false]
  · rw [cpuIn_eq h] at h1
    rw [show s.regs.a1 = false from h1, Bool.false_and]

omit hb in
theorem Writing.period_oddStart :
    (s.period q).oddStart =
      ((s.cpuIn q).a1 && !(s.cpuComb q).pas ||
        (CpuSm.nextState (s.cpuIn q) s.cpu.state).odd) := by
  have h : Live s q := ⟨hI.awake, hq.noReset⟩
  rw [oddStart, session_a1 h hq, period_cpu_state h, cpuIn_eq h]
  rfl

/-- While nothing is stored the first word is waited for, or it was loaded before. -/
theorem Writing.period_oddStart_eq (hi : (s.cpuComb q).intIncfifo = false) :
    (s.period q).oddStart = s.oddStart := by
  have ea : (s.cpuIn q).a1 = s.regs.a1 := by rw [cpuIn_eq ⟨hI.awake, hq.noReset⟩]
  rw [hI.period_oddStart hq, oddStart, ← ea]
  exact CpuSm.odd_spec hI.cpu (fun hs => ea.trans (hb hs)) hi

/-- The first word is no longer waited for when it is loaded. -/
theorem Writing.period_oddStart_of_inc (hi : (s.cpuComb q).intIncfifo = true) :
    (s.period q).oddStart = false := by
  obtain ⟨hl, hn⟩ := CpuSm.intIncfifo_spec hi
  have ha : s.regs.a1 = false := by
    refine hb (CpuSm.State.begun_of_loading hl fun hs => ?_)
    rw [hs] at hn
    exact CpuSm.State.noConfusion hn
  have ea : (s.cpuIn q).a1 = false := by rw [cpuIn_eq ⟨hI.awake, hq.noReset⟩]; exact ha
  rw [hI.period_oddStart hq, ea, hn]
  rfl

end OddStart

/-- What the two machines keep to while the FIFO is filled. -/
structure Filling (s : Chip) : Prop where
  writing : Writing s
  quiet : Quiet s
  armed : Armed s
  begun : s.cpu.state.begun = true → s.regs.a1 = false
  giving : s.scsi.state.giving = true → 1 ≤ s.fifo.level
  odd : s.oddStart = true → s.stored = 0
  start : s.stored = 0 → s.fifo.bytePtr = if s.oddStart then 2 else 0
  strobed : s.giving = (s.scsi.state == .f2s1 || s.scsi.state == .f2s2)
  tx : s.scsi.state = .f2s2 →
    s.scsi.out.f2s = true ∧ s.path.txLatched = s.fifo.od.lane s.fifo.bytePtr

namespace Filling

variable {s : Chip} {q : Period} (hF : Filling s)
include hF

theorem stored_of_giving (hg : s.scsi.state.giving = true) : 1 ≤ s.stored := by
  have h1 := hF.giving hg
  have ho := hF.writing.owed
  have hr : s.scsi.rdfifoO = false := Bool.eq_false_iff.mpr fun hr => by
    rw [hF.writing.request hr] at hg
    exact Bool.noConfusion hg
  rw [stored, unsent]
  rw [hr] at ho ⊢
  simp only [Bool.toNat_false] at *
  omega

theorem not_giving (h0 : s.stored = 0) : s.scsi.state.giving = false :=
  Bool.eq_false_iff.mpr fun hg => by
    have := hF.stored_of_giving hg
    omega

section Step

variable (hq : InSession s q)
  (h8 : s.cpu.state.strobing = true → (s.cpuIn q).dsack = true → (s.cpuIn q).ndsack1 = false)

theorem live (hq : InSession s q) : Live s q := ⟨hF.writing.awake, hq.noReset⟩

include hq

/-- The longwords stored change by what the two machines add and take. -/
theorem period_stored :
    (s.period q).stored + (s.scsi.state == .f2s3 && s.fifo.boeq3).toNat =
      s.stored + (s.cpuComb q).intIncfifo.toNat := by
  have hu := (hF.writing.period_unsent hq (rstFifo_of_quiet (hF.live hq) hF.quiet)).1
  rw [stored, stored, hF.writing.period_s35 hq]
  omega

theorem period_odd (ho : (s.period q).oddStart = true) : (s.period q).stored = 0 := by
  cases hi : (s.cpuComb q).intIncfifo with
  | true =>
      rw [hF.writing.period_oddStart_of_inc hq hF.begun hi] at ho
      exact Bool.noConfusion ho
  | false =>
      rw [hF.writing.period_oddStart_eq hq hF.begun hi] at ho
      have h0 := hF.odd ho
      have hs := hF.period_stored hq
      rw [hi, Bool.toNat_false] at hs
      omega

theorem period_start (h0 : (s.period q).stored = 0) :
    (s.period q).fifo.bytePtr = if (s.period q).oddStart then 2 else 0 := by
  have h := hF.live hq
  have hs := hF.period_stored hq
  rw [hF.writing.period_bytePtr_eq hq (rstFifo_of_quiet h hF.quiet)]
  rw [h0, Nat.zero_add] at hs
  cases hi : (s.cpuComb q).intIncfifo with
  | false =>
      rw [hi, Bool.toNat_false, Nat.add_zero] at hs
      cases hp : (s.scsi.state == .f2s3 && s.fifo.boeq3) with
      | false =>
          -- nothing was stored and nothing is given
          rw [hp, Bool.toNat_false] at hs
          have hg := ScsiSm.State.beq_f2s3 (hF.not_giving hs.symm)
          rw [hg, if_neg Bool.false_ne_true, hF.start hs.symm,
            hF.writing.period_oddStart_eq hq hF.begun hi]
      | true =>
          -- the last byte of the last longword
          rw [hp, Bool.toNat_true] at hs
          obtain ⟨h1, h2⟩ := Bool.and_eq_true_iff.mp hp
          have ho : s.oddStart = false := Bool.eq_false_iff.mpr fun ho => by
            have := hF.odd ho
            omega
          have hb : s.fifo.bytePtr = 3 := eq_of_beq h2
          rw [h1, if_pos rfl, hb, hF.writing.period_oddStart_eq hq hF.begun hi, ho]
          rfl
  | true =>
      -- a longword is added, so one was stored before and is taken now
      rw [hi, Bool.toNat_true] at hs
      have hp : (s.scsi.state == .f2s3 && s.fifo.boeq3) = true := by
        cases hp : (s.scsi.state == .f2s3 && s.fifo.boeq3) with
        | true => rfl
        | false =>
            rw [hp, Bool.toNat_false] at hs
            omega
      rw [hp, Bool.toNat_true] at hs
      obtain ⟨h1, -⟩ := Bool.and_eq_true_iff.mp hp
      have := hF.stored_of_giving (by rw [eq_of_beq h1]; rfl)
      omega

theorem period_giving (hg : (s.period q).scsi.state.giving = true) :
    1 ≤ (s.period q).fifo.level := by
  obtain ⟨-, hr, h1⟩ := hF.writing.period_giving hq hg
  have hl := hF.writing.period_level hq (rstFifo_of_quiet (hF.live hq) hF.quiet)
  have h1' : 1 ≤ s.fifo.level := h1.elim hF.giving id
  rw [hr, Bool.false_and, Bool.toNat_false] at hl
  omega

include h8

theorem period_armed : Armed (s.period q) := by
  have h := hF.live hq
  have hd : (s.scsiIn q).dmadir = false := by
    rw [scsiIn_eq h, Registers.dmadir, hF.writing.ndmadir]
    rfl
  exact
    { lhw := by rw [period_lhw h, period_cpu_state h]; exact CpuSm.plhw_eq h8
      llw := by rw [period_llw h, period_cpu_state h]; exact CpuSm.pllw_eq h8
      dieh := fun hs => by
        rw [period_cpu_state h] at hs
        rw [period_cpu_out h]
        exact CpuSm.dieh_of_wide h8 hs
      diel := fun hs => by
        rw [period_cpu_state h] at hs
        rw [period_cpu_out h]
        exact CpuSm.diel_of_direct h8 hs
      bridgein := fun hs => by
        rw [period_cpu_state h] at hs
        rw [period_cpu_out h]
        exact CpuSm.bridgein_of_latched hs
      s2f := by
        rw [period_scsi_out h]
        exact ScsiSm.s2f_of_giving hd hF.writing.scsi
      rstFifo := by rw [period_cpu_out h]; exact rstFifo_of_quiet h hF.quiet }

theorem step (hn : NoFlush s q) : Filling (s.period q) := by
  have h := hF.live hq
  exact
    { writing := hF.writing.step hq hF.quiet.not_resetRace
      quiet := hF.quiet.step h hn
      armed := hF.period_armed hq h8
      begun := hF.writing.begun_step hq hF.begun
      giving := hF.period_giving hq
      odd := hF.period_odd hq
      start := hF.period_start hq
      strobed := by
        rw [Chip.giving, period_scsi_out h, period_scsi_state h, ← ScsiSm.dack_we_eq]
        rfl
      tx := fun hs => by
        rw [period_scsi_state h] at hs
        have e := ScsiSm.nextState_eq_f2s2 hs
        have ho : (s.scsiOut q).f2s = true ∧ (s.scsiOut q).cpu2s = false := by
          rw [scsiOut, e]
          exact ⟨rfl, rfl⟩
        rw [period_scsi_out h]
        exact ⟨ho.1, period_txLatched h ho.2 ho.1⟩ }

end Step

section Flow

variable (hq : InSession s q) (hc : s.cpu.state.loadsLow = true → s.scsi.out.cpu2s = false)

theorem stored_lt (hl : s.cpu.state.loadsLow = true) :
    s.stored < 2 ^ 3 ∧ s.fifo.writePtr = s.fifo.readPtr + BitVec.ofNat 3 s.stored := by
  have hload := CpuSm.State.loading_of_loadsLow hl
  have hroom := hF.writing.room (.inl hload)
  have h35 : (s.cpu.state == .s35) = false := by
    revert hl
    cases s.cpu.state <;> intro hl <;> first | rfl | exact Bool.noConfusion hl
  have hst : s.stored = s.unsent := by
    rw [stored, h35]
    rfl
  have hle : s.unsent ≤ s.fifo.level := Nat.sub_le ..
  rw [hst]
  exact ⟨by omega, hF.writing.ptrs⟩

include hc in
/-- The first word from a 16-bit port stays in the buffer at the write pointer. -/
theorem period_half_of_second (hq : InSession s q)
    (hs : (CpuSm.nextState (s.cpuIn q) s.cpu.state).second = true) :
    (s.period q).half = (s.loaded q).upper.bytes := by
  have h := hF.live hq
  rw [period_half h, hs, if_pos rfl,
    hF.writing.period_writePtr_eq hq (rstFifo_of_quiet h hF.quiet),
    CpuSm.beq_s35_of_nextState_second hs, if_neg Bool.false_ne_true,
    hF.writing.load_eq hF.armed hq.noReset hc, Function.update_self]

/-- The bytes already given from the longwords stored, and none if there is none. -/
theorem sub_length_eq :
    s.fifo.bytePtr.toNat + (s.scsi.state == .f2s3).toNat -
        ((Ring.window s.fifo.buffer s.fifo.readPtr s.stored).flatMap Longword.bytes).length =
      if s.oddStart then 2 else 0 := by
  rw [Longword.flatMap_bytes_length, Ring.window_length]
  rcases Nat.eq_zero_or_pos s.stored with h0 | h1
  · rw [h0, hF.start h0, ScsiSm.State.beq_f2s3 (hF.not_giving h0)]
    cases s.oddStart <;> rfl
  · have ho : s.oddStart = false := Bool.eq_false_iff.mpr fun ho => by
      have := hF.odd ho
      omega
    have hb := s.fifo.bytePtr.isLt
    have ht := Bool.toNat_le (s.scsi.state == .f2s3)
    rw [ho, if_neg Bool.false_ne_true]
    omega

include hq

include hc

/-- The longwords before anything is taken: a load that ends adds the entry. -/
theorem entries_eq :
    (Ring.window (s.period q).fifo.buffer s.fifo.readPtr
        (s.stored + (s.cpuComb q).intIncfifo.toNat)).flatMap Longword.bytes =
      (Ring.window s.fifo.buffer s.fifo.readPtr s.stored).flatMap Longword.bytes ++
        if (s.cpuComb q).intIncfifo then (s.loaded q).bytes else [] := by
  have hbuf := hF.writing.load_eq hF.armed hq.noReset hc
  have hwin : Ring.window (s.period q).fifo.buffer s.fifo.readPtr s.stored =
      Ring.window s.fifo.buffer s.fifo.readPtr s.stored := by
    rw [hbuf]
    cases hl : s.cpu.state.loadsLow with
    | true =>
        obtain ⟨h8, hp⟩ := hF.stored_lt hl
        exact Ring.window_update hp h8 _
    | false =>
        obtain ⟨e1, e2, e3⟩ := CpuSm.State.wide_of_not_loadsLow hl
        have e : s.loaded q = s.fifo.buffer s.fifo.writePtr := by
          rw [loaded, e1, e2, e3, hl]
          rfl
        rw [e, Function.update_eq_self]
  cases hi : (s.cpuComb q).intIncfifo with
  | false =>
      rw [Bool.toNat_false, Nat.add_zero, hwin]
      exact (List.append_nil _).symm
  | true =>
      obtain ⟨-, hp⟩ := hF.stored_lt (CpuSm.loadsLow_of_intIncfifo hi)
      rw [Bool.toNat_true, Ring.window_succ, List.flatMap_append, hwin, hbuf, ← hp,
        Function.update_self]
      simp

omit hc in
theorem given_spec :
    s.given q = if s.scsi.state = .f2s2 then [s.fifo.od.lane s.fifo.bytePtr] else [] := by
  have h := hF.live hq
  have hst : (s.period q).giving = ((s.period q).scsi.state == .f2s1 ||
      (s.period q).scsi.state == .f2s2) := by
    rw [Chip.giving, period_scsi_out h, period_scsi_state h, ← ScsiSm.dack_we_eq]
    rfl
  rw [given_eq h, hF.strobed, hst, period_scsi_state h]
  by_cases h2 : s.scsi.state = .f2s2
  · obtain ⟨hf, ht⟩ := hF.tx h2
    rw [hf, ht, h2]
    rfl
  · rw [if_neg h2]
    by_cases h1 : s.scsi.state = .f2s1
    · rw [h1]
      rfl
    · simp [h1, h2]

/-- A byte given leaves the longwords, and the fourth one takes its longword along. -/
theorem flow_eq :
    ((Ring.window s.fifo.buffer s.fifo.readPtr s.stored).flatMap Longword.bytes).drop
        (s.fifo.bytePtr.toNat + (s.scsi.state == .f2s3).toNat) ++
      (if (s.cpuComb q).intIncfifo then (s.loaded q).bytes else []).drop
        (if s.oddStart then 2 else 0) =
    s.given q ++
      ((Ring.window (s.period q).fifo.buffer (s.period q).fifo.readPtr
          (s.period q).stored).flatMap Longword.bytes).drop
        ((s.period q).fifo.bytePtr.toNat + ((s.period q).scsi.state == .f2s3).toNat) := by
  have h := hF.live hq
  have hr := rstFifo_of_quiet h hF.quiet
  have hent := hF.entries_eq hq hc
  rw [← hF.period_stored hq] at hent
  have hst : ((s.period q).scsi.state == .f2s3) = (s.scsi.state == .f2s2) := by
    rw [period_scsi_state h]
    exact ScsiSm.nextState_beq_f2s3
  rw [hF.given_spec hq, hF.writing.period_readPtr_eq hq hr, hF.writing.period_bytePtr_eq hq hr, hst,
    ← hF.sub_length_eq, ← List.drop_append, ← hent]
  by_cases h2 : s.scsi.state = .f2s2
  · -- the byte at the byte pointer
    obtain ⟨n, hn⟩ : ∃ n, s.stored = n + 1 :=
      ⟨s.stored - 1, by have := hF.stored_of_giving (by rw [h2]; rfl); omega⟩
    have hp : (s.scsi.state == .f2s3 && s.fifo.boeq3) = false := by rw [h2]; rfl
    rw [hp, Bool.toNat_false, Nat.add_zero] at hent ⊢
    rw [if_pos h2, if_neg Bool.false_ne_true, hent, hn, Ring.window_cons, List.flatMap_cons, h2,
      List.append_assoc]
    exact Longword.drop_lane ..
  · rw [if_neg h2, List.nil_append]
    have h2' : (s.scsi.state == .f2s2) = false := beq_eq_false_iff_ne.mpr h2
    rw [h2']
    cases h3 : (s.scsi.state == .f2s3) with
    | false => rfl
    | true =>
        cases hb : s.fifo.boeq3 with
        | true =>
            have e : s.fifo.bytePtr = 3 := eq_of_beq hb
            rw [e]
            change ((Ring.window _ _ ((s.period q).stored + 1)).flatMap Longword.bytes).drop 4 = _
            rw [Ring.window_cons, List.flatMap_cons]
            rfl
        | false =>
            change _ = ((Ring.window _ _ (s.period q).stored).flatMap Longword.bytes).drop
              (s.fifo.bytePtr + 1).toNat
            rw [Fifo.toNat_bytePtr_succ hb]
            rfl

end Flow

end Filling

end Chip

namespace System

/-! ## §3 What memory supplies -/

/-- A session that fills the FIFO, with its stream. -/
structure Loading (x : System) : Prop where
  coupled : Coupled x
  filling : Chip.Filling x.chip
  /-- The bridge latch holds the word that goes with a latched `_DSACK`. -/
  latch : x.chip.cpu.state.strobing = true → x.term.isDsack = true →
    x.chip.path.inUdLatch = x.data.upper
  stream : x.read = x.given ++ x.chip.waiting

section Supply

variable {x : System} {q : Period} (hL : Loading x) (hq : BusRules x q) (hd : DataRules x q)
include hL

theorem Loading.cpu2s (hl : x.chip.cpu.state.loadsLow = true) :
    x.chip.scsi.out.cpu2s = false := by
  refine (hL.coupled.closed ?_ ?_).2 <;> revert hl <;>
    cases x.chip.cpu.state <;> intro hl <;> first | rfl | exact Bool.noConfusion hl

include hq

theorem Loading.dsack (hst : x.chip.cpu.state.strobing = true)
    (hk : (x.chip.cpuIn q).dsack = true) : (x.chip.cpuIn q).ndsack1 = false := by
  have ha := hL.coupled.answered hq hst
  exact (ha.port (ha.dsack.symm.trans hk)).2.1

include hd

theorem Loading.latch_step (hst : (x.step q).chip.cpu.state.strobing = true)
    (ht : (x.step q).term.isDsack = true) :
    (x.step q).chip.path.inUdLatch = (x.step q).data.upper := by
  have h := hL.coupled.live hq
  have hp : (x.chip.cpuOut q).pas = true := (hL.coupled.step_pas hq).trans hst
  have hpds : (x.chip.cpuOut q).pds = true := CpuSm.pds_of_pas hL.filling.writing.cpu hp
  have ha' : (x.chip.period q).asO_ = false := by rw [Chip.period_asO_ h, hp]; rfl
  have ha : x.chip.asO_ = false := by
    refine Bool.eq_false_iff.mpr fun ha => ?_
    have e : (x.step q).term = .wait := by simp [System.step, ha]
    rw [e] at ht
    exact Bool.noConfusion ht
  have et : (x.step q).term = q.sclkFall.term := by simp [System.step, ha, ha']
  rw [et] at ht
  refine (Chip.period_inUdLatch h).trans ?_
  rw [hpds, if_pos rfl, hd.latch ha ha' ht]
  rfl

omit hd in
/-- Between two cycles an odd word may go from the bridge latch into the entry. -/
theorem Loading.half_of_idle (hs : Chip.InSession x.chip q)
    (hst : x.chip.cpu.state.strobing = false) :
    x.chip.half ++ x.chip.read q =
      (if (x.chip.cpuComb q).intIncfifo then (x.chip.loaded q).bytes else []).drop
        (if x.chip.oddStart then 2 else 0) ++ (x.chip.period q).half := by
  have h := hL.coupled.live hq
  have hW := hL.filling.writing
  have hhalf := Chip.period_half h
  have hdir : (x.chip.cpuIn q).dmadir = false := by
    rw [Chip.cpuIn_eq h, Registers.dmadir, hW.ndmadir]
    rfl
  obtain ⟨hi, hsec, hbri, hns, hnb⟩ := CpuSm.fill_idle_spec hst hW.cpu hdir
  have hread : x.chip.read q = [] := by
    rw [Chip.read, Chip.endsCycle_eq h, hL.coupled.asO_, hst]
    rfl
  rw [hread, List.append_nil, show (x.chip.cpuComb q).intIncfifo = _ from hi]
  cases hb : x.chip.cpu.state.bridging with
  | true =>
      obtain ⟨hp, ⟨hn, he⟩ | ⟨hn, he⟩⟩ := hbri hb
      · have hl : (x.chip.period q).path.inUdLatch = x.chip.path.inUdLatch := by
          rw [Chip.period_inUdLatch h, show (x.chip.cpuOut q).pds = false from hp]
          rfl
        have h34 : (x.chip.cpu.state == .s34) = false := by rw [he]; rfl
        rw [h34, if_neg Bool.false_ne_true, List.drop_nil, hhalf, hn, hl, Chip.half, he]
        rfl
      · -- `s34` puts the bridged word into the lower half
        have ho : x.chip.oddStart = true := by
          rw [Chip.oddStart, he]
          exact Bool.or_true _
        rw [hhalf, hn, ho, Chip.half, Chip.loaded, he]
        rfl
  | false =>
      have h34 : (x.chip.cpu.state == .s34) = false := by
        revert hb
        cases x.chip.cpu.state <;> intro hb <;> first | rfl | exact Bool.noConfusion hb
      rw [h34, if_neg Bool.false_ne_true, List.drop_nil, List.nil_append]
      cases hs2 : x.chip.cpu.state.second with
      | true =>
          have hn := hsec hs2
          rw [hL.filling.period_half_of_second hL.cpu2s hs (by rw [hn]; rfl),
            Chip.loaded_upper (CpuSm.State.excl_of_second hs2).1, Chip.half, hs2]
          rfl
      | false =>
          rw [hhalf, hns hs2, hnb hb, Chip.half, hs2, hb]
          rfl

omit hd in
/-- The port that answered is still there when the cycle ends. -/
theorem Loading.term_of_ends (hst : x.chip.cpu.state.strobing = true)
    (hk : q.clk90Rise.term.isSterm = true ∨ x.term.isDsack = true) :
    q.clk90Rise.term = q.sclkFall.term := by
  have hC := hL.coupled
  have hO : x.chip.asO_ = false := by rw [hC.asO_, hst]; rfl
  obtain ⟨-, -, -, e | e⟩ := hq.answers hO
  · rcases hk with hk | hk
    · rw [e] at hk
      exact Bool.noConfusion hk
    · rw [← ((hC.answered hq hst).port hk).1, e] at hk
      exact Bool.noConfusion hk
  · exact e.symm

omit hd in
/-- What a cycle takes in when it ends. -/
theorem Loading.read_at_end (he : x.chip.endsCycle q = true)
    (hon : (CpuSm.nextState (x.chip.cpuIn q) x.chip.cpu.state).onBus = true) :
    (x.chip.atSclkFall q).rw q.sclkFall = true ∧
      x.chip.read q =
        if q.sclkFall.term.isNarrow || (x.chip.cpuComb q).bridgein then q.sclkFall.data.upper.bytes
        else if (x.chip.cpuComb q).size1 then q.sclkFall.data.lower.bytes
        else q.sclkFall.data.bytes := by
  have h := hL.coupled.live hq
  have hrw : (x.chip.atSclkFall q).rw q.sclkFall = true := by
    rw [Chip.atSclkFall_rw h (Chip.cpuOut_bgack.trans hon), hL.filling.writing.ndmadir]
  refine ⟨hrw, ?_⟩
  rw [Chip.read, he, hrw, Chip.atSclkFall_cpu_out h]
  rfl

/-- A cycle that ends finds its answer and its data as `CPU_SM` read them. -/
theorem Loading.read_of_ends (hst : x.chip.cpu.state.strobing = true)
    (hp : (x.chip.cpuComb q).pas = false)
    (hk : q.clk90Rise.term.isSterm = true ∨ x.term.isDsack = true)
    (hon : (CpuSm.nextState (x.chip.cpuIn q) x.chip.cpu.state).onBus = true) :
    x.chip.read q =
      if q.clk90Rise.term.isNarrow || (x.chip.cpuComb q).bridgein then
        q.clk90Rise.data.upper.bytes
      else if (x.chip.cpuComb q).size1 then q.clk90Rise.data.lower.bytes
      else q.clk90Rise.data.bytes := by
  have hO : x.chip.asO_ = false := by rw [hL.coupled.asO_, hst]; rfl
  have he : x.chip.endsCycle q = true := by
    rw [Chip.endsCycle_eq (hL.coupled.live hq), hO, show (x.chip.cpuOut q).pas = false from hp]
    rfl
  have hda : q.sclkFall.data = q.clk90Rise.data := by
    rcases hk with hk | hk
    · exact hd.sterm hO hk
    · obtain ⟨e1, e2⟩ := hd.held hO hk
      rw [e1, e2]
  rw [(hL.read_at_end hq he hon).2, hda, hL.term_of_ends hq hst hk]

/-- A cycle that ends puts what it reads into the entry or into the bridge latch. -/
theorem Loading.half_of_strobing (hs : Chip.InSession x.chip q)
    (hst : x.chip.cpu.state.strobing = true) :
    x.chip.half ++ x.chip.read q =
      (if (x.chip.cpuComb q).intIncfifo then (x.chip.loaded q).bytes else []).drop
        (if x.chip.oddStart then 2 else 0) ++ (x.chip.period q).half := by
  have hC := hL.coupled
  have hF := hL.filling
  have h := hC.live hq
  have hO : x.chip.asO_ = false := by rw [hC.asO_, hst]; rfl
  have hhalf := Chip.period_half h
  have hsecond := hF.period_half_of_second hL.cpu2s hs
  have hread := fun hp hk hon => hL.read_of_ends hq hd hst hp hk hon
  have hh : x.chip.half = if x.chip.cpu.state.second then
      (x.chip.fifo.buffer x.chip.fifo.writePtr).upper.bytes else [] := by
    rw [Chip.half, CpuSm.State.not_bridging_of_strobing hst]
    rfl
  -- a wait state, an aligned longword, the two words of a 16-bit port, the two odd words
  rcases CpuSm.fill_spec (hC.answered hq hst) hst hF.writing.cpu with
    ⟨hp, hi, hsec, -, hnb, -⟩ | ⟨hp, hk, ⟨hw, hnar, hbr, hsz, hi, hn⟩ | ⟨he, hnar, hi, hn⟩ |
      ⟨he, hds, hbr, hi, hn⟩ | ⟨he, hnar, hbr, hsz, hi, hn⟩ | ⟨he, hnar, hds, hpd, hi, hn⟩⟩
  · have hnone : x.chip.read q = [] := by
      rw [Chip.read, Chip.endsCycle_eq h, show (x.chip.cpuOut q).pas = true from hp,
        Bool.not_true, Bool.and_false]
      rfl
    rw [hnone, show (x.chip.cpuComb q).intIncfifo = false from hi, if_neg Bool.false_ne_true,
      List.drop_nil, List.nil_append, List.append_nil, hh]
    cases hs2 : x.chip.cpu.state.second with
    | true =>
        rw [hsecond (hsec.trans hs2), Chip.loaded_upper (CpuSm.State.excl_of_second hs2).1]
        rfl
    | false => rw [hhalf, hsec, hs2, hnb]; rfl
  · obtain ⟨hdl, hs2, -, hodd, hbeg⟩ := CpuSm.State.excl_of_wide hw
    have ho : x.chip.oddStart = false := by
      rw [Chip.oddStart, hF.begun hbeg, hodd]
      rfl
    rw [hread hp hk (by rw [hn]; rfl), hnar, show (x.chip.cpuComb q).bridgein = false from hbr,
      show (x.chip.cpuComb q).size1 = false from hsz,
      show (x.chip.cpuComb q).intIncfifo = true from hi, ho, hhalf, hn, hh, hs2, Chip.loaded, hw,
      hdl]
    exact (List.append_nil _).symm
  · rw [hread hp hk (by rw [hn]; rfl), hnar, show (x.chip.cpuComb q).intIncfifo = false from hi,
      if_neg Bool.false_ne_true, List.drop_nil, hsecond (by rw [hn]; rfl), hh, he, Chip.loaded, he]
    rfl
  · have ho : x.chip.oddStart = false := by
      rw [Chip.oddStart, hF.begun (by rw [he]; rfl), he]
      rfl
    have hl : x.chip.path.inUdLatch = q.clk90Rise.data.upper := by
      rw [hL.latch hst hds, (hd.held hO hds).1]
    rw [hread hp hk (by rw [hn]; rfl), show (x.chip.cpuComb q).bridgein = true from hbr,
      Bool.or_true, if_pos rfl, show (x.chip.cpuComb q).intIncfifo = true from hi, ho, hhalf, hn,
      hh, he, Chip.loaded, he, hl]
    rfl
  · have ho : x.chip.oddStart = true := by
      rcases he with he | he <;> rw [Chip.oddStart, he] <;> exact Bool.or_true _
    rw [hread hp hk (by rw [hn]; rfl), hnar, show (x.chip.cpuComb q).bridgein = false from hbr,
      show (x.chip.cpuComb q).size1 = true from hsz,
      show (x.chip.cpuComb q).intIncfifo = true from hi, ho, hhalf, hn, hh, Chip.loaded]
    rcases he with he | he <;> rw [he] <;> rfl
  · have hl : (x.chip.period q).path.inUdLatch = q.clk90Rise.data.upper := by
      rw [Chip.period_inUdLatch h, show (x.chip.cpuOut q).pds = false from hpd,
        if_neg Bool.false_ne_true, hL.latch hst hds, (hd.held hO hds).1]
    rw [hread hp hk (by rw [hn]; rfl), hnar, show (x.chip.cpuComb q).intIncfifo = false from hi,
      if_neg Bool.false_ne_true, List.drop_nil, hhalf, hn, hl, hh, he]
    rfl

/-- What a cycle reads goes into the entry, and what does not complete it is kept. -/
theorem Loading.half_eq (hs : Chip.InSession x.chip q) :
    x.chip.half ++ x.chip.read q =
      (if (x.chip.cpuComb q).intIncfifo then (x.chip.loaded q).bytes else []).drop
        (if x.chip.oddStart then 2 else 0) ++ (x.chip.period q).half := by
  cases hst : x.chip.cpu.state.strobing with
  | false => exact hL.half_of_idle hq hs hst
  | true => exact hL.half_of_strobing hq hd hs hst

/-! ## §4 The stream -/

theorem Loading.step (hs : Chip.InSession x.chip q) (hn : Chip.NoFlush x.chip q) :
    Loading (x.step q) where
  coupled := hL.coupled.step hq
  filling := hL.filling.step hs (hL.dsack hq) hn
  latch := hL.latch_step hq hd
  stream := by
    have hflow := hL.filling.flow_eq hs hL.cpu2s
    have hhalf := hL.half_eq hq hd hs
    change x.read ++ x.chip.read q = (x.given ++ x.chip.given q) ++ (x.chip.period q).waiting
    rw [hL.stream, Chip.waiting, Chip.waiting, List.append_assoc, List.append_assoc, hhalf,
      ← List.append_assoc (List.drop _ _), hflow]
    simp only [List.append_assoc]

end Supply

/-- A period of a session that fills the FIFO, without a flush. -/
def Supplying (x : System) (q : Period) : Prop :=
  BusRules x q ∧ DataRules x q ∧ Chip.InSession x.chip q ∧ Chip.NoFlush x.chip q

instance (x : System) (q : Period) : Decidable (Supplying x q) :=
  inferInstanceAs (Decidable (_ ∧ _ ∧ _ ∧ _))

theorem Start.loading {x : System} (hx : Start x) (hd : x.chip.regs.ndmadir = true) :
    Loading x := by
  have hs := hx.dma
  have hW := hs.writing hd
  have hst : x.chip.stored = 0 := by
    rw [Chip.stored, Chip.unsent, hs.level]
    rcases hs.cpu_state with e | e <;> rw [e] <;> exact Nat.zero_sub _
  have hodd : x.chip.oddStart = x.chip.regs.a1 := by
    rw [Chip.oddStart]
    rcases hs.cpu_state with e | e <;> rw [e] <;> exact Bool.or_false _
  have hg : x.chip.scsi.state.giving = false := by
    rcases hs.scsi_state with e | e <;> rw [e] <;> rfl
  -- `s0` and `s20` are in no part of a fill
  have hcpu : x.chip.cpu.state.strobing = false ∧ x.chip.cpu.state.begun = false ∧
      x.chip.cpu.state.wide = false ∧ x.chip.cpu.state.loadsLow = false ∧
      x.chip.cpu.state.direct = false ∧ x.chip.cpu.state.latched = false ∧
      x.chip.cpu.state.second = false ∧ x.chip.cpu.state.bridging = false := by
    rcases hs.cpu_state with e | e <;> rw [e] <;> exact ⟨rfl, rfl, rfl, rfl, rfl, rfl, rfl, rfl⟩
  obtain ⟨c1, c2, c3, c4, c5, c6, c7, c8⟩ := hcpu
  exact
    { coupled := hx.coupled
      filling :=
        { writing := hW
          quiet := hx.quiet
          armed :=
            { lhw := by rw [hs.lhw, c3]
              llw := by rw [hs.llw, c4]
              dieh := fun h => by rw [c3] at h; exact Bool.noConfusion h
              diel := fun h => by rw [c5] at h; exact Bool.noConfusion h
              bridgein := fun h => by rw [c6] at h; exact Bool.noConfusion h
              s2f := by rw [hs.scsi_out]
              rstFifo := by rw [hs.cpu_out] }
          begun := fun h => by rw [c2] at h; exact Bool.noConfusion h
          giving := fun h => by rw [hg] at h; exact Bool.noConfusion h
          odd := fun _ => hst
          start := fun _ => by rw [hs.bytePtr, hodd]
          strobed := by
            rw [Chip.giving, hs.scsi_out]
            rcases hs.scsi_state with e | e <;> rw [e] <;> rfl
          tx := fun h => by rw [h] at hg; exact Bool.noConfusion hg }
      latch := fun h => by rw [c1] at h; exact Bool.noConfusion h
      stream := by
        rw [hx.read, hx.given, Chip.waiting, Chip.half, hst, c7, c8]
        simp }

/-- In every session from memory to the WD33C93 in which `FLUSH` is not strobed, the
bytes driven on `PD_PORT` at the ends of the `DACK` with `IOW` strobes are the bytes that
memory supplied, each once and in order, and the rest of these is still waiting. -/
theorem write_stream_fidelity {x : System} (hx : Start x) (hd : x.chip.regs.ndmadir = true)
    {qs : List Period} (hqs : Runs.Along step Supplying x qs) :
    (Runs.run step x qs).read =
      (Runs.run step x qs).given ++ (Runs.run step x qs).chip.waiting := by
  have hrun := Runs.invariant_run (I := Loading) (fun x q hL hq => by
    obtain ⟨hb, hm, hs, hn⟩ := hq
    exact hL.step hb hm hs hn) (hx.loading hd) hqs
  exact hrun.stream

/-- A longword is requested, granted, read with `_STERM` and given away. -/
theorem write_stream_fidelity_fresh :
    let q : Period :=
      .steady { dreq_ := false, bg_ := false, sterm_ := false, data := ⟨0xDE, 0xAD, 0xBE, 0xEF⟩ }
    let qs : List Period :=
      List.replicate 3 (.steady { dreq_ := false, bg_ := false }) ++ List.replicate 26 q
    (Runs.run step (fresh true false) qs).read =
      (Runs.run step (fresh true false) qs).given ++
        (Runs.run step (fresh true false) qs).chip.waiting :=
  write_stream_fidelity (fresh_start true false) rfl (by decide +kernel)

end System

end Resdmac
