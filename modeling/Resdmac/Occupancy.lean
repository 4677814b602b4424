import Resdmac.Library.Ring
import Resdmac.Session

/-!
# The FIFO between the Two Machines

In a session one machine adds longwords to the FIFO and the other removes them, each
on its own clock edges. The two invariants of this module say how many complete
longwords lie between the pointers, which of them `COUNT` knows about, and which
steps are still on their way.

## Main definitions

- `Chip.Reading` — the invariant from the peripheral to memory
- `Chip.Writing` — the invariant from memory to the peripheral

## Main results

- `Chip.Reading.step` — kept by every period in which `COUNT` does not underflow
- `Chip.Writing.step` — kept by every period in which no request meets a FIFO reset
-/

namespace Resdmac

namespace Chip

/-! ## §1 The read direction -/

/-- The complete longwords between the pointers: the counted ones and the one that
`RIFIFO_o` has still to count. -/
def received (s : Chip) : ℕ := s.fifo.level + s.scsi.rififoO.toNat

/-- The invariant of a session from the peripheral to memory. -/
structure Reading (s : Chip) : Prop where
  awake : s.Awake
  dmaena : s.regs.dmaena = true
  ndmadir : s.regs.ndmadir = false
  cpu : s.cpu.state.filling = false
  scsi : s.scsi.state.giving = false
  rdfifoO : s.scsi.rdfifoO = false
  rstFifo : s.cpu.out.rstFifo = false
  /-- A counted request is gone. -/
  counted : s.cpu.out.incfifo = true → s.scsi.rififoO = false
  /-- No byte is taken before the last request is counted. -/
  request : s.scsi.rififoO = true → s.scsi.state.taking = false
  room : s.scsi.state.taking = true → s.fifo.level < 8
  cap : s.received ≤ 8
  ptrs : s.fifo.writePtr = s.fifo.readPtr + BitVec.ofNat 3 s.received
  lbyte : s.scsi.lbyte_ = false → s.scsi.state.taking = true
  llw : s.llw = false
  lhw : s.lhw = false

namespace Reading

section Outputs

variable {s : Chip} (hI : Reading s) (q : Period)
include hI

theorem dmadir (hq : q.NoReset) : (s.cpuIn q).dmadir = true := by
  rw [cpuIn_eq ⟨hI.awake, hq⟩, Registers.dmadir, hI.ndmadir, Bool.not_false]

/-- In the read direction `CPU_SM` neither fills the FIFO nor resets it. -/
theorem cpuComb_spec (hq : q.NoReset) :
    (s.cpuComb q).intIncfifo = false ∧ (s.cpuComb q).incni = false ∧
      (s.cpuComb q).rstFifo = false ∧ (s.cpuComb q).pllw = false ∧
      (s.cpuComb q).plhw = false := by
  have hd := hI.dmadir q hq
  have hl : (CpuSm.nextState (s.cpuIn q) s.cpu.state).loading = false := by
    refine Bool.eq_false_iff.mpr fun hl => ?_
    have hf := CpuSm.nextState_filling hd hI.cpu
    rw [CpuSm.State.filling_of_loading hl] at hf
    exact Bool.noConfusion hf
  refine ⟨Bool.eq_false_iff.mpr fun hc => ?_, ?_, Bool.eq_false_iff.mpr fun hc => ?_,
    Bool.eq_false_iff.mpr fun hc => ?_, Bool.eq_false_iff.mpr fun hc => ?_⟩
  · have hf := CpuSm.State.filling_of_loading (CpuSm.intIncfifo_spec hc).1
    rw [hI.cpu] at hf
    exact Bool.noConfusion hf
  · exact CpuSm.incni_eq.trans (CpuSm.State.beq_s35 hI.cpu)
  · have hn := (CpuSm.rstFifo_spec hc).2.1
    rw [hd] at hn
    exact Bool.noConfusion hn
  · rw [CpuSm.strobe_spec (.inl hc)] at hl
    exact Bool.noConfusion hl
  · rw [CpuSm.strobe_spec (.inr hc)] at hl
    exact Bool.noConfusion hl

theorem rstOut_ (hq : q.NoReset) : s.rstOut_ q = true := by
  have e := (hI.cpuComb_spec q hq).2.2.1
  rw [Chip.rstOut_, hI.dmaena, Bool.true_and, Bool.not_eq_true']
  exact e

theorem cpuOut_decfifo (hq : q.NoReset) :
    (s.cpuOut q).decfifo = (s.cpuComb q).intDecfifo := by
  rw [Chip.cpuOut_decfifo ⟨hI.awake, hq⟩, hI.rdfifoO, Bool.false_and, Bool.and_false,
    Bool.false_or]

theorem cpuOut_incfifo (hq : q.NoReset) :
    (s.cpuOut q).incfifo = (!(s.cpuComb q).intDecfifo && s.scsi.rififoO) := by
  rw [Chip.cpuOut_incfifo ⟨hI.awake, hq⟩, (hI.cpuComb_spec q hq).1, Bool.or_false]
  cases ho : s.cpu.out.incfifo with
  | false => simp
  | true => simp [hI.counted ho]

/-- `S2F_3` steps the byte pointer, and with the fourth byte the write pointer. -/
theorem period_bytePtr_eq (hq : q.NoReset) :
    (s.period q).fifo.bytePtr =
      if (s.scsi.state == .s2f3) then s.fifo.bytePtr + 1 else s.fifo.bytePtr := by
  have hg := ScsiSm.State.beq_f2s3 hI.scsi
  rw [period_bytePtr ⟨hI.awake, hq⟩, hI.rstOut_ q hq, if_pos rfl, scsiOut_incbo, hg,
    Bool.or_false]

theorem period_writePtr_eq (hq : q.NoReset) :
    (s.period q).fifo.writePtr =
      if (s.scsi.state == .s2f3 && s.fifo.boeq3) then s.fifo.writePtr + 1
      else s.fifo.writePtr := by
  have h : Live s q := ⟨hI.awake, hq⟩
  have hni : (s.cpuOut q).incni = false := (hI.cpuComb_spec q hq).2.1
  rw [period_writePtr h, hI.rstOut_ q hq, if_pos rfl, hni, scsiOut_incni h, Bool.false_or]

theorem scsiOut_incno (hq : q.NoReset) : (s.scsiOut q).incno = false := by
  rw [Chip.scsiOut_incno ⟨hI.awake, hq⟩, ScsiSm.State.beq_f2s3 hI.scsi, Bool.false_and]

end Outputs

section Step

variable {s : Chip} {q : Period} (hI : Reading s) (hq : InSession s q)
include hI hq

theorem period_rififoO :
    (s.period q).scsi.rififoO =
      ((s.scsi.state == .s2f3 && s.fifo.boeq3) ||
        (s.scsi.rififoO && (s.cpuComb q).intDecfifo)) := by
  have h : Live s q := ⟨hI.awake, hq.noReset⟩
  rw [Chip.period_rififoO h, hI.cpuOut_incfifo q hq.noReset, scsiOut_rififo h]
  cases hr : s.scsi.rififoO with
  | false => simp
  | true =>
      have ht := hI.request hr
      have ho : s.cpu.out.incfifo = false := by
        refine Bool.eq_false_iff.mpr fun ho => ?_
        rw [hI.counted ho] at hr
        exact Bool.noConfusion hr
      have hs := ScsiSm.State.beq_s2f3 ht
      rw [hs, ho]
      simp

theorem period_rdfifoO : (s.period q).scsi.rdfifoO = false := by
  have h : Live s q := ⟨hI.awake, hq.noReset⟩
  have hs := ScsiSm.State.beq_f2s3 hI.scsi
  rw [Chip.period_rdfifoO h, scsiOut_rdfifo h, hs, hI.rdfifoO]
  simp

theorem period_level (hu : ¬ Underflow s q) :
    (s.period q).fifo.level =
      if (s.cpuComb q).intDecfifo then s.fifo.level - 1 else s.received := by
  have h : Live s q := ⟨hI.awake, hq.noReset⟩
  have hcap := hI.cap
  unfold received at hcap ⊢
  rw [underflow_iff h, hI.cpuOut_decfifo q hq.noReset, hI.rstOut_ q hq.noReset] at hu
  rw [Chip.period_level h (by omega), hI.rstOut_ q hq.noReset, hI.cpuOut_decfifo q hq.noReset,
    hI.cpuOut_incfifo q hq.noReset]
  cases hd : (s.cpuComb q).intDecfifo with
  | true =>
      have h0 : s.fifo.level ≠ 0 := fun h0 => hu ⟨hd, h0, rfl⟩
      simp [h0]
  | false =>
      cases hr : s.scsi.rififoO with
      | false => simp
      | true =>
          have h8 : s.fifo.level ≠ 8 := by
            rw [hr, Bool.toNat_true] at hcap
            omega
          simp [h8]

/-- A byte is begun or continued only with no request pending and room in the FIFO. -/
theorem period_taking (ht : (s.period q).scsi.state.taking = true) :
    s.scsi.state ≠ .s2f3 ∧ s.scsi.rififoO = false ∧ s.fifo.level < 8 := by
  have h : Live s q := ⟨hI.awake, hq.noReset⟩
  have hroom := hI.room
  have hreq : s.scsi.state.taking = true → s.scsi.rififoO = false := fun ht =>
    Bool.eq_false_iff.mpr fun hr => by
      rw [hI.request hr] at ht
      exact Bool.noConfusion ht
  rw [period_scsi_state h] at ht
  rcases ScsiSm.nextState_taking ht with hs | hs | ⟨hs, hi⟩
  · rw [hs] at hroom hreq ⊢
    exact ⟨by decide, hreq rfl, hroom rfl⟩
  · rw [hs] at hroom hreq ⊢
    exact ⟨by decide, hreq rfl, hroom rfl⟩
  · -- `START_S2F` tests `FIFOFULL`, and waits for the request of the byte before
    rw [scsiIn_eq h, ScsiSm.Inputs.startS2f, Fifo.full_eq] at hi
    simp only [Bool.and_eq_true, Bool.not_eq_true', decide_eq_false_iff_not] at hi
    obtain ⟨⟨⟨⟨-, h8⟩, -⟩, -⟩, hr⟩ := hi
    have hcap := hI.cap
    unfold received at hcap
    refine ⟨by rw [hs]; decide, ?_, by omega⟩
    cases ho : s.cpu.out.incfifo with
    | false => simpa [ho] using hr
    | true => exact hI.counted ho

theorem intDecfifo_spec (hu : ¬ Underflow s q) (hd : (s.cpuComb q).intDecfifo = true) :
    1 ≤ s.fifo.level := by
  rw [underflow_iff ⟨hI.awake, hq.noReset⟩, hI.cpuOut_decfifo q hq.noReset,
    hI.rstOut_ q hq.noReset] at hu
  by_contra h0
  exact hu ⟨hd, by omega, rfl⟩

omit hq in
/-- A new request finds no request pending and room in the FIFO. -/
theorem request_spec (hr : (s.scsi.state == .s2f3 && s.fifo.boeq3) = true) :
    s.scsi.rififoO = false ∧ s.fifo.level < 8 := by
  have hs : s.scsi.state = .s2f3 := eq_of_beq (Bool.and_eq_true_iff.mp hr).1
  have hroom := hI.room
  have hreq := hI.request
  rw [hs] at hroom hreq
  refine ⟨Bool.eq_false_iff.mpr fun hr => ?_, hroom rfl⟩
  exact Bool.noConfusion (hreq hr)

/-- The longwords between the pointers change by what the two machines add and take. -/
theorem period_received (hu : ¬ Underflow s q) :
    (s.period q).received + (s.cpuComb q).intDecfifo.toNat =
      s.received + (s.scsi.state == .s2f3 && s.fifo.boeq3).toNat := by
  have hnew := hI.request_spec
  have hdec := hI.intDecfifo_spec hq hu
  rw [received, hI.period_level hq hu, hI.period_rififoO hq]
  unfold received
  cases hr : (s.scsi.state == .s2f3 && s.fifo.boeq3) with
  | true =>
      obtain ⟨hn, -⟩ := hnew hr
      cases hd : (s.cpuComb q).intDecfifo with
      | true =>
          have h1 := hdec hd
          simp only [hn, if_true, Bool.true_or, Bool.toNat_true, Bool.toNat_false]
          omega
      | false => simp [hn]
  | false =>
      cases hd : (s.cpuComb q).intDecfifo with
      | true =>
          have h1 := hdec hd
          simp only [if_true, Bool.false_or, Bool.and_true, Bool.toNat_true, Bool.toNat_false]
          omega
      | false => simp

end Step

/-- The invariant is kept by every period that does not underflow `COUNT`. -/
theorem step {s : Chip} {q : Period} (hI : Reading s) (hq : InSession s q)
    (hu : ¬ Underflow s q) : Reading (s.period q) := by
  have h : Live s q := ⟨hI.awake, hq.noReset⟩
  have hc := hI.cpuComb_spec q hq.noReset
  have hcap := hI.cap
  have hrec := hI.period_received hq hu
  exact
    { awake := period_awake h
      dmaena := session_dmaena h hq hI.dmaena
      ndmadir := (session_ndmadir h hq).trans hI.ndmadir
      cpu := by
        rw [period_cpu_state h]
        exact CpuSm.nextState_filling (hI.dmadir q hq.noReset) hI.cpu
      scsi := by
        rw [period_scsi_state h]
        refine Bool.eq_false_iff.mpr fun hg => ?_
        have hs := hI.scsi
        rcases ScsiSm.nextState_giving hg with e | e | ⟨-, hi⟩
        · rw [e] at hs
          exact Bool.noConfusion hs
        · rw [e] at hs
          exact Bool.noConfusion hs
        · rw [scsiIn_eq h, ScsiSm.Inputs.startF2s, Registers.dmadir, hI.ndmadir] at hi
          simp at hi
      rdfifoO := hI.period_rdfifoO hq
      rstFifo := by rw [period_cpu_out h]; exact hc.2.2.1
      counted := by
        intro ho
        rw [period_cpu_out h] at ho
        rw [Chip.period_rififoO h, ho]
        rfl
      request := by
        -- a byte begins with no step up pending, and not in the clock that asks for one
        intro hr
        refine Bool.eq_false_iff.mpr fun ht => ?_
        obtain ⟨hs, hn, -⟩ := hI.period_taking hq ht
        rw [hI.period_rififoO hq, hn, beq_eq_false_iff_ne.mpr hs] at hr
        exact Bool.noConfusion hr
      room := by
        intro ht
        obtain ⟨-, hn, h8⟩ := hI.period_taking hq ht
        rw [hI.period_level hq hu, received, hn, Bool.toNat_false]
        split_ifs <;> omega
      cap := by
        cases hr : (s.scsi.state == .s2f3 && s.fifo.boeq3) with
        | true =>
            obtain ⟨hn, h8⟩ := hI.request_spec hr
            have e : s.received = s.fifo.level + s.scsi.rififoO.toNat := rfl
            rw [hn, Bool.toNat_false] at e
            rw [hr, Bool.toNat_true] at hrec
            omega
        | false =>
            rw [hr, Bool.toNat_false] at hrec
            omega
      ptrs := by
        -- `WRITE_PTR` steps with the byte that asks for the step up, `READ_PTR` with the step down
        have hp := hI.ptrs
        have hno := hI.scsiOut_incno q hq.noReset
        have hnc : (s.cpuOut q).incno = (s.cpuComb q).intDecfifo := rfl
        rw [hI.period_writePtr_eq q hq.noReset, period_readPtr h, hI.rstOut_ q hq.noReset, hno,
          Bool.or_false, hnc, if_pos rfl]
        exact Ring.ptr_step hp hrec
      lbyte := by
        intro hl
        rw [ScsiSm.lbyte_, period_scsi_out h, Bool.not_eq_false', Bool.and_eq_true] at hl
        rw [period_scsi_state h]
        rcases ScsiSm.lbyte_spec hl with e | e <;> rw [e] <;> rfl
      llw := by rw [period_llw h]; exact hc.2.2.2.1
      lhw := by rw [period_lhw h]; exact hc.2.2.2.2 }

end Reading

/-! ## §2 The write direction -/

/-- The complete longwords between the pointers: without the one that `RDFIFO_o` has
still to take from `COUNT` and the one that `s35` has still to step over. -/
def unsent (s : Chip) : ℕ :=
  s.fifo.level - (s.scsi.rdfifoO.toNat + (s.cpu.state == .s35).toNat)

/-- `CPU_SM` is about to reset the FIFO for a flush in `s20` while `SCSI_SM` is about to
ask for a step down. -/
def ResetRace (s : Chip) : Prop :=
  s.cpu.state = .s20 ∧ s.cpu.inp.flushfifo = true ∧ s.cpu.inp.dmaena = true ∧
    s.cpu.inp.dreq_ = true ∧ s.fifo.empty = false ∧ s.scsi.state = .f2s3 ∧ s.fifo.boeq3 = true

instance (s : Chip) : Decidable (ResetRace s) :=
  inferInstanceAs (Decidable (_ ∧ _ ∧ _ ∧ _ ∧ _ ∧ _ ∧ _))

/-- The invariant of a session from memory to the peripheral. -/
structure Writing (s : Chip) : Prop where
  awake : s.Awake
  dmaena : s.regs.dmaena = true
  ndmadir : s.regs.ndmadir = true
  cpu : s.cpu.state.draining = false
  scsi : s.scsi.state.taking = false
  rififoO : s.scsi.rififoO = false
  /-- A counted request is gone. -/
  counted : s.cpu.out.decfifo = true → s.scsi.rdfifoO = false
  /-- No byte is sent before the last request is counted. -/
  request : s.scsi.rdfifoO = true → s.scsi.state.giving = false
  /-- A byte is sent from a complete longword, unless the FIFO was reset meanwhile. -/
  supply : s.scsi.state.giving = true → 1 ≤ s.unsent ∨ s.fifo.boeq3 = false
  room : s.cpu.state.loading = true ∨ s.cpu.state = .s21 → s.fifo.level < 8
  cap : s.fifo.level ≤ 8
  owed : s.scsi.rdfifoO.toNat + (s.cpu.state == .s35).toNat ≤ s.fifo.level
  ptrs : s.fifo.writePtr = s.fifo.readPtr + BitVec.ofNat 3 s.unsent
  lbyte : s.scsi.lbyte_ = true
  strobe : s.llw = true ∨ s.lhw = true → s.cpu.state.loading = true

namespace Writing

theorem unsent_le {s : Chip} (hI : Writing s) : s.unsent ≤ 8 := (Nat.sub_le ..).trans hI.cap

section Outputs

variable {s : Chip} (hI : Writing s) (q : Period)
include hI

/-- In the write direction `CPU_SM` does not drain the FIFO. -/
theorem intDecfifo : (s.cpuComb q).intDecfifo = false := by
  refine Bool.eq_false_iff.mpr fun hc => ?_
  have hf := CpuSm.State.draining_of_delivering (CpuSm.intDecfifo_spec hc).1
  rw [hI.cpu] at hf
  exact Bool.noConfusion hf

theorem cpuOut_decfifo (hq : q.NoReset) :
    (s.cpuOut q).decfifo = (!(s.cpuComb q).intIncfifo && s.scsi.rdfifoO) := by
  rw [Chip.cpuOut_decfifo ⟨hI.awake, hq⟩, hI.intDecfifo q, Bool.or_false]
  cases ho : s.cpu.out.decfifo with
  | false => simp
  | true => simp [hI.counted ho]

theorem cpuOut_incfifo (hq : q.NoReset) :
    (s.cpuOut q).incfifo = (s.cpuComb q).intIncfifo := by
  rw [Chip.cpuOut_incfifo ⟨hI.awake, hq⟩, hI.rififoO, Bool.false_and, Bool.and_false,
    Bool.false_or]

theorem scsiOut_incni (hq : q.NoReset) : (s.scsiOut q).incni = false := by
  rw [Chip.scsiOut_incni ⟨hI.awake, hq⟩, ScsiSm.State.beq_s2f3 hI.scsi, Bool.false_and]

/-- A step up finds room. -/
theorem intIncfifo_spec (hc : (s.cpuComb q).intIncfifo = true) : s.fifo.level < 8 :=
  hI.room (.inl (CpuSm.intIncfifo_spec hc).1)

omit hI in
/-- The FIFO is reset only from `s20`, which then stays. -/
theorem rstFifo_spec (hr : (s.cpuOut q).rstFifo = true) :
    s.cpu.state = .s20 ∧ CpuSm.nextState (s.cpuIn q) s.cpu.state = .s20 ∧
      (s.cpuComb q).intIncfifo = false := by
  obtain ⟨hs, hd, he, -⟩ := CpuSm.rstFifo_spec hr
  refine ⟨hs, ?_, ?_⟩
  · rw [hs]
    simp [CpuSm.nextState, hd, he]
  · refine Bool.eq_false_iff.mpr fun hc => ?_
    have hl := (CpuSm.intIncfifo_spec hc).1
    rw [hs] at hl
    exact Bool.noConfusion hl

theorem resetRace (hq : q.NoReset) (hr : (s.cpuOut q).rstFifo = true)
    (hn : (s.scsi.state == .f2s3 && s.fifo.boeq3) = true) : ResetRace s := by
  obtain ⟨hs, -, he, hf, hd, hq'⟩ := CpuSm.rstFifo_spec hr
  rw [cpuIn_eq ⟨hI.awake, hq⟩] at he hf hd hq'
  obtain ⟨h1, h2⟩ := Bool.and_eq_true_iff.mp hn
  exact ⟨hs, hf, hd, hq', he, eq_of_beq h1, h2⟩

end Outputs

section Step

variable {s : Chip} {q : Period} (hI : Writing s) (hq : InSession s q)
include hI hq

theorem period_rififoO : (s.period q).scsi.rififoO = false := by
  have h : Live s q := ⟨hI.awake, hq.noReset⟩
  have hs := ScsiSm.State.beq_s2f3 hI.scsi
  rw [Chip.period_rififoO h, scsiOut_rififo h, hs, hI.rififoO]
  simp

theorem period_taking : (s.period q).scsi.state.taking = false := by
  have h : Live s q := ⟨hI.awake, hq.noReset⟩
  rw [period_scsi_state h]
  refine Bool.eq_false_iff.mpr fun hg => ?_
  have hs := hI.scsi
  rcases ScsiSm.nextState_taking hg with e | e | ⟨-, hi⟩
  · rw [e] at hs
    exact Bool.noConfusion hs
  · rw [e] at hs
    exact Bool.noConfusion hs
  · rw [scsiIn_eq h, ScsiSm.Inputs.startS2f, Registers.dmadir, hI.ndmadir] at hi
    simp at hi

theorem period_lbyte : (s.period q).scsi.lbyte_ = true := by
  have h : Live s q := ⟨hI.awake, hq.noReset⟩
  have ht := hI.period_taking hq
  rw [ScsiSm.lbyte_, period_scsi_out h, Bool.not_eq_true', Bool.eq_false_iff]
  intro hl
  rw [period_scsi_state h] at ht
  rcases ScsiSm.lbyte_spec (Bool.and_eq_true_iff.mp hl) with e | e <;>
    rw [e] at ht <;> exact Bool.noConfusion ht

theorem period_rdfifoO :
    (s.period q).scsi.rdfifoO =
      ((s.scsi.state == .f2s3 && s.fifo.boeq3) ||
        (s.scsi.rdfifoO && (s.cpuComb q).intIncfifo)) := by
  have h : Live s q := ⟨hI.awake, hq.noReset⟩
  rw [Chip.period_rdfifoO h, hI.cpuOut_decfifo q hq.noReset, scsiOut_rdfifo h]
  cases hr : s.scsi.rdfifoO with
  | false => simp
  | true =>
      have ht := hI.request hr
      have ho : s.cpu.out.decfifo = false := by
        refine Bool.eq_false_iff.mpr fun ho => ?_
        rw [hI.counted ho] at hr
        exact Bool.noConfusion hr
      have hs := ScsiSm.State.beq_f2s3 ht
      rw [hs, ho]
      simp

omit hq in
theorem rstOut_eq : s.rstOut_ q = !(s.cpuOut q).rstFifo := by
  rw [Chip.rstOut_, hI.dmaena, Bool.true_and]

/-- `F2S_3` steps the byte pointer. -/
theorem period_bytePtr_eq (hr : (s.cpuOut q).rstFifo = false) :
    (s.period q).fifo.bytePtr =
      if (s.scsi.state == .f2s3) then s.fifo.bytePtr + 1 else s.fifo.bytePtr := by
  have ht := ScsiSm.State.beq_s2f3 hI.scsi
  rw [period_bytePtr ⟨hI.awake, hq.noReset⟩, hI.rstOut_eq, hr, Bool.not_false, if_pos rfl,
    scsiOut_incbo, ht, Bool.false_or]

/-- The last byte of a longword steps the read pointer. -/
theorem period_readPtr_eq (hr : (s.cpuOut q).rstFifo = false) :
    (s.period q).fifo.readPtr =
      if (s.scsi.state == .f2s3 && s.fifo.boeq3) then s.fifo.readPtr + 1
      else s.fifo.readPtr := by
  have h : Live s q := ⟨hI.awake, hq.noReset⟩
  have hnc : (s.cpuOut q).incno = false := hI.intDecfifo q
  rw [period_readPtr h, hI.rstOut_eq, hr, Bool.not_false, if_pos rfl, hnc, scsiOut_incno h,
    Bool.false_or]

/-- `s35` steps the write pointer. -/
theorem period_writePtr_eq (hr : (s.cpuOut q).rstFifo = false) :
    (s.period q).fifo.writePtr =
      if (s.cpu.state == .s35) then s.fifo.writePtr + 1 else s.fifo.writePtr := by
  have hno := hI.scsiOut_incni q hq.noReset
  rw [period_writePtr ⟨hI.awake, hq.noReset⟩, hI.rstOut_eq, hr, Bool.not_false, if_pos rfl, hno,
    Bool.or_false, cpuOut_incni]

theorem not_underflow : ¬ Underflow s q := by
  rw [underflow_iff ⟨hI.awake, hq.noReset⟩, hI.cpuOut_decfifo q hq.noReset]
  rintro ⟨hd, h0, -⟩
  have ho := hI.owed
  rw [h0, (Bool.and_eq_true_iff.mp hd).2, Bool.toNat_true] at ho
  omega

/-- The level follows the two machines as long as the FIFO is not reset. -/
theorem period_level (hr : (s.cpuOut q).rstFifo = false) :
    (s.period q).fifo.level + (s.scsi.rdfifoO && !(s.cpuComb q).intIncfifo).toNat =
      s.fifo.level + (s.cpuComb q).intIncfifo.toNat := by
  have h : Live s q := ⟨hI.awake, hq.noReset⟩
  have ho := hI.owed
  rw [Chip.period_level h hI.cap, hI.rstOut_eq, hr, hI.cpuOut_decfifo q hq.noReset,
    hI.cpuOut_incfifo q hq.noReset]
  cases hc : (s.cpuComb q).intIncfifo with
  | true =>
      have h8 := hI.intIncfifo_spec q hc
      have hn : s.fifo.level ≠ 8 := by omega
      simp [hn]
  | false =>
      cases hd : s.scsi.rdfifoO with
      | true =>
          rw [hd, Bool.toNat_true] at ho
          have hn : s.fifo.level ≠ 0 := by omega
          simp [hn]
          omega
      | false => simp

omit hq in
/-- A new request finds no request pending and a longword to take. -/
theorem request_spec (hr : (s.scsi.state == .f2s3 && s.fifo.boeq3) = true) :
    s.scsi.rdfifoO = false ∧ 1 ≤ s.unsent := by
  obtain ⟨hs, hb⟩ := Bool.and_eq_true_iff.mp hr
  have hreq := hI.request
  have hsup := hI.supply
  rw [eq_of_beq hs] at hreq hsup
  refine ⟨Bool.eq_false_iff.mpr fun hr => Bool.noConfusion (hreq hr), ?_⟩
  rcases hsup rfl with h1 | h1
  · exact h1
  · rw [hb] at h1
    exact Bool.noConfusion h1

theorem period_s35 : ((s.period q).cpu.state == .s35) = (s.cpuComb q).intIncfifo := by
  rw [period_cpu_state ⟨hI.awake, hq.noReset⟩]
  exact CpuSm.nextState_beq_s35

/-- The longwords between the pointers change by what the two machines add and take. -/
theorem period_unsent (hr : (s.cpuOut q).rstFifo = false) :
    (s.period q).unsent + (s.scsi.state == .f2s3 && s.fifo.boeq3).toNat =
      s.unsent + (s.cpu.state == .s35).toNat ∧
    (s.period q).scsi.rdfifoO.toNat + ((s.period q).cpu.state == .s35).toNat ≤
      (s.period q).fifo.level := by
  have hl := hI.period_level hq hr
  have ho := hI.owed
  have hnew := hI.request_spec
  rw [unsent, hI.period_rdfifoO hq, hI.period_s35 hq]
  unfold unsent at hnew ⊢
  cases hn : (s.scsi.state == .f2s3 && s.fifo.boeq3) with
  | true =>
      obtain ⟨hd, h1⟩ := hnew hn
      rw [hd] at hl h1 ho ⊢
      cases hc : (s.cpuComb q).intIncfifo <;> rw [hc] at hl <;>
        simp only [Bool.toNat_true, Bool.toNat_false, Bool.true_or, Bool.false_and] at * <;> omega
  | false =>
      cases hd : s.scsi.rdfifoO <;> cases hc : (s.cpuComb q).intIncfifo <;>
        rw [hd, hc] at hl <;> rw [hd] at ho <;>
        simp only [Bool.toNat_true, Bool.toNat_false, Bool.false_or, Bool.and_true, Bool.and_false,
          Bool.not_true, Bool.not_false] at * <;> omega

/-- A byte is begun only with no request pending and a longword to send. -/
theorem period_giving (ht : (s.period q).scsi.state.giving = true) :
    (s.scsi.state == .f2s3) = false ∧ s.scsi.rdfifoO = false ∧
      (s.scsi.state.giving = true ∨ 1 ≤ s.fifo.level) := by
  have h : Live s q := ⟨hI.awake, hq.noReset⟩
  have hreq : s.scsi.state.giving = true → s.scsi.rdfifoO = false := fun ht =>
    Bool.eq_false_iff.mpr fun hr => by
      rw [hI.request hr] at ht
      exact Bool.noConfusion ht
  rw [period_scsi_state h] at ht
  rcases ScsiSm.nextState_giving ht with hs | hs | ⟨hs, hi⟩
  · rw [hs] at hreq ⊢
    exact ⟨rfl, hreq rfl, .inl rfl⟩
  · rw [hs] at hreq ⊢
    exact ⟨rfl, hreq rfl, .inl rfl⟩
  · -- `START_F2S` tests `FIFOEMPTY`, and waits for the request of the byte before
    rw [scsiIn_eq h, ScsiSm.Inputs.startF2s, Fifo.empty_eq] at hi
    simp only [Bool.and_eq_true, Bool.not_eq_true', decide_eq_false_iff_not] at hi
    obtain ⟨⟨⟨⟨-, h0⟩, -⟩, -⟩, hr⟩ := hi
    refine ⟨by rw [hs]; rfl, ?_, .inr (by omega)⟩
    cases ho : s.cpu.out.decfifo with
    | false => simpa [ho] using hr
    | true => exact hI.counted ho

theorem period_boeq3 (hr : (s.cpuOut q).rstFifo = true ∨ (s.scsi.state == .f2s3) = false)
    (hb : (s.cpuOut q).rstFifo = true ∨ s.fifo.boeq3 = false) :
    (s.period q).fifo.boeq3 = false := by
  have h : Live s q := ⟨hI.awake, hq.noReset⟩
  rw [Fifo.boeq3, period_bytePtr h, hI.rstOut_eq]
  cases hf : (s.cpuOut q).rstFifo with
  | true => cases s.regs.a1 <;> rfl
  | false =>
      simp only [hf, Bool.false_eq_true, false_or] at hr hb
      have hs := ScsiSm.State.beq_s2f3 hI.scsi
      rw [scsiOut_incbo, hs, hr]
      exact hb

theorem period_level_le : (s.period q).fifo.level ≤ 8 := by
  have h : Live s q := ⟨hI.awake, hq.noReset⟩
  cases hr : (s.cpuOut q).rstFifo with
  | true => simp [Chip.period_level h hI.cap, hI.rstOut_eq, hr]
  | false =>
      have hl := hI.period_level hq hr
      have hcap := hI.cap
      cases hc : (s.cpuComb q).intIncfifo with
      | true =>
          have h8 := hI.intIncfifo_spec q hc
          rw [hc, Bool.toNat_true] at hl
          omega
      | false =>
          rw [hc, Bool.toNat_false] at hl
          omega

theorem period_room
    (hl : (s.period q).cpu.state.loading = true ∨ (s.period q).cpu.state = .s21) :
    (s.period q).fifo.level < 8 := by
  have h : Live s q := ⟨hI.awake, hq.noReset⟩
  have hcap := hI.cap
  have hroom := hI.room
  have hlow : s.fifo.level < 8 := by
    rw [period_cpu_state h] at hl
    rcases hl with hl | hl
    · rcases CpuSm.nextState_loading hl with hs | hs | ⟨-, hf⟩
      · exact hroom (.inl hs)
      · exact hroom (.inr hs)
      · -- `s35` goes on only if the FIFO is not full
        rw [cpuIn_eq h, Fifo.full_eq, decide_eq_false_iff_not] at hf
        omega
    · rcases CpuSm.nextState_eq_s21 hl with hs | ⟨-, he⟩
      · exact hroom (.inr hs)
      · rw [cpuIn_eq h, Fifo.empty_eq, decide_eq_true_iff] at he
        omega
  have hc : (s.cpuComb q).intIncfifo = false := by
    have hs := hI.period_s35 hq
    refine Bool.eq_false_iff.mpr fun hc => ?_
    rw [hc] at hs
    rw [eq_of_beq hs] at hl
    rcases hl with hl | hl <;> cases hl
  cases hr : (s.cpuOut q).rstFifo with
  | true => simp [Chip.period_level h hI.cap, hI.rstOut_eq, hr]
  | false =>
      have hl := hI.period_level hq hr
      rw [hc, Bool.toNat_false] at hl
      omega

end Step

/-- The invariant is kept by every period in which no request meets a reset. -/
theorem step {s : Chip} {q : Period} (hI : Writing s) (hq : InSession s q)
    (hz : ¬ ResetRace s) : Writing (s.period q) := by
  have h : Live s q := ⟨hI.awake, hq.noReset⟩
  -- a reset without a race leaves both pointers and all counts at zero
  have hreset : (s.cpuOut q).rstFifo = true →
      (s.period q).fifo.level = 0 ∧ (s.period q).scsi.rdfifoO = false ∧
        ((s.period q).cpu.state == .s35) = false := by
    intro hr
    obtain ⟨-, -, hc⟩ := rstFifo_spec q hr
    have hn : (s.scsi.state == .f2s3 && s.fifo.boeq3) = false :=
      Bool.eq_false_iff.mpr fun hn => hz (hI.resetRace q hq.noReset hr hn)
    refine ⟨?_, ?_, ?_⟩
    · simp [Chip.period_level h hI.cap, hI.rstOut_eq, hr]
    · rw [hI.period_rdfifoO hq, hn, hc, Bool.and_false, Bool.or_false]
    · rw [hI.period_s35 hq, hc]
  exact
    { awake := period_awake h
      dmaena := session_dmaena h hq hI.dmaena
      ndmadir := (session_ndmadir h hq).trans hI.ndmadir
      cpu := by
        rw [period_cpu_state h]
        refine CpuSm.nextState_draining ?_ hI.cpu
        rw [cpuIn_eq h, Registers.dmadir, hI.ndmadir, Bool.not_true]
      scsi := hI.period_taking hq
      rififoO := hI.period_rififoO hq
      counted := by
        intro ho
        rw [period_cpu_out h] at ho
        rw [Chip.period_rdfifoO h, ho]
        rfl
      request := by
        intro hr
        refine Bool.eq_false_iff.mpr fun ht => ?_
        obtain ⟨hs, hn, -⟩ := hI.period_giving hq ht
        rw [hI.period_rdfifoO hq, hn, hs] at hr
        exact Bool.noConfusion hr
      supply := by
        intro ht
        obtain ⟨hs, hn, hg⟩ := hI.period_giving hq ht
        cases hr : (s.cpuOut q).rstFifo with
        | true => exact .inr (hI.period_boeq3 hq (.inl hr) (.inl hr))
        | false =>
            have hu := (hI.period_unsent hq hr).1
            rw [hs, Bool.false_and, Bool.toNat_false] at hu
            rcases hg with hg | hg
            · rcases hI.supply hg with h1 | h1
              · exact .inl (by omega)
              · exact .inr (hI.period_boeq3 hq (.inr hs) (.inr h1))
            · have ho := hI.owed
              have e : s.unsent = s.fifo.level -
                  (s.scsi.rdfifoO.toNat + (s.cpu.state == .s35).toNat) := rfl
              rw [hn, Bool.toNat_false] at e ho
              exact .inl (by omega)
      room := hI.period_room hq
      cap := hI.period_level_le hq
      owed := by
        cases hr : (s.cpuOut q).rstFifo with
        | true =>
            obtain ⟨hl, hd, hs⟩ := hreset hr
            rw [hl, hd, hs]
            exact le_refl 0
        | false => exact (hI.period_unsent hq hr).2
      ptrs := by
        have hp := hI.ptrs
        have hno := hI.scsiOut_incni q hq.noReset
        have hnc : (s.cpuOut q).incno = false := hI.intDecfifo q
        rw [period_writePtr h, period_readPtr h, hI.rstOut_eq, hno, Bool.or_false, hnc,
          Bool.false_or, cpuOut_incni, scsiOut_incno h]
        cases hr : (s.cpuOut q).rstFifo with
        | true =>
            obtain ⟨hl, -, -⟩ := hreset hr
            simp [unsent, hl]
        | false => exact Ring.ptr_step hp (hI.period_unsent hq hr).1
      lbyte := hI.period_lbyte hq
      strobe := by
        intro hl
        rw [period_llw h, period_lhw h] at hl
        rw [period_cpu_state h]
        exact CpuSm.strobe_spec hl }

end Writing

/-! ## §3 The start of a session -/

namespace DmaStart

variable {s : Chip} (hs : DmaStart s)
include hs

theorem level : s.fifo.level = 0 := (Fifo.count_eq_zero_iff _).mp hs.count

theorem reading (hd : s.regs.ndmadir = false) : Reading s := by
  have hc : s.cpu.state.filling = false := by rcases hs.cpu_state with e | e <;> rw [e] <;> rfl
  have hg : s.scsi.state.giving = false := by rcases hs.scsi_state with e | e <;> rw [e] <;> rfl
  have hr : s.received = 0 := by rw [received, hs.level, hs.rififoO]; rfl
  exact
    { awake := hs.awake
      dmaena := hs.dmaena
      ndmadir := hd
      cpu := hc
      scsi := hg
      rdfifoO := hs.rdfifoO
      rstFifo := by rw [hs.cpu_out]
      counted := fun _ => hs.rififoO
      request := fun hr => by rw [hs.rififoO] at hr; exact Bool.noConfusion hr
      room := fun _ => by rw [hs.level]; decide
      cap := by rw [hr]; decide
      ptrs := by rw [hr, hs.writePtr, hs.readPtr]; rfl
      lbyte := fun hl => by
        rw [ScsiSm.lbyte_, hs.scsi_out] at hl
        exact Bool.noConfusion hl
      llw := hs.llw
      lhw := hs.lhw }

theorem writing (hd : s.regs.ndmadir = true) : Writing s := by
  have hc : s.cpu.state.draining = false := by rcases hs.cpu_state with e | e <;> rw [e] <;> rfl
  have hg : s.scsi.state.giving = false := by rcases hs.scsi_state with e | e <;> rw [e] <;> rfl
  have ht : s.scsi.state.taking = false := by rcases hs.scsi_state with e | e <;> rw [e] <;> rfl
  have h35 : (s.cpu.state == .s35) = false := by rcases hs.cpu_state with e | e <;> rw [e] <;> rfl
  have hr : s.unsent = 0 := by rw [unsent, hs.level]; exact Nat.zero_sub _
  exact
    { awake := hs.awake
      dmaena := hs.dmaena
      ndmadir := hd
      cpu := hc
      scsi := ht
      rififoO := hs.rififoO
      counted := fun _ => hs.rdfifoO
      request := fun hr => by rw [hs.rdfifoO] at hr; exact Bool.noConfusion hr
      supply := fun hg' => by rw [hg] at hg'; exact Bool.noConfusion hg'
      room := fun _ => by rw [hs.level]; decide
      cap := by rw [hs.level]; decide
      owed := by rw [hs.rdfifoO, h35]; exact Nat.zero_le _
      ptrs := by rw [hr, hs.writePtr, hs.readPtr]; rfl
      lbyte := by rw [ScsiSm.lbyte_, hs.scsi_out]; rfl
      strobe := fun hl => by
        rw [hs.llw, hs.lhw] at hl
        rcases hl with hl | hl <;> exact Bool.noConfusion hl }

end DmaStart

end Chip

end Resdmac
