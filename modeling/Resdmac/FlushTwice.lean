import Resdmac.StopDma
import Resdmac.System

/-!
# A Second Flush

A flush of the read direction empties the FIFO, but the last word of it is written
without touching `BYTE_PTR`. `LASTWORD` is derived from `BYTE_PTR`, so the next flush finds
the same word again.

## Main definitions

- `Chip.Receiving` — what every session from the peripheral to memory keeps
- `Chip.Flushed` — no flush is pending and the bus is released
- `Chip.Untouched` — no memory cycle, and the FIFO stays as it is
- `Chip.Empty` — nothing is left in the FIFO, or on its way into it

## Main results

- `Chip.flush_again_iff` — further flushes do nothing iff the first one left nothing
-/

namespace Resdmac

namespace Chip

/-! ## §1 Sessions from the peripheral to memory -/

/-- What every period of a session from the peripheral to memory keeps, also when `COUNT`
underflows. -/
structure Receiving (s : Chip) : Prop where
  awake : s.Awake
  dmaena : s.regs.dmaena = true
  ndmadir : s.regs.ndmadir = false
  cpu : s.cpu.state.filling = false
  scsi : s.scsi.state.giving = false
  rdfifoO : s.scsi.rdfifoO = false
  counted : s.cpu.out.incfifo = true → s.scsi.rififoO = false
  request : s.scsi.rififoO = true → s.scsi.state.taking = false
  lbyte : s.scsi.lbyte_ = !(s.scsi.state == .s2f1 || s.scsi.state == .s2f2)

theorem DmaStart.receiving {s : Chip} (hs : DmaStart s) (hd : s.regs.ndmadir = false) :
    Receiving s where
  awake := hs.awake
  dmaena := hs.dmaena
  ndmadir := hd
  cpu := by rcases hs.cpu_state with e | e <;> simp [e, CpuSm.State.filling]
  scsi := by rcases hs.scsi_state with e | e <;> simp [e, ScsiSm.State.giving]
  rdfifoO := hs.rdfifoO
  counted := by simp [hs.rififoO]
  request := by simp [hs.rififoO]
  lbyte := by
    rw [ScsiSm.lbyte_, hs.scsi_out]
    rcases hs.scsi_state with e | e <;> rw [e] <;> rfl

/-- A byte is on its way out of the peripheral, or is begun at the next CLK90 edge. -/
def ByteAhead (s : Chip) : Prop :=
  s.scsi.state = .s2f1 ∨ s.scsi.state = .s2f2 ∨
    s.scsi.state = .idleDmaRd ∧ s.scsi.inp.cdreq_ = false ∧ s.fifo.full = false ∧
      s.scsi.inp.ccpureq = false ∧ s.scsi.rififoO = false

namespace Receiving

section Outputs

variable {s : Chip} {q : Period} (hR : Receiving s) (hq : q.NoReset)
include hR hq

theorem live : Live s q := ⟨hR.awake, hq⟩

theorem dmadir : (s.cpuIn q).dmadir = true := by
  rw [cpuIn_eq (hR.live hq), Registers.dmadir, hR.ndmadir]
  rfl

/-- In this direction `CPU_SM` does not reset the FIFO. -/
theorem rstFifo_eq : (s.cpuOut q).rstFifo = false := by
  refine Bool.eq_false_iff.mpr fun hc => ?_
  have hn := (CpuSm.rstFifo_spec hc).2.1
  rw [hR.dmadir hq] at hn
  exact Bool.noConfusion hn

theorem rstOut_ : s.rstOut_ q = true := by
  simp [Chip.rstOut_, hR.dmaena, hR.rstFifo_eq hq]

omit hq in
/-- A request that is pending was not acknowledged yet. -/
theorem rififoO_eq : (s.scsi.rififoO && !s.cpu.out.incfifo) = s.scsi.rififoO := by
  cases ho : s.cpu.out.incfifo with
  | false => simp
  | true => simp [hR.counted ho]

/-- A byte that is begun was ahead. -/
theorem period_taking (ht : (s.period q).scsi.state.taking = true) : ByteAhead s := by
  have h := hR.live hq
  rw [period_scsi_state h] at ht
  rcases ScsiSm.nextState_taking ht with e | e | ⟨e, hi⟩
  · exact .inl e
  · exact .inr (.inl e)
  · refine .inr (.inr ⟨e, ?_⟩)
    simpa [scsiIn_eq h, ScsiSm.Inputs.startS2f, hR.rififoO_eq, Registers.dmadir, hR.ndmadir,
      and_assoc] using hi

end Outputs

theorem step {s : Chip} {q : Period} (hR : Receiving s) (hq : InSession s q) :
    Receiving (s.period q) := by
  have h := hR.live hq.noReset
  refine ⟨period_awake h, session_dmaena h hq hR.dmaena,
    (session_ndmadir h hq).trans hR.ndmadir, ?_, ?_, ?_, ?_, ?_, ?_⟩
  · rw [period_cpu_state h]
    exact CpuSm.nextState_filling (hR.dmadir hq.noReset) hR.cpu
  · rw [period_scsi_state h]
    refine Bool.eq_false_iff.mpr fun hg => ?_
    have hs := hR.scsi
    -- no byte is given, and none is begun with `DMADIR` set
    rcases ScsiSm.nextState_giving hg with e | e | ⟨-, hi⟩
    · simp [e, ScsiSm.State.giving] at hs
    · simp [e, ScsiSm.State.giving] at hs
    · simp [scsiIn_eq h, ScsiSm.Inputs.startF2s, Registers.dmadir, hR.ndmadir] at hi
  · simp [period_rdfifoO h, scsiOut_rdfifo h, ScsiSm.State.beq_f2s3 hR.scsi, hR.rdfifoO]
  · intro ho
    rw [period_cpu_out h] at ho
    simp [period_rififoO h, ho]
  · intro hr
    refine Bool.eq_false_iff.mpr fun ht => ?_
    simp only [period_rififoO h, scsiOut_rififo h, hR.rififoO_eq, Bool.and_eq_true,
      Bool.or_eq_true, beq_iff_eq] at hr
    have hreq := hR.request
    rcases hR.period_taking hq.noReset ht with e | e | ⟨e, -, -, -, hn⟩
    · simp_all [ScsiSm.State.taking]
    · simp_all [ScsiSm.State.taking]
    · simp [e, hn] at hr
  · rw [ScsiSm.lbyte_, period_scsi_out h, period_scsi_state h, ← ScsiSm.lbyte_eq]
    rfl

end Receiving

/-! ## §2 After a flush -/

/-- No flush is pending and the bus is released. -/
structure Flushed (s : Chip) : Prop where
  flushfifo : s.regs.flushfifo = false
  state : s.cpu.state = .s0
  own : s.own = false

/-- A period of a session in which no byte is taken from the peripheral. -/
def NoByte (s : Chip) (q : Period) : Prop := InSession s q ∧ s.taken q = []

instance (s : Chip) (q : Period) : Decidable (NoByte s q) :=
  inferInstanceAs (Decidable (_ ∧ _))

/-- No memory cycle is driven, and `COUNT`, the pointers and the byte pointer stay. -/
structure Untouched (s : Chip) (q : Period) : Prop where
  idle : ¬ DrivesCycle s q
  count : (s.period q).fifo.count = s.fifo.count
  writePtr : (s.period q).fifo.writePtr = s.fifo.writePtr
  readPtr : (s.period q).fifo.readPtr = s.fifo.readPtr
  bytePtr : (s.period q).fifo.bytePtr = s.fifo.bytePtr

/-- Nothing is left in the FIFO, and nothing is on its way into it. -/
structure Empty (s : Chip) : Prop where
  level : s.fifo.level = 0
  bytePtr : s.fifo.bytePtr = 0
  rififoO : s.scsi.rififoO = false
  stepped : s.scsi.state ≠ .s2f3

section Idle

variable {s : Chip} {q : Period} (hR : Receiving s) (hq : q.NoReset)
  (hc : s.cpu.state = .s0 ∨ s.cpu.state = .s1)
include hR hq hc

theorem period_count_idle :
    (s.period q).fifo.count =
      if s.scsi.rififoO then if s.fifo.count = Fifo.max 3 then 0 else s.fifo.count + 1
      else s.fifo.count := by
  have h := hR.live hq
  obtain ⟨-, c2, c3, -⟩ := @CpuSm.fifo_of_not_onBus (s.cpuIn q) s.cpu.state
    (.inl (by rcases hc with e | e <;> rw [e] <;> rfl))
  have hdec : (s.cpuOut q).decfifo = false := by
    simp [cpuOut_decfifo h, hR.rdfifoO, show (s.cpuComb q).intDecfifo = false from c2]
  have hinc : (s.cpuOut q).incfifo = s.scsi.rififoO := by
    simp [cpuOut_incfifo h, hR.rififoO_eq, show (s.cpuComb q).intIncfifo = false from c3,
      show (s.cpuComb q).intDecfifo = false from c2]
  simp [period_count h, hR.rstOut_ hq, hdec, hinc]

omit hc in
theorem period_bytePtr_idle :
    (s.period q).fifo.bytePtr =
      if s.scsi.state = .s2f3 then s.fifo.bytePtr + 1 else s.fifo.bytePtr := by
  have hg := ScsiSm.State.beq_f2s3 hR.scsi
  simp [period_bytePtr (hR.live hq), hR.rstOut_ hq, scsiOut_incbo, hg]

/-- Without the bus, and with nothing on its way into the FIFO, nothing changes. -/
theorem untouched (hr : s.scsi.rififoO = false) (h3 : s.scsi.state ≠ .s2f3) : Untouched s q := by
  have h := hR.live hq
  have hb : s.cpu.state.onBus = false := by rcases hc with e | e <;> rw [e] <;> rfl
  obtain ⟨c1, c2, -, -⟩ := CpuSm.fifo_of_not_onBus (i := s.cpuIn q) (.inl hb)
  have hg := ScsiSm.State.beq_f2s3 hR.scsi
  refine ⟨?_, ?_, ?_, ?_, ?_⟩
  · rw [drivesCycle_iff h, Bool.not_eq_true]
    rcases hc with e | e
    · exact (CpuSm.idle_spec (.inl e)).1
    · exact (CpuSm.waiting_spec (by rw [e]; rfl)).1
  · simp [period_count_idle hR hq hc, hr]
  · simp [period_writePtr h, hR.rstOut_ hq, scsiOut_incni h, h3,
      show (s.cpuOut q).incni = false from c1]
  · simp [period_readPtr h, hR.rstOut_ hq, scsiOut_incno h, hg,
      show (s.cpuOut q).incno = false from c2]
  · simp [period_bytePtr_idle hR hq, h3]

end Idle

section NextState

variable {s : Chip} {q : Period} (hR : Receiving s) (hq : q.NoReset) (hc : s.cpu.state = .s0)
include hR hq hc

theorem period_s0 :
    (s.period q).cpu.state = .s0 ∧ (s.cpuIn q).requests .s0 = false ∨
      (s.period q).cpu.state = .s1 ∧ (s.cpuIn q).requests .s0 = true := by
  rw [period_cpu_state (hR.live hq), hc, (CpuSm.s0_spec (hR.dmadir hq)).1]
  cases (s.cpuIn q).requests .s0 <;> simp

/-- A flush with something to deliver goes on. -/
theorem period_flushfifo_s0 (hf : s.regs.flushfifo = true)
    (hl : ¬ (s.fifo.level = 0 ∧ s.fifo.bytePtr = 0)) :
    (s.period q).regs.flushfifo = true := by
  have h := hR.live hq
  have hs : (s.cpuOut q).stopflush = false := by
    refine Bool.eq_false_iff.mpr fun hs => hl ?_
    have hst : (CpuSm.comb (s.cpuIn q) .s0).stopflush = true := by
      rw [← hc]
      exact hs
    have he := (CpuSm.s0_spec (hR.dmadir hq)).2 hst
    simp [cpuIn_eq h, lastword, Fifo.empty_eq, Fifo.boeq0, hf] at he
    exact ⟨he.1, by_contra fun hb => he.2 hb he.1⟩
  simp [period_flushfifo h, hf, hs]

end NextState

/-- The byte is latched at the end of `S2F_2`. -/
theorem taken_of_s2f2 {s : Chip} {q : Period} (hR : Receiving s) (hq : InSession s q)
    (hs : s.scsi.state = .s2f2) : s.taken q ≠ [] := by
  have h := hR.live hq.noReset
  have hn : (s.period q).scsi.state = .s2f3 := by
    rw [period_scsi_state h, hs]
    rfl
  simp [taken_eq h, hR.lbyte, (hR.step hq).lbyte, hs, hn]

/-- With nothing in the FIFO a flush ends where it began. -/
theorem Empty.step {s : Chip} {q : Period} (hE : Empty s) (hR : Receiving s)
    (hc : s.cpu.state = .s0) (hq : NoByte s q) :
    Untouched s q ∧ Empty (s.period q) ∧ (s.period q).cpu.state = .s0 := by
  have h := hR.live hq.1.noReset
  have hU := untouched hR hq.1.noReset (.inl hc) hE.rififoO hE.stepped
  refine ⟨hU, ⟨?_, ?_, ?_, ?_⟩, ?_⟩
  · rw [Fifo.level, hU.count]
    exact hE.level
  · rw [hU.bytePtr]
    exact hE.bytePtr
  · simp [period_rififoO h, scsiOut_rififo h, hE.stepped, hE.rififoO]
  · -- the byte that would be stepped over next has been taken
    intro e
    have h2 : (s.scsi.state == .s2f2) = true := by
      rw [← ScsiSm.nextState_beq_s2f3 (i := s.scsiIn q), ← period_scsi_state h, e]
      rfl
    exact taken_of_s2f2 hR hq.1 (eq_of_beq h2) hq.2
  · rcases period_s0 hR hq.1.noReset hc with ⟨hs, -⟩ | ⟨-, hr⟩
    · exact hs
    · simp [cpuIn_eq h, CpuSm.Inputs.requests, lastword, Fifo.full_eq, Fifo.empty_eq, hE.level,
        Fifo.boeq0, hE.bytePtr] at hr

theorem ByteAhead.untouched {s : Chip} {q : Period} (hb : ByteAhead s) (hR : Receiving s)
    (hq : q.NoReset) (hc : s.cpu.state = .s0 ∨ s.cpu.state = .s1) : Untouched s q := by
  have hreq := hR.request
  apply Chip.untouched hR hq hc
  · rcases hb with e | e | ⟨-, -, -, -, hr⟩
    · simpa [e, ScsiSm.State.taking] using hreq
    · simpa [e, ScsiSm.State.taking] using hreq
    · exact hr
  · rcases hb with e | e | ⟨e, -⟩ <;> simp [e]

/-- While a byte is ahead there is no time for a memory cycle before it is taken. -/
theorem ByteAhead.along {s : Chip} (hb : ByteAhead s) (hR : Receiving s)
    (hc : s.cpu.state = .s0) {qs : List Period} (hqs : Runs.Along period NoByte s qs) :
    Runs.Along period Untouched s qs := by
  -- `S2F_2` ends with a byte, so at most two periods are left, and a cycle needs more
  have last : ∀ {t : Chip} {qs : List Period}, Receiving t → t.scsi.state = .s2f2 →
      Runs.Along period NoByte t qs → Runs.Along period Untouched t qs := by
    intro t qs hR hs hqs
    cases qs with
    | nil => trivial
    | cons q qs => exact absurd hqs.1.2 (taken_of_s2f2 hR hqs.1.1 hs)
  have middle : ∀ {t : Chip} {qs : List Period}, Receiving t → t.scsi.state = .s2f1 →
      (t.cpu.state = .s0 ∨ t.cpu.state = .s1) →
      Runs.Along period NoByte t qs → Runs.Along period Untouched t qs := by
    intro t qs hR hs hc hqs
    cases qs with
    | nil => trivial
    | cons q qs =>
        have hq := hqs.1.1
        have hU := ByteAhead.untouched (.inl hs) hR hq.noReset hc
        refine ⟨hU, last (hR.step hq) ?_ hqs.2⟩
        rw [period_scsi_state (hR.live hq.noReset), hs]
        rfl
  rcases hb with e | e | hb
  · exact middle hR e (.inl hc) hqs
  · exact last hR e hqs
  · cases qs with
    | nil => trivial
    | cons q qs =>
        have hq := hqs.1.1
        have hU := ByteAhead.untouched (.inr (.inr hb)) hR hq.noReset (.inl hc)
        obtain ⟨e, h1, h2, h3, h4⟩ := hb
        refine ⟨hU, middle (hR.step hq) ?_ ?_ hqs.2⟩
        · have h := hR.live hq.noReset
          simp [period_scsi_state h, scsiIn_eq h, e, ScsiSm.nextState, ScsiSm.Inputs.startS2f,
            ScsiSm.Inputs.startDmaWr, Registers.dmadir, hR.ndmadir, h1, h2, h3, h4]
        · exact (period_s0 hR hq.noReset hc).imp And.left And.left

/-! ## §3 What is left is flushed again -/

/-- The CPU strobes `FLUSH`. -/
def flushing : Period := .steady { as_ := false, cs_ := false, addr := 0x05 }

theorem flushing_flush {s : Chip} (h : Live s flushing) (hc : s.cpu.state = .s0) :
    (s.endAccess flushing).flush = true := by
  have ho : (s.atClk90Fall flushing).own = false := by
    rw [own, atClk90Fall_cpu_out h]
    exact (CpuSm.idle_spec (.inl hc)).2.1
  simp [endAccess, access, Access.flush, Access.hit, Access.valid, asI_, ho]
  decide

/-- While `DREQ` stays inactive, no byte is taken. -/
theorem noByte_of_not_byteAhead {s : Chip} {q : Period} (hR : Receiving s) (hq : InSession s q)
    (hd : q.clk135Fall.dreq_ = true) (hb : ¬ ByteAhead s) :
    NoByte s q ∧ ¬ ByteAhead (s.period q) := by
  have h := hR.live hq.noReset
  refine ⟨⟨hq, ?_⟩, ?_⟩
  · have hl : s.scsi.lbyte_ = true := by
      rw [hR.lbyte]
      simp only [ByteAhead, not_or] at hb
      simp [hb.1, hb.2.1]
    simp [taken_eq h, hl]
  · have ht := mt (hR.period_taking hq.noReset) hb
    have hi : (s.period q).scsi.inp.cdreq_ = true := by
      rw [period_scsi_inp h]
      simp [scsiClocked, dreq_, hd]
    rintro (e | e | ⟨-, hn, -⟩)
    · exact ht (by rw [e]; rfl)
    · exact ht (by rw [e]; rfl)
    · rw [hi] at hn
      exact Bool.noConfusion hn

theorem granting_inSession (s : Chip) : InSession s granting := by
  have hv : ∀ n, (s.endAccess granting).hit n = false := fun n => by
    apply Access.hit_of_not_valid
    rfl
  refine ⟨(granting_stopped s).1, ?_, ?_, hv _⟩
  · simp [Access.contrWr, Access.wr, hv]
  · simp [Access.acrWr, Access.wr, hv]

theorem flushing_inSession {s : Chip} (h : Live s flushing) (hc : s.cpu.state = .s0) :
    InSession s flushing := by
  have hf := flushing_flush h hc
  refine ⟨h.2, ?_, ?_, Access.hit_unique hf (by decide)⟩
  · rw [Access.contrWr, Access.wr, Access.hit_unique hf (by decide), Bool.false_and]
  · rw [Access.acrWr, Access.wr, Access.hit_unique hf (by decide), Bool.false_and]

theorem granting_noByte {s : Chip} (hR : Receiving s) (hb : ¬ ByteAhead s) (n : ℕ) :
    Runs.Along period NoByte s (List.replicate n granting) := by
  induction n generalizing s with
  | zero => trivial
  | succ n ih =>
      have hq := granting_inSession s
      obtain ⟨hn, hb'⟩ := noByte_of_not_byteAhead hR hq rfl hb
      exact ⟨hn, ih (hR.step hq) hb'⟩

/-- Nothing is on its way into the FIFO when a flush finds nothing to do: it would arrive
and be seen. -/
theorem Untouched.arrived {t : Chip} (hR : Receiving t) (h : Live t flushing)
    (hs : t.cpu.state = .s0) (hU : Untouched t flushing) :
    t.scsi.rififoO = false ∧ t.scsi.state ≠ .s2f3 := by
  refine ⟨Bool.eq_false_iff.mpr fun hr => ?_, fun e => ?_⟩
  · have hp := hU.count
    rw [period_count_idle hR h.2 (.inl hs), if_pos hr] at hp
    split_ifs at hp with hm
    · rw [hm] at hp
      revert hp
      decide
    · bv_omega
  · have hp := hU.bytePtr
    rw [period_bytePtr_idle hR h.2, if_pos e] at hp
    bv_omega

/-- What lies in the FIFO is asked for once more. -/
theorem Untouched.requesting {u : Chip} (hR : Receiving u) (hs : u.cpu.state = .s0)
    (hf : u.regs.flushfifo = true) (hne : ¬ (u.fifo.level = 0 ∧ u.fifo.bytePtr = 0))
    (hU : Untouched u granting) : Requesting (u.period granting) := by
  have hg := granting_inSession u
  have h := hR.live hg.noReset
  have hf2 := period_flushfifo_s0 hR hg.noReset hs hf hne
  rcases period_s0 hR hg.noReset hs with ⟨hs2, -⟩ | ⟨hs2, -⟩
  · refine .inr (.inr ⟨?_, .inl ⟨hs2, ?_, .inr ⟨?_, ?_⟩⟩⟩)
    · rw [period_cpu_inp h]
      exact hR.dmaena
    · simp [Registers.dmadir, (hR.step hg).ndmadir]
    · rw [period_cpu_inp h]
      exact hf
    · rw [← hU.bytePtr, Fifo.level, ← hU.count, ← Fifo.level] at hne
      by_cases hz : (u.period granting).fifo.level = 0
      · right
        simp [lastword, hf2, Fifo.empty_eq, hz, Fifo.boeq0]
        exact fun hb => hne ⟨hz, hb⟩
      · left
        simp [Fifo.empty_eq, hz]
  · exact .inl hs2

/-- A flush that leaves something is followed by one that asks for the bus. -/
theorem Flushed.empty {t : Chip} (hR : Receiving t) (hf : Flushed t) (hb : ¬ ByteAhead t)
    (hall : ∀ more, Runs.Along period NoByte t more → Runs.Along period Untouched t more) :
    Empty t := by
  by_contra hE
  have hl : Live t flushing := ⟨hR.awake, rfl, rfl, rfl, rfl, rfl, rfl⟩
  have hq := flushing_inSession hl hf.state
  obtain ⟨hnF, hb1⟩ := noByte_of_not_byteAhead hR hq rfl hb
  have hR1 := hR.step hq
  have hall1 : ∀ n, Runs.Along period Untouched (t.period flushing)
      (List.replicate n granting) := fun n =>
    (hall (flushing :: List.replicate n granting) ⟨hnF, granting_noByte hR1 hb1 n⟩).2
  have hU : Untouched t flushing := (hall [flushing] ⟨hnF, trivial⟩).1
  obtain ⟨hr, h3⟩ := hU.arrived hR hl hf.state
  have hne : ¬ (t.fifo.level = 0 ∧ t.fifo.bytePtr = 0) := fun hz => hE ⟨hz.1, hz.2, hr, h3⟩
  -- with the bus granted a request is answered by a memory cycle
  have hreq : ∀ {v : Chip}, Receiving v → Requesting v →
      ¬ ∀ n, Runs.Along period Untouched v (List.replicate n granting) := fun hv hr ha =>
    hr.drives hv.awake ((ha 3).mono fun _ _ hU => hU.idle)
  rcases period_s0 hR hl.2 hf.state with ⟨hs, -⟩ | ⟨hs, -⟩
  · have hfl : (t.period flushing).regs.flushfifo = true := by
      simp [period_flushfifo hl, flushing_flush hl hf.state]
    rw [← hU.bytePtr, Fifo.level, ← hU.count, ← Fifo.level] at hne
    have hU1 : Untouched (t.period flushing) granting := (hall1 1).1
    exact hreq (hR1.step (granting_inSession _)) (hU1.requesting hR1 hs hfl hne)
      fun n => (hall1 (n + 1)).2
  · exact hreq hR1 (.inl hs) hall1

/-- **Further flushes do nothing** after a flush if and only if it has left nothing in the
FIFO: no entry that `COUNT` counts or will count, and no byte that `BYTE_PTR` counts; or the
next byte is ahead of any of them. -/
theorem flush_again_iff {s : Chip} (hs : DmaStart s) (hd : s.regs.ndmadir = false)
    {qs : List Period} (h : Runs.Along period InSession s qs)
    (hf : Flushed (Runs.run period s qs)) :
    (∀ more, Runs.Along period NoByte (Runs.run period s qs) more →
      Runs.Along period Untouched (Runs.run period s qs) more) ↔
    Empty (Runs.run period s qs) ∨ ByteAhead (Runs.run period s qs) := by
  have hR : Receiving (Runs.run period s qs) :=
    Runs.invariant_run (fun t q hR hq => hR.step hq) (hs.receiving hd) h
  constructor
  · intro hall
    by_contra hn
    rw [not_or] at hn
    exact hn.1 (hf.empty hR hn.2 hall)
  · rintro (hE | hb) more hmore
    · refine Runs.along_of_invariant
        (I := fun t => Receiving t ∧ Empty t ∧ t.cpu.state = .s0) ?_ ⟨hR, hE, hf.state⟩ hmore
      rintro u q ⟨hR, hE, hc⟩ hq
      obtain ⟨hU, hE', hc'⟩ := hE.step hR hc hq
      exact ⟨hU, hR.step hq.1, hE', hc'⟩
    · exact hb.along hR hf.state hmore

/-- Four bytes are received and flushed with one memory cycle. -/
theorem flush_again_iff_fresh :
    let t := Runs.run period (fresh false false)
      ((List.replicate 4 oneByte).flatten ++ flushCycle ++ oneCycle)
    (∀ more, Runs.Along period NoByte t more → Runs.Along period Untouched t more) ↔
      Empty t ∨ ByteAhead t :=
  flush_again_iff (fresh_dmaStart false false) rfl (by decide +kernel)
    ⟨by decide +kernel, by decide +kernel, by decide +kernel⟩

end Chip

namespace System

open Chip (granting flushCycle oneByte)

/-- One byte is received and flushed, and the second `FLUSH` writes it once more. -/
theorem flush_repeats :
    ¬ ∀ x, Start x → x.chip.regs.ndmadir = false → ∀ qs,
      Runs.Along step (fun x q => BusRules x q ∧ Chip.InSession x.chip q) x qs →
      ¬ Runs.Along step (fun x q => Chip.NoFlush x.chip q) x qs →
      Chip.Flushed (Runs.run step x qs).chip → ∀ more,
        Runs.Along step (fun x q => BusRules x q ∧ Chip.NoByte x.chip q) (Runs.run step x qs)
          more →
        Runs.Along step (fun x q => ¬ Chip.DrivesCycle x.chip q) (Runs.run step x qs) more := by
  intro h
  have hd := h (fresh false false) (fresh_start false false) rfl
    (oneByte ++ flushCycle ++ List.replicate 4 granting ++ .steady { sterm_ := false } ::
      List.replicate 3 (.steady {}))
    (by decide +kernel) (by decide +kernel)
    ⟨by decide +kernel, by decide +kernel, by decide +kernel⟩
    (flushCycle ++ List.replicate 4 granting) (by decide +kernel)
  revert hd
  decide +kernel

end System

end Resdmac
