import Resdmac.WriteStream

/-!
# A Flush of the Write Direction

From memory to the WD33C93 a flush throws the FIFO away: `s20` resets it as soon as it
samples `DREQ` inactive, and clears `FLUSHFIFO` when `COUNT` is zero. `DREQ` says nothing
about a byte that `SCSI_SM` has begun, which goes on to step the byte pointer, and with it
perhaps `COUNT`, in the FIFO that was just reset.

## Main definitions

- `Chip.Spoils` — the FIFO is reset under a byte that has still to step it
- `Chip.Purging` — what holds of the FIFO as long as no reset is spoiled
- `Chip.Clean` — the reset state of the FIFO

## Main results

- `Chip.flush_leaves_clean` — without a spoiled reset, a flush ends with a clean FIFO, which
  stays so until the next longword is stored
-/

namespace Resdmac

namespace Chip

/-! ## §1 Resets -/

/-- `CPU_SM` is about to reset the FIFO. -/
def ResetsFifo (s : Chip) : Prop :=
  s.cpu.state = .s20 ∧ s.cpu.inp.flushfifo = true ∧ s.cpu.inp.dmaena = true ∧
    s.cpu.inp.dreq_ = true ∧ s.fifo.empty = false

/-- The FIFO is reset while `SCSI_SM` has a byte of it before the step of the byte pointer,
or begins one, or has a longword to take from `COUNT`. -/
def Spoils (s : Chip) : Prop :=
  s.ResetsFifo ∧
    (s.scsi.state = .f2s1 ∨ s.scsi.state = .f2s2 ∨ s.scsi.state = .f2s3 ∧ s.fifo.boeq3 = true ∨
      s.scsi.state = .idleDmaWr ∧ s.scsi.inp.cdreq_ = false ∧ s.scsi.inp.ccpureq = false ∧
        s.scsi.rdfifoO = false)

instance (s : Chip) : Decidable s.ResetsFifo :=
  inferInstanceAs (Decidable (_ ∧ _ ∧ _ ∧ _ ∧ _))

instance (s : Chip) : Decidable s.Spoils :=
  inferInstanceAs (Decidable (_ ∧ (_ ∨ _ ∨ _ ∨ _)))

theorem ResetRace.spoils {s : Chip} (h : ResetRace s) : s.Spoils := by
  obtain ⟨h1, h2, h3, h4, h5, h6, h7⟩ := h
  exact ⟨⟨h1, h2, h3, h4, h5⟩, .inr (.inr (.inl ⟨h6, h7⟩))⟩

section Reset

variable {s : Chip} {q : Period} (hI : Writing s) (hq : InSession s q)
include hI hq

theorem Writing.resetsFifo (hr : (s.cpuOut q).rstFifo = true) : s.ResetsFifo := by
  obtain ⟨h1, -, h3, h4, h5, h6⟩ := CpuSm.rstFifo_spec hr
  rw [cpuIn_eq ⟨hI.awake, hq.noReset⟩] at h3 h4 h5 h6
  exact ⟨h1, h4, h5, h6, h3⟩

/-- After a reset that is not spoiled no byte is on its way. -/
theorem Writing.not_giving_of_reset (hz : ¬ s.Spoils) (hr : (s.cpuOut q).rstFifo = true) :
    (s.period q).scsi.state.giving = false := by
  have h : Live s q := ⟨hI.awake, hq.noReset⟩
  refine Bool.eq_false_iff.mpr fun hg => hz ⟨hI.resetsFifo hq hr, ?_⟩
  obtain ⟨-, hn, -⟩ := hI.period_giving hq hg
  rw [period_scsi_state h] at hg
  rcases ScsiSm.nextState_giving hg with e | e | ⟨e, hi⟩
  · exact .inl e
  · exact .inr (.inl e)
  · -- a byte that begins in this very clock
    refine .inr (.inr (.inr ⟨e, ?_⟩))
    simp [scsiIn_eq h, ScsiSm.Inputs.startF2s] at hi
    exact ⟨hi.1.1.1.1, hi.1.2, hn⟩

end Reset

/-! ## §2 The FIFO between two flushes -/

/-- What holds of the FIFO as long as no reset is spoiled. -/
structure Purging (s : Chip) : Prop where
  writing : Writing s
  begun : s.cpu.state.begun = true → s.regs.a1 = false
  odd : s.oddStart = true → s.fifo.level = 0
  settled : s.scsi.rdfifoO = true → s.fifo.bytePtr = 0
  giving : s.fifo.level = 0 → s.scsi.state.giving = false
  bytePtr : s.fifo.level = 0 → s.fifo.bytePtr = if s.oddStart then 2 else 0

namespace Purging

section Step

variable {s : Chip} {q : Period} (hP : Purging s) (hq : InSession s q)
include hP hq

theorem period_bytePtr :
    (s.period q).fifo.bytePtr =
      if (s.cpuOut q).rstFifo then if s.regs.a1 then 2 else 0
      else if s.scsi.state == .f2s3 then s.fifo.bytePtr + 1 else s.fifo.bytePtr := by
  have hs := ScsiSm.State.beq_s2f3 hP.writing.scsi
  rw [Chip.period_bytePtr ⟨hP.writing.awake, hq.noReset⟩, hP.writing.rstOut_eq, scsiOut_incbo, hs,
    Bool.false_or]
  cases (s.cpuOut q).rstFifo <;> rfl

omit hq in
/-- With an empty FIFO nothing is owed to `COUNT`. -/
theorem rdfifoO_of_empty (h0 : s.fifo.level = 0) : s.scsi.rdfifoO = false := by
  have ho := hP.writing.owed
  cases hr : s.scsi.rdfifoO with
  | false => rfl
  | true =>
      rw [h0, hr, Bool.toNat_true] at ho
      omega

/-- `COUNT` becomes zero by a reset, by the last step down, or it was zero. -/
theorem level_cases (h0 : (s.period q).fifo.level = 0) :
    (s.cpuOut q).rstFifo = true ∨
      (s.cpuOut q).rstFifo = false ∧ (s.cpuComb q).intIncfifo = false ∧
        (s.fifo.level = 0 ∨ s.fifo.level ≠ 0 ∧ s.scsi.rdfifoO = true) := by
  cases hr : (s.cpuOut q).rstFifo with
  | true => exact .inl rfl
  | false =>
      have hl := hP.writing.period_level hq hr
      -- a step up leaves `COUNT` above zero
      have hi : (s.cpuComb q).intIncfifo = false := by
        refine Bool.eq_false_iff.mpr fun hi => ?_
        rw [h0, hi] at hl
        simp at hl
      refine .inr ⟨rfl, hi, ?_⟩
      by_cases hz : s.fifo.level = 0
      · exact .inl hz
      · rw [h0, hi] at hl
        refine .inr ⟨hz, ?_⟩
        cases hd : s.scsi.rdfifoO with
        | true => rfl
        | false =>
            rw [hd] at hl
            simp at hl
            omega

theorem period_odd (ho : (s.period q).oddStart = true) : (s.period q).fifo.level = 0 := by
  have h : Live s q := ⟨hP.writing.awake, hq.noReset⟩
  cases hi : (s.cpuComb q).intIncfifo with
  | true =>
      rw [hP.writing.period_oddStart_of_inc hq hP.begun hi] at ho
      exact Bool.noConfusion ho
  | false =>
      rw [hP.writing.period_oddStart_eq hq hP.begun hi] at ho
      have h0 := hP.odd ho
      cases hr : (s.cpuOut q).rstFifo with
      | true => simp [Chip.period_level h hP.writing.cap, hP.writing.rstOut_eq, hr]
      | false =>
          have hl := hP.writing.period_level hq hr
          rw [h0, hi, Bool.toNat_false] at hl
          omega

/-- The byte pointer wraps with the byte that asks for the step down. -/
theorem period_settled (hz : ¬ s.Spoils) (hd : (s.period q).scsi.rdfifoO = true) :
    (s.period q).fifo.bytePtr = 0 := by
  rw [hP.writing.period_rdfifoO hq, Bool.or_eq_true, Bool.and_eq_true, Bool.and_eq_true] at hd
  -- with a reset the request would be one that `Spoils` excludes, or it is cleared
  have hr : (s.cpuOut q).rstFifo = false := by
    refine Bool.eq_false_iff.mpr fun hr => ?_
    rcases hd with ⟨h1, h2⟩ | ⟨-, hi⟩
    · exact hz ⟨hP.writing.resetsFifo hq hr, .inr (.inr (.inl ⟨eq_of_beq h1, h2⟩))⟩
    · rw [(Writing.rstFifo_spec q hr).2.2] at hi
      exact Bool.noConfusion hi
  rw [hP.period_bytePtr hq, hr, if_neg Bool.false_ne_true]
  rcases hd with ⟨h1, h2⟩ | ⟨h1, -⟩
  · have e : s.fifo.bytePtr = 3 := eq_of_beq h2
    rw [h1, if_pos rfl, e]
    rfl
  · rw [ScsiSm.State.beq_f2s3 (hP.writing.request h1), if_neg Bool.false_ne_true]
    exact hP.settled h1

/-- With `COUNT` at zero no byte is being given, and the byte pointer is where a reset
leaves it. -/
theorem period_clean (hz : ¬ s.Spoils) (h0 : (s.period q).fifo.level = 0) :
    (s.period q).scsi.state.giving = false ∧
      (s.period q).fifo.bytePtr = if (s.period q).oddStart then 2 else 0 := by
  have hW := hP.writing
  rw [hP.period_bytePtr hq]
  rcases hP.level_cases hq h0 with hr | ⟨hr, hi, hl⟩
  · obtain ⟨hs, -, hi⟩ := Writing.rstFifo_spec q hr
    refine ⟨hW.not_giving_of_reset hq hz hr, ?_⟩
    rw [hr, if_pos rfl, hW.period_oddStart_eq hq hP.begun hi, oddStart, hs]
    cases s.regs.a1 <;> rfl
  · rw [hr, if_neg Bool.false_ne_true, hW.period_oddStart_eq hq hP.begun hi]
    -- a byte begins with `COUNT` above zero and no step down pending only
    have hgive : s.scsi.state.giving = false ∧ (s.period q).scsi.state.giving = false := by
      refine ⟨?_, Bool.eq_false_iff.mpr fun hg => ?_⟩
      · rcases hl with hl | ⟨-, hd⟩
        · exact hP.giving hl
        · exact hW.request hd
      · obtain ⟨-, hd, hn⟩ := hW.period_giving hq hg
        rcases hl with hl | ⟨-, hd'⟩
        · rcases hn with hn | hn
          · rw [hP.giving hl] at hn
            exact Bool.noConfusion hn
          · omega
        · exact Bool.noConfusion (hd.symm.trans hd')
    refine ⟨hgive.2, ?_⟩
    rw [ScsiSm.State.beq_f2s3 hgive.1, if_neg Bool.false_ne_true]
    rcases hl with hl | ⟨hl, hd⟩
    · exact hP.bytePtr hl
    · -- the last longword was given, so a first word is no longer waited for
      have ho : s.oddStart = false := Bool.eq_false_iff.mpr fun ho => hl (hP.odd ho)
      rw [hP.settled hd, ho]
      rfl

theorem step (hz : ¬ s.Spoils) : Purging (s.period q) where
  writing := hP.writing.step hq fun hr => hz hr.spoils
  begun := hP.writing.begun_step hq hP.begun
  odd := hP.period_odd hq
  settled := hP.period_settled hq hz
  giving h0 := (hP.period_clean hq hz h0).1
  bytePtr h0 := (hP.period_clean hq hz h0).2

end Step

end Purging

theorem DmaStart.purging {s : Chip} (hs : DmaStart s) (hd : s.regs.ndmadir = true) :
    Purging s := by
  have hst : s.cpu.state.begun = false ∧ s.cpu.state.odd = false := by
    rcases hs.cpu_state with e | e <;> rw [e] <;> exact ⟨rfl, rfl⟩
  exact
    { writing := hs.writing hd
      begun := fun h => by rw [hst.1] at h; exact Bool.noConfusion h
      odd := fun _ => hs.level
      settled := fun h => by rw [hs.rdfifoO] at h; exact Bool.noConfusion h
      giving := fun _ => by rcases hs.scsi_state with e | e <;> rw [e] <;> rfl
      bytePtr := fun _ => by rw [hs.bytePtr, oddStart, hst.2, Bool.or_false] }

/-! ## §3 The end of a flush -/

/-- The reset state of the FIFO, with nothing on its way. -/
structure Clean (s : Chip) : Prop where
  count : s.fifo.count = 0
  ptrs : s.fifo.readPtr = s.fifo.writePtr
  bytePtr : s.fifo.bytePtr = if s.regs.a1 then 2 else 0
  rdfifoO : s.scsi.rdfifoO = false
  decfifo : s.cpu.out.decfifo = false

/-- `COUNT` and the pointers of `t` are those of `s`, and nothing is on its way. -/
structure SameFifo (s t : Chip) : Prop where
  count : t.fifo.count = s.fifo.count
  readPtr : t.fifo.readPtr = s.fifo.readPtr
  writePtr : t.fifo.writePtr = s.fifo.writePtr
  bytePtr : t.fifo.bytePtr = s.fifo.bytePtr
  rdfifoO : t.scsi.rdfifoO = false
  decfifo : t.cpu.out.decfifo = false

/-- `CPU_SM` stores a longword. -/
def Stores (s : Chip) (q : Period) : Prop := (s.cpuComb q).intIncfifo = true

instance (s : Chip) (q : Period) : Decidable (Stores s q) := inferInstanceAs (Decidable (_ = _))

/-- An empty FIFO changes only when a longword is stored. -/
theorem Purging.sameFifo_step {s : Chip} {q : Period} (hP : Purging s) (hq : InSession s q)
    (h0 : s.fifo.level = 0) (h35 : s.cpu.state ≠ .s35) (hn : ¬ Stores s q) :
    SameFifo s (s.period q) ∧ (s.period q).fifo.level = 0 ∧ (s.period q).cpu.state ≠ .s35 := by
  have h : Live s q := ⟨hP.writing.awake, hq.noReset⟩
  have hi : (s.cpuComb q).intIncfifo = false := Bool.eq_false_iff.mpr hn
  -- `s20` resets a FIFO only that is not empty
  have hr : (s.cpuOut q).rstFifo = false := by
    refine Bool.eq_false_iff.mpr fun hr => ?_
    have he := (hP.writing.resetsFifo hq hr).2.2.2.2
    rw [Fifo.empty_eq, h0] at he
    simp at he
  have hd := hP.rdfifoO_of_empty h0
  have hg := ScsiSm.State.beq_f2s3 (hP.giving h0)
  have hl : (s.period q).fifo.level = 0 := by
    have hl := hP.writing.period_level hq hr
    rw [h0, hi, Bool.toNat_false] at hl
    omega
  have h35' : (s.cpu.state == .s35) = false := beq_eq_false_iff_ne.mpr h35
  refine ⟨⟨?_, ?_, ?_, ?_, ?_, ?_⟩, hl, fun e => ?_⟩
  · rw [(Fifo.count_eq_zero_iff _).mpr hl, (Fifo.count_eq_zero_iff _).mpr h0]
  · simp [hP.writing.period_readPtr_eq hq hr, hg]
  · simp [hP.writing.period_writePtr_eq hq hr, h35']
  · simp [hP.period_bytePtr hq, hr, hg]
  · simp [hP.writing.period_rdfifoO hq, hg, hd]
  · rw [period_cpu_out h, hP.writing.cpuOut_decfifo q hq.noReset, hd, Bool.and_false]
  · rw [period_cpu_state h] at e
    exact hn (CpuSm.nextState_eq_s35 e)

/-- A period of a session in which no reset of the FIFO is spoiled. -/
def Unspoiled (s : Chip) (q : Period) : Prop := InSession s q ∧ ¬ s.Spoils

instance (s : Chip) (q : Period) : Decidable (Unspoiled s q) :=
  inferInstanceAs (Decidable (_ ∧ _))

namespace Purging

variable {s : Chip} (hP : Purging s)
include hP

/-- A session that fills the FIFO ends a flush in `s20`, with nothing in the FIFO. -/
theorem flush_ends {q : Period} (hq : InSession s q) (hf : s.regs.flushfifo = true)
    (hc : (s.period q).regs.flushfifo = false) :
    s.cpu.state = .s20 ∧ s.fifo.level = 0 ∧
      ((s.period q).cpu.state = .s20 ∨ (s.period q).cpu.state = .s21) := by
  have h : Live s q := ⟨hP.writing.awake, hq.noReset⟩
  -- only `STOPFLUSH` clears `FLUSHFIFO`, and this direction puts it out in `s20` alone
  have hst : (s.cpuOut q).stopflush = true := by
    rw [period_flushfifo h, hf] at hc
    split_ifs at hc with h1 h2
    exact h2
  have hdir : (s.cpuIn q).dmadir = false := by
    simp [cpuIn_eq h, Registers.dmadir, hP.writing.ndmadir]
  obtain ⟨h20, he, hn⟩ := CpuSm.stopflush_spec_filling hdir hP.writing.cpu hst
  rw [cpuIn_eq h, Fifo.empty_eq] at he
  rw [← period_cpu_state h] at hn
  exact ⟨h20, of_decide_eq_true he, hn⟩

/-- An empty FIFO with nothing on its way is in its reset state. -/
theorem clean (h0 : s.fifo.level = 0) (hodd : s.cpu.state.odd = false)
    (hr : s.scsi.rdfifoO = false) (hd : s.cpu.out.decfifo = false) : Clean s where
  count := (Fifo.count_eq_zero_iff _).mpr h0
  ptrs := by
    have hp := hP.writing.ptrs
    rw [unsent, h0, Nat.zero_sub] at hp
    rw [hp]
    exact (BitVec.add_zero _).symm
  bytePtr := by
    have hb := hP.bytePtr h0
    rw [oddStart, hodd, Bool.or_false] at hb
    exact hb
  rdfifoO := hr
  decfifo := hd

/-- An empty FIFO stays as it is until a longword is stored. -/
theorem sameFifo_run (h0 : s.fifo.level = 0) (h35 : s.cpu.state ≠ .s35)
    (hr : s.scsi.rdfifoO = false) (hd : s.cpu.out.decfifo = false) {more : List Period}
    (hmore : Runs.Along period (fun t p => Unspoiled t p ∧ ¬ Stores t p) s more) :
    SameFifo s (Runs.run period s more) := by
  have hrun := Runs.invariant_run
    (I := fun u => Purging u ∧ u.fifo.level = 0 ∧ u.cpu.state ≠ .s35 ∧ SameFifo s u) ?_
    ⟨hP, h0, h35, rfl, rfl, rfl, rfl, hr, hd⟩ hmore
  · exact hrun.2.2.2
  rintro u p ⟨hP, h0, h35, hS⟩ ⟨hp, hn⟩
  obtain ⟨hS', h0', h35'⟩ := hP.sameFifo_step hp.1 h0 h35 hn
  exact ⟨hP.step hp.1 hp.2, h0', h35', hS'.count.trans hS.count, hS'.readPtr.trans hS.readPtr,
    hS'.writePtr.trans hS.writePtr, hS'.bytePtr.trans hS.bytePtr, hS'.rdfifoO, hS'.decfifo⟩

end Purging

/-- **A flush leaves a clean FIFO**: in every session from memory to the WD33C93 in which no
reset of the FIFO is spoiled, the FIFO is in its reset state when `FLUSHFIFO` is cleared, and
it stays as it is until `CPU_SM` stores a longword. -/
theorem flush_leaves_clean {s : Chip} (hs : DmaStart s) (hd : s.regs.ndmadir = true)
    {qs : List Period} {q : Period} (hqs : Runs.Along period Unspoiled s (qs ++ [q]))
    (hf : (Runs.run period s qs).regs.flushfifo = true)
    (hc : ((Runs.run period s qs).period q).regs.flushfifo = false) :
    Clean ((Runs.run period s qs).period q) ∧
      ∀ more, Runs.Along period (fun t p => Unspoiled t p ∧ ¬ Stores t p)
          ((Runs.run period s qs).period q) more →
        SameFifo ((Runs.run period s qs).period q)
          (Runs.run period ((Runs.run period s qs).period q) more) := by
  rw [Runs.along_append] at hqs
  have hP : Purging (Runs.run period s qs) :=
    Runs.invariant_run (fun t p hP hp => hP.step hp.1 hp.2) (hs.purging hd) hqs.1
  have hq : Unspoiled (Runs.run period s qs) q := hqs.2.1
  obtain ⟨h20, h0, hn⟩ := hP.flush_ends hq.1 hf hc
  have hns : ¬ Stores (Runs.run period s qs) q := fun hs => by
    have hl := (CpuSm.intIncfifo_spec hs).1
    rw [h20] at hl
    exact Bool.noConfusion hl
  obtain ⟨hS, h0', h35⟩ := hP.sameFifo_step hq.1 h0 (by rw [h20]; decide) hns
  have hP' := hP.step hq.1 hq.2
  refine ⟨hP'.clean h0' ?_ hS.rdfifoO hS.decfifo, fun more hmore => ?_⟩
  · rcases hn with e | e <;> rw [e] <;> rfl
  · exact hP'.sameFifo_run h0' h35 hS.rdfifoO hS.decfifo hmore

/-- The FIFO is filled, a byte of it is given to the WD33C93, and the rest is flushed. -/
theorem flush_leaves_clean_fresh :
    let t := Runs.run period (fresh true false) (filledOnce ++ oneByte ++ strobe 0x05 :: held 0x05)
    Clean (t.period (ended 0x05)) ∧
      ∀ more, Runs.Along period (fun t p => Unspoiled t p ∧ ¬ Stores t p)
          (t.period (ended 0x05)) more →
        SameFifo (t.period (ended 0x05)) (Runs.run period (t.period (ended 0x05)) more) :=
  flush_leaves_clean (fresh_dmaStart true false) rfl (by decide +kernel) (by decide +kernel)
    (by decide +kernel)

end Chip

namespace System

open Chip (Period filledOnce strobe held ended)

/-- The CPU begins an access to `FLUSH`, and `DREQ` is raised in the same clock. -/
def dreqAtFlush : Period :=
  { Period.steady { dreq_ := false } with
    clk90Fall := { dreq_ := false, as_ := false, cs_ := false, addr := 0x05 }
    clk135Fall := { dreq_ := false, as_ := false, cs_ := false, addr := 0x05 } }

/-- `DREQ` is raised for one byte in the clock in which `FLUSH` is strobed: the FIFO is reset
in `F2S_1`, the byte pointer steps after that, and the flush ends with it at 1. -/
theorem flush_spoiled :
    ¬ ∀ x, Start x → x.chip.regs.ndmadir = true → ∀ qs q,
      Runs.Along step (fun x q => BusRules x q ∧ Chip.InSession x.chip q) x (qs ++ [q]) →
      (Runs.run step x qs).chip.regs.flushfifo = true →
      ((Runs.run step x qs).step q).chip.regs.flushfifo = false →
      Chip.Clean ((Runs.run step x qs).step q).chip ∧
        ∀ more, Runs.Along step
            (fun x q => BusRules x q ∧ Chip.InSession x.chip q ∧ ¬ Chip.Stores x.chip q)
            ((Runs.run step x qs).step q) more →
          Chip.SameFifo ((Runs.run step x qs).step q).chip
            (Runs.run step ((Runs.run step x qs).step q) more).chip := by
  intro h
  have hd := (h (fresh true false) (fresh_start true false) rfl
    (filledOnce ++ dreqAtFlush :: held 0x05) (ended 0x05) (by decide +kernel) (by decide +kernel)
    (by decide +kernel)).1
  have hb := hd.bytePtr
  revert hb
  decide +kernel

end System

end Resdmac
