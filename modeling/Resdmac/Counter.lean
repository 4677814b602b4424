import Resdmac.Occupancy

/-!
# The FIFO Counter Stays within its Bounds

`fifo__full_empty_ctr` wraps: a step down at zero gives eight, a step up at eight
gives zero. This module shows when a session keeps away from both wraps.

## Main results

- `Chip.count_no_underflow` — no underflow in a session without a spurious tail and
  without a reset race
- `Chip.count_no_overflow` — no overflow, and no strobe on an undelivered entry, as
  long as `COUNT` has not underflowed
-/

namespace Resdmac

namespace Chip

/-! ## §1 Underflow -/

/-- `CPU_SM` is about to deliver the entry at the read pointer of an empty FIFO: it
leaves `s1` for `s6` or `s2`, or `s15` for `s3`, on `LASTWORD`. -/
def SpuriousTail (s : Chip) : Prop :=
  s.lastword = true ∧
    (s.cpu.state = .s1 ∧ s.cpu.inp.bgrant_ = false ∧ s.cpu.inp.ncycledone = false ∧
        (s.regs.a1 = true ∨ s.fifo.boeq3 = true) ∨
      s.cpu.state = .s15 ∧ s.fifo.boeq3 = true)

instance (s : Chip) : Decidable (SpuriousTail s) :=
  inferInstanceAs (Decidable (_ ∧ (_ ∨ _)))

/-- In the read direction, the longword that `CPU_SM` delivers is there. -/
structure Fed (s : Chip) : Prop where
  delivering : s.cpu.state.delivering = true → 1 ≤ s.fifo.level
  request : s.cpu.state = .s1 → 1 ≤ s.received ∨ s.lastword = true

namespace Reading

variable {s : Chip} {q : Period} (hI : Reading s) (hq : InSession s q)
include hI hq

theorem not_underflow (hf : Fed s) : ¬ Underflow s q := by
  rw [underflow_iff ⟨hI.awake, hq.noReset⟩, hI.cpuOut_decfifo q hq.noReset]
  rintro ⟨hd, h0, -⟩
  have h1 := hf.delivering (CpuSm.intDecfifo_spec hd).1
  omega

theorem not_underflow_of_not_dec (hd : (s.cpuComb q).intDecfifo = false) : ¬ Underflow s q := by
  rw [underflow_iff ⟨hI.awake, hq.noReset⟩, hI.cpuOut_decfifo q hq.noReset, hd]
  exact fun hu => Bool.noConfusion hu.1

/-- With no step down, nothing between the pointers is lost. -/
theorem period_received_of_not_dec (hd : (s.cpuComb q).intDecfifo = false) :
    (s.period q).fifo.level = s.received ∧ s.received ≤ (s.period q).received := by
  have hu := hI.not_underflow_of_not_dec hq hd
  have hr := hI.period_received hq hu
  have hl := hI.period_level hq hu
  rw [hd, Bool.toNat_false] at hr
  rw [hd, if_neg Bool.false_ne_true] at hl
  exact ⟨hl, by omega⟩

/-- A pending last word stays pending while the bus is requested, or its longword is
completed. -/
theorem period_lastword (hl : s.lastword = true)
    (hn : CpuSm.nextState (s.cpuIn q) s.cpu.state = .s1) :
    1 ≤ (s.period q).received ∨ (s.period q).lastword = true := by
  have h : Live s q := ⟨hI.awake, hq.noReset⟩
  obtain ⟨hsf, hd⟩ := CpuSm.stopflush_of_nextState_eq_s1 hn
  have hrec := hI.period_received hq (hI.not_underflow_of_not_dec hq hd)
  rw [lastword, Bool.and_eq_true, Bool.and_eq_true] at hl
  obtain ⟨⟨hb, hfl⟩, -⟩ := hl
  have hflush : (s.period q).regs.flushfifo = true := by
    rw [period_flushfifo h, hfl]
    have e : (s.cpuOut q).stopflush = false := hsf
    simp [e]
  by_cases h0 : (s.period q).received = 0
  · have hreq : (s.scsi.state == .s2f3 && s.fifo.boeq3) = false := by
      refine Bool.eq_false_iff.mpr fun hreq => ?_
      rw [hreq, Bool.toNat_true, show (s.cpuComb q).intDecfifo = false from hd] at hrec
      simp only [Bool.toNat_false] at hrec
      omega
    have hempty : (s.period q).fifo.empty = true := by
      rw [Fifo.empty_eq, decide_eq_true_iff]
      unfold received at h0
      omega
    have hboeq0 : (s.period q).fifo.boeq0 = false := by
      rw [Fifo.boeq0, hI.period_bytePtr_eq q hq.noReset]
      -- a byte that moves the pointer off zero would have been the last of its longword
      simp only [Fifo.boeq3, Fifo.boeq0, Bool.not_eq_true'] at hreq hb
      cases hs : (s.scsi.state == .s2f3) with
      | true =>
          rw [hs, Bool.true_and] at hreq
          simp only [if_true, beq_eq_false_iff_ne] at hreq hb ⊢
          intro e
          exact hreq (by bv_omega)
      | false => exact hb
    right
    rw [lastword, hflush, hempty, hboeq0]
    rfl
  · exact .inl (by omega)

/-- The bus is requested for a longword or for a pending last word. -/
theorem request_step (hr : s.cpu.state = .s1 → 1 ≤ s.received ∨ s.lastword = true)
    (hn : (s.period q).cpu.state = .s1) :
    1 ≤ (s.period q).received ∨ (s.period q).lastword = true := by
  have h : Live s q := ⟨hI.awake, hq.noReset⟩
  rw [period_cpu_state h] at hn
  have hd := (CpuSm.stopflush_of_nextState_eq_s1 hn).2
  have hrec := (hI.period_received_of_not_dec hq hd).2
  -- the request stands from before, or `s0` makes it for a full FIFO or for a flush
  rcases CpuSm.nextState_eq_s1 hn with hs | ⟨-, hs⟩
  · rcases hr hs with h1 | h1
    · exact .inl (h1.trans hrec)
    · exact hI.period_lastword hq h1 hn
  · rw [cpuIn_eq h, Fifo.full_eq, Fifo.empty_eq, decide_eq_true_iff,
      decide_eq_false_iff_not] at hs
    unfold received at hrec ⊢
    rcases hs with h1 | h1 | h1
    · exact .inl (by omega)
    · exact .inl (by omega)
    · exact hI.period_lastword hq h1 hn

/-- The longword to deliver stays there, unless a spurious tail begins. -/
theorem fed_step (hf : Fed s) (ht : ¬ SpuriousTail s) : Fed (s.period q) where
  delivering := by
    intro hd
    have h : Live s q := ⟨hI.awake, hq.noReset⟩
    rw [period_cpu_state h] at hd
    have hdec : (s.cpuComb q).intDecfifo = false := by
      refine Bool.eq_false_iff.mpr fun hc => ?_
      rw [(CpuSm.intDecfifo_spec hc).2] at hd
      exact Bool.noConfusion hd
    rw [(hI.period_received_of_not_dec hq hdec).1]
    -- the delivery goes on, or `s1` or `s15` begins one; a last word that they take for a
    -- longword is the spurious tail
    rcases CpuSm.nextState_delivering hd with hs | ⟨hs, hb, hc, hl⟩ | ⟨hs, he⟩
    · have h1 := hf.delivering hs
      unfold received
      omega
    · rw [cpuIn_eq h] at hb hc hl
      rcases hf.request hs with h1 | h1
      · exact h1
      · exact absurd ⟨h1, .inl ⟨hs, hb, by simpa using hc, hl h1⟩⟩ ht
    · rw [cpuIn_eq h] at he
      cases hempty : s.fifo.empty with
      | true =>
          obtain ⟨h1, h2⟩ := he hempty
          exact absurd ⟨h1, .inr ⟨hs, h2⟩⟩ ht
      | false =>
          rw [Fifo.empty_eq, decide_eq_false_iff_not] at hempty
          unfold received
          omega
  request := hI.request_step hq hf.request

end Reading

/-- In a session in which no spurious tail begins and no request meets a reset of the
FIFO, `COUNT` never underflows. -/
theorem count_no_underflow {s : Chip} (hs : DmaStart s) {qs : List Period}
    (h : Runs.Along period (fun s q => InSession s q ∧ ¬ SpuriousTail s ∧ ¬ ResetRace s) s qs) :
    Runs.Along period (fun s q => ¬ Underflow s q) s qs := by
  -- only a session that drains the FIFO needs more than the invariant of its direction
  cases hd : s.regs.ndmadir with
  | false =>
      have hf : Fed s := by
        refine ⟨fun hc => ?_, fun hc => ?_⟩ <;>
          rcases hs.cpu_state with e | e <;> rw [e] at hc <;> cases hc
      refine Runs.along_of_invariant (I := fun s => Reading s ∧ Fed s) ?_ ⟨hs.reading hd, hf⟩ h
      rintro s q ⟨hI, hf⟩ ⟨hq, ht, -⟩
      have hu := hI.not_underflow hq hf
      exact ⟨hu, hI.step hq hu, hI.fed_step hq hf ht⟩
  | true =>
      refine Runs.along_of_invariant (I := Writing) ?_ (hs.writing hd) h
      rintro s q hI ⟨hq, -, hz⟩
      exact ⟨hI.not_underflow hq, hI.step hq hz⟩

/-- Six bytes are received and flushed. -/
theorem count_no_underflow_fresh :
    Runs.Along period (fun s q => ¬ Underflow s q) (fresh false false)
      (sixBytes ++ flushCycle ++ tenure) :=
  count_no_underflow (fresh_dmaStart false false) (by decide +kernel)

/-- `FLUSH` is strobed only by the CPU, while it owns the bus. -/
def FlushByCpu (s : Chip) (q : Period) : Prop :=
  (s.endAccess q).flush = true → (s.atClk90Fall q).own = false

instance (s : Chip) (q : Period) : Decidable (FlushByCpu s q) :=
  inferInstanceAs (Decidable (_ → _))

/-- A flush before the first byte: with `A1` set the byte pointer rests at two, which
reads as a last word, and `s1` goes on to deliver it. -/
theorem count_underflow_of_early_flush :
    ¬ ∀ s, DmaStart s → ∀ qs,
      Runs.Along period (fun s q => InSession s q ∧ FlushByCpu s q) s qs →
        Runs.Along period (fun s q => ¬ Underflow s q) s qs := by
  intro h
  have hu := h (fresh false true) (fresh_dmaStart false true)
    (flushCycle ++ List.replicate 4 (.steady { bg_ := false }) ++ [.steady { sterm_ := false }])
    (by decide +kernel)
  revert hu
  decide +kernel

/-! ## §2 Overflow -/

/-- The entries of the FIFO that hold an undelivered longword. -/
abbrev Marks := BitVec 3 → Bool

/-- At CLK135 rising `WRITE_PTR` steps over a longword that is complete and `READ_PTR`
over one that is delivered; a reset of the FIFO drops them all. -/
def Marks.after (m : Marks) (s : Chip) (q : Period) : Marks :=
  let t := s.atClk135Rise q
  if t.rstFifo_ then
    let m' := if t.incno then Function.update m t.fifo.readPtr false else m
    if t.incni then Function.update m' t.fifo.writePtr true else m'
  else fun _ => false

/-- The chip with the marks of its undelivered longwords. -/
def periodMarked (x : Chip × Marks) (q : Period) : Chip × Marks :=
  (x.1.period q, x.2.after x.1 q)

/-- A write strobe is active at the CLK90 rising edge on an entry that holds an
undelivered longword. -/
def Clobber (x : Chip × Marks) (q : Period) : Prop :=
  ((x.1.atClk90Rise q).scsi.lbyte_ = false ∨ (x.1.atClk90Rise q).llw = true ∨
      (x.1.atClk90Rise q).lhw = true) ∧
    x.2 (x.1.atClk90Rise q).fifo.writePtr = true

section Edges

variable {s : Chip} {q : Period} (h : Live s q)
include h

theorem marks_after (m : Marks) :
    m.after s q =
      if s.rstOut_ q then
        if (s.cpuOut q).incni || (s.scsiOut q).incni then
          Function.update
            (if (s.cpuOut q).incno || (s.scsiOut q).incno then
              Function.update m s.fifo.readPtr false else m) s.fifo.writePtr true
        else if (s.cpuOut q).incno || (s.scsiOut q).incno then
          Function.update m s.fifo.readPtr false
        else m
      else fun _ => false := by
  have hw : (s.atClk135Rise q).fifo.writePtr = s.fifo.writePtr := by
    rw [atClk135Rise_eq h]
    exact Fifo.store_writePtr ..
  have hp : (s.atClk135Rise q).fifo.readPtr = s.fifo.readPtr := by
    rw [atClk135Rise_eq h]
    exact Fifo.store_readPtr ..
  simp only [Marks.after, atClk135Rise_rstFifo_ h, atClk135Rise_incni h,
    atClk135Rise_incno h, hw, hp]

theorem clobber_iff (m : Marks) :
    Clobber (s, m) q ↔
      (s.scsi.lbyte_ = false ∨ s.llw = true ∨ s.lhw = true) ∧ m s.fifo.writePtr = true := by
  have e : (s.atClk90Rise q).scsi.lbyte_ = s.scsi.lbyte_ := by rw [atClk90Rise_eq h]; rfl
  have el : (s.atClk90Rise q).llw = s.llw := by rw [atClk90Rise_eq h]; rfl
  have eh : (s.atClk90Rise q).lhw = s.lhw := by rw [atClk90Rise_eq h]; rfl
  have ew : (s.atClk90Rise q).fifo.writePtr = s.fifo.writePtr := by rw [atClk90Rise_eq h]; rfl
  rw [Clobber, e, el, eh, ew]

end Edges

namespace Reading

variable {s : Chip} {q : Period} (hI : Reading s) (hq : InSession s q)
include hI hq

theorem not_overflow : ¬ Overflow s q := by
  rw [overflow_iff ⟨hI.awake, hq.noReset⟩, hI.cpuOut_incfifo q hq.noReset]
  rintro ⟨hi, h8⟩
  have hcap := hI.cap
  rw [received, h8, (Bool.and_eq_true_iff.mp hi).2, Bool.toNat_true] at hcap
  omega

theorem not_clobber {m : Marks} (hm : Ring.Marks s.fifo.readPtr s.received m) :
    ¬ Clobber (s, m) q := by
  rw [clobber_iff ⟨hI.awake, hq.noReset⟩, hI.llw, hI.lhw]
  rintro ⟨hl | hl | hl, hw⟩
  · have ht := hI.lbyte hl
    have hr : s.scsi.rififoO = false := Bool.eq_false_iff.mpr fun hr => by
      rw [hI.request hr] at ht
      exact Bool.noConfusion ht
    have hroom := hI.room ht
    rw [hm.not_mark_next hI.ptrs (by rw [received, hr]; exact hroom)] at hw
    exact Bool.noConfusion hw
  · exact Bool.noConfusion hl
  · exact Bool.noConfusion hl

theorem marks_step (hu : ¬ Underflow s q) {m : Marks}
    (hm : Ring.Marks s.fifo.readPtr s.received m) :
    Ring.Marks (s.period q).fifo.readPtr (s.period q).received (m.after s q) := by
  have h : Live s q := ⟨hI.awake, hq.noReset⟩
  have hc := hI.cpuComb_spec q hq.noReset
  have hni : (s.cpuOut q).incni = false := hc.2.1
  have hnc : (s.cpuOut q).incno = (s.cpuComb q).intDecfifo := rfl
  rw [marks_after h, period_readPtr h, hI.rstOut_ q hq.noReset, hni, hnc, Bool.false_or,
    hI.scsiOut_incno q hq.noReset, Bool.or_false, Chip.scsiOut_incni h]
  refine hm.step hI.ptrs (hI.period_received hq hu) (fun hd => ?_) hI.cap (hI.step hq hu).cap
  have h1 := hI.intDecfifo_spec hq hu hd
  unfold received
  omega

end Reading

namespace Writing

variable {s : Chip} {q : Period} (hI : Writing s) (hq : InSession s q)
include hI hq

theorem not_overflow : ¬ Overflow s q := by
  rw [overflow_iff ⟨hI.awake, hq.noReset⟩, hI.cpuOut_incfifo q hq.noReset]
  rintro ⟨hc, h8⟩
  have hlt := hI.intIncfifo_spec q hc
  omega

theorem not_clobber {m : Marks} (hm : Ring.Marks s.fifo.readPtr s.unsent m) :
    ¬ Clobber (s, m) q := by
  rw [clobber_iff ⟨hI.awake, hq.noReset⟩]
  rintro ⟨hl | hl, hw⟩
  · rw [hI.lbyte] at hl
    exact Bool.noConfusion hl
  · have hroom := hI.room (.inl (hI.strobe hl))
    have hlt : s.unsent < 2 ^ 3 := (Nat.sub_le ..).trans_lt hroom
    rw [hm.not_mark_next hI.ptrs hlt] at hw
    exact Bool.noConfusion hw

theorem marks_step (hz : ¬ ResetRace s) {m : Marks}
    (hm : Ring.Marks s.fifo.readPtr s.unsent m) :
    Ring.Marks (s.period q).fifo.readPtr (s.period q).unsent (m.after s q) := by
  have h : Live s q := ⟨hI.awake, hq.noReset⟩
  have hno := hI.scsiOut_incni q hq.noReset
  have hnc : (s.cpuOut q).incno = false := hI.intDecfifo q
  rw [marks_after h, period_readPtr h, hI.rstOut_eq, hno, Bool.or_false, hnc,
    Bool.false_or, cpuOut_incni, scsiOut_incno h]
  cases hr : (s.cpuOut q).rstFifo with
  | true =>
      have e : (s.period q).unsent = 0 := by
        have hl : (s.period q).fifo.level = 0 := by
          simp [Chip.period_level h hI.cap, hI.rstOut_eq, hr]
        rw [unsent, hl]
        exact Nat.zero_sub _
      rw [e]
      exact Ring.Marks.empty _
  | false =>
      exact hm.step hI.ptrs (hI.period_unsent hq hr).1 (fun hd => (hI.request_spec hd).2)
        hI.unsent_le (hI.step hq hz).unsent_le

end Writing

/-- The state after a reset race: a request to take a longword off an empty FIFO. -/
structure Doomed (s : Chip) : Prop where
  awake : s.Awake
  dmaena : s.regs.dmaena = true
  state : s.cpu.state = .s20
  rdfifoO : s.scsi.rdfifoO = true
  decfifo : s.cpu.out.decfifo = false
  level : s.fifo.level = 0
  lbyte : s.scsi.lbyte_ = true
  llw : s.llw = false
  lhw : s.lhw = false

theorem Writing.doomed {s : Chip} {q : Period} (hI : Writing s) (hq : InSession s q)
    (hz : ResetRace s) : Doomed (s.period q) := by
  have h : Live s q := ⟨hI.awake, hq.noReset⟩
  obtain ⟨hs, hf, hd, hn, he, hg, hb⟩ := hz
  have hreq : (s.scsi.state == .f2s3 && s.fifo.boeq3) = true := by rw [hg, hb]; rfl
  have hc : s.cpuComb q = CpuSm.comb (s.cpuIn q) .s20 := by rw [cpuComb, hs]
  have hr : (s.cpuOut q).rstFifo = true := by
    change (s.cpuComb q).rstFifo = true
    rw [hc, cpuIn_eq h, CpuSm.comb]
    simp [hf, hd, hn, he, Registers.dmadir, hI.ndmadir]
  obtain ⟨-, hn20, hci⟩ := Writing.rstFifo_spec q hr
  exact
    { awake := period_awake h
      dmaena := session_dmaena h hq hI.dmaena
      state := (period_cpu_state h).trans hn20
      rdfifoO := by rw [hI.period_rdfifoO hq, hreq, Bool.true_or]
      decfifo := by
        rw [period_cpu_out h, hI.cpuOut_decfifo q hq.noReset, (hI.request_spec hreq).1,
          Bool.and_false]
      level := by simp [Chip.period_level h hI.cap, hI.rstOut_eq, hr]
      lbyte := hI.period_lbyte hq
      llw := by
        rw [period_llw h]
        change (s.cpuComb q).pllw = false
        rw [hc]; rfl
      lhw := by
        rw [period_lhw h]
        change (s.cpuComb q).plhw = false
        rw [hc]; rfl }

namespace Doomed

variable {s : Chip} {q : Period} (hD : Doomed s) (hq : InSession s q)
include hD hq

theorem underflow : Underflow s q := by
  have h : Live s q := ⟨hD.awake, hq.noReset⟩
  have hc : s.cpuComb q = CpuSm.comb (s.cpuIn q) .s20 := by rw [cpuComb, hD.state]
  have hi : (s.cpuComb q).intIncfifo = false := by rw [hc]; rfl
  refine (underflow_iff h).mpr ⟨?_, hD.level, ?_⟩
  · rw [cpuOut_decfifo h, hi, hD.rdfifoO, hD.decfifo]
    rfl
  · rw [Chip.rstOut_, hD.dmaena, Bool.true_and, Bool.not_eq_true']
    change (s.cpuComb q).rstFifo = false
    rw [hc, cpuIn_eq h, CpuSm.comb, Fifo.empty_eq, hD.level]
    simp

theorem not_overflow : ¬ Overflow s q := by
  rw [overflow_iff ⟨hD.awake, hq.noReset⟩, hD.level]
  rintro ⟨-, h8⟩
  exact absurd h8 (by decide)

theorem not_clobber (m : Marks) : ¬ Clobber (s, m) q := by
  rw [clobber_iff ⟨hD.awake, hq.noReset⟩, hD.lbyte, hD.llw, hD.lhw]
  rintro ⟨hl | hl | hl, -⟩ <;> exact Bool.noConfusion hl

end Doomed

/-- What holds of the chip and its marks as long as `COUNT` has not underflowed. -/
def Bounded (x : Chip × Marks) : Prop :=
  Reading x.1 ∧ Ring.Marks x.1.fifo.readPtr x.1.received x.2 ∨
    Writing x.1 ∧ Ring.Marks x.1.fifo.readPtr x.1.unsent x.2 ∨ Doomed x.1

theorem Bounded.step {x : Chip × Marks} {q : Period} (hx : Bounded x) (hq : InSession x.1 q)
    (hu : ¬ Underflow x.1 q) : Bounded (periodMarked x q) := by
  rcases hx with ⟨hI, hm⟩ | ⟨hI, hm⟩ | hD
  · exact .inl ⟨hI.step hq hu, hI.marks_step hq hu hm⟩
  · by_cases hz : ResetRace x.1
    · exact .inr (.inr (hI.doomed hq hz))
    · exact .inr (.inl ⟨hI.step hq hz, hI.marks_step hq hz hm⟩)
  · exact absurd (hD.underflow hq) hu

/-- In every session, as long as `COUNT` has not underflowed, it does not overflow and no
write strobe hits an entry that holds an undelivered longword. -/
theorem count_no_overflow {s : Chip} (hs : DmaStart s) {qs : List Period} {q : Period}
    (h : Runs.Along periodMarked (fun x q => InSession x.1 q) (s, fun _ => false) (qs ++ [q]))
    (hu : Runs.Along periodMarked (fun x q => ¬ Underflow x.1 q) (s, fun _ => false) qs) :
    ¬ Overflow (Runs.run periodMarked (s, fun _ => false) qs).1 q ∧
      ¬ Clobber (Runs.run periodMarked (s, fun _ => false) qs) q := by
  obtain ⟨hqs, hq, -⟩ := Runs.along_append.mp h
  have h0 : Bounded (s, fun _ => false) := by
    have hm := Ring.Marks.empty s.fifo.readPtr
    cases hd : s.regs.ndmadir with
    | false =>
        have e : s.received = 0 := by rw [received, hs.level, hs.rififoO]; rfl
        exact .inl ⟨hs.reading hd, by rw [e]; exact hm⟩
    | true =>
        have e : s.unsent = 0 := by rw [unsent, hs.level]; exact Nat.zero_sub _
        exact .inr (.inl ⟨hs.writing hd, by rw [e]; exact hm⟩)
  have hb := Runs.invariant_run (fun x q hx hp => Bounded.step hx hp.1 hp.2) h0 (hqs.and hu)
  generalize Runs.run periodMarked (s, fun _ => false) qs = x at hb hq ⊢
  rcases hb with ⟨hI, hm⟩ | ⟨hI, hm⟩ | hD
  · exact ⟨hI.not_overflow hq, hI.not_clobber hq hm⟩
  · exact ⟨hI.not_overflow hq, hI.not_clobber hq hm⟩
  · exact ⟨hD.not_overflow hq, hD.not_clobber hq x.2⟩

/-- The FIFO is full when the first byte is asked for. -/
theorem count_no_overflow_fresh :
    let x := Runs.run periodMarked (fresh true false, fun _ => false) filledOnce
    x.1.fifo.count = 8 ∧ ¬ Overflow x.1 (.steady { dreq_ := false }) ∧
      ¬ Clobber x (.steady { dreq_ := false }) :=
  ⟨by decide +kernel,
    count_no_overflow (fresh_dmaStart true false) (by decide +kernel) (by decide +kernel)⟩

end Chip

end Resdmac
