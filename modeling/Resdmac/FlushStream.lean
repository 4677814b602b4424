import Resdmac.ReadStream

/-!
# The Stream through a Flush

A flush writes the bytes of an incomplete longword to memory but leaves them in the FIFO,
so that the bytes taken from the WD33C93 are no longer split between memory and the FIFO.
What is kept is weaker: the taken bytes are some that occur in memory, in order, followed
by those that the FIFO holds. With it this module says when a flush delivers every byte
that was taken before it.

## Main definitions

- `System.Carrying` — the invariant of a session with flushes, up to an underflow
- `Chip.due` — the bytes that memory gets without any further request
- `Chip.overlooked` — the bytes in the FIFO that neither `COUNT` nor `BYTE_PTR` shows
- `System.Flush` — the bytes taken before the last `FLUSH`

## Main results

- `System.flush_not_lost` — a flush delivers what was taken before it, unless it ends while
  such a byte is overlooked
-/

namespace Resdmac

open Chip (Period flushCycle oneByte oneCycle)

namespace Chip

/-! ## §1 The entry at the read pointer -/

theorem contents_length {s : Chip} :
    s.contents.length = 4 * s.received + (s.fifo.bytePtr.toNat + (s.scsi.state == .s2f3).toNat) := by
  have hp := s.fifo.bytePtr.isLt
  have ht := Bool.toNat_le (s.scsi.state == .s2f3)
  rw [contents, List.length_append, Longword.flatMap_bytes_length, Ring.window_length,
    List.length_take, Longword.bytes_length]
  omega

/-- The first bytes in the FIFO are those of the entry at the read pointer. -/
theorem Reading.contents_take {s : Chip} (hI : Reading s) :
    s.contents.take 4 <+: s.fifo.od.bytes := by
  by_cases h : s.received = 0
  · have hp := hI.ptrs
    rw [h] at hp
    have e : s.fifo.buffer s.fifo.writePtr = s.fifo.od := by
      rw [Fifo.od, hp]
      exact congrArg _ (BitVec.add_zero _)
    rw [contents, h, Ring.window_zero, List.flatMap_nil, List.nil_append, e, List.take_take]
    exact List.take_prefix _ _
  · obtain ⟨r, hr⟩ := contents_eq (Nat.one_le_iff_ne_zero.mpr h)
    rw [hr, List.take_append_of_le_length (by simp)]
    exact List.take_prefix _ _

/-- The longword that was counted last left no byte behind it. -/
def Settled (s : Chip) : Prop := s.scsi.rififoO = true → s.fifo.bytePtr = 0

theorem Reading.settled_step {s : Chip} {q : Period} (hI : Reading s) (hq : InSession s q)
    (hs : Settled s) : Settled (s.period q) := by
  intro hr
  rw [hI.period_rififoO hq, Bool.or_eq_true, Bool.and_eq_true, Bool.and_eq_true] at hr
  rw [hI.period_bytePtr_eq q hq.noReset]
  rcases hr with ⟨h3, hb⟩ | ⟨hr, -⟩
  · -- the pointer wraps with the fourth byte
    have e : s.fifo.bytePtr = 3 := eq_of_beq hb
    simp [h3, e]
  · simp [ScsiSm.State.beq_s2f3 (hI.request hr), hs hr]

/-! ## §2 What memory gets anyway -/

/-- The bytes that memory gets without any further request: the word left over by a flush,
or the entry that is being delivered. -/
def due (s : Chip) : List Byte :=
  if s.cpu.state.tail then s.undelivered.take 2
  else if s.cpu.state.delivering then (s.contents.take 4).drop s.skip
  else []

theorem due_of_tail {s : Chip} (h : s.cpu.state.tail = true) : s.due = s.undelivered.take 2 :=
  if_pos h

theorem due_of_delivering {s : Chip} (h : s.cpu.state.delivering = true) :
    s.due = (s.contents.take 4).drop s.skip := by
  have ht : ¬ s.cpu.state.tail = true := fun ht => by
    rw [CpuSm.State.not_delivering_of_tail ht] at h
    exact Bool.noConfusion h
  rw [due, if_neg ht, if_pos h]

end Chip

namespace System

/-- A session that drains the FIFO and may flush it, as long as `COUNT` has not wrapped. -/
structure Carrying (x : System) : Prop where
  coupled : Coupled x
  reading : Chip.Reading x.chip
  strobed : Chip.Strobed x.chip
  aligned : Chip.Aligned x.chip
  settled : Chip.Settled x.chip
  request : x.chip.cpu.state = .s1 → 1 ≤ x.chip.received ∨ x.chip.lastword = true
  upper : x.chip.cpu.state.delivering = true → 2 ≤ x.chip.contents.length
  skip_le : x.chip.skip ≤ x.chip.contents.length
  bytes : ∃ w, w.Sublist x.written ∧ x.taken = w ++ x.chip.undelivered

section Step

variable {x : System} {q : Period} (hK : Carrying x) (hq : BusRules x q)
  (hs : Chip.InSession x.chip q)
include hK hq hs

omit hq in
/-- Until an entry is stepped over, bytes are only added. -/
theorem Carrying.contents_of_not_dec (hd : (x.chip.cpuComb q).intDecfifo = false) :
    (x.chip.period q).contents = x.chip.contents ++ x.chip.taken q := by
  have hu := hK.reading.not_underflow_of_not_dec hs hd
  rw [hK.reading.period_contents hK.strobed hs hu, hd, if_neg Bool.false_ne_true,
    List.drop_zero]

omit hs in
/-- The word left over is written until its cycle ends. -/
theorem Carrying.tail_of_not_written (ht : x.chip.cpu.state.tail = true)
    (hw : x.chip.written q = []) : (x.chip.period q).cpu.state.tail = true := by
  have h := hK.coupled.live hq
  have hn := Chip.period_cpu_state h
  cases hst : x.chip.cpu.state.strobing with
  | false => rw [hn]; exact CpuSm.nextState_tail_of ht hst
  | true =>
      have hdr := CpuSm.State.draining_of_strobing hst hK.reading.cpu
      rcases CpuSm.drain_spec (hK.coupled.answered hq hst) hst hdr with
        ⟨-, -, -, -, he⟩ | ⟨hp, -, -, he⟩
      · rw [hn]; exact he.trans ht
      · have hd := CpuSm.State.not_delivering_of_tail ht
        have h15 : CpuSm.nextState (x.chip.cpuIn q) x.chip.cpu.state = .s15 := by
          rcases he with ⟨hw, -⟩ | ⟨hw, -⟩ | ⟨hl, -⟩ | ⟨-, -, -, -, h15⟩
          · rw [CpuSm.State.delivering_of_whole hw] at hd
            exact Bool.noConfusion hd
          · rw [CpuSm.State.delivering_of_whole hw] at hd
            exact Bool.noConfusion hd
          · rw [CpuSm.State.delivering_of_low hl] at hd
            exact Bool.noConfusion hd
          · exact h15
        -- a write cycle that ends has written a word at least
        have hb : (x.chip.cpuOut q).bgack = true := by rw [Chip.cpuOut_bgack, h15]; rfl
        have ha : x.chip.asO_ = false := by rw [hK.coupled.asO_, hst]; rfl
        have hp' : (x.chip.cpuOut q).pas = false := hp
        have hl := congrArg List.length hw
        simp only [Chip.written, Chip.endsCycle_eq h, ha, hp', Chip.atSclkFall_rw h hb,
          hK.reading.ndmadir, Bool.not_false, Bool.and_self, if_true, List.length_nil] at hl
        split_ifs at hl <;> simp at hl

omit hs in
theorem Carrying.delivering_of_not_dec (hst : x.chip.cpu.state.delivering = true)
    (hd : (x.chip.cpuComb q).intDecfifo = false) :
    (x.chip.period q).cpu.state.delivering = true := by
  rw [Chip.period_cpu_state (hK.coupled.live hq)]
  exact CpuSm.nextState_delivering_of hst hd

omit hq hs in
theorem Carrying.skip_of_tail (hst : x.chip.cpu.state.tail = true) : x.chip.skip = 0 := by
  obtain ⟨hal, hlo⟩ := CpuSm.State.aligned_of_tail hst
  rw [Chip.skip, hK.aligned hal, hlo]
  rfl

theorem Carrying.skip_s15 (hn : (x.chip.period q).cpu.state = .s15) :
    (x.chip.period q).skip = 0 := by
  have ha := hK.aligned.step (hK.coupled.live hq) hs (by rw [hn]; rfl)
  rw [Chip.skip, ha, hn]
  rfl

/-- What is due is written or stays due. -/
theorem Carrying.due_step :
    (x.written ++ x.chip.due).Sublist ((x.step q).written ++ (x.step q).chip.due) := by
  have hI := hK.reading
  have hpre := hI.contents_take
  change (x.written ++ x.chip.due).Sublist
    ((x.written ++ x.chip.written q) ++ (x.chip.period q).due)
  rw [List.append_assoc]
  refine List.Sublist.append (List.Sublist.refl _) ?_
  rcases delivers hK.coupled hq hs hI hK.aligned with
    ⟨hw, hd, hk⟩ | ⟨hst, hw, hd, hk, hk'⟩ | ⟨hst, hw, hd, hk, hk'⟩ | ⟨hst, hw, hd, hk, hk'⟩ |
      ⟨hst, hw, hd, hn⟩
  · -- nothing is written, and what was due stays due
    have hc := hK.contents_of_not_dec hs hd
    rw [hw, List.nil_append]
    by_cases ht : x.chip.cpu.state.tail = true
    · rw [Chip.due_of_tail ht, Chip.due_of_tail (hK.tail_of_not_written hq ht hw),
        Chip.undelivered, Chip.undelivered, hc, hk, List.drop_append_of_le_length hK.skip_le]
      exact ((List.prefix_append _ _).take 2).sublist
    by_cases hdl : x.chip.cpu.state.delivering = true
    · rw [Chip.due_of_delivering hdl, Chip.due_of_delivering (hK.delivering_of_not_dec hq hdl hd),
        hc, hk]
      exact (((List.prefix_append _ _).take 4).drop _).sublist
    · rw [Chip.due, if_neg ht, if_neg hdl]
      exact List.nil_sublist _
  · rw [Chip.due_of_delivering hst, hk, hw, List.drop_zero]
    exact hpre.sublist.trans (List.sublist_append_left _ _)
  · -- the upper half is written, the lower half stays due
    rw [Chip.due_of_delivering hst, Chip.due_of_delivering (hK.delivering_of_not_dec hq hst hd), hk,
      hk', hw, hK.contents_of_not_dec hs hd, List.drop_zero,
      ← List.take_append_drop 2 (x.chip.contents.take 4)]
    exact List.Sublist.append (hpre.take 2).sublist
      (((List.prefix_append _ _).take 4).drop 2).sublist
  · rw [Chip.due_of_delivering hst, hk, hw]
    exact (hpre.drop 2).sublist.trans (List.sublist_append_left _ _)
  · have hsk := hK.skip_of_tail hst
    have h2 : x.chip.contents.take 2 = (x.chip.contents.take 4).take 2 := by
      rw [List.take_take]
      rfl
    rw [Chip.due_of_tail hst, Chip.undelivered, hsk, List.drop_zero, hw, h2]
    exact (hpre.take 2).sublist.trans (List.sublist_append_left _ _)

/-! ### The next period -/

omit hq in
theorem Carrying.request_step (hn : (x.step q).chip.cpu.state = .s1) :
    1 ≤ (x.step q).chip.received ∨ (x.step q).chip.lastword = true :=
  hK.reading.request_step hs hK.request hn

/-- Half of the entry that is delivered was received. -/
theorem Carrying.upper_step (hn : (x.step q).chip.cpu.state.delivering = true) :
    2 ≤ (x.step q).chip.contents.length := by
  have h := hK.coupled.live hq
  change (x.chip.period q).cpu.state.delivering = true at hn
  rw [Chip.period_cpu_state h] at hn
  have hd : (x.chip.cpuComb q).intDecfifo = false := by
    refine Bool.eq_false_iff.mpr fun hc => ?_
    rw [(CpuSm.intDecfifo_spec hc).2] at hn
    exact Bool.noConfusion hn
  have key : 2 ≤ x.chip.contents.length := by
    have hlen := x.chip.contents_length
    have hboeq : x.chip.fifo.boeq3 = true → 3 ≤ x.chip.contents.length := fun hb => by
      have e : x.chip.fifo.bytePtr = 3 := eq_of_beq hb
      rw [e] at hlen
      exact hlen ▸ (by simp; omega)
    have hskip := hK.skip_le
    -- a cycle goes on, the first one begins in `s1`, or the next one in `s15`
    rcases CpuSm.nextState_delivering hn with hdl | ⟨hst, -, -, hl⟩ | ⟨hst, he⟩
    · exact hK.upper hdl
    · rw [Chip.cpuIn_eq h] at hl
      rcases hK.request hst with h1 | h1
      · omega
      · rcases hl h1 with ha | hb
        · have e : x.chip.regs.a1 = true := ha
          rw [Chip.skip, e] at hskip
          exact hskip
        · exact (hboeq hb).trans' (by decide)
    · rw [Chip.cpuIn_eq h] at he
      cases hempty : x.chip.fifo.empty with
      | true => exact (hboeq (he hempty).2).trans' (by decide)
      | false =>
          rw [Fifo.empty_eq, decide_eq_false_iff_not] at hempty
          unfold Chip.received at hlen
          omega
  change 2 ≤ (x.chip.period q).contents.length
  rw [hK.contents_of_not_dec hs hd, List.length_append]
  exact key.trans (Nat.le_add_right _ _)

/-- The bytes taken stay split between memory and the FIFO. -/
theorem Carrying.bytes_step (hu : ¬ Chip.Underflow x.chip q) :
    (x.step q).chip.skip ≤ (x.step q).chip.contents.length ∧
      ∃ w, w.Sublist (x.step q).written ∧ (x.step q).taken = w ++ (x.step q).chip.undelivered := by
  have hI := hK.reading
  obtain ⟨w, hw, ht⟩ := hK.bytes
  have hcont := hI.period_contents hK.strobed hs hu
  have hle := hK.skip_le
  have hdec := hI.intDecfifo_spec hs hu
  have hfront : (x.chip.cpuComb q).intDecfifo = true →
      ∃ r, x.chip.contents = x.chip.fifo.od.bytes ++ r := fun hd =>
    Chip.contents_eq ((hdec hd).trans (Nat.le_add_right _ _))
  have key : ∀ v, v.Sublist (x.chip.written q) →
      x.chip.undelivered ++ x.chip.taken q = v ++ (x.chip.period q).undelivered →
      ∃ w, w.Sublist (x.step q).written ∧
        (x.step q).taken = w ++ (x.step q).chip.undelivered := by
    intro v hv hbytes
    refine ⟨w ++ v, List.Sublist.append hw hv, ?_⟩
    change x.taken ++ x.chip.taken q = (w ++ v) ++ (x.chip.period q).undelivered
    rw [ht, List.append_assoc, hbytes, List.append_assoc]
  change (x.chip.period q).skip ≤ (x.chip.period q).contents.length ∧ _
  rcases delivers hK.coupled hq hs hI hK.aligned with
    ⟨hwr, hd, hk⟩ | ⟨hst, hwr, hd, hk, hk'⟩ | ⟨hst, hwr, hd, hk, hk'⟩ | ⟨hst, hwr, hd, hk, hk'⟩ |
      ⟨hst, hwr, hd, hn⟩
  · rw [hd, if_neg Bool.false_ne_true, List.drop_zero] at hcont
    refine ⟨?_, key [] (List.nil_sublist _) ?_⟩
    · rw [hk, hcont, List.length_append]
      omega
    · rw [Chip.undelivered, Chip.undelivered, hcont, hk, List.nil_append,
        List.drop_append_of_le_length hle]
  · obtain ⟨r, hr⟩ := hfront hd
    rw [hd, if_pos rfl, hr] at hcont
    refine ⟨by rw [hk']; exact Nat.zero_le _, key _ (by rw [hwr]) ?_⟩
    rw [Chip.undelivered, Chip.undelivered, hcont, hk, hk', hr]
    exact List.append_assoc ..
  · -- what was received of the upper half is all of it
    have h2 := hK.upper hst
    have hup : x.chip.contents.take 2 = x.chip.fifo.od.upper.bytes := by
      have hp := hI.contents_take.take 2
      rw [List.take_take] at hp
      exact hp.eq_of_length (by simp [h2])
    rw [hd, if_neg Bool.false_ne_true, List.drop_zero] at hcont
    refine ⟨by rw [hk', hcont, List.length_append]; omega, key _ (by rw [hwr]) ?_⟩
    rw [Chip.undelivered, Chip.undelivered, hcont, hk, hk', ← hup, List.drop_zero,
      List.drop_append_of_le_length h2, ← List.append_assoc, List.take_append_drop]
  · obtain ⟨r, hr⟩ := hfront hd
    rw [hd, if_pos rfl, hr] at hcont
    refine ⟨by rw [hk']; exact Nat.zero_le _, key _ (by rw [hwr]) ?_⟩
    rw [Chip.undelivered, Chip.undelivered, hcont, hk, hk', hr]
    rfl
  · rw [hd, if_neg Bool.false_ne_true, List.drop_zero] at hcont
    have hsk := hK.skip_of_tail hst
    have hsk' := hK.skip_s15 hq hs hn
    refine ⟨by rw [hsk']; exact Nat.zero_le _, key [] (List.nil_sublist _) ?_⟩
    rw [Chip.undelivered, Chip.undelivered, hcont, hsk, hsk']
    rfl

/-- The invariant is kept by every period that does not underflow `COUNT`. -/
theorem Carrying.step (hu : ¬ Chip.Underflow x.chip q) : Carrying (x.step q) where
  coupled := hK.coupled.step hq
  reading := hK.reading.step hs hu
  strobed := Chip.period_strobed (hK.coupled.live hq)
  aligned := hK.aligned.step (hK.coupled.live hq) hs
  settled := hK.reading.settled_step hs hK.settled
  request := hK.request_step hs
  upper := hK.upper_step hq hs
  skip_le := (hK.bytes_step hq hs hu).1
  bytes := (hK.bytes_step hq hs hu).2

/-- The entry that is stepped over in an underflow was all that the FIFO held. -/
theorem Carrying.taken_of_underflow (hu : Chip.Underflow x.chip q) :
    x.taken.Sublist (x.step q).written := by
  have hI := hK.reading
  obtain ⟨w, hw, ht⟩ := hK.bytes
  rw [Chip.underflow_iff (hK.coupled.live hq), hI.cpuOut_decfifo q hs.noReset] at hu
  obtain ⟨hd, h0, -⟩ := hu
  -- `COUNT` is zero: a partial longword, or a whole one whose step up is pending
  have hlen : x.chip.contents.length ≤ 4 := by
    have hlen := x.chip.contents_length
    have hp := x.chip.fifo.bytePtr.isLt
    have hb := Bool.toNat_le (x.chip.scsi.state == .s2f3)
    unfold Chip.received at hlen
    cases hr : x.chip.scsi.rififoO with
    | false =>
        rw [h0, hr, Bool.toNat_false] at hlen
        omega
    | true =>
        rw [h0, hr, ScsiSm.State.beq_s2f3 (hI.request hr), hK.settled hr] at hlen
        exact hlen.le
  have hdue : x.chip.due = x.chip.undelivered := by
    rw [Chip.due_of_delivering (CpuSm.intDecfifo_spec hd).1, List.take_of_length_le hlen]
    rfl
  have hpre := hI.contents_take
  rw [List.take_of_length_le hlen] at hpre
  rw [ht]
  refine List.Sublist.append hw ?_
  rw [Chip.undelivered]
  rcases delivers hK.coupled hq hs hI hK.aligned with
    ⟨-, hd', -⟩ | ⟨-, hwr, -, hk, -⟩ | ⟨-, -, hd', -⟩ | ⟨-, hwr, -, hk, -⟩ | ⟨-, -, hd', -⟩
  · exact Bool.noConfusion (hd.symm.trans hd')
  · rw [hwr, hk, List.drop_zero]
    exact hpre.sublist
  · exact Bool.noConfusion (hd.symm.trans hd')
  · rw [hwr, hk]
    exact (hpre.drop 2).sublist
  · exact Bool.noConfusion (hd.symm.trans hd')

end Step

end System

namespace Chip

/-! ## §3 The end of a flush -/

/-- `CPU_SM` is about to put out `STOPFLUSH`. -/
def EndsFlush (s : Chip) : Prop :=
  s.cpu.state = .s0 ∧ s.cpu.inp.dmaena = true ∧ s.cpu.inp.flushfifo = true ∧
      s.fifo.empty = true ∧ s.lastword = false ∨
    s.cpu.state = .s1 ∧ s.cpu.inp.bgrant_ = false ∧ s.cpu.inp.ncycledone = false ∧
      s.regs.a1 = false ∧ s.lastword = true ∨
    s.cpu.state = .s15 ∧ s.fifo.empty = true

/-- The bytes in the FIFO that neither `COUNT` nor `BYTE_PTR` shows when a flush ends: a
longword that is still to be counted, or a byte that is still to be stepped over and that
the word at the end of a flush does not hold. -/
def overlooked (s : Chip) : ℕ :=
  if s.scsi.rififoO then 4 - s.skip
  else if s.scsi.state = .s2f3 ∧ s.fifo.bo0 = false then 1
  else 0

instance (s : Chip) : Decidable s.EndsFlush :=
  inferInstanceAs (Decidable (_ ∨ _ ∨ _))

theorem Reading.stopflush_iff {s : Chip} {q : Period} (hI : Reading s) (hq : q.NoReset) :
    (s.cpuOut q).stopflush = true ↔ s.EndsFlush := by
  have h : Live s q := ⟨hI.awake, hq⟩
  have e := @CpuSm.stopflush_eq (s.cpuIn q) s.cpu.state (hI.dmadir q hq)
    (by simp only [cpuIn_eq h, Fifo.full_eq, Fifo.empty_eq, decide_eq_true_iff,
          decide_eq_false_iff_not]; omega)
  refine e.trans ?_
  simp [cpuIn_eq h, EndsFlush]

/-- A flush ends with nothing left, or it begins the cycle of what is left: that of a
longword for three bytes, that of a word otherwise. -/
theorem Reading.stopflush_cases {s : Chip} {q : Period} (hI : Reading s) (ha : Aligned s)
    (hq : InSession s q) (hst : (s.cpuOut q).stopflush = true) :
    s.cpu.state.delivering = false ∧
      (s.fifo.empty = true ∧ s.lastword = false ∧
          ((s.period q).cpu.state = .letgo ∨ (s.period q).cpu.state = .s0) ∨
        s.lastword = true ∧ s.skip = 0 ∧ (s.period q).skip = 0 ∧
          (s.period q).cpu.state.delivering = s.fifo.boeq3 ∧
          (s.period q).cpu.state.tail = !s.fifo.boeq3) := by
  have h : Live s q := ⟨hI.awake, hq.noReset⟩
  have ha1 := session_a1 h hq
  have hspec := CpuSm.stopflush_spec (hI.dmadir q hq.noReset) hst
  rw [← period_cpu_state h, cpuIn_eq h] at hspec
  rcases hspec with ⟨e, -, -, he, hl, hn⟩ | ⟨e, -, -, hz, hl, hn⟩ | ⟨e, he, hn⟩
  · exact ⟨by rw [e]; rfl, .inl ⟨he, hl, .inr hn⟩⟩
  · rw [show s.regs.a1 = false from hz, Bool.false_and] at ha1
    refine ⟨by rw [e]; rfl, .inr ⟨hl, by rw [skip, e, show s.regs.a1 = false from hz]; rfl, ?_⟩⟩
    rw [skip, ha1, hn]
    cases s.fifo.boeq3 <;> exact ⟨rfl, rfl, rfl⟩
  · rw [ha (by rw [e]; rfl), Bool.false_and] at ha1
    refine ⟨by rw [e]; rfl, ?_⟩
    cases hl : s.lastword with
    | false =>
        refine .inl ⟨he, rfl, .inl (hn.trans ?_)⟩
        exact if_neg (by rw [hl]; exact Bool.false_ne_true)
    | true =>
        simp only [hl, if_true] at hn
        refine .inr ⟨rfl, by rw [skip, e, ha (by rw [e]; rfl)]; rfl, ?_⟩
        rw [skip, ha1, hn]
        cases s.fifo.boeq3 <;> exact ⟨rfl, rfl, rfl⟩

section Last

variable {s : Chip}

/-- Without a last word, what a flush leaves in an empty FIFO is overlooked. -/
theorem Reading.contents_of_not_lastword (hI : Reading s) (hf : s.regs.flushfifo = true)
    (he : s.fifo.empty = true) (hl : s.lastword = false) :
    s.contents.length - s.skip ≤ s.overlooked := by
  have hb : s.fifo.bytePtr = 0 := by
    simpa [lastword, hf, he, Fifo.boeq0] using hl
  rw [Fifo.empty_eq, decide_eq_true_iff] at he
  rw [contents_length, received, he, hb, overlooked]
  cases hr : s.scsi.rififoO with
  | true =>
      simp [ScsiSm.State.beq_s2f3 (hI.request hr)]
  | false =>
      have h0 : s.fifo.bo0 = false := by rw [Fifo.bo0, hb]; rfl
      by_cases h3 : s.scsi.state = .s2f3
      · simp [h3, h0]
      · simp [h3, beq_eq_false_iff_ne.mpr h3]

theorem contents_of_lastword (hz : Settled s) (hl : s.lastword = true) :
    s.contents.length = s.fifo.bytePtr.toNat + (s.scsi.state == .s2f3).toNat := by
  rw [lastword, Bool.and_eq_true, Bool.and_eq_true, Bool.not_eq_true', Fifo.empty_eq,
    decide_eq_true_iff] at hl
  obtain ⟨⟨hb, -⟩, he⟩ := hl
  have hr : s.scsi.rififoO = false := by
    refine Bool.eq_false_iff.mpr fun hr => ?_
    rw [Fifo.boeq0, hz hr] at hb
    exact Bool.noConfusion hb
  rw [contents_length, received, he, hr]
  simp

/-- The word at the end of a flush holds all but what is overlooked. -/
theorem contents_of_word (hz : Settled s) (hl : s.lastword = true)
    (h3 : s.fifo.boeq3 = false) : s.contents.length ≤ 2 + s.overlooked := by
  have hlen := contents_of_lastword hz hl
  rw [lastword, Bool.and_eq_true, Bool.and_eq_true, Bool.not_eq_true'] at hl
  have hr : s.scsi.rififoO = false := by
    refine Bool.eq_false_iff.mpr fun hr => ?_
    rw [Fifo.boeq0, hz hr] at hl
    exact Bool.noConfusion hl.1.1
  have hp : s.fifo.bytePtr = 1 ∨ s.fifo.bytePtr = 2 := by
    have h0 := hl.1.1
    simp only [Fifo.boeq0, Fifo.boeq3, beq_eq_false_iff_ne] at h0 h3
    revert h0 h3
    generalize s.fifo.bytePtr = p
    revert p
    decide
  rw [hlen, overlooked, hr, if_neg Bool.false_ne_true]
  rcases hp with e | e
  · rw [e]
    have := Bool.toNat_le (s.scsi.state == .s2f3)
    simp
    omega
  · have h0 : s.fifo.bo0 = false := by rw [Fifo.bo0, e]; rfl
    by_cases hs : s.scsi.state = .s2f3
    · simp [hs, h0, e]
    · simp [hs, beq_eq_false_iff_ne.mpr hs, e]

end Last

end Chip

namespace System

section Ends

variable {x : System} {q : Period} (hK : Carrying x) (hq : BusRules x q)
  (hs : Chip.InSession x.chip q)
include hK hq hs

omit hq hs in
/-- What was taken before a flush is in memory or due, up to the last bytes in the FIFO. -/
theorem Carrying.sublist_of_due {before : List Byte} (hb : before <+: x.taken) (n : ℕ)
    (hn : before.length + x.chip.undelivered.length ≤ x.taken.length + n)
    (hdue : (x.chip.undelivered.take n).Sublist (x.step q).chip.due) :
    before.Sublist ((x.step q).written ++ (x.step q).chip.due) := by
  obtain ⟨w, hw, ht⟩ := hK.bytes
  have hbl := hb.length_le
  rw [ht, List.length_append] at hn hbl
  rw [ht] at hb
  have hpre : before <+: w ++ x.chip.undelivered.take n := by
    refine List.prefix_of_prefix_length_le hb
      ((List.prefix_append_right_inj _).mpr (List.take_prefix _ _)) ?_
    rw [List.length_append, List.length_take]
    omega
  exact hpre.sublist.trans (List.Sublist.append (hw.trans (List.sublist_append_left _ _)) hdue)

omit hq in
/-- The last word or the last longword of a flush is written before the bus is left. -/
theorem Carrying.last_ends {before : List Byte} (hb : before <+: x.taken)
    (ho : before.length + x.chip.overlooked ≤ x.taken.length)
    (hl : x.chip.lastword = true) (hdl : x.chip.cpu.state.delivering = false)
    (hk : x.chip.skip = 0) (hk' : (x.chip.period q).skip = 0)
    (h3 : (x.chip.period q).cpu.state.delivering = x.chip.fifo.boeq3)
    (h2 : (x.chip.period q).cpu.state.tail = !x.chip.fifo.boeq3) :
    before.Sublist ((x.step q).written ++ (x.step q).chip.due) := by
  have hd : (x.chip.cpuComb q).intDecfifo = false := CpuSm.intDecfifo_of_not_delivering hdl
  have hc := hK.contents_of_not_dec hs hd
  have hu : x.chip.undelivered = x.chip.contents := by rw [Chip.undelivered, hk, List.drop_zero]
  have hbl := hb.length_le
  -- three bytes go with a longword cycle, one or two with a word
  cases hb3 : x.chip.fifo.boeq3 with
  | true =>
      have hcl := Chip.contents_of_lastword hK.settled hl
      have := x.chip.fifo.bytePtr.isLt
      have := Bool.toNat_le (x.chip.scsi.state == .s2f3)
      apply hK.sublist_of_due hb 4
      · rw [hu]
        omega
      · change (x.chip.undelivered.take 4).Sublist (x.chip.period q).due
        rw [Chip.due_of_delivering (h3.trans hb3), hk', hc, hu, List.drop_zero]
        exact ((List.prefix_append _ _).take 4).sublist
  | false =>
      have := Chip.contents_of_word hK.settled hl hb3
      apply hK.sublist_of_due hb 2
      · rw [hu]
        omega
      · change (x.chip.undelivered.take 2).Sublist (x.chip.period q).due
        have hu' : (x.chip.period q).undelivered = (x.chip.period q).contents := by
          rw [Chip.undelivered, hk', List.drop_zero]
        rw [Chip.due_of_tail (by rw [h2, hb3]; rfl), hu', hc, hu]
        exact ((List.prefix_append _ _).take 2).sublist

/-- A flush that ends delivers the bytes taken before it, if none of them is overlooked. -/
theorem Carrying.flush_ends {before : List Byte} (hb : before <+: x.taken)
    (hf : x.chip.regs.flushfifo = true) (he : x.chip.EndsFlush)
    (ho : before.length + x.chip.overlooked ≤ x.taken.length) :
    before.Sublist ((x.step q).written ++ (x.step q).chip.due) := by
  have hI := hK.reading
  have hst := (hI.stopflush_iff hq.noReset).mpr he
  obtain ⟨hdl, ⟨hem, hl, -⟩ | ⟨hl, hk, hk', h3, h2⟩⟩ := hI.stopflush_cases hK.aligned hs hst
  · have := hI.contents_of_not_lastword hf hem hl
    apply hK.sublist_of_due hb 0
    · rw [Chip.undelivered, List.length_drop]
      omega
    · exact List.nil_sublist _
  · exact hK.last_ends hs hb ho hl hdl hk hk' h3 h2

end Ends

/-! ## §4 Sessions with flushes -/

/-- What is remembered of the flushes of a session. -/
structure Flush where
  /-- The bytes taken from the WD33C93 before the last `FLUSH`. -/
  before : List Byte := []
  /-- `COUNT` has underflowed. -/
  wrapped : Bool := false

/-- The system after a period, with its last flush. -/
def flushStep (y : System × Flush) (q : Period) : System × Flush :=
  (y.1.step q,
    { before := if (y.1.chip.endAccess q).flush then y.1.taken ++ y.1.chip.taken q else y.2.before
      wrapped := y.2.wrapped || decide (Chip.Underflow y.1.chip q) })

/-- The flush ends while a byte that was taken before it is overlooked. -/
def Overlooks (y : System × Flush) (q : Period) : Prop :=
  y.2.wrapped = false ∧ y.1.chip.regs.flushfifo = true ∧ Chip.NoFlush y.1.chip q ∧
    y.1.chip.EndsFlush ∧ y.1.taken.length < y.2.before.length + y.1.chip.overlooked

/-- A period in which no flush overlooks a byte, and none is begun after `COUNT` has
wrapped. -/
structure Heeding (y : System × Flush) (q : Period) : Prop where
  bus : BusRules y.1 q
  session : Chip.InSession y.1.chip q
  seen : ¬ Overlooks y q
  counted : y.2.wrapped = true → Chip.NoFlush y.1.chip q

instance (y : System × Flush) (q : Period) : Decidable (Overlooks y q) :=
  inferInstanceAs (Decidable (_ ∧ _ ∧ _ ∧ _ ∧ _))

instance (y : System × Flush) (q : Period) : Decidable (Heeding y q) :=
  decidable_of_iff
    (BusRules y.1 q ∧ Chip.InSession y.1.chip q ∧ ¬ Overlooks y q ∧
      (y.2.wrapped = true → Chip.NoFlush y.1.chip q))
    ⟨fun ⟨h1, h2, h3, h4⟩ => ⟨h1, h2, h3, h4⟩, fun ⟨h1, h2, h3, h4⟩ => ⟨h1, h2, h3, h4⟩⟩

/-- The invariant of a session with flushes: once `FLUSHFIFO` is clear, what was taken before
the flush is in memory or due. -/
structure Keeping (y : System × Flush) : Prop where
  carrying : y.2.wrapped = false → Carrying y.1 ∧ y.2.before <+: y.1.taken
  flushed : y.2.wrapped = false → y.1.chip.regs.flushfifo = false →
    y.2.before.Sublist (y.1.written ++ y.1.chip.due)
  wrapped : y.2.wrapped = true → y.2.before.Sublist y.1.written

theorem Keeping.step {y : System × Flush} {q : Period} (hI : Keeping y) (hq : Heeding y q) :
    Keeping (flushStep y q) := by
  obtain ⟨x, g⟩ := y
  have hgrow : x.written.Sublist (x.step q).written := List.sublist_append_left _ _
  have hkeep : Chip.NoFlush x.chip q → (flushStep (x, g) q).2.before = g.before := fun hn =>
    if_neg (by rw [show (x.chip.endAccess q).flush = false from hn]; exact Bool.false_ne_true)
  have hwr : (flushStep (x, g) q).2.wrapped =
      (g.wrapped || decide (Chip.Underflow x.chip q)) := rfl
  cases hw : g.wrapped with
  | true =>
      rw [hw, Bool.true_or] at hwr
      refine ⟨fun h => ?_, fun h => ?_, fun _ => ?_⟩
      · exact Bool.noConfusion (hwr.symm.trans h)
      · exact Bool.noConfusion (hwr.symm.trans h)
      · rw [hkeep (hq.counted hw)]
        exact (hI.wrapped hw).trans hgrow
  | false =>
      obtain ⟨hK, hb⟩ := hI.carrying hw
      have h := hK.coupled.live hq.bus
      rw [hw, Bool.false_or] at hwr
      by_cases hu : Chip.Underflow x.chip q
      · -- the whole FIFO is written in the period that wraps `COUNT`
        rw [decide_eq_true hu] at hwr
        refine ⟨fun h => ?_, fun h => ?_, fun _ => ?_⟩
        · exact Bool.noConfusion (hwr.symm.trans h)
        · exact Bool.noConfusion (hwr.symm.trans h)
        · have hd := ((Chip.underflow_iff h).mp hu).1
          rw [hK.reading.cpuOut_decfifo q hq.bus.noReset] at hd
          rw [hkeep (hK.coupled.noFlush hq.bus ?_)]
          · exact hb.sublist.trans (hK.taken_of_underflow hq.bus hq.session hu)
          · rw [Chip.cpuOut_bgack, (CpuSm.intDecfifo_spec hd).2]
            rfl
      · rw [decide_eq_false hu] at hwr
        refine ⟨fun _ => ⟨hK.step hq.bus hq.session hu, ?_⟩, fun _ hf => ?_, fun h => ?_⟩
        · change (if (x.chip.endAccess q).flush then x.taken ++ x.chip.taken q else g.before) <+:
            x.taken ++ x.chip.taken q
          split
          · exact List.prefix_rfl
          · exact hb.trans (List.prefix_append _ _)
        · change (x.chip.period q).regs.flushfifo = false at hf
          rw [Chip.period_flushfifo h] at hf
          split_ifs at hf with hfl hst
          · -- the flush ends
            have hn : Chip.NoFlush x.chip q := Bool.eq_false_iff.mpr hfl
            rw [hkeep hn]
            have he := (hK.reading.stopflush_iff hq.bus.noReset).mp hst
            cases hr : x.chip.regs.flushfifo with
            | false => exact (hI.flushed hw hr).trans (hK.due_step hq.bus hq.session)
            | true =>
                apply hK.flush_ends hq.bus hq.session hb hr he
                by_contra ho
                exact hq.seen ⟨hw, hr, hn, he, Nat.not_le.mp ho⟩
          · rw [hkeep (Bool.eq_false_iff.mpr hfl)]
            exact (hI.flushed hw hf).trans (hK.due_step hq.bus hq.session)
        · exact Bool.noConfusion (hwr.symm.trans h)

theorem Start.carrying {x : System} (hx : Start x) (hd : x.chip.regs.ndmadir = false) :
    Carrying x := by
  have hD := hx.draining hd
  exact
    { coupled := hD.coupled
      reading := hD.reading
      strobed := hD.strobed
      aligned := hD.aligned
      settled := fun hr => by rw [hx.dma.rififoO] at hr; exact Bool.noConfusion hr
      request := hD.fed.request
      upper := fun hdl => by
        rcases hx.dma.cpu_state with e | e <;> rw [e] at hdl <;> exact Bool.noConfusion hdl
      skip_le := hD.stream.skip_le
      bytes := ⟨x.written, List.Sublist.refl _, hD.stream.bytes⟩ }

theorem Start.keeping {x : System} (hx : Start x) (hd : x.chip.regs.ndmadir = false) :
    Keeping (x, {}) where
  carrying _ := ⟨hx.carrying hd, List.nil_prefix⟩
  flushed _ _ := List.nil_sublist _
  wrapped h := Bool.noConfusion h

/-- In every session from the WD33C93 to memory in which no flush ends while a byte taken
before it is overlooked, and no flush is begun after `COUNT` has wrapped: once `FLUSHFIFO` is
clear and `CPU_SM` is back in `s0`, memory has got every byte that was taken before the
flush. -/
theorem flush_not_lost {x : System} (hx : Start x) (hd : x.chip.regs.ndmadir = false)
    {qs : List Period} (hqs : Runs.Along flushStep Heeding (x, {}) qs)
    (hf : (Runs.run flushStep (x, {}) qs).1.chip.regs.flushfifo = false)
    (hs : (Runs.run flushStep (x, {}) qs).1.chip.cpu.state = .s0) :
    (Runs.run flushStep (x, {}) qs).2.before.Sublist
      (Runs.run flushStep (x, {}) qs).1.written := by
  have hI := Runs.invariant_run (I := Keeping) (fun y q hI hq => hI.step hq) (hx.keeping hd) hqs
  cases hw : (Runs.run flushStep (x, {}) qs).2.wrapped with
  | true => exact hI.wrapped hw
  | false =>
      have hb := hI.flushed hw hf
      rw [Chip.due, hs] at hb
      exact hb.trans (by simp [CpuSm.State.tail, CpuSm.State.delivering])

theorem flush_not_lost_fresh :
    let y := Runs.run flushStep (fresh false false, {}) (oneByte ++ flushCycle ++ oneCycle)
    y.2.before.Sublist y.1.written :=
  flush_not_lost (fresh_start false false) rfl (by decide +kernel) (by decide +kernel)
    (by decide +kernel)

/-- The fourth byte of a longword arrives while the longword before it is written: `s15`
finds `COUNT` at zero and `BYTE_PTR` wrapped. -/
theorem flush_loses :
    ¬ ∀ x, Start x → x.chip.regs.ndmadir = false → ∀ qs,
      Runs.Along flushStep (fun y q => BusRules y.1 q ∧ Chip.InSession y.1.chip q) (x, {}) qs →
      (Runs.run flushStep (x, {}) qs).1.chip.regs.flushfifo = false →
      (Runs.run flushStep (x, {}) qs).1.chip.cpu.state = .s0 →
      (Runs.run flushStep (x, {}) qs).2.before.Sublist
        (Runs.run flushStep (x, {}) qs).1.written := by
  intro h
  have hd := (h (fresh false false) (fresh_start false false) rfl
    ((List.replicate 7 oneByte).flatten ++ flushCycle ++
      .steady { dreq_ := false, bg_ := false } :: oneCycle.tail)
    (by decide +kernel) (by decide +kernel) (by decide +kernel)).length_le
  -- seven bytes were taken before the flush, and four are in memory
  revert hd
  decide +kernel

end System

end Resdmac
