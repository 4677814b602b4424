import Resdmac.Counter

/-!
# FIFO Accounting across the Two Machines

`SCSI_SM` asks `CPU_SM` to step `COUNT` for it, while `CPU_SM` steps it on its own
account; the pointers move on another edge. A ghost tally counts what is asked for and
what happens, and the two agree up to the steps in flight.

## Main definitions

- `Tally` — the requests and steps since the start of the session
- `Chip.Accounted` — the tally agrees with the registers

## Main results

- `Chip.fifo_accounting` — every period of a session without `FLUSH` is accounted for
-/

namespace Resdmac

/-- What the two machines asked for and what the counter and the pointers did. -/
structure Tally where
  /-- exits of `S2F_3` with `BOEQ3` -/
  reqIn : ℕ := 0
  /-- exits of `F2S_3` with `BOEQ3` -/
  reqOut : ℕ := 0
  /-- `int_INCFIFO` -/
  ownIn : ℕ := 0
  /-- `int_DECFIFO` -/
  ownOut : ℕ := 0
  /-- steps of `COUNT` up -/
  incs : ℕ := 0
  /-- steps of `COUNT` down -/
  decs : ℕ := 0
  /-- steps of `WRITE_PTR` -/
  writes : ℕ := 0
  /-- steps of `READ_PTR` -/
  reads : ℕ := 0

namespace Chip

/-! ## §1 The tally of a session -/

/-- The tally after a period: the machines move at CLK90 rising, the pointers at CLK135
rising and `COUNT` at SCLK falling. -/
def tally (t : Tally) (s : Chip) (q : Period) : Tally :=
  let a := s.atClk90Rise q
  let b := s.atClk135Rise q
  let c := s.atSclkFall q
  { reqIn := t.reqIn + (a.scsi.state == .s2f3 && a.fifo.boeq3).toNat
    reqOut := t.reqOut + (a.scsi.state == .f2s3 && a.fifo.boeq3).toNat
    ownIn := t.ownIn +
      (CpuSm.comb (a.cpuInputs q.clk90Rise) a.cpu.state).intIncfifo.toNat
    ownOut := t.ownOut +
      (CpuSm.comb (a.cpuInputs q.clk90Rise) a.cpu.state).intDecfifo.toNat
    incs := t.incs + (c.rstFifo_ && c.cpu.out.incfifo && !c.cpu.out.decfifo).toNat
    decs := t.decs + (c.rstFifo_ && c.cpu.out.decfifo).toNat
    writes := t.writes + (b.rstFifo_ && b.incni).toNat
    reads := t.reads + (b.rstFifo_ && b.incno).toNat }

/-- The chip with its tally. -/
def periodTallied (x : Chip × Tally) (q : Period) : Chip × Tally :=
  (x.1.period q, tally x.2 x.1 q)

/-- A step is on its way: a request that `COUNT` has not followed yet, or the entry that
`s35` counted and `WRITE_PTR` has not stepped over yet. -/
def InFlight (s : Chip) : Prop :=
  s.scsi.rififoO = true ∨ s.scsi.rdfifoO = true ∨ s.cpu.state = .s35

/-- The tally agrees with the registers, and the period keeps to its rules. -/
structure Accounted (x : Chip × Tally) (q : Period) : Prop where
  /-- The two strobes are exclusive at SCLK falling. -/
  exclusive : ¬ ((x.1.atSclkFall q).cpu.out.incfifo = true ∧
    (x.1.atSclkFall q).cpu.out.decfifo = true)
  countUp : x.2.incs + x.1.scsi.rififoO.toNat = x.2.reqIn + x.2.ownIn
  countDown : x.2.decs + x.1.scsi.rdfifoO.toNat = x.2.reqOut + x.2.ownOut
  writePtr : x.2.writes + (x.1.cpu.state == .s35).toNat = x.2.reqIn + x.2.ownIn
  readPtr : x.2.reads = x.2.reqOut + x.2.ownOut
  count : x.1.fifo.level + x.2.decs = x.2.incs
  /-- A pending request is counted in this period or, if `CPU_SM` makes a step of its
  own in it, in the next one. -/
  prompt : ∀ q', InSession (x.1.period q) q' →
    ((x.1.period q).scsi.rififoO = true → x.1.scsi.rififoO = true →
      ((x.1.period q).period q').scsi.rififoO = false) ∧
    ((x.1.period q).scsi.rdfifoO = true → x.1.scsi.rdfifoO = true →
      ((x.1.period q).period q').scsi.rdfifoO = false)
  /-- `SCSI_SM` starts a byte only when all its requests are counted. -/
  next : (x.1.period q).scsi.state = .s2f1 ∨ (x.1.period q).scsi.state = .f2s1 →
    x.2.incs = x.2.reqIn + x.2.ownIn ∧ x.2.decs = x.2.reqOut + x.2.ownOut
  settled : ¬ InFlight x.1 →
    x.1.fifo.writePtr - x.1.fifo.readPtr = BitVec.ofNat 3 x.1.fifo.level ∧
    (x.1.fifo.full = true ↔ x.2.reqIn + x.2.ownIn = x.2.reqOut + x.2.ownOut + 8) ∧
    (x.1.fifo.empty = true ↔ x.2.reqIn + x.2.ownIn = x.2.reqOut + x.2.ownOut)

/-! ## §2 The books -/

/-- The equations between the tally and the registers. -/
structure Books (s : Chip) (t : Tally) : Prop where
  countUp : t.incs + s.scsi.rififoO.toNat = t.reqIn + t.ownIn
  countDown : t.decs + s.scsi.rdfifoO.toNat = t.reqOut + t.ownOut
  writePtr : t.writes + (s.cpu.state == .s35).toNat = t.reqIn + t.ownIn
  readPtr : t.reads = t.reqOut + t.ownOut
  count : s.fifo.level + t.decs = t.incs

/-- The tally in terms of the registers before the period. -/
theorem tally_eq {s : Chip} {q : Period} (h : Live s q) (t : Tally) :
    tally t s q =
      { reqIn := t.reqIn + (s.scsi.state == .s2f3 && s.fifo.boeq3).toNat
        reqOut := t.reqOut + (s.scsi.state == .f2s3 && s.fifo.boeq3).toNat
        ownIn := t.ownIn + (s.cpuComb q).intIncfifo.toNat
        ownOut := t.ownOut + (s.cpuComb q).intDecfifo.toNat
        incs := t.incs + (s.rstOut_ q && (s.cpuOut q).incfifo && !(s.cpuOut q).decfifo).toNat
        decs := t.decs + (s.rstOut_ q && (s.cpuOut q).decfifo).toNat
        writes := t.writes +
          (s.rstOut_ q && ((s.cpuOut q).incni || (s.scsiOut q).incni)).toNat
        reads := t.reads +
          (s.rstOut_ q && ((s.cpuOut q).incno || (s.scsiOut q).incno)).toNat } := by
  have hs : (s.atClk90Rise q).scsi.state = s.scsi.state := by rw [atClk90Rise_eq h]; rfl
  have hf : (s.atClk90Rise q).fifo = s.fifo := by rw [atClk90Rise_eq h]; rfl
  have hc : (s.atClk90Rise q).cpu.state = s.cpu.state := by rw [atClk90Rise_eq h]; rfl
  simp only [tally, hs, hf, hc, atClk135Rise_rstFifo_ h, atClk135Rise_incni h,
    atClk135Rise_incno h, atSclkFall_rstFifo_ h, atSclkFall_cpu_out h]
  rfl

theorem Quiet.not_spuriousTail {s : Chip} (hz : Quiet s) : ¬ SpuriousTail s := by
  rintro ⟨hl, -⟩
  rw [lastword, hz.1, Bool.and_false, Bool.false_and] at hl
  exact Bool.noConfusion hl

theorem Quiet.not_resetRace {s : Chip} (hz : Quiet s) : ¬ ResetRace s := by
  rintro ⟨-, hf, -⟩
  rw [hz.2] at hf
  exact Bool.noConfusion hf

theorem Reading.books_step {s : Chip} {q : Period} {t : Tally} (hI : Reading s)
    (hq : InSession s q) (hu : ¬ Underflow s q) (hb : Books s t) :
    Books (s.period q) (tally t s q) := by
  have h : Live s q := ⟨hI.awake, hq.noReset⟩
  have hc := hI.cpuComb_spec q hq.noReset
  have hni : (s.cpuOut q).incni = false := hc.2.1
  have hno : (s.cpuOut q).incno = (s.cpuComb q).intDecfifo := rfl
  have hg := ScsiSm.State.beq_f2s3 hI.scsi
  have hnew := hI.request_spec
  have hl := hI.period_level hq hu
  have hdec := hI.intDecfifo_spec hq hu
  obtain ⟨b1, b2, b3, b4, b5⟩ := hb
  rw [CpuSm.State.beq_s35 hI.cpu] at b3
  rw [hI.rdfifoO] at b2
  rw [tally_eq h, hI.rstOut_ q hq.noReset, hI.cpuOut_decfifo q hq.noReset,
    hI.cpuOut_incfifo q hq.noReset, hni, hno, hc.1, hg, hI.scsiOut_incno q hq.noReset,
    scsiOut_incni h]
  have hp : (s.scsi.state == .s2f3 && s.fifo.boeq3) = true → s.scsi.rififoO = false :=
    fun hr => (hnew hr).1
  unfold received at hl
  constructor <;>
    simp only [hI.period_rififoO hq, hI.period_rdfifoO hq, hl,
      CpuSm.State.beq_s35 (hI.step hq hu).cpu, Bool.false_and, Bool.true_and, Bool.false_or,
      Bool.toNat_false, Nat.add_zero] at b1 b2 b3 b4 b5 ⊢
  · -- a new request finds the one before it counted
    cases hr : (s.scsi.state == .s2f3 && s.fifo.boeq3) with
    | true =>
        rw [hp hr, Bool.toNat_false] at b1
        simp [hp hr]
        omega
    | false =>
        cases (s.cpuComb q).intDecfifo <;> simp <;> omega
  · omega
  · omega
  · cases (s.cpuComb q).intDecfifo <;> simp <;> omega
  · cases hd : (s.cpuComb q).intDecfifo with
    | true =>
        have h1 := hdec hd
        simp
        omega
    | false =>
        simp
        omega

theorem Writing.books_step {s : Chip} {q : Period} {t : Tally} (hI : Writing s)
    (hq : InSession s q) (hz : Quiet s) (hb : Books s t) :
    Books (s.period q) (tally t s q) := by
  have h : Live s q := ⟨hI.awake, hq.noReset⟩
  have hr : (s.cpuOut q).rstFifo = false := by
    refine Bool.eq_false_iff.mpr fun hr => ?_
    have hf := (CpuSm.rstFifo_spec hr).2.2.2.1
    rw [cpuIn_eq h, hz.2] at hf
    exact Bool.noConfusion hf
  have hno : (s.cpuOut q).incno = false := hI.intDecfifo q
  have hnew := hI.request_spec
  have hl := hI.period_level hq hr
  have hp : (s.scsi.state == .f2s3 && s.fifo.boeq3) = true → s.scsi.rdfifoO = false :=
    fun hn => (hnew hn).1
  obtain ⟨b1, b2, b3, b4, b5⟩ := hb
  rw [hI.rififoO] at b1
  rw [tally_eq h, hI.rstOut_eq, hr, hI.cpuOut_decfifo q hq.noReset,
    hI.cpuOut_incfifo q hq.noReset, hno, hI.intDecfifo q, cpuOut_incni,
    ScsiSm.State.beq_s2f3 hI.scsi, hI.scsiOut_incni q hq.noReset, scsiOut_incno h]
  constructor <;>
    simp only [hI.period_rififoO hq, hI.period_rdfifoO hq, hI.period_s35 hq, Bool.false_and,
      Bool.true_and, Bool.false_or, Bool.or_false, Bool.not_false, Bool.toNat_false,
      Nat.add_zero] at b1 b2 b3 b4 b5 hl ⊢
  · cases (s.cpuComb q).intIncfifo <;> simp <;> omega
  · -- a new request finds the one before it counted
    cases hn : (s.scsi.state == .f2s3 && s.fifo.boeq3) with
    | true =>
        rw [hp hn, Bool.toNat_false] at b2
        simp [hp hn]
        omega
    | false =>
        cases (s.cpuComb q).intIncfifo <;> simp <;> omega
  · omega
  · omega
  · cases hc : (s.cpuComb q).intIncfifo <;> cases hd : s.scsi.rdfifoO <;> rw [hc, hd] at hl <;>
      simp at hl ⊢ <;> omega

/-! ## §3 Every period is accounted for -/

/-- The invariant of a session without `FLUSH`. -/
structure Balanced (x : Chip × Tally) : Prop where
  quiet : Quiet x.1
  books : Books x.1 x.2
  dir : Reading x.1 ∧ Fed x.1 ∨ Writing x.1

namespace Balanced

variable {x : Chip × Tally} {q : Period} (hx : Balanced x) (hq : InSession x.1 q)
include hx hq

theorem step (hn : NoFlush x.1 q) : Balanced (periodTallied x q) := by
  rcases hx with ⟨hz, hb, ⟨hI, hf⟩ | hI⟩
  · have hu := hI.not_underflow hq hf
    exact ⟨hz.step ⟨hI.awake, hq.noReset⟩ hn, hI.books_step hq hu hb,
      .inl ⟨hI.step hq hu, hI.fed_step hq hf hz.not_spuriousTail⟩⟩
  · exact ⟨hz.step ⟨hI.awake, hq.noReset⟩ hn, hI.books_step hq hz hb,
      .inr (hI.step hq hz.not_resetRace)⟩

theorem exclusive : ¬ ((x.1.atSclkFall q).cpu.out.incfifo = true ∧
    (x.1.atSclkFall q).cpu.out.decfifo = true) := by
  rcases hx.dir with ⟨hI, -⟩ | hI
  · rw [atSclkFall_cpu_out ⟨hI.awake, hq.noReset⟩, hI.cpuOut_decfifo q hq.noReset,
      hI.cpuOut_incfifo q hq.noReset]
    rintro ⟨hi, hd⟩
    rw [hd] at hi
    exact Bool.noConfusion hi
  · rw [atSclkFall_cpu_out ⟨hI.awake, hq.noReset⟩, hI.cpuOut_decfifo q hq.noReset,
      hI.cpuOut_incfifo q hq.noReset]
    rintro ⟨hi, hd⟩
    rw [hi] at hd
    exact Bool.noConfusion hd

/-- A request that one period leaves pending is counted by the next. -/
theorem prompt {q' : Period} (hn : NoFlush x.1 q) (hq' : InSession (x.1.period q) q') :
    ((x.1.period q).scsi.rififoO = true → x.1.scsi.rififoO = true →
      ((x.1.period q).period q').scsi.rififoO = false) ∧
    ((x.1.period q).scsi.rdfifoO = true → x.1.scsi.rdfifoO = true →
      ((x.1.period q).period q').scsi.rdfifoO = false) := by
  have hd' := (hx.step hq hn).dir
  rcases hx.dir with ⟨hI, hf⟩ | hI
  · have hI' := hI.step hq (hI.not_underflow hq hf)
    refine ⟨fun hr' hr => ?_, fun hr' _ => by rw [hI'.rdfifoO] at hr'; exact Bool.noConfusion hr'⟩
    have hd : (x.1.cpuComb q).intDecfifo = true := by
      have e := hI.period_rififoO hq
      rw [hr', ScsiSm.State.beq_s2f3 (hI.request hr), hr] at e
      simpa using e.symm
    -- `CPU_SM` goes to `s15`, from where it does not step the counter
    have hd' : ((x.1.period q).cpuComb q').intDecfifo = false := by
      refine Bool.eq_false_iff.mpr fun hc => ?_
      have hs := (CpuSm.intDecfifo_spec hc).1
      rw [period_cpu_state ⟨hI.awake, hq.noReset⟩, (CpuSm.intDecfifo_spec hd).2] at hs
      exact Bool.noConfusion hs
    rw [hI'.period_rififoO hq', ScsiSm.State.beq_s2f3 (hI'.request hr'), hd']
    simp
  · have hz : ¬ ResetRace x.1 := hx.quiet.not_resetRace
    have hI' := hI.step hq hz
    refine ⟨fun hr' _ => by rw [hI'.rififoO] at hr'; exact Bool.noConfusion hr', fun hr' hr => ?_⟩
    have hd : (x.1.cpuComb q).intIncfifo = true := by
      have e := hI.period_rdfifoO hq
      rw [hr', ScsiSm.State.beq_f2s3 (hI.request hr), hr] at e
      simpa using e.symm
    -- `CPU_SM` goes to `s35`, from where it does not step the counter
    have hd' : ((x.1.period q).cpuComb q').intIncfifo = false := by
      refine Bool.eq_false_iff.mpr fun hc => ?_
      have hs := (CpuSm.intIncfifo_spec hc).1
      rw [period_cpu_state ⟨hI.awake, hq.noReset⟩, (CpuSm.intIncfifo_spec hd).2] at hs
      exact Bool.noConfusion hs
    rw [hI'.period_rdfifoO hq', ScsiSm.State.beq_f2s3 (hI'.request hr'), hd']
    simp

theorem next (hs : (x.1.period q).scsi.state = .s2f1 ∨ (x.1.period q).scsi.state = .f2s1) :
    x.2.incs = x.2.reqIn + x.2.ownIn ∧ x.2.decs = x.2.reqOut + x.2.ownOut := by
  have hb := hx.books
  have hp : x.1.scsi.rififoO = false ∧ x.1.scsi.rdfifoO = false := by
    rcases hx.dir with ⟨hI, hf⟩ | hI
    · refine ⟨?_, hI.rdfifoO⟩
      rcases hs with hs | hs
      · exact (hI.period_taking hq (by rw [hs]; rfl)).2.1
      · have hg := (hI.step hq (hI.not_underflow hq hf)).scsi
        rw [hs] at hg
        exact Bool.noConfusion hg
    · refine ⟨hI.rififoO, ?_⟩
      rcases hs with hs | hs
      · have ht := hI.period_taking hq
        rw [hs] at ht
        exact Bool.noConfusion ht
      · exact (hI.period_giving hq (by rw [hs]; rfl)).2.1
  have h1 := hb.countUp
  have h2 := hb.countDown
  rw [hp.1] at h1
  rw [hp.2] at h2
  exact ⟨h1, h2⟩

omit hq in
theorem settled (hn : ¬ InFlight x.1) :
    x.1.fifo.writePtr - x.1.fifo.readPtr = BitVec.ofNat 3 x.1.fifo.level ∧
    (x.1.fifo.full = true ↔ x.2.reqIn + x.2.ownIn = x.2.reqOut + x.2.ownOut + 8) ∧
    (x.1.fifo.empty = true ↔ x.2.reqIn + x.2.ownIn = x.2.reqOut + x.2.ownOut) := by
  have hi : x.1.scsi.rififoO = false := Bool.eq_false_iff.mpr fun h => hn (.inl h)
  have ho : x.1.scsi.rdfifoO = false := Bool.eq_false_iff.mpr fun h => hn (.inr (.inl h))
  have hs : (x.1.cpu.state == .s35) = false := beq_eq_false_iff_ne.mpr fun h => hn (.inr (.inr h))
  have h1 := hx.books.countUp
  have h2 := hx.books.countDown
  have h3 := hx.books.count
  rw [hi] at h1
  rw [ho] at h2
  rw [Fifo.full_eq, Fifo.empty_eq, decide_eq_true_iff, decide_eq_true_iff]
  simp only [Bool.toNat_false, Nat.reducePow] at h1 h2 ⊢
  refine ⟨?_, by omega, by omega⟩
  rcases hx.dir with ⟨hI, -⟩ | hI
  · have hp := hI.ptrs
    rw [received, hi] at hp
    rw [hp]
    exact add_sub_cancel_left ..
  · have hp := hI.ptrs
    rw [unsent, ho, hs] at hp
    rw [hp]
    exact add_sub_cancel_left ..

end Balanced

/-- In every session without `FLUSH`, in either direction, every period is accounted
for. -/
theorem fifo_accounting {s : Chip} (hs : DmaStart s) (hz : Quiet s) {qs : List Period}
    (h : Runs.Along periodTallied (fun x q => InSession x.1 q ∧ NoFlush x.1 q) (s, {}) qs) :
    Runs.Along periodTallied Accounted (s, {}) qs := by
  -- nothing is counted yet, and the direction of the session selects the invariant
  have h0 : Balanced (s, {}) := by
    refine ⟨hz, ?_, ?_⟩
    · have h35 : (s.cpu.state == .s35) = false := by
        rcases hs.cpu_state with e | e <;> rw [e] <;> rfl
      constructor
      · simp [hs.rififoO]
      · simp [hs.rdfifoO]
      · simp [h35]
      · rfl
      · exact hs.level
    · cases hd : s.regs.ndmadir with
      | false =>
          refine .inl ⟨hs.reading hd, fun hc => ?_, fun hc => ?_⟩ <;>
            rcases hs.cpu_state with e | e <;> rw [e] at hc <;> cases hc
      | true => exact .inr (hs.writing hd)
  refine Runs.along_of_invariant (I := Balanced) ?_ h0 h
  rintro x q hx ⟨hq, hn⟩
  have hb := hx.books
  exact
    ⟨{ exclusive := hx.exclusive hq
       countUp := hb.countUp
       countDown := hb.countDown
       writePtr := hb.writePtr
       readPtr := hb.readPtr
       count := hb.count
       prompt := fun q' hq' => hx.prompt hq hn hq'
       next := hx.next hq
       settled := hx.settled }, hx.step hq hn⟩

/-- Both machines step `COUNT`. -/
theorem fifo_accounting_fresh :
    Runs.Along periodTallied Accounted (fresh true false, {}) filledAndDrained :=
  fifo_accounting (fresh_dmaStart true false) ⟨rfl, rfl⟩ (by decide +kernel)

end Chip

end Resdmac
