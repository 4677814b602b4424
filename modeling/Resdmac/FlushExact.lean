import Resdmac.FlushFlag
import Resdmac.FlushTwice
import Resdmac.Tenure

/-!
# What a Flush Writes

With the WD33C93 quiet, a flush of the read direction has to write what was received and not
yet written, and nothing else. The last word of a longword is written by `s10` to `s12`,
which leave `COUNT` alone. A longword that lacks its last byte, or a first word at an odd
address that was never received, is written by the states that step `COUNT` down, and `COUNT`
wraps.

## Main definitions

- `System.Exact` — a run writes what was left to write, and then the bus stays released
- `System.Emptying`, `System.Emptied` — the two phases of an exact flush
- `System.Doomed`, `System.Overrun` — before and after the wrap of `COUNT`

## Main results

- `System.flush_exact_iff` — a flush is exact iff three bytes are not left over, and `A1` is
  not set with nothing complete in the FIFO
-/

namespace Resdmac

open Chip (Period strobe held ended oneByte sixBytes tenure)

namespace System

/-! ## §1 Exact flushes -/

/-- A flush that begins in `x` writes the bytes `rest` that were received and not yet written,
up to a byte that fills the last word, and no more; then `FLUSHFIFO` and `COUNT` are clear and
the bus stays released. With nothing to write there is no memory cycle. -/
structure Exact (x : System) (q : ℕ → Period) : Prop where
  done : ∃ rest N, x.taken = x.written ++ rest ∧ ∀ n, N ≤ n →
    (Runs.states step x q n).chip.regs.flushfifo = false ∧
      (Runs.states step x q n).chip.fifo.count = 0 ∧
      (Runs.states step x q n).chip.own = false ∧
      (Runs.states step x q n).chip.cpu.out.breq = false ∧
      ∃ pad, pad.length = x.chip.fifo.bytePtr.toNat % 2 ∧
        (Runs.states step x q n).written = x.written ++ rest ++ pad
  none : x.taken = x.written → ∀ n, (Runs.states step x q n).chip.asO_ = true

/-- The environment of a flush: the CPU accesses `FLUSH` once, the WD33C93 raises no `_DREQ`,
the bus is granted at last to a chip that waits for it, and memory terminates each cycle at
last. -/
structure FlushedOnce (x : System) (q : ℕ → Period) : Prop where
  waiting : ∀ n, Waiting (Runs.states step x q n) (q n)
  /-- `FLUSH` is decoded in each period from the first one on until the access ends, which
  takes any number of them, and in none after it. -/
  strobe : ∃ k, ∀ n, ((Runs.states step x q n).chip.endAccess (q n)).flush = true ↔ n ≤ k
  grants : ∀ m, ∃ n, m ≤ n ∧ ((Runs.states step x q n).chip.cpu.state.waiting = true →
    (Runs.states step x q n).chip.cpu.inp.bgrant_ = false ∧
      (Runs.states step x q n).chip.cpu.inp.ncycledone = false)
  answers : Answering x q

/-! ## §2 The phases of an exact flush -/

/-- The flush has still something to write, or it has not begun: `total` is what memory has to
hold in the end. -/
structure Emptying (total : List Byte) (x : System) : Prop where
  carrying : Carrying x
  still : Chip.Still x.chip
  fed : Chip.Fed x.chip
  bytes : total = x.written ++ x.chip.undelivered
  first : x.chip.regs.a1 = true → 1 ≤ x.chip.fifo.level
  three : x.chip.fifo.bytePtr ≠ 3
  offBus : x.chip.cpu.state.onBus = false → x.chip.cpu.state = .s0 ∨ x.chip.cpu.state = .s1
  letgo : x.chip.cpu.state ≠ .letgo
  flush : x.chip.regs.flushfifo = !x.chip.cpu.state.tail
  tail : x.chip.cpu.state.tail = true → x.chip.fifo.level = 0 ∧ x.chip.fifo.bytePtr ≠ 0

/-- The flush has written everything. -/
structure Emptied (total : List Byte) (x : System) : Prop where
  carrying : Carrying x
  still : Chip.Still x.chip
  flushfifo : x.chip.regs.flushfifo = false
  level : x.chip.fifo.level = 0
  state : x.chip.cpu.state = .s15 ∨ x.chip.cpu.state = .letgo ∨ x.chip.cpu.state = .s0
  breq : x.chip.cpu.out.breq = false
  bytes : ∃ pad, pad.length = x.chip.fifo.bytePtr.toNat % 2 ∧ x.written = total ++ pad

section Quiet

variable {x : System} {q : Period} (hK : Carrying x) (hz : Chip.Still x.chip)
  (hq : Waiting x q)
include hK hz hq

/-- Nothing is taken from a quiet peripheral. -/
theorem Carrying.step_taken : (x.step q).taken = x.taken := by
  change x.taken ++ x.chip.taken q = x.taken
  rw [hz.taken hK.reading hq.session hK.strobed, List.append_nil]

theorem Carrying.step_bytePtr : (x.step q).chip.fifo.bytePtr = x.chip.fifo.bytePtr := by
  change (x.chip.period q).fifo.bytePtr = _
  rw [hK.reading.period_bytePtr_eq q hq.session.noReset, ScsiSm.State.beq_s2f3 hz.state,
    if_neg Bool.false_ne_true]

/-- `COUNT` changes only when an entry is stepped over. -/
theorem Carrying.step_level (hd : (x.chip.cpuComb q).intDecfifo = false) :
    (x.step q).chip.fifo.level = x.chip.fifo.level := by
  change (x.chip.period q).fifo.level = _
  rw [(hK.reading.period_received_of_not_dec hq.session hd).1, Chip.received, hz.rififoO]
  rfl

theorem Carrying.step_contents (hd : (x.chip.cpuComb q).intDecfifo = false) :
    (x.step q).chip.contents = x.chip.contents := by
  change (x.chip.period q).contents = _
  rw [hK.contents_of_not_dec hq.session hd, hz.taken hK.reading hq.session hK.strobed,
    List.append_nil]

omit hK hq in
theorem Carrying.contents_length_of_still :
    x.chip.contents.length = 4 * x.chip.fifo.level + x.chip.fifo.bytePtr.toNat := by
  rw [Chip.contents_length, Chip.received, hz.rififoO, ScsiSm.State.beq_s2f3 hz.state]
  rfl

end Quiet

/-! ### The history

What was taken plays no part in what happens next. -/

section History

variable {x : System} {q : Period} (t : List Byte)

theorem Coupled.withTaken (hC : Coupled x) : Coupled { x with taken := t } := { hC with }

theorem BusRules.withTaken (hq : BusRules x q) : BusRules { x with taken := t } q := { hq with }

end History

/-! ### Steps of an exact flush -/

namespace Emptying

section Step

variable {total : List Byte} {x : System} {q : Period} (hE : Emptying total x)
  (hq : Waiting x q)
include hE

theorem not_spuriousTail : ¬ Chip.SpuriousTail x.chip := by
  rintro ⟨hl, hcase⟩
  have h3 : x.chip.fifo.boeq3 = false := beq_eq_false_iff_ne.mpr hE.three
  rw [Chip.lastword, Bool.and_eq_true, Fifo.empty_eq, decide_eq_true_iff] at hl
  rcases hcase with ⟨-, -, -, ha | hb⟩ | ⟨-, hb⟩
  · have := hE.first ha
    omega
  · exact Bool.noConfusion (h3.symm.trans hb)
  · exact Bool.noConfusion (h3.symm.trans hb)

include hq

/-- A longword is stepped over only when it is there. -/
theorem not_underflow : ¬ Chip.Underflow x.chip q :=
  hE.carrying.reading.not_underflow hq.session hE.fed

/-- The bytes that nobody wrote stay in the FIFO, until the last word is written. -/
theorem step_bytes (ht : x.chip.cpu.state.tail = true → x.chip.written q = []) :
    total = (x.step q).written ++ (x.step q).chip.undelivered := by
  have hK := hE.carrying
  cases htl : x.chip.cpu.state.tail with
  | false =>
      -- the step of a stream, for the bytes that memory has to hold in the end
      have hD : Draining { x with taken := total } :=
        { coupled := hK.coupled.withTaken total, reading := hK.reading, fed := hE.fed
          strobed := hK.strobed, aligned := hK.aligned, stream := ⟨hE.bytes, hK.skip_le⟩ }
      have hbytes := (hD.stream_step (hq.bus.withTaken total) hq.session htl).bytes
      change total ++ x.chip.taken q = _ at hbytes
      rw [hE.still.taken hK.reading hq.session hK.strobed, List.append_nil] at hbytes
      exact hbytes
  | true =>
      have hw := ht htl
      have hd : (x.chip.cpuComb q).intDecfifo = false :=
        CpuSm.intDecfifo_of_not_delivering (CpuSm.State.not_delivering_of_tail htl)
      have hK' := hK.step hq.bus hq.session (hE.not_underflow hq)
      have hk' : (x.step q).chip.skip = 0 := hK'.skip_of_tail (hK.tail_of_not_written hq.bus htl hw)
      have hwr : (x.step q).written = x.written := by
        change x.written ++ x.chip.written q = _
        rw [hw, List.append_nil]
      rw [hwr, hE.bytes, Chip.undelivered, Chip.undelivered, hk', hK.skip_of_tail htl,
        hK.step_contents hE.still hq hd]

/-- The flush goes on. -/
theorem next (hf : (x.step q).chip.regs.flushfifo = !(x.step q).chip.cpu.state.tail)
    (hl : (x.step q).chip.cpu.state ≠ .letgo)
    (ht : (x.step q).chip.cpu.state.tail = true →
      (x.step q).chip.fifo.level = 0 ∧ x.chip.fifo.bytePtr ≠ 0)
    (hw : x.chip.cpu.state.tail = true → x.chip.written q = []) : Emptying total (x.step q) := by
  have hK := hE.carrying
  have hI := hK.reading
  have h := hK.coupled.live hq.bus
  have hns := step_cpu_state h
  have hp := hK.step_bytePtr hE.still hq
  exact
    { carrying := hK.step hq.bus hq.session (hE.not_underflow hq)
      still := hE.still.step hI hq.session hq.noDreq
      fed := hI.fed_step hq.session hE.fed hE.not_spuriousTail
      bytes := hE.step_bytes hq hw
      first := by
        -- `A1` outlasts no cycle, so no longword was stepped over while it is set
        intro ha
        change (x.chip.period q).regs.a1 = true at ha
        rw [Chip.session_a1 h hq.session, Bool.and_eq_true] at ha
        have hd : (x.chip.cpuComb q).intDecfifo = false := by
          refine Bool.eq_false_iff.mpr fun hd => ?_
          have hs := CpuSm.strobing_of_intDecfifo hd
          have hal := CpuSm.State.aligned_of_strobing hs (CpuSm.State.draining_of_strobing hs hI.cpu)
          exact Bool.noConfusion (ha.1.symm.trans (hK.aligned hal))
        rw [hK.step_level hE.still hq hd]
        exact hE.first ha.1
      three := by rw [hp]; exact hE.three
      offBus := by
        -- the bus would be left through `letgo` only
        intro ho
        rw [hns] at ho ⊢
        have hoff : x.chip.cpu.state.onBus = false := Bool.eq_false_iff.mpr fun hon =>
          hE.letgo (CpuSm.nextState_not_onBus hon ho)
        rcases hE.offBus hoff with e | e
        · rw [e, (CpuSm.s0_spec (hI.dmadir q hq.session.noReset)).1]
          split
          · exact .inr rfl
          · exact .inl rfl
        · have hw := (@CpuSm.waiting_spec (x.chip.cpuIn q) x.chip.cpu.state
            (by rw [e]; rfl)).2
          split at hw
          · rw [CpuSm.State.onBus_of_granted hw.1] at ho
            exact Bool.noConfusion ho
          · exact .inr (hw.1.trans e)
      letgo := hl
      flush := hf
      tail := fun h => by rw [hp]; exact ht h }

/-- The flush ends with nothing left. -/
theorem empties (hfl : x.chip.regs.flushfifo = true) (hst : (x.chip.cpuOut q).stopflush = true)
    (hn : Chip.NoFlush x.chip q) (he : x.chip.fifo.empty = true) (hlw : x.chip.lastword = false)
    (hd : (x.chip.cpuComb q).intDecfifo = false)
    (hs : (x.step q).chip.cpu.state = .letgo ∨ (x.step q).chip.cpu.state = .s0)
    (hb : (x.chip.cpuOut q).breq = false) : Emptied total (x.step q) := by
  have hK := hE.carrying
  have h := hK.coupled.live hq.bus
  have hK' := hK.step hq.bus hq.session (hE.not_underflow hq)
  have hz' := hE.still.step hK.reading hq.session hq.noDreq
  have htl : x.chip.cpu.state.tail = false := by
    have hfl' := hE.flush
    rw [hfl] at hfl'
    simpa using hfl'.symm
  -- no last word with `COUNT` at zero means that no byte is left over
  have hp : x.chip.fifo.bytePtr = 0 := by simpa [Chip.lastword, hfl, he, Fifo.boeq0] using hlw
  have hl : x.chip.fifo.level = 0 := by simpa [Fifo.empty_eq] using he
  have hc : (x.step q).chip.contents = [] := by
    apply List.length_eq_zero_iff.mp
    rw [hK.step_contents hE.still hq hd, Carrying.contents_length_of_still hE.still, hl, hp]
    rfl
  have hbytes := hE.step_bytes hq (fun ht => by rw [htl] at ht; exact Bool.noConfusion ht)
  rw [Chip.undelivered, hc, List.drop_nil] at hbytes
  exact
    { carrying := hK'
      still := hz'
      flushfifo := by
        change (x.chip.period q).regs.flushfifo = false
        rw [hn.flushfifo h, hst, Bool.not_true, Bool.and_false]
      level := (hK.step_level hE.still hq hd).trans hl
      state := .inr hs
      breq := by
        change (x.chip.period q).cpu.out.breq = false
        rw [Chip.period_cpu_out h]
        exact hb
      bytes := by
        refine ⟨[], ?_, ?_⟩
        · rw [hK.step_bytePtr hE.still hq, hp]
          rfl
        · rw [hbytes, List.append_nil, List.append_nil] }

/-- The word of a flush is written, and it holds what was left. -/
theorem writes_last (ht : x.chip.cpu.state.tail = true) (hn : Chip.NoFlush x.chip q)
    (hw : x.chip.written q = x.chip.fifo.od.upper.bytes)
    (hs : (x.step q).chip.cpu.state = .s15) : Emptied total (x.step q) := by
  have hK := hE.carrying
  have h := hK.coupled.live hq.bus
  have hns := step_cpu_state h
  obtain ⟨hl, hp0⟩ := hE.tail ht
  have hd : (x.chip.cpuComb q).intDecfifo = false :=
    CpuSm.intDecfifo_of_not_delivering (CpuSm.State.not_delivering_of_tail ht)
  have hp : x.chip.fifo.bytePtr.toNat = 1 ∨ x.chip.fifo.bytePtr.toNat = 2 := by
    have h3 := hE.three
    revert hp0 h3
    generalize x.chip.fifo.bytePtr = p
    revert p
    decide
  have hlen : x.chip.contents.length = x.chip.fifo.bytePtr.toNat := by
    rw [Carrying.contents_length_of_still hE.still, hl, Nat.mul_zero, Nat.zero_add]
  have hu : x.chip.undelivered = x.chip.contents := by
    rw [Chip.undelivered, hK.skip_of_tail ht, List.drop_zero]
  -- the word begins with the bytes that are left
  obtain ⟨pad, hpad⟩ : x.chip.contents <+: x.chip.fifo.od.upper.bytes := by
    have hpre := hK.reading.contents_take.take 2
    rwa [List.take_take, List.take_of_length_le (by omega)] at hpre
  have hpl := congrArg List.length hpad
  rw [List.length_append, hlen, Word.bytes_length] at hpl
  exact
    { carrying := hK.step hq.bus hq.session (hE.not_underflow hq)
      still := hE.still.step hK.reading hq.session hq.noDreq
      flushfifo := by
        change (x.chip.period q).regs.flushfifo = false
        rw [hn.flushfifo h, hE.flush, ht, Bool.not_true, Bool.false_and]
      level := (hK.step_level hE.still hq hd).trans hl
      state := .inl hs
      breq := by
        change (x.chip.period q).cpu.out.breq = false
        rw [Chip.period_cpu_out h]
        exact CpuSm.not_breq (by rw [← hns, hs]; rfl) (by rw [← hns, hs]; rfl)
      bytes := by
        refine ⟨pad, ?_, ?_⟩
        · rw [hK.step_bytePtr hE.still hq]
          omega
        · rw [hE.bytes, hu]
          change x.written ++ x.chip.written q = _
          rw [hw, List.append_assoc, hpad] }

/-- The cycle of the last word waits, or it ends and everything is written. -/
theorem step_of_tail (hn : Chip.NoFlush x.chip q) (htl : x.chip.cpu.state.tail = true) :
    Emptying total (x.step q) ∨ Emptied total (x.step q) := by
  have hK := hE.carrying
  have hdl := CpuSm.State.not_delivering_of_tail htl
  have hff : (x.step q).chip.regs.flushfifo =
      (x.chip.regs.flushfifo && !(x.chip.cpuOut q).stopflush) :=
    hn.flushfifo (hK.coupled.live hq.bus)
  rcases delivers hK.coupled hq.bus hq.session hK.reading hK.aligned with
    ⟨hw, hd, -⟩ | ⟨hst, -⟩ | ⟨hst, -⟩ | ⟨hst, -⟩ | ⟨-, hw, -, hs⟩
  · left
    have ht' : (x.step q).chip.cpu.state.tail = true := hK.tail_of_not_written hq.bus htl hw
    apply hE.next hq
    · rw [hff, hE.flush, htl, ht']
      rfl
    · intro e
      rw [e] at ht'
      exact Bool.noConfusion ht'
    · exact fun _ => ⟨(hK.step_level hE.still hq hd).trans (hE.tail htl).1, (hE.tail htl).2⟩
    · exact fun _ => hw
  · exact Bool.noConfusion (hdl.symm.trans hst)
  · exact Bool.noConfusion (hdl.symm.trans hst)
  · exact Bool.noConfusion (hdl.symm.trans hst)
  · exact .inr (hE.writes_last hq htl hn hw hs)

/-- `STOPFLUSH` finds everything written, or it begins the cycle of the last word. -/
theorem step_of_stopflush (hn : Chip.NoFlush x.chip q) (htl : x.chip.cpu.state.tail = false)
    (hst : (x.chip.cpuOut q).stopflush = true) :
    Emptying total (x.step q) ∨ Emptied total (x.step q) := by
  have hK := hE.carrying
  have hI := hK.reading
  have h := hK.coupled.live hq.bus
  have hns := step_cpu_state h
  have h3 : x.chip.fifo.boeq3 = false := beq_eq_false_iff_ne.mpr hE.three
  obtain ⟨hdl, hcase⟩ := hI.stopflush_cases hK.aligned hq.session hst
  have hd : (x.chip.cpuComb q).intDecfifo = false := CpuSm.intDecfifo_of_not_delivering hdl
  rcases hcase with ⟨hem, hl, hs⟩ | ⟨hl, -, -, -, ht'⟩
  · right
    have hfl : x.chip.regs.flushfifo = true := by rw [hE.flush, htl]; rfl
    refine hE.empties hq hfl hst hn hem hl hd hs ?_
    apply CpuSm.not_breq
    · rcases hs with e | e <;> rw [← hns, show (x.step q).chip.cpu.state = _ from e] <;> rfl
    · rcases hs with e | e <;> rw [← hns, show (x.step q).chip.cpu.state = _ from e] <;> rfl
  · -- with bytes left over, the word that holds them is begun
    left
    rw [h3, Bool.not_false] at ht'
    have ht : (x.step q).chip.cpu.state.tail = true := ht'
    rw [Chip.lastword, Bool.and_eq_true, Bool.and_eq_true, Fifo.empty_eq, decide_eq_true_iff,
      Bool.not_eq_true'] at hl
    apply hE.next hq
    · rw [ht]
      change (x.chip.period q).regs.flushfifo = _
      rw [hn.flushfifo h, hst, Bool.not_true, Bool.and_false]
    · intro e
      rw [e] at ht
      exact Bool.noConfusion ht
    · exact fun _ => ⟨(hK.step_level hE.still hq hd).trans hl.2, beq_eq_false_iff_ne.mp hl.1.1⟩
    · intro ht
      rw [htl] at ht
      exact Bool.noConfusion ht

theorem step (hn : Chip.NoFlush x.chip q) :
    Emptying total (x.step q) ∨ Emptied total (x.step q) := by
  have hK := hE.carrying
  have h := hK.coupled.live hq.bus
  have hns := step_cpu_state h
  cases htl : x.chip.cpu.state.tail with
  | true => exact hE.step_of_tail hq hn htl
  | false =>
      cases hst : (x.chip.cpuOut q).stopflush with
      | true => exact hE.step_of_stopflush hq hn htl hst
      | false =>
          left
          have ht' : (x.step q).chip.cpu.state.tail = false := by
            refine Bool.eq_false_iff.mpr fun ht => ?_
            rw [hns] at ht
            exact Bool.noConfusion (hst.symm.trans (CpuSm.stopflush_of_tail htl ht))
          apply hE.next hq
          · rw [ht']
            change (x.chip.period q).regs.flushfifo = _
            rw [hn.flushfifo h, hE.flush, htl, hst]
            rfl
          · intro e
            rw [hns] at e
            exact Bool.noConfusion
              (hst.symm.trans (CpuSm.stopflush_of_letgo hK.reading.cpu e))
          · intro ht
            rw [ht'] at ht
            exact Bool.noConfusion ht
          · intro ht
            rw [htl] at ht
            exact Bool.noConfusion ht

end Step

end Emptying

/-- When everything is written, the bus is released and stays so. -/
theorem Emptied.step {total : List Byte} {x : System} {q : Period} (hE : Emptied total x)
    (hq : Waiting x q) (hn : Chip.NoFlush x.chip q) :
    Emptied total (x.step q) ∧
      (x.step q).chip.cpu.state = if x.chip.cpu.state = .s15 then .letgo else .s0 := by
  have hK := hE.carrying
  have hI := hK.reading
  have h := hK.coupled.live hq.bus
  have hns := step_cpu_state h
  have hem : x.chip.fifo.empty = true := by rw [Fifo.empty_eq, hE.level]; rfl
  have hfu : x.chip.fifo.full = false := by rw [Fifo.full_eq, hE.level]; rfl
  have hlw : x.chip.lastword = false := by simp [Chip.lastword, hE.flushfifo]
  have hdl : x.chip.cpu.state.delivering = false := by
    rcases hE.state with e | e | e <;> rw [e] <;> rfl
  have hd : (x.chip.cpuComb q).intDecfifo = false := CpuSm.intDecfifo_of_not_delivering hdl
  -- with `COUNT` and `FLUSHFIFO` clear `s0` finds nothing to request the bus for
  have hs0 : x.chip.cpu.state = .s0 → (x.step q).chip.cpu.state = .s0 := fun e => by
    rw [hns, e, (CpuSm.s0_spec (hI.dmadir q hq.session.noReset)).1]
    simp [Chip.cpuIn_eq h, CpuSm.Inputs.requests, hem, hfu, hlw]
  have hnext : (x.step q).chip.cpu.state =
      if x.chip.cpu.state = .s15 then .letgo else .s0 := by
    rcases hE.state with e | e | e
    · rw [hns, e]
      simp [Chip.cpuIn_eq h, CpuSm.nextState, hem, hlw]
    · rw [hns, e]
      rfl
    · rw [hs0 e, e]
      rfl
  have hs : (x.step q).chip.cpu.state = .letgo ∨ (x.step q).chip.cpu.state = .s0 := by
    rw [hnext]
    split
    · exact .inl rfl
    · exact .inr rfl
  have hwr : (x.step q).written = x.written := by
    have hasO : x.chip.asO_ = true := by
      rw [hK.coupled.asO_]
      rcases hE.state with e | e | e <;> rw [e] <;> rfl
    change x.written ++ x.chip.written q = x.written
    simp [Chip.written, Chip.endsCycle_eq h, hasO]
  refine ⟨?_, hnext⟩
  exact
    { carrying := hK.step hq.bus hq.session (hI.not_underflow_of_not_dec hq.session hd)
      still := hE.still.step hI hq.session hq.noDreq
      flushfifo := by
        change (x.chip.period q).regs.flushfifo = false
        rw [hn.flushfifo h, hE.flushfifo, Bool.false_and]
      level := (hK.step_level hE.still hq hd).trans hE.level
      state := .inr hs
      breq := by
        change (x.chip.period q).cpu.out.breq = false
        rw [Chip.period_cpu_out h]
        apply CpuSm.not_breq
        · rcases hs with e | e <;> rw [← hns, e] <;> rfl
        · rcases hs with e | e <;> rw [← hns, e] <;> rfl
      bytes := by
        obtain ⟨pad, hp, hb⟩ := hE.bytes
        refine ⟨pad, ?_, ?_⟩
        · rw [hK.step_bytePtr hE.still hq]
          exact hp
        · rw [hwr]
          exact hb }

/-! ## §3 A flush that is exact ends -/

/-- `CPU_SM` has sampled the flush and has still to get the bus. -/
structure Asking (total : List Byte) (x : System) : Prop where
  emptying : Emptying total x
  offBus : x.chip.cpu.state.onBus = false
  dmaena : x.chip.cpu.inp.dmaena = true
  flushfifo : x.chip.cpu.inp.flushfifo = true

/-- The flush has got the bus, or it had nothing to write. -/
def BusWon (total : List Byte) (x : System) : Prop :=
  Emptied total x ∨ Emptying total x ∧ x.chip.cpu.state.onBus = true

section Asking

variable {total : List Byte} {x : System} {q : Period} (hq : Waiting x q) (hn : Chip.NoFlush x.chip q)
include hq hn

/-- Off the bus, what is pending is sampled. -/
theorem Emptying.step_asking (hE : Emptying total x) (ho : x.chip.cpu.state.onBus = false) :
    BusWon total (x.step q) ∨ Asking total (x.step q) := by
  have h := hE.carrying.coupled.live hq.bus
  rcases hE.step hq hn with hE' | hE'
  · cases ho' : (x.step q).chip.cpu.state.onBus with
    | true => exact .inl (.inr ⟨hE', ho'⟩)
    | false =>
        have htl : x.chip.cpu.state.tail = false := by
          rcases hE.offBus ho with e | e <;> rw [e] <;> rfl
        right
        refine ⟨hE', ho', ?_, ?_⟩
        · change (x.chip.period q).cpu.inp.dmaena = true
          rw [Chip.period_cpu_inp h]
          exact hE.carrying.reading.dmaena
        · change (x.chip.period q).cpu.inp.flushfifo = true
          rw [Chip.period_cpu_inp h]
          exact hE.flush.trans (by rw [htl]; rfl)
  · exact .inl (.inl hE')

/-- `s0` asks for the bus or finds nothing to write, and `s1` waits for the grant. -/
theorem Asking.step (hA : Asking total x) :
    BusWon total (x.step q) ∨ Asking total (x.step q) ∧ (x.step q).chip.cpu.state = .s1 ∧
      (x.chip.cpu.state = .s1 → ¬ (x.chip.cpu.inp.bgrant_ = false ∧
        x.chip.cpu.inp.ncycledone = false)) := by
  have hE := hA.emptying
  have hI := hE.carrying.reading
  have h := hE.carrying.coupled.live hq.bus
  have hns := step_cpu_state h
  rcases hE.step_asking hq hn hA.offBus with hs | hA'
  · exact .inl hs
  right
  have hfl : (x.chip.period q).regs.flushfifo = true := by
    have htl : (x.step q).chip.cpu.state.tail = false := by
      rcases hA'.emptying.offBus hA'.offBus with e | e <;> rw [e] <;> rfl
    exact hA'.emptying.flush.trans (by rw [htl]; rfl)
  rcases hE.offBus hA.offBus with e | e
  · refine ⟨hA', ?_, fun e' => absurd (e.symm.trans e') (by decide)⟩
    rw [hns, e, (CpuSm.s0_spec (hI.dmadir q hq.session.noReset)).1]
    -- a request that is not made would have ended the flush
    refine if_pos (Bool.eq_true_of_not_eq_false fun hr => ?_)
    have hst : (x.chip.cpuOut q).stopflush = true := by
      rw [hI.stopflush_iff hq.bus.noReset]
      simp [Chip.cpuIn_eq h, CpuSm.Inputs.requests, Registers.dmadir, hI.ndmadir, hA.dmaena,
        hA.flushfifo] at hr
      exact .inl ⟨e, hA.dmaena, hA.flushfifo, hr.2.1, hr.2.2⟩
    rw [hn.flushfifo h, hst, Bool.not_true, Bool.and_false] at hfl
    exact Bool.noConfusion hfl
  · have hw : x.chip.cpu.state.waiting = true := by rw [e]; rfl
    refine ⟨hA', ?_, fun _ hg => ?_⟩
    · rcases hA'.emptying.offBus hA'.offBus with e' | e'
      · have hw' := (CpuSm.waiting_spec (i := x.chip.cpuIn q) hw).2
        rw [← hns, e'] at hw'
        split at hw'
        · exact Bool.noConfusion hw'.1
        · rw [e] at hw'
          exact absurd hw'.1 (by decide)
      · exact e'
    · have hgr := Chip.period_granted h hw hg.1 hg.2
      have hon := CpuSm.State.onBus_of_granted hgr
      exact Bool.noConfusion (hA'.offBus.symm.trans hon)

end Asking

section Ends

variable {total : List Byte} {x : System} {q : ℕ → Period}
  (hq : ∀ n, Waiting (Runs.states System.step x q n) (q n))
  (hn : ∀ n, Chip.NoFlush (Runs.states System.step x q n).chip (q n))
include hq hn

/-- A flush that has got the bus writes everything and releases it. -/
theorem Emptying.ends_of_onBus (ha : Answering x q) (hE : Emptying total x)
    (hon : x.chip.cpu.state.onBus = true) :
    ∃ n, Emptied total (Runs.states System.step x q n) := by
  let y := Runs.states System.step x q
  -- on the bus the flush goes on, and only a flush that is finished leaves it
  have hI : ∀ n, Emptying total (y n) ∧ (y n).chip.cpu.state.onBus = true ∨
      Emptied total (y n) := by
    intro n
    induction n with
    | zero => exact .inl ⟨hE, hon⟩
    | succ n ih =>
        rcases ih with ⟨hE, hon⟩ | hE
        · rcases hE.step (hq n) (hn n) with hE' | hE'
          · refine .inl ⟨hE', Bool.eq_true_of_not_eq_false fun hoff => ?_⟩
            change (Chip.period (y n).chip (q n)).cpu.state.onBus = false at hoff
            rw [Chip.period_cpu_state (hE.carrying.coupled.live (hq n).bus)] at hoff
            exact hE.letgo (CpuSm.nextState_not_onBus hon hoff)
          · exact .inr hE'
        · exact .inr (hE.step (hq n) (hn n)).1
  have hK : ∀ n, Carrying (y n) := fun n =>
    (hI n).elim (fun h => h.1.carrying) (fun h => h.carrying)
  have hfill : ∀ n, (y n).chip.cpu.state.filling = false := fun n => (hK n).reading.cpu
  have hR : Reached x :=
    ⟨hE.carrying.coupled, le_trans (Nat.le_add_right _ _) hE.carrying.reading.cap,
      fun _ hd => Bool.noConfusion (hE.carrying.reading.dmaena.symm.trans hd)⟩
  obtain ⟨n, hoff, -⟩ := hR.ends hon
    (fun n => ⟨(hq n).bus, (hq n).noDreq, fun hs =>
      Bool.noConfusion ((hfill n).symm.trans (CpuSm.State.filling_of_second hs))⟩) ha
    (fun he => Bool.noConfusion (hE.carrying.reading.cpu.symm.trans he.1))
  rcases hI n with ⟨hE', hon'⟩ | hE'
  · rw [hE'.carrying.coupled.own, hon'] at hoff
    exact Bool.noConfusion hoff
  · exact ⟨n, hE'⟩

/-- Until the flush is finished, and after it, `BYTE_PTR` stays. -/
theorem Emptying.bytePtr_states (hE : Emptying total x) (n : ℕ) :
    (Runs.states System.step x q n).chip.fifo.bytePtr = x.chip.fifo.bytePtr := by
  have hI : ∀ n, Emptying total (Runs.states System.step x q n) ∨
      Emptied total (Runs.states System.step x q n) := by
    intro n
    induction n with
    | zero => exact .inl hE
    | succ n ih =>
        rcases ih with h | h
        · exact h.step (hq n) (hn n)
        · exact .inr (h.step (hq n) (hn n)).1
  induction n with
  | zero => rfl
  | succ n ih =>
      rw [← ih]
      rcases hI n with h | h
      · exact h.carrying.step_bytePtr h.still (hq n)
      · exact h.carrying.step_bytePtr h.still (hq n)

/-- A flush is served. -/
theorem Emptying.served (hE : Emptying total x)
    (hg : ∀ m, ∃ n, m ≤ n ∧ ((Runs.states System.step x q n).chip.cpu.state.waiting = true →
      (Runs.states System.step x q n).chip.cpu.inp.bgrant_ = false ∧
        (Runs.states System.step x q n).chip.cpu.inp.ncycledone = false)) :
    ∃ n, BusWon total (Runs.states System.step x q n) := by
  cases hon : x.chip.cpu.state.onBus with
  | true => exact ⟨0, .inr ⟨hE, hon⟩⟩
  | false =>
      rcases hE.step_asking (hq 0) (hn 0) hon with hs | hA
      · exact ⟨1, hs⟩
      -- one clock from `s0` to `s1`, which the next grant ends
      obtain ⟨n, -, hs⟩ := @Runs.reaches_of_measure _ _ System.step (Asking total)
        (BusWon total) (fun z => (z.chip.cpu.state == .s0).toNat) x q 1 hA
        (fun n _ hA => by
          rcases hA.step (hq n) (hn n) with hs | ⟨hA', hs, -⟩
          · exact .inl hs
          · refine .inr ⟨hA', ?_⟩
            rw [Runs.states_succ, hs]
            exact Nat.zero_le _)
        (fun n _ => by
          obtain ⟨k, hk, hgr⟩ := hg n
          refine ⟨k, hk, fun hA => ?_⟩
          rcases hA.step (hq k) (hn k) with hs | ⟨-, hs, hwait⟩
          · exact .inl hs
          · right
            rw [Runs.states_succ, hs]
            rcases hA.emptying.offBus hA.offBus with e | e
            · rw [e]
              decide
            · exact absurd (hgr (by rw [e]; rfl)) (hwait e))
      exact ⟨n, hs⟩

/-- A flush under way writes everything, and from then on the bus is released. -/
theorem Emptying.ends (hE : Emptying total x) (ha : Answering x q)
    (hg : ∀ m, ∃ n, m ≤ n ∧ ((Runs.states System.step x q n).chip.cpu.state.waiting = true →
      (Runs.states System.step x q n).chip.cpu.inp.bgrant_ = false ∧
        (Runs.states System.step x q n).chip.cpu.inp.ncycledone = false)) :
    ∃ N, ∀ n, N ≤ n → Emptied total (Runs.states System.step x q n) ∧
      (Runs.states System.step x q n).chip.cpu.state = .s0 := by
  obtain ⟨m, hs⟩ := hE.served hq hn hg
  have hend : ∃ N, Emptied total (Runs.states System.step x q N) := by
    rcases hs with hs | ⟨hE', hon⟩
    · exact ⟨m, hs⟩
    · -- the tenure runs from the time at which the bus was got
      have hshift := fun n => @Runs.states_add _ _ System.step x q m n
      obtain ⟨n, hn'⟩ := hE'.ends_of_onBus (q := fun k => q (m + k))
        (fun k => by rw [← hshift]; exact hq (m + k)) (fun k => by rw [← hshift]; exact hn (m + k))
        (ha.later m) hon
      rw [← hshift] at hn'
      exact ⟨m + n, hn'⟩
  obtain ⟨N, hN⟩ := hend
  have hs1 := hN.step (hq N) (hn N)
  have hs2 := hs1.1.step (hq (N + 1)) (hn (N + 1))
  refine ⟨N + 2, Runs.states_from (I := fun z => Emptied total z ∧ z.chip.cpu.state = .s0)
    ⟨hs2.1, ?_⟩ fun n _ h => ?_⟩
  · refine hs2.2.trans (if_neg ?_)
    rw [hs1.2]
    split <;> decide
  · have hs := h.1.step (hq n) (hn n)
    refine ⟨hs.1, hs.2.trans (if_neg ?_)⟩
    rw [h.2]
    decide

end Ends

/-! ## §4 A flush that wraps `COUNT` -/

/-- The flush is going to deliver a longword that is not there. -/
structure Doomed (x : System) : Prop where
  carrying : Carrying x
  still : Chip.Still x.chip
  fate : x.chip.regs.flushfifo = true ∧ x.chip.fifo.bytePtr = 3 ∨
    x.chip.regs.flushfifo = true ∧ x.chip.regs.a1 = true ∧ x.chip.fifo.level = 0 ∨
    x.chip.cpu.state.delivering = true ∧ x.chip.fifo.level = 0

namespace Doomed

section Step

variable {x : System} {q : Period} (hD : Doomed x) (hq : Waiting x q)
include hD hq

/-- A longword that is not there is delivered until `COUNT` wraps. -/
theorem step_delivering (hu : ¬ Chip.Underflow x.chip q)
    (hdl : x.chip.cpu.state.delivering = true) (h0 : x.chip.fifo.level = 0) :
    (x.step q).chip.cpu.state.delivering = true ∧ (x.step q).chip.fifo.level = 0 := by
  have hK := hD.carrying
  have hI := hK.reading
  have h := hK.coupled.live hq.bus
  have hd : (x.chip.cpuComb q).intDecfifo = false := by
    refine Bool.eq_false_iff.mpr fun hd => hu ?_
    rw [Chip.underflow_iff h, hI.cpuOut_decfifo q hq.session.noReset]
    exact ⟨hd, h0, hI.rstOut_ q hq.session.noReset⟩
  refine ⟨?_, (hK.step_level hD.still hq hd).trans h0⟩
  rw [step_cpu_state h]
  exact CpuSm.nextState_delivering_of hdl hd

/-- Three bytes are taken for a longword when the flush ends. -/
theorem step_three (hn : Chip.NoFlush x.chip q) (hf : x.chip.regs.flushfifo = true)
    (h3 : x.chip.fifo.bytePtr = 3) :
    (x.step q).chip.regs.flushfifo = true ∧ (x.step q).chip.fifo.bytePtr = 3 ∨
      (x.step q).chip.cpu.state.delivering = true ∧ (x.step q).chip.fifo.level = 0 := by
  have hK := hD.carrying
  have h := hK.coupled.live hq.bus
  have hlw : x.chip.fifo.empty = true → x.chip.lastword = true := fun he => by
    simp [Chip.lastword, Fifo.boeq0, h3, hf, he]
  have hb3 : x.chip.fifo.boeq3 = true := beq_iff_eq.mpr h3
  cases hst : (x.chip.cpuOut q).stopflush with
  | false =>
      refine .inl ⟨?_, (hK.step_bytePtr hD.still hq).trans h3⟩
      change (x.chip.period q).regs.flushfifo = true
      rw [hn.flushfifo h, hf, hst]
      rfl
  | true =>
      obtain ⟨hdl, ⟨hem, hl, -⟩ | ⟨hl, -, -, hdl', -⟩⟩ :=
        hK.reading.stopflush_cases hK.aligned hq.session hst
      · exact Bool.noConfusion ((hlw hem).symm.trans hl)
      · rw [Chip.lastword, Bool.and_eq_true, Fifo.empty_eq, decide_eq_true_iff] at hl
        have hd := CpuSm.intDecfifo_of_not_delivering (i := x.chip.cpuIn q) hdl
        exact .inr ⟨hdl'.trans hb3, (hK.step_level hD.still hq hd).trans hl.2⟩

/-- With `A1` set and nothing received, the flush waits for a first cycle. -/
theorem step_first (hn : Chip.NoFlush x.chip q) (hf : x.chip.regs.flushfifo = true)
    (ha : x.chip.regs.a1 = true) (h0 : x.chip.fifo.level = 0)
    (hdl : x.chip.cpu.state.delivering = false) :
    (x.step q).chip.regs.flushfifo = true ∧ (x.step q).chip.regs.a1 = true ∧
      (x.step q).chip.fifo.level = 0 := by
  have hK := hD.carrying
  have hI := hK.reading
  have h := hK.coupled.live hq.bus
  have hd := CpuSm.intDecfifo_of_not_delivering (i := x.chip.cpuIn q) hdl
  have hnal : x.chip.cpu.state.aligned = false := Bool.eq_false_iff.mpr fun hal =>
    Bool.noConfusion (ha.symm.trans (hK.aligned hal))
  have hst : (x.chip.cpuOut q).stopflush = false := by
    refine Bool.eq_false_iff.mpr fun hst => ?_
    rcases (hI.stopflush_iff hq.bus.noReset).mp hst with
      ⟨-, -, -, hem, hl⟩ | ⟨-, -, -, ha', -⟩ | ⟨e, -⟩
    · -- two bytes of the first longword are skipped, so `BYTE_PTR` is not zero
      have hp : x.chip.fifo.bytePtr = 0 := by
        simpa [Chip.lastword, hf, hem, Fifo.boeq0] using hl
      have hle := hK.skip_le
      rw [Carrying.contents_length_of_still hD.still, h0, hp, Chip.skip, ha] at hle
      simp at hle
    · exact Bool.noConfusion (ha.symm.trans ha')
    · rw [e] at hnal
      exact Bool.noConfusion hnal
  have hpas : (x.chip.cpuOut q).pas = false := by
    refine Bool.eq_false_iff.mpr fun hp => ?_
    rcases CpuSm.aligned_of_pas hI.cpu hp with hal | hd
    · exact Bool.noConfusion (hnal.symm.trans hal)
    · exact Bool.noConfusion (hdl.symm.trans hd)
  refine ⟨?_, ?_, (hK.step_level hD.still hq hd).trans h0⟩
  · change (x.chip.period q).regs.flushfifo = true
    rw [hn.flushfifo h, hf, hst]
    rfl
  · change (x.chip.period q).regs.a1 = true
    rw [Chip.session_a1 h hq.session, ha, hpas]
    rfl

/-- It stays so until `COUNT` wraps. -/
theorem step (hn : Chip.NoFlush x.chip q) (hu : ¬ Chip.Underflow x.chip q) :
    Doomed (x.step q) := by
  have hK := hD.carrying
  refine ⟨hK.step hq.bus hq.session hu, hD.still.step hK.reading hq.session hq.noDreq, ?_⟩
  rcases hD.fate with ⟨hf, h3⟩ | ⟨hf, ha, h0⟩ | ⟨hdl, h0⟩
  · exact (hD.step_three hq hn hf h3).imp id .inr
  · cases hdl : x.chip.cpu.state.delivering with
    | true => exact .inr (.inr (hD.step_delivering hq hu hdl h0))
    | false => exact .inr (.inl (hD.step_first hq hn hf ha h0 hdl))
  · exact .inr (.inr (hD.step_delivering hq hu hdl h0))

end Step

end Doomed

/-- `COUNT` has wrapped: it comes back to zero only with further memory cycles. -/
structure Overrun (bytes : ℕ) (x : System) : Prop where
  coupled : Coupled x
  receiving : Chip.Receiving x.chip
  level_le : x.chip.fifo.level ≤ 8
  quiet : x.chip.inFlight = 0
  written : bytes ≤ x.written.length
  more : x.chip.fifo.level = 0 → bytes + 2 ≤ x.written.length

/-- Every longword that is stepped over was written, or a word of it. -/
theorem Coupled.written_of_dec {x : System} {q : Period} (hC : Coupled x) (hq : BusRules x q)
    (hf : x.chip.cpu.state.filling = false) (hm : x.chip.regs.ndmadir = false)
    (hd : (x.chip.cpuComb q).intDecfifo = true) : 2 ≤ (x.chip.written q).length := by
  have h := hC.live hq
  have hst := CpuSm.strobing_of_intDecfifo hd
  have hn := (CpuSm.intDecfifo_spec hd).2
  have hb : (x.chip.cpuOut q).bgack = true := by
    rw [Chip.cpuOut_bgack, hn]
    rfl
  have hp : (x.chip.cpuOut q).pas = false := by
    rcases CpuSm.drain_spec (hC.answered hq hst) hst (CpuSm.State.draining_of_strobing hst hf) with
      ⟨-, hd', -⟩ | ⟨hp, -⟩
    · exact Bool.noConfusion (hd.symm.trans hd')
    · exact hp
  have hO : x.chip.asO_ = false := by rw [hC.asO_, hst]; rfl
  simp only [Chip.written, Chip.endsCycle_eq h, hO, hp, Chip.atSclkFall_rw h hb, hm,
    Bool.not_false, Bool.and_self, if_true]
  split <;> simp

theorem Overrun.step {b : ℕ} {x : System} {q : Period} (hO : Overrun b x) (hq : Waiting x q) :
    Overrun b (x.step q) := by
  have hR := hO.receiving
  have h := hO.coupled.live hq.bus
  have hfly := Chip.inFlight_step h hq.noDreq
  rw [hO.quiet, Nat.le_zero, Nat.add_eq_zero_iff, Bool.toNat_eq_zero] at hfly
  have hlen : (x.step q).written.length = x.written.length + (x.chip.written q).length :=
    List.length_append
  refine ⟨hO.coupled.step hq.bus, hR.step hq.session, Chip.period_level_le h hO.level_le, hfly.1,
    ?_, fun h0 => ?_⟩
  · have := hO.written
    omega
  · have hw := hO.written
    cases hd : (x.chip.cpuComb q).intDecfifo with
    | true =>
        have := hO.coupled.written_of_dec hq.bus hR.cpu hR.ndmadir hd
        omega
    | false =>
        -- without a step of `CPU_SM` and with no byte in flight `COUNT` stays
        have hi : (x.chip.cpuComb q).intIncfifo = false := by
          refine Bool.eq_false_iff.mpr fun hi => ?_
          have hf := CpuSm.State.filling_of_loading (CpuSm.intIncfifo_spec hi).1
          exact Bool.noConfusion (hR.cpu.symm.trans hf)
        have hs := hfly.2
        rw [Chip.stepsForScsi, hd, hi, Bool.not_false, Bool.true_and, Bool.true_and,
          Bool.or_eq_false_iff] at hs
        have hl : (x.chip.period q).fifo.level = x.chip.fifo.level := by
          rw [Chip.period_level h hO.level_le, hR.rstOut_ hq.bus.noReset, hs.1, hs.2]
          rfl
        have hm := hO.more (hl.symm.trans h0)
        omega

/-- When `COUNT` wraps, everything was written already. -/
theorem Doomed.overrun {x : System} {q : Period} (hD : Doomed x) (hq : Waiting x q)
    (hu : Chip.Underflow x.chip q) : Overrun x.taken.length (x.step q) := by
  have hK := hD.carrying
  have hI := hK.reading
  have h := hK.coupled.live hq.bus
  have hl : x.chip.fifo.level ≤ 8 := le_trans (Nat.le_add_right _ _) hI.cap
  have hR : Chip.Receiving x.chip :=
    { awake := hI.awake, dmaena := hI.dmaena, ndmadir := hI.ndmadir, cpu := hI.cpu
      scsi := hI.scsi, rdfifoO := hI.rdfifoO, counted := hI.counted, request := hI.request
      lbyte := hK.strobed.lbyte }
  have hfly := Chip.inFlight_step h hq.noDreq
  have h0 : x.chip.inFlight = 0 := by
    simp [Chip.inFlight, hD.still.rififoO, hI.rdfifoO, hD.still.state, hI.scsi, hD.still.cdreq_]
  have h8 : (x.chip.period q).fifo.level = 8 := by
    rw [Chip.underflow_iff h] at hu
    rw [Chip.period_level h hl, hu.1, hu.2.1, hu.2.2]
    rfl
  refine ⟨hK.coupled.step hq.bus, hR.step hq.session, Chip.period_level_le h hl, ?_,
    (hK.taken_of_underflow hq.bus hq.session hu).length_le, fun hz => ?_⟩
  · rw [h0] at hfly
    exact Nat.le_zero.mp (le_trans (Nat.le_add_right _ _) hfly)
  · exact absurd (h8.symm.trans hz) (by decide)

section Ends

variable {x : System} {q : ℕ → Period}
  (hq : ∀ n, Waiting (Runs.states System.step x q n) (q n))
  (hn : ∀ n, Chip.NoFlush (Runs.states System.step x q n).chip (q n))
include hq hn

/-- A doomed flush never leaves the bus with `COUNT` at zero and nothing but the bytes that
were taken in memory. -/
theorem Doomed.never (hD : Doomed x) (n : ℕ)
    (hf : (Runs.states System.step x q n).chip.regs.flushfifo = false)
    (ho : (Runs.states System.step x q n).chip.own = false)
    (hl : (Runs.states System.step x q n).chip.fifo.level = 0) :
    x.taken.length + 2 ≤ (Runs.states System.step x q n).written.length := by
  have hI : ∀ n, Doomed (Runs.states System.step x q n) ∧
        (Runs.states System.step x q n).taken = x.taken ∨
      Overrun x.taken.length (Runs.states System.step x q n) := by
    intro n
    induction n with
    | zero => exact .inl ⟨hD, rfl⟩
    | succ n ih =>
        rcases ih with ⟨hD', ht⟩ | hO
        · by_cases hu : Chip.Underflow (Runs.states System.step x q n).chip (q n)
          · right
            rw [← ht]
            exact hD'.overrun (hq n) hu
          · refine .inl ⟨hD'.step (hq n) (hn n) hu, ?_⟩
            exact (hD'.carrying.step_taken hD'.still (hq n)).trans ht
        · exact .inr (hO.step (hq n))
  rcases hI n with ⟨hD', -⟩ | hO
  · rcases hD'.fate with ⟨hf', -⟩ | ⟨hf', -⟩ | ⟨hdl, -⟩
    · exact Bool.noConfusion (hf.symm.trans hf')
    · exact Bool.noConfusion (hf.symm.trans hf')
    · rw [hD'.carrying.coupled.own] at ho
      revert ho hdl
      cases (Runs.states System.step x q n).chip.cpu.state <;>
        simp [CpuSm.State.onBus, CpuSm.State.delivering]
  · exact hO.more hl

end Ends

/-! ## §5 Exactness -/

/-- What the periods of the access leave as it was. -/
structure Strobe (x z : System) : Prop where
  carrying : Carrying z
  still : Chip.Still z.chip
  state : z.chip.cpu.state = .s0 ∨ z.chip.cpu.state = .s1
  flushfifo : z.chip.regs.flushfifo = true
  a1 : z.chip.regs.a1 = x.chip.regs.a1
  level : z.chip.fifo.level = x.chip.fifo.level
  bytePtr : z.chip.fifo.bytePtr = x.chip.fifo.bytePtr
  undelivered : z.chip.undelivered = x.chip.undelivered
  taken : z.taken = x.taken
  written : z.written = x.written

section Strobe

variable {x : System} (hK : Carrying x) (hz : Chip.Still x.chip)
include hK hz

/-- A period of the access finds and leaves `CPU_SM` without the bus. -/
theorem Carrying.strobe (h0 : x.chip.cpu.state = .s0 ∨ x.chip.cpu.state = .s1) {q : Period}
    (hq : Waiting x q) (hf : (x.chip.endAccess q).flush = true) : Strobe x (x.step q) := by
  have hI := hK.reading
  have h := hK.coupled.live hq.bus
  have hns := step_cpu_state h
  have hb := hK.coupled.not_bgack_of_hit hq.bus hf
  obtain ⟨hK', hz', hoff, hl⟩ := hK.step_off_bus hz hq hb
  have hst : (x.step q).chip.cpu.state = .s0 ∨ (x.step q).chip.cpu.state = .s1 := by
    rcases h0 with e | e
    · rw [hns, e, (CpuSm.s0_spec (hI.dmadir q hq.session.noReset)).1]
      split
      · exact .inr rfl
      · exact .inl rfl
    · -- the CPU is in its cycle, so the bus is not granted
      have hw := (@CpuSm.waiting_spec (x.chip.cpuIn q) x.chip.cpu.state (by rw [e]; rfl)).2
      rw [← hns] at hw
      split at hw
      · exact Bool.noConfusion (hoff.symm.trans (CpuSm.State.onBus_of_granted hw.1))
      · exact .inr (hw.1.trans e)
  have hpas : (x.chip.cpuOut q).pas = false := by
    rw [hK.coupled.step_pas hq.bus]
    rcases hst with e | e <;> rw [e] <;> rfl
  have ha : (x.step q).chip.regs.a1 = x.chip.regs.a1 := by
    change (x.chip.period q).regs.a1 = _
    rw [Chip.session_a1 h hq.session, hpas, Bool.not_false, Bool.and_true]
  have hd : (x.chip.cpuComb q).intDecfifo = false :=
    CpuSm.intDecfifo_of_not_delivering (by rcases h0 with e | e <;> rw [e] <;> rfl)
  have hlow : ∀ {y : System}, y.chip.cpu.state = .s0 ∨ y.chip.cpu.state = .s1 →
      y.chip.cpu.state.low = false := fun hy => by rcases hy with e | e <;> rw [e] <;> rfl
  have hsk : (x.step q).chip.skip = x.chip.skip := by
    rw [Chip.skip, Chip.skip, ha, hlow h0, hlow hst]
  exact
    { carrying := hK'
      still := hz'
      state := hst
      flushfifo := by
        change (x.chip.period q).regs.flushfifo = true
        rw [Chip.period_flushfifo h, hf]
        rfl
      a1 := ha
      level := hl
      bytePtr := hK.step_bytePtr hz hq
      undelivered := by
        rw [Chip.undelivered, Chip.undelivered, hsk, hK.step_contents hz hq hd]
      taken := hK.step_taken hz hq
      written := hK.coupled.written_of_not_onBus (by rcases h0 with e | e <;> rw [e] <;> rfl)
        hq.bus }

omit hK in
theorem received_nothing (h0 : x.chip.cpu.state = .s0) (ha : x.chip.regs.a1 = true → 1 ≤ x.chip.fifo.level)
    (hu : x.chip.undelivered = []) : x.chip.fifo.level = 0 ∧ x.chip.fifo.bytePtr = 0 := by
  have hlen := Carrying.contents_length_of_still hz
  have hsk : x.chip.skip = if x.chip.regs.a1 then 2 else 0 := by
    rw [Chip.skip, h0]
    exact congrArg (fun b : Bool => if b then 2 else 0) (Bool.or_false _)
  have h4 := congrArg List.length hu
  rw [Chip.undelivered, List.length_drop, hlen, hsk, List.length_nil] at h4
  have key : x.chip.fifo.level = 0 ∧ x.chip.fifo.bytePtr.toNat = 0 := by
    split at h4
    · have := ha (by assumption)
      omega
    · omega
  exact ⟨key.1, BitVec.eq_of_toNat_eq key.2⟩

end Strobe

section Strobe

variable {x z : System} (hS : Strobe x z)
include hS

/-- The access goes on. -/
theorem Strobe.step {q : Period} (hq : Waiting z q) (hf : (z.chip.endAccess q).flush = true) :
    Strobe x (z.step q) := by
  have h := hS.carrying.strobe hS.still hS.state hq hf
  exact
    { carrying := h.carrying
      still := h.still
      state := h.state
      flushfifo := h.flushfifo
      a1 := h.a1.trans hS.a1
      level := h.level.trans hS.level
      bytePtr := h.bytePtr.trans hS.bytePtr
      undelivered := h.undelivered.trans hS.undelivered
      taken := h.taken.trans hS.taken
      written := h.written.trans hS.written }

theorem Strobe.emptying (h3 : x.chip.fifo.bytePtr ≠ 3)
    (ha : x.chip.regs.a1 = true → 1 ≤ x.chip.fifo.level) :
    Emptying (x.written ++ x.chip.undelivered) z := by
  have htl : z.chip.cpu.state.tail = false := by
    rcases hS.state with e | e <;> rw [e] <;> rfl
  exact
    { carrying := hS.carrying
      still := hS.still
      fed := ⟨fun hdl => by rcases hS.state with e | e <;> rw [e] at hdl <;> exact Bool.noConfusion hdl,
        hS.carrying.request⟩
      bytes := by rw [hS.written, hS.undelivered]
      first := by rw [hS.a1, hS.level]; exact ha
      three := by rw [hS.bytePtr]; exact h3
      offBus := fun _ => hS.state
      letgo := by rcases hS.state with e | e <;> rw [e] <;> decide
      flush := by rw [hS.flushfifo, htl]; rfl
      tail := fun ht => by rw [htl] at ht; exact Bool.noConfusion ht }

theorem Strobe.doomed (hc : x.chip.fifo.bytePtr = 3 ∨
    x.chip.regs.a1 = true ∧ x.chip.fifo.level = 0) : Doomed z where
  carrying := hS.carrying
  still := hS.still
  fate := by
    rcases hc with h3 | ⟨ha, h0⟩
    · exact .inl ⟨hS.flushfifo, hS.bytePtr.trans h3⟩
    · exact .inr (.inl ⟨hS.flushfifo, hS.a1.trans ha, hS.level.trans h0⟩)

end Strobe

/-- There is nothing to ask the bus for. -/
structure Unasked (x : System) : Prop where
  carrying : Carrying x
  still : Chip.Still x.chip
  state : x.chip.cpu.state = .s0
  level : x.chip.fifo.level = 0
  bytePtr : x.chip.fifo.bytePtr = 0

theorem Unasked.step {x : System} {q : Period} (hU : Unasked x) (hq : Waiting x q) :
    Unasked (x.step q) := by
  have hK := hU.carrying
  have hI := hK.reading
  have h := hK.coupled.live hq.bus
  have hd : (x.chip.cpuComb q).intDecfifo = false :=
    CpuSm.intDecfifo_of_not_delivering (by rw [hU.state]; rfl)
  refine ⟨hK.step hq.bus hq.session (hI.not_underflow_of_not_dec hq.session hd),
    hU.still.step hI hq.session hq.noDreq, ?_, (hK.step_level hU.still hq hd).trans hU.level,
    (hK.step_bytePtr hU.still hq).trans hU.bytePtr⟩
  change (x.chip.period q).cpu.state = .s0
  rw [Chip.period_cpu_state h, hU.state,
    (CpuSm.s0_spec (hI.dmadir q hq.session.noReset)).1]
  simp [Chip.cpuIn_eq h, CpuSm.Inputs.requests, Fifo.empty_eq, Fifo.full_eq, hU.level,
    Chip.lastword, Fifo.boeq0, hU.bytePtr]

section Run

variable {x : System} {q : ℕ → Period} (hK : Carrying x) (hz : Chip.Still x.chip)
  (h0 : x.chip.cpu.state = .s0) (hq : FlushedOnce x q)
include hK hz h0 hq

/-- The run from the end of the access on. -/
theorem FlushedOnce.after : ∃ k, Strobe x (Runs.states System.step x q k) ∧
    (∀ n, Waiting (Runs.states System.step (Runs.states System.step x q k)
      (fun j => q (k + j)) n) (q (k + n))) ∧
    ∀ n, Chip.NoFlush (Runs.states System.step (Runs.states System.step x q k)
      (fun j => q (k + j)) n).chip (q (k + n)) := by
  obtain ⟨k, hk⟩ := hq.strobe
  have hS : ∀ n, n ≤ k → Strobe x (Runs.states System.step x q (n + 1)) := by
    intro n
    induction n with
    | zero => exact fun h => hK.strobe hz (.inl h0) (hq.waiting 0) ((hk 0).mpr h)
    | succ n ih => exact fun h =>
        (ih (Nat.le_of_succ_le h)).step (hq.waiting (n + 1)) ((hk (n + 1)).mpr h)
  refine ⟨k + 1, hS k (Nat.le_refl k), fun n => ?_, fun n => ?_⟩
  · rw [← Runs.states_add]
    exact hq.waiting (k + 1 + n)
  · rw [← Runs.states_add]
    exact Bool.eq_false_iff.mpr fun hf => absurd ((hk (k + 1 + n)).mp hf) (by omega)

/-- A flush that does not wrap `COUNT` writes what the FIFO holds. -/
theorem FlushedOnce.empties (h3 : x.chip.fifo.bytePtr ≠ 3)
    (ha : x.chip.regs.a1 = true → 1 ≤ x.chip.fifo.level) :
    ∃ N, ∀ n, N ≤ n →
      (Runs.states System.step x q n).chip.regs.flushfifo = false ∧
        (Runs.states System.step x q n).chip.fifo.count = 0 ∧
        (Runs.states System.step x q n).chip.own = false ∧
        (Runs.states System.step x q n).chip.cpu.out.breq = false ∧
        ∃ pad, pad.length = x.chip.fifo.bytePtr.toNat % 2 ∧
          (Runs.states System.step x q n).written = x.written ++ x.chip.undelivered ++ pad := by
  obtain ⟨k, hS, hq', hn'⟩ := hq.after hK hz h0
  have hE := hS.emptying h3 ha
  -- the environment is fair from the end of the access on, too
  have hgr := Runs.states_again (P := fun (z : System) _ => z.chip.cpu.state.waiting = true →
    z.chip.cpu.inp.bgrant_ = false ∧ z.chip.cpu.inp.ncycledone = false) hq.grants k
  obtain ⟨N, hN⟩ := hE.ends hq' hn' (hq.answers.later k) hgr
  refine ⟨k + N, fun n hle => ?_⟩
  obtain ⟨d, rfl⟩ := Nat.exists_eq_add_of_le hle
  obtain ⟨hE', hs⟩ := hN (N + d) (Nat.le_add_right N d)
  rw [Nat.add_assoc, Runs.states_add]
  obtain ⟨pad, hp, hw⟩ := hE'.bytes
  refine ⟨hE'.flushfifo, (Fifo.count_eq_zero_iff _).mpr hE'.level, ?_, hE'.breq, pad, ?_, hw⟩
  · rw [hE'.carrying.coupled.own, hs]
    rfl
  · rw [hp, hE.bytePtr_states hq' hn' (N + d), hS.bytePtr]

/-- With nothing to write the bus is not asked for. -/
theorem FlushedOnce.no_cycle (ha : x.chip.regs.a1 = true → 1 ≤ x.chip.fifo.level)
    (hu : x.chip.undelivered = []) (n : ℕ) :
    (Runs.states System.step x q n).chip.asO_ = true := by
  obtain ⟨hl, hp⟩ := received_nothing hz h0 ha hu
  have hI : Unasked (Runs.states System.step x q n) := by
    induction n with
    | zero => exact ⟨hK, hz, h0, hl, hp⟩
    | succ n ih => exact ih.step (hq.waiting n)
  rw [hI.carrying.coupled.asO_, hI.state]
  rfl

theorem FlushedOnce.exact_of (hb : x.taken = x.written ++ x.chip.undelivered)
    (h3 : x.chip.fifo.bytePtr ≠ 3) (ha : x.chip.regs.a1 = true → 1 ≤ x.chip.fifo.level) :
    Exact x q := by
  obtain ⟨N, hN⟩ := hq.empties hK hz h0 h3 ha
  refine ⟨⟨_, N, hb, hN⟩, fun ht => hq.no_cycle hK hz h0 ha ?_⟩
  rw [ht] at hb
  exact List.self_eq_append_right.mp hb

/-- An exact flush finds in the FIFO just what was not yet written. -/
theorem FlushedOnce.bytes_of_exact (hex : Exact x q) (h3 : x.chip.fifo.bytePtr ≠ 3)
    (ha : x.chip.regs.a1 = true → 1 ≤ x.chip.fifo.level) :
    x.taken = x.written ++ x.chip.undelivered := by
  obtain ⟨rest, N, ht, hN⟩ := hex.done
  obtain ⟨M, hM⟩ := hq.empties hK hz h0 h3 ha
  obtain ⟨-, -, -, -, pad, hp, hw⟩ := hN (max N M) (Nat.le_max_left N M)
  obtain ⟨-, -, -, -, pad', hp', hw'⟩ := hM (max N M) (Nat.le_max_right N M)
  rw [ht]
  exact List.append_inj_left' (hw.symm.trans hw') (hp.trans hp'.symm)

/-- A flush that wraps `COUNT` writes more than it should before it ends. -/
theorem FlushedOnce.not_exact_of
    (hc : x.chip.fifo.bytePtr = 3 ∨ x.chip.regs.a1 = true ∧ x.chip.fifo.level = 0) :
    ¬ Exact x q := by
  rintro ⟨⟨rest, N, ht, hN⟩, -⟩
  obtain ⟨k, hS, hq', hn'⟩ := hq.after hK hz h0
  obtain ⟨hf, hcount, ho, -, pad, hp, hw⟩ := hN (k + N) (Nat.le_add_left N k)
  rw [Runs.states_add] at hf hcount ho hw
  have hmore := (hS.doomed hc).never hq' hn' N hf ho ((Fifo.count_eq_zero_iff _).mp hcount)
  have hlen := congrArg List.length hw
  rw [List.length_append, hp, ← ht] at hlen
  rw [hlen, hS.taken] at hmore
  omega

end Run

/-- **A flush of the read direction is exact** — it writes what was received and not yet
written, once and in order, performs no other memory cycle, and ends with `FLUSHFIFO` and
`COUNT` clear and the bus released — if and only if the FIFO holds just those bytes, the byte
pointer is not at three and `A1` is not set with no longword complete: for every contents of
the FIFO, every grant delay and every mix of terminations and wait states. -/
theorem flush_exact_iff {x : System} (hx : Start x) (hd : x.chip.regs.ndmadir = false)
    {qs : List Period}
    (hqs : Runs.Along step (fun x q => BusRules x q ∧ Chip.InSession x.chip q ∧
      ¬ Chip.Underflow x.chip q) x qs)
    (hz : Chip.Still (Runs.run step x qs).chip)
    (h0 : (Runs.run step x qs).chip.cpu.state = .s0)
    {q : ℕ → Period} (hq : FlushedOnce (Runs.run step x qs) q) :
    Exact (Runs.run step x qs) q ↔
      (Runs.run step x qs).taken =
          (Runs.run step x qs).written ++ (Runs.run step x qs).chip.undelivered ∧
        (Runs.run step x qs).chip.fifo.bytePtr ≠ 3 ∧
        ¬ ((Runs.run step x qs).chip.regs.a1 = true ∧
          (Runs.run step x qs).chip.fifo.count = 0) := by
  have hK : Carrying (Runs.run step x qs) :=
    Runs.invariant_run (fun x q hK hq => hK.step hq.1 hq.2.1 hq.2.2) (hx.carrying hd) hqs
  rw [Fifo.count_eq_zero_iff]
  constructor
  · intro hex
    have h3 : (Runs.run step x qs).chip.fifo.bytePtr ≠ 3 := fun h3 =>
      hq.not_exact_of hK hz h0 (.inl h3) hex
    have ha := fun ha => hq.not_exact_of hK hz h0 (.inr ha) hex
    refine ⟨?_, h3, ha⟩
    exact hq.bytes_of_exact hK hz h0 hex h3 fun h1 => Nat.one_le_iff_ne_zero.mpr fun h2 =>
      ha ⟨h1, h2⟩
  · rintro ⟨hb, h3, ha⟩
    exact hq.exact_of hK hz h0 hb h3 fun h1 => Nat.one_le_iff_ne_zero.mpr fun h2 => ha ⟨h1, h2⟩

/-! ### Runs that come to rest -/

/-- Nothing goes on, and nothing is asked for. -/
structure Idle (x : System) : Prop where
  coupled : Coupled x
  receiving : Chip.Receiving x.chip
  quiet : x.chip.inFlight = 0
  state : x.chip.cpu.state = .s0
  level : x.chip.fifo.level = 0
  flushfifo : x.chip.regs.flushfifo = false
  cycle : x.cycle = none

theorem Idle.requests {x : System} {q : Period} (hI : Idle x) (h : Chip.Live x.chip q) :
    (x.chip.cpuIn q).requests .s0 = false := by
  simp [Chip.cpuIn_eq h, CpuSm.Inputs.requests, Fifo.empty_eq, Fifo.full_eq, hI.level,
    Chip.lastword, hI.flushfifo]

theorem Idle.step {x : System} (hI : Idle x) :
    (Waiting x (.steady {}) ∧ Chip.NoFlush x.chip (.steady {})) ∧ Idle (x.step (.steady {})) := by
  have hC := hI.coupled
  have hR := hI.receiving
  have hasO : x.chip.asO_ = true := by rw [hC.asO_, hI.state]; rfl
  have hon : x.chip.cpu.state.onBus = false := by rw [hI.state]; rfl
  have hnr : (Period.steady {}).NoReset := ⟨rfl, rfl, rfl, rfl, rfl, rfl⟩
  have hv : ∀ n, (x.chip.endAccess (.steady {})).hit n = false := by
    apply Access.hit_of_not_valid
    simp [Chip.endAccess, Chip.access, Access.valid, Period.steady]
  -- the rules of the bus speak of cycles, and there is none
  have hq : Waiting x (.steady {}) := by
    refine ⟨⟨hnr, ?_, rfl, ?_, ?_, ?_, ?_, ?_⟩, ⟨hnr, ?_, ?_, hv _⟩, rfl⟩
    · rw [hI.cycle]
      exact ⟨rfl, rfl, rfl, rfl⟩
    · exact fun _ h => Bool.noConfusion h
    · exact fun _ _ h => Bool.noConfusion h
    · rw [hI.cycle]
      exact fun b hb => (Option.not_mem_none b hb).elim
    · exact ⟨fun _ => rfl, fun _ => ⟨rfl, rfl⟩⟩
    · exact fun h => Bool.noConfusion (hasO.symm.trans h)
    · rw [Access.contrWr, Access.wr, hv, Bool.false_and]
    · rw [Access.acrWr, Access.wr, hv, Bool.false_and]
  have hn : Chip.NoFlush x.chip (.steady {}) := hv _
  have h := hC.live hq.bus
  have hfly := Chip.inFlight_step h hq.noDreq
  rw [hI.quiet, Nat.le_zero, Nat.add_eq_zero_iff, Bool.toNat_eq_zero] at hfly
  have hlev : x.chip.fifo.level ≤ 8 := by rw [hI.level]; exact Nat.zero_le _
  have hnot : (x.chip.cpuComb (.steady {})).intDecfifo = false ∧
      (x.chip.cpuComb (.steady {})).intIncfifo = false := by
    have := @CpuSm.fifo_of_not_onBus (x.chip.cpuIn (.steady {})) x.chip.cpu.state
      (.inl hon)
    exact ⟨this.2.1, this.2.2.1⟩
  refine ⟨⟨hq, hn⟩, ?_⟩
  exact
    { coupled := hC.step hq.bus
      receiving := hR.step hq.session
      quiet := hfly.1
      state := by
        change (x.chip.period (.steady {})).cpu.state = .s0
        rw [Chip.period_cpu_state h, hI.state, (CpuSm.s0_spec (hR.dmadir hnr)).1, hI.requests h]
        rfl
      level := by
        have hs := hfly.2
        rw [Chip.stepsForScsi, hnot.1, hnot.2, Bool.not_false, Bool.true_and, Bool.true_and,
          Bool.or_eq_false_iff] at hs
        change (x.chip.period (.steady {})).fifo.level = 0
        rw [Chip.period_level h hlev, hR.rstOut_ hnr, hs.1, hs.2]
        exact hI.level
      flushfifo := by
        change (x.chip.period (.steady {})).regs.flushfifo = false
        rw [Chip.period_flushfifo h, show (x.chip.endAccess (.steady {})).flush = false from hn,
          hI.flushfifo]
        simp
      cycle := rfl }

/-- In a run that comes to rest, an access to `FLUSH` is decoded for as long as it lasts. -/
theorem Idle.flush_iff {x : System} {ss ps : List Period}
    (hss : Runs.Along System.step (fun x q => (x.chip.endAccess q).flush = true) x ss)
    (hps : Runs.Along System.step (fun x q => Chip.NoFlush x.chip q)
      (Runs.run System.step x ss) ps)
    (hI : Idle (Runs.run System.step x (ss ++ ps))) (n : ℕ) :
    let q := Runs.thenAlways (ss ++ ps) (.steady {})
    ((Runs.states System.step x q n).chip.endAccess (q n)).flush = true ↔ n < ss.length := by
  -- the periods of the access one by one, then those that come to rest
  induction ss generalizing x n with
  | nil =>
      have h := (Runs.thenAlways_spec (I := Idle) hps hI fun x hI => ⟨hI.step.1.2, hI.step.2⟩).1 n
      exact ⟨fun hf => Bool.noConfusion (h.symm.trans hf), fun hn => absurd hn (Nat.not_lt_zero n)⟩
  | cons p ss ih =>
      cases n with
      | zero => exact ⟨fun _ => Nat.succ_pos _, fun _ => hss.1⟩
      | succ n =>
          simp only [List.cons_append, Runs.states_cons_thenAlways, List.length_cons,
            Nat.add_lt_add_iff_right]
          exact ih hss.2 hps hI n

/-- A flush that comes to rest is one with a fair environment. -/
theorem Idle.flushedOnce {x : System} {p : Period} {ss ps : List Period}
    (hw : Runs.Along System.step Waiting x (p :: ss ++ ps))
    (hss : Runs.Along System.step (fun x q => (x.chip.endAccess q).flush = true) x (p :: ss))
    (hps : Runs.Along System.step (fun x q => Chip.NoFlush x.chip q)
      (Runs.run System.step x (p :: ss)) ps)
    (hI : Idle (Runs.run System.step x (p :: ss ++ ps))) :
    FlushedOnce x (Runs.thenAlways (p :: ss ++ ps) (.steady {})) := by
  obtain ⟨h1, h2⟩ := Runs.thenAlways_spec (I := Idle) hw hI fun x hI => ⟨hI.step.1.1, hI.step.2⟩
  have hrest : ∀ m, ∃ n, m ≤ n ∧
      Idle (Runs.states System.step x (Runs.thenAlways (p :: ss ++ ps) (.steady {})) n) :=
    fun m => ⟨m + (p :: ss ++ ps).length, Nat.le_add_right _ _, h2 _ (Nat.le_add_left _ _)⟩
  refine ⟨h1, ⟨ss.length, fun n => ?_⟩, fun m => ?_, fun m => ?_⟩
  · exact (Idle.flush_iff hss hps hI n).trans Nat.lt_succ_iff
  · obtain ⟨n, hle, hI⟩ := hrest m
    refine ⟨n, hle, fun hw => ?_⟩
    rw [hI.state] at hw
    exact Bool.noConfusion hw
  · obtain ⟨n, hle, hI⟩ := hrest m
    refine ⟨n, hle, fun ha => ?_⟩
    rw [hI.coupled.asO_, hI.state] at ha
    exact Bool.noConfusion ha

/-- In a session, a flush that leads to rest is one with a fair environment. -/
theorem flushedOnce_of_run {x : System} (hx : Start x) (hd : x.chip.regs.ndmadir = false)
    {qs ss ps : List Period} {p : Period}
    (hqs : Runs.Along step (fun x q => BusRules x q ∧ Chip.InSession x.chip q) x qs)
    (hw : Runs.Along step Waiting (Runs.run step x qs) (p :: ss ++ ps))
    (hss : Runs.Along step (fun x q => (x.chip.endAccess q).flush = true) (Runs.run step x qs)
      (p :: ss))
    (hps : Runs.Along step (fun x q => Chip.NoFlush x.chip q)
      (Runs.run step (Runs.run step x qs) (p :: ss)) ps)
    (hi : (Runs.run step (Runs.run step x qs) (p :: ss ++ ps)).chip.inFlight = 0)
    (h0 : (Runs.run step (Runs.run step x qs) (p :: ss ++ ps)).chip.cpu.state = .s0)
    (hl : (Runs.run step (Runs.run step x qs) (p :: ss ++ ps)).chip.fifo.level = 0)
    (hr : (Runs.run step (Runs.run step x qs) (p :: ss ++ ps)).chip.regs.flushfifo = false)
    (hc : (Runs.run step (Runs.run step x qs) (p :: ss ++ ps)).cycle = none) :
    FlushedOnce (Runs.run step x qs) (Runs.thenAlways (p :: ss ++ ps) (.steady {})) := by
  have hall : Runs.Along step (fun x q => BusRules x q ∧ Chip.InSession x.chip q) x
      (qs ++ (p :: ss ++ ps)) :=
    Runs.along_append.mpr ⟨hqs, hw.mono fun _ _ h => ⟨h.bus, h.session⟩⟩
  have hI := Runs.invariant_run (I := fun x => Coupled x ∧ Chip.Receiving x.chip)
    (fun x q hI hq => ⟨hI.1.step hq.1, hI.2.step hq.2⟩) ⟨hx.coupled, hx.dma.receiving hd⟩ hall
  rw [Runs.run_append] at hI
  exact Idle.flushedOnce hw hss hps ⟨hI.1, hI.2, hi, h0, hl, hr, hc⟩

/-- Six bytes are written with a longword and a word. -/
theorem flush_exact_iff_fresh :
    Exact (Runs.run step (fresh false false) sixBytes)
      (Runs.thenAlways (strobe 0x05 :: held 0x05 ++ ended 0x05 :: tenure) (.steady {})) :=
  (flush_exact_iff (fresh_start false false) rfl (by decide +kernel)
    ⟨by decide +kernel, by decide +kernel, by decide +kernel⟩ (by decide +kernel)
    (flushedOnce_of_run (fresh_start false false) rfl (by decide +kernel) (by decide +kernel)
      (by decide +kernel) (by decide +kernel) (by decide +kernel) (by decide +kernel)
      (by decide +kernel) (by decide +kernel) (by decide +kernel))).mpr
    ⟨((fresh_start false false).stream rfl (by decide +kernel)).bytes, by decide +kernel,
      by decide +kernel⟩

/-- With three bytes in the FIFO, `s6` is entered for a longword that is not there. -/
theorem flush_writes_more :
    ¬ ∀ x, Start x → x.chip.regs.ndmadir = false → ∀ qs,
      Runs.Along step (fun x q => BusRules x q ∧ Chip.InSession x.chip q ∧
        ¬ Chip.Underflow x.chip q) x qs →
      Chip.Still (Runs.run step x qs).chip →
      (Runs.run step x qs).chip.cpu.state = .s0 →
      (Runs.run step x qs).taken =
        (Runs.run step x qs).written ++ (Runs.run step x qs).chip.undelivered →
      ∀ q, FlushedOnce (Runs.run step x qs) q → Exact (Runs.run step x qs) q := by
  intro hall
  have hx := fresh_start false false
  have hqs : Runs.Along step (fun x q => BusRules x q ∧ Chip.InSession x.chip q ∧
      ¬ Chip.Underflow x.chip q) (fresh false false) (List.replicate 3 oneByte).flatten := by
    decide +kernel
  have hK := Runs.invariant_run (fun x q hK hq => Carrying.step hK hq.1 hq.2.1 hq.2.2)
    (hx.carrying rfl) hqs
  have hz : Chip.Still (Runs.run step (fresh false false) (List.replicate 3 oneByte).flatten).chip :=
    ⟨by decide +kernel, by decide +kernel, by decide +kernel⟩
  have hq : FlushedOnce (Runs.run step (fresh false false) (List.replicate 3 oneByte).flatten)
      (Runs.thenAlways (strobe 0x05 :: held 0x05 ++ ended 0x05 :: tenure) (.steady {})) :=
    flushedOnce_of_run hx rfl (hqs.mono fun _ _ h => ⟨h.1, h.2.1⟩)
      (by decide +kernel) (by decide +kernel) (by decide +kernel) (by decide +kernel)
      (by decide +kernel) (by decide +kernel) (by decide +kernel) (by decide +kernel)
  have hb : Stream (Runs.run step (fresh false false) (List.replicate 3 oneByte).flatten) :=
    hx.stream rfl (by decide +kernel)
  exact hq.not_exact_of hK hz (by decide +kernel) (.inl (by decide +kernel))
    (hall _ hx rfl _ hqs hz (by decide +kernel) hb.bytes _ hq)

end System

end Resdmac
