import Resdmac.System

/-!
# The End of a Bus Tenure

The loops `s3`/`s15` and `s23`/`s35` have no counter of their own: `s15` leaves the bus when
`COUNT` is zero and `s35` when it is at its maximum. What is left to be done is bounded by a
budget of memory cycles, made of `COUNT`, of the steps that `SCSI_SM` has still to ask for
and of the flush flag.

## Main definitions

- `CpuSm.Move` — what a period of a tenure does to `CPU_SM`
- `Chip.budget` — a bound on the memory cycles that are left in a tenure
- `System.Answering` — memory terminates each cycle at last

## Main results

- `System.tenure_ends_iff` — a tenure ends, after a bounded number of memory cycles, iff it
  does not fill the FIFO with `DMAENA` clear
-/

namespace Resdmac

open Chip (Period strobe answered flushCycle oneByte)

namespace CpuSm

/-! ## §1 Moves of a tenure -/

/-- The number of clocks to the end of an entry, wait states not counted; the check after an
entry comes before the next one. -/
def State.rank : State → ℕ
  | .s8 | .s28 | .s34 => 1
  | .s7 | .s27 | .s33 => 2
  | .s6 | .s26 | .s32 => 3
  | .s4 | .s24 | .s31 => 4
  | .s3 | .s23 | .s30 => 5
  | .s2 | .s22 => 6
  | .s15 | .s35 => 7
  | .s12 => 8
  | .s11 => 9
  | .s10 => 10
  | _ => 0

theorem State.rank_le (st : State) : st.rank ≤ 10 := by
  cases st <;> simp [State.rank]

/-- The memory cycles to be reckoned beside those of the entries. -/
def State.extra : State → ℕ
  | .s10 | .s11 | .s12 => 2
  | .s2 | .s3 | .s4 | .s15 | .s22 | .s23 | .s24 | .s30 | .s31 | .s32 | .s35 => 1
  | _ => 0

theorem State.extra_le (st : State) : st.extra ≤ 2 := by
  cases st <;> simp [State.extra]

/-- A move of `CPU_SM` in a tenure: a cycle waits for its answer, the entry goes on or the
bus is about to be left, an entry is delivered, an entry is loaded, or a flush goes on to the
last word or longword. -/
inductive Move (i : Inputs) (prev t : Term) (st : State) : Prop where
  | waits (strobing : st.strobing = true) (next : nextState i st = st)
      (pas : (comb i st).pas = true)
      (int : (comb i st).intDecfifo = false ∧ (comb i st).intIncfifo = false)
      (answer : t.isSterm = false ∧ prev.isDsack = false)
  | moves (rank : (nextState i st).rank < st.rank)
      (int : (comb i st).intDecfifo = false ∧ (comb i st).intIncfifo = false)
      (extra : (nextState i st).extra + (st.strobing && !(comb i st).pas).toNat ≤ st.extra)
      (side : (nextState i st).filling = st.filling ∧ (nextState i st).draining = st.draining ∨
        nextState i st = .letgo)
      (delivering : (nextState i st).delivering = true → i.fifoempty = true →
        st.delivering = true)
      (loading : (nextState i st).loading = true → i.fifofull = true → st.loading = true)
  | delivered (delivering : st.delivering = true) (dec : (comb i st).intDecfifo = true)
      (inc : (comb i st).intIncfifo = false) (next : nextState i st = .s15)
  | loaded (loading : st.loading = true) (dec : (comb i st).intDecfifo = false)
      (inc : (comb i st).intIncfifo = true) (next : nextState i st = .s35)
  | last (state : st = .s15) (lastword : i.lastword = true)
      (int : (comb i st).intDecfifo = false ∧ (comb i st).intIncfifo = false)
      (stopflush : (comb i st).stopflush = true) (next : (nextState i st).draining = true)

section Moves

variable {i : Inputs} {prev t : Term} {st : State}

theorem move_of_strobing (ha : i.Answered prev t) (hs : st.strobing = true)
    (hr : st.second = true → t.isSterm = false) : Move i prev t st := by
  obtain ⟨a1, nbgrant, boeq3, cycledone, dmadir, dmaena, ndreq, ndsack0, ndsack1, fifoempty,
    fifofull, flushfifo, lastword, dsack, nsterm, nrdfifo, nrififo⟩ := i
  obtain ⟨h1, h2, h3⟩ := ha
  simp only at h1 h2 h3
  subst h1 h2
  cases st <;> first | exact Bool.noConfusion hs | skip
  all_goals cases prev <;> cases t <;> (try exact absurd (h3 rfl).1 (by decide)) <;>
    (try obtain ⟨-, rfl, rfl⟩ := h3 rfl) <;> (try exact Bool.noConfusion (hr rfl))
  all_goals first
    | exact .waits rfl rfl rfl ⟨rfl, rfl⟩ ⟨rfl, rfl⟩
    | exact .delivered rfl rfl rfl rfl
    | exact .loaded rfl rfl rfl rfl
    | exact .moves (Nat.le_of_ble_eq_true rfl) ⟨rfl, rfl⟩ (Nat.le_of_ble_eq_true rfl)
        (.inl ⟨rfl, rfl⟩) (fun h _ => by first | rfl | exact Bool.noConfusion h)
        (fun h _ => by first | rfl | exact Bool.noConfusion h)

theorem move_of_not_strobing (hb : st.onBus = true) (hs : st.strobing = false)
    (hn : (nextState i st).onBus = true) : Move i prev t st := by
  obtain ⟨a1, nbgrant, boeq3, cycledone, dmadir, dmaena, ndreq, ndsack0, ndsack1, fifoempty,
    fifofull, flushfifo, lastword, dsack, nsterm, nrdfifo, nrififo⟩ := i
  cases st <;> first | exact Bool.noConfusion hb | exact Bool.noConfusion hs |
    exact Bool.noConfusion hn | skip
  -- `s15` and `s35` decide whether the tenure goes on
  case s15 =>
    cases fifoempty with
    | false =>
        exact .moves (Nat.le_of_ble_eq_true rfl) ⟨rfl, rfl⟩ (Nat.le_of_ble_eq_true rfl)
          (.inl ⟨rfl, rfl⟩) (fun _ h => Bool.noConfusion h) (fun h _ => Bool.noConfusion h)
    | true =>
        cases lastword with
        | false =>
            exact .moves (Nat.le_of_ble_eq_true rfl) ⟨rfl, rfl⟩ (Nat.le_of_ble_eq_true rfl)
              (.inr rfl) (fun h _ => Bool.noConfusion h) (fun h _ => Bool.noConfusion h)
        | true => cases boeq3 <;> exact .last rfl rfl ⟨rfl, rfl⟩ rfl rfl
  case s34 => exact .loaded rfl rfl rfl rfl
  case s35 =>
    cases fifofull with
    | false =>
        exact .moves (Nat.le_of_ble_eq_true rfl) ⟨rfl, rfl⟩ (Nat.le_of_ble_eq_true rfl)
          (.inl ⟨rfl, rfl⟩) (fun h _ => Bool.noConfusion h) (fun _ h => Bool.noConfusion h)
    | true =>
        exact .moves (Nat.le_of_ble_eq_true rfl) ⟨rfl, rfl⟩ (Nat.le_of_ble_eq_true rfl)
          (.inr rfl) (fun h _ => Bool.noConfusion h) (fun h _ => Bool.noConfusion h)
  all_goals
    exact .moves (Nat.le_of_ble_eq_true rfl) ⟨rfl, rfl⟩ (Nat.le_of_ble_eq_true rfl)
      (.inl ⟨rfl, rfl⟩) (fun h _ => by first | rfl | exact Bool.noConfusion h)
      (fun h _ => by first | rfl | exact Bool.noConfusion h)

/-- With room in the FIFO a fill goes on. -/
theorem nextState_of_not_full (hb : st.onBus = true) (hf : st.filling = true)
    (hn : i.fifofull = false) : (nextState i st).onBus = true ∧ (nextState i st).filling = true := by
  cases st <;> first | exact Bool.noConfusion hb | exact Bool.noConfusion hf | skip
  all_goals simp only [nextState]; (repeat' split) <;> simp_all [State.onBus, State.filling]

theorem State.filling_of_second {st : State} (h : st.second = true) : st.filling = true := by
  cases st <;> first | rfl | exact Bool.noConfusion h

theorem filling_of_nextState (hb : st.onBus = true) (hf : (nextState i st).filling = true) :
    st.filling = true ∧ (nextState i st).onBus = true := by
  cases st <;> first | exact Bool.noConfusion hb | skip
  all_goals simp only [nextState] at hf ⊢; (repeat' split at hf) <;>
    simp_all [State.filling, State.onBus]

end Moves

end CpuSm

namespace ScsiSm

variable {i : Inputs} {st : State}

/-- A byte is on its way only if one was before, or on a request of the WD33C93. -/
theorem nextState_moving (h : ((nextState i st).taking || (nextState i st).giving) = true) :
    ((st.taking || st.giving) = true ∧ st ≠ .s2f3 ∧ st ≠ .f2s3) ∨
      (st.taking || st.giving) = false ∧ i.cdreq_ = false := by
  rcases Bool.or_eq_true_iff.mp h with h | h
  · rcases nextState_taking h with rfl | rfl | ⟨rfl, hi⟩
    · simp [State.taking]
    · simp [State.taking]
    · simp only [Inputs.startS2f, Bool.and_eq_true, Bool.not_eq_true'] at hi
      exact .inr ⟨rfl, hi.1.1.1.1⟩
  · rcases nextState_giving h with rfl | rfl | ⟨rfl, hi⟩
    · simp [State.taking, State.giving]
    · simp [State.taking, State.giving]
    · simp only [Inputs.startF2s, Bool.and_eq_true, Bool.not_eq_true'] at hi
      exact .inr ⟨rfl, hi.1.1.1.1⟩

/-- The states that step the byte pointer are states of a byte. -/
theorem State.ends_le (st : State) :
    (st == .s2f3).toNat + (st == .f2s3).toNat ≤ (st.taking || st.giving).toNat := by
  cases st <;> decide

end ScsiSm

namespace Chip

/-! ## §2 The budget of a tenure -/

/-- A bound on the steps of `COUNT` that `SCSI_SM` may ask for without a further `_DREQ`. -/
def inFlight (s : Chip) : ℕ :=
  s.scsi.rififoO.toNat + s.scsi.rdfifoO.toNat +
    (s.scsi.state.taking || s.scsi.state.giving).toNat + (!s.scsi.inp.cdreq_).toNat

theorem inFlight_le (s : Chip) : s.inFlight ≤ 4 := by
  have h1 := Bool.toNat_le s.scsi.rififoO
  have h2 := Bool.toNat_le s.scsi.rdfifoO
  have h3 := Bool.toNat_le (s.scsi.state.taking || s.scsi.state.giving)
  have h4 := Bool.toNat_le (!s.scsi.inp.cdreq_)
  unfold inFlight
  omega

/-- `COUNT` steps for `SCSI_SM`. -/
def stepsForScsi (s : Chip) (q : Period) : Bool :=
  !(s.cpuComb q).intDecfifo && !(s.cpuComb q).intIncfifo &&
    ((s.cpuOut q).incfifo || (s.cpuOut q).decfifo)

/-- A longword is counted for `SCSI_SM` once for each request. -/
theorem rififo_step {s : Chip} {q : Period} (h : Live s q) :
    (s.period q).scsi.rififoO.toNat +
      (!(s.cpuComb q).intDecfifo && !(s.cpuComb q).intIncfifo && (s.cpuOut q).incfifo).toNat ≤
        s.scsi.rififoO.toNat + (s.scsi.state == .s2f3).toNat := by
  have hi := period_rififoO h
  rw [scsiOut_rififo h, cpuOut_incfifo h] at hi
  rw [hi, cpuOut_incfifo h]
  cases (s.cpuComb q).intDecfifo <;> cases (s.cpuComb q).intIncfifo <;> cases s.scsi.rififoO <;>
    cases s.cpu.out.incfifo <;> cases (s.scsi.state == .s2f3) <;> cases s.fifo.boeq3 <;> decide

theorem rdfifo_step {s : Chip} {q : Period} (h : Live s q) :
    (s.period q).scsi.rdfifoO.toNat +
      (!(s.cpuComb q).intDecfifo && !(s.cpuComb q).intIncfifo && (s.cpuOut q).decfifo).toNat ≤
        s.scsi.rdfifoO.toNat + (s.scsi.state == .f2s3).toNat := by
  have hr := period_rdfifoO h
  rw [scsiOut_rdfifo h, cpuOut_decfifo h] at hr
  rw [hr, cpuOut_decfifo h]
  cases (s.cpuComb q).intDecfifo <;> cases (s.cpuComb q).intIncfifo <;> cases s.scsi.rdfifoO <;>
    cases s.cpu.out.decfifo <;> cases (s.scsi.state == .f2s3) <;> cases s.fifo.boeq3 <;> decide

/-- A byte is begun only on a sampled `_DREQ`, and it ends in `S2F_3` or `F2S_3`. -/
theorem moving_step {s : Chip} {q : Period} (h : Live s q) :
    ((s.period q).scsi.state.taking || (s.period q).scsi.state.giving).toNat +
      (s.scsi.state == .s2f3).toNat + (s.scsi.state == .f2s3).toNat ≤
        (s.scsi.state.taking || s.scsi.state.giving).toNat + (!s.scsi.inp.cdreq_).toNat := by
  rw [period_scsi_state h]
  cases hn : ((ScsiSm.nextState (s.scsiIn q) s.scsi.state).taking ||
      (ScsiSm.nextState (s.scsiIn q) s.scsi.state).giving) with
  | false =>
      have := ScsiSm.State.ends_le s.scsi.state
      rw [Bool.toNat_false]
      omega
  | true =>
      rcases ScsiSm.nextState_moving hn with ⟨hm, h1, h2⟩ | ⟨hm, hq⟩
      · simp [hm, beq_eq_false_iff_ne.mpr h1, beq_eq_false_iff_ne.mpr h2]
      · rw [scsiIn_eq h] at hq
        have hs : (s.scsi.state == .s2f3) = false ∧ (s.scsi.state == .f2s3) = false := by
          revert hm
          cases s.scsi.state <;> simp [ScsiSm.State.taking, ScsiSm.State.giving]
        simp [hm, show s.scsi.inp.cdreq_ = false from hq, hs.1, hs.2]

/-- A step of `COUNT` for `SCSI_SM` answers a request. -/
theorem inFlight_step {s : Chip} {q : Period} (h : Live s q) (hd : NoDreq q) :
    (s.period q).inFlight + (s.stepsForScsi q).toNat ≤ s.inFlight := by
  have hup := rififo_step h
  have hdn := rdfifo_step h
  have hmv := moving_step h
  have hc : (s.period q).scsi.inp.cdreq_ = true := by
    rw [period_scsi_inp h]
    simp [scsiClocked, dreq_, show q.clk135Fall.dreq_ = true from hd]
  have hor : (s.stepsForScsi q).toNat ≤
      (!(s.cpuComb q).intDecfifo && !(s.cpuComb q).intIncfifo && (s.cpuOut q).incfifo).toNat +
        (!(s.cpuComb q).intDecfifo && !(s.cpuComb q).intIncfifo && (s.cpuOut q).decfifo).toNat := by
    unfold stepsForScsi
    cases (!(s.cpuComb q).intDecfifo && !(s.cpuComb q).intIncfifo) <;>
      cases (s.cpuOut q).incfifo <;> cases (s.cpuOut q).decfifo <;> decide
  unfold inFlight
  rw [hc, Bool.not_true, Bool.toNat_false]
  omega

/-- The entries that are left in a tenure if nothing else moves `COUNT`, with the wrap of
`COUNT` that an entry brings about when there is none. -/
def togo (s : Chip) : ℕ :=
  if s.cpu.state.filling then if s.cpu.state.loading && s.fifo.full then 9 else 8 - s.fifo.level
  else if s.cpu.state.draining then
    if s.cpu.state.delivering && s.fifo.empty then 9 else s.fifo.level
  else 0

theorem togo_le {s : Chip} (hl : s.fifo.level ≤ 8) : s.togo ≤ 9 := by
  unfold togo
  split_ifs <;> omega

/-- A bound on the memory cycles that are left in a tenure. -/
def budget (s : Chip) : ℕ :=
  3 * s.togo + s.cpu.state.extra + 27 * s.inFlight + 30 * s.regs.flushfifo.toNat

theorem budget_le {s : Chip} (hl : s.fifo.level ≤ 8) : s.budget ≤ 167 := by
  have h1 := togo_le hl
  have h2 := s.cpu.state.extra_le
  have h3 := s.inFlight_le
  have h4 := Bool.toNat_le s.regs.flushfifo
  unfold budget
  omega

/-- With `COUNT` as it was, an entry that goes on leaves as many entries. -/
theorem togo_le_of_level {s t : Chip} (hlev : t.fifo.level = s.fifo.level)
    (hside : t.cpu.state.filling = s.cpu.state.filling ∧
      t.cpu.state.draining = s.cpu.state.draining ∨ t.cpu.state = .letgo)
    (hde : t.cpu.state.delivering = true → s.fifo.empty = true → s.cpu.state.delivering = true)
    (hlo : t.cpu.state.loading = true → s.fifo.full = true → s.cpu.state.loading = true) :
    t.togo ≤ s.togo := by
  rcases hside with ⟨hfi, hdr⟩ | hn
  · rw [Fifo.empty_eq, decide_eq_true_iff] at hde
    rw [Fifo.full_eq, decide_eq_true_iff] at hlo
    simp only [togo, hfi, hdr, hlev, Fifo.empty_eq, Fifo.full_eq, Bool.and_eq_true,
      decide_eq_true_iff]
    split_ifs <;> first | omega | simp_all
  · rw [togo, hn]
    exact Nat.zero_le _

section Budget

variable {s : Chip} {q : Period} (h : Live s q) (hl : s.fifo.level ≤ 8)
  (hon : s.cpu.state.onBus = true)

include hon in
/-- On the bus the FIFO is in reset exactly while `DMAENA` is clear. -/
theorem rstOut_of_onBus : s.rstOut_ q = s.regs.dmaena := by
  have hr : (s.cpuOut q).rstFifo = false := by
    refine Bool.eq_false_iff.mpr fun hr => ?_
    rw [(CpuSm.rstFifo_spec hr).1] at hon
    exact Bool.noConfusion hon
  rw [rstOut_, hr, Bool.not_false, Bool.and_true]

include h hl in
theorem period_level_le : (s.period q).fifo.level ≤ 8 := by
  rw [period_level h hl]
  split_ifs <;> omega

include h hl hon

/-- `COUNT` stays when neither machine steps it. -/
theorem level_of_not_steps (h0 : s.regs.dmaena = false → s.fifo.level = 0)
    (hi : (s.cpuComb q).intDecfifo = false ∧ (s.cpuComb q).intIncfifo = false)
    (hn : s.stepsForScsi q = false) : (s.period q).fifo.level = s.fifo.level := by
  rw [stepsForScsi, hi.1, hi.2, Bool.not_false, Bool.true_and, Bool.true_and,
    Bool.or_eq_false_iff] at hn
  rw [period_level h hl, rstOut_of_onBus hon, hn.1, hn.2]
  cases hd : s.regs.dmaena with
  | true => rfl
  | false => exact (h0 hd).symm

/-- Where `CPU_SM` steps no entry, a step of `COUNT` is paid for by its request. -/
theorem togo_of_not_steps (h0 : s.regs.dmaena = false → s.fifo.level = 0) (hd : NoDreq q)
    (hi : (s.cpuComb q).intDecfifo = false ∧ (s.cpuComb q).intIncfifo = false)
    (hle : (s.period q).fifo.level = s.fifo.level → (s.period q).togo ≤ s.togo) :
    3 * (s.period q).togo + 27 * (s.period q).inFlight ≤ 3 * s.togo + 27 * s.inFlight := by
  have hfly := inFlight_step h hd
  have hto' := togo_le (period_level_le h hl)
  cases hs : s.stepsForScsi q with
  | true =>
      rw [hs, Bool.toNat_true] at hfly
      omega
  | false =>
      have := hle (level_of_not_steps h hl hon h0 hi hs)
      omega

theorem togo_of_delivered (h0 : s.regs.dmaena = false → s.fifo.level = 0)
    (hs : s.cpu.state.delivering = true) (hd : (s.cpuComb q).intDecfifo = true)
    (hn : (s.period q).cpu.state = .s15) : (s.period q).togo + 1 ≤ s.togo := by
  have hlev : (s.period q).togo = (s.period q).fifo.level := by
    rw [togo, hn]
    simp [CpuSm.State.filling, CpuSm.State.draining, CpuSm.State.delivering]
  have hto : s.togo = if s.fifo.level = 0 then 9 else s.fifo.level := by
    have hdr := CpuSm.State.draining_of_delivering hs
    have hfl : s.cpu.state.filling = false := by
      revert hs
      cases s.cpu.state <;> simp [CpuSm.State.delivering, CpuSm.State.filling]
    simp [togo, hdr, hfl, hs, Fifo.empty_eq]
  rw [hlev, hto, period_level h hl, rstOut_of_onBus hon, cpuOut_decfifo h, hd, Bool.or_true]
  cases he : s.regs.dmaena with
  | true => split_ifs <;> omega
  | false => simp [h0 he]

theorem togo_of_loaded (he : s.regs.dmaena = true) (hs : s.cpu.state.loading = true)
    (hd : (s.cpuComb q).intDecfifo = false) (hi : (s.cpuComb q).intIncfifo = true)
    (hn : (s.period q).cpu.state = .s35) : (s.period q).togo + 1 ≤ s.togo := by
  have hlev : (s.period q).togo = 8 - (s.period q).fifo.level := by
    rw [togo, hn]
    simp [CpuSm.State.filling, CpuSm.State.loading]
  have hto : s.togo = if s.fifo.level = 8 then 9 else 8 - s.fifo.level := by
    simp [togo, CpuSm.State.filling_of_loading hs, hs, Fifo.full_eq]
  have hc : (s.cpuOut q).decfifo = false ∧ (s.cpuOut q).incfifo = true := by
    rw [cpuOut_decfifo h, cpuOut_incfifo h, hd, hi]
    simp
  rw [hlev, hto, period_level h hl, rstOut_of_onBus hon, he, hc.1, hc.2]
  simp only [if_true, Bool.false_eq_true, if_false]
  split_ifs <;> omega

/-- What a period of a tenure costs: each memory cycle is taken from the budget, and a period
that takes nothing from it brings the entry on or waits for memory. -/
theorem budget_step {prev t : Term} (hm : CpuSm.Move (s.cpuIn q) prev t s.cpu.state)
    (h0 : s.regs.dmaena = false → s.fifo.level = 0)
    (hfill : s.cpu.state.filling = true → s.regs.dmaena = true)
    (hd : NoDreq q) (hf : NoFlush s q) :
    (s.period q).budget + (s.cpu.state.strobing && !(s.cpuOut q).pas).toNat ≤ s.budget ∧
      ((s.period q).budget < s.budget ∨ (s.period q).cpu.state.rank < s.cpu.state.rank ∨
        (s.cpu.state.strobing = true ∧ (s.period q).cpu.state = s.cpu.state ∧
          (s.cpuOut q).pas = true ∧ t.isSterm = false ∧ prev.isDsack = false)) := by
  have hst := period_cpu_state h
  have hfly := inFlight_step h hd
  have hl' := period_level_le h hl
  have hto' := togo_le hl'
  have hends := Bool.toNat_le (s.cpu.state.strobing && !(s.cpuOut q).pas)
  have hpas : (s.cpuComb q).pas = (s.cpuOut q).pas := rfl
  have hff : (s.period q).regs.flushfifo = (s.regs.flushfifo && !(s.cpuOut q).stopflush) := by
    rw [period_flushfifo h, show (s.endAccess q).flush = false from hf]
    cases (s.cpuOut q).stopflush <;> simp
  have hflush : (s.period q).regs.flushfifo.toNat ≤ s.regs.flushfifo.toNat := by
    rw [hff]
    cases s.regs.flushfifo <;> cases (s.cpuOut q).stopflush <;> decide
  -- the period waits for memory, brings an entry on, delivers or loads one, or ends a flush
  rcases hm with ⟨hs, hn, hp, hi, ha⟩ | ⟨hr, hi, hx, hside, hde, hlo⟩ | ⟨hs, hd, hi, hn⟩ |
    ⟨hs, hd, hi, hn⟩ | ⟨hs, hw, hi, hstop, hn⟩
  · rw [← hst] at hn
    have hb := togo_of_not_steps h hl hon h0 hd hi fun e =>
      togo_le_of_level e (.inl ⟨by rw [hn], by rw [hn]⟩)
      (fun h _ => by rw [← hn]; exact h) (fun h _ => by rw [← hn]; exact h)
    have hp' : (s.cpuOut q).pas = true := hp
    refine ⟨?_, .inr (.inr ⟨hs, hn, hp', ha⟩)⟩
    rw [hp', Bool.not_true, Bool.and_false, Bool.toNat_false, budget, budget, hn]
    omega
  · rw [← hst] at hr hx hside hde hlo
    rw [cpuIn_eq h] at hde hlo
    have hb := togo_of_not_steps h hl hon h0 hd hi fun e =>
      togo_le_of_level e hside hde hlo
    refine ⟨?_, .inr (.inl hr)⟩
    change _ + (s.cpu.state.strobing && !(s.cpuOut q).pas).toNat ≤ _ at hx
    unfold budget
    omega
  · rw [← hst] at hn
    have hx : (s.period q).cpu.state.extra = 1 := by rw [hn]; rfl
    have hb := togo_of_delivered h hl hon h0 hs hd hn
    unfold budget
    omega
  · rw [← hst] at hn
    have hx : (s.period q).cpu.state.extra = 1 := by rw [hn]; rfl
    have he := hfill (CpuSm.State.filling_of_loading hs)
    have hb := togo_of_loaded h hl hon he hs hd hi hn
    unfold budget
    omega
  · -- the flush pays for the last word or longword, and for the wrap of `COUNT` after it
    have hx := (s.period q).cpu.state.extra_le
    rw [cpuIn_eq h] at hw
    have hw' : s.lastword = true := hw
    rw [lastword, Bool.and_eq_true, Bool.and_eq_true] at hw'
    have hns : s.cpu.state.strobing = false := by rw [hs]; rfl
    have hstop' : (s.cpuOut q).stopflush = true := hstop
    have hf' : (s.period q).regs.flushfifo = false := by
      rw [hff, hstop', Bool.not_true, Bool.and_false]
    unfold budget
    rw [hns, hf', hw'.1.2, Bool.false_and, Bool.toNat_false, Bool.toNat_true]
    omega

end Budget

end Chip

namespace System

/-! ## §3 Tenures -/

/-- What holds in every reachable state: the FIFO is empty in a tenure with `DMAENA` clear. -/
structure Reached (x : System) : Prop where
  coupled : Coupled x
  level_le : x.chip.fifo.level ≤ 8
  empty : x.chip.cpu.state.onBus = true → x.chip.regs.dmaena = false → x.chip.fifo.level = 0

section Kept

variable {x : System} {q : Period} (hq : BusRules x q)
include hq

/-- While the chip owns the bus nobody starts or stops the engine. -/
theorem Coupled.dmaena_of_bgack (hC : Coupled x) (hb : (x.chip.cpuOut q).bgack = true) :
    (x.chip.period q).regs.dmaena = x.chip.regs.dmaena := by
  have hn : ∀ n, (x.chip.endAccess q).hit n = false := fun n =>
    Bool.eq_false_iff.mpr fun hn => Bool.noConfusion (hb.symm.trans (hC.not_bgack_of_hit hq hn))
  have h1 : (x.chip.endAccess q).stDma = false := hn _
  have h2 : (x.chip.endAccess q).spDma = false := hn _
  rw [Chip.period_dmaena (hC.live hq), h1, h2]
  simp

theorem Reached.step (hR : Reached x) : Reached (x.step q) where
  coupled := hR.coupled.step hq
  level_le := Chip.period_level_le (hR.coupled.live hq) hR.level_le
  empty hon he := by
    have h := hR.coupled.live hq
    have hb := hR.coupled.step_onBus hq hon
    have he' : x.chip.regs.dmaena = false := (hR.coupled.dmaena_of_bgack hq hb).symm.trans he
    change (x.chip.period q).fifo.level = 0
    rw [Chip.period_level h hR.level_le, Chip.rstOut_, he']
    rfl

end Kept

/-- The CPU owns the bus: after reset, between two sessions or at the start of one. -/
structure Resting (x : System) : Prop where
  coupled : Coupled x
  level_le : x.chip.fifo.level ≤ 8
  offBus : x.chip.cpu.state.onBus = false

theorem Resting.reached {x : System} (hx : Resting x) : Reached x :=
  ⟨hx.coupled, hx.level_le, fun h => by rw [hx.offBus] at h; exact Bool.noConfusion h⟩

theorem Start.resting {x : System} (hx : Start x) : Resting x := by
  refine ⟨hx.coupled, ?_, ?_⟩
  · rw [(Fifo.count_eq_zero_iff _).mp hx.dma.count]
    exact Nat.zero_le _
  · rcases hx.dma.cpu_state with e | e <;> rw [e] <;> rfl

/-- The repeated word cycle of a longword that is read from a 16-bit port is answered by
`_DSACK`. -/
def RepeatsByDsack (x : System) (q : Period) : Prop :=
  x.chip.cpu.state.second = true → q.clk90Rise.term.isSterm = false

/-- The FIFO is filled while `DMAENA` holds it in reset. -/
def Endless (x : System) : Prop :=
  x.chip.cpu.state.filling = true ∧ x.chip.regs.dmaena = false

instance (x : System) : Decidable (Endless x) := inferInstanceAs (Decidable (_ ∧ _))

/-- What takes a tenure to its end: the budget, the place in the entry and the answer. -/
def effort (x : System) : ℕ :=
  32 * x.chip.budget + 2 * x.chip.cpu.state.rank + (!x.term.isDsack).toNat

section Tenure

variable {x : System} {q : Period} (hR : Reached x) (hq : BusRules x q)
  (hon : x.chip.cpu.state.onBus = true)
include hR hq hon

theorem Reached.move (hr : RepeatsByDsack x q) (hon' : (x.step q).chip.cpu.state.onBus = true) :
    CpuSm.Move (x.chip.cpuIn q) x.term q.clk90Rise.term x.chip.cpu.state := by
  have h := hR.coupled.live hq
  change (x.chip.period q).cpu.state.onBus = true at hon'
  rw [Chip.period_cpu_state h] at hon'
  cases hs : x.chip.cpu.state.strobing with
  | true => exact CpuSm.move_of_strobing (hR.coupled.answered hq hs) hs hr
  | false => exact CpuSm.move_of_not_strobing hon hs hon'

omit hon in
theorem Reached.endsCycle :
    x.chip.endsCycle q = (x.chip.cpu.state.strobing && !(x.chip.cpuOut q).pas) := by
  rw [Chip.endsCycle_eq (hR.coupled.live hq), hR.coupled.asO_, Bool.not_not]

/-- The bus is left with no cycle in progress. -/
theorem Reached.endsCycle_of_leaving (hoff : (x.step q).chip.cpu.state.onBus = false) :
    x.chip.endsCycle q = false := by
  have h := hR.coupled.live hq
  change (x.chip.period q).cpu.state.onBus = false at hoff
  rw [Chip.period_cpu_state h] at hoff
  rw [hR.endsCycle hq, CpuSm.nextState_not_onBus hon hoff]
  rfl

/-- A period of a tenure that ends takes its memory cycle from the budget, and raises the
effort never; an answer lowers it. -/
theorem Reached.tenure_step (hr : RepeatsByDsack x q) (hd : Chip.NoDreq q) (he : ¬ Endless x)
    (hon' : (x.step q).chip.cpu.state.onBus = true) :
    (x.step q).chip.budget + (x.chip.endsCycle q).toNat ≤ x.chip.budget ∧
      (x.step q).effort ≤ x.effort ∧
      ((x.chip.asO_ = false → q.clk90Rise.term ≠ .wait) → (x.step q).effort < x.effort) := by
  have h := hR.coupled.live hq
  have hb := hR.coupled.step_onBus hq hon'
  obtain ⟨hbud, hgo⟩ := Chip.budget_step h hR.level_le hon (hR.move hq hon hr hon') (hR.empty hon)
    (fun hf => Bool.eq_true_of_not_eq_false fun hn => he ⟨hf, hn⟩) hd (hR.coupled.noFlush hq hb)
  rw [← hR.endsCycle hq] at hbud
  have hrank := (x.chip.period q).cpu.state.rank_le
  have hbit := Bool.toNat_le (!(x.step q).term.isDsack)
  have hbit' : 0 ≤ (!x.term.isDsack).toNat := Nat.zero_le _
  refine ⟨hbud, ?_⟩
  change 32 * (x.chip.period q).budget + 2 * (x.chip.period q).cpu.state.rank +
      (!(x.step q).term.isDsack).toNat ≤ 32 * x.chip.budget + 2 * x.chip.cpu.state.rank +
      (!x.term.isDsack).toNat ∧ (_ → 32 * (x.chip.period q).budget +
      2 * (x.chip.period q).cpu.state.rank + (!(x.step q).term.isDsack).toNat <
      32 * x.chip.budget + 2 * x.chip.cpu.state.rank + (!x.term.isDsack).toNat)
  change (x.chip.period q).budget + _ ≤ _ at hbud
  rcases hgo with hlt | hlt | ⟨hs, hn, hp, ht, hprev⟩
  · omega
  · omega
  · -- the cycle waits: a `_DSACK` is latched, or there was no answer
    rw [hn, hprev, Bool.not_false, Bool.toNat_true]
    refine ⟨by omega, fun hans => ?_⟩
    have hO : x.chip.asO_ = false := by rw [hR.coupled.asO_, hs]; rfl
    obtain ⟨-, -, -, hheld⟩ := hq.answers hO
    have hds : q.clk90Rise.term.isDsack = true := by
      have hne := hans hO
      revert ht hne
      cases q.clk90Rise.term <;> simp [Term.isSterm, Term.isDsack]
    have hterm : (x.step q).term = q.sclkFall.term := by
      change (if !x.chip.asO_ && !(x.chip.period q).asO_ then q.sclkFall.term else .wait) = _
      rw [hO, Chip.period_asO_ h, hp]
      rfl
    rw [hterm, hheld.eq hds, hds, Bool.not_true, Bool.toNat_false]
    omega

end Tenure

/-! ## §4 Infinite runs -/

/-- A fill with `DMAENA` clear goes on. -/
theorem Reached.endless_step {x : System} {q : Period} (hR : Reached x) (hq : BusRules x q)
    (hon : x.chip.cpu.state.onBus = true) (he : Endless x) :
    (x.step q).chip.cpu.state.onBus = true ∧ Endless (x.step q) := by
  have h := hR.coupled.live hq
  have hl := hR.empty hon he.2
  have hn : (CpuSm.nextState (x.chip.cpuIn q) x.chip.cpu.state).onBus = true ∧
      (CpuSm.nextState (x.chip.cpuIn q) x.chip.cpu.state).filling = true := by
    apply CpuSm.nextState_of_not_full hon he.1
    simp [Chip.cpuIn_eq h, Fifo.full_eq, hl]
  have hst := Chip.period_cpu_state h
  have hon' : (x.step q).chip.cpu.state.onBus = true := by
    change (x.chip.period q).cpu.state.onBus = true
    rw [hst]
    exact hn.1
  refine ⟨hon', ?_, ?_⟩
  · change (x.chip.period q).cpu.state.filling = true
    rw [hst]
    exact hn.2
  · exact (hR.coupled.dmaena_of_bgack hq (hR.coupled.step_onBus hq hon')).trans he.2

theorem Reached.not_endless_step {x : System} {q : Period} (hR : Reached x) (hq : BusRules x q)
    (hon : x.chip.cpu.state.onBus = true) (he : ¬ Endless x) : ¬ Endless (x.step q) := by
  rintro ⟨hf, hd⟩
  have h := hR.coupled.live hq
  change (x.chip.period q).cpu.state.filling = true at hf
  change (x.chip.period q).regs.dmaena = false at hd
  rw [Chip.period_cpu_state h] at hf
  obtain ⟨hfill, hb⟩ := CpuSm.filling_of_nextState hon hf
  rw [← Chip.cpuOut_bgack] at hb
  rw [hR.coupled.dmaena_of_bgack hq hb] at hd
  exact he ⟨hfill, hd⟩

/-- Memory terminates each cycle after finitely many clocks. -/
def Answering (x : System) (q : ℕ → Period) : Prop :=
  ∀ m, ∃ n, m ≤ n ∧ ((Runs.states step x q n).chip.asO_ = false → (q n).clk90Rise.term ≠ .wait)

theorem Answering.later {x : System} {q : ℕ → Period} (ha : Answering x q) (k : ℕ) :
    Answering (Runs.states step x q k) fun j => q (k + j) :=
  Runs.states_again (P := fun (y : System) (p : Period) =>
    y.chip.asO_ = false → p.clk90Rise.term ≠ .wait) ha k

/-- A period in which bus and memory keep to the rules and the WD33C93 raises no `_DREQ`. -/
structure Draws (x : System) (q : Period) : Prop where
  bus : BusRules x q
  noDreq : Chip.NoDreq q
  repeats : RepeatsByDsack x q

/-- The memory cycles of the first `n` periods. -/
def cycles (x : System) (q : ℕ → Period) (n : ℕ) : ℕ :=
  Runs.countBefore (fun k => (Runs.states step x q k).chip.endsCycle (q k)) n

/-- The bound for a FIFO of `depth` longwords. -/
def cycleBound (depth : ℕ) : ℕ := 18 * (depth + 1) + 5

section Infinite

variable {x : System} {q : ℕ → Period} (hR : Reached x)
  (hon : x.chip.cpu.state.onBus = true)
include hR hon

theorem Reached.never_ends (hq : ∀ n, BusRules (Runs.states System.step x q n) (q n))
    (he : Endless x) (n : ℕ) : (Runs.states System.step x q n).chip.own = true := by
  have hI := @Runs.states_from _ _ System.step
    (fun x => Reached x ∧ x.chip.cpu.state.onBus = true ∧ Endless x) x q 0 ⟨hR, hon, he⟩
    (fun n _ ⟨hR, hon, he⟩ => ⟨hR.step (hq n), hR.endless_step (hq n) hon he⟩) n (Nat.zero_le n)
  rw [hI.1.coupled.own]
  exact hI.2.1

theorem Reached.ends (hq : ∀ n, Draws (Runs.states System.step x q n) (q n))
    (ha : Answering x q) (he : ¬ Endless x) :
    ∃ n, (Runs.states System.step x q n).chip.own = false ∧ cycles x q n ≤ cycleBound (2 ^ 3) := by
  let y := Runs.states System.step x q
  let I : System → Prop := fun x => Reached x ∧ ¬ Endless x
  -- the invariant holds until the bus is left
  have hkeep : ∀ n, I (y n) → (y n).chip.cpu.state.onBus = true → I (y (n + 1)) :=
    fun n ⟨hR, he⟩ hon => ⟨hR.step (hq n).bus, hR.not_endless_step (hq n).bus hon he⟩
  -- and the effort takes the tenure to its end
  have hend : ∃ n, (y n).chip.cpu.state.onBus = false := by
    obtain ⟨n, -, hn⟩ := @Runs.reaches_of_measure _ _ System.step
      (fun x => I x ∧ x.chip.cpu.state.onBus = true)
      (fun x => x.chip.cpu.state.onBus = false) effort x q 0 ⟨⟨hR, he⟩, hon⟩
      (fun n _ ⟨hI, hon⟩ => by
        rcases Bool.eq_false_or_eq_true (y (n + 1)).chip.cpu.state.onBus with hn | hn
        · exact .inr ⟨⟨hkeep n hI hon, hn⟩, (hI.1.tenure_step (hq n).bus hon (hq n).repeats
            (hq n).noDreq hI.2 hn).2.1⟩
        · exact .inl hn)
      (fun n _ => by
        obtain ⟨k, hk, hans⟩ := ha n
        refine ⟨k, hk, fun ⟨hI, hon⟩ => ?_⟩
        rcases Bool.eq_false_or_eq_true (y (k + 1)).chip.cpu.state.onBus with hn | hn
        · exact .inr ((hI.1.tenure_step (hq k).bus hon (hq k).repeats (hq k).noDreq hI.2
            hn).2.2 hans)
        · exact .inl hn)
    exact ⟨n, hn⟩
  -- up to the first period off the bus, each memory cycle was taken from the budget
  classical
  have hfirst : ∀ n, n < Nat.find hend → (y n).chip.cpu.state.onBus = true := fun n hn =>
    Bool.eq_true_of_not_eq_false (Nat.find_min hend hn)
  obtain ⟨N, hN⟩ : ∃ N, Nat.find hend = N + 1 := by
    refine Nat.exists_eq_succ_of_ne_zero fun h0 => ?_
    have := Nat.find_spec hend
    rw [h0] at this
    exact Bool.noConfusion (this.symm.trans hon)
  obtain ⟨hI, hcount⟩ := @Runs.countBefore_le _ _ System.step I x q
    (fun x q => x.chip.endsCycle q) (fun x => x.chip.budget) ⟨hR, he⟩ N
    (fun n hn hI => by
      have hon := hfirst n (by omega)
      exact ⟨hkeep n hI hon, (hI.1.tenure_step (hq n).bus hon (hq n).repeats (hq n).noDreq hI.2
        (hfirst (n + 1) (by omega))).1⟩) N (Nat.le_refl N)
  have hoff : (y (N + 1)).chip.cpu.state.onBus = false := hN ▸ Nat.find_spec hend
  have hR' : Reached (y (N + 1)) := hI.1.step (hq N).bus
  refine ⟨N + 1, hR'.coupled.own.trans hoff, ?_⟩
  have hlast := hI.1.endsCycle_of_leaving (hq N).bus (hfirst N (by omega)) hoff
  have hb := Chip.budget_le hR.level_le
  rw [cycles, Runs.countBefore, hlast, cycleBound, Bool.toNat_false]
  change Runs.countBefore _ N + _ ≤ x.chip.budget at hcount
  omega

end Infinite

/-- Every tenure ends, after a number of memory cycles that is bounded for the depth of the
FIFO, if and only if it does not fill the FIFO with `DMAENA` clear: for every reachable state
in which the chip owns the bus, whatever the CPU did before, and every run from there in which
memory terminates each cycle and the WD33C93 raises no further `_DREQ`. -/
theorem tenure_ends_iff {x : System} (hx : Resting x) {qs : List Period}
    (hqs : Runs.Along step BusRules x qs) (hon : (Runs.run step x qs).chip.own = true)
    {q : ℕ → Period} (hq : ∀ n, Draws (Runs.states step (Runs.run step x qs) q n) (q n))
    (ha : Answering (Runs.run step x qs) q) :
    (∃ n, (Runs.states step (Runs.run step x qs) q n).chip.own = false ∧
        cycles (Runs.run step x qs) q n ≤ cycleBound (2 ^ 3)) ↔
      ¬ Endless (Runs.run step x qs) := by
  have hR : Reached (Runs.run step x qs) :=
    Runs.invariant_run (fun x q hR hq => hR.step hq) hx.reached hqs
  rw [hR.coupled.own] at hon
  constructor
  · rintro ⟨n, hn, -⟩ he
    exact Bool.noConfusion (hn.symm.trans (hR.never_ends hon (fun n => (hq n).bus) he n))
  · exact hR.ends hon hq ha

/-- Memory answers as a 32-bit port, at once. -/
def answering : Period := .steady { dsack0_ := false, dsack1_ := false }

theorem answering_draws {x : System} (hc : x.cycle = none)
    (ht : x.term = .wait ∨ x.term = .dsack32) :
    Draws x answering ∧ (x.step answering).cycle = none ∧
      ((x.step answering).term = .wait ∨ (x.step answering).term = .dsack32) := by
  refine ⟨⟨⟨⟨rfl, rfl, rfl, rfl, rfl, rfl⟩, ?_, ?_, ?_, ?_, ?_, ?_, ?_⟩, rfl, ?_⟩, rfl, ?_⟩
  · rw [hc]
    exact ⟨rfl, rfl, rfl, rfl⟩
  · exact (rfl : answering.clk135Fall.as_ = true)
  · exact fun _ h => Bool.noConfusion h
  · exact fun _ _ h => Bool.noConfusion h
  · rw [hc]
    exact fun b hb => (Option.not_mem_none b hb).elim
  · exact ⟨fun _ => rfl, fun _ => ⟨rfl, rfl⟩⟩
  · refine fun _ => ⟨by decide, by decide, ?_, .inr rfl⟩
    rcases ht with e | e <;> rw [e]
    · exact .inl rfl
    · exact .inr rfl
  · exact fun _ => rfl
  · change (if !x.chip.asO_ && !(x.chip.period answering).asO_ then Term.dsack32 else .wait) = _ ∨
      (if !x.chip.asO_ && !(x.chip.period answering).asO_ then Term.dsack32 else .wait) = _
    split
    · exact .inr rfl
    · exact .inl rfl

theorem answering_run {x : System} (hc : x.cycle = none) (ht : x.term = .wait ∨ x.term = .dsack32) :
    (∀ n, Draws (Runs.states step x (fun _ => answering) n) answering) ∧
      Answering x fun _ => answering := by
  have hI := @Runs.states_from _ _ step
    (fun x => x.cycle = none ∧ (x.term = .wait ∨ x.term = .dsack32)) x (fun _ => answering) 0
    ⟨hc, ht⟩
    (fun n _ h => (answering_draws h.1 h.2).2)
  refine ⟨fun n => (answering_draws (hI n (Nat.zero_le n)).1 (hI n (Nat.zero_le n)).2).1,
    fun m => ⟨m, Nat.le_refl m, fun _ => (by decide : answering.clk90Rise.term ≠ .wait)⟩⟩

/-- The bus is requested and granted to a session that drains the FIFO. -/
def oneTenure : List Period :=
  oneByte ++ flushCycle ++ List.replicate 4 (.steady { bg_ := false })

theorem tenure_ends_iff_fresh :
    (∃ n, (Runs.states step (Runs.run step (fresh false false) oneTenure)
          (fun _ => answering) n).chip.own = false ∧
        cycles (Runs.run step (fresh false false) oneTenure) (fun _ => answering) n ≤
          cycleBound (2 ^ 3)) ↔
      ¬ Endless (Runs.run step (fresh false false) oneTenure) :=
  have hq := answering_run (x := Runs.run step (fresh false false) oneTenure)
    (by decide +kernel) (by decide +kernel)
  tenure_ends_iff (fresh_start false false).resting (by decide +kernel) (by decide +kernel)
    hq.1 hq.2

/-- `SP_DMA` is strobed while `CPU_SM` waits for the bus to fill the FIFO. -/
def stoppedRequest : List Period :=
  List.replicate 3 (.steady { dreq_ := false }) ++
    strobe 0x0F :: answered 0x0F ++
      List.replicate 3 (.steady { bg_ := false })

/-- `SP_DMA` after the request and before the grant: the FIFO is held in reset, never full,
and the bus is kept for ever. -/
theorem tenure_endless :
    ¬ ∃ bound, ∀ x, Start x → ∀ qs, Runs.Along step BusRules x qs →
      (Runs.run step x qs).chip.own = true →
      ∀ q : ℕ → Period, (∀ n, Draws (Runs.states step (Runs.run step x qs) q n) (q n)) →
        Answering (Runs.run step x qs) q →
        ∃ n, (Runs.states step (Runs.run step x qs) q n).chip.own = false ∧
          cycles (Runs.run step x qs) q n ≤ bound := by
  rintro ⟨bound, h⟩
  have hqs : Runs.Along step BusRules (fresh true false) stoppedRequest := by decide +kernel
  have hq := answering_run (x := Runs.run step (fresh true false) stoppedRequest)
    (by decide +kernel) (by decide +kernel)
  obtain ⟨n, hn, -⟩ := h (fresh true false) (fresh_start true false) stoppedRequest hqs
    (by decide +kernel) _ hq.1 hq.2
  have hR : Reached (Runs.run step (fresh true false) stoppedRequest) :=
    Runs.invariant_run (fun x q hR hq => hR.step hq) (fresh_start true false).resting.reached hqs
  have hnever := hR.never_ends (by decide +kernel) (fun n => (hq.1 n).bus) (by decide +kernel) n
  exact Bool.noConfusion (hn.symm.trans hnever)

end System

end Resdmac
