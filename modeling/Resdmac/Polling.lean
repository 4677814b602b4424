import Resdmac.Driver
import Resdmac.Progress

/-!
# `dma_stop` Returns

The polling loop of `dma_stop` has no bound of its own: it waits for the chip to get the bus
and for memory to answer, longword by longword. If both happen again and again while the CPU
goes on with its accesses, the FIFO becomes empty and the loop ends.

## Main results

- `Host.dma_stop_returns` — `dma_stop` returns with the block in memory
-/

namespace Resdmac

open Chip (Period)

namespace Board

/-! ## §1 A flush of whole longwords -/

/-- The flush has longwords to write, and it was seen. -/
structure Flushing (m : Address → Byte) (a : Address) (b : Board) : Prop where
  closing : Closing m a b
  level : 1 ≤ b.sys.chip.fifo.level
  flushfifo : b.sys.chip.regs.flushfifo = true
  sampled : b.sys.chip.cpu.inp.dmaena = true ∧ b.sys.chip.cpu.inp.flushfifo = true

section Flushing

variable {m : Address → Byte} {a : Address} {b : Board} {q : Period}

/-- An empty FIFO stays empty. -/
theorem Closing.level_step (hc : Closing m a b) (hs : Chip.InSession b.sys.chip q)
    (h0 : b.sys.chip.fifo.level = 0) : (b.sys.chip.period q).fifo.level = 0 := by
  have hD := hc.storing.draining
  have hl := hD.reading.period_level hs (hD.reading.not_underflow hs hD.fed)
  rw [hl, Chip.received, hc.still.rififoO, h0]
  split_ifs <;> rfl

/-- The flush is not taken back before the last longword. -/
theorem Closing.not_stopflush (hc : Closing m a b) (hq : q.NoReset)
    (h1 : 1 ≤ b.sys.chip.fifo.level) : (b.sys.chip.cpuOut q).stopflush = false := by
  have hI := hc.storing.draining.reading
  have h : Chip.Live b.sys.chip q := ⟨hI.awake, hq⟩
  have hne : (b.sys.chip.cpuIn q).fifoempty = false := by
    rw [Chip.cpuIn_eq h]
    exact (Fifo.empty_eq _).trans (decide_eq_false (by omega))
  have hlast : (b.sys.chip.cpuIn q).lastword = false := by
    rw [Chip.cpuIn_eq h]
    exact hc.lastword
  refine Bool.eq_false_iff.mpr fun hst => ?_
  rcases CpuSm.stopflush_spec (hI.dmadir q hq) hst with
    ⟨-, -, -, he, -⟩ | ⟨-, -, -, -, hl, -⟩ | ⟨-, he, -⟩
  · exact Bool.noConfusion (hne.symm.trans he)
  · exact Bool.noConfusion (hlast.symm.trans hl)
  · exact Bool.noConfusion (hne.symm.trans he)

/-- How far the end of the flush is: the longwords in the FIFO, and the way to the next one. -/
def flushRank (x : System) : ℕ ×ₗ ℕ := toLex (x.chip.fifo.level, x.stage)

variable (hf : Flushing m a b) (hq : System.BusRules b.sys q) (hs : Chip.InSession b.sys.chip q)
  (hd : Chip.NoDreq q)
include hf hq hs hd

/-- The flush goes on until the FIFO is empty. -/
theorem Flushing.step :
    (b.sys.chip.period q).fifo.level = 0 ∨ Flushing m a (b.step q) := by
  have hc := hf.closing
  have hC := hc.storing.draining.coupled
  have hI := hc.storing.draining.reading
  have h := hC.live hq
  by_cases h0 : (b.sys.chip.period q).fifo.level = 0
  · exact .inl h0
  right
  -- `CPU_SM` drops the flush of an empty FIFO only
  have hst := hc.not_stopflush hq.noReset hf.level
  have hinp : (b.sys.chip.period q).cpu.inp = _ := Chip.period_cpu_inp h
  have hk : Chip.Keeps b.sys.chip q :=
    ⟨hs.noReset, hs.acrWr, hs.spDma, fun hw => Bool.noConfusion (hs.contrWr.symm.trans hw)⟩
  refine ⟨hc.step hq hk hd, Nat.one_le_iff_ne_zero.mpr h0, ?_, ?_⟩
  · change (b.sys.chip.period q).regs.flushfifo = true
    rw [Chip.period_flushfifo h, hst, hf.flushfifo]
    simp
  · change (b.sys.chip.period q).cpu.inp.dmaena = true ∧
      (b.sys.chip.period q).cpu.inp.flushfifo = true
    rw [hinp]
    exact ⟨hI.dmaena, hf.flushfifo⟩

omit hd in
/-- A period of the flush writes a longword, brings it nearer, or waits. -/
theorem Flushing.rank_step :
    flushRank (b.sys.step q) < flushRank b.sys ∨
      flushRank (b.sys.step q) = flushRank b.sys ∧
        System.awaits (b.sys.step q) = System.awaits b.sys ∧
          ¬ System.Happens (System.awaits b.sys) b.sys q := by
  have hc := hf.closing
  have hD := hc.storing.draining
  have hI := hD.reading
  have hlev := hI.period_level hs (hI.not_underflow hs hD.fed)
  rw [Chip.received, hc.still.rififoO, Bool.toNat_false, Nat.add_zero] at hlev
  have hnear := hD.drain_step hq hs hf.sampled.1 hc.lastword hf.level (.inr hf.sampled.2)
  have hlev' : (b.sys.step q).chip.fifo.level = _ := hlev
  have hlow := hf.level
  simp only [flushRank, Prod.Lex.toLex_lt_toLex]
  rw [hlev']
  cases hdec : (b.sys.chip.cpuComb q).intDecfifo with
  | true =>
      rw [if_pos rfl]
      exact .inl (.inl (by omega))
  | false =>
      rw [if_neg Bool.false_ne_true]
      rcases hnear with h1 | hlt | ⟨heq, hw, hj⟩
      · exact Bool.noConfusion (hdec.symm.trans h1)
      · exact .inl (.inr ⟨rfl, hlt⟩)
      · exact .inr ⟨by rw [heq], hw, hj⟩

end Flushing

end Board

namespace Host

/-! ## §2 The loop -/

/-- `FLUSH` was strobed in its access, and after it the FIFO is empty or being flushed. -/
structure Emptying (m : Address → Byte) (a : Address) (block : List Byte) (h : Host) : Prop where
  winding : Winding m a block h
  strobed : h.stop = .flush → h.board.sys.accessing = true →
    h.board.sys.chip.regs.flushfifo = true
  flushing : h.stop = .poll → h.board.sys.chip.fifo.level = 0 ∨ Board.Flushing m a h.board

section Emptying

variable {m : Address → Byte} {a : Address} {block : List Byte} {h : Host} {q : Period}

/-- The accesses of `FLUSH` and `ISTR` leave the session alone. -/
theorem Winding.inSession (hw : Winding m a block h) (hq : h.Executes q)
    (hs : h.stop = .flush ∨ h.stop = .poll) : Chip.InSession h.board.sys.chip q := by
  have hC := hw.coupled
  have hn : (h.board.sys.chip.endAccess q).hit 0x08 = false := by
    apply hq.not_hit hC
    rcases hs with e | e <;> rw [e] <;> decide
  refine ⟨hq.bus.noReset, ?_, hq.acrWr hC, ?_⟩
  · rw [Access.contrWr, Access.wr, hn, Bool.false_and]
  · apply hq.not_hit hC
    rcases hs with e | e <;> rw [e] <;> decide

/-- The strobe begins the flush. -/
theorem Emptying.begins (he : Emptying m a block h) (hq : h.Executes q) (hs : h.stop = .flush)
    (hc : h.board.sys.accessing = true) :
    (h.board.sys.chip.period q).fifo.level = 0 ∨ Board.Flushing m a (h.board.step q) := by
  have hw := he.winding
  obtain ⟨hcl, -⟩ := hw.closing (by rw [hs]; rfl)
  have hD := hcl.storing.draining
  have h' := hw.coupled.live hq.bus
  have hses := hw.inSession hq (.inl hs)
  -- an empty FIFO needs no flush
  by_cases h0 : (h.board.sys.chip.period q).fifo.level = 0
  · exact .inl h0
  have h1 : 1 ≤ h.board.sys.chip.fifo.level :=
    Nat.one_le_iff_ne_zero.mpr fun e => h0 (hcl.level_step hses e)
  have hfl := he.strobed hs hc
  have hinp : (h.board.sys.chip.period q).cpu.inp = _ := Chip.period_cpu_inp h'
  refine .inr ⟨(hw.closing_step hq (by rw [hs]; rfl)).1, Nat.one_le_iff_ne_zero.mpr h0, ?_, ?_⟩
  · change (h.board.sys.chip.period q).regs.flushfifo = true
    rw [Chip.period_flushfifo h', hcl.not_stopflush hq.bus.noReset h1, hfl]
    simp
  · change (h.board.sys.chip.period q).cpu.inp.dmaena = true ∧
      (h.board.sys.chip.period q).cpu.inp.flushfifo = true
    rw [hinp]
    exact ⟨hD.reading.dmaena, hfl⟩

/-- In the loop the flush goes on. -/
theorem Emptying.goes_on (he : Emptying m a block h) (hq : h.Executes q) (hs : h.stop = .poll) :
    (h.board.sys.chip.period q).fifo.level = 0 ∨ Board.Flushing m a (h.board.step q) := by
  have hses := he.winding.inSession hq (.inr hs)
  rcases he.flushing hs with h0 | hf
  · obtain ⟨hcl, -⟩ := he.winding.closing (by rw [hs]; rfl)
    exact .inl (hcl.level_step hses h0)
  · exact hf.step hq.bus hses hq.noDreq

theorem Emptying.step (he : Emptying m a block h) (hq : h.Executes q) :
    Emptying m a block (h.step q) := by
  have hw := he.winding
  have hC := hw.coupled
  refine ⟨hw.step hq, fun hs hc => ?_, fun hs => ?_⟩
  · -- the strobe of the access
    have hst : h.stop = .flush := (stop_of_cycle (System.cycle_of_accessing hc)).symm.trans hs
    have ha : h.board.sys.Accesses q (some (0x05, false)) := by
      have ha := hq.access
      rwa [hst] at ha
    have hhit : (h.board.sys.chip.endAccess q).flush = true := (ha.hit hC hq.bus hc).1
    change (h.board.sys.chip.period q).regs.flushfifo = true
    rw [Chip.period_flushfifo (hC.live hq.bus), hhit]
    rfl
  · rcases step_stop h q with e | ⟨hc, e⟩
    · exact he.goes_on hq (e.symm.trans hs)
    · rw [e] at hs
      cases hst : h.stop with
      | flush => exact he.begins hq hst hc
      | poll => exact he.goes_on hq hst
      | maskInterrupts => rw [hst] at hs; exact DmaStop.noConfusion hs
      | clearInterrupt => rw [hst] at hs; exact DmaStop.noConfusion hs
      | stopDma => rw [hst] at hs; exact DmaStop.noConfusion hs
      | restoreControl => rw [hst] at hs; exact DmaStop.noConfusion hs
      | returned => rw [hst] at hs; exact DmaStop.noConfusion hs

end Emptying

/-! ## §3 The end of the loop -/

/-- What `dma_stop` relies on: memory answers and the bus is granted again and again, and the
CPU ends one access after the other. -/
structure Fair (h : Host) (q : ℕ → Period) : Prop where
  answering : System.Answering h.board.sys q
  granting : System.Granting h.board.sys q
  working : ∀ m, (Runs.states step h q m).stop ≠ .returned →
    ∃ n, m ≤ n ∧ (Runs.states step h q n).ends (q n) = true

section Infinite

variable {m : Address → Byte} {a : Address} {block : List Byte} {h : Host} {q : ℕ → Period}

theorem states_sys (n : ℕ) :
    (Runs.states step h q n).board.sys = Runs.states System.step h.board.sys q n :=
  Runs.states_map (f := fun h : Host => h.board.sys) (fun _ _ => rfl) n

variable (hI : ∀ n, Emptying m a block (Runs.states step h q n))
  (hq : ∀ n, (Runs.states step h q n).Executes (q n)) (hf : Fair h q)
include hf

/-- The access of a statement ends. -/
theorem Fair.exists_ends (k : ℕ) (hk : (Runs.states step h q k).stop ≠ .returned) :
    ∃ n, k ≤ n ∧ (Runs.states step h q n).stop = (Runs.states step h q k).stop ∧
      (Runs.states step h q n).ends (q n) = true := by
  exact Runs.exists_first (f := fun h : Host => h.stop)
    (fun n _ _ he => stop_of_not_ends (Bool.eq_false_iff.mpr he)) (hf.working k hk)

/-- Every statement but the loop is passed. -/
theorem Fair.passes {d : DmaStop} (hd : ∀ istr, d.next istr = d.next 0) (hr : d ≠ .returned)
    {k : ℕ} (hk : (Runs.states step h q k).stop = d) :
    ∃ n, k < n ∧ (Runs.states step h q n).stop = d.next 0 := by
  obtain ⟨n, hn, hs, he⟩ := hf.exists_ends k (by rw [hk]; exact hr)
  refine ⟨n + 1, Nat.lt_succ_of_le hn, ?_⟩
  rw [Runs.states_succ, stop_of_ends he, hs, hk, hd]

include hI hq

/-- The flush ends: under way in the loop, the FIFO becomes empty. -/
theorem Fair.empties {k : ℕ} (hk : ∀ n, k ≤ n → (Runs.states step h q n).stop = .poll) :
    ∃ n, k ≤ n ∧ (Runs.states step h q n).board.sys.chip.fifo.level = 0 := by
  rcases (hI k).flushing (hk k (Nat.le_refl k)) with h0 | hfl
  · exact ⟨k, Nat.le_refl k, h0⟩
  obtain ⟨n, hn, h0⟩ := @Runs.reaches_of_just _ _ step (fun h => Board.Flushing m a h.board)
    (fun h => h.board.sys.chip.fifo.level = 0) h q k _ System.Awaited _ _
    (fun h => Board.flushRank h.board.sys) (fun h => System.awaits h.board.sys)
    (fun j h q => System.Happens j h.board.sys q) hfl
    (fun n hn hfl => by
      have hses := (hI n).winding.inSession (hq n) (.inr (hk n hn))
      exact (hfl.step (hq n).bus hses (hq n).noDreq).imp_right fun hfl' =>
        ⟨hfl', hfl.rank_step (hq n).bus hses⟩)
    (fun j n => by
      simp only [states_sys]
      cases j with
      | grant => exact hf.granting n
      | answer => exact hf.answering n)
  exact ⟨n, Nat.le_of_lt hn, h0⟩

/-- The loop is left. -/
theorem Fair.leaves_loop {k : ℕ} (hk : (Runs.states step h q k).stop = .poll) :
    ∃ n, k < n ∧ (Runs.states step h q n).stop = .clearInterrupt := by
  by_contra hno
  -- a loop that is not left goes on for ever
  have hstay : ∀ n, k ≤ n → (Runs.states step h q n).stop = .poll := by
    refine @Runs.states_from _ _ step (fun h => h.stop = .poll) h q k hk fun n hn hp => ?_
    rcases step_stop (Runs.states step h q n) (q n) with e | ⟨-, e⟩
    · exact e.trans hp
    · rw [hp, DmaStop.next] at e
      split_ifs at e
      · exact absurd ⟨n + 1, Nat.lt_succ_of_le hn, e⟩ hno
      · exact e
  obtain ⟨n₀, hn₀, h0⟩ := Fair.empties hI hq hf hstay
  have hempty : ∀ n, n₀ ≤ n → (Runs.states step h q n).board.sys.chip.fifo.level = 0 := by
    refine @Runs.states_from _ _ step (fun h => h.board.sys.chip.fifo.level = 0) h q n₀ h0
      fun n hn h0 => ?_
    have hp := hstay n (Nat.le_trans hn₀ hn)
    have hw := (hI n).winding
    exact (hw.closing (by rw [hp]; rfl)).1.level_step (hw.inSession (hq n) (.inr hp)) h0
  -- and the next access that ends reads the flag as set
  obtain ⟨n, hn, he⟩ := hf.working n₀ (by rw [hstay n₀ hn₀]; exact DmaStop.noConfusion)
  have hp := hstay n (Nat.le_trans hn₀ hn)
  have hfe := (hI n).winding.flag hp (Bool.and_eq_true_iff.mp he).1
  have hset : (Runs.states step h q n).board.sys.chip.regs.istrO.ll.getLsbD 0 = true := by
    rw [Registers.istrO_getLsbD_zero, hfe, Fifo.empty_eq]
    exact decide_eq_true (hempty n hn)
  refine hno ⟨n + 1, by omega, ?_⟩
  rw [Runs.states_succ, stop_of_ends he, hp, DmaStop.next, hset]
  rfl

theorem Fair.returns (hs : h.stop = .maskInterrupts) :
    ∃ n, (Runs.states step h q n).stop = .returned := by
  obtain ⟨n₁, -, h₁⟩ := hf.passes (d := .maskInterrupts) (fun _ => rfl) DmaStop.noConfusion
    (k := 0) hs
  obtain ⟨n₂, -, h₂⟩ := hf.passes (fun _ => rfl) DmaStop.noConfusion h₁
  obtain ⟨n₃, -, h₃⟩ := Fair.leaves_loop hI hq hf h₂
  obtain ⟨n₄, -, h₄⟩ := hf.passes (fun _ => rfl) DmaStop.noConfusion h₃
  obtain ⟨n₅, -, h₅⟩ := hf.passes (fun _ => rfl) DmaStop.noConfusion h₄
  obtain ⟨n₆, -, h₆⟩ := hf.passes (fun _ => rfl) DmaStop.noConfusion h₅
  exact ⟨n₆, h₆⟩

end Infinite

section Transfer

variable {b : Board} (hx : System.Start b.sys) (hd : b.sys.chip.regs.ndmadir = false)
  (ha : b.acr.getLsbD 1 = b.sys.chip.regs.a1) (he : b.acr.toNat % 2 = 0) {qs : List Period}
  (hqs : Runs.Along Board.step (fun b q => System.Streaming b.sys q) b qs)
  (hz : Chip.Still (Runs.run Board.step b qs).sys.chip)
  (hend : (b.acr.toNat + (Runs.run Board.step b qs).sys.taken.length) % 4 = 0)
include hx hd ha he hqs hz hend

/-- After a block that ends on a longword boundary `dma_stop` returns, with the block in
memory and the engine at rest: its polling loop ends if the bus is granted again and again,
memory answers and the CPU goes on. -/
theorem dma_stop_returns {q : ℕ → Period}
    (hq : ∀ n, (Runs.states step ⟨Runs.run Board.step b qs, .maskInterrupts⟩ q n).Executes (q n))
    (hf : Fair ⟨Runs.run Board.step b qs, .maskInterrupts⟩ q) :
    ∃ n, let h := Runs.states step ⟨Runs.run Board.step b qs, .maskInterrupts⟩ q n
      h.stop = .returned ∧
        h.board.mem = Memory.store b.mem b.acr (Runs.run Board.step b qs).sys.taken ∧
        Chip.AtRest h.board.sys.chip := by
  have hw := winding_of_streaming hx hd ha he hqs hz hend
  have hI : ∀ n, Emptying b.mem b.acr (Runs.run Board.step b qs).sys.taken
      (Runs.states step ⟨Runs.run Board.step b qs, .maskInterrupts⟩ q n) := fun n =>
    Runs.states_from (m := 0) ⟨hw, fun h => DmaStop.noConfusion h, fun h => DmaStop.noConfusion h⟩
      (fun n _ he => he.step (hq n)) n (Nat.zero_le n)
  obtain ⟨n, hr⟩ := Fair.returns hI hq hf rfl
  have hst := (hI n).winding.stored (by rw [hr]; rfl)
  refine ⟨n, hr, hst.mem, hst.drained.awake, ?_, hst.drained.cpu, hst.drained.not_requesting⟩
  exact (hI n).winding.dmaena (.inr (.inr hr))

end Transfer

/-! ## §4 After `dma_stop` -/

/-- `dma_stop` has returned, and the bus is idle. -/
structure Finished (h : Host) : Prop where
  coupled : System.Coupled h.board.sys
  drained : Chip.Drained h.board.sys.chip
  stop : h.stop = .returned
  cycle : h.board.sys.cycle = none
  breq : h.board.sys.chip.cpu.out.breq = false

theorem Finished.idles {h : Host} (hF : Finished h) :
    h.Executes (.steady {}) ∧ Finished (h.step (.steady {})) := by
  have hC := hF.coupled
  have hcw : (h.board.sys.chip.endAccess (.steady {})).contrWr = false := by
    rw [Access.contrWr, Access.wr, System.hit_steady, Bool.false_and]
  have hbus := System.busRules_steady hF.cycle hF.drained.asO_
  have hq : h.Executes (.steady {}) :=
    ⟨hbus, fun b hb => (Option.not_mem_none b hb).elim, fun hw => Bool.noConfusion (hcw.symm.trans hw),
      rfl⟩
  have hl := hq.leaves hC hF.drained.ndmadir
  have hlive := hC.live hbus
  refine ⟨hq, hC.step hbus, hF.drained.step hl, ?_, rfl, ?_⟩
  · rcases step_stop h (.steady {}) with e | ⟨-, e⟩
    · exact e.trans hF.stop
    · rw [e, hF.stop]
      rfl
  · change (h.board.sys.chip.period (.steady {})).cpu.out.breq = false
    obtain ⟨-, -, hn⟩ := CpuSm.idle_spec (i := h.board.sys.chip.cpuIn (.steady {})) hF.drained.cpu
    rw [if_neg fun hr => hF.drained.not_requesting
      ((Chip.requests_iff hlive hF.drained.cpu).mp hr)] at hn
    rw [Chip.period_cpu_out hlive]
    apply CpuSm.not_breq
    all_goals rcases hn with e | e <;> rw [e] <;> rfl

/-- A run of `dma_stop` whose last access ends in its last period, and then nothing more. -/
theorem Fair.of_winding {m : Address → Byte} {a : Address} {block : List Byte} {h : Host}
    (hw : Winding m a block h) {ps : List Period} {p : Period}
    (hps : Runs.Along step Executes h (ps ++ [p])) (he : (Runs.run step h ps).ends p = true)
    (hr : (Runs.run step h (ps ++ [p])).stop = .returned)
    (hb : (Runs.run step h (ps ++ [p])).board.sys.chip.cpu.out.breq = false) :
    (∀ n, (Runs.states step h (Runs.thenAlways (ps ++ [p]) (.steady {})) n).Executes
      (Runs.thenAlways (ps ++ [p]) (.steady {}) n)) ∧
    Fair h (Runs.thenAlways (ps ++ [p]) (.steady {})) := by
  have hw' := Runs.invariant_run (fun _ _ hw hq => Winding.step hw hq) hw hps
  have hc : (Runs.run step h (ps ++ [p])).board.sys.cycle = none := by
    rw [Runs.run_append]
    exact Option.isNone_iff_eq_none.mp (Bool.and_eq_true_iff.mp he).2
  have hF : Finished (Runs.run step h (ps ++ [p])) :=
    ⟨hw'.coupled, (hw'.stored (by rw [hr]; rfl)).drained, hr, hc, hb⟩
  obtain ⟨h1, h2⟩ := Runs.thenAlways_spec (I := Finished) hps hF fun _ hF => hF.idles
  -- after the run nothing is awaited, so each event is due only within it
  refine ⟨h1, fun m => ?_, fun m => ?_, fun m hm => ?_⟩
  · refine ⟨m + (ps ++ [p]).length, Nat.le_add_right .., fun ha => ?_⟩
    rw [← states_sys, (h2 _ (Nat.le_add_left ..)).drained.asO_] at ha
    exact Bool.noConfusion ha
  · refine ⟨m + (ps ++ [p]).length, Nat.le_add_right .., fun hb => ?_⟩
    rw [← states_sys, (h2 _ (Nat.le_add_left ..)).breq] at hb
    exact Bool.noConfusion hb
  · have hlt : m < (ps ++ [p]).length := Nat.lt_of_not_le fun hle => hm (h2 m hle).stop
    rw [List.length_append, List.length_singleton] at hlt
    refine ⟨ps.length, Nat.le_of_lt_succ hlt, ?_⟩
    rw [Runs.states_thenAlways, Runs.thenAlways_length]
    exact he

theorem dma_stop_returns_fresh :
    let b : Board := ⟨System.fresh false false, 0x1000, fun _ => 0⟩
    let h := Runs.states step ⟨Runs.run Board.step b fourBytes, .maskInterrupts⟩
      (Runs.thenAlways (twoPolls ++ [restored]) (.steady {}))
    ∃ n, (h n).stop = .returned ∧
      (h n).board.mem = Memory.store b.mem b.acr (Runs.run Board.step b fourBytes).sys.taken ∧
      Chip.AtRest (h n).board.sys.chip := by
  intro b h
  have hx : System.Start b.sys := System.fresh_start false false
  have hqs : Runs.Along Board.step (fun b q => System.Streaming b.sys q) b fourBytes := by
    decide +kernel
  have hz : Chip.Still (Runs.run Board.step b fourBytes).sys.chip :=
    ⟨by decide +kernel, by decide +kernel, by decide +kernel⟩
  have hend : (b.acr.toNat + (Runs.run Board.step b fourBytes).sys.taken.length) % 4 = 0 := by
    decide +kernel
  have hf := Fair.of_winding (winding_of_streaming hx rfl (by decide) (by decide) hqs hz hend)
    (show Runs.Along step Executes _ (twoPolls ++ [restored]) by decide +kernel)
    (by decide +kernel) (by decide +kernel) (by decide +kernel)
  exact dma_stop_returns hx rfl (by decide) (by decide) hqs hz hend hf.1 hf.2

end Host

end Resdmac
