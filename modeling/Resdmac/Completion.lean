import Resdmac.Polling
import Resdmac.Requests

/-!
# Every Request Is Served

A request waits for others: the CPU has to go on, the WD33C93 to have its bytes taken, the
arbiter to grant the bus and memory to answer. If they do so again and again, the driver comes
to the end of each request.

## Main definitions

- `Service.Fair` — what a request waits for happens

## Main results

- `Service.request_completes` — a request that comes in adds its block to memory
-/

namespace Resdmac

open Chip (Period)

namespace Service

/-! ## §1 The phases of a request -/

/-- Again and again memory answers, the bus is granted and the accesses of the CPU end, and
each transfer has its end. -/
structure Fair (x : Service) (is : ℕ → Input) : Prop where
  answering : ∀ m, ∃ n, m ≤ n ∧
    System.Happens .answer (Runs.states step x is n).board.sys (is n).period
  granting : ∀ m, ∃ n, m ≤ n ∧
    System.Happens .grant (Runs.states step x is n).board.sys (is n).period
  working : ∀ m, (Runs.states step x is m).call ≠ .idle →
    (Runs.states step x is m).call ≠ .transfer →
    ∃ n, m ≤ n ∧ (Runs.states step x is n).board.sys.endsAccess (is n).period = true
  finishing : ∀ m, (Runs.states step x is m).call = .transfer →
    ∃ n, m ≤ n ∧ (is n).done = true

/-- What is asked for, and what has been served. -/
def job (x : Service) : Address × List (Address × List Byte) := (x.addr, x.served)

theorem step_setup {x : Service} {i : Input} {s : DmaSetup} (h : x.call = .setup s) :
    ((x.step i).call = .transfer ∨
      (x.step i).call = .setup (if x.board.sys.endsAccess i.period then s.next else s)) ∧
    (x.step i).job = x.job := by
  obtain ⟨b, call, a, rs⟩ := x
  subst h
  simp only [step]
  split_ifs <;> simp [job]

theorem step_transfer {x : Service} {i : Input} (h : x.call = .transfer) :
    (x.step i).call = (if i.done then .stop .maskInterrupts else .transfer) ∧
      (x.step i).job = x.job := by
  obtain ⟨b, call, a, rs⟩ := x
  subst h
  exact ⟨rfl, rfl⟩

theorem step_request {x : Service} {i : Input} {a : Address} (h : x.call = .idle)
    (hr : i.request = some a) :
    (x.step i).call = .setup .setControl ∧ (x.step i).job = (a, x.served) := by
  obtain ⟨b, call, a', rs⟩ := x
  subst h
  simp [step, hr, job]

/-- The access that strobes `ST_DMA` starts the session when it begins. -/
theorem accessing_step {m : Address → Byte} {x : Service} {i : Input} (hI : Invariant m x)
    (hi : Legal x i) (h : (x.step i).call = .setup .startDma) :
    (x.step i).board.sys.accessing = false := by
  obtain ⟨b, call, a, rs⟩ := x
  cases call with
  | idle =>
      cases hr : i.request with
      | none =>
          simp only [step, hr] at h
          exact Call.noConfusion h
      | some a' =>
          simp only [step, hr] at h
          exact DmaSetup.noConfusion (Call.setup.inj h)
  | setup s =>
      obtain ⟨hs, -, hP⟩ := hI
      obtain ⟨hq, hacc, -, -⟩ := hi
      have hsys : (load b s i.period).sys = b.sys.step i.period := Board.load_sys
      simp only [step] at h ⊢
      cases hd : (load b s i.period).sys.chip.regs.dmaena with
      | true =>
          rw [hd, if_pos rfl] at h
          exact Call.noConfusion h
      | false =>
          rw [hd, if_neg Bool.false_ne_true] at h
          rw [if_neg Bool.false_ne_true, hsys]
          have h : (if b.sys.endsAccess i.period then s.next else s) = .startDma :=
            Call.setup.inj h
          cases he : b.sys.endsAccess i.period with
          | true => exact (System.of_endsAccess he).2
          | false =>
              rw [he, if_neg Bool.false_ne_true] at h
              -- in an access `ST_DMA` is strobed, and that is `DMAENA`
              refine Bool.eq_false_iff.mpr fun hs' => ?_
              have hC := hs.coupled
              rw [h] at hacc
              have hhit : (b.sys.chip.endAccess i.period).stDma = true := (hacc.hit hC hq.bus hs').1
              have hcw : (b.sys.chip.endAccess i.period).contrWr = false := by
                rw [Access.contrWr, Access.wr, Access.hit_unique hhit (by decide), Bool.false_and]
              have hd' : (b.sys.chip.period i.period).regs.dmaena = false := by
                rw [hsys] at hd
                exact hd
              rw [Chip.period_dmaena (hC.live hq.bus), hcw, hhit] at hd'
              exact Bool.noConfusion hd'
  | transfer =>
      rw [(step_transfer rfl).1] at h
      split_ifs at h
  | stop d =>
      simp only [step] at h
      split_ifs at h

/-! ## §2 Infinite runs -/

section Infinite

variable {x : Service} {is : ℕ → Input} {m : Address → Byte}
  (hi : ∀ n, Legal (Runs.states step x is n) (is n))
  (hI : ∀ n, Invariant m (Runs.states step x is n)) (hf : Fair x is)
include hf

/-- The WD33C93 has its bytes taken. -/
theorem Fair.stops {k : ℕ} (hk : (Runs.states step x is k).call = .transfer) :
    ∃ n, k < n ∧ (Runs.states step x is n).call = .stop .maskInterrupts ∧
      (Runs.states step x is n).job = (Runs.states step x is k).job := by
  obtain ⟨n, hn, hsame, hdone⟩ := @Runs.exists_first _ _ step x is _
    (fun x => (x.call, x.job)) (fun n => (is n).done = true) k
    (fun n _ hs hd => by
      obtain ⟨hc, hj⟩ := Prod.mk.inj hs
      obtain ⟨h1, h2⟩ := step_transfer (i := is n) (hc.trans hk)
      rw [if_neg hd] at h1
      exact Prod.ext (h1.trans (hc.trans hk).symm) h2)
    (hf.finishing k hk)
  obtain ⟨hc, hj⟩ := Prod.mk.inj hsame
  obtain ⟨h1, h2⟩ := step_transfer (i := is n) (hc.trans hk)
  rw [hdone, if_pos rfl] at h1
  exact ⟨n + 1, Nat.lt_succ_of_le hn, h1, h2.trans hj⟩

include hi hI

/-- `dma_setup` starts the engine. -/
theorem Fair.transfers {k : ℕ} {s : DmaSetup} (h0 : k ≠ 0)
    (hk : (Runs.states step x is k).call = .setup s) :
    ∃ n, k < n ∧ (Runs.states step x is n).call = .transfer ∧
      (Runs.states step x is n).job = (Runs.states step x is k).job := by
  by_contra hno
  -- otherwise every step is one of `dma_setup`
  have hnext : ∀ n, k ≤ n → ∀ s, (Runs.states step x is n).call = .setup s →
      (Runs.states step x is n).job = (Runs.states step x is k).job →
      (Runs.states step x is (n + 1)).call = .setup
        (if (Runs.states step x is n).board.sys.endsAccess (is n).period then s.next else s) ∧
      (Runs.states step x is (n + 1)).job = (Runs.states step x is k).job := by
    intro n hn s hs hj
    obtain ⟨h1 | h1, h2⟩ := step_setup (i := is n) hs
    · exact absurd ⟨n + 1, Nat.lt_succ_of_le hn, h1, h2.trans hj⟩ hno
    · exact ⟨h1, h2.trans hj⟩
  -- the access of a statement ends
  have hends : ∀ n, k ≤ n → ∀ s, (Runs.states step x is n).call = .setup s →
      (Runs.states step x is n).job = (Runs.states step x is k).job →
      ∃ n', n ≤ n' ∧ (Runs.states step x is n').call = .setup s ∧
        (Runs.states step x is n').job = (Runs.states step x is k).job ∧
        (Runs.states step x is n').board.sys.endsAccess (is n').period = true := by
    intro n hn s hs hj
    obtain ⟨n', hn', hsame, he⟩ := @Runs.exists_first _ _ step x is _
      (fun x => (x.call, x.job))
      (fun n => (Runs.states step x is n).board.sys.endsAccess (is n).period = true) n
      (fun n' hn' hsame he => by
        obtain ⟨hc, hj'⟩ := Prod.mk.inj hsame
        obtain ⟨h1, h2⟩ := hnext n' (hn.trans hn') s (hc.trans hs) (hj'.trans hj)
        rw [if_neg he] at h1
        exact Prod.ext (h1.trans (hc.trans hs).symm) (h2.trans (hj'.trans hj).symm))
      (hf.working n (by rw [hs]; exact Call.noConfusion) (by rw [hs]; exact Call.noConfusion))
    obtain ⟨hc, hj'⟩ := Prod.mk.inj hsame
    exact ⟨n', hn', hc.trans hs, hj'.trans hj, he⟩
  have hpass : ∀ n, k ≤ n → ∀ s, (Runs.states step x is n).call = .setup s →
      (Runs.states step x is n).job = (Runs.states step x is k).job →
      ∃ n', k ≤ n' ∧ (Runs.states step x is n').call = .setup s.next ∧
        (Runs.states step x is n').job = (Runs.states step x is k).job := by
    intro n hn s hs hj
    obtain ⟨n', hn', hs', hj', he⟩ := hends n hn s hs hj
    obtain ⟨h1, h2⟩ := hnext n' (hn.trans hn') s hs' hj'
    rw [if_pos he] at h1
    exact ⟨n' + 1, by omega, h1, h2⟩
  -- so the last one is reached, and its access has started the engine before it ends
  obtain ⟨n₁, h₁, hs₁, hj₁⟩ := hpass k (Nat.le_refl k) s hk rfl
  obtain ⟨n₂, h₂, hs₂, hj₂⟩ := hpass n₁ h₁ _ hs₁ hj₁
  obtain ⟨n₃, h₃, hs₃, hj₃⟩ := hpass n₂ h₂ _ hs₂ hj₂
  obtain ⟨n₄, h₄, hs₄, hj₄⟩ := hpass n₃ h₃ _ hs₃ hj₃
  obtain ⟨n₅, h₅, hs₅, hj₅⟩ := hpass n₄ h₄ _ hs₄ hj₄
  have hlast : s.next.next.next.next.next = .startDma := by
    cases s with
    | setControl => rfl
    | setAddress i => fin_cases i <;> rfl
    | startDma => rfl
  rw [hlast] at hs₅
  obtain ⟨n, hn, hs, -, he⟩ := hends n₅ h₅ _ hs₅ hj₅
  obtain ⟨n', rfl⟩ : ∃ n', n = n' + 1 := ⟨n - 1, by omega⟩
  have hacc := accessing_step (hI n') (hi n') hs
  exact Bool.noConfusion (hacc.symm.trans (System.of_endsAccess he).1)

/-- `dma_stop` returns. -/
theorem Fair.completes {k : ℕ} (hk : (Runs.states step x is k).call = .stop .maskInterrupts) :
    ∃ n, k < n ∧ (Runs.states step x is n).call = .idle ∧
      ∃ block, (Runs.states step x is n).served =
        (Runs.states step x is k).served ++ [((Runs.states step x is k).addr, block)] := by
  by_contra hno
  generalize hy : Runs.states step x is k = y at *
  obtain ⟨b, call, a, rs⟩ := y
  subst hk
  let q : ℕ → Period := fun n => (is (k + n)).period
  let H : ℕ → Host := Runs.states Host.step ⟨b, .maskInterrupts⟩ q
  -- a driver that does not return is the one of `Host` from here on
  have hcor : ∀ n, Runs.states step x is (k + n) = ⟨(H n).board, .stop (H n).stop, a, rs⟩ := by
    intro n
    induction n with
    | zero => exact hy
    | succ n ih =>
        have hstep : Runs.states step x is (k + (n + 1)) = step (Runs.states step x is (k + n))
          (is (k + n)) := rfl
        have hH : H (n + 1) = Host.step (H n) (is (k + n)).period := rfl
        rw [ih] at hstep
        simp only [step] at hstep
        split_ifs at hstep with hr
        · refine absurd ⟨k + (n + 1), by omega, ?_⟩ hno
          rw [hstep]
          exact ⟨rfl, _, rfl⟩
        · rw [hstep, hH]
  have hex : ∀ n, (H n).Executes (q n) := fun n => by
    have h := hi (k + n)
    rw [hcor n] at h
    exact h.2
  have hw : Host.Winding (Memory.storeAll m rs) a b.sys.taken ⟨b, .maskInterrupts⟩ := by
    have h := hI k
    rw [hy] at h
    exact h.2.2.2.1
  have hE : ∀ n, Host.Emptying (Memory.storeAll m rs) a b.sys.taken (H n) := fun n =>
    Runs.states_from (m := 0)
      ⟨hw, fun h => DmaStop.noConfusion h, fun h => DmaStop.noConfusion h⟩
      (fun n _ he => he.step (hex n)) n (Nat.zero_le n)
  have hfair : Host.Fair ⟨b, .maskInterrupts⟩ q := by
    refine ⟨fun j => ?_, fun j => ?_, fun j hj => ?_⟩
    · obtain ⟨n, hn, h⟩ := Runs.again_from hf.answering k j
      rw [hcor n] at h
      refine ⟨n, hn, ?_⟩
      rw [← Host.states_sys]
      exact h
    · obtain ⟨n, hn, h⟩ := Runs.again_from hf.granting k j
      rw [hcor n] at h
      refine ⟨n, hn, ?_⟩
      rw [← Host.states_sys]
      exact h
    · obtain ⟨n, hn, h⟩ := hf.working (k + j) (by rw [hcor j]; exact Call.noConfusion)
        (by rw [hcor j]; exact Call.noConfusion)
      obtain ⟨n', rfl⟩ := Nat.exists_eq_add_of_le (show k ≤ n by omega)
      rw [hcor n'] at h
      exact ⟨n', by omega, h⟩
  -- which returns after all
  obtain ⟨n, hr⟩ := Host.Fair.returns hE hex hfair rfl
  have h := hI (k + n)
  rw [hcor n] at h
  exact h.2.2.1 hr

end Infinite

/-- **Every request is served**: a request that comes in is complete in the end, with the
driver idle and one more block in memory, which lies at the address of the request; nothing
else in memory has changed meanwhile. -/
theorem request_completes {sys : System} (hx : System.EngineReset sys) (acr : Address)
    (m : Address → Byte) {is : ℕ → Input}
    (hi : ∀ n, Legal (Runs.states step (initial sys acr m) is n) (is n))
    (hf : Fair (initial sys acr m) is) {k : ℕ} {a : Address}
    (hk : (Runs.states step (initial sys acr m) is k).call = .idle)
    (hr : (is k).request = some a) :
    ∃ n, k < n ∧ (Runs.states step (initial sys acr m) is n).call = .idle ∧
      ∃ block, (Runs.states step (initial sys acr m) is n).served =
          (Runs.states step (initial sys acr m) is k).served ++ [(a, block)] ∧
        (Runs.states step (initial sys acr m) is n).board.mem =
          Memory.store (Runs.states step (initial sys acr m) is k).board.mem a block := by
  have hI : ∀ n, Invariant m (Runs.states step (initial sys acr m) is n) := fun n =>
    Runs.states_from (m := 0) (invariant_of_reset hx acr m) (fun n _ hI => hI.step (hi n)) n
      (Nat.zero_le n)
  obtain ⟨hset, hj⟩ := step_request (i := is k) hk hr
  obtain ⟨n₁, h₁, htr, hj₁⟩ := Fair.transfers hi hI hf (k := k + 1) (Nat.succ_ne_zero k) hset
  obtain ⟨n₂, h₂, hst, hj₂⟩ := hf.stops htr
  obtain ⟨n, hn, hidle, block, hserved⟩ := Fair.completes hi hI hf hst
  have hjob : (Runs.states step (initial sys acr m) is n₂).job =
      (a, (Runs.states step (initial sys acr m) is k).served) := hj₂.trans (hj₁.trans hj)
  obtain ⟨haddr, hold⟩ := Prod.mk.inj hjob
  rw [haddr, hold] at hserved
  refine ⟨n, by omega, hidle, block, hserved, ?_⟩
  rw [((hI n).mem.2 hidle).1, ((hI k).mem.2 hk).1, hserved, Memory.storeAll_append]

/-! ## §3 An idle driver -/

/-- The driver waits for a request, and the buses are idle. -/
structure Waiting (m : Address → Byte) (x : Service) : Prop where
  invariant : Invariant m x
  call : x.call = .idle
  cycle : x.board.sys.cycle = none
  breq : x.board.sys.chip.cpu.out.breq = false

/-- Nothing is requested. -/
def nothing : Input := { period := .steady {}, done := true }

theorem Waiting.resting {m : Address → Byte} {x : Service} (hw : Waiting m x) :
    Board.Resting (Memory.storeAll m x.served) x.board := by
  obtain ⟨hI, hc, -, -⟩ := hw
  obtain ⟨b, call, a, rs⟩ := x
  subst hc
  exact hI.2.2

theorem Waiting.idles {m : Address → Byte} {x : Service} (hw : Waiting m x) :
    Legal x nothing ∧ Waiting m (x.step nothing) := by
  have hR := hw.resting
  obtain ⟨hI, hc, hcycle, hbreq⟩ := hw
  obtain ⟨b, call, a, rs⟩ := x
  subst hc
  have hC := hR.sound.coupled
  have hbus : System.BusRules b.sys (.steady {}) := System.busRules_steady hcycle hR.asO_
  have hcw : (b.sys.chip.endAccess (.steady {})).contrWr = false := by
    rw [Access.contrWr, Access.wr, System.hit_steady, Bool.false_and]
  have hflush : (b.sys.chip.endAccess (.steady {})).flush = false := System.hit_steady ..
  have hrules : System.CpuRules b.sys (.steady {}) := by
    refine ⟨hbus, ?_, fun h => Bool.noConfusion (hflush.symm.trans h),
      fun h => Bool.noConfusion (hcw.symm.trans h)⟩
    rw [show b.sys.cycle = none from hcycle]
    exact fun c hc => (Option.not_mem_none c hc).elim
  have hlegal : Legal ⟨b, .idle, a, rs⟩ nothing :=
    ⟨hrules, System.hit_steady .., fun a ha => (Option.not_mem_none a ha).elim⟩
  refine ⟨hlegal, hI.step hlegal, rfl, rfl, ?_⟩
  change (b.sys.chip.period (.steady {})).cpu.out.breq = false
  have hn : (CpuSm.nextState (b.sys.chip.cpuIn (.steady {})) b.sys.chip.cpu.state) = .s0 ∨
      (CpuSm.nextState (b.sys.chip.cpuIn (.steady {})) b.sys.chip.cpu.state) = .s20 := by
    rw [← Chip.period_cpu_state (hC.live hbus)]
    exact (hR.halted.step hC hrules hR.dmaena).state
  rw [Chip.period_cpu_out (hC.live hbus)]
  apply CpuSm.not_breq
  all_goals rcases hn with e | e <;> rw [e] <;> rfl

/-- A run whose last access ends in its last period, with the driver idle, and then nothing
more. -/
theorem Fair.of_run {sys : System} (hx : System.EngineReset sys) (acr : Address) (m : Address → Byte)
    {is : List Input} {i : Input}
    (his : Runs.Along step Legal (initial sys acr m) (is ++ [i]))
    (he : (Runs.run step (initial sys acr m) is).board.sys.endsAccess i.period = true)
    (hcycle : (Runs.run step (initial sys acr m) (is ++ [i])).board.sys.cycle = none)
    (hc : (Runs.run step (initial sys acr m) (is ++ [i])).call = .idle)
    (hb : (Runs.run step (initial sys acr m) (is ++ [i])).board.sys.chip.cpu.out.breq = false) :
    (∀ n, Legal (Runs.states step (initial sys acr m) (Runs.thenAlways (is ++ [i]) nothing) n)
      (Runs.thenAlways (is ++ [i]) nothing n)) ∧
    Fair (initial sys acr m) (Runs.thenAlways (is ++ [i]) nothing) := by
  have hI := Runs.invariant_run (fun _ _ hI hi => Invariant.step hI hi)
    (invariant_of_reset hx acr m) his
  obtain ⟨h1, h2⟩ := Runs.thenAlways_spec (I := Waiting m) his ⟨hI, hc, hcycle, hb⟩
    fun _ hw => hw.idles
  -- after the run the engine awaits nothing, and the driver is idle
  refine ⟨h1, fun j => ?_, fun j => ?_, fun j hj _ => ?_, fun j _ => ?_⟩
  · refine ⟨j + (is ++ [i]).length, Nat.le_add_right .., fun ha => ?_⟩
    rw [(h2 _ (Nat.le_add_left ..)).resting.asO_] at ha
    exact Bool.noConfusion ha
  · refine ⟨j + (is ++ [i]).length, Nat.le_add_right .., fun hb => ?_⟩
    rw [(h2 _ (Nat.le_add_left ..)).breq] at hb
    exact Bool.noConfusion hb
  · have hlt : j < (is ++ [i]).length := Nat.lt_of_not_le fun hle => hj (h2 j hle).call
    rw [List.length_append, List.length_singleton] at hlt
    refine ⟨is.length, Nat.le_of_lt_succ hlt, ?_⟩
    rw [Runs.states_thenAlways, Runs.thenAlways_length]
    exact he
  · refine ⟨j + (is ++ [i]).length, Nat.le_add_right .., ?_⟩
    rw [Runs.thenAlways_of_le (Nat.le_add_left ..)]
    rfl

/-- The request of four bytes up to its last period. -/
def beforeRestored : List Input := (fourByteRequest 0x1000).dropLast

theorem request_completes_reset :
    let is := Runs.thenAlways (beforeRestored ++ [{ period := Host.restored }]) nothing
    let x := Runs.states step (initial System.reset 0 fun _ => 0) is
    ∃ n, 0 < n ∧ (x n).call = .idle ∧
      ∃ block, (x n).served = (x 0).served ++ [(0x1000, block)] ∧
        (x n).board.mem = Memory.store (x 0).board.mem 0x1000 block := by
  intro is x
  have hf := Fair.of_run System.reset_reset.toEngineReset 0 (fun _ => 0)
    (show Runs.Along step Legal _ (beforeRestored ++ [{ period := Host.restored }]) by
      decide +kernel)
    (by decide +kernel) (by decide +kernel) (by decide +kernel) (by decide +kernel)
  exact request_completes System.reset_reset.toEngineReset 0 (fun _ => 0) hf.1 hf.2 (k := 0) rfl
    (by decide +kernel)

end Service

end Resdmac
