import Resdmac.Session

/-!
# `SP_DMA` and the Bus Request

`SP_DMA` clears `DMAENA`, which `CPU_SM` samples a clock later and reads only in `s0`
and `s20`. Whether the strobe stops the engine is decided by where it finds `CPU_SM`.

## Main definitions

- `Chip.Requesting` — `CPU_SM` waits for the bus, or is about to ask for it on its
  stale sample of `DMAENA`

## Main results

- `Chip.spDma_stops_iff` — after the strobe no memory cycle can start exactly when
  `CPU_SM` is not requesting
-/

namespace Resdmac

namespace Chip

/-! ## §1 The strobe and what may follow it -/

/-- The CPU strobes `SP_DMA` in the period, while it owns the bus. -/
structure SpDma (s : Chip) (q : Period) : Prop where
  live : Live s q
  strobe : (s.endAccess q).spDma = true
  byCpu : (s.atClk90Fall q).own = false

/-- A period without reset and without `ST_DMA`. -/
def Stopped (s : Chip) (q : Period) : Prop :=
  q.NoReset ∧ (s.endAccess q).stDma = false

/-- `PAS` is asserted or `AS_O_` is low in the period. -/
def DrivesCycle (s : Chip) (q : Period) : Prop :=
  (s.atSclkFall q).cpu.out.pas = true ∨ (s.atClk90Fall q).asO_ = false

instance (s : Chip) (q : Period) : Decidable (Stopped s q) :=
  inferInstanceAs (Decidable (_ ∧ _))

instance (s : Chip) (q : Period) : Decidable (DrivesCycle s q) :=
  inferInstanceAs (Decidable (_ ∨ _))

/-- `CPU_SM` waits for the bus, or asks for it at the next CLK90 edge. -/
def Requesting (s : Chip) : Prop :=
  s.cpu.state = .s1 ∨ s.cpu.state = .s21 ∨
    s.cpu.inp.dmaena = true ∧
      (s.cpu.state = .s0 ∧ s.regs.dmadir = true ∧
          (s.fifo.full = true ∨
            s.cpu.inp.flushfifo = true ∧ (s.fifo.empty = false ∨ s.lastword = true)) ∨
        s.cpu.state = .s20 ∧ s.regs.dmadir = false ∧ s.fifo.empty = true ∧
          s.cpu.inp.dreq_ = false)

/-! ## §2 The strobe stops an idle machine -/

/-- `CPU_SM` is idle for as long as `DMAENA` stays clear. -/
structure AtRest (s : Chip) : Prop where
  awake : s.Awake
  dmaena : s.regs.dmaena = false
  state : s.cpu.state = .s0 ∨ s.cpu.state = .s20
  request : ¬ Requesting s

section Rest

variable {s : Chip} {q : Period} (h : Live s q)
include h

theorem requests_iff (hs : s.cpu.state = .s0 ∨ s.cpu.state = .s20) :
    (s.cpuIn q).requests s.cpu.state = true ↔ Requesting s := by
  rw [cpuIn_eq h, Requesting]
  rcases hs with hs | hs <;> rw [hs] <;> simp [CpuSm.Inputs.requests, and_assoc]

theorem drivesCycle_iff : DrivesCycle s q ↔ (s.cpuOut q).pas = true := by
  have ha : (s.atClk90Fall q).asO_ = !(s.cpuOut q).pas := by
    rw [← atSclkFall_cpu_out h, atClk90Fall_eq h]
    rfl
  rw [DrivesCycle, atSclkFall_cpu_out h, ha, Bool.not_eq_false', or_self]

end Rest

theorem AtRest.step {s : Chip} {q : Period} (hR : AtRest s) (hq : Stopped s q) :
    ¬ DrivesCycle s q ∧ AtRest (s.period q) := by
  have h : Live s q := ⟨hR.awake, hq.1⟩
  obtain ⟨hp, -, hn⟩ := CpuSm.idle_spec (i := s.cpuIn q) hR.state
  rw [if_neg (fun hr => hR.request ((requests_iff h hR.state).mp hr))] at hn
  have hs : (s.period q).cpu.state = .s0 ∨ (s.period q).cpu.state = .s20 := by
    rw [period_cpu_state h]
    exact hn
  refine ⟨?_, period_awake h, ?_, hs, ?_⟩
  · rw [drivesCycle_iff h, Bool.not_eq_true]
    exact hp
  · rw [period_dmaena h, hq.2, hR.dmaena]
    simp
  · rintro (h1 | h1 | ⟨h1, -⟩)
    · rcases hs with hs | hs <;> rw [hs] at h1 <;> cases h1
    · rcases hs with hs | hs <;> rw [hs] at h1 <;> cases h1
    · rw [period_cpu_inp h, hR.dmaena] at h1
      exact Bool.noConfusion h1

/-! ## §3 A request outlives the strobe -/

/-- The CPU leaves the bus to the chip. -/
def granting : Period := .steady { bg_ := false }

theorem granting_stopped (s : Chip) : Stopped s granting := by
  refine ⟨⟨rfl, rfl, rfl, rfl, rfl, rfl⟩, Access.hit_of_not_valid ?_ _⟩
  rfl

section Request

variable {s : Chip} {q : Period} (h : Live s q)
include h

/-- A free bus is seen as such. -/
theorem ncycledone_eq_false (hb : (s.cpuOut q).bgack = false)
    (hp : q.clk135Rise.as_ = true ∧ q.clk135Rise.bgack_ = true ∧ q.clk135Rise.dsack0_ = true ∧
      q.clk135Rise.dsack1_ = true ∧ q.clk135Rise.berr_ = true ∧ q.clk135Rise.sterm_ = true ∧
      q.clk135Rise.flashTerm = false) :
    s.ncycledone q = false := by
  obtain ⟨p1, p2, p3, p4, p5, p6, p7⟩ := hp
  have ho : (s.atClk135Rise q).own = false := by
    rw [own, ← hb, atClk135Rise_eq h]
    rfl
  have ha : (s.atClk135Rise q).asI_ q.clk135Rise = true := by
    rw [asI_, ho, p1]
    rfl
  have hd : (s.atClk135Rise q).dsackInt q.clk135Rise = true := by
    rw [atClk135Rise_eq h] at ha ⊢
    exact dsackInt_clear ha p7
  rw [ncycledone, cpuClocked, dsk0In_, dsk1In_, ha, hd, bgackI_, ho, p2, p3, p4, p5, p6]
  rfl

theorem drivesCycle_of_granted (hs : s.cpu.state.granted = true) : DrivesCycle s q :=
  (drivesCycle_iff h).mpr (CpuSm.granted_spec hs)

/-- A request is granted. -/
theorem period_granted (hs : s.cpu.state.waiting = true) (hb : s.cpu.inp.bgrant_ = false)
    (hc : s.cpu.inp.ncycledone = false) : (s.period q).cpu.state.granted = true := by
  have hw := (CpuSm.waiting_spec (i := s.cpuIn q) hs).2
  have hg : (!(s.cpuIn q).nbgrant && (s.cpuIn q).cycledone) = true := by
    rw [cpuIn_eq h, hb, hc]
    rfl
  rw [hg, if_pos rfl] at hw
  rw [period_cpu_state h]
  exact hw.1

end Request

/-- A request meets the grant. -/
theorem period_granting {s : Chip} (h : Live s granting)
    (hs : Requesting s) (hn : ¬ (s.cpu.state.waiting = true ∧ s.cpu.inp.bgrant_ = false ∧
      s.cpu.inp.ncycledone = false)) :
    (s.period granting).cpu.state.waiting = true ∧
      (s.period granting).cpu.inp.bgrant_ = false ∧
      (s.period granting).cpu.inp.ncycledone = false := by
  have hw : (CpuSm.nextState (s.cpuIn granting) s.cpu.state).waiting = true ∧
      (s.cpuOut granting).bgack = false := by
    by_cases hw : s.cpu.state.waiting = true
    · have hi := (CpuSm.waiting_spec (i := s.cpuIn granting) hw).2
      have hg : (!(s.cpuIn granting).nbgrant && (s.cpuIn granting).cycledone) = false := by
        rw [cpuIn_eq h]
        simp only [hw, true_and, not_and] at hn
        cases hb : s.cpu.inp.bgrant_ <;> simp_all
      rw [hg] at hi
      exact ⟨by rw [hi.1]; exact hw, hi.2⟩
    · have hi : s.cpu.state = .s0 ∨ s.cpu.state = .s20 := by
        rcases hs with hs | hs | ⟨-, ⟨hs, -⟩ | ⟨hs, -⟩⟩
        · exact absurd (by rw [hs]; rfl) hw
        · exact absurd (by rw [hs]; rfl) hw
        · exact .inl hs
        · exact .inr hs
      obtain ⟨-, hb, hn⟩ := CpuSm.idle_spec (i := s.cpuIn granting) hi
      rw [if_pos ((requests_iff h hi).mpr hs)] at hn
      exact ⟨hn, hb⟩
  rw [period_cpu_state h, period_cpu_inp h]
  exact ⟨hw.1, rfl, ncycledone_eq_false h hw.2 ⟨rfl, rfl, rfl, rfl, rfl, rfl, rfl⟩⟩

/-- A request that is granted starts a memory cycle within two periods. -/
theorem drives_of_granting {s : Chip} (h : s.Awake) (hs : s.cpu.state.waiting = true)
    (hb : s.cpu.inp.bgrant_ = false) (hc : s.cpu.inp.ncycledone = false) :
    DrivesCycle (s.period granting) granting := by
  have hl : Live s granting := ⟨h, (granting_stopped s).1⟩
  exact drivesCycle_of_granted ⟨period_awake hl, (granting_stopped s).1⟩
    (period_granted hl hs hb hc)

/-- A request whose bus is granted ends in a memory cycle. -/
theorem Requesting.drives {s : Chip} (ha : s.Awake) (hr : Requesting s) :
    ¬ Runs.Along period (fun s q => ¬ DrivesCycle s q) s [granting, granting, granting] := by
  have hl : Live s granting := ⟨ha, (granting_stopped s).1⟩
  rintro ⟨-, h2, h3, -⟩
  -- the grant is sampled already, or one period later
  by_cases hw : s.cpu.state.waiting = true ∧ s.cpu.inp.bgrant_ = false ∧
      s.cpu.inp.ncycledone = false
  · exact h2 (drives_of_granting ha hw.1 hw.2.1 hw.2.2)
  · obtain ⟨w1, w2, w3⟩ := period_granting hl hr hw
    exact h3 (drives_of_granting (period_awake hl) w1 w2 w3)

/-- After `SP_DMA` was strobed by the CPU, no memory cycle can start until the next
`ST_DMA` if and only if `CPU_SM` is not requesting the bus. -/
theorem spDma_stops_iff {s : Chip} {q : Period} (hsp : SpDma s q) :
    (∀ qs, Runs.Along period Stopped (s.period q) qs →
      Runs.Along period (fun s q => ¬ DrivesCycle s q) (s.period q) qs) ↔
    ¬ Requesting (s.period q) := by
  have h := hsp.live
  have hb : (s.cpuOut q).bgack = false := by
    rw [← atClk90Fall_cpu_out h]
    exact hsp.byCpu
  have hd : (s.period q).regs.dmaena = false := by
    have hc : (s.endAccess q).contrWr = false := by
      rw [Access.contrWr, Access.wr, Access.hit_unique hsp.strobe (by decide), Bool.false_and]
    have ht : (s.endAccess q).stDma = false := Access.hit_unique hsp.strobe (by decide)
    rw [period_dmaena h, hc, ht, hsp.strobe]
    rfl
  constructor
  · intro hall hr
    -- the outstanding request would be granted
    exact hr.drives (period_awake h) (hall [granting, granting, granting]
      ⟨granting_stopped _, granting_stopped _, granting_stopped _, trivial⟩)
  · intro hr qs hqs
    have hs : CpuSm.nextState (s.cpuIn q) s.cpu.state = .s0 ∨
        CpuSm.nextState (s.cpuIn q) s.cpu.state = .s20 ∨
        (CpuSm.nextState (s.cpuIn q) s.cpu.state).waiting = true := (CpuSm.not_bgack_spec hb).1
    rw [← period_cpu_state h] at hs
    have hrest : AtRest (s.period q) := by
      refine ⟨period_awake h, hd, ?_, hr⟩
      rcases hs with hs | hs | hs
      · exact .inl hs
      · exact .inr hs
      · rcases CpuSm.State.eq_of_waiting hs with hs | hs
        · exact absurd (.inl hs) hr
        · exact absurd (.inr (.inl hs)) hr
    exact Runs.along_of_invariant (I := AtRest) (fun t q hR hq => hR.step hq) hrest hqs

/-- The engine is stopped with six bytes in the FIFO and the seventh in transit. -/
theorem spDma_stops_iff_fresh :
    let s := Runs.run period (fresh false false) (sixBytes ++ oneByte.take 2)
    (∀ qs, Runs.Along period Stopped (s.period (strobe 0x0F)) qs →
      Runs.Along period (fun s q => ¬ DrivesCycle s q) (s.period (strobe 0x0F)) qs) ↔
    ¬ Requesting (s.period (strobe 0x0F)) :=
  spDma_stops_iff ⟨by decide +kernel, by decide +kernel, by decide +kernel⟩

/-- `SP_DMA` in the clock in which `s20` asks for the bus: the grant is answered with a
memory cycle all the same. -/
theorem spDma_does_not_stop :
    ¬ ∀ s, DmaStart s → ∀ qs, Runs.Along period InSession s qs →
      ∀ q, SpDma (Runs.run period s qs) q →
        ∀ qs', Runs.Along period Stopped ((Runs.run period s qs).period q) qs' →
          Runs.Along period (fun s q => ¬ DrivesCycle s q)
            ((Runs.run period s qs).period q) qs' := by
  intro h
  have hd := h (fresh true false) (fresh_dmaStart true false)
    (List.replicate 2 (.steady { dreq_ := false })) (by decide +kernel) (strobe 0x0F)
    ⟨by decide +kernel, by decide +kernel, by decide +kernel⟩
    (answered 0x0F ++ List.replicate 3 granting) (by decide +kernel)
  revert hd
  decide +kernel

end Chip

end Resdmac
