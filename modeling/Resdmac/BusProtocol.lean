import Resdmac.Transfers

/-!
# The Bus Mastership Protocol

How the chip becomes and stops being the master of the bus, for every sequence of
inputs after reset, timed well or not.

## Main definitions

- `Chip.AfterReset` — what is left of any state after two periods in reset
- `Chip.BusProtocol` — the rules of mastership in one period

## Main results

- `Chip.bus_protocol` — kept in every run after reset
-/

namespace Resdmac

namespace Chip

/-! ## §1 Reset -/

/-- `_RST` is low at all edges of the period. -/
def Period.InReset (q : Period) : Prop :=
  q.sclkRise.rst_ = false ∧ q.clk90Rise.rst_ = false ∧ q.clk135Rise.rst_ = false ∧
    q.sclkFall.rst_ = false ∧ q.clk90Fall.rst_ = false ∧ q.clk135Fall.rst_ = false

instance (q : Period) : Decidable q.InReset :=
  inferInstanceAs (Decidable (_ ∧ _ ∧ _ ∧ _ ∧ _ ∧ _))

/-- A state after reset: the clocked resets take a period, and the top level another. -/
def AfterReset (s : Chip) : Prop :=
  ∃ (s₀ : Chip) (q₀ q₁ : Period), q₀.InReset ∧ q₁.InReset ∧ s = (s₀.period q₀).period q₁

/-- The clocked resets of both state machines are active. -/
structure Resetting (s : Chip) : Prop where
  ccreset_ : s.cpu.ccreset_ = false
  creset_ : s.scsi.creset_ = false

/-- Nothing is driven, and `CPU_SM` is idle. -/
structure Silent (s : Chip) : Prop where
  bgrant_ : s.cpu.inp.bgrant_ = true
  cpu_out : s.cpu.out = {}
  cpu_state : s.cpu.state = .s0
  scsi_out : s.scsi.out = {}
  asO_ : s.asO_ = true
  dsO_ : s.dsO_ = true

/-- The registers that the SCLK rising edge of the period reads. -/
def atSclkRise (s : Chip) (q : Period) : Chip := s.settle q.sclkRise

/-- The registers that the edges before the SCLK falling edge and this edge read. -/
def firstEdges (s : Chip) (q : Period) : List Chip :=
  [s.atSclkRise q, s.atClk90Rise q, s.atClk135Rise q, s.atSclkFall q]

/-- The registers that the edges after the SCLK falling edge read, and those they leave. -/
def lastEdges (s : Chip) (q : Period) : List Chip :=
  [s.atClk90Fall q, s.atClk135Fall q, s.period q]

namespace Resetting

variable {s : Chip} {q : Period} (h : Resetting s)
include h

theorem settle (p : Pins) :
    (s.settle p).cpu.out = {} ∧ (s.settle p).cpu.state = .s0 ∧ (s.settle p).cpu.inp = {} ∧
      (s.settle p).scsi.out = {} := by
  simp [Chip.settle, Chip.reset, CpuSm.reset, CpuSm.settle, ScsiSm.reset, ScsiSm.settle, h.ccreset_,
    h.creset_]

/-- Up to the SCLK falling edge the resets stay active. -/
theorem edges : Resetting (s.atClk90Rise q) ∧ Resetting (s.atClk135Rise q) ∧
    Resetting (s.atSclkFall q) := by
  have hA : Resetting (s.atClk90Rise q) := ⟨h.ccreset_, h.creset_⟩
  have hB : Resetting (s.atClk135Rise q) := by
    refine ⟨?_, ?_⟩
    · change ((s.atClk90Rise q).cpu.clk90Rise _).ccreset_ = false
      rw [CpuSm.clk90Rise, hA.ccreset_]
      rfl
    · change ((s.atClk90Rise q).scsi.clk90Rise _).creset_ = false
      rw [ScsiSm.clk90Rise, hA.creset_]
      rfl
  exact ⟨hA, hB, hB.ccreset_, hB.creset_⟩

omit h in
/-- What the asynchronous resets leave before an edge. -/
theorem of_settle {t : Chip} {p : Pins} (ht : Resetting (t.settle p)) :
    (t.settle p).cpu.out = {} ∧ (t.settle p).cpu.state = .s0 ∧ (t.settle p).cpu.inp = {} ∧
      (t.settle p).scsi.out = {} :=
  (show Resetting t from ⟨ht.ccreset_, ht.creset_⟩).settle p

theorem atSclkFall_cpu : (s.atSclkFall q).cpu.out = {} ∧ (s.atSclkFall q).cpu.state = .s0 ∧
    (s.atSclkFall q).cpu.inp = {} ∧ (s.atSclkFall q).scsi.out = {} :=
  of_settle h.edges.2.2

omit h in
theorem settle_of_silent {t : Chip} (p : Pins) (ho : t.cpu.out = {}) (hst : t.cpu.state = .s0)
    (hi : t.cpu.inp = {}) (hs : t.scsi.out = {}) :
    (t.settle p).cpu.out = {} ∧ (t.settle p).cpu.state = .s0 ∧ (t.settle p).cpu.inp = {} ∧
      (t.settle p).scsi.out = {} := by
  simp [Chip.settle, Chip.reset, CpuSm.reset, CpuSm.settle, ScsiSm.reset, ScsiSm.settle, ho, hst, hi,
    hs]

/-- After the SCLK falling edge nothing changes, whether the resets were released at it
or not. -/
theorem atClk135Fall_cpu : ∀ c ∈ s.lastEdges q, c.cpu.out = {} ∧ c.cpu.state = .s0 ∧
    c.cpu.inp = {} ∧ c.scsi.out = {} := by
  obtain ⟨ho, hst, hi, hs⟩ := h.atSclkFall_cpu (q := q)
  obtain ⟨d1, d2, d3, d4⟩ :=
    settle_of_silent (t := (s.atSclkFall q).onSclkFall q.sclkFall) q.clk90Fall ho hst hi hs
  obtain ⟨e1, e2, e3, e4⟩ :=
    settle_of_silent (t := (s.atClk90Fall q).onClk90Fall q.clk90Fall) q.clk135Fall d1 d2 d3 d4
  intro c hc
  simp only [lastEdges, List.mem_cons, List.not_mem_nil, or_false] at hc
  rcases hc with rfl | rfl | rfl
  · exact ⟨d1, d2, d3, d4⟩
  · exact ⟨e1, e2, e3, e4⟩
  · exact ⟨e1, e2, e3, e4⟩

/-- At all edges of the period nothing is driven. -/
theorem out_edges : ∀ c ∈ s.firstEdges q ++ s.lastEdges q, c.cpu.out = {} ∧ c.scsi.out = {} := by
  obtain ⟨hA, hB, hC⟩ := h.edges (q := q)
  intro c hc
  rcases List.mem_append.mp hc with hc | hc
  · simp only [firstEdges, List.mem_cons, List.not_mem_nil, or_false] at hc
    rcases hc with rfl | rfl | rfl | rfl
    · exact ⟨(h.settle q.sclkRise).1, (h.settle q.sclkRise).2.2.2⟩
    · exact ⟨(of_settle hA).1, (of_settle hA).2.2.2⟩
    · exact ⟨(of_settle hB).1, (of_settle hB).2.2.2⟩
    · exact ⟨(of_settle hC).1, (of_settle hC).2.2.2⟩
  · obtain ⟨h1, -, -, h2⟩ := h.atClk135Fall_cpu c hc
    exact ⟨h1, h2⟩

end Resetting

theorem period_asO_eq (s : Chip) (q : Period) :
    (s.period q).asO_ = !(s.atSclkFall q).cpu.out.pas ∧
      (s.period q).dsO_ = !(s.atSclkFall q).cpu.out.pds := ⟨rfl, rfl⟩

/-- What a period with active resets leaves, whether they were released in it or not. -/
theorem Resetting.silent {s : Chip} {q : Period} (h : Resetting s) : Silent (s.period q) := by
  obtain ⟨e1, e2, e3, e4⟩ := h.atClk135Fall_cpu (q := q) (s.period q) (by simp [lastEdges])
  obtain ⟨a1, a2⟩ := period_asO_eq s q
  rw [h.atSclkFall_cpu.1] at a1 a2
  exact
    { bgrant_ := by rw [e3]
      cpu_out := e1
      cpu_state := e2
      scsi_out := e4
      asO_ := a1
      dsO_ := a2 }

theorem resetting_of_inReset {s : Chip} {q : Period} (hq : q.InReset) : Resetting (s.period q) := by
  refine ⟨?_, ?_⟩
  · change q.sclkFall.rst_ = false
    exact hq.2.2.2.1
  · change q.sclkFall.rst_ = false
    exact hq.2.2.2.1

theorem AfterReset.resetting {s : Chip} (h : AfterReset s) : Resetting s := by
  obtain ⟨s₀, q₀, q₁, -, h1, rfl⟩ := h
  exact resetting_of_inReset h1

theorem AfterReset.silent {s : Chip} (h : AfterReset s) : Silent s := by
  obtain ⟨s₀, q₀, q₁, h0, -, rfl⟩ := h
  exact (resetting_of_inReset h0).silent

/-- The first period out of reset releases the state machines. -/
theorem awake_of_noReset {s : Chip} {q : Period} (hq : q.NoReset) : (s.period q).Awake := by
  refine ⟨?_, ?_⟩
  · change q.sclkFall.rst_ = true
    exact hq.2.2.2.1
  · change q.sclkFall.rst_ = true
    exact hq.2.2.2.1

/-! ## §2 The rules of mastership -/

/-- The chip with the pins at the last CLK135 rising edge, where `CPU_SM` samples them. -/
def periodSampled (x : Chip × Pins) (q : Period) : Chip × Pins := (x.1.period q, q.clk135Rise)

/-- The rules of mastership in one period. -/
structure BusProtocol (x : Chip × Pins) (q : Period) : Prop where
  /-- `BGACK` changes only at the CLK90 rising edge. -/
  bgack : (∀ c ∈ [x.1.atSclkRise q, x.1.atClk90Rise q], c.own = x.1.own) ∧
    ∀ c ∈ x.1.atClk135Rise q :: x.1.atSclkFall q :: x.1.lastEdges q, c.own = (x.1.period q).own
  /-- `AS_O_` and `DS_O_` change only at the SCLK falling edge. -/
  strobes : (∀ c ∈ x.1.firstEdges q, c.asO_ = x.1.asO_ ∧ c.dsO_ = x.1.dsO_) ∧
    ∀ c ∈ x.1.lastEdges q, c.asO_ = (x.1.period q).asO_ ∧ c.dsO_ = (x.1.period q).dsO_
  /-- The bus is taken only after a sample that found it granted and free. -/
  taken : x.1.own = false → (x.1.period q).own = true →
    x.2.bg_ = false ∧ x.2.bgack_ = true ∧ x.2.as_ = true ∧ x.2.dsack0_ = true ∧
      x.2.dsack1_ = true ∧ x.2.sterm_ = true
  /-- Strobes are driven by the master only. -/
  driven : ∀ c ∈ x.1.firstEdges q ++ x.1.lastEdges q,
    c.asO_ = false ∨ c.dsO_ = false → c.own = true
  /-- The bus is left only with both strobes high since the last SCLK falling edge. -/
  left : x.1.own = true → (x.1.period q).own = false → x.1.asO_ = true ∧ x.1.dsO_ = true
  nested : ∀ c ∈ x.1.firstEdges q ++ x.1.lastEdges q, c.dsO_ = false → c.asO_ = false
  /-- `AS_O_` is low only in a memory cycle, and where `CPU_SM` ends one it is high up to
  the SCLK falling edge of the next period. -/
  gap : (x.1.asO_ = false → x.1.cpu.state.strobing = true) ∧
    (x.1.cpu.state.strobing = true → (x.1.period q).cpu.state.strobing = false →
      ∀ q', ∀ c ∈ x.1.lastEdges q ++ (x.1.period q).firstEdges q', c.asO_ = true)
  /-- `BREQ` stays until `BGACK` is there. -/
  requested : x.1.cpu.out.breq = true → x.1.own = false → (x.1.period q).cpu.out.breq = true
  /-- `BREQ` is gone before `BGACK` is. -/
  withdrawn : x.1.own = true → (x.1.period q).own = false → x.1.cpu.out.breq = false

theorem asO_firstEdges (s : Chip) (q : Period) :
    ∀ c ∈ s.firstEdges q, c.asO_ = s.asO_ ∧ c.dsO_ = s.dsO_ := by
  intro c hc
  simp only [firstEdges, List.mem_cons, List.not_mem_nil, or_false] at hc
  rcases hc with rfl | rfl | rfl | rfl <;> exact ⟨rfl, rfl⟩

theorem asO_lastEdges (s : Chip) (q : Period) :
    ∀ c ∈ s.lastEdges q, c.asO_ = (s.period q).asO_ ∧ c.dsO_ = (s.period q).dsO_ := by
  intro c hc
  simp only [lastEdges, List.mem_cons, List.not_mem_nil, or_false] at hc
  rcases hc with rfl | rfl | rfl <;> exact ⟨rfl, rfl⟩

/-! ## §3 What the registers remember -/

/-- The outputs of `CPU_SM` belong to its state, and what it sampled to the pins. -/
structure Mastered (x : Chip × Pins) : Prop where
  awake : x.1.Awake
  own : x.1.own = x.1.cpu.state.onBus
  asO_ : x.1.asO_ = !x.1.cpu.out.pas
  dsO_ : x.1.dsO_ = !x.1.cpu.out.pds
  pas : x.1.cpu.out.pas = true → x.1.cpu.state.strobing = true
  pds : x.1.cpu.out.pds = true → x.1.cpu.out.pas = true
  breq : x.1.cpu.out.breq = true →
    x.1.cpu.state.waiting = true ∨ x.1.cpu.state.granted = true
  sampled : x.1.cpu.inp.bgrant_ = false → x.1.cpu.inp.ncycledone = false →
    x.2.bg_ = false ∧ x.2.bgack_ = true ∧ x.2.as_ = true ∧ x.2.dsack0_ = true ∧
      x.2.dsack1_ = true ∧ x.2.sterm_ = true

/-- A sample that finds the bus free found all its signals high. -/
theorem ncycledone_spec {s : Chip} {q : Period} (hn : s.ncycledone q = false) :
    q.clk135Rise.bgack_ = true ∧ q.clk135Rise.as_ = true ∧ q.clk135Rise.dsack0_ = true ∧
      q.clk135Rise.dsack1_ = true ∧ q.clk135Rise.sterm_ = true := by
  rw [ncycledone, cpuClocked, Bool.not_eq_false'] at hn
  simp only [Bool.and_eq_true] at hn
  obtain ⟨⟨⟨⟨hb, ha⟩, h0⟩, h1⟩, ht⟩ := hn
  have ho : (s.atClk135Rise q).own = false := by
    refine Bool.eq_false_iff.mpr fun ho => ?_
    rw [bgackI_, ho] at hb
    exact Bool.noConfusion hb
  rw [bgackI_, ho] at hb
  rw [asI_, ho] at ha
  simp only [dsk0In_, dsk1In_, Bool.and_eq_true] at h0 h1
  exact ⟨hb, ha, h0.2.1, h1.2.1, ht⟩

namespace Mastered

variable {x : Chip × Pins} {q : Period} (hM : Mastered x) (hq : q.NoReset)
include hM

/-- The strobes are low in a memory cycle only. -/
theorem strobing_of_strobes (hd : x.1.asO_ = false ∨ x.1.dsO_ = false) :
    x.1.cpu.state.strobing = true := by
  rw [hM.asO_, hM.dsO_, Bool.not_eq_false', Bool.not_eq_false'] at hd
  exact hM.pas (hd.elim id hM.pds)

theorem asO_of_dsO_ (hd : x.1.dsO_ = false) : x.1.asO_ = false := by
  rw [hM.dsO_, Bool.not_eq_false'] at hd
  rw [hM.asO_, hM.pds hd]
  rfl

include hq

theorem live : Live x.1 q := ⟨hM.awake, hq⟩

theorem period_own : (x.1.period q).own = (x.1.period q).cpu.state.onBus := by
  have h := hM.live hq
  rw [Chip.own, period_cpu_out h, cpuOut_bgack, period_cpu_state h]

theorem step : Mastered (periodSampled x q) where
  awake := period_awake (hM.live hq)
  own := hM.period_own hq
  asO_ := by
    have h := hM.live hq
    exact (period_asO_ h).trans (by rw [← period_cpu_out h]; rfl)
  dsO_ := by
    have h := hM.live hq
    exact (period_dsO_ h).trans (by rw [← period_cpu_out h]; rfl)
  pas := by
    have h := hM.live hq
    change (x.1.period q).cpu.out.pas = true → (x.1.period q).cpu.state.strobing = true
    rw [period_cpu_out h, period_cpu_state h]
    exact CpuSm.strobing_of_pas
  pds := by
    change (x.1.period q).cpu.out.pds = true → (x.1.period q).cpu.out.pas = true
    rw [period_cpu_out (hM.live hq)]
    exact CpuSm.pas_of_pds
  breq := by
    have h := hM.live hq
    change (x.1.period q).cpu.out.breq = true →
      (x.1.period q).cpu.state.waiting = true ∨ (x.1.period q).cpu.state.granted = true
    rw [period_cpu_out h, period_cpu_state h]
    exact CpuSm.breq_spec
  sampled := by
    change (x.1.period q).cpu.inp.bgrant_ = false → (x.1.period q).cpu.inp.ncycledone = false → _
    rw [period_cpu_inp (hM.live hq)]
    exact fun hb hn => ⟨hb, ncycledone_spec hn⟩

/-- The bus is taken where `CPU_SM` waits for it. -/
theorem taken (ho : x.1.own = false) (hn : (x.1.period q).own = true) :
    x.2.bg_ = false ∧ x.2.bgack_ = true ∧ x.2.as_ = true ∧ x.2.dsack0_ = true ∧
      x.2.dsack1_ = true ∧ x.2.sterm_ = true := by
  have h := hM.live hq
  rw [hM.period_own hq, period_cpu_state h] at hn
  rw [hM.own] at ho
  rcases CpuSm.nextState_onBus hn with hb | ⟨hg, hd⟩
  · rw [ho] at hb
    exact Bool.noConfusion hb
  · rw [cpuIn_eq h] at hg hd
    exact hM.sampled hg (by simpa using hd)

theorem left (ho : x.1.own = true) (hn : (x.1.period q).own = false) :
    x.1.cpu.state = .letgo := by
  have h := hM.live hq
  rw [hM.period_own hq, period_cpu_state h] at hn
  rw [hM.own] at ho
  exact CpuSm.nextState_not_onBus ho hn

/-- In a memory cycle the bus is kept to the end of the period. -/
theorem strobing_own (hs : x.1.cpu.state.strobing = true) :
    x.1.own = true ∧ (x.1.period q).own = true := by
  have ho : x.1.own = true := by rw [hM.own]; exact CpuSm.State.onBus_of_strobing hs
  refine ⟨ho, Bool.eq_true_of_not_eq_false fun hn => ?_⟩
  rw [hM.left hq ho hn] at hs
  exact Bool.noConfusion hs

theorem own_edges : (∀ c ∈ [x.1.atSclkRise q, x.1.atClk90Rise q], c.own = x.1.own) ∧
    ∀ c ∈ x.1.atClk135Rise q :: x.1.atSclkFall q :: x.1.lastEdges q,
      c.own = (x.1.period q).own := by
  have h := hM.live hq
  have ho : (x.1.period q).own = (x.1.cpuOut q).bgack := by rw [Chip.own, period_cpu_out h]
  rw [ho]
  refine ⟨?_, ?_⟩
  · simp only [List.mem_cons, List.not_mem_nil, or_false]
    rintro c (rfl | rfl)
    · rw [atSclkRise, settle_eq_clear h.1 hq.1]
      rfl
    · rw [atClk90Rise_eq h]
      rfl
  · simp only [lastEdges, List.mem_cons, List.not_mem_nil, or_false]
    rintro c (rfl | rfl | rfl | rfl | rfl)
    · rw [Chip.own, atClk135Rise_eq h]
      rfl
    · rw [Chip.own, atSclkFall_cpu_out h]
    · rw [Chip.own, atClk90Fall_cpu_out h]
    · exact atClk135Fall_own h
    · rw [Chip.own, period_cpu_out h]

/-- The rules in a period out of reset. -/
theorem busProtocol : BusProtocol x q where
  bgack := hM.own_edges hq
  strobes := ⟨asO_firstEdges x.1 q, asO_lastEdges x.1 q⟩
  taken := hM.taken hq
  driven := by
    obtain ⟨h1, h2⟩ := hM.own_edges hq
    -- a strobe of the first edges is the one the period begins with, and the bus is not left
    -- from a strobing state, so `BGACK` covers both sides of CLK90 rising
    intro c hc hd
    rcases List.mem_append.mp hc with hc | hc
    · obtain ⟨e1, e2⟩ := asO_firstEdges x.1 q c hc
      rw [e1, e2] at hd
      obtain ⟨o1, o2⟩ := hM.strobing_own hq (hM.strobing_of_strobes hd)
      simp only [firstEdges, List.mem_cons, List.not_mem_nil, or_false] at hc
      rcases hc with rfl | rfl | rfl | rfl
      · rw [h1 _ (by simp), o1]
      · rw [h1 _ (by simp), o1]
      · rw [h2 _ (by simp), o2]
      · rw [h2 _ (by simp), o2]
    · obtain ⟨e1, e2⟩ := asO_lastEdges x.1 q c hc
      rw [e1, e2] at hd
      rw [h2 c (List.mem_cons_of_mem _ (List.mem_cons_of_mem _ hc)), hM.period_own hq]
      exact CpuSm.State.onBus_of_strobing ((hM.step hq).strobing_of_strobes hd)
  left := by
    -- `BGACK` falls from a state that does not strobe, and both strobes tell such a state
    intro ho hn
    have hs := hM.left hq ho hn
    refine ⟨Bool.eq_true_of_not_eq_false fun hd => ?_, Bool.eq_true_of_not_eq_false fun hd => ?_⟩
    · have h1 := hM.strobing_of_strobes (.inl hd)
      rw [hs] at h1
      exact Bool.noConfusion h1
    · have h1 := hM.strobing_of_strobes (.inr hd)
      rw [hs] at h1
      exact Bool.noConfusion h1
  nested := by
    -- both strobes change at SCLK falling only, so they are compared as the period found them
    -- and as it leaves them
    intro c hc hd
    rcases List.mem_append.mp hc with hc | hc
    · obtain ⟨e1, e2⟩ := asO_firstEdges x.1 q c hc
      rw [e2] at hd
      exact e1.trans (hM.asO_of_dsO_ hd)
    · obtain ⟨e1, e2⟩ := asO_lastEdges x.1 q c hc
      rw [e2] at hd
      exact e1.trans ((hM.step hq).asO_of_dsO_ hd)
  gap := by
    -- `AS_O_` is high from SCLK falling of this period up to that of the next one
    refine ⟨fun ha => hM.strobing_of_strobes (.inl ha), fun _ hn q' c hc => ?_⟩
    have e : (x.1.period q).asO_ = true := by
      refine Bool.eq_true_of_not_eq_false fun ha => ?_
      have h1 : (x.1.period q).cpu.state.strobing = true :=
        (hM.step hq).strobing_of_strobes (.inl ha)
      rw [hn] at h1
      exact Bool.noConfusion h1
    rcases List.mem_append.mp hc with hc | hc
    · rw [(asO_lastEdges x.1 q c hc).1, e]
    · rw [(asO_firstEdges _ q' c hc).1, e]
  requested := by
    -- without `BGACK`, `BREQ` belongs to `s1` or `s21`, which put it out in every clock
    intro hr ho
    have hw : x.1.cpu.state.waiting = true := by
      rcases hM.breq hr with hw | hg
      · exact hw
      · rw [hM.own, CpuSm.State.onBus_of_granted hg] at ho
        exact Bool.noConfusion ho
    rw [period_cpu_out (hM.live hq)]
    exact CpuSm.breq_of_waiting hw
  withdrawn := by
    -- the state that lets the bus go neither waits for it nor was just granted it
    intro ho hn
    have hs := hM.left hq ho hn
    refine Bool.eq_false_iff.mpr fun hr => ?_
    rcases hM.breq hr with hw | hg
    · rw [hs] at hw
      exact Bool.noConfusion hw
    · rw [hs] at hg
      exact Bool.noConfusion hg

end Mastered

/-! ## §4 Every run after reset -/

namespace Silent

variable {s : Chip} (hz : Silent s)
include hz

theorem own : s.own = false := by rw [Chip.own, hz.cpu_out]

/-- In the first period after reset the bus is not touched. -/
theorem busProtocol {q : Period} (hr : Resetting s) (p : Pins) : BusProtocol (s, p) q := by
  have hN := hr.silent (q := q)
  have ho := hz.own
  have hn := hN.own
  have hO : ∀ c ∈ s.firstEdges q ++ s.lastEdges q, c.own = false := fun c hc => by
    rw [Chip.own, (hr.out_edges c hc).1]
  have hs : ∀ c ∈ s.firstEdges q ++ s.lastEdges q, c.asO_ = true ∧ c.dsO_ = true := by
    intro c hc
    rcases List.mem_append.mp hc with hc | hc
    · obtain ⟨e1, e2⟩ := asO_firstEdges s q c hc
      exact ⟨e1.trans hz.asO_, e2.trans hz.dsO_⟩
    · obtain ⟨e1, e2⟩ := asO_lastEdges s q c hc
      exact ⟨e1.trans hN.asO_, e2.trans hN.dsO_⟩
  exact
    { bgack := by
        refine ⟨fun c hc => (hO c ?_).trans ho.symm, fun c hc => (hO c ?_).trans hn.symm⟩
        · simp only [firstEdges, List.mem_cons, List.not_mem_nil, or_false, List.mem_append] at hc ⊢
          tauto
        · simp only [firstEdges, List.mem_cons, List.not_mem_nil, or_false, List.mem_append] at hc ⊢
          tauto
      strobes := ⟨asO_firstEdges s q, asO_lastEdges s q⟩
      taken := fun _ h => by rw [hn] at h; exact Bool.noConfusion h
      driven := fun c hc h => by
        obtain ⟨e1, e2⟩ := hs c hc
        rw [e1, e2] at h
        rcases h with h | h <;> exact Bool.noConfusion h
      left := fun _ _ => ⟨hz.asO_, hz.dsO_⟩
      nested := fun c hc h => by
        rw [(hs c hc).2] at h
        exact Bool.noConfusion h
      gap := ⟨fun h => by rw [hz.asO_] at h; exact Bool.noConfusion h,
        fun h => by rw [hz.cpu_state] at h; exact Bool.noConfusion h⟩
      requested := fun h => by rw [hz.cpu_out] at h; exact Bool.noConfusion h
      withdrawn := fun h => by rw [ho] at h; exact Bool.noConfusion h }

theorem mastered (ha : s.Awake) (p : Pins) : Mastered (s, p) where
  awake := ha
  own := by rw [hz.own, hz.cpu_state]; rfl
  asO_ := by rw [hz.asO_, hz.cpu_out]; rfl
  dsO_ := by rw [hz.dsO_, hz.cpu_out]; rfl
  pas := fun h => by rw [hz.cpu_out] at h; exact Bool.noConfusion h
  pds := fun h => by rw [hz.cpu_out] at h; exact Bool.noConfusion h
  breq := fun h => by rw [hz.cpu_out] at h; exact Bool.noConfusion h
  sampled := fun h => by rw [hz.bgrant_] at h; exact Bool.noConfusion h

end Silent

/-- In every run after reset, whatever the inputs, the chip keeps to the rules of bus
mastership. -/
theorem bus_protocol {s : Chip} (hs : AfterReset s) (p : Pins) {qs : List Period}
    (hq : ∀ q ∈ qs, q.NoReset) : Runs.Along periodSampled BusProtocol (s, p) qs := by
  cases qs with
  | nil => trivial
  | cons q qs =>
      refine ⟨hs.silent.busProtocol hs.resetting p, ?_⟩
      have hN : Mastered (periodSampled (s, p) q) :=
        hs.resetting.silent.mastered (awake_of_noReset (hq q List.mem_cons_self)) _
      have hl : Runs.Along periodSampled (fun _ q => q.NoReset) (periodSampled (s, p) q) qs :=
        Runs.along_of_forall fun q hq' => hq q (List.mem_cons_of_mem _ hq')
      exact Runs.along_of_invariant (I := Mastered)
        (fun x q hM hq => ⟨hM.busProtocol hq, hM.step hq⟩) hN hl

/-- A period in reset. -/
def resetting : Period := .steady { rst_ := false }

/-- The chip after reset. -/
def afterReset : Chip := (({} : Chip).period resetting).period resetting

theorem afterReset_spec : AfterReset afterReset :=
  ⟨{}, resetting, resetting, by decide, by decide, rfl⟩

/-- The CPU selects the direction from memory to the peripheral, starts the engine and grants
the bus, and the FIFO is filled. -/
def readingMemory : List Period :=
  .steady {} :: List.replicate 5 (.steady { as_ := false, ds_ := false, cs_ := false, rw := false,
                                            addr := 0x02, data := { ll := 0x02 } }) ++
    .steady {} :: strobe 0x04 :: answered 0x04 ++ filledOnce

theorem bus_protocol_afterReset :
    Runs.Along periodSampled BusProtocol (afterReset, {}) readingMemory :=
  bus_protocol afterReset_spec {} (by decide)

end Chip

end Resdmac
