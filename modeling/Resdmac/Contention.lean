import Resdmac.BusProtocol

/-!
# Who Drives the Data Buses

`RTL/RESDMAC.v` forms the output enables of `DATA_IO` and `PD_PORT` from signals of
four modules. A bus must be driven by the source of its data only.

## Main definitions

- `Chip.drivesData`, `Chip.pdOe` — the two output enables
- `Chip.SourceOfData` — the data on `DATA_IO` are the chip's

## Main results

- `Chip.no_contention_iff` — after reset `PD_PORT` is never driven against the WD33C93,
  and `DATA_IO` is driven against its source exactly while the chip reads memory, and in a read
  of `ACR` while `AS_` is high
-/

namespace Resdmac

namespace Chip

/-! ## §1 Output enables -/

/-- The driver of `DATA_IO` is on: `(R_W & ~H_0C & ~_CS) | OWN`. -/
def drivesData (s : Chip) (p : Pins) : Bool :=
  s.rw p && !(s.access p).h0C && !p.cs_ || s.own

/-- `PD_OE`. -/
def pdOe (s : Chip) : Bool := s.scsi.out.f2s || s.scsi.out.cpu2s

/-- The chip is the source of the data: the CPU reads a location of it other than
`ACR`, or the chip is the bus master and writes to memory. -/
def SourceOfData (s : Chip) (p : Pins) : Prop :=
  s.own = false ∧ p.cs_ = false ∧ s.rw p = true ∧ p.offset ≠ 0x0C ∨
    s.own = true ∧ s.rw p = false ∧ s.regs.dmadir = true

/-- The chip is the bus master in order to read memory. -/
def ReadsMemory (s : Chip) : Prop := s.own = true ∧ s.regs.dmadir = false

/-- The chip is selected for a read of `ACR`, and `AS_` is still or again high. -/
def AwaitsAcr (s : Chip) (p : Pins) : Prop :=
  s.own = false ∧ p.cs_ = false ∧ s.rw p = true ∧ p.offset = 0x0C ∧ p.as_ = true

instance (s : Chip) (p : Pins) : Decidable (s.SourceOfData p) :=
  inferInstanceAs (Decidable (_ ∨ _))

/-- The registers and the pins at the six edges of a period. -/
def samples (s : Chip) (q : Period) : List (Chip × Pins) :=
  [(s.atSclkRise q, q.sclkRise), (s.atClk90Rise q, q.clk90Rise),
    (s.atClk135Rise q, q.clk135Rise), (s.atSclkFall q, q.sclkFall),
    (s.atClk90Fall q, q.clk90Fall), (s.atClk135Fall q, q.clk135Fall)]

/-- `H_0C` is decoded with `AS_`, so it does not tell a read of `ACR` before `AS_` falls. -/
theorem drivesData_iff (s : Chip) (p : Pins) :
    (s.drivesData p = true → s.SourceOfData p) ↔ ¬ (ReadsMemory s ∨ AwaitsAcr s p) := by
  rw [drivesData, SourceOfData, ReadsMemory, AwaitsAcr]
  cases ho : s.own with
  | true =>
      have hr : s.rw p = !s.regs.dmadir := by rw [rw, ho, if_pos rfl]
      rw [hr]
      cases s.regs.dmadir <;> simp
  | false =>
      have hn : (s.access p).h0C = (!p.as_ && !p.cs_ && p.offset == 0x0C) := by
        rw [Access.h0C, Access.hit, Access.valid, access, asI_, ho, if_neg Bool.false_ne_true]
        cases p.as_ <;> cases p.cs_ <;> rfl
      have he : p.offset = 0x0C ↔ (p.offset == 0x0C) = true := beq_iff_eq.symm
      rw [hn, Ne, he]
      cases s.rw p <;> cases p.cs_ <;> cases p.as_ <;> cases p.offset == 0x0C <;> simp

/-! ## §2 The peripheral port -/

/-- `PD_PORT` is not driven while the WD33C93 is read. -/
def PdSafe (s : Chip) : Prop := s.pdOe = true → s.scsi.out.re = false

theorem mem_samples {s : Chip} {q : Period} {e : Chip × Pins} (he : e ∈ s.samples q) :
    e.1 ∈ s.firstEdges q ++ s.lastEdges q := by
  simp only [samples, firstEdges, lastEdges, List.mem_cons, List.not_mem_nil, or_false,
    List.mem_append] at he ⊢
  rcases he with rfl | rfl | rfl | rfl | rfl | rfl <;> tauto

theorem PdSafe.step {s : Chip} {q : Period} (hs : PdSafe s) (h : Live s q) :
    (∀ e ∈ s.samples q, PdSafe e.1) ∧ PdSafe (s.period q) := by
  have hn : ∀ c : Chip, c.scsi.out = s.scsiOut q → PdSafe c := by
    intro c hc
    rw [PdSafe, pdOe, hc]
    exact ScsiSm.re_of_pd
  have ho : ∀ c : Chip, c.scsi.out = s.scsi.out → PdSafe c := by
    intro c hc
    rw [PdSafe, pdOe, hc]
    exact hs
  refine ⟨fun e he => ?_, hn _ (period_scsi_out h)⟩
  simp only [samples, List.mem_cons, List.not_mem_nil, or_false] at he
  rcases he with rfl | rfl | rfl | rfl | rfl | rfl
  · exact ho _ (by rw [atSclkRise, settle_eq_clear h.1 h.2.1]; rfl)
  · exact ho _ (by rw [atClk90Rise_eq h]; rfl)
  · exact hn _ (by rw [atClk135Rise_eq h]; rfl)
  · exact hn _ (atSclkFall_scsi_out h)
  · exact hn _ (by rw [← atSclkFall_scsi_out h, atClk90Fall_eq h]; rfl)
  · exact hn _ (by rw [← atSclkFall_scsi_out h, atClk135Fall_eq h, atClk90Fall_eq h]; rfl)

/-! ## §3 Every run after reset -/

/-- At every edge of every run after reset `PD_PORT` is not driven while the WD33C93 is
read, and `DATA_IO` is driven by its source only if and only if the chip neither is the bus
master in order to read memory nor is selected for a read of `ACR` with `AS_` high. -/
theorem no_contention_iff {s : Chip} (hs : AfterReset s) {qs : List Period}
    (hq : ∀ q ∈ qs, q.NoReset) :
    Runs.Along period (fun s q => ∀ e ∈ s.samples q,
      (e.1.pdOe = true → e.1.scsi.out.re = false) ∧
        ((e.1.drivesData e.2 = true → e.1.SourceOfData e.2) ↔
          ¬ (ReadsMemory e.1 ∨ AwaitsAcr e.1 e.2))) s qs := by
  cases qs with
  | nil => trivial
  | cons q qs =>
      -- nothing is driven in the first period, and its end is a state out of reset
      refine ⟨fun e he => ⟨fun hp => ?_, drivesData_iff _ _⟩, ?_⟩
      · rw [pdOe, (hs.resetting.out_edges _ (mem_samples he)).2] at hp
        exact Bool.noConfusion hp
      · have hI : (s.period q).Awake ∧ PdSafe (s.period q) := by
          refine ⟨awake_of_noReset (hq q List.mem_cons_self), fun hp => ?_⟩
          rw [pdOe, hs.resetting.silent.scsi_out] at hp
          exact Bool.noConfusion hp
        have hl : Runs.Along period (fun _ q => q.NoReset) (s.period q) qs :=
          Runs.along_of_forall fun q hq' => hq q (List.mem_cons_of_mem _ hq')
        refine Runs.along_of_invariant (I := fun s => s.Awake ∧ PdSafe s) ?_ hI hl
        rintro s q ⟨ha, hp⟩ hq
        obtain ⟨h1, h2⟩ := hp.step ⟨ha, hq⟩
        exact ⟨fun e he => ⟨h1 e he, drivesData_iff _ _⟩, period_awake ⟨ha, hq⟩, h2⟩

/-- The CPU reads `ACR`, with its address and `_CS` valid before `AS_` falls. -/
def readingAcr : List Period :=
  .steady { cs_ := false, addr := 0x03 } ::
    List.replicate 3 (.steady { cs_ := false, addr := 0x03, as_ := false }) ++
      [.steady { cs_ := false, addr := 0x03 }, .steady {}]

theorem no_contention_iff_afterReset :
    Runs.Along period (fun s q => ∀ e ∈ s.samples q,
      (e.1.pdOe = true → e.1.scsi.out.re = false) ∧
        ((e.1.drivesData e.2 = true → e.1.SourceOfData e.2) ↔
          ¬ (ReadsMemory e.1 ∨ AwaitsAcr e.1 e.2)))
      afterReset (readingMemory ++ readingAcr) :=
  no_contention_iff afterReset_spec (by decide)

/-- While the chip reads memory it drives `DATA_IO` against it. -/
theorem contention_of_memory_read :
    ¬ ∀ s, AfterReset s → ∀ qs : List Period, (∀ q ∈ qs, q.NoReset) →
      Runs.Along period (fun s q => ∀ e ∈ s.samples q,
        (e.1.drivesData e.2 = true → e.1.SourceOfData e.2) ∧
          (e.1.pdOe = true → e.1.scsi.out.re = false)) s qs := by
  intro h
  have hd := h afterReset afterReset_spec readingMemory (by decide)
  revert hd
  decide +kernel

end Chip

end Resdmac
