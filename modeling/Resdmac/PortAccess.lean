import Resdmac.StopDma

/-!
# One Access to the WD33C93 for One Cycle of the CPU

A cycle of the CPU to `PORT0` reaches `SCSI_SM` as the level `CCPUREQ`, and the end of
the access is fed back through `nLS2CPU` and `CDSACK_`. `nLS2CPU` toggles, so the wait in
`S2C_6` and `C2S_5` ends by itself; how long the CPU keeps `AS_` low then decides whether
the cycle is served a second time.

## Main definitions

- `Chip.PortCycle` — the pins show one cycle of the CPU to `PORT0`
- `Chip.OneAccess` — the chip selects the WD33C93 once, with one strobe

## Main results

- `Chip.one_access_iff` — the cycle is served exactly once if and only if `AS_` goes
  high within three clocks after `_DSACK` was first driven
-/

namespace Resdmac

/-- The pins show a cycle to `PORT0`, offsets `0x40` to `0x4C`. -/
structure Pins.Port0 (p : Pins) (rw : Bool) : Prop where
  as_ : p.as_ = false
  cs_ : p.cs_ = false
  rw : p.rw = rw
  offset : p.offset.extractLsb' 4 4 = 4#4

namespace Chip

/-! ## §1 The cycle -/

/-- `CPU_SM` is off the bus and is not granted at the next CLK90 edge. -/
structure OffBus (s : Chip) : Prop where
  bgack : s.cpu.out.bgack = false
  state : s.cpu.state = .s0 ∨ s.cpu.state = .s20 ∨ s.cpu.state.waiting = true
  free : s.cpu.inp.bgrant_ = true ∨ s.cpu.inp.ncycledone = true

/-- One cycle of the CPU to `PORT0`: `AS_` falls after the SCLK falling edge of period 0
and rises after that of period `n`. The CPU owns the bus and starts no cycle once it has
granted it; after the cycle no further access to `PORT0` is decoded. -/
structure PortCycle (s : Chip) (q : ℕ → Period) (rw : Bool) (n : ℕ) : Prop where
  awake : s.Awake
  noReset : ∀ t, (q t).NoReset
  /-- `SCSI_SM` is idle or in the middle of a byte. -/
  scsi : s.scsi.state.dma = true
  ccpureq : s.scsi.inp.ccpureq = false
  nls2cpu : s.scsi.nls2cpu = false
  offBus : OffBus s
  bg_ : (q 0).clk135Rise.bg_ = true
  begins : (q 0).clk90Fall.Port0 rw ∧ (q 0).clk135Fall.Port0 rw
  lasts : ∀ t, 0 < t → t ≤ n → (q t).sclkRise.Port0 rw ∧ (q t).clk90Rise.Port0 rw ∧
    (q t).clk135Rise.Port0 rw ∧ (q t).sclkFall.Port0 rw
  shown : ∀ t, 0 < t → t < n → (q t).clk90Fall.Port0 rw ∧ (q t).clk135Fall.Port0 rw
  ends : (q n).clk90Fall.as_ = true ∧ (q n).clk135Fall.as_ = true
  later : ∀ t, n < t →
    (((Runs.states period s q t).atClk135Fall (q t)).access (q t).clk135Fall).wdregreq = false

/-- `_DSACK` is driven by `SCSI_SM` in period `t`. -/
def DrivesDsack (s : Chip) (q : ℕ → Period) (t : ℕ) : Prop :=
  ((Runs.states period s q t).atSclkFall (q t)).scsi.nls2cpu = true

instance (s : Chip) (q : ℕ → Period) (t : ℕ) : Decidable (DrivesDsack s q t) :=
  inferInstanceAs (Decidable (_ = _))

/-- The outputs of `SCSI_SM` after the CLK90 rising edge of period `t`. -/
def scsiWave (s : Chip) (q : ℕ → Period) (t : ℕ) : ScsiSm.Out :=
  ((Runs.states period s q t).atClk135Rise (q t)).scsi.out

/-- The strobe of an access: `RE_o` for a read, `WE_o` for a write. -/
def ScsiStrobe (o : ScsiSm.Out) (rw : Bool) : Bool := if rw then o.re else o.we

/-- One contiguous pulse of `SCSI_CS_o` with one pulse of the strobe inside it and
none of the other one. -/
def OneAccess (w : ℕ → ScsiSm.Out) (rw : Bool) : Prop :=
  ∃ a b c d, a < b ∧ (∀ t, (w t).scsiCs = true ↔ a ≤ t ∧ t < b) ∧
    a ≤ c ∧ c < d ∧ d ≤ b ∧
    ∀ t, a ≤ t → t < b →
      (ScsiStrobe (w t) rw = true ↔ c ≤ t ∧ t < d) ∧ ScsiStrobe (w t) (!rw) = false

/-- The registers that the six edges of a period see, with the pins at the edge. -/
def views (s : Chip) (q : Period) : List (Chip × Pins) :=
  [(s.settle q.sclkRise, q.sclkRise), (s.atClk90Rise q, q.clk90Rise),
    (s.atClk135Rise q, q.clk135Rise), (s.atSclkFall q, q.sclkFall),
    (s.atClk90Fall q, q.clk90Fall), (s.atClk135Fall q, q.clk135Fall)]

/-- `LS2CPU` is low only while `AS_` of the cycle is low. -/
def DsackInCycle (s : Chip) (q : ℕ → Period) (n : ℕ) : Prop :=
  ∀ t, ∀ v ∈ views (Runs.states period s q t) (q t), v.1.scsi.nls2cpu = true →
    0 < t ∧ t ≤ n ∧ v.2.as_ = false

/-! ## §2 The bus stays with the CPU -/

section OffBus

variable {s : Chip} {q : Period} (h : Live s q) (ho : OffBus s)
include h ho

theorem OffBus.cpuOut_bgack : (s.cpuOut q).bgack = false := by
  change (CpuSm.comb (s.cpuIn q) s.cpu.state).bgack = false
  rcases ho.state with hs | hs | hs
  · exact (CpuSm.idle_spec (.inl hs)).2.1
  · exact (CpuSm.idle_spec (.inr hs)).2.1
  · have hg : (!(s.cpuIn q).nbgrant && (s.cpuIn q).cycledone) = false := by
      rw [cpuIn_eq h]
      rcases ho.free with e | e <;> simp [e]
    have hw := (CpuSm.waiting_spec (i := s.cpuIn q) hs).2
    rw [hg] at hw
    exact hw.2

theorem OffBus.step (hp : q.clk135Rise.bg_ = true ∨ q.clk135Rise.as_ = false) :
    OffBus (s.period q) := by
  have hb := ho.cpuOut_bgack h
  refine ⟨by rw [period_cpu_out h]; exact hb, ?_, ?_⟩
  · rw [period_cpu_state h]
    exact (CpuSm.not_bgack_spec hb).1
  · rw [period_cpu_inp h]
    refine hp.imp_right fun ha => ?_
    have hown : (s.atClk135Rise q).own = false := by
      rw [own, ← hb, atClk135Rise_eq h]
      rfl
    have hi : (s.atClk135Rise q).asI_ q.clk135Rise = false := by
      rw [asI_, hown, ha]
      rfl
    change (!(_ && (s.atClk135Rise q).asI_ q.clk135Rise && _ && _ && _)) = true
    rw [hi]
    simp

end OffBus

/-! ### The views of `nLS2CPU` -/

section Views

variable {s : Chip} {q : Period} (h : Live s q)
include h

/-- `nLS2CPU` is seen set only if it was set before the period or `SET_DSACK` sets it. -/
theorem nls2cpu_of_views {v : Chip × Pins} (hv : v ∈ views s q)
    (hn : v.1.scsi.nls2cpu = true) :
    s.scsi.nls2cpu = true ∨ (s.atSclkFall q).scsi.nls2cpu = true := by
  simp only [views, List.mem_cons, List.not_mem_nil, or_false] at hv
  rcases hv with rfl | rfl | rfl | rfl | rfl | rfl
  · exact .inl (Bool.and_eq_true_iff.mp hn).1
  · rw [atClk90Rise_eq h] at hn
    exact .inl (Bool.and_eq_true_iff.mp (Bool.and_eq_true_iff.mp hn).1).1
  · rw [atClk135Rise_eq h, atClk90Rise_eq h] at hn
    exact .inl (Bool.and_eq_true_iff.mp (Bool.and_eq_true_iff.mp
      (Bool.and_eq_true_iff.mp hn).1).1).1
  · exact .inr hn
  · rw [atClk90Fall_eq h] at hn
    exact .inr (Bool.and_eq_true_iff.mp hn).1
  · rw [atClk135Fall_eq h, atClk90Fall_eq h] at hn
    exact .inr (Bool.and_eq_true_iff.mp (Bool.and_eq_true_iff.mp hn).1).1

/-- With the bus left to the CPU, `nLS2CPU` is seen set only while its `AS_` is low. -/
theorem as_of_views (ho : s.own = false) (hb : (s.cpuOut q).bgack = false) {v : Chip × Pins}
    (hv : v ∈ views s q) (hn : v.1.scsi.nls2cpu = true) : v.2.as_ = false := by
  have key : ∀ (t : Chip) (p : Pins), t.own = false → (t.clear p).scsi.nls2cpu = true →
      p.as_ = false := by
    intro t p ht hc
    have ha : t.asI_ p = false := by simpa using (Bool.and_eq_true_iff.mp hc).2
    rwa [asI_, ht] at ha
  simp only [views, List.mem_cons, List.not_mem_nil, or_false] at hv
  rcases hv with rfl | rfl | rfl | rfl | rfl | rfl
  · rw [settle_eq_clear h.1 h.2.1] at hn
    exact key _ _ ho hn
  · rw [atClk90Rise_eq h] at hn
    exact key ((s.clear q.sclkRise).onSclkRise q.sclkRise) _ ho hn
  · rw [atClk135Rise_eq h] at hn
    refine key _ _ ?_ hn
    exact hb
  · rw [atSclkFall_eq h] at hn
    refine key _ _ ?_ hn
    rw [atClk135Rise_eq h]
    exact hb
  · rw [atClk90Fall_eq h] at hn
    refine key _ _ ?_ hn
    rw [← atSclkFall_cpu_out h] at hb
    exact hb
  · rw [atClk135Fall_eq h] at hn
    refine key _ _ ?_ hn
    rw [← atClk90Fall_cpu_out h] at hb
    exact hb

end Views

/-! ## §3 The course of the access -/

namespace PortCycle

variable {s : Chip} {q : ℕ → Period} {rw : Bool} {n : ℕ} (C : PortCycle s q rw n)
include C

theorem live (t : ℕ) : Live (Runs.states period s q t) (q t) := by
  refine ⟨?_, C.noReset t⟩
  induction t with
  | zero => exact C.awake
  | succ t ih => exact period_awake ⟨ih, C.noReset t⟩

theorem offBus_of_le {t : ℕ} (ht : t ≤ n) : OffBus (Runs.states period s q t) := by
  induction t with
  | zero => exact C.offBus
  | succ t ih =>
      refine (ih (Nat.le_of_succ_le ht)).step (C.live t) ?_
      rcases Nat.eq_zero_or_pos t with rfl | h0
      · exact .inl C.bg_
      · exact .inr (C.lasts t h0 (Nat.le_of_succ_le ht)).2.2.1.as_

theorem wdregreq {t : ℕ} (ht : t ≤ n) (hp : (q t).clk135Fall.Port0 rw) :
    (Runs.states period s q (t + 1)).scsi.inp.ccpureq = true := by
  have hb := (C.offBus_of_le ht).cpuOut_bgack (C.live t)
  have ho := (atClk135Fall_own (C.live t)).trans hb
  rw [Runs.states_succ, period_ccpureq (C.live t)]
  simp only [Access.wdregreq, Access.valid, access, asI_, ho, hp.as_, hp.cs_, hp.offset]
  rfl

theorem ccpureq_of_le {t : ℕ} (h0 : 0 < t) (ht : t ≤ n) :
    (Runs.states period s q t).scsi.inp.ccpureq = true := by
  obtain ⟨t, rfl⟩ : ∃ j, t = j + 1 := ⟨t - 1, by omega⟩
  rcases Nat.eq_zero_or_pos t with rfl | h0
  · exact C.wdregreq (Nat.zero_le n) C.begins.2
  · exact C.wdregreq (Nat.le_of_succ_le ht) (C.shown t h0 ht).2

theorem ccpureq_of_lt {t : ℕ} (ht : n < t) :
    (Runs.states period s q t).scsi.inp.ccpureq = false := by
  obtain ⟨t, rfl⟩ : ∃ j, t = j + 1 := ⟨t - 1, by omega⟩
  rw [Runs.states_succ, period_ccpureq (C.live t)]
  rcases Nat.eq_or_lt_of_le (Nat.le_of_lt_succ ht) with rfl | hlt
  · have hb := (C.offBus_of_le le_rfl).cpuOut_bgack (C.live n)
    have ho := (atClk135Fall_own (C.live n)).trans hb
    simp only [Access.wdregreq, Access.valid, access, asI_, ho, C.ends.2]
    simp
  · exact C.later t hlt

theorem state_succ (t : ℕ) :
    (Runs.states period s q (t + 1)).scsi.state =
      ScsiSm.nextState ((Runs.states period s q t).scsiIn (q t))
        (Runs.states period s q t).scsi.state :=
  period_scsi_state (C.live t)

theorem scsiIn_rw {t : ℕ} (h0 : 0 < t) (ht : t ≤ n) :
    ((Runs.states period s q t).scsiIn (q t)).rw = rw := by
  have ho : (Runs.states period s q t).own = false := (C.offBus_of_le ht).bgack
  rw [scsiIn_eq (C.live t)]
  change (if (Runs.states period s q t).own then _ else _) = _
  rw [ho]
  exact (C.lasts t h0 ht).2.1.rw

/-- A byte in transit is finished first. -/
theorem state_dma {j : ℕ} (hj : j ≤ (Runs.states period s q 1).scsi.state.toIdle)
    (hn : j ≤ n) :
    (Runs.states period s q (1 + j)).scsi.state.dma = true ∧
      (Runs.states period s q (1 + j)).scsi.state.toIdle + j =
        (Runs.states period s q 1).scsi.state.toIdle := by
  induction j with
  | zero =>
      refine ⟨?_, rfl⟩
      rw [C.state_succ 0]
      refine ScsiSm.nextState_dma ?_ C.scsi
      rw [scsiIn_eq (C.live 0)]
      exact C.ccpureq
  | succ j ih =>
      obtain ⟨h1, h2⟩ := ih (by omega) (by omega)
      have hc : ((Runs.states period s q (1 + j)).scsiIn (q (1 + j))).ccpureq = true := by
        rw [scsiIn_eq (C.live _)]
        exact C.ccpureq_of_le (by omega) (by omega)
      have hs := ScsiSm.nextState_of_ccpureq hc h1
      rw [if_neg (by omega), ← C.state_succ (1 + j)] at hs
      exact ⟨hs.1, by rw [show 1 + (j + 1) = 1 + j + 1 from rfl]; omega⟩

theorem setDsack_of_drives {t : ℕ} (hd : DrivesDsack s q t) :
    ScsiSm.setDsack (Runs.states period s q (t + 1)).scsi.state = true := by
  rw [C.state_succ t]
  refine Bool.eq_true_of_not_eq_false fun hs => ?_
  rw [DrivesDsack, (period_nls2cpu_eq_false (C.live t) hs).1] at hd
  exact Bool.noConfusion hd

theorem nls2cpu_succ {t : ℕ}
    (hs : ScsiSm.setDsack (Runs.states period s q (t + 1)).scsi.state = false) :
    (Runs.states period s q (t + 1)).scsi.nls2cpu = false := by
  rw [C.state_succ t] at hs
  exact (period_nls2cpu_eq_false (C.live t) hs).2

theorem drives_of_setDsack {t : ℕ} (ht : t + 1 ≤ n)
    (hs : ScsiSm.setDsack (Runs.states period s q (t + 1)).scsi.state = false)
    (hs' : ScsiSm.setDsack (Runs.states period s q (t + 2)).scsi.state = true) :
    DrivesDsack s q (t + 1) := by
  have h := C.live (t + 1)
  have hl := C.lasts (t + 1) (by omega) ht
  rw [C.state_succ (t + 1)] at hs'
  rw [DrivesDsack, atSclkFall_nls2cpu h ((C.offBus_of_le ht).cpuOut_bgack h) (C.nls2cpu_succ hs)
    hl.2.2.1.as_ hl.2.2.2.as_]
  exact hs'

/-- The byte in transit comes first, and it sets no `SET_DSACK`. -/
theorem reaches_cpureq {T : ℕ}
    (hset : ScsiSm.setDsack (Runs.states period s q (T + 1)).scsi.state = true) (hT : T < n) :
    ∃ a, 0 < a ∧ a ≤ T + 1 ∧ (∀ t < a, (Runs.states period s q t).scsi.state.dma = true) ∧
      (Runs.states period s q a).scsi.state = .cpureq := by
  obtain ⟨d, hdd⟩ : ∃ d, d = (Runs.states period s q 1).scsi.state.toIdle := ⟨_, rfl⟩
  have hdma : ∀ j ≤ d, j ≤ n → (Runs.states period s q (1 + j)).scsi.state.dma = true :=
    fun j hj hn => (C.state_dma (hdd ▸ hj) hn).1
  have hlate : d < T := by
    by_contra hle
    have h1 := hdma T (by omega) (by omega)
    rw [Nat.add_comm] at h1
    rw [ScsiSm.setDsack_of_dma h1] at hset
    exact Bool.noConfusion hset
  refine ⟨2 + d, by omega, by omega, fun t ht => ?_, ?_⟩
  · rcases Nat.eq_zero_or_pos t with rfl | h0
    · exact C.scsi
    · obtain ⟨j, rfl⟩ : ∃ j, t = 1 + j := ⟨t - 1, by omega⟩
      exact hdma j (by omega) (by omega)
  · obtain ⟨h1, h2⟩ := C.state_dma (j := d) (by omega) (by omega)
    have hc : ((Runs.states period s q (1 + d)).scsiIn (q (1 + d))).ccpureq = true := by
      rw [scsiIn_eq (C.live _)]
      exact C.ccpureq_of_le (by omega) (by omega)
    have hs := ScsiSm.nextState_of_ccpureq hc h1
    rw [if_pos (by omega), ← C.state_succ (1 + d)] at hs
    rw [show 2 + d = 1 + d + 1 by omega]
    exact hs

/-- From `CPUREQ` on the access takes its states in order. -/
theorem follows {a j : ℕ} {st : ScsiSm.State} (h0 : 0 < a) (ha : a ≤ n)
    (hreq : (Runs.states period s q a).scsi.state = .cpureq)
    (hj : (ScsiSm.accessStates rw)[j]? = some st) :
    (Runs.states period s q (a + j)).scsi.state = st := by
  induction j generalizing st with
  | zero => exact hreq.trans (ScsiSm.accessStates_zero hj)
  | succ j ih =>
      obtain ⟨hlt, -⟩ := List.getElem?_eq_some_iff.mp hj
      have hj' := List.getElem?_eq_getElem (Nat.lt_of_succ_lt hlt)
      rw [← Nat.add_assoc, C.state_succ, ih hj']
      refine ScsiSm.nextState_access hj' hj fun e => ?_
      rw [e]
      exact C.scsiIn_rw h0 ha

/-- The states of the access, from `CPUREQ` at `a` on. `T` is the period in which `_DSACK`
is first driven. -/
theorem course {T : ℕ} (hd : DrivesDsack s q T) (hfirst : ∀ t < T, ¬ DrivesDsack s q t)
    (hT : T < n) :
    ∃ a, 0 < a ∧ a ≤ n ∧ (∀ t < a, (Runs.states period s q t).scsi.state.dma = true) ∧
      T + 2 = a + (ScsiSm.accessStates rw).length ∧
      ∀ j st, (ScsiSm.accessStates rw)[j]? = some st →
        (Runs.states period s q (a + j)).scsi.state = st := by
  have hset := C.setDsack_of_drives hd
  obtain ⟨a, h0, haT, hbefore, hreq⟩ := C.reaches_cpureq hset hT
  have hst : ∀ j st, (ScsiSm.accessStates rw)[j]? = some st →
      (Runs.states period s q (a + j)).scsi.state = st :=
    fun j st hj => C.follows h0 (by omega) hreq hj
  have hsd : ∀ j, j < (ScsiSm.accessStates rw).length →
      ScsiSm.setDsack (Runs.states period s q (a + j)).scsi.state =
        decide (j + 1 = (ScsiSm.accessStates rw).length) := by
    intro j hj
    have hj' := List.getElem?_eq_getElem hj
    rw [hst j _ hj']
    exact ScsiSm.setDsack_access hj'
  have hlen := ScsiSm.accessStates_length rw
  refine ⟨a, h0, by omega, hbefore, ?_, hst⟩
  -- `T` is the period that enters the last state, the one with `SET_DSACK`
  apply le_antisymm
  · by_contra hgt
    obtain ⟨m, hm⟩ := Nat.exists_eq_add_of_le (show 3 ≤ (ScsiSm.accessStates rw).length by omega)
    refine hfirst (a + m + 1) (by omega) (C.drives_of_setDsack (by omega) ?_ ?_)
    · rw [Nat.add_assoc, hsd _ (by omega), decide_eq_false_iff_not]
      omega
    · rw [Nat.add_assoc, hsd _ (by omega), decide_eq_true_iff]
      omega
  · by_contra hlt
    obtain ⟨j, hj⟩ := Nat.exists_eq_add_of_le haT
    have hs := hsd j (by omega)
    rw [← hj, hset] at hs
    have := of_decide_eq_true hs.symm
    omega

/-- After `SET_DSACK` the machine is idle again in three clocks. -/
theorem course_end {T : ℕ}
    (hs : ScsiSm.setDsack (Runs.states period s q (T + 1)).scsi.state = true) :
    (Runs.states period s q (T + 2)).scsi.state.selects = false ∧
      (Runs.states period s q (T + 3)).scsi.state.selects = false ∧
      ScsiSm.setDsack (Runs.states period s q (T + 2)).scsi.state = false ∧
      (Runs.states period s q (T + 4)).scsi.state = .idleDmaRd := by
  have hc : ScsiSm.setDsack (Runs.states period s q (T + 3)).scsi.state = false →
      ((Runs.states period s q (T + 3)).scsiIn (q (T + 3))).cdsack_ = true := by
    intro h3
    have hn := C.nls2cpu_succ h3
    have hd : (Runs.states period s q (T + 3)).scsi.inp.cdsack_ =
        !(Runs.states period s q (T + 3)).scsi.nls2cpu := period_cdsack_ (C.live (T + 2))
    rw [scsiIn_eq (C.live _)]
    change (Runs.states period s q (T + 3)).scsi.inp.cdsack_ = true
    rw [hd, hn]
    rfl
  have h2 := C.state_succ (T + 1)
  have h3 := C.state_succ (T + 2)
  have h4 := C.state_succ (T + 3)
  -- a read sets `_DSACK` in `S2C_4`, a write in `C2S_3`
  have hst : (Runs.states period s q (T + 1)).scsi.state = .s2c4 ∨
      (Runs.states period s q (T + 1)).scsi.state = .c2s3 := by
    cases he : (Runs.states period s q (T + 1)).scsi.state <;> rw [he] at hs <;>
      first | exact .inl rfl | exact .inr rfl | cases hs
  rcases hst with hst | hst
  · rw [hst] at h2
    change _ = ScsiSm.State.s2c5 at h2
    rw [h2] at h3
    change _ = ScsiSm.State.s2c6 at h3
    rw [h3, ScsiSm.nextState, hc (by rw [h3]; rfl)] at h4
    exact ⟨by rw [h2]; rfl, by rw [h3]; rfl, by rw [h2]; rfl, h4⟩
  · rw [hst] at h2
    change _ = ScsiSm.State.c2s4 at h2
    rw [h2] at h3
    change _ = ScsiSm.State.c2s5 at h3
    rw [h3, ScsiSm.nextState, hc (by rw [h3]; rfl)] at h4
    exact ⟨by rw [h2]; rfl, by rw [h3]; rfl, by rw [h2]; rfl, h4⟩

/-- If `AS_` is high by then, no further access follows. -/
theorem dma_after {m : ℕ} (hm : n < m)
    (hs : (Runs.states period s q m).scsi.state.dma = true) :
    ∀ t, m ≤ t → (Runs.states period s q t).scsi.state.dma = true := by
  intro t ht
  obtain ⟨j, rfl⟩ := Nat.exists_eq_add_of_le ht
  induction j with
  | zero => exact hs
  | succ j ih =>
      rw [show m + (j + 1) = m + j + 1 from rfl, C.state_succ]
      refine ScsiSm.nextState_dma ?_ (ih (by omega))
      rw [scsiIn_eq (C.live _)]
      exact C.ccpureq_of_lt (by omega)

/-! ## §4 Exactly one access -/

theorem scsiWave_eq (t : ℕ) :
    scsiWave s q t =
      ScsiSm.comb ((Runs.states period s q t).scsiIn (q t)) (Runs.states period s q t).scsi.state := by
  rw [scsiWave, atClk135Rise_eq (C.live t)]
  rfl

theorem scsiWave_cs (t : ℕ) :
    (scsiWave s q t).scsiCs = (Runs.states period s q t).scsi.state.selects := by
  rw [C.scsiWave_eq, ScsiSm.scsiCs_eq]

/-- `SCSI_CS_o` is one pulse. -/
theorem selects_iff {a b : ℕ}
    (hbefore : ∀ t < a, (Runs.states period s q t).scsi.state.dma = true)
    (hin : ∀ j, a + j < b → (Runs.states period s q (a + j)).scsi.state.selects = true)
    (hafter : ∀ t, b ≤ t → (Runs.states period s q t).scsi.state.selects = false) (t : ℕ) :
    (scsiWave s q t).scsiCs = true ↔ a ≤ t ∧ t < b := by
  rw [C.scsiWave_cs]
  constructor
  · intro hc
    by_contra hout
    rcases (by omega : t < a ∨ b ≤ t) with hl | hg
    · rw [ScsiSm.State.not_selects_of_dma (hbefore t hl)] at hc
      exact Bool.noConfusion hc
    · rw [hafter t hg] at hc
      exact Bool.noConfusion hc
  · rintro ⟨ha, hb⟩
    obtain ⟨j, rfl⟩ := Nat.exists_eq_add_of_le ha
    exact hin j hb

theorem not_selects_after {T : ℕ}
    (hs : ScsiSm.setDsack (Runs.states period s q (T + 1)).scsi.state = true) (hk : n ≤ T + 3) :
    ∀ t, T + 2 ≤ t → (Runs.states period s q t).scsi.state.selects = false := by
  obtain ⟨e2, e3, -, e4⟩ := C.course_end hs
  intro t ht
  rcases (by omega : t = T + 2 ∨ t = T + 3 ∨ T + 4 ≤ t) with rfl | rfl | h4
  · exact e2
  · exact e3
  · exact ScsiSm.State.not_selects_of_dma
      (C.dma_after (m := T + 4) (by omega) (by rw [e4]; rfl) t h4)

theorem one_access {T : ℕ} (hd : DrivesDsack s q T)
    (hfirst : ∀ t < T, ¬ DrivesDsack s q t) (hT : T < n) (hk : n ≤ T + 3) :
    OneAccess (scsiWave s q) rw := by
  obtain ⟨a, h0, han, hbefore, hlen, hst⟩ := C.course hd hfirst hT
  have hafter := C.not_selects_after (C.setDsack_of_drives hd) hk
  have h4 := ScsiSm.accessStates_length rw
  -- the chip is selected from `CPUREQ` to `SET_DSACK`, a write strobe ends a clock before
  refine ⟨a, T + 2, a, T + 1 + rw.toNat, by omega,
    C.selects_iff hbefore (fun j hj => ?_) hafter, le_rfl, by omega, ?_,
    fun t ha hb => ?_⟩
  · have hj' := List.getElem?_eq_getElem (show j < (ScsiSm.accessStates rw).length by omega)
    rw [hst j _ hj']
    exact ScsiSm.selects_access hj'
  · have := Bool.toNat_le rw
    omega
  · obtain ⟨j, rfl⟩ := Nat.exists_eq_add_of_le ha
    have hj' := List.getElem?_eq_getElem (show j < (ScsiSm.accessStates rw).length by omega)
    have hs := @ScsiSm.strobe_access ((Runs.states period s q (a + j)).scsiIn (q (a + j))) rw j _
      hj' fun e => by rw [e]; exact C.scsiIn_rw h0 han
    rw [C.scsiWave_eq, hst j _ hj', ScsiStrobe, ScsiStrobe, hs.1, hs.2, decide_eq_true_iff]
    have := Bool.toNat_le rw
    exact ⟨by omega, rfl⟩

/-- A cycle that outlasts the wait by another clock is served again. -/
theorem not_one_access {T : ℕ} (hd : DrivesDsack s q T) (hk : T + 3 < n) :
    ¬ OneAccess (scsiWave s q) rw := by
  rintro ⟨a, b, c, d, -, hcs, -⟩
  have hset := C.setDsack_of_drives hd
  obtain ⟨e2, -, -, e4⟩ := C.course_end hset
  have h1 : (scsiWave s q (T + 1)).scsiCs = true := by
    rw [C.scsiWave_cs, ScsiSm.selects_of_setDsack hset]
  have h5 : (scsiWave s q (T + 5)).scsiCs = true := by
    have hc : ((Runs.states period s q (T + 4)).scsiIn (q (T + 4))).ccpureq = true := by
      rw [scsiIn_eq (C.live _)]
      exact C.ccpureq_of_le (by omega) (by omega)
    have hs := ScsiSm.nextState_of_ccpureq hc (show (Runs.states period s q (T + 4)).scsi.state.dma =
      true by rw [e4]; rfl)
    rw [if_pos (by rw [e4]; rfl), ← C.state_succ (T + 4)] at hs
    rw [C.scsiWave_cs, hs]
    rfl
  have h2 : (scsiWave s q (T + 2)).scsiCs = false := by rw [C.scsiWave_cs, e2]
  have hb := (hcs _).mp h1
  have hb' := (hcs _).mp h5
  rw [(hcs (T + 2)).mpr (by omega)] at h2
  exact Bool.noConfusion h2

/-! ## §5 `_DSACK` within the cycle -/

/-- `SET_DSACK` comes once. -/
theorem setDsack_only {T : ℕ} (hd : DrivesDsack s q T)
    (hfirst : ∀ t < T, ¬ DrivesDsack s q t) (hT : T < n) (hk : n ≤ T + 3) {t : ℕ}
    (hs : ScsiSm.setDsack (Runs.states period s q t).scsi.state = true) : t = T + 1 := by
  by_contra hne
  rcases (by omega : t ≤ T ∨ T + 2 ≤ t) with hle | hge
  · have hdma : ∀ j ≤ 1, ScsiSm.setDsack (Runs.states period s q j).scsi.state = false := by
      intro j hj
      rcases Nat.le_one_iff_eq_zero_or_eq_one.mp hj with rfl | rfl
      · exact ScsiSm.setDsack_of_dma C.scsi
      · exact ScsiSm.setDsack_of_dma (C.state_dma (j := 0) (Nat.zero_le _) (Nat.zero_le _)).1
    obtain ⟨j, rfl⟩ : ∃ j, t = j + 2 := by
      refine ⟨t - 2, ?_⟩
      by_contra h2
      rw [hdma t (by omega)] at hs
      exact Bool.noConfusion hs
    have hs' : ScsiSm.setDsack (Runs.states period s q (j + 1)).scsi.state = false := by
      refine Bool.eq_false_iff.mpr fun h1 => ?_
      rw [(C.course_end h1).2.2.1] at hs
      exact Bool.noConfusion hs
    exact hfirst (j + 1) (by omega) (C.drives_of_setDsack (by omega) hs' hs)
  · have hn := C.not_selects_after (C.setDsack_of_drives hd) hk t hge
    rw [ScsiSm.selects_of_setDsack hs] at hn
    exact Bool.noConfusion hn

theorem not_drives_zero : ¬ DrivesDsack s q 0 := by
  intro hd
  have hs := C.setDsack_of_drives hd
  rw [ScsiSm.setDsack_of_dma (C.state_dma (j := 0) (Nat.zero_le _) (Nat.zero_le _)).1] at hs
  exact Bool.noConfusion hs

theorem dsackInCycle {T : ℕ} (hd : DrivesDsack s q T)
    (hfirst : ∀ t < T, ¬ DrivesDsack s q t) (hT : T < n) (hk : n ≤ T + 3) :
    DsackInCycle s q n := by
  intro t v hv hn
  have h := C.live t
  have h0 : T ≠ 0 := fun h0 => C.not_drives_zero (h0 ▸ hd)
  have ht : t = T ∨ t = T + 1 := by
    rcases nls2cpu_of_views h hv hn with hb | hf
    · right
      rcases t with _ | t
      · rw [Runs.states_zero, C.nls2cpu] at hb
        exact Bool.noConfusion hb
      · refine C.setDsack_only hd hfirst hT hk (Bool.eq_true_of_not_eq_false fun hs => ?_)
        rw [C.nls2cpu_succ hs] at hb
        exact Bool.noConfusion hb
    · left
      have := C.setDsack_only hd hfirst hT hk (C.setDsack_of_drives hf)
      omega
  have htn : t ≤ n := by omega
  exact ⟨by omega, htn, as_of_views h (C.offBus_of_le htn).bgack
    ((C.offBus_of_le htn).cpuOut_bgack h) hv hn⟩

end PortCycle

/-! ## §6 The access and the length of the cycle -/

/-- A cycle to `PORT0` whose `AS_` stays low for `n - T` clocks after `_DSACK` was first
driven in period `T` makes one access, with `_DSACK` driven inside the cycle only, if and
only if these are at most three clocks. -/
theorem one_access_iff {s : Chip} {q : ℕ → Period} {rw : Bool} {n T : ℕ}
    (C : PortCycle s q rw n) (hd : DrivesDsack s q T) (hfirst : ∀ t < T, ¬ DrivesDsack s q t)
    (hT : T < n) :
    OneAccess (scsiWave s q) rw ∧ DsackInCycle s q n ↔ n ≤ T + 3 := by
  constructor
  · rintro ⟨ho, -⟩
    by_contra hk
    exact C.not_one_access hd (by omega) ho
  · exact fun hk => ⟨C.one_access hd hfirst hT hk, C.dsackInCycle hd hfirst hT hk⟩

/-- The CPU reads `PORT0` in periods 1 to `n`. -/
def portRead (n t : ℕ) : Period :=
  let p : Pins := { as_ := false, cs_ := false, addr := 0x10 }
  let before : Pins := if 0 < t ∧ t ≤ n then p else {}
  let after : Pins := if t < n then p else {}
  ⟨before, before, before, before, after, after⟩

theorem portRead_portCycle {n : ℕ} (hn : 0 < n) :
    PortCycle (fresh true false) (portRead n) true n := by
  have hp : Pins.Port0 { as_ := false, cs_ := false, addr := 0x10 } true := ⟨rfl, rfl, rfl, rfl⟩
  have hr : ∀ c : Prop, [Decidable c] → (if c then
      ({ as_ := false, cs_ := false, addr := 0x10 } : Pins) else {}).rst_ = true := by
    intro c _
    split_ifs <;> rfl
  exact
    { awake := ⟨rfl, rfl⟩
      noReset := fun t => ⟨hr _, hr _, hr _, hr _, hr _, hr _⟩
      scsi := rfl
      ccpureq := rfl
      nls2cpu := rfl
      offBus := ⟨rfl, .inl rfl, .inl rfl⟩
      bg_ := rfl
      begins := by
        simp only [portRead, if_pos hn]
        exact ⟨hp, hp⟩
      lasts := fun t h0 ht => by
        simp only [portRead, if_pos (And.intro h0 ht)]
        exact ⟨hp, hp, hp, hp⟩
      shown := fun t _ ht => by
        simp only [portRead, if_pos ht]
        exact ⟨hp, hp⟩
      ends := by
        rw [portRead, if_neg (lt_irrefl n)]
        exact ⟨rfl, rfl⟩
      later := fun t ht => by
        have hc : (portRead n t).clk135Fall.cs_ = true := by
          simp only [portRead, if_neg ht.not_gt]
        rw [Access.wdregreq, Access.valid, access, hc]
        rfl }

theorem one_access_iff_portRead :
    OneAccess (scsiWave (fresh true false) (portRead 6)) true ∧
      DsackInCycle (fresh true false) (portRead 6) 6 ↔ 6 ≤ 5 + 3 :=
  one_access_iff (portRead_portCycle (by decide)) (by decide +kernel) (by decide +kernel)
    (by decide)

/-- A read that keeps `AS_` low for four clocks after `_DSACK` is made twice. -/
theorem slow_read_not_one_access :
    ¬ ∀ s q rw n T, PortCycle s q rw n → DrivesDsack s q T → (∀ t < T, ¬ DrivesDsack s q t) →
      T < n → OneAccess (scsiWave s q) rw ∧ DsackInCycle s q n := by
  intro h
  have hd : DrivesDsack (fresh true false) (portRead 9) 5 := by decide +kernel
  have C : PortCycle (fresh true false) (portRead 9) true 9 := portRead_portCycle (by decide)
  exact C.not_one_access hd (by decide) (h _ _ _ _ _ C hd (by decide +kernel) (by decide)).1

end Chip

end Resdmac
