import Resdmac.Board
import Resdmac.Library.Pulses
import Resdmac.Progress

/-!
# The WD33C93

On its other side the chip drives the bus of the WD33C93: `_DACK`, `_CSS`, `_IOR` and
`_IOW`. This module gives the waveforms of that bus, and puts a WD33C93 in its data phase
on it, which asks for bytes by `_DREQ`.

## Main definitions

- `Exchange.shape` — the clocks of a byte and of an access of the CPU
- `Wd33c93`, `Rig` — a WD33C93 with bytes to give or to take, and the board with it

## Main results

- `Chip.strobes_paced` — there is nothing else on the bus
- `Rig.handshake` — each byte passes between the two exactly once
- `Rig.read_phase_ends`, `Rig.write_phase_ends` — every byte of a phase passes
-/

namespace Resdmac

open Chip (Period)

/-! ## §1 Waveforms -/

/-- What the bus of the WD33C93 shows in a clock. -/
structure Strobes where
  dack : Bool := false
  css : Bool := false
  ior : Bool := false
  iow : Bool := false
deriving DecidableEq, Repr

/-- `_DACK`, `_CSS`, `_IOR` and `_IOW`, which are active low. -/
def Chip.strobes (s : Chip) : Strobes where
  dack := s.scsi.out.dack
  css := s.scsi.out.scsiCs
  ior := s.regs.preset || s.scsi.out.re
  iow := s.regs.preset || s.scsi.out.we

/-- What the WD33C93 is used for. -/
inductive Exchange where
  | dmaRead | dmaWrite | cpuRead | cpuWrite
deriving DecidableEq, Repr

/-- The clocks of an exchange, with the recovery before the next one. -/
def Exchange.shape : Exchange → List Strobes
  | .dmaRead => List.replicate 2 { dack := true, ior := true } ++ List.replicate 3 {}
  | .dmaWrite => List.replicate 2 { dack := true, iow := true } ++ List.replicate 3 {}
  | .cpuRead => List.replicate 5 { css := true, ior := true } ++ List.replicate 2 {}
  | .cpuWrite => List.replicate 3 { css := true, iow := true } ++ { css := true } ::
      List.replicate 2 {}

namespace ScsiSm

/-- What is left of an exchange in a state. -/
def State.due : State → List Strobes
  | .idleDmaRd | .idleDmaWr | .cpureq => []
  | .s2f1 => Exchange.dmaRead.shape.drop 1
  | .s2f2 => Exchange.dmaRead.shape.drop 2
  | .s2f3 => Exchange.dmaRead.shape.drop 3
  | .s2f4 => Exchange.dmaRead.shape.drop 4
  | .f2s1 => Exchange.dmaWrite.shape.drop 1
  | .f2s2 => Exchange.dmaWrite.shape.drop 2
  | .f2s3 => Exchange.dmaWrite.shape.drop 3
  | .f2s4 => Exchange.dmaWrite.shape.drop 4
  | .s2c1 => Exchange.cpuRead.shape.drop 1
  | .s2c2 => Exchange.cpuRead.shape.drop 2
  | .s2c3 => Exchange.cpuRead.shape.drop 3
  | .s2c4 => Exchange.cpuRead.shape.drop 4
  | .s2c5 => Exchange.cpuRead.shape.drop 5
  | .s2c6 => Exchange.cpuRead.shape.drop 6
  | .c2s1 => Exchange.cpuWrite.shape.drop 1
  | .c2s2 => Exchange.cpuWrite.shape.drop 2
  | .c2s3 => Exchange.cpuWrite.shape.drop 3
  | .c2s4 => Exchange.cpuWrite.shape.drop 4
  | .c2s5 => Exchange.cpuWrite.shape.drop 5

/-- What `SCSI_SM` shows of its outputs. -/
def Out.strobes (o : Out) : Strobes := ⟨o.dack, o.scsiCs, o.re, o.we⟩

section Moves

variable {i : Inputs}

theorem shows_idleDmaRd :
    Pulses.Shows Exchange.shape {} [] (comb i .idleDmaRd).strobes (nextState i .idleDmaRd).due := by
  cases hs : i.startS2f with
  | true =>
      have hn : nextState i .idleDmaRd = .s2f1 := by
        simp only [Inputs.startS2f, Bool.and_eq_true, Bool.not_eq_true'] at hs
        simp [nextState, Inputs.startS2f, Inputs.startDmaWr, hs]
      rw [hn, comb, if_pos hs]
      exact .start .dmaRead rfl
  | false =>
      have hd : (nextState i .idleDmaRd).due = [] := by
        simp only [nextState, hs]
        split <;> first | rfl | contradiction
      rw [hd, comb, if_neg (ne_true_of_eq_false hs)]
      exact .idle

theorem shows_idleDmaWr :
    Pulses.Shows Exchange.shape {} [] (comb i .idleDmaWr).strobes (nextState i .idleDmaWr).due := by
  cases hs : i.startF2s with
  | true =>
      have hn : nextState i .idleDmaWr = .f2s1 := by
        simp only [Inputs.startF2s, Bool.and_eq_true, Bool.not_eq_true'] at hs
        simp [nextState, Inputs.startF2s, Inputs.startDmaRd, hs]
      rw [hn, comb, if_pos hs]
      exact .start .dmaWrite rfl
  | false =>
      have hd : (nextState i .idleDmaWr).due = [] := by
        simp only [nextState, hs]
        split <;> first | rfl | contradiction
      rw [hd, comb, if_neg (ne_true_of_eq_false hs)]
      exact .idle

theorem shows_cpureq :
    Pulses.Shows Exchange.shape {} [] (comb i .cpureq).strobes (nextState i .cpureq).due := by
  rw [comb, nextState]
  split_ifs
  · exact .start .cpuRead rfl
  · exact .start .cpuWrite rfl

/-- An access is over when `CDSACK_` is high again. -/
theorem shows_parked {st : State} (h : st.parked = true) :
    Pulses.Shows Exchange.shape {} st.due (comb i st).strobes (nextState i st).due := by
  cases st <;> first | exact Bool.noConfusion h | rw [nextState]
  all_goals
    split_ifs
    · exact .next _ _
    · exact .linger

end Moves

/-- A step shows the next clock of the exchange in progress, or begins one. -/
theorem shows_step (i : Inputs) (st : State) :
    Pulses.Shows Exchange.shape {} st.due (comb i st).strobes (nextState i st).due := by
  cases st with
  | idleDmaRd => exact shows_idleDmaRd
  | idleDmaWr => exact shows_idleDmaWr
  | cpureq => exact shows_cpureq
  | c2s5 => exact shows_parked rfl
  | s2c6 => exact shows_parked rfl
  | _ => exact .next _ _

end ScsiSm

namespace Chip

/-- A period out of reset, after which `PRESET` is clear. -/
def Period.Unpreset (s : Chip) (q : Period) : Prop :=
  q.NoReset ∧ (s.period q).regs.preset = false

instance (s : Chip) (q : Period) : Decidable (Period.Unpreset s q) :=
  inferInstanceAs (Decidable (_ ∧ _))

/-- Whatever the pins do, the bus of the WD33C93 is at rest but for whole exchanges, one after
the other: strobes of full width, one at a time, and the recovery after each of them. -/
theorem strobes_paced {s : Chip} (hs : s.Awake) (hi : s.scsi.state.due = []) {qs : List Period}
    (hqs : Runs.Along period Period.Unpreset s qs) :
    Pulses.Paced Exchange.shape {}
      (Pulses.shown period strobes s qs ++ (Runs.run period s qs).scsi.state.due) := by
  have hrun := @Pulses.paced_run _ _ Exchange.shape {} _ _ period strobes
    (fun s => s.scsi.state.due) Awake Period.Unpreset
    (fun s q hs hq => by
      have h : Live s q := ⟨hs, hq.1⟩
      have e : (s.period q).strobes = (ScsiSm.comb (s.scsiIn q) s.scsi.state).strobes := by
        rw [strobes, hq.2, period_scsi_out h]
        rfl
      rw [e, period_scsi_state h]
      exact ⟨period_awake h, ScsiSm.shows_step _ _⟩)
    s qs hs hqs []
  exact hrun (by rw [hi]; exact .nil)

/-- The CPU reads the WD33C93 while it asks for bytes. -/
theorem strobes_paced_fresh :
    Pulses.Paced Exchange.shape {}
      (Pulses.shown period strobes (fresh false false)
          (List.replicate 30 (.steady { dreq_ := false, as_ := false, cs_ := false, addr := 0x10 })) ++
        (Runs.run period (fresh false false) (List.replicate 30
          (.steady { dreq_ := false, as_ := false, cs_ := false, addr := 0x10 }))).scsi.state.due) :=
  strobes_paced ⟨rfl, rfl⟩ rfl (by decide +kernel)

end Chip

/-! ## §2 The data phase -/

/-- The WD33C93 in the data phase of a command. -/
structure Wd33c93 where
  /-- The bytes that it has for the host. -/
  offers : List Byte := []
  /-- How many bytes it still wants from the host. -/
  wants : ℕ := 0
  /-- The bytes that it got. -/
  got : List Byte := []

namespace Wd33c93

/-- The WD33C93 after a period: each strobe under `_DACK` moves a byte. -/
def step (w : Wd33c93) (s : Chip) (q : Period) : Wd33c93 where
  offers := w.offers.drop (s.taken q).length
  wants := w.wants - (s.given q).length
  got := w.got ++ s.given q

/-- It has something to do in the direction. -/
def Busy (w : Wd33c93) (dmadir : Bool) : Prop :=
  if dmadir then w.offers ≠ [] else 0 < w.wants

instance (w : Wd33c93) (d : Bool) : Decidable (w.Busy d) := inferInstanceAs (Decidable (ite _ _ _))

/-- A period in which the WD33C93 puts the next byte on `PD_PORT` under the strobe that reads
it, and asks only while it has something to do. -/
structure Serves (w : Wd33c93) (s : Chip) (q : Period) : Prop where
  shows : s.scsi.lbyte_ = false → ∀ b ∈ w.offers.head?, q.clk90Rise.pd = b
  asks : q.clk135Fall.dreq_ = false → (w.step s q).Busy (s.period q).regs.dmadir

instance (w : Wd33c93) (s : Chip) (q : Period) : Decidable (w.Serves s q) :=
  decidable_of_iff
    ((s.scsi.lbyte_ = false → ∀ b ∈ w.offers.head?, q.clk90Rise.pd = b) ∧
      (q.clk135Fall.dreq_ = false → (w.step s q).Busy (s.period q).regs.dmadir))
    ⟨fun ⟨h1, h2⟩ => ⟨h1, h2⟩, fun ⟨h1, h2⟩ => ⟨h1, h2⟩⟩

/-- The request that `SCSI_SM` has sampled, and the byte it is at, are backed by the WD33C93. -/
structure Backs (w : Wd33c93) (s : Chip) : Prop where
  awake : s.Awake
  strobed : Chip.Strobed s
  armed : s.giving = (s.scsi.state == .f2s1 || s.scsi.state == .f2s2)
  sampled : s.scsi.inp.cdreq_ = false → w.Busy s.regs.dmadir
  taking : s.scsi.lbyte_ = false → w.offers ≠ []
  giving : s.giving = true → 0 < w.wants

section Step

variable {w : Wd33c93} {s : Chip} {q : Period} (hb : w.Backs s) (hn : q.NoReset)
  (hq : w.Serves s q)
include hb hn

theorem Backs.taken_eq :
    s.taken q = if s.scsi.state = .s2f2 then [q.clk90Rise.pd] else [] := by
  have h : Chip.Live s q := ⟨hb.awake, hn⟩
  rw [Chip.taken_eq h, hb.strobed.lbyte, (Chip.period_strobed h).lbyte, Chip.period_scsi_state h]
  cases s.scsi.state <;> rfl

theorem Backs.given_length : (s.given q).length = if s.scsi.state = .f2s2 then 1 else 0 := by
  have h : Chip.Live s q := ⟨hb.awake, hn⟩
  have e : (s.period q).giving = _ := (congrArg (fun o : ScsiSm.Out => o.dack && o.we)
    (Chip.period_scsi_out h)).trans ScsiSm.dack_we_eq
  rw [Chip.given_eq h, hb.armed, e]
  cases s.scsi.state <;> rfl

include hq

/-- A byte that is taken is the next one offered, and a byte is given only where it is wanted. -/
theorem Backs.moves :
    w.offers = s.taken q ++ (w.step s q).offers ∧
      w.wants = (s.given q).length + (w.step s q).wants := by
  constructor
  · have e : (w.step s q).offers = w.offers.drop (s.taken q).length := rfl
    rw [e, hb.taken_eq hn]
    -- a byte is latched at the end of `s2f2`, and it is the one that is shown
    split_ifs with h2
    · have hl : s.scsi.lbyte_ = false := by
        rw [hb.strobed.lbyte, h2]
        rfl
      obtain ⟨b, bs, ho⟩ := List.exists_cons_of_ne_nil (hb.taking hl)
      have hpd := hq.shows hl b (by rw [ho]; rfl)
      rw [ho, hpd]
      rfl
    · rfl
  · have e : (w.step s q).wants = w.wants - (s.given q).length := rfl
    rw [e, hb.given_length hn]
    -- and one is given with `f2s2`
    split_ifs with h2
    · have hg := hb.giving (by rw [hb.armed, h2]; rfl)
      omega
    · omega

theorem Backs.step : (w.step s q).Backs (s.period q) := by
  have h : Chip.Live s q := ⟨hb.awake, hn⟩
  have hst := Chip.period_scsi_state h
  have ei := Chip.scsiIn_eq h
  have earmed : (s.period q).giving = _ := (congrArg (fun o : ScsiSm.Out => o.dack && o.we)
    (Chip.period_scsi_out h)).trans ScsiSm.dack_we_eq
  have eo : (w.step s q).offers = w.offers.drop (s.taken q).length := rfl
  have ew : (w.step s q).wants = w.wants - (s.given q).length := rfl
  have hbusy := hb.sampled
  refine ⟨Chip.period_awake h, Chip.period_strobed h, by rw [earmed, hst], fun hd => ?_,
    fun hl => ?_, fun hg => ?_⟩
  · rw [Chip.period_scsi_inp h] at hd
    exact hq.asks (Bool.or_eq_false_iff.mp hd).2
  · -- the byte that is begun or goes on is the one that was asked for
    rw [(Chip.period_strobed h).lbyte, hst, Bool.not_eq_false', Bool.or_eq_true, beq_iff_eq,
      beq_iff_eq] at hl
    have htaking : (ScsiSm.nextState (s.scsiIn q) s.scsi.state).taking = true := by
      rcases hl with e | e <;> rw [e] <;> rfl
    have hne : s.scsi.state ≠ .s2f2 := fun e => by
      rw [e] at hl
      rcases hl with e | e <;> exact ScsiSm.State.noConfusion e
    rw [eo, hb.taken_eq hn, if_neg hne, List.length_nil, List.drop_zero]
    rcases ScsiSm.nextState_taking htaking with e | e | ⟨-, hi⟩
    · exact hb.taking (by rw [hb.strobed.lbyte, e]; rfl)
    · exact absurd e hne
    · rw [ei] at hi
      simp only [ScsiSm.Inputs.startS2f, Bool.and_eq_true, Bool.not_eq_true'] at hi
      have hb' := hbusy hi.1.1.1.1
      rwa [Busy, if_pos hi.1.1.2] at hb'
  · rw [earmed, Bool.or_eq_true, beq_iff_eq, beq_iff_eq] at hg
    have hgiving : (ScsiSm.nextState (s.scsiIn q) s.scsi.state).giving = true := by
      rcases hg with e | e <;> rw [e] <;> rfl
    have hne : s.scsi.state ≠ .f2s2 := fun e => by
      rw [e] at hg
      rcases hg with e | e <;> exact ScsiSm.State.noConfusion e
    rw [ew, hb.given_length hn, if_neg hne, Nat.sub_zero]
    rcases ScsiSm.nextState_giving hgiving with e | e | ⟨-, hi⟩
    · exact hb.giving (by rw [hb.armed, e]; rfl)
    · exact absurd e hne
    · rw [ei] at hi
      simp only [ScsiSm.Inputs.startF2s, Bool.and_eq_true, Bool.not_eq_true'] at hi
      have hb' := hbusy hi.1.1.1.1
      rwa [Busy, hi.1.1.2, if_neg Bool.false_ne_true] at hb'

end Step

end Wd33c93

/-- The board with its WD33C93. -/
structure Rig where
  board : Board
  wd : Wd33c93

namespace Rig

def chip (r : Rig) : Chip := r.board.sys.chip

/-- The board and the WD33C93 after a period. -/
def step (r : Rig) (q : Period) : Rig := ⟨r.board.step q, r.wd.step r.chip q⟩

/-- What passed `PD_PORT` since a moment, against what the WD33C93 had to do then. -/
structure Moved (r₀ r : Rig) (ts gs : List Byte) : Prop where
  taken : r.board.sys.taken = r₀.board.sys.taken ++ ts
  offers : r₀.wd.offers = ts ++ r.wd.offers
  given : r.board.sys.given = r₀.board.sys.given ++ gs
  got : r.wd.got = r₀.wd.got ++ gs
  wants : r₀.wd.wants = gs.length + r.wd.wants

theorem Moved.step {r₀ r : Rig} {ts gs : List Byte} {q : Period} (hm : Moved r₀ r ts gs)
    (hb : r.wd.Backs r.chip) (hn : q.NoReset) (hq : r.wd.Serves r.chip q) :
    Moved r₀ (r.step q) (ts ++ r.chip.taken q) (gs ++ r.chip.given q) := by
  obtain ⟨ho, hw⟩ := hb.moves hn hq
  exact
    { taken := by
        rw [← List.append_assoc, ← hm.taken]
        rfl
      offers := by
        rw [hm.offers, List.append_assoc]
        exact congrArg (ts ++ ·) ho
      given := by
        rw [← List.append_assoc, ← hm.given]
        rfl
      got := by
        rw [← List.append_assoc, ← hm.got]
        rfl
      wants := by
        rw [hm.wants, List.length_append, Nat.add_assoc]
        exact congrArg (gs.length + ·) hw }

/-- With a WD33C93 that asks only for what it can do in the direction that `DMADIR` selects,
and any pins beside it: the bytes that it offers are taken once each and in order, none is
taken that it does not have, and it gets no byte that it does not want. -/
theorem handshake {r : Rig} (hr : r.wd.Backs r.chip) {qs : List Period}
    (hqs : Runs.Along step (fun r q => q.NoReset ∧ r.wd.Serves r.chip q) r qs) :
    ∃ ts gs, Moved r (Runs.run step r qs) ts gs := by
  have hrun := Runs.invariant_run
    (I := fun t => t.wd.Backs t.chip ∧ ∃ ts gs, Moved r t ts gs)
    (fun t q ⟨hb, ts, gs, hm⟩ hq =>
      ⟨hb.step hq.1 hq.2, _, _, hm.step hb hq.1 hq.2⟩)
    ⟨hr, [], [], by constructor <;> simp⟩ hqs
  exact hrun.2

/-- A rig after reset, with what the WD33C93 has to do. -/
def fresh (ndmadir a1 : Bool) (acr : Address) (w : Wd33c93) : Rig :=
  ⟨⟨System.fresh ndmadir a1, acr, fun _ => 0⟩, w⟩

theorem fresh_backs (ndmadir a1 : Bool) (acr : Address) (w : Wd33c93) :
    w.Backs (fresh ndmadir a1 acr w).chip where
  awake := ⟨rfl, rfl⟩
  strobed := ⟨rfl, nofun⟩
  armed := rfl
  sampled := nofun
  taking := nofun
  giving := nofun

/-- Three bytes are offered and a fourth one never comes. -/
theorem handshake_fresh :
    let r := fresh false false 0x1000 { offers := [0xA5, 0xA5, 0xA5] }
    let qs : List Period := List.replicate 12 (.steady { dreq_ := false, pd := 0xA5 }) ++
      List.replicate 12 (.steady { pd := 0xA5 })
    ∃ ts gs, Moved r (Runs.run step r qs) ts gs :=
  handshake (fresh_backs ..) (by decide +kernel)

/-! ## §3 The data phase ends -/

section Ends

variable {r : Rig} {q : ℕ → Period}

theorem states_sys (n : ℕ) :
    (Runs.states step r q n).board.sys = Runs.states System.step r.board.sys q n :=
  @Runs.states_map _ _ step r q _ System.step (fun r => r.board.sys) (fun _ _ => rfl) n

/-- Again and again, while it has something to do, the WD33C93 asks until it gets its `DACK`. -/
def Eager (r : Rig) (q : ℕ → Period) : Prop :=
  ∀ m, ∃ k, m ≤ k ∧ (Runs.states step r q k).chip.scsi.out.dack = false ∧
    ∀ n, k ≤ n →
      (∀ j, k ≤ j → j ≤ n → (Runs.states step r q j).chip.scsi.out.dack = false) →
        (Runs.states step r q n).wd.Busy (Runs.states step r q n).chip.regs.dmadir →
          System.Asks (Runs.states step r q n).board.sys (q n)

/-- With something to do for ever, the WD33C93 asks for ever. -/
theorem Eager.demanding (he : Eager r q)
    (hbusy : ∀ n, (Runs.states step r q n).wd.Busy (Runs.states step r q n).chip.regs.dmadir) :
    System.Demanding r.board.sys q := by
  intro m
  obtain ⟨k, hk, hd, hask⟩ := he m
  have hdack : ∀ n, (Runs.states step r q n).chip.scsi.out.dack =
      (Runs.states System.step r.board.sys q n).chip.scsi.out.dack := fun n => by
    rw [← states_sys]
    rfl
  refine ⟨k, hk, (hdack k).symm.trans hd, fun n hn hno => ?_⟩
  rw [← states_sys]
  exact hask n hn (fun j h1 h2 => (hdack j).trans (hno j h1 h2)) (hbusy n)

/-- What was moved up to a moment of an infinite run. -/
theorem moved_states (hb : r.wd.Backs r.chip) (hn : ∀ n, (q n).NoReset)
    (hq : ∀ n, (Runs.states step r q n).wd.Serves (Runs.states step r q n).chip (q n)) (n : ℕ) :
    ∃ ts gs, Moved r (Runs.states step r q n) ts gs := by
  have h := @Runs.states_from _ _ step
    (fun t => t.wd.Backs t.chip ∧ ∃ ts gs, Moved r t ts gs) r q 0
    ⟨hb, [], [], by constructor <;> simp⟩
    (fun n _ ⟨hb, ts, gs, hm⟩ =>
      ⟨hb.step (hn n) (hq n), _, _, hm.step hb (hn n) (hq n)⟩) n (Nat.zero_le n)
  exact h.2

/-- In a session to memory every byte that the WD33C93 offers is taken in the end. -/
theorem read_phase_ends (hx : System.Start r.board.sys) (hd : r.chip.regs.ndmadir = false)
    (hb : r.wd.Backs r.chip)
    (hq : ∀ n, System.Streaming (Runs.states step r q n).board.sys (q n) ∧
      (Runs.states step r q n).wd.Serves (Runs.states step r q n).chip (q n))
    (hans : System.Answering r.board.sys q) (hgr : System.Granting r.board.sys q)
    (he : Eager r q) : ∃ n, (Runs.states step r q n).wd.offers = [] := by
  -- else the WD33C93 is busy for ever, and more bytes are taken than it had
  by_contra hno
  have hs : ∀ n, System.Streaming (Runs.states System.step r.board.sys q n) (q n) := fun n => by
    rw [← states_sys]
    exact (hq n).1
  have hdir : ∀ n, (Runs.states step r q n).chip.regs.dmadir = true := fun n => by
    have hD := (System.draining_states hx hd hs n).1.reading.ndmadir
    rw [← states_sys] at hD
    exact congrArg (! ·) hD
  have hbusy : ∀ n, (Runs.states step r q n).wd.Busy (Runs.states step r q n).chip.regs.dmadir :=
    fun n => by
      rw [Wd33c93.Busy, hdir, if_pos rfl]
      exact fun e => hno ⟨n, e⟩
  obtain ⟨n, hn⟩ := @Runs.unbounded_of_again
    (fun n => (Runs.states System.step r.board.sys q n).taken.length)
    (System.takes_again hx hd hs hans hgr (he.demanding hbusy)) (r.wd.offers.length + 1)
  obtain ⟨ts, gs, hm⟩ := moved_states hb (fun n => (hq n).1.1.noReset) (fun n => (hq n).2) n
  have h1 := congrArg List.length hm.taken
  have h2 := congrArg List.length hm.offers
  rw [states_sys, hx.taken] at h1
  rw [List.length_append] at h1 h2
  rw [List.length_nil] at h1
  change r.wd.offers.length + 1 ≤ (Runs.states System.step r.board.sys q n).taken.length at hn
  omega

/-- In a session from memory the WD33C93 gets every byte that it wants in the end. -/
theorem write_phase_ends (hx : System.Start r.board.sys) (hd : r.chip.regs.ndmadir = true)
    (hb : r.wd.Backs r.chip)
    (hq : ∀ n, (System.Supplying (Runs.states step r q n).board.sys (q n) ∧
      System.RepeatsByDsack (Runs.states step r q n).board.sys (q n)) ∧
      (Runs.states step r q n).wd.Serves (Runs.states step r q n).chip (q n))
    (hans : System.Answering r.board.sys q) (hgr : System.Granting r.board.sys q)
    (he : Eager r q) : ∃ n, (Runs.states step r q n).wd.wants = 0 := by
  -- else the WD33C93 is busy for ever, and it is given more bytes than it wants
  by_contra hno
  have hs : ∀ n, System.Supplying (Runs.states System.step r.board.sys q n) (q n) ∧
      System.RepeatsByDsack (Runs.states System.step r.board.sys q n) (q n) := fun n => by
    rw [← states_sys]
    exact (hq n).1
  have hdir : ∀ n, (Runs.states step r q n).chip.regs.dmadir = false := fun n => by
    have hL := (System.loading_states hx hd (fun n => (hs n).1) n).filling.writing.ndmadir
    rw [← states_sys] at hL
    exact congrArg (! ·) hL
  have hbusy : ∀ n, (Runs.states step r q n).wd.Busy (Runs.states step r q n).chip.regs.dmadir :=
    fun n => by
      rw [Wd33c93.Busy, hdir, if_neg Bool.false_ne_true]
      exact Nat.pos_of_ne_zero fun e => hno ⟨n, e⟩
  obtain ⟨n, hn⟩ := @Runs.unbounded_of_again
    (fun n => (Runs.states System.step r.board.sys q n).given.length)
    (System.gives_again hx hd hs hans hgr (he.demanding hbusy)) (r.wd.wants + 1)
  obtain ⟨ts, gs, hm⟩ := moved_states hb (fun n => (hq n).1.1.1.noReset) (fun n => (hq n).2) n
  have h1 := congrArg List.length hm.given
  have h2 := hm.wants
  rw [states_sys, hx.given, List.length_append, List.length_nil] at h1
  change r.wd.wants + 1 ≤ (Runs.states System.step r.board.sys q n).given.length at hn
  omega

end Ends

/-! ### Surroundings that never wait -/

/-- What the WD33C93 has to do behind the byte that is on the port. -/
def left (r : Rig) : ℕ :=
  if r.chip.regs.dmadir then r.wd.offers.length - (r.chip.scsi.state == .s2f2).toNat
  else r.wd.wants - (r.chip.scsi.state == .f2s2).toNat

/-- The WD33C93 asks until the last byte is on the port. -/
def obliging (r : Rig) : Period :=
  System.obliging (r.left == 0) (r.wd.offers.headD 0) r.board.sys

/-- What these surroundings keep up. -/
structure Willing (r : Rig) : Prop where
  obliged : System.Obliged r.board.sys
  backs : r.wd.Backs r.chip
  dack : r.chip.scsi.out.dack = r.chip.scsi.state.acking

section Willing

variable {r : Rig} (hr : Willing r)
include hr

theorem Willing.serves : r.wd.Serves r.chip r.obliging where
  shows := fun _ b hb => by
    change r.wd.offers.headD 0 = b
    rw [List.headD_eq_head?_getD, hb]
    rfl
  asks := fun hd => by
    have hq : System.BusRules r.board.sys r.obliging := hr.obliged.rules
    have h := hr.obliged.coupled.live hq
    have hdir : (r.chip.period r.obliging).regs.dmadir = r.chip.regs.dmadir :=
      congrArg (! ·) (Chip.session_ndmadir h hr.obliged.session.1)
    -- it asks on as long as something is left after the byte under way
    have hleft : r.left ≠ 0 := beq_eq_false_iff_ne.mp hd
    rw [hdir, Wd33c93.Busy]
    rw [left] at hleft
    have ho : (r.wd.step r.chip r.obliging).offers =
        r.wd.offers.drop (r.chip.taken r.obliging).length := rfl
    have hw : (r.wd.step r.chip r.obliging).wants =
        r.wd.wants - (r.chip.given r.obliging).length := rfl
    split_ifs at hleft ⊢
    · rw [ho, hr.backs.taken_eq hq.noReset]
      refine fun e => hleft ?_
      have e' := congrArg List.length e
      rw [List.length_drop] at e'
      split_ifs at e' with h2
      · rw [h2]
        exact e'
      · rw [beq_eq_false_iff_ne.mpr h2]
        exact e'
    · rw [hw, hr.backs.given_length hq.noReset]
      refine Nat.pos_of_ne_zero ?_
      split_ifs with h2
      · rwa [h2] at hleft
      · rwa [beq_eq_false_iff_ne.mpr h2] at hleft

theorem Willing.step : Willing (r.step r.obliging) where
  obliged := hr.obliged.step
  backs := hr.backs.step (show System.BusRules r.board.sys r.obliging from hr.obliged.rules).noReset
    hr.serves
  dack := by
    have hq : System.BusRules r.board.sys r.obliging := hr.obliged.rules
    have h := hr.obliged.coupled.live hq
    have e1 : (r.step r.obliging).chip.scsi.out = _ := Chip.period_scsi_out h
    have e2 : (r.step r.obliging).chip.scsi.state = _ := Chip.period_scsi_state h
    rw [e1, e2]
    exact ScsiSm.dack_eq

/-- Without `DACK` it asks as long as it has something to do. -/
theorem Willing.asks (hd : r.chip.scsi.out.dack = false) (hb : r.wd.Busy r.chip.regs.dmadir) :
    System.Asks r.board.sys r.obliging := by
  have hne : r.chip.scsi.state ≠ .s2f2 ∧ r.chip.scsi.state ≠ .f2s2 := by
    rw [hr.dack] at hd
    constructor <;> intro e <;> rw [e] at hd <;> exact Bool.noConfusion hd
  have hl : (r.left == 0) = false := by
    rw [beq_eq_false_iff_ne, left]
    rw [Wd33c93.Busy] at hb
    split_ifs at hb ⊢
    · rw [beq_eq_false_iff_ne.mpr hne.1, Bool.toNat_false, Nat.sub_zero]
      exact fun e => hb (List.eq_nil_of_length_eq_zero e)
    · rw [beq_eq_false_iff_ne.mpr hne.2, Bool.toNat_false, Nat.sub_zero]
      omega
  exact ⟨⟨hl, hl⟩, by rw [hr.obliged.cycle]; rfl⟩

end Willing

/-- The run in these surroundings. -/
def obliged (r : Rig) (n : ℕ) : Period := obliging (Runs.driven step obliging r n)

theorem Willing.states {r : Rig} (hr : Willing r) (n : ℕ) :
    Willing (Runs.states Rig.step r r.obliged n) ∧
      r.obliged n = obliging (Runs.states Rig.step r r.obliged n) := by
  have e : Runs.states Rig.step r r.obliged n = Runs.driven Rig.step obliging r n :=
    Runs.states_driven n
  rw [e]
  exact ⟨Runs.driven_from hr (fun _ h => h.step) n, rfl⟩

theorem Willing.environment {r : Rig} (hr : Willing r) :
    System.Answering r.board.sys r.obliged ∧ System.Granting r.board.sys r.obliged ∧
      Eager r r.obliged := by
  obtain ⟨h1, h2⟩ := System.Obliged.environment (x := r.board.sys) (q := r.obliged) fun n => by
    obtain ⟨hw, e⟩ := hr.states n
    rw [← states_sys]
    exact ⟨hw.obliged, _, _, e⟩
  refine ⟨h1, h2, fun m => ?_⟩
  obtain ⟨k, hk, hd⟩ := System.exists_not_dack (x := r.board.sys) (q := r.obliged)
    (fun n => by
      obtain ⟨hw, e⟩ := hr.states n
      rw [← states_sys, e]
      exact hw.obliged.coupled.live hw.obliged.rules) m
  rw [← states_sys] at hd
  refine ⟨k, hk, hd, fun n hn hno hb => ?_⟩
  obtain ⟨hw, e⟩ := hr.states n
  rw [e]
  exact hw.asks (hno n hn (le_refl n)) hb

theorem fresh_willing (ndmadir a1 : Bool) (acr : Address) (w : Wd33c93) :
    Willing (fresh ndmadir a1 acr w) :=
  ⟨System.fresh_obliged ndmadir a1, fresh_backs ndmadir a1 acr w, rfl⟩

/-- A block of 512 bytes is taken. -/
theorem read_phase_ends_fresh :
    let r := fresh false false 0x1000 { offers := List.replicate 512 0xA5 }
    ∃ n, (Runs.states step r r.obliged n).wd.offers = [] :=
  have hr := fresh_willing false false 0x1000 { offers := List.replicate 512 0xA5 }
  have he := hr.environment
  read_phase_ends (System.fresh_start false false) rfl hr.backs
    (fun n => by
      obtain ⟨hw, e⟩ := hr.states n
      rw [e]
      exact ⟨⟨hw.obliged.rules, hw.obliged.session⟩, hw.serves⟩)
    he.1 he.2.1 he.2.2

theorem write_phase_ends_fresh :
    let r := fresh true false 0x1000 { wants := 512 }
    ∃ n, (Runs.states step r r.obliged n).wd.wants = 0 :=
  have hr := fresh_willing true false 0x1000 { wants := 512 }
  have he := hr.environment
  write_phase_ends (System.fresh_start true false) rfl hr.backs
    (fun n => by
      obtain ⟨hw, e⟩ := hr.states n
      rw [e]
      exact ⟨hw.obliged.supplying, hw.serves⟩)
    he.1 he.2.1 he.2.2

end Rig

end Resdmac
