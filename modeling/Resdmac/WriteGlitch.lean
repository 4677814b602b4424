import Resdmac.RegisterFile

/-!
# Register Writes before the Data is Valid

The CPU asserts `AS_` one clock before `DS_`, and its write data is valid only from `DS_`
on. `CONTR_WR` and `ACR_WR` are decoded from `AS_` alone, so the falling edge of CLK90 in
that clock captures whatever is on the bus. The edges that follow put the output right;
between them it may have a value that it had neither before nor after the write.

## Main definitions

- `Registers.Output` — the outputs of the control registers that the rest of the chip reads

## Main results

- `Registers.no_glitch_iff` — a write has no intermediate value iff the bus shows none
- `Registers.flashAddr_no_glitch` — `FLASH_ADDR`, which waits for `DS_`, has none
-/

namespace Resdmac

namespace Registers

open Runs

/-! ## §1 The control outputs -/

/-- The outputs of `CNTR` and `ACR`. -/
inductive Output where
  | preset | intena | dmadir | a1
deriving DecidableEq

namespace Output

/-- The offset of the location that holds the output. -/
def offset : Output → BitVec 8
  | .preset | .intena | .dmadir => 0x08
  | .a1 => 0x0C

/-- The output. -/
def held (r : Registers) : Output → Bool
  | .preset => r.preset
  | .intena => r.intena
  | .dmadir => r.dmadir
  | .a1 => r.a1

/-- The output once the value on the bus is captured. -/
def driven (mid : Longword) : Output → Bool
  | .preset => mid.ll.getLsbD 4
  | .intena => mid.ll.getLsbD 2
  | .dmadir => !mid.ll.getLsbD 1
  | .a1 => mid.uu.getLsbD 1

variable (o : Output)

/-- What an edge captures. -/
def capture (e : Edge) : Option Bool :=
  if e.falling && e.access.wr o.offset then some (o.driven e.mid) else none

/-- The output has its value from before the write of `data`, or the one after it. -/
def Steady (r : Registers) (data : Longword) (r' : Registers) : Prop :=
  o.held r' = o.held r ∨ o.held r' = o.driven data

/-- Unless the DMAC strobes a cycle of its own, an edge changes an output only by capturing
the bus. -/
theorem held_edge {e : Edge} (r : Registers) (he : e.asO_ = true ∨ e.access.acrWr = true) :
    o.held (r.edge e) = (o.capture e).elim (o.held r) id := by
  have hc : ∀ b : Longword → Bool, e.cntr.map b =
      if e.falling && e.access.wr 0x08 then some (b e.mid) else none := fun b => by
    unfold Edge.cntr Access.contrWr
    split_ifs <;> rfl
  cases o with
  | preset =>
      have h : Output.preset.capture e = e.cntr.map (·.ll.getLsbD 4) := (hc (·.ll.getLsbD 4)).symm
      rw [h, Option.elim_map]
      exact edge_preset r e
  | intena =>
      have h : Output.intena.capture e = e.cntr.map (·.ll.getLsbD 2) := (hc (·.ll.getLsbD 2)).symm
      rw [h, Option.elim_map]
      exact edge_intena r e
  | dmadir =>
      have h : Output.dmadir.capture e = e.cntr.map (!·.ll.getLsbD 1) :=
        (hc (!·.ll.getLsbD 1)).symm
      rw [h, Option.elim_map]
      show (!(r.edge e).ndmadir) = _
      rw [edge_ndmadir]
      cases e.cntr <;> rfl
  | a1 =>
      have h : e.a1 = Output.a1.capture e := by
        show e.a1 = if e.falling && e.access.acrWr then some (e.mid.uu.getLsbD 1) else none
        unfold Edge.a1
        rcases he with he | he
        · simp [he]
        · -- the write has priority over a strobe
          cases hf : e.falling <;> simp [he]
      rw [← h]
      exact edge_a1 r e

/-- After a number of edges the output is what they captured last. -/
theorem held_run {es : List Edge} (r : Registers)
    (h : ∀ e ∈ es, e.asO_ = true ∨ e.access.acrWr = true) :
    o.held (run edge r es) = (es.filterMap o.capture).getLast?.elim (o.held r) id := by
  apply run_last (f := fun s => o.held s)
  intro e he s
  exact o.held_edge s (h e he)

end Output

/-! ## §2 Writes of the control registers -/

section Write

variable {r : Registers} {addr : BitVec 5} {data : Longword} {early late after : List Edge}

/-- A write of an output's location captures at each falling edge, and the edges after the
cycle capture nothing. -/
theorem capture_spec {o : Output} (hv : (Event.cycle addr false data early late).Legal)
    (ha : (Event.idle after).Legal) (ho : o.offset = offset addr) :
    (∀ e ∈ early, o.capture e = if e.falling then some (o.driven e.mid) else none) ∧
      (∀ e ∈ late, o.capture e = if e.falling then some (o.driven data) else none) ∧
      ∀ e ∈ after, o.capture e = none := by
  have hw : ∀ e ∈ early ++ late, e.access.wr o.offset = true := fun e he => by
    obtain ⟨hh, hr⟩ := Event.hit_of_cycle hv he o.offset
    rw [Access.wr, hh, hr, ho]
    simp
  refine ⟨fun e he => ?_, fun e he => ?_, fun e he => ?_⟩
  · simp [Output.capture, hw e (List.mem_append_left _ he)]
  · simp [Output.capture, hw e (List.mem_append_right _ he), (hv.2.2.1 e he).2 rfl]
  · simp [Output.capture, Access.wr, Event.hit_of_idle ha he]

/-- **A write of `CNTR` or `ACR` has no intermediate value** in the outputs of the location,
during the cycle and after it, iff the bus shows none at the falling edges before `DS_`. -/
theorem no_glitch_iff (r : Registers) (hv : (Event.cycle addr false data early late).Legal)
    (ha : (Event.idle after).Legal)
    (hs : ∀ e ∈ early ++ late ++ after, e.asO_ = true) :
    (∀ es, es <+: early ++ late ++ after → ∀ o : Output, o.offset = offset addr →
      o.Steady r data (run edge r es)) ↔
    ∀ e ∈ early, e.falling = true → ∀ o : Output, o.offset = offset addr →
      o.driven e.mid = o.held r ∨ o.driven e.mid = o.driven data := by
  constructor
  · intro h e he hf o ho
    -- the run that ends with this edge has captured the bus
    obtain ⟨es, rest, hes⟩ := List.append_of_mem he
    have hp : es ++ [e] <+: early ++ late ++ after := ⟨rest ++ late ++ after, by simp [hes]⟩
    have hc := (capture_spec hv ha ho).1 e he
    rw [hf, if_pos rfl] at hc
    have hr : o.held (run edge r (es ++ [e])) = o.driven e.mid := by
      rw [o.held_run r fun x hx => .inl (hs x (hp.subset hx)), List.filterMap_append]
      simp [hc]
    rw [← hr]
    exact h _ hp o ho
  · intro h es hp o ho
    obtain ⟨h1, h2, h3⟩ := capture_spec hv ha ho
    unfold Output.Steady
    rw [o.held_run r fun x hx => .inl (hs x (hp.subset hx))]
    cases hl : (es.filterMap o.capture).getLast? with
    | none => exact .inl rfl
    | some v =>
        -- the last capture comes from before `DS_`, from after it, or there is none
        obtain ⟨e, he, hc⟩ := List.mem_filterMap.mp (List.mem_of_getLast? hl)
        have hm := hp.subset he
        simp only [List.mem_append] at hm
        rcases hm with (hm | hm) | hm
        · rw [h1 e hm] at hc
          split_ifs at hc with hf
          cases hc
          exact h e hm hf o ho
        · rw [h2 e hm] at hc
          split_ifs at hc with hf
          cases hc
          exact .inr rfl
        · rw [h3 e hm] at hc
          cases hc

end Write

/-- A write cycle to `CNTR` whose bus still carries `stale` in the clock between `AS_` and
`DS_`, and the clocks after it. -/
def early (stale : Longword) : List Edge :=
  clock { cs_ := false, as_ := false, rw := false, addr := 0x02, mid := stale }

def late (data : Longword) : List Edge :=
  (List.replicate 4
    (clock { cs_ := false, as_ := false, ds_ := false, rw := false, addr := 0x02, mid := data })).flatten

theorem no_glitch_iff_clean :
    (Event.cycle 0x02 false { ll := 0x06 } (early {}) (late { ll := 0x06 })).Legal ∧
      ∀ es, es <+: early {} ++ late { ll := 0x06 } ++ clock {} → ∀ o : Output,
        o.offset = offset 0x02 → o.Steady {} { ll := 0x06 } (run edge {} es) := by
  refine ⟨by decide, (no_glitch_iff {} (by decide) (by decide) (by decide)).mpr ?_⟩
  have hm : ∀ e ∈ early {}, e.mid = {} := by decide
  intro e he _ o ho
  rw [hm e he]
  cases o with
  | preset => exact .inl rfl
  | intena => exact .inl rfl
  | dmadir => exact .inl rfl
  | a1 => exact absurd ho (by decide)

/-- `PRESET` is clear before the write of zero and after it, and set for one clock in between:
a pulse of `_IOR` and `_IOW`. -/
theorem preset_glitches :
    (Event.cycle 0x02 false {} (early { ll := 0x10 }) (late {})).Legal ∧
      ¬ ∀ es, es <+: early { ll := 0x10 } ++ late {} ++ clock {} → ∀ o : Output,
        o.offset = offset 0x02 → o.Steady {} {} (run edge {} es) := by
  refine ⟨by decide, fun h => ?_⟩
  have hp := h (early { ll := 0x10 }) ⟨late {} ++ clock {}, rfl⟩ .preset rfl
  revert hp
  unfold Output.Steady
  decide

/-! ## §3 The gated sibling -/

/-- `FLASH_ADDR` waits for `DS_`, so a write of it has no intermediate value. -/
theorem flashAddr_no_glitch (r : Registers) {addr : BitVec 5} {data : Longword}
    {early late : List Edge} (hv : (Event.cycle addr false data early late).Legal)
    {es : List Edge} (hp : es <+: early ++ late) :
    (run edge r es).flashAddr = r.flashAddr ∨
      (run edge r es).flashAddr = { data with uu := 0 } := by
  have hr : (run edge r es).flashAddr =
      (es.filterMap Edge.flashAddr).getLast?.elim r.flashAddr ({ · with uu := 0 }) :=
    run_last fun e _ s => edge_flashAddr s e
  rw [hr]
  cases hl : (es.filterMap Edge.flashAddr).getLast? with
  | none => exact .inl rfl
  | some w =>
      obtain ⟨e, he, hc⟩ := List.mem_filterMap.mp (List.mem_of_getLast? hl)
      unfold Edge.flashAddr at hc
      split_ifs at hc with hf
      cases hc
      rw [Bool.and_eq_true, Bool.not_eq_true'] at hf
      rcases List.mem_append.mp (hp.subset he) with hm | hm
      · -- before `DS_` there is no capture
        rw [hv.2.1 e hm] at hf
        exact Bool.noConfusion hf.2
      · rw [(hv.2.2.1 e hm).2 rfl]
        exact .inr rfl

end Registers

end Resdmac
