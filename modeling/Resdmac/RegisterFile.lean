import Resdmac.Library.Runs
import Resdmac.Registers

/-!
# The Programming Model of the Register File

`RTL/Registers/registers.v` between bus cycles. A cycle of the CPU holds `_CS`, the
address and `R_W` while `AS_` is low, over any number of edges of CLK90; `STOPFLUSH`,
the strobes of the DMAC and the flags of the FIFO come at any of them.

The registers capture on every falling edge at which the location is decoded, so what
survives a cycle is what the last of these edges saw. For the programmer a location
holds the last value written to it, and an action is the last one strobed.

## Main definitions

- `Registers.Event` — a cycle of the CPU, or edges without one
- `Registers.Model` — what the programmer knows of the register file
- `Registers.Model.after` — the same after a history of events

## Main results

- `Registers.refines_model` — the register file refines its programming model
-/

namespace Resdmac

namespace Registers

open Runs

/-! ## §1 Edges of CLK90 -/

/-- The inputs of module `registers` at an edge of CLK90. -/
structure Edge where
  /-- the edge is a rising one -/
  rising : Bool := false
  cs_ : Bool := true
  as_ : Bool := true
  ds_ : Bool := true
  rw : Bool := true
  addr : BitVec 5 := 0
  mid : Longword := {}
  stopflush : Bool := false
  asO_ : Bool := true
  inta : Bool := false
  fifoempty : Bool := false
  fifofull : Bool := false
  dspData : Byte := 0

/-- The byte offset of a longword of the register file. -/
def offset (addr : BitVec 5) : BitVec 8 := 0#1 ++ addr ++ 0#2

namespace Edge

/-- What the address decoder sees. -/
def access (e : Edge) : Access := ⟨offset e.addr, e.cs_, e.as_, e.rw⟩

/-- The edge that clocks the registers. -/
def falling (e : Edge) : Bool := !e.rising

end Edge

/-- An edge of CLK90 out of reset. -/
def edge (r : Registers) (e : Edge) : Registers :=
  if e.rising then (r.settle true e.as_).clk90Rise e.access true e.dspData
  else
    (r.settle true e.as_).clk90Fall e.access true e.mid e.ds_ e.stopflush e.asO_ e.inta
      e.fifoempty e.fifofull

/-! ## §2 What an edge captures -/

namespace Edge

variable (e : Edge)

/-- The value of `MID` that goes into the control register. -/
def cntr : Option Longword := if e.falling && e.access.contrWr then some e.mid else none

def dmaena : Option Bool :=
  if e.falling && e.access.stDma then some true
  else if e.falling && e.access.spDma then some false
  else none

def flushfifo : Option Bool :=
  if e.falling && e.access.flush then some true
  else if e.falling && e.stopflush then some false
  else none

def a1 : Option Bool :=
  if e.falling && e.access.acrWr then some (e.mid.uu.getLsbD 1)
  else if e.falling && !e.asO_ then some false
  else none

def sspbdat : Option Longword := if e.falling && e.access.sspbdatWr then some e.mid else none

def flashAddr : Option Longword :=
  if e.falling && e.access.flashAddrWr && !e.ds_ then some e.mid else none

end Edge

section Captures

variable (r : Registers) (e : Edge)

theorem edge_ndmadir : (r.edge e).ndmadir = e.cntr.elim r.ndmadir (·.ll.getLsbD 1) := by
  unfold edge Edge.cntr Edge.falling
  cases e.rising
  · simp only [Bool.false_eq_true, if_false, clk90Fall_ndmadir]
    cases e.access.contrWr <;> rfl
  · rfl

theorem edge_intena : (r.edge e).intena = e.cntr.elim r.intena (·.ll.getLsbD 2) := by
  unfold edge Edge.cntr Edge.falling
  cases e.rising
  · simp only [Bool.false_eq_true, if_false, clk90Fall_intena]
    cases e.access.contrWr <;> rfl
  · rfl

theorem edge_preset : (r.edge e).preset = e.cntr.elim r.preset (·.ll.getLsbD 4) := by
  unfold edge Edge.cntr Edge.falling
  cases e.rising
  · simp only [Bool.false_eq_true, if_false, clk90Fall_preset]
    cases e.access.contrWr <;> rfl
  · rfl

theorem edge_dmaena : (r.edge e).dmaena = e.dmaena.elim r.dmaena id := by
  unfold edge Edge.dmaena Edge.falling
  cases e.rising
  · simp only [Bool.false_eq_true, if_false, clk90Fall_dmaena]
    cases hc : e.access.contrWr with
    | false => cases e.access.stDma <;> cases e.access.spDma <;> rfl
    | true =>
        -- a write of `CNTR` is decoded at no other location
        have hh : e.access.hit 0x08 = true := (Bool.and_eq_true_iff.mp hc).1
        have hs : e.access.stDma = false := Access.hit_unique hh (by decide)
        have hp : e.access.spDma = false := Access.hit_unique hh (by decide)
        rw [hs, hp]
        rfl
  · rfl

theorem edge_flushfifo : (r.edge e).flushfifo = e.flushfifo.elim r.flushfifo id := by
  unfold edge Edge.flushfifo Edge.falling
  cases e.rising
  · simp only [Bool.false_eq_true, if_false, clk90Fall_flushfifo]
    cases e.access.flush <;> cases e.stopflush <;> rfl
  · rfl

theorem edge_a1 : (r.edge e).a1 = e.a1.elim r.a1 id := by
  unfold edge Edge.a1 Edge.falling
  cases e.rising
  · simp only [Bool.false_eq_true, if_false, clk90Fall_a1]
    cases e.access.acrWr <;> cases e.asO_ <;> rfl
  · rfl

theorem edge_sspbdat : (r.edge e).sspbdat = e.sspbdat.elim r.sspbdat id := by
  unfold edge Edge.sspbdat Edge.falling
  cases e.rising
  · simp only [Bool.false_eq_true, if_false, clk90Fall_sspbdat]
    cases e.access.sspbdatWr <;> rfl
  · rfl

theorem edge_flashAddr :
    (r.edge e).flashAddr = e.flashAddr.elim r.flashAddr ({ · with uu := 0 }) := by
  unfold edge Edge.flashAddr Edge.falling
  cases e.rising
  · simp only [Bool.false_eq_true, if_false, clk90Fall_flashAddr]
    cases e.access.flashAddrWr <;> cases e.ds_ <;> rfl
  · rfl

end Captures

/-! ## §3 Events -/

/-- What happens on the bus between two points at which the programmer looks. -/
inductive Event where
  /-- edges at which the register file is not addressed -/
  | idle (edges : List Edge)
  /-- a cycle of the CPU: the edges up to `DS_` going low, and the edges from there to the
  end of the cycle, over which a write drives `data` -/
  | cycle (addr : BitVec 5) (rw : Bool) (data : Longword) (early late : List Edge)

namespace Event

/-- The edges of CLK90 during the event. -/
def edges : Event → List Edge
  | .idle es => es
  | .cycle _ _ _ early late => early ++ late

/-- At no edge of an idle event the register file is addressed. A cycle holds `_CS`, the
address and `R_W` from `AS_` low on; `DS_` is low over at least one falling edge, and a
write drives its data as long as `DS_` is low. -/
def Legal : Event → Prop
  | .idle es => ∀ e ∈ es, e.as_ = true ∨ e.cs_ = true
  | .cycle addr rw data early late =>
      (∀ e ∈ early ++ late, e.cs_ = false ∧ e.as_ = false ∧ e.rw = rw ∧ e.addr = addr) ∧
        (∀ e ∈ early, e.ds_ = true) ∧ (∀ e ∈ late, e.ds_ = false ∧ (rw = false → e.mid = data)) ∧
        late.any Edge.falling = true

/-- The value that a write of the location at an offset leaves there. -/
def written (n : BitVec 8) : Event → Option Longword
  | .cycle addr false data _ _ => if offset addr = n then some data else none
  | _ => none

/-- The location at an offset is read or written. -/
def accesses (n : BitVec 8) : Event → Bool
  | .cycle addr _ _ _ _ => offset addr == n
  | .idle _ => false

/-- `ST_DMA` sets `DMAENA`, `SP_DMA` clears it. -/
def enables (v : Event) : Option Bool :=
  if v.accesses 0x10 then some true else if v.accesses 0x3C then some false else none

/-- `FLUSH` sets `FLUSHFIFO`, and `STOPFLUSH` clears it. -/
def flushes (v : Event) : Option Bool :=
  if v.accesses 0x14 then some true
  else if v.edges.any fun e => e.falling && e.stopflush then some false
  else none

/-- A write of `ACR` loads `A1`, and a strobe of the DMAC clears it. -/
def loadsA1 (v : Event) : Option Bool :=
  match v.written 0x0C with
  | some data => some (data.uu.getLsbD 1)
  | none => if v.edges.any fun e => e.falling && !e.asO_ then some false else none

end Event

/-- The event on the registers: after a cycle `AS_` rises. -/
def event (r : Registers) (v : Event) : Registers :=
  match v with
  | .idle es => run edge r es
  | .cycle _ _ _ early late => (run edge r (early ++ late)).settle true true

instance : DecidablePred Event.Legal
  | .idle es => inferInstanceAs (Decidable (∀ e ∈ es, _ ∨ _))
  | .cycle _ _ _ early late =>
      inferInstanceAs (Decidable ((∀ e ∈ early ++ late, _) ∧ (∀ e ∈ early, _) ∧
        (∀ e ∈ late, _ ∧ (_ → _)) ∧ _))

/-! ## §4 The programming model -/

/-- What the programmer knows of the register file. -/
@[ext] structure Model where
  /-- `DMADIR` as it is written to `CNTR` -/
  ndmadir : Bool
  intena : Bool
  preset : Bool
  dmaena : Bool
  flushfifo : Bool
  a1 : Bool
  sspbdat : Longword
  flashAddr : Longword
deriving DecidableEq

/-- The registers as the programmer knows them. -/
def model (r : Registers) : Model where
  ndmadir := r.ndmadir
  intena := r.intena
  preset := r.preset
  dmaena := r.dmaena
  flushfifo := r.flushfifo
  a1 := r.a1
  sspbdat := r.sspbdat
  flashAddr := r.flashAddr

namespace Model

/-- Each location after a history of events, the last one last: the value last written to
it, or what it held before. -/
def after (m : Model) (vs : List Event) : Model where
  ndmadir := (vs.filterMap (Event.written 0x08)).getLast?.elim m.ndmadir (·.ll.getLsbD 1)
  intena := (vs.filterMap (Event.written 0x08)).getLast?.elim m.intena (·.ll.getLsbD 2)
  preset := (vs.filterMap (Event.written 0x08)).getLast?.elim m.preset (·.ll.getLsbD 4)
  dmaena := (vs.filterMap Event.enables).getLast?.elim m.dmaena id
  flushfifo := (vs.filterMap Event.flushes).getLast?.elim m.flushfifo id
  a1 := (vs.filterMap Event.loadsA1).getLast?.elim m.a1 id
  sspbdat := (vs.filterMap (Event.written 0x58)).getLast?.elim m.sspbdat id
  -- only 24 bits of the address are kept
  flashAddr := (vs.filterMap (Event.written 0x24)).getLast?.elim m.flashAddr ({ · with uu := 0 })

/-- What a read of the location at an offset returns, where the model knows it. -/
def read (m : Model) (n : BitVec 8) : Option Longword :=
  if n = 0x04 then some {}
  else if n = 0x08 then
    some { lm := Byte.ofBits false false false false false false false m.dmaena
           ll := Byte.ofBits false false false m.preset false m.intena m.ndmadir false }
  else if n = 0x58 then some m.sspbdat
  else if n = 0x24 then some m.flashAddr
  else none

end Model

/-! ## §5 What an event captures -/

namespace Event

variable {v : Event} {n : BitVec 8}

/-- In an idle event no location is decoded. -/
theorem hit_of_idle {es : List Edge} (hv : (Event.idle es).Legal) {e : Edge} (he : e ∈ es)
    (n : BitVec 8) : e.access.hit n = false := by
  apply Access.hit_of_not_valid
  rcases hv e he with h | h
  · simp [Access.valid, Edge.access, h]
  · simp [Access.valid, Edge.access, h]

/-- In a cycle the location at its address is decoded at every edge, and no other. -/
theorem hit_of_cycle {addr : BitVec 5} {rw : Bool} {data : Longword} {early late : List Edge}
    (hv : (Event.cycle addr rw data early late).Legal) {e : Edge} (he : e ∈ early ++ late)
    (n : BitVec 8) : e.access.hit n = (offset addr == n) ∧ e.access.rw = rw := by
  obtain ⟨hc, ha, hr, hd⟩ := hv.1 e he
  refine ⟨?_, hr⟩
  simp [Access.hit, Access.valid, Edge.access, hc, ha, hd]

/-- Where nothing captures, nothing is left. -/
theorem last_of_none {α : Type} {w : Edge → Option α} {es : List Edge}
    (h : ∀ e ∈ es, w e = none) : (es.filterMap w).getLast? = none := by
  rw [List.filterMap_eq_nil_iff.mpr h]
  rfl

/-- An event that does not write the location captures nothing there. -/
theorem wr_of_written_none (hv : v.Legal) (h : v.written n = none) {e : Edge} (he : e ∈ v.edges) :
    e.access.wr n = false := by
  cases v with
  | idle es => simp [Access.wr, hit_of_idle hv he]
  | cycle addr rw data early late =>
      obtain ⟨hh, hr⟩ := hit_of_cycle hv he n
      cases rw with
      | true => simp [Access.wr, hr]
      | false =>
          have hn : offset addr ≠ n := fun ha => by simp [written, ha] at h
          simp [Access.wr, hh, hn]

/-- A write of the location is a cycle, and at each edge with `DS_` low its data is on the
bus. -/
theorem late_of_written {data : Longword} (hv : v.Legal) (h : v.written n = some data) :
    ∃ early late : List Edge, v.edges = early ++ late ∧ late.any Edge.falling = true ∧
      (∀ e ∈ early, e.access.wr n = true ∧ e.ds_ = true) ∧
      ∀ e ∈ late, e.access.wr n = true ∧ e.ds_ = false ∧ e.mid = data := by
  cases v with
  | idle es => simp [written] at h
  | cycle addr rw d early late =>
      cases rw with
      | true => simp [written] at h
      | false =>
          simp only [written, Option.ite_none_right_eq_some, Option.some.injEq] at h
          obtain ⟨rfl, rfl⟩ := h
          have hw : ∀ e ∈ early ++ late, e.access.wr (offset addr) = true := fun e he => by
            obtain ⟨hh, hr⟩ := hit_of_cycle hv he (offset addr)
            simp [Access.wr, hh, hr]
          refine ⟨early, late, rfl, hv.2.2.2, fun e he => ?_, fun e he => ?_⟩
          · exact ⟨hw e (List.mem_append_left _ he), hv.2.1 e he⟩
          · obtain ⟨hd, hm⟩ := hv.2.2.1 e he
            exact ⟨hw e (List.mem_append_right _ he), hd, hm rfl⟩

/-- A write leaves the data that is on the bus while `DS_` is low, whether the location
waits for `DS_` or not. -/
theorem last_written {g : Bool → Bool} (hg : g false = true) (hv : v.Legal) :
    (v.edges.filterMap fun e : Edge =>
      if e.falling && e.access.wr n && g e.ds_ then some e.mid else none).getLast? =
      v.written n := by
  cases h : v.written n with
  | none =>
      apply last_of_none
      intro e he
      simp [wr_of_written_none hv h he]
  | some data =>
      -- the last capture falls into the second part of the cycle
      obtain ⟨early, late, he, hf, -, hl⟩ := late_of_written hv h
      have hc : (late.filterMap fun e : Edge =>
          if e.falling && e.access.wr n && g e.ds_ then some e.mid else none).getLast? =
          some data := by
        rw [getLast?_filterMap_const (p := Edge.falling) (v := data), hf, if_pos rfl]
        intro e he
        obtain ⟨hw, hd, hm⟩ := hl e he
        simp [hw, hd, hg, hm]
      rw [he, List.filterMap_append, List.getLast?_append, hc]
      rfl

theorem last_cntr (hv : v.Legal) :
    (v.edges.filterMap Edge.cntr).getLast? = v.written 0x08 := by
  rw [← last_written (g := fun _ => true) rfl hv]
  simp only [Bool.and_true]
  rfl

theorem last_sspbdat (hv : v.Legal) :
    (v.edges.filterMap Edge.sspbdat).getLast? = v.written 0x58 := by
  rw [← last_written (g := fun _ => true) rfl hv]
  simp only [Bool.and_true]
  rfl

theorem last_flashAddr (hv : v.Legal) :
    (v.edges.filterMap Edge.flashAddr).getLast? = v.written 0x24 := by
  rw [← last_written (g := fun ds_ => !ds_) rfl hv]
  rfl

/-- The location of an access is decoded at every edge of the event, and at no edge of an
event without it. -/
theorem hit_eq (hv : v.Legal) {e : Edge} (he : e ∈ v.edges) :
    e.access.hit n = v.accesses n := by
  cases v with
  | idle es => exact hit_of_idle hv he n
  | cycle addr rw data early late => simp [(hit_of_cycle hv he n).1, accesses]

/-- An event with an access has a falling edge. -/
theorem any_falling (hv : v.Legal) (h : v.accesses n = true) :
    v.edges.any Edge.falling = true := by
  cases v with
  | idle es => exact Bool.noConfusion h
  | cycle addr rw data early late => simp [edges, hv.2.2.2]

theorem last_dmaena (hv : v.Legal) : (v.edges.filterMap Edge.dmaena).getLast? = v.enables := by
  unfold enables
  split_ifs with hs hp
  · rw [getLast?_filterMap_const (p := Edge.falling) (v := true), any_falling hv hs, if_pos rfl]
    intro e he
    have hh : e.access.stDma = true := (hit_eq hv he).trans hs
    cases hf : e.falling <;> simp [Edge.dmaena, hh, hf]
  · rw [getLast?_filterMap_const (p := Edge.falling) (v := false), any_falling hv hp, if_pos rfl]
    intro e he
    have h1 : e.access.stDma = false := (hit_eq hv he).trans (Bool.eq_false_iff.mpr hs)
    have h2 : e.access.spDma = true := (hit_eq hv he).trans hp
    cases hf : e.falling <;> simp [Edge.dmaena, h1, h2, hf]
  · apply last_of_none
    intro e he
    have h1 : e.access.stDma = false := (hit_eq hv he).trans (Bool.eq_false_iff.mpr hs)
    have h2 : e.access.spDma = false := (hit_eq hv he).trans (Bool.eq_false_iff.mpr hp)
    simp [Edge.dmaena, h1, h2]

theorem last_flushfifo (hv : v.Legal) :
    (v.edges.filterMap Edge.flushfifo).getLast? = v.flushes := by
  unfold flushes
  split_ifs with hf hs
  · rw [getLast?_filterMap_const (p := Edge.falling) (v := true), any_falling hv hf, if_pos rfl]
    intro e he
    have hh : e.access.flush = true := (hit_eq hv he).trans hf
    cases h : e.falling <;> simp [Edge.flushfifo, hh, h]
  all_goals
    have hh : ∀ e ∈ v.edges, Edge.flushfifo e = if e.falling && e.stopflush then some false else none :=
      fun e he => by
        have : e.access.flush = false := (hit_eq hv he).trans (Bool.eq_false_iff.mpr hf)
        simp [Edge.flushfifo, this]
    rw [getLast?_filterMap_const hh]
  · rw [if_pos hs]
  · rw [if_neg hs]

theorem last_a1 (hv : v.Legal) : (v.edges.filterMap Edge.a1).getLast? = v.loadsA1 := by
  unfold loadsA1
  cases h : v.written 0x0C with
  | none =>
      apply getLast?_filterMap_const
      intro e he
      have hw : e.access.acrWr = false := wr_of_written_none hv h he
      simp [Edge.a1, hw]
  | some data =>
      obtain ⟨early, late, he, hf, -, hl⟩ := late_of_written hv h
      have hc : (late.filterMap Edge.a1).getLast? = some (data.uu.getLsbD 1) := by
        rw [getLast?_filterMap_const (p := Edge.falling) (v := data.uu.getLsbD 1), hf, if_pos rfl]
        intro e he
        obtain ⟨hw, -, hm⟩ := hl e he
        have hw : e.access.acrWr = true := hw
        -- a write has priority over a strobe of the DMAC
        cases hf : e.falling <;> simp [Edge.a1, hw, hf, hm]
      rw [he, List.filterMap_append, List.getLast?_append, hc]
      rfl

theorem last_single {α : Type} (w : Event → Option α) (v : Event) :
    ([v].filterMap w).getLast? = w v := by
  cases h : w v <;> simp [h]

end Event

/-! ## §6 The registers after a history -/

section History

variable (r : Registers)

/-- After a number of edges each register holds what it captured last. -/
theorem run_edge_model (es : List Edge) :
    (run edge r es).model =
      { ndmadir := (es.filterMap Edge.cntr).getLast?.elim r.ndmadir (·.ll.getLsbD 1)
        intena := (es.filterMap Edge.cntr).getLast?.elim r.intena (·.ll.getLsbD 2)
        preset := (es.filterMap Edge.cntr).getLast?.elim r.preset (·.ll.getLsbD 4)
        dmaena := (es.filterMap Edge.dmaena).getLast?.elim r.dmaena id
        flushfifo := (es.filterMap Edge.flushfifo).getLast?.elim r.flushfifo id
        a1 := (es.filterMap Edge.a1).getLast?.elim r.a1 id
        sspbdat := (es.filterMap Edge.sspbdat).getLast?.elim r.sspbdat id
        flashAddr :=
          (es.filterMap Edge.flashAddr).getLast?.elim r.flashAddr ({ · with uu := 0 }) } := by
  simp only [model, Model.mk.injEq]
  refine ⟨?_, ?_, ?_, ?_, ?_, ?_, ?_, ?_⟩
  · apply run_last fun e _ s => edge_ndmadir s e
  · apply run_last fun e _ s => edge_intena s e
  · apply run_last fun e _ s => edge_preset s e
  · apply run_last fun e _ s => edge_dmaena s e
  · apply run_last fun e _ s => edge_flushfifo s e
  · apply run_last fun e _ s => edge_a1 s e
  · apply run_last fun e _ s => edge_sspbdat s e
  · apply run_last fun e _ s => edge_flashAddr s e

/-- `AS_` rising after a cycle changes no location. -/
theorem event_model (v : Event) : (r.event v).model = (run edge r v.edges).model := by
  cases v <;> rfl

/-- One event on the programming model. -/
theorem event_model_eq {v : Event} (hv : v.Legal) : (r.event v).model = r.model.after [v] := by
  simp only [event_model, run_edge_model, Model.after, Event.last_single, Event.last_cntr hv,
    Event.last_dmaena hv, Event.last_flushfifo hv, Event.last_a1 hv, Event.last_sspbdat hv,
    Event.last_flashAddr hv]
  rfl

/-- The registers after a history are those of the programming model. -/
theorem run_event_model {vs : List Event} (hv : ∀ v ∈ vs, v.Legal) :
    (run event r vs).model = r.model.after vs := by
  have hs : ∀ v ∈ vs, ∀ s : Registers, (s.event v).model = s.model.after [v] :=
    fun v hv' s => event_model_eq s (hv v hv')
  simp only [Model.after, Event.last_single, Model.ext_iff] at hs
  simp only [Model.after, Model.ext_iff]
  refine ⟨?_, ?_, ?_, ?_, ?_, ?_, ?_, ?_⟩
  · apply run_last (f := fun s => s.model.ndmadir) fun v hv s => (hs v hv s).1
  · apply run_last (f := fun s => s.model.intena) fun v hv s => (hs v hv s).2.1
  · apply run_last (f := fun s => s.model.preset) fun v hv s => (hs v hv s).2.2.1
  · apply run_last (f := fun s => s.model.dmaena) fun v hv s => (hs v hv s).2.2.2.1
  · apply run_last (f := fun s => s.model.flushfifo) fun v hv s => (hs v hv s).2.2.2.2.1
  · apply run_last (f := fun s => s.model.a1) fun v hv s => (hs v hv s).2.2.2.2.2.1
  · apply run_last (f := fun s => s.model.sspbdat) fun v hv s => (hs v hv s).2.2.2.2.2.2.1
  · apply run_last (f := fun s => s.model.flashAddr) fun v hv s => (hs v hv s).2.2.2.2.2.2.2

end History

/-! ## §7 What the CPU sees in a cycle -/

/-- The locations whose cycles `registers_term` ends: all but those of the WD33C93, `ACR`,
which another chip answers, and the flash data. -/
def answers (n : BitVec 8) : Bool := !(n.extractLsb' 4 4 == 4#4 || n == 0x0C || n == 0x28)

/-- `AS_` was high: the termination counter is in its reset state. -/
def Released (r : Registers) : Prop := r.termCounter = 0 ∧ r.dsackTerm_ = true

/-- What `ISTR` shows: the flags at the falling edge `e`. -/
def flags (intena : Bool) (e : Edge) : Longword where
  ll := Byte.ofBits e.inta e.inta e.inta (intena && e.inta) false false e.fifofull e.fifoempty

/-- At every moment of a cycle: `REG_DSK_` is low from the fourth rising edge on, a read of a
location of the model returns its value, and a read of `ISTR` the flags that the last falling
edge saw. -/
def Served (r : Registers) : Event → Prop
  | .idle _ => True
  | .cycle addr rw _ early late =>
      ∀ es, es <+: early ++ late →
        ((run edge r es).dsackTerm_ = false ↔
          answers (offset addr) = true ∧ 4 ≤ es.countP Edge.rising) ∧
        (rw = true → ∀ w, r.model.read (offset addr) = some w → ∀ d,
          (run edge r es).regOd ⟨offset addr, false, false, true⟩ d = w) ∧
        (rw = true → offset addr = 0x1C → ∀ e, (es.filter Edge.falling).getLast? = some e → ∀ d,
          (run edge r es).regOd ⟨offset addr, false, false, true⟩ d = flags r.intena e)

section Cycle

variable {r : Registers} {addr : BitVec 5} {rw : Bool} {data : Longword} {es : List Edge}

/-- The edges of a cycle, or of its first part. -/
def InCycle (addr : BitVec 5) (rw : Bool) (es : List Edge) : Prop :=
  ∀ e ∈ es, e.access = ⟨offset addr, false, false, rw⟩

theorem inCycle_of_prefix {early late : List Edge}
    (hv : (Event.cycle addr rw data early late).Legal) (he : es <+: early ++ late) :
    InCycle addr rw es := by
  intro e hm
  obtain ⟨hc, ha, hr, hd⟩ := hv.1 e (he.subset hm)
  rw [Edge.access, hc, ha, hr, hd]

theorem cycleActive_eq {n : BitVec 8} : cycleActive ⟨n, false, false, rw⟩ = answers n := by
  simp [cycleActive, answers, Access.wdregreq, Access.h0C, Access.h28, Access.hit, Access.valid]

theorem edge_dsackTerm_ {e : Edge} (h : e.access = ⟨offset addr, false, false, rw⟩) :
    (r.edge e).dsackTerm_ =
      (r.dsackTerm_ && !(e.rising && answers (offset addr) && r.termCounter == 3)) := by
  have ha : e.as_ = false := congrArg Access.as_ h
  unfold edge
  rw [h, ha]
  cases e.rising with
  | false => simp [clk90Fall_dsackTerm_, settle]
  | true =>
      simp only [clk90Rise, cycleActive_eq, settle]
      cases answers (offset addr) <;> by_cases hc : r.termCounter = 3#3 <;> simp [hc]

theorem edge_termCounter {e : Edge} (h : e.access = ⟨offset addr, false, false, rw⟩) :
    (r.edge e).termCounter =
      if e.rising && answers (offset addr) && r.termCounter != 3 then r.termCounter + 1
      else r.termCounter := by
  have ha : e.as_ = false := congrArg Access.as_ h
  unfold edge
  rw [h, ha]
  cases e.rising with
  | false => simp [clk90Fall_termCounter, settle]
  | true => simp [clk90Rise, cycleActive_eq, settle]

/-- The termination counter counts the rising edges up to three, and the fourth one ends the
cycle. -/
theorem term_spec (hr : r.Released) (h : InCycle addr rw es) :
    (run edge r es).termCounter.toNat =
        (if answers (offset addr) then min 3 (es.countP Edge.rising) else 0) ∧
      (run edge r es).dsackTerm_ =
        !(answers (offset addr) && decide (4 ≤ es.countP Edge.rising)) := by
  induction es using List.reverseRecOn with
  | nil => simp [hr.1, hr.2]
  | append_singleton es e ih =>
      have he := h e (by simp)
      obtain ⟨h1, h2⟩ := ih fun x hx => h x (by simp [hx])
      simp only [run_append, run_cons, run_nil, edge_termCounter he, edge_dsackTerm_ he,
        List.countP_append, List.countP_singleton, h2]
      generalize (run edge r es).termCounter = c at h1
      cases ha : answers (offset addr) with
      | false => simpa [ha] using h1
      | true =>
          simp only [ha, if_true, Bool.and_true, Bool.true_and] at h1 ⊢
          have h3 : c = 3 ↔ 3 ≤ es.countP Edge.rising := by
            rw [← BitVec.toNat_inj, h1]
            show min 3 _ = 3 ↔ _
            omega
          cases hr : e.rising with
          | false => simpa using h1
          | true =>
              by_cases hk : 3 ≤ es.countP Edge.rising
              · -- the counter has stopped, and the cycle is ended
                have hc : c = 3#3 := h3.mpr hk
                simp [hc]
                omega
              · have hc : c ≠ 3#3 := fun hc => hk (h3.mp hc)
                have h4 : (c + 1).toNat = c.toNat + 1 := by
                  rw [BitVec.toNat_add]
                  exact Nat.mod_eq_of_lt (by rw [h1]; show min 3 _ + 1 < 8; omega)
                refine ⟨?_, ?_⟩
                · rw [if_pos (by simpa using hc), h4, h1, if_pos rfl]
                  omega
                · have hk' : ¬ 4 ≤ es.countP Edge.rising := by omega
                  simpa [hk, hk'] using hc

/-- The value that the model knows for a location stays while the location is read. -/
theorem read_run (h : InCycle addr true es) {w : Longword}
    (hw : r.model.read (offset addr) = some w) :
    (run edge r es).model.read (offset addr) = some w := by
  have hn : offset addr = 0x04 ∨ offset addr = 0x08 ∨ offset addr = 0x58 ∨ offset addr = 0x24 := by
    unfold Model.read at hw
    split_ifs at hw with h1 h2 h3 h4
    · exact .inl h1
    · exact .inr (.inl h2)
    · exact .inr (.inr (.inl h3))
    · exact .inr (.inr (.inr h4))
  have hwr : ∀ e ∈ es, ∀ n, e.access.wr n = false := fun e he n => by simp [h e he, Access.wr]
  have hhit : ∀ e ∈ es, ∀ n, offset addr ≠ n → e.access.hit n = false := fun e he n ha => by
    simp [h e he, Access.hit, ha]
  -- nothing that the location shows is captured while it is read
  have h1 : (es.filterMap Edge.cntr).getLast? = none :=
    Event.last_of_none fun e he => by simp [Edge.cntr, Access.contrWr, hwr e he]
  have h2 : (es.filterMap Edge.sspbdat).getLast? = none :=
    Event.last_of_none fun e he => by simp [Edge.sspbdat, Access.sspbdatWr, hwr e he]
  have h3 : (es.filterMap Edge.flashAddr).getLast? = none :=
    Event.last_of_none fun e he => by simp [Edge.flashAddr, Access.flashAddrWr, hwr e he]
  have h4 : (es.filterMap Edge.dmaena).getLast? = none :=
    Event.last_of_none fun e he => by
      have hs : e.access.stDma = false :=
        hhit e he _ (by rcases hn with ha | ha | ha | ha <;> rw [ha] <;> decide)
      have hp : e.access.spDma = false :=
        hhit e he _ (by rcases hn with ha | ha | ha | ha <;> rw [ha] <;> decide)
      simp [Edge.dmaena, hs, hp]
  rw [run_edge_model, h1, h2, h3, h4]
  exact hw

/-- The multiplexer shows what the model knows. -/
theorem regOd_of_read {n : BitVec 8} {w : Longword} (hw : r.model.read n = some w)
    (d : Longword) : r.regOd ⟨n, false, false, true⟩ d = w := by
  unfold Model.read at hw
  split_ifs at hw with h1 h2 h3 h4
  · subst h1; cases hw; rfl
  · subst h2; cases hw; rfl
  · subst h3; cases hw; rfl
  · subst h4; cases hw; rfl

/-- A falling edge of a read of `ISTR` captures the flags. -/
theorem edge_istrO {e : Edge} (h : e.access = ⟨0x1C, false, false, true⟩) :
    (r.edge e).istrO = if e.falling then flags r.intena e else r.istrO := by
  have ha : e.as_ = false := congrArg Access.as_ h
  unfold edge Edge.falling
  rw [h, ha]
  cases e.rising with
  | true => rfl
  | false => exact clk90Fall_istrO _ _ _ _ _ _ _ _ _ rfl rfl

theorem istrO_run (h : InCycle addr true es) (ha : offset addr = 0x1C) {e : Edge}
    (he : (es.filter Edge.falling).getLast? = some e) :
    (run edge r es).istrO = flags r.intena e := by
  have hi : ∀ es : List Edge, InCycle addr true es → (run edge r es).intena = r.intena := by
    intro es h
    have hc : (es.filterMap Edge.cntr).getLast? = none :=
      Event.last_of_none fun e he => by simp [Edge.cntr, Access.contrWr, Access.wr, h e he]
    exact (run_last fun e _ s => edge_intena s e).trans (by rw [hc]; rfl)
  induction es using List.reverseRecOn with
  | nil => simp at he
  | append_singleton es x ih =>
      have hes : InCycle addr true es := fun y hy => h y (by simp [hy])
      have hx := h x (by simp)
      rw [ha] at hx
      rw [run_append, run_cons, run_nil, edge_istrO hx, hi es hes]
      rw [List.filter_append] at he
      cases hf : x.falling with
      | true =>
          simp only [List.filter_singleton, hf, List.getLast?_append, List.getLast?_singleton,
            Option.some_or, Option.some.injEq, cond_true] at he
          rw [he]
          rfl
      | false =>
          simp only [List.filter_singleton, hf, cond_false, List.append_nil] at he
          exact ih hes he

end Cycle

/-! ## §8 Refinement -/

/-- Between the cycles the termination counter is in its reset state. -/
theorem Released.event {r : Registers} {v : Event} (hr : r.Released) (hv : v.Legal) :
    (r.event v).Released := by
  cases v with
  | cycle addr rw data early late => exact ⟨rfl, rfl⟩
  | idle es =>
      apply invariant_run (P := fun _ e => e.as_ = true ∨ e.cs_ = true) (I := Released)
      · rintro s e ⟨h1, h2⟩ he
        have ha : e.as_ = false → ∀ n, cycleActive ⟨n, e.cs_, false, e.rw⟩ = false := fun ha n => by
          have hc : e.cs_ = true := he.resolve_left (by simp [ha])
          simp [cycleActive, hc]
        unfold edge
        cases e.rising with
        | false => cases e.as_ <;> simp [Released, clk90Fall_termCounter, clk90Fall_dsackTerm_, settle, h1, h2]
        | true =>
            cases hs : e.as_ with
            | false => simp [Released, clk90Rise, Edge.access, hs, ha hs, settle, h1, h2]
            | true => simp [Released, clk90Rise, Edge.access, hs]
      · exact hr
      · exact along_of_forall hv

theorem served {r : Registers} {v : Event} (hr : r.Released) (hv : v.Legal) : r.Served v := by
  cases v with
  | idle es => trivial
  | cycle addr rw data early late =>
      intro es he
      have hc := inCycle_of_prefix hv he
      refine ⟨?_, ?_, ?_⟩
      · rw [(term_spec hr hc).2]
        simp
      · rintro rfl w hw d
        exact regOd_of_read (read_run hc hw) d
      · rintro rfl ha e hl d
        rw [← istrO_run hc ha hl, ha]
        rfl

/-- A clock of CLK90, rising edge first. -/
def clock (e : Edge) : List Edge := [{ e with rising := true }, e]

/-- A write cycle whose data comes one clock after `AS_`. -/
def writing (addr : BitVec 5) (data : Longword) : Event :=
  let e : Edge := { cs_ := false, as_ := false, rw := false, addr := addr }
  .cycle addr false data (clock e)
    ((List.replicate 4 (clock { e with ds_ := false, mid := data })).flatten)

/-- A read cycle. -/
def reading (addr : BitVec 5) : Event :=
  .cycle addr true {} []
    ((List.replicate 4 (clock { cs_ := false, as_ := false, ds_ := false, addr := addr })).flatten)

/-- `CNTR` is set up, a session is started and flushed, and `CNTR` is read. -/
def sessionSetup : List Event :=
  [writing 0x02 { ll := 0x06 }, .idle (clock {}), writing 0x03 { uu := 0x02 }, reading 0x04,
    reading 0x05, .idle (clock { stopflush := true, asO_ := false }), reading 0x02]

example : ({} : Registers).model.after sessionSetup =
    { ndmadir := true, intena := true, preset := false, dmaena := true, flushfifo := false
      a1 := false, sspbdat := {}, flashAddr := {} } := by
  decide

end Registers

end Resdmac
