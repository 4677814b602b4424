import Resdmac.Fifo
import Resdmac.Library.Ring
import Resdmac.Library.Runs

/-!
# The FIFO as a Bounded Queue

What the FIFO is for: a queue of at most `DEPTH` longwords, each assembled lane by lane.
A push is a step of `WRITE_PTR` and a step of `COUNT`, a pop a step of `READ_PTR` and a
step of `COUNT`; the two halves come in either order and on different clocks.

## Main definitions

- `Fifo.Edge`, `Fifo.edge` — one clock edge with its strobes
- `Queue`, `Queue.edge` — the queue and what an edge means for it
- `Queue.Legal` — an edge that neither overfills nor overdraws the queue

## Main results

- `Queue.fifo_refines_queue` — after every legal sequence of edges the FIFO holds the
  queue
-/

namespace Resdmac

/-! ## §1 Edges -/

namespace Fifo

variable {k : ℕ}

/-- A clock edge of the FIFO out of reset, with the strobes it reads. -/
inductive Edge where
  /-- CLK90 rising -/
  | store (lhword llword lbyte_ : Bool) (id : Longword)
  /-- CLK135 rising -/
  | ptrs (incni incno : Bool)
  /-- SCLK falling -/
  | count (incfifo decfifo : Bool)
  /-- CLK90 falling -/
  | byte (incbo : Bool)
deriving DecidableEq

/-- What an edge does. `A1` is read in reset only. -/
def edge (f : Fifo k) : Edge → Fifo k
  | .store lhword llword lbyte_ id => f.store true (f.writeStrobes lhword llword lbyte_) id
  | .ptrs incni incno => f.movePtrs true incni incno
  | .count incfifo decfifo => f.countStep true incfifo decfifo
  | .byte incbo => f.moveBytePtr true incbo false

/-- The FIFO after one edge of each kind in reset. -/
def reset (a1 : Bool) (f : Fifo k) : Fifo k :=
  (((f.store false ⟨false, false, false, false⟩ {}).movePtrs false false false).countStep false
    false false).moveBytePtr false false a1

theorem reset_eq (a1 : Bool) (f : Fifo k) :
    f.reset a1 = { bytePtr := if a1 then 2 else 0 } := rfl

end Fifo

/-! ## §2 The queue -/

/-- The half of a push or of a pop that is done while the other one is still owed. -/
inductive Half where
  | none | pointer | count
deriving DecidableEq, Repr

/-- One if only the step of the pointer is done. -/
def Half.ahead : Half → ℕ
  | .pointer => 1
  | _ => 0

/-- One if only the step of `COUNT` is done. -/
def Half.behind : Half → ℕ
  | .count => 1
  | _ => 0

/-- The other half follows, or a first one is done. -/
def Half.step (h first : Half) : Half := if h = .none then first else .none

/-- A byte strobed into a lane of one of the entries. -/
structure Write where
  entry : ℕ
  lane : BitVec 2
  value : Byte
deriving DecidableEq, Repr

/-- A queue of longwords. -/
structure Queue (k : ℕ) where
  /-- The longwords that were pushed and not popped, the oldest first. -/
  items : List Longword := []
  /-- The number of longwords pushed so far. -/
  pushed : ℕ := 0
  /-- What was strobed so far, the latest first. -/
  log : List Write := []
  push : Half := .none
  pop : Half := .none
  byte : BitVec 2 := 0

namespace Queue

variable {k : ℕ}

/-- The last value strobed into a lane of an entry. -/
def lastStrobed (log : List Write) (i : ℕ) (l : BitVec 2) : Byte :=
  ((log.find? fun w => w.entry == i && w.lane == l).map Write.value).getD 0

/-- The lanes that the strobes select: a word each, and the lane at the byte pointer. -/
def selects (lhword llword lbyte_ : Bool) (byte l : BitVec 2) : Bool :=
  lhword && decide (l < 2) || llword && decide (2 ≤ l) || !lbyte_ && l == byte

/-- The entry that takes the next longword: they are used in turn. -/
def entry (q : Queue k) : ℕ := q.pushed % 2 ^ k

theorem entry_lt (q : Queue k) : q.entry < 2 ^ k := Nat.mod_lt _ (Nat.two_pow_pos k)

/-- The longword of which every lane is the last value strobed into it. -/
def assembled (q : Queue k) : Longword where
  uu := lastStrobed q.log q.entry 0
  um := lastStrobed q.log q.entry 1
  lm := lastStrobed q.log q.entry 2
  ll := lastStrobed q.log q.entry 3

/-- The bytes that an edge strobes. -/
def writes (q : Queue k) (lhword llword lbyte_ : Bool) (id : Longword) : List Write :=
  (([0, 1, 2, 3] : List (BitVec 2)).filter (selects lhword llword lbyte_ q.byte)).map fun l =>
    ⟨q.entry, l, id.lane l⟩

/-- What an edge means for the queue. -/
def edge (q : Queue k) : Fifo.Edge → Queue k
  | .store lhword llword lbyte_ id => { q with log := q.writes lhword llword lbyte_ id ++ q.log }
  | .ptrs incni incno =>
    { q with
      items := (q.items ++ if incni then [q.assembled] else []).drop incno.toNat
      pushed := q.pushed + incni.toNat
      push := if incni then q.push.step .pointer else q.push
      pop := if incno then q.pop.step .pointer else q.pop }
  | .count incfifo decfifo =>
    { q with
      push := if incfifo then q.push.step .count else q.push
      pop := if decfifo then q.pop.step .count else q.pop }
  | .byte incbo => { q with byte := if incbo then q.byte + 1 else q.byte }

/-- The longwords whose push is begun and whose pop is not finished. -/
def begun (q : Queue k) : ℕ :=
  q.items.length + q.push.behind + q.pop.ahead

/-- The longwords whose push is finished and whose pop is not begun. -/
def ready (q : Queue k) : ℕ :=
  q.items.length - (q.push.ahead + q.pop.behind)

/-- No push and no pop is half done. -/
def Settled (q : Queue k) : Prop := q.push = .none ∧ q.pop = .none

/-- A half of a push: the other half of one in progress, or the first of a new one into
a queue that is not full. -/
def MayPush (q : Queue k) (half : Half) : Prop :=
  q.push ≠ half ∧ (q.push = .none → q.begun < 2 ^ k)

/-- A half of a pop: the other half of one in progress, or the first of a new one from a
queue that is not empty. -/
def MayPop (q : Queue k) (half : Half) : Prop :=
  q.pop ≠ half ∧ (q.pop = .none → 1 ≤ q.ready)

/-- An edge that neither overfills nor overdraws the queue. -/
def Legal (q : Queue k) : Fifo.Edge → Prop
  | .store lhword llword lbyte_ _ =>
    lhword = true ∨ llword = true ∨ lbyte_ = false → q.items.length < 2 ^ k
  | .ptrs incni incno =>
    (incni = true → q.MayPush .pointer) ∧ (incno = true → q.MayPop .pointer)
  | .count incfifo decfifo =>
    (incfifo = true → q.MayPush .count) ∧ (decfifo = true → q.MayPop .count) ∧
      ¬ (incfifo = true ∧ decfifo = true)
  | .byte _ => True

instance (q : Queue k) (half : Half) : Decidable (q.MayPush half) :=
  inferInstanceAs (Decidable (_ ∧ (_ → _)))

instance (q : Queue k) (half : Half) : Decidable (q.MayPop half) :=
  inferInstanceAs (Decidable (_ ∧ (_ → _)))

instance (q : Queue k) : ∀ e, Decidable (q.Legal e)
  | .store .. => inferInstanceAs (Decidable (_ ∨ _ ∨ _ → _))
  | .ptrs .. => inferInstanceAs (Decidable ((_ → _) ∧ (_ → _)))
  | .count .. => inferInstanceAs (Decidable ((_ → _) ∧ (_ → _) ∧ ¬ _))
  | .byte _ => inferInstanceAs (Decidable True)

/-! ## §3 Strobes -/

theorem mem_lanes (l : BitVec 2) : l = 0 ∨ l = 1 ∨ l = 2 ∨ l = 3 := by revert l; decide

/-- The strobes of the FIFO are the selected lanes. -/
theorem write_lane (f : Fifo k) (lhword llword lbyte_ : Bool) (id w : Longword) (l : BitVec 2) :
    ((f.writeStrobes lhword llword lbyte_).write id w).lane l =
      if selects lhword llword lbyte_ f.bytePtr l then id.lane l else w.lane l := by
  simp only [Fifo.writeStrobes, Fifo.bo0, Fifo.bo1]
  generalize f.bytePtr = p
  rcases mem_lanes p with rfl | rfl | rfl | rfl <;> rcases mem_lanes l with rfl | rfl | rfl | rfl <;>
    cases lhword <;> cases llword <;> cases lbyte_ <;> rfl

/-- After a strobe the last value in a lane is the one strobed, if the lane was selected. -/
theorem lastStrobed_writes (q : Queue k) (lhword llword lbyte_ : Bool) (id : Longword) (i : ℕ)
    (l : BitVec 2) :
    lastStrobed (q.writes lhword llword lbyte_ id ++ q.log) i l =
      if i = q.entry ∧ selects lhword llword lbyte_ q.byte l = true then id.lane l
      else lastStrobed q.log i l := by
  simp only [lastStrobed, writes]
  by_cases hi : i = q.entry
  · subst hi
    cases h0 : selects lhword llword lbyte_ q.byte 0#2 <;>
      cases h1 : selects lhword llword lbyte_ q.byte 1#2 <;>
      cases h2 : selects lhword llword lbyte_ q.byte 2#2 <;>
      cases h3 : selects lhword llword lbyte_ q.byte 3#2 <;>
      rcases mem_lanes l with rfl | rfl | rfl | rfl <;>
      simp [h0, h1, h2, h3]
  · rw [List.find?_append, List.find?_eq_none.mpr, Option.none_or, if_neg fun h => hi h.1]
    intro w hw
    obtain ⟨m, -, rfl⟩ := List.mem_map.mp hw
    simp [Ne.symm hi]

/-! ## §4 The FIFO holds the queue -/

/-- The FIFO holds the queue: its pointers enclose the items, and `COUNT` is their number
up to the halves that are owed. -/
structure Held (f : Fifo k) (q : Queue k) : Prop where
  begun : q.begun ≤ 2 ^ k
  owed : q.push.ahead + q.pop.behind ≤ q.items.length
  level : f.level + (q.push.ahead + q.pop.behind) = q.begun
  ptrs : f.writePtr = f.readPtr + BitVec.ofNat k q.items.length
  writePtr : f.writePtr = BitVec.ofNat k q.pushed
  byte : f.bytePtr = q.byte
  items : Ring.window f.buffer f.readPtr q.items.length = q.items
  written : ∀ i < 2 ^ k, ∀ l, (f.buffer (BitVec.ofNat k i)).lane l = lastStrobed q.log i l

namespace Held

variable {f : Fifo k} {q : Queue k} (hH : Held f q)
include hH

theorem level_le : f.level ≤ 2 ^ k := by
  have h := hH.level
  have hb := hH.begun
  omega

theorem entry_eq : f.writePtr = BitVec.ofNat k q.entry := by
  refine hH.writePtr.trans (BitVec.eq_of_toNat_eq ?_)
  rw [entry, BitVec.toNat_ofNat, BitVec.toNat_ofNat, Nat.mod_mod]

/-- The entry at the write pointer is what was assembled. -/
theorem buffer_writePtr : f.buffer f.writePtr = q.assembled := by
  have h := hH.written q.entry q.entry_lt
  rw [← hH.entry_eq] at h
  refine Longword.eq_of_lane fun l => (h l).trans ?_
  rcases mem_lanes l with rfl | rfl | rfl | rfl <;> rfl

theorem store (lhword llword lbyte_ : Bool) (id : Longword)
    (hl : q.Legal (.store lhword llword lbyte_ id)) :
    Held (f.edge (.store lhword llword lbyte_ id)) (q.edge (.store lhword llword lbyte_ id)) where
  begun := hH.begun
  owed := hH.owed
  level := hH.level
  ptrs := hH.ptrs
  writePtr := hH.writePtr
  byte := hH.byte
  items := by
    refine Eq.trans ?_ hH.items
    change Ring.window (f.store true _ id).buffer f.readPtr q.items.length = _
    rw [Fifo.store_buffer, if_pos rfl]
    by_cases hs : lhword = true ∨ llword = true ∨ lbyte_ = false
    · exact Ring.window_update hH.ptrs (hl hs) _
    · -- without a strobe nothing is written
      have e : (f.writeStrobes lhword llword lbyte_).write id (f.buffer f.writePtr) =
          f.buffer f.writePtr := by
        simp only [not_or, Bool.not_eq_true, Bool.not_eq_false] at hs
        obtain ⟨rfl, rfl, rfl⟩ := hs
        simp [Fifo.writeStrobes, Fifo.Strobes.write]
      rw [e, Function.update_eq_self]
  written := by
    intro i hi l
    change ((f.store true _ id).buffer _).lane l =
      lastStrobed (q.writes lhword llword lbyte_ id ++ q.log) i l
    rw [Fifo.store_buffer, if_pos rfl, lastStrobed_writes, ← hH.byte]
    by_cases he : i = q.entry
    · rw [he, ← hH.entry_eq, Function.update_self, write_lane, hH.entry_eq,
        hH.written _ q.entry_lt]
      simp
    · -- the other entries are left alone
      have hne : BitVec.ofNat k i ≠ f.writePtr := by
        rw [hH.entry_eq]
        intro e
        have e' := congrArg BitVec.toNat e
        rw [BitVec.toNat_ofNat, BitVec.toNat_ofNat, Nat.mod_eq_of_lt hi,
          Nat.mod_eq_of_lt q.entry_lt] at e'
        exact he e'
      rw [Function.update_of_ne hne, hH.written i hi, if_neg (fun h => he h.1)]

/-- The two halves of a push and of a pop in the numbers of longwords. -/
theorem ptrs_numbers {incni incno : Bool} (hl : q.Legal (.ptrs incni incno)) :
    (q.edge (.ptrs incni incno)).items.length + incno.toNat = q.items.length + incni.toNat ∧
      (q.edge (.ptrs incni incno)).begun ≤ 2 ^ k ∧
      (q.edge (.ptrs incni incno)).push.ahead +
          (q.edge (.ptrs incni incno)).pop.behind ≤
        (q.edge (.ptrs incni incno)).items.length ∧
      f.level + ((q.edge (.ptrs incni incno)).push.ahead +
          (q.edge (.ptrs incni incno)).pop.behind) =
        (q.edge (.ptrs incni incno)).begun := by
  obtain ⟨hpush, hpop⟩ := hl
  have hb := hH.begun
  have ho := hH.owed
  have hlv := hH.level
  simp only [MayPush, MayPop, Queue.begun, Queue.ready, Queue.edge] at *
  generalize 2 ^ k = d at *
  cases hp : q.push <;> cases hq : q.pop <;> cases incni <;> cases incno <;>
    simp_all [Half.step, Half.ahead, Half.behind] <;> omega

theorem ptrs_edge (incni incno : Bool) (hl : q.Legal (.ptrs incni incno)) :
    Held (f.edge (.ptrs incni incno)) (q.edge (.ptrs incni incno)) := by
  obtain ⟨hlen, hb, ho, hlv⟩ := hH.ptrs_numbers hl
  exact
    { begun := hb
      owed := ho
      level := hlv
      ptrs := Ring.ptr_step hH.ptrs hlen
      writePtr := by
        cases incni with
        | false => exact hH.writePtr
        | true => exact (congrArg (· + 1) hH.writePtr).trans (Ring.ofNat_succ _).symm
      byte := hH.byte
      items := by
        -- the window with the new item, and without the old one
        have hfull : Ring.window f.buffer f.readPtr (q.items.length + incni.toNat) =
            q.items ++ if incni then [q.assembled] else [] := by
          cases incni with
          | false => exact hH.items.trans (List.append_nil _).symm
          | true =>
              rw [Bool.toNat_true, Ring.window_succ, hH.items, ← hH.ptrs, hH.buffer_writePtr]
              rfl
        change Ring.window f.buffer (if incno then f.readPtr + 1 else f.readPtr) _ =
          (q.items ++ if incni then [q.assembled] else []).drop incno.toNat
        rw [← hfull, ← hlen]
        cases incno with
        | false => rfl
        | true =>
            rw [Bool.toNat_true, Ring.window_cons]
            rfl
      written := hH.written }

/-- `COUNT` does not wrap, and it moves with the numbers of longwords. -/
theorem count_numbers {incfifo decfifo : Bool} (hl : q.Legal (.count incfifo decfifo)) :
    (q.edge (.count incfifo decfifo)).begun ≤ 2 ^ k ∧
      (q.edge (.count incfifo decfifo)).push.ahead +
          (q.edge (.count incfifo decfifo)).pop.behind ≤ q.items.length ∧
      (f.edge (.count incfifo decfifo)).level +
          ((q.edge (.count incfifo decfifo)).push.ahead +
            (q.edge (.count incfifo decfifo)).pop.behind) =
        (q.edge (.count incfifo decfifo)).begun := by
  obtain ⟨hpush, hpop, hx⟩ := hl
  have hb := hH.begun
  have ho := hH.owed
  have hlv := hH.level
  -- a legal step finds a longword to take, or room for one
  have hwrap : (decfifo = true → 1 ≤ f.level) ∧ (incfifo = true → f.level < 2 ^ k) := by
    simp only [MayPush, MayPop, Queue.begun, Queue.ready] at *
    generalize 2 ^ k = d at *
    cases hp : q.push <;> cases hq : q.pop <;> cases incfifo <;> cases decfifo <;>
      simp_all [Half.ahead, Half.behind] <;> omega
  have e : (f.edge (.count incfifo decfifo)).level + decfifo.toNat =
      f.level + incfifo.toNat := by
    obtain ⟨h0, h8⟩ := hwrap
    rw [Fifo.edge, Fifo.level_countStep f true incfifo decfifo hH.level_le, if_pos rfl]
    cases decfifo with
    | true =>
        have hi : incfifo = false := Bool.eq_false_iff.mpr fun hi => hx ⟨hi, rfl⟩
        have h1 := h0 rfl
        rw [if_pos rfl, if_neg (by omega), hi, Bool.toNat_true, Bool.toNat_false]
        omega
    | false =>
        cases incfifo with
        | true => rw [if_neg Bool.false_ne_true, if_pos rfl, if_neg (h8 rfl).ne]; rfl
        | false => rfl
  simp only [MayPush, MayPop, Queue.begun, Queue.ready, Queue.edge] at *
  generalize 2 ^ k = d at *
  cases hp : q.push <;> cases hq : q.pop <;> cases incfifo <;> cases decfifo <;>
    simp_all [Half.step, Half.ahead, Half.behind] <;> omega

theorem count_edge (incfifo decfifo : Bool) (hl : q.Legal (.count incfifo decfifo)) :
    Held (f.edge (.count incfifo decfifo)) (q.edge (.count incfifo decfifo)) := by
  obtain ⟨h1, h2, h3⟩ := hH.count_numbers hl
  exact
    { begun := h1
      owed := h2
      level := h3
      ptrs := by
        rw [Fifo.edge, Fifo.countStep_writePtr, Fifo.countStep_readPtr]
        exact hH.ptrs
      writePtr := by
        rw [Fifo.edge, Fifo.countStep_writePtr]
        exact hH.writePtr
      byte := by
        rw [Fifo.edge, Fifo.countStep_bytePtr]
        exact hH.byte
      items := by
        rw [Fifo.edge, Fifo.countStep_buffer, Fifo.countStep_readPtr]
        exact hH.items
      written := by
        rw [Fifo.edge, Fifo.countStep_buffer]
        exact hH.written }

theorem byte_edge (incbo : Bool) : Held (f.edge (.byte incbo)) (q.edge (.byte incbo)) := by
  have e : f.edge (.byte incbo) =
      { f with bytePtr := if incbo then f.bytePtr + 1 else f.bytePtr } := by
    cases incbo <;> rfl
  rw [e]
  exact
    { begun := hH.begun
      owed := hH.owed
      level := hH.level
      ptrs := hH.ptrs
      writePtr := hH.writePtr
      byte := by rw [hH.byte]; rfl
      items := hH.items
      written := hH.written }

/-- Every legal edge keeps the FIFO and the queue together. -/
theorem edge (e : Fifo.Edge) (hl : q.Legal e) : Held (f.edge e) (q.edge e) := by
  cases e with
  | store lhword llword lbyte_ id => exact hH.store lhword llword lbyte_ id hl
  | ptrs incni incno => exact hH.ptrs_edge incni incno hl
  | count incfifo decfifo => exact hH.count_edge incfifo decfifo hl
  | byte incbo => exact hH.byte_edge incbo

/-- Outside a push and a pop the flags tell the number of items. -/
theorem flags (hs : q.Settled) :
    (f.full = true ↔ q.items.length = 2 ^ k) ∧ (f.empty = true ↔ q.items = []) := by
  obtain ⟨h1, h2⟩ := hs
  have hlv := hH.level
  rw [Queue.begun, h1, h2] at hlv
  have e : f.level = q.items.length := hlv
  rw [Fifo.full_eq, Fifo.empty_eq, decide_eq_true_iff, decide_eq_true_iff, e,
    List.length_eq_zero_iff]
  exact ⟨Iff.rfl, Iff.rfl⟩

theorem od_eq {w : Longword} (hw : w ∈ q.items.head?) : f.od = w := by
  have hi := hH.items
  cases hq : q.items with
  | nil =>
      rw [hq] at hw
      exact (Option.not_mem_none w hw).elim
  | cons v vs =>
      rw [hq, List.length_cons, Ring.window_cons] at hi
      rw [hq, List.head?_cons, Option.mem_some_iff] at hw
      exact (List.cons.inj hi).1.trans hw

end Held

/-! ## §5 Every sequence of operations -/

/-- The empty queue after a reset. -/
def start (k : ℕ) (a1 : Bool) : Queue k where
  byte := if a1 then 2 else 0

theorem held_reset (a1 : Bool) (f : Fifo k) : Held (f.reset a1) (start k a1) := by
  rw [Fifo.reset_eq]
  exact
    { begun := Nat.zero_le _
      owed := le_rfl
      level := rfl
      ptrs := rfl
      writePtr := rfl
      byte := rfl
      items := rfl
      written := fun i _ l => by rcases mem_lanes l with rfl | rfl | rfl | rfl <;> rfl }

theorem held_run {f : Fifo k} {q : Queue k} (hH : Held f q) {es : List Fifo.Edge}
    (h : Runs.Along edge Legal q es) : Held (Runs.run Fifo.edge f es) (Runs.run edge q es) := by
  induction es generalizing f q with
  | nil => exact hH
  | cons e es ih => exact ih (hH.edge e h.1) h.2

/-- After a reset and any legal sequence of edges the entries between the pointers are
the queue, `FIFO_OD` is its oldest longword, and outside a push and a pop the flags tell
a full and an empty queue. -/
theorem fifo_refines_queue (a1 : Bool) (f : Fifo k) {es : List Fifo.Edge}
    (h : Runs.Along edge Legal (start k a1) es) :
    let f' := Runs.run Fifo.edge (f.reset a1) es
    let q := Runs.run edge (start k a1) es
    Ring.window f'.buffer f'.readPtr q.items.length = q.items ∧
      (∀ w ∈ q.items.head?, f'.od = w) ∧
      (q.Settled → (f'.full = true ↔ q.items.length = 2 ^ k) ∧ (f'.empty = true ↔ q.items = [])) := by
  have hH := held_run (held_reset a1 f) h
  exact ⟨hH.items, fun w hw => hH.od_eq hw, hH.flags⟩

/-- A word and two bytes make a longword, pushed in either order of its halves. -/
theorem fifo_refines_queue_two :
    let es : List Fifo.Edge :=
      [.store true false true ⟨1, 2, 3, 4⟩, .byte true, .byte true,
        .store false false false ⟨5, 5, 5, 5⟩, .byte true, .store false false false ⟨6, 6, 6, 6⟩,
        .byte true, .ptrs true false, .count true false, .store true true true ⟨7, 8, 9, 10⟩,
        .count true false, .ptrs true false, .ptrs false true, .count false true]
    let f' := Runs.run Fifo.edge (({} : Fifo 1).reset false) es
    let q := Runs.run edge (start 1 false) es
    Ring.window f'.buffer f'.readPtr q.items.length = q.items ∧
      (∀ w ∈ q.items.head?, f'.od = w) ∧
      (q.Settled → (f'.full = true ↔ q.items.length = 2 ^ 1) ∧ (f'.empty = true ↔ q.items = [])) :=
  fifo_refines_queue false {} (by decide)

end Queue

end Resdmac
