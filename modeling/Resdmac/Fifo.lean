import Mathlib.Tactic.SplitIfs
import Resdmac.Signals

/-!
# The FIFO

`RTL/FIFO`: a buffer of `2 ^ k` longwords (`DEPTH`), the full/empty counter, the
next-in and next-out pointers and the byte pointer. Each part is clocked on its
own edge:

- `BUFFER` on CLK90 rising,
- `WRITE_PTR` and `READ_PTR` on CLK135 rising,
- `COUNT` on SCLK falling,
- `BYTE_PTR` on CLK90 falling.
-/

namespace Resdmac

/-- The registers of module `fifo` with `DEPTH = 2 ^ k`. -/
structure Fifo (k : ℕ) where
  /-- `COUNT` of `fifo__full_empty_ctr`, `$clog2(DEPTH + 1)` bits -/
  count : BitVec (k + 1) := 0
  /-- `WRITE_PTR` of `u_next_in_cntr` -/
  writePtr : BitVec k := 0
  /-- `READ_PTR` of `u_next_out_cntr` -/
  readPtr : BitVec k := 0
  /-- `BYTE_PTR` of `u_byte_ptr` -/
  bytePtr : BitVec 2 := 0
  /-- `BUFFER` -/
  buffer : BitVec k → Longword := fun _ => {}

namespace Fifo

variable {k : ℕ}

/-! ## §1 Flags -/

/-- `MAX` of the counter, i.e. `DEPTH`. -/
def max (k : ℕ) : BitVec (k + 1) := BitVec.ofNat (k + 1) (2 ^ k)

def full (f : Fifo k) : Bool := f.count == max k

def empty (f : Fifo k) : Bool := f.count == 0

def bo0 (f : Fifo k) : Bool := f.bytePtr.getLsbD 0

def bo1 (f : Fifo k) : Bool := f.bytePtr.getLsbD 1

def boeq0 (f : Fifo k) : Bool := f.bytePtr == 0

def boeq3 (f : Fifo k) : Bool := f.bytePtr == 3

/-- `FIFO_OD`: the entry at the read pointer. -/
def od (f : Fifo k) : Longword := f.buffer f.readPtr

/-- The byte pointer does not wrap before the last byte. -/
theorem toNat_bytePtr_succ {f : Fifo k} (h : f.boeq3 = false) :
    (f.bytePtr + 1).toNat = f.bytePtr.toNat + 1 := by
  have hne : f.bytePtr ≠ 3 := beq_eq_false_iff_ne.mp h
  bv_omega

/-! ## §2 Write strobes -/

/-- `fifo_write_strobes`: the four lane strobes. -/
structure Strobes where
  uuws : Bool
  umws : Bool
  lmws : Bool
  llws : Bool

def writeStrobes (f : Fifo k) (lhword llword lbyte_ : Bool) : Strobes where
  uuws := (!f.bo1 && !f.bo0 && !lbyte_) || lhword
  umws := (!f.bo1 && f.bo0 && !lbyte_) || lhword
  lmws := (f.bo1 && !f.bo0 && !lbyte_) || llword
  llws := (f.bo1 && f.bo0 && !lbyte_) || llword

/-- The strobed lanes of `id` replace those of `w`. -/
def Strobes.write (ws : Strobes) (id w : Longword) : Longword where
  uu := if ws.uuws then id.uu else w.uu
  um := if ws.umws then id.um else w.um
  lm := if ws.lmws then id.lm else w.lm
  ll := if ws.llws then id.ll else w.ll

theorem write_idle (f : Fifo k) (id w : Longword) :
    (f.writeStrobes false false true).write id w = w := by
  simp [writeStrobes, Strobes.write]

/-! ## §3 Clock edges -/

/-- CLK90 rising: `WRITE DATA TO FIFO BUFFER`. -/
def store (f : Fifo k) (rst_ : Bool) (ws : Strobes) (id : Longword) : Fifo k :=
  if rst_ then
    { f with buffer := Function.update f.buffer f.writePtr (ws.write id (f.buffer f.writePtr)) }
  else
    { f with buffer := fun _ => {} }

/-- CLK135 rising: `fifo_3bit_cntr`, twice. -/
def movePtrs (f : Fifo k) (rst_ incni incno : Bool) : Fifo k :=
  if rst_ then
    { f with
      writePtr := if incni then f.writePtr + 1 else f.writePtr
      readPtr := if incno then f.readPtr + 1 else f.readPtr }
  else
    { f with writePtr := 0, readPtr := 0 }

/-- SCLK falling: `fifo__full_empty_ctr`. With both strobes active the second
nonblocking assignment wins. -/
def countStep (f : Fifo k) (rst_ inc dec : Bool) : Fifo k :=
  if rst_ then
    -- nothing keeps `COUNT` from wrapping at either end
    if dec then { f with count := if f.count = 0 then max k else f.count - 1 }
    else if inc then { f with count := if f.count = max k then 0 else f.count + 1 }
    else f
  else
    { f with count := 0 }

/-- CLK90 falling: `fifo_byte_ptr`, loaded with `{A1, 1'b0}` in reset. -/
def moveBytePtr (f : Fifo k) (rst_ incbo a1 : Bool) : Fifo k :=
  if rst_ then
    if incbo then { f with bytePtr := f.bytePtr + 1 } else f
  else
    { f with bytePtr := if a1 then 2 else 0 }

/-! ## §4 What each edge leaves alone -/

section Frame

variable (f : Fifo k) (rst_ a b : Bool) (ws : Strobes) (id : Longword)

@[simp] theorem store_count : (f.store rst_ ws id).count = f.count := by
  cases rst_ <;> rfl

@[simp] theorem store_writePtr : (f.store rst_ ws id).writePtr = f.writePtr := by
  cases rst_ <;> rfl

@[simp] theorem store_readPtr : (f.store rst_ ws id).readPtr = f.readPtr := by
  cases rst_ <;> rfl

@[simp] theorem store_bytePtr : (f.store rst_ ws id).bytePtr = f.bytePtr := by
  cases rst_ <;> rfl

@[simp] theorem movePtrs_count : (f.movePtrs rst_ a b).count = f.count := by
  cases rst_ <;> rfl

@[simp] theorem movePtrs_bytePtr : (f.movePtrs rst_ a b).bytePtr = f.bytePtr := by
  cases rst_ <;> rfl

@[simp] theorem movePtrs_buffer : (f.movePtrs rst_ a b).buffer = f.buffer := by
  cases rst_ <;> rfl

@[simp] theorem countStep_writePtr : (f.countStep rst_ a b).writePtr = f.writePtr := by
  unfold countStep; split_ifs <;> rfl

@[simp] theorem countStep_readPtr : (f.countStep rst_ a b).readPtr = f.readPtr := by
  unfold countStep; split_ifs <;> rfl

@[simp] theorem countStep_bytePtr : (f.countStep rst_ a b).bytePtr = f.bytePtr := by
  unfold countStep; split_ifs <;> rfl

@[simp] theorem countStep_buffer : (f.countStep rst_ a b).buffer = f.buffer := by
  unfold countStep; split_ifs <;> rfl

@[simp] theorem moveBytePtr_count : (f.moveBytePtr rst_ a b).count = f.count := by
  unfold moveBytePtr; split_ifs <;> rfl

@[simp] theorem moveBytePtr_writePtr : (f.moveBytePtr rst_ a b).writePtr = f.writePtr := by
  unfold moveBytePtr; split_ifs <;> rfl

@[simp] theorem moveBytePtr_readPtr : (f.moveBytePtr rst_ a b).readPtr = f.readPtr := by
  unfold moveBytePtr; split_ifs <;> rfl

@[simp] theorem moveBytePtr_buffer : (f.moveBytePtr rst_ a b).buffer = f.buffer := by
  unfold moveBytePtr; split_ifs <;> rfl

end Frame

/-! ## §5 What each edge sets -/

section Effect

variable (f : Fifo k) (rst_ a b : Bool) (ws : Strobes) (id : Longword)

theorem store_buffer :
    (f.store rst_ ws id).buffer =
      if rst_ then Function.update f.buffer f.writePtr (ws.write id (f.buffer f.writePtr))
      else fun _ => {} := by
  cases rst_ <;> rfl

theorem movePtrs_writePtr :
    (f.movePtrs rst_ a b).writePtr =
      if rst_ then if a then f.writePtr + 1 else f.writePtr else 0 := by
  cases rst_ <;> rfl

theorem movePtrs_readPtr :
    (f.movePtrs rst_ a b).readPtr =
      if rst_ then if b then f.readPtr + 1 else f.readPtr else 0 := by
  cases rst_ <;> rfl

theorem countStep_count :
    (f.countStep rst_ a b).count =
      if rst_ then
        if b then if f.count = 0 then max k else f.count - 1
        else if a then if f.count = max k then 0 else f.count + 1
        else f.count
      else 0 := by
  cases rst_ <;> cases a <;> cases b <;> rfl

theorem moveBytePtr_bytePtr :
    (f.moveBytePtr rst_ a b).bytePtr =
      if rst_ then if a then f.bytePtr + 1 else f.bytePtr else if b then 2 else 0 := by
  cases rst_ <;> cases a <;> rfl

end Effect

/-! ## §6 The fill level -/

/-- `COUNT` as a number. -/
def level (f : Fifo k) : ℕ := f.count.toNat

theorem level_max : (max k).toNat = 2 ^ k := by
  rw [max, BitVec.toNat_ofNat, Nat.mod_eq_of_lt (Nat.pow_lt_pow_right (by decide) k.lt_succ_self)]

theorem count_eq_max_iff (f : Fifo k) : f.count = max k ↔ f.level = 2 ^ k := by
  rw [level, ← level_max, BitVec.toNat_inj]

theorem count_eq_zero_iff (f : Fifo k) : f.count = 0 ↔ f.level = 0 := by
  rw [level, ← BitVec.toNat_inj]
  rfl

theorem full_eq (f : Fifo k) : f.full = decide (f.level = 2 ^ k) := by
  rw [full, beq_eq_decide, decide_eq_decide, count_eq_max_iff]

theorem empty_eq (f : Fifo k) : f.empty = decide (f.level = 0) := by
  rw [empty, beq_eq_decide, decide_eq_decide, count_eq_zero_iff]

/-- A step of the counter on the level: down has priority over up, and both wrap. -/
theorem level_countStep (f : Fifo k) (rst_ inc dec : Bool) (h : f.level ≤ 2 ^ k) :
    (f.countStep rst_ inc dec).level =
      if rst_ then
        if dec then if f.level = 0 then 2 ^ k else f.level - 1
        else if inc then if f.level = 2 ^ k then 0 else f.level + 1
        else f.level
      else 0 := by
  have hk : 0 < 2 ^ k := Nat.two_pow_pos k
  have hs : 2 ^ (k + 1) = 2 * 2 ^ k := by rw [Nat.pow_succ, Nat.mul_comm]
  have h1 : (1 : BitVec (k + 1)).toNat = 1 := by
    exact (BitVec.toNat_ofNat ..).trans (Nat.mod_eq_of_lt (Nat.one_lt_two_pow k.succ_ne_zero))
  rw [level, countStep_count]
  simp only [count_eq_zero_iff, count_eq_max_iff]
  unfold level at h ⊢
  split_ifs with hr hd h0 hi hm
  · exact level_max
  · have e : 2 ^ (k + 1) - 1 + f.count.toNat = 2 ^ (k + 1) + (f.count.toNat - 1) := by omega
    rw [BitVec.toNat_sub, h1, e, Nat.add_mod_left, Nat.mod_eq_of_lt (by omega)]
  · rfl
  · rw [BitVec.toNat_add, h1, Nat.mod_eq_of_lt (by omega)]
  · rfl
  · rfl

end Fifo

end Resdmac
