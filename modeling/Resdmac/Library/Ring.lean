import Mathlib.Data.BitVec
import Mathlib.Tactic.Common

/-!
# Ring Buffers Addressed by Machine Words

A ring buffer of `2 ^ k` entries has a write pointer and a read pointer of `k` bits,
which wrap by themselves. This module relates the pointers to the number of entries
between them and gives the list of these entries.

## Main definitions

- `Ring.Marks` — a map that marks exactly the entries between the pointers
- `Ring.window` — the entries between the pointers, the oldest first
-/

namespace Ring

variable {k : ℕ} {α : Type*}

/-! ## §1 Pointers -/

theorem ofNat_succ (n : ℕ) : BitVec.ofNat k (n + 1) = BitVec.ofNat k n + 1 :=
  BitVec.ofNat_add n 1

/-- Both pointers keep their distance: `e` adds an entry, `d` removes one. -/
theorem ptr_step {wp rp : BitVec k} {n n' : ℕ} {d e : Bool}
    (h : wp = rp + BitVec.ofNat k n) (hn : n' + d.toNat = n + e.toNat) :
    (if e then wp + 1 else wp) = (if d then rp + 1 else rp) + BitVec.ofNat k n' := by
  subst h
  cases d <;> cases e
  · obtain rfl : n' = n := hn
    rfl
  · obtain rfl : n' = n + 1 := hn
    rw [ofNat_succ]
    exact add_assoc ..
  · obtain rfl : n' + 1 = n := hn
    rw [ofNat_succ, add_comm (BitVec.ofNat k n') 1]
    exact (add_assoc ..).symm
  · obtain rfl : n' = n := Nat.add_right_cancel hn
    exact add_right_comm ..

/-! ## §2 The entries in use -/

/-- `m` marks exactly the `n` entries from `rp` on. -/
def Marks (rp : BitVec k) (n : ℕ) (m : BitVec k → Bool) : Prop :=
  ∀ i, m i = true ↔ (i - rp).toNat < n

theorem Marks.empty (rp : BitVec k) : Marks rp 0 fun _ => false := by
  simp [Marks]

theorem sub_toNat_ptr (rp : BitVec k) {n : ℕ} (h : n < 2 ^ k) :
    (rp + BitVec.ofNat k n - rp).toNat = n := by
  rw [add_sub_cancel_left, BitVec.toNat_ofNat, Nat.mod_eq_of_lt h]

/-- The entry at the write pointer is not in use while there is room. -/
theorem Marks.not_mark_next {rp wp : BitVec k} {n : ℕ} {m : BitVec k → Bool} (hm : Marks rp n m)
    (hw : wp = rp + BitVec.ofNat k n) (hn : n < 2 ^ k) : m wp = false := by
  refine Bool.eq_false_iff.mpr fun h => ?_
  have h' := (hm wp).mp h
  rw [hw, sub_toNat_ptr rp hn] at h'
  exact lt_irrefl n h'

/-- Adding an entry at the write pointer. -/
theorem Marks.push {rp wp : BitVec k} {n : ℕ} {m : BitVec k → Bool} (hm : Marks rp n m)
    (hw : wp = rp + BitVec.ofNat k n) (hn : n < 2 ^ k) :
    Marks rp (n + 1) (Function.update m wp true) := by
  intro i
  by_cases hi : i = wp
  · rw [hi, Function.update_self, hw, sub_toNat_ptr rp hn]
    simp
  · have hne : (i - rp).toNat ≠ n := by
      intro e
      refine hi ?_
      rw [hw, ← e, BitVec.ofNat_toNat, BitVec.setWidth_eq]
      exact (add_sub_cancel rp i).symm
    rw [Function.update_of_ne hi, hm i]
    omega

/-- Removing the entry at the read pointer. -/
theorem Marks.pop {rp : BitVec k} {n : ℕ} {m : BitVec k → Bool} (hm : Marks rp (n + 1) m)
    (hn : n < 2 ^ k) : Marks (rp + 1) n (Function.update m rp false) := by
  intro i
  have e : i - (rp + 1) = i - rp - 1 := sub_add_eq_sub_sub ..
  rw [e]
  by_cases hi : i = rp
  · rw [hi, Function.update_self, sub_self]
    have h0 : n ≤ (0 - 1 : BitVec k).toNat := by
      rw [BitVec.toNat_sub, show (0 : BitVec k).toNat = 0 from BitVec.toNat_zero]
      rcases k with _ | k
      · exact (Nat.lt_one_iff.mp hn).le
      · rw [show (1 : BitVec (k + 1)).toNat = 1 from BitVec.toNat_one (by omega),
          Nat.mod_eq_of_lt (by omega)]
        omega
    simp only [Bool.false_eq_true, false_iff, not_lt]
    exact h0
  · have hx : i - rp ≠ 0 := fun h => hi (sub_eq_zero.mp h)
    have h1 : (i - rp - 1).toNat = (i - rp).toNat - 1 := by
      rcases k with _ | k
      · exact absurd (Subsingleton.elim _ _) hx
      · have hpos : (i - rp).toNat ≠ 0 := fun h => hx (BitVec.eq_of_toNat_eq h)
        have hlt := (i - rp).isLt
        rw [BitVec.toNat_sub, show (1 : BitVec (k + 1)).toNat = 1 from BitVec.toNat_one (by omega),
          show 2 ^ (k + 1) - 1 + (i - rp).toNat = 2 ^ (k + 1) + ((i - rp).toNat - 1) by omega,
          Nat.add_mod_left, Nat.mod_eq_of_lt (by omega)]
    have hpos : (i - rp).toNat ≠ 0 := fun h => hx (BitVec.eq_of_toNat_eq (by rw [h]; simp))
    rw [Function.update_of_ne hi, hm i, h1]
    omega

/-- One step of the ring: `d` removes the oldest entry, `e` adds one behind the newest. -/
theorem Marks.step {rp wp : BitVec k} {n n' : ℕ} {m : BitVec k → Bool} {d e : Bool}
    (hm : Marks rp n m) (hw : wp = rp + BitVec.ofNat k n) (hn : n' + d.toNat = n + e.toNat)
    (hd : d = true → 1 ≤ n) (hle : n ≤ 2 ^ k) (hle' : n' ≤ 2 ^ k) :
    Marks (if d then rp + 1 else rp) n'
      (if e then Function.update (if d then Function.update m rp false else m) wp true
        else if d then Function.update m rp false else m) := by
  cases d with
  | false =>
      cases e with
      | false =>
          obtain rfl : n' = n := hn
          exact hm
      | true =>
          obtain rfl : n' = n + 1 := hn
          exact hm.push hw hle'
  | true =>
      obtain ⟨n, rfl⟩ : ∃ j, n = j + 1 := ⟨n - 1, by have := hd rfl; omega⟩
      have hpop := hm.pop (Nat.lt_of_succ_le hle)
      cases e with
      | false =>
          obtain rfl : n' = n := Nat.add_right_cancel hn
          exact hpop
      | true =>
          obtain rfl : n' = n + 1 := Nat.add_right_cancel hn
          refine hpop.push ?_ hle
          rw [hw, ofNat_succ, add_comm (BitVec.ofNat k n) 1]
          exact (add_assoc ..).symm

/-! ## §3 The entries in order -/

/-- The `n` entries from `rp` on. -/
def window (buf : BitVec k → α) (rp : BitVec k) (n : ℕ) : List α :=
  (List.range n).map fun i => buf (rp + BitVec.ofNat k i)

section Window

variable {buf : BitVec k → α} {rp wp : BitVec k} {n : ℕ}

@[simp] theorem window_zero : window buf rp 0 = [] := rfl

@[simp] theorem window_length : (window buf rp n).length = n := by
  rw [window, List.length_map, List.length_range]

theorem window_succ : window buf rp (n + 1) = window buf rp n ++ [buf (rp + BitVec.ofNat k n)] := by
  rw [window, List.range_succ, List.map_append]
  rfl

theorem window_cons : window buf rp (n + 1) = buf rp :: window buf (rp + 1) n := by
  rw [window, List.range_succ_eq_map, List.map_cons, List.map_map]
  congr 1
  · exact congrArg buf (add_zero rp)
  · refine List.map_congr_left fun i _ => congrArg buf ?_
    rw [Nat.succ_eq_add_one, ofNat_succ, add_comm (BitVec.ofNat k i) 1]
    exact (add_assoc ..).symm

/-- A write to the entry behind the newest one is not seen. -/
theorem window_update (hw : wp = rp + BitVec.ofNat k n) (hn : n < 2 ^ k) (x : α) :
    window (Function.update buf wp x) rp n = window buf rp n := by
  refine List.map_congr_left fun i hi => Function.update_of_ne (fun e => ?_) _ _
  have hi' := List.mem_range.mp hi
  have e' : (BitVec.ofNat k i).toNat = (BitVec.ofNat k n).toNat := by
    rw [add_left_cancel (e.trans hw)]
  rw [BitVec.toNat_ofNat, BitVec.toNat_ofNat, Nat.mod_eq_of_lt (hi'.trans hn),
    Nat.mod_eq_of_lt hn] at e'
  omega

end Window

end Ring
