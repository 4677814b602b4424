import Mathlib.Data.Nat.Cast.Basic
import Mathlib.Logic.Function.Basic
import Mathlib.Tactic.Common

/-!
# Addressed Memory

A memory is a function from addresses to values. A block transfer writes or reads a list
of values at consecutive addresses. The addresses may be a fixed-width counter: then a
block wraps around, and it is read back as it was written if it fits into the address
space.

## Main definitions

- `Memory.load` — the values of a block
- `Memory.store` — the memory after a block was written
- `Memory.storeAll` — the memory after several blocks were written

## Main results

- `Memory.store_append`, `Memory.load_add` — a block in two parts
- `Memory.load_store` — a block reads back
- `Memory.store_of_outside` — the rest of the memory stays
- `Memory.load_storeAll` — a block reads back unless a later one overlaps it
-/

namespace Memory

variable {α β : Type*} [AddCommMonoidWithOne α]

theorem add_one_add_cast (a : α) (i : ℕ) : a + 1 + i = a + ((i + 1 : ℕ) : α) := by
  rw [Nat.cast_succ, add_assoc, add_comm 1]

/-! ## §1 Reading a block -/

/-- The values at `n` consecutive addresses. -/
def load (m : α → β) (a : α) : ℕ → List β
  | 0 => []
  | n + 1 => m a :: load m (a + 1) n

section Load

variable {m : α → β} {a : α}

@[simp] theorem load_zero : load m a 0 = [] := rfl

@[simp] theorem load_length (n : ℕ) : (load m a n).length = n := by
  induction n generalizing a with
  | zero => rfl
  | succ n ih => rw [load, List.length_cons, ih]

/-- A block is read in two parts. -/
theorem load_add (k n : ℕ) : load m a (k + n) = load m a k ++ load m (a + k) n := by
  induction k generalizing a with
  | zero => rw [Nat.zero_add, Nat.cast_zero, add_zero, load_zero, List.nil_append]
  | succ k ih => rw [Nat.succ_add, load, ih, load, List.cons_append, add_one_add_cast]

theorem load_prefix {k n : ℕ} (h : k ≤ n) : load m a k <+: load m a n := by
  obtain ⟨d, rfl⟩ := Nat.exists_eq_add_of_le h
  rw [load_add]
  exact List.prefix_append ..

/-- A block is made of the values at its addresses. -/
theorem load_congr {m' : α → β} {n : ℕ} (h : ∀ i < n, m (a + i) = m' (a + i)) :
    load m a n = load m' a n := by
  induction n generalizing a with
  | zero => rfl
  | succ n ih =>
      have h0 := h 0 (Nat.succ_pos _)
      rw [Nat.cast_zero, add_zero] at h0
      rw [load, load, h0, ih]
      intro i hi
      rw [add_one_add_cast]
      exact h (i + 1) (Nat.succ_lt_succ hi)

end Load

/-! ## §2 Writing a block -/

variable [DecidableEq α]

/-- The memory after a list of values was written, the first one at the address. -/
def store : (α → β) → α → List β → α → β
  | m, _, [] => m
  | m, a, b :: bs => store (Function.update m a b) (a + 1) bs

section Store

variable {m : α → β} {a : α} {bs cs : List β}

@[simp] theorem store_nil : store m a [] = m := rfl

/-- A block is written in two parts. -/
theorem store_append : store m a (bs ++ cs) = store (store m a bs) (a + bs.length) cs := by
  induction bs generalizing m a with
  | nil => rw [List.nil_append, List.length_nil, Nat.cast_zero, add_zero, store_nil]
  | cons b bs ih => rw [List.cons_append, store, ih, store, List.length_cons, add_one_add_cast]

/-- What lies outside the block stays. -/
theorem store_of_outside {c : α} (h : ∀ i < bs.length, c ≠ a + i) : store m a bs c = m c := by
  -- on the block, with the memory that its first value leaves
  induction bs generalizing m a with
  | nil => rfl
  | cons b bs ih =>
      rw [store, ih]
      · have h0 := h 0 (Nat.succ_pos _)
        rw [Nat.cast_zero, add_zero] at h0
        exact Function.update_of_ne h0 b m
      · intro i hi
        rw [add_one_add_cast]
        exact h (i + 1) (Nat.succ_lt_succ hi)

/-- No two values of a block of `n` share an address. -/
def Fits (a : α) (n : ℕ) : Prop := ∀ i < n, ∀ j < n, a + (i : α) = a + j → i = j

/-- A block reads back as it was written. -/
theorem load_store (h : Fits a bs.length) : load (store m a bs) a bs.length = bs := by
  induction bs generalizing m a with
  | nil => rfl
  | cons b bs ih =>
      have hfirst : store (Function.update m a b) (a + 1) bs a = b := by
        rw [store_of_outside, Function.update_self]
        intro i hi he
        rw [add_one_add_cast] at he
        have hz := h 0 (Nat.succ_pos _) (i + 1) (Nat.succ_lt_succ hi)
        rw [Nat.cast_zero, add_zero] at hz
        exact Nat.succ_ne_zero i (hz he).symm
      have hfits : Fits (a + 1) bs.length := fun i hi j hj he => by
        rw [add_one_add_cast, add_one_add_cast] at he
        exact Nat.succ.inj (h (i + 1) (Nat.succ_lt_succ hi) (j + 1) (Nat.succ_lt_succ hj) he)
      rw [List.length_cons, load, store, hfirst, ih hfits]

end Store

/-! ## §3 Blocks one after the other -/

/-- The memory after several blocks were written. -/
def storeAll (m : α → β) (rs : List (α × List β)) : α → β :=
  rs.foldl (fun m r => store m r.1 r.2) m

section StoreAll

variable {m : α → β} {rs : List (α × List β)}

theorem storeAll_append (r : α × List β) :
    storeAll m (rs ++ [r]) = store (storeAll m rs) r.1 r.2 := List.foldl_append

/-- What lies outside all blocks stays. -/
theorem storeAll_of_outside {c : α} (h : ∀ r ∈ rs, ∀ i < r.2.length, c ≠ r.1 + i) :
    storeAll m rs c = m c := by
  induction rs generalizing m with
  | nil => rfl
  | cons r rs ih =>
      have hrest := ih (m := store m r.1 r.2) fun r' hr' => h r' (List.mem_cons_of_mem r hr')
      exact hrest.trans (store_of_outside (h r List.mem_cons_self))

/-- A block reads back as it was written, unless one that was written later overlaps it. -/
theorem load_storeAll {before after : List (α × List β)} {a : α} {bs : List β}
    (h : Fits a bs.length)
    (ho : ∀ r ∈ after, ∀ i < r.2.length, ∀ j < bs.length, a + (j : α) ≠ r.1 + i) :
    load (storeAll m (before ++ (a, bs) :: after)) a bs.length = bs := by
  have hsplit : storeAll m (before ++ (a, bs) :: after) =
      storeAll (store (storeAll m before) a bs) after := List.foldl_append
  have hstays : ∀ j < bs.length, storeAll (store (storeAll m before) a bs) after (a + j) =
      store (storeAll m before) a bs (a + j) :=
    fun j hj => storeAll_of_outside fun r hr i hi => ho r hr i hi j hj
  -- the block is as the write left it
  rw [hsplit, load_congr hstays, load_store h]

end StoreAll

end Memory
