import Mathlib.Data.List.Induction
import Mathlib.Order.WellFounded
import Mathlib.Tactic.Common

/-!
# Runs of a System under Legal Inputs

A system is a total step function on states and inputs; the environment chooses
the inputs, one a step, within a predicate that may read the state. This module
fixes the vocabulary of its runs and the rules by which facts about one step
become facts about every run.

## Main definitions

- `Runs.run` — the state after a list of inputs
- `Runs.Along` — a predicate of states and inputs holds at every step of a run
- `Runs.states` — the states of an infinite run
- `Runs.driven` — the states of the run in which the inputs answer the states
- `Runs.countBefore` — how many steps of an infinite run are of a kind

## Main results

- `Runs.invariant_run` — an invariant of the legal steps holds after every legal run
- `Runs.along_of_invariant` — what holds at each legal step under an invariant holds
  at every step of a legal run
- `Runs.run_last` — a register holds what the last write to it left
- `Runs.exists_first` — an event that happens finds what the steps before it keep
- `Runs.reaches_within` — a measure that falls at every step bounds the way to the goal
- `Runs.reaches_of_measure` — a measure that keeps falling takes a run to its goal
- `Runs.reaches_of_just` — each state waits for one of several conditions that come again
  and again
-/

namespace Runs

variable {σ ι : Type*} (step : σ → ι → σ)

/-! ## §1 Finite runs -/

/-- The state after the inputs of a list, the first one first. -/
def run (s : σ) (is : List ι) : σ := is.foldl step s

/-- `P` holds at every step of the run: of the state before it and its input. -/
def Along (P : σ → ι → Prop) : σ → List ι → Prop
  | _, [] => True
  | s, i :: is => P s i ∧ Along P (step s i) is

instance Along.instDecidable (P : σ → ι → Prop) [∀ s i, Decidable (P s i)] :
    ∀ s is, Decidable (Along step P s is)
  | _, [] => isTrue trivial
  | s, i :: is =>
      haveI := Along.instDecidable P (step s i) is
      inferInstanceAs (Decidable (P s i ∧ Along step P (step s i) is))

section Finite

variable {step} {P Q : σ → ι → Prop} {I : σ → Prop} {s : σ} {i : ι} {is js : List ι}

@[simp] theorem run_nil : run step s [] = s := rfl

@[simp] theorem run_cons : run step s (i :: is) = run step (step s i) is := rfl

theorem run_append : run step s (is ++ js) = run step (run step s is) js :=
  List.foldl_append

@[simp] theorem along_nil : Along step P s [] := trivial

@[simp] theorem along_cons :
    Along step P s (i :: is) ↔ P s i ∧ Along step P (step s i) is := Iff.rfl

theorem along_append :
    Along step P s (is ++ js) ↔ Along step P s is ∧ Along step P (run step s is) js := by
  induction is generalizing s with
  | nil => simp
  | cons i is ih => simp [ih, and_assoc]

theorem Along.mono (hPQ : ∀ s i, P s i → Q s i) (h : Along step P s is) :
    Along step Q s is := by
  induction is generalizing s with
  | nil => trivial
  | cons i is ih => exact ⟨hPQ s i h.1, ih h.2⟩

theorem along_of_forall {R : ι → Prop} (h : ∀ i ∈ is, R i) : Along step (fun _ i => R i) s is := by
  induction is generalizing s with
  | nil => trivial
  | cons i is ih =>
      exact ⟨h i List.mem_cons_self, ih fun j hj => h j (List.mem_cons_of_mem _ hj)⟩

theorem Along.and (hP : Along step P s is) (hQ : Along step Q s is) :
    Along step (fun s i => P s i ∧ Q s i) s is := by
  induction is generalizing s with
  | nil => trivial
  | cons i is ih => exact ⟨⟨hP.1, hQ.1⟩, ih hP.2 hQ.2⟩

/-- A run that does not keep to a predicate has a step at which it fails. -/
theorem exists_of_not_along (h : ¬ Along step P s is) :
    ∃ js i ks, is = js ++ i :: ks ∧ ¬ P (run step s js) i := by
  induction is generalizing s with
  | nil => exact absurd trivial h
  | cons i is ih =>
      by_cases hp : P s i
      · obtain ⟨js, j, ks, rfl, hj⟩ := ih fun hs => h ⟨hp, hs⟩
        exact ⟨i :: js, j, ks, rfl, hj⟩
      · exact ⟨[], i, is, rfl, hp⟩

/-- A run that ends outside a predicate of states is what led up to the last step from inside it,
if there is one, and then a stretch outside. -/
theorem exists_stretch {p : σ → Prop} (h : ¬ p (run step s is)) :
    ∃ js ks, is = js ++ ks ∧ (∀ js' j, js = js' ++ [j] → p (run step s js')) ∧
      Along step (fun t _ => ¬ p t) (run step s js) ks := by
  induction is using List.reverseRecOn with
  | nil => exact ⟨[], [], rfl, fun js' j e => absurd e.symm (List.append_ne_nil_of_right_ne_nil js'
      (List.cons_ne_nil j [])), trivial⟩
  | append_singleton is i ih =>
      by_cases hp : p (run step s is)
      · refine ⟨is ++ [i], [], (List.append_nil _).symm, fun js' j e => ?_, trivial⟩
        obtain ⟨rfl, -⟩ := List.append_inj' e rfl
        exact hp
      · obtain ⟨js, ks, rfl, hstop, hout⟩ := ih hp
        refine ⟨js, ks ++ [i], List.append_assoc .., hstop, along_append.mpr ⟨hout, ?_, trivial⟩⟩
        rw [← run_append]
        exact hp

/-- An invariant of the legal steps holds after every legal run. -/
theorem invariant_run (hstep : ∀ s i, I s → P s i → I (step s i)) (hs : I s)
    (h : Along step P s is) : I (run step s is) := by
  induction is generalizing s with
  | nil => exact hs
  | cons i is ih => exact ih (hstep s i hs h.1) h.2

/-- What every legal step does under an invariant holds along every legal run. -/
theorem along_of_invariant (hstep : ∀ s i, I s → P s i → Q s i ∧ I (step s i)) (hs : I s)
    (h : Along step P s is) : Along step Q s is := by
  induction is generalizing s with
  | nil => trivial
  | cons i is ih =>
      obtain ⟨hQ, hI⟩ := hstep s i hs h.1
      exact ⟨hQ, ih hI h.2⟩

/-- A register that some inputs write and all others keep holds what the last write left. -/
theorem run_last {α β : Type*} {f : σ → β} {w : ι → Option α} {g : α → β}
    (h : ∀ i ∈ is, ∀ s, f (step s i) = (w i).elim (f s) g) :
    f (run step s is) = (is.filterMap w).getLast?.elim (f s) g := by
  induction is using List.reverseRecOn with
  | nil => rfl
  | append_singleton is i ih =>
      have hi := h i (by simp)
      have ih := ih fun j hj => h j (by simp [hj])
      simp only [run_append, run_cons, run_nil, hi, List.filterMap_append]
      cases hw : w i with
      | none => simp [hw, ih]
      | some v => simp [hw]

/-- The last write of a list in which all writes agree. -/
theorem getLast?_filterMap_const {α : Type*} {w : ι → Option α} {p : ι → Bool} {v : α}
    (h : ∀ i ∈ is, w i = if p i then some v else none) :
    (is.filterMap w).getLast? = if is.any p then some v else none := by
  induction is using List.reverseRecOn with
  | nil => rfl
  | append_singleton is i ih =>
      have hi := h i (by simp)
      have ih := ih fun j hj => h j (by simp [hj])
      simp only [List.filterMap_append, List.any_append, List.any_cons, List.any_nil, Bool.or_false]
      cases hp : p i <;> simp [hi, hp, ih]

end Finite

/-! ## §2 Infinite runs -/

/-- The states of the run on an infinite sequence of inputs. -/
def states (s : σ) (is : ℕ → ι) : ℕ → σ
  | 0 => s
  | n + 1 => step (states s is n) (is n)

/-- The states of the run in which the input is an answer to the state. -/
def driven (f : σ → ι) (s : σ) : ℕ → σ
  | 0 => s
  | n + 1 => step (driven f s n) (f (driven f s n))

section Infinite

variable {step} {I : σ → Prop} {s : σ} {is : ℕ → ι}

@[simp] theorem states_zero : states step s is 0 = s := rfl

theorem states_succ (n : ℕ) : states step s is (n + 1) = step (states step s is n) (is n) := rfl

theorem states_add (m n : ℕ) :
    states step s is (m + n) = states step (states step s is m) (fun k => is (m + k)) n := by
  induction n with
  | zero => rfl
  | succ n ih => rw [← Nat.add_assoc, states_succ, states_succ, ih]

/-- What holds at some time and is kept by every later step holds from then on. -/
theorem states_from {m : ℕ} (hm : I (states step s is m))
    (hstep : ∀ n, m ≤ n → I (states step s is n) → I (step (states step s is n) (is n))) :
    ∀ n, m ≤ n → I (states step s is n) := by
  intro n hn
  obtain ⟨k, rfl⟩ := Nat.exists_eq_add_of_le hn
  induction k with
  | zero => exact hm
  | succ k ih => exact hstep (m + k) (Nat.le_add_right m k) (ih (Nat.le_add_right m k))

/-- What happens again and again does so from any time on. -/
theorem again_from {P : ℕ → Prop} (h : ∀ m, ∃ n, m ≤ n ∧ P n) (k m : ℕ) :
    ∃ n, m ≤ n ∧ P (k + n) := by
  obtain ⟨n, hn, hP⟩ := h (k + m)
  obtain ⟨d, rfl⟩ := Nat.exists_eq_add_of_le (show k ≤ n by omega)
  exact ⟨d, by omega, hP⟩

/-- In the run from a later state the same things happen again and again. -/
theorem states_again {P : σ → ι → Prop}
    (h : ∀ m, ∃ n, m ≤ n ∧ P (states step s is n) (is n)) (k m : ℕ) :
    ∃ n, m ≤ n ∧
      P (states step (states step s is k) (fun j => is (k + j)) n) (is (k + n)) := by
  obtain ⟨n, hn, hP⟩ := again_from h k m
  rw [states_add] at hP
  exact ⟨n, hn, hP⟩

/-- The first event from some time on finds what the steps before it keep. -/
theorem exists_first {β : Type*} {f : σ → β} {E : ℕ → Prop} {k : ℕ}
    (hkeep : ∀ n, k ≤ n → f (states step s is n) = f (states step s is k) → ¬ E n →
      f (states step s is (n + 1)) = f (states step s is n))
    (he : ∃ n, k ≤ n ∧ E n) :
    ∃ n, k ≤ n ∧ f (states step s is n) = f (states step s is k) ∧ E n := by
  by_contra hno
  -- without the event nothing changes
  have hsame : ∀ d, f (states step s is (k + d)) = f (states step s is k) := by
    intro d
    induction d with
    | zero => rfl
    | succ d ih =>
        have hd : ¬ E (k + d) := fun h => hno ⟨k + d, Nat.le_add_right k d, ih, h⟩
        exact (hkeep (k + d) (Nat.le_add_right k d) ih hd).trans ih
  obtain ⟨n, hn, h⟩ := he
  obtain ⟨d, rfl⟩ := Nat.exists_eq_add_of_le hn
  exact hno ⟨k + d, hn, hsame d, h⟩

/-- The inputs of a list, and then one input for ever. -/
def thenAlways (is : List ι) (i : ι) (n : ℕ) : ι := is.getD n i

section ThenAlways

variable {P : σ → ι → Prop} {is : List ι} {i : ι}

theorem states_cons_thenAlways {j : ι} (n : ℕ) :
    states step s (thenAlways (j :: is) i) (n + 1) =
      states step (step s j) (thenAlways is i) n := by
  have h := @states_add _ _ step s (thenAlways (j :: is) i) 1 n
  simp only [Nat.add_comm 1] at h
  exact h

theorem states_thenAlways {js : List ι} :
    states step s (thenAlways (is ++ js) i) is.length = run step s is := by
  induction is generalizing s with
  | nil => rfl
  | cons j is ih =>
      rw [List.cons_append, List.length_cons, states_cons_thenAlways, ih, run_cons]

theorem thenAlways_of_le {n : ℕ} (h : is.length ≤ n) : thenAlways is i n = i := by
  rw [thenAlways, List.getD_eq_getElem?_getD, List.getElem?_eq_none h, Option.getD_none]

theorem thenAlways_length {j : ι} : thenAlways (is ++ [j]) i is.length = j := by
  simp [thenAlways]

/-- What an input does for ever, after a run that leads to where it may go on. -/
theorem thenAlways_spec (hP : Along step P s is) (hI : I (run step s is))
    (hstep : ∀ s, I s → P s i ∧ I (step s i)) :
    (∀ n, P (states step s (thenAlways is i) n) (thenAlways is i n)) ∧
      ∀ n, is.length ≤ n → I (states step s (thenAlways is i) n) := by
  -- on the run that comes first; `states_cons_thenAlways` shifts the rest by one
  induction is generalizing s with
  | nil =>
      have hall : ∀ n, I (states step s (thenAlways [] i) n) := fun n =>
        states_from (m := 0) hI (fun n _ h => (hstep _ h).2) n (Nat.zero_le n)
      exact ⟨fun n => (hstep _ (hall n)).1, fun n _ => hall n⟩
  | cons j is ih =>
      obtain ⟨h1, h2⟩ := ih hP.2 hI
      refine ⟨fun n => ?_, fun n hn => ?_⟩
      · cases n with
        | zero => exact hP.1
        | succ n =>
            rw [states_cons_thenAlways]
            exact h1 n
      · cases n with
        | zero => exact absurd hn (Nat.not_succ_le_zero _)
        | succ n =>
            rw [states_cons_thenAlways]
            exact h2 n (Nat.le_of_succ_le_succ hn)

end ThenAlways

theorem states_map {τ : Type*} {step' : τ → ι → τ} {f : σ → τ}
    (h : ∀ s i, f (step s i) = step' (f s) i) (n : ℕ) :
    f (states step s is n) = states step' (f s) is n := by
  induction n with
  | zero => rfl
  | succ n ih => rw [states_succ, states_succ, h, ih]

theorem states_driven {f : σ → ι} (n : ℕ) :
    states step s (fun n => f (driven step f s n)) n = driven step f s n := by
  induction n with
  | zero => rfl
  | succ n ih => rw [states_succ, ih, driven]

/-- What holds at the start and is kept by each answered step holds for ever. -/
theorem driven_from {f : σ → ι} (hs : I s) (hstep : ∀ s, I s → I (step s (f s))) (n : ℕ) :
    I (driven step f s n) := by
  induction n with
  | zero => exact hs
  | succ n ih => exact hstep _ ih

end Infinite

/-! ## §3 Progress -/

/-- The number of the first steps of an infinite run that `P` picks out. -/
def countBefore (P : ℕ → Bool) : ℕ → ℕ
  | 0 => 0
  | n + 1 => countBefore P n + (P n).toNat

/-- A measure that every legal step short of the goal lowers bounds the steps to the goal. -/
theorem reaches_within {step : σ → ι → σ} {I G : σ → Prop} {P : σ → ι → Prop} {μ : σ → ℕ}
    (hstep : ∀ s i, I s → P s i → G (step s i) ∨ I (step s i) ∧ μ (step s i) < μ s)
    {s : σ} {is : List ι} (hs : I s) (h : Along step P s is) (hlen : μ s < is.length) :
    ∃ js, js <+: is ∧ js.length ≤ μ s + 1 ∧ G (run step s js) := by
  induction is generalizing s with
  | nil => exact absurd hlen (Nat.not_lt_zero _)
  | cons i is ih =>
      rcases hstep s i hs h.1 with hg | ⟨hI, hlt⟩
      · exact ⟨[i], List.prefix_append [i] is, Nat.le_add_left 1 _, hg⟩
      · obtain ⟨js, hpre, hle, hg⟩ := ih hI h.2 (Nat.lt_of_lt_of_le hlt (Nat.le_of_lt_succ hlen))
        refine ⟨i :: js, List.cons_prefix_cons.mpr ⟨rfl, hpre⟩, ?_, hg⟩
        rw [List.length_cons]
        omega

section Progress

variable {step} {I G : σ → Prop} {μ : σ → ℕ} {s : σ} {is : ℕ → ι} {m : ℕ}

/-- A measure that no step raises, and that from every moment on some later step lowers,
takes the run to the goal. -/
theorem reaches_of_measure (hm : I (states step s is m))
    (hstep : ∀ n, m ≤ n → I (states step s is n) →
      G (states step s is (n + 1)) ∨
        I (states step s is (n + 1)) ∧ μ (states step s is (n + 1)) ≤ μ (states step s is n))
    (hfair : ∀ n, m ≤ n → ∃ k, n ≤ k ∧ (I (states step s is k) →
      G (states step s is (k + 1)) ∨ μ (states step s is (k + 1)) < μ (states step s is k))) :
    ∃ n, m < n ∧ G (states step s is n) := by
  -- until the goal, the invariant holds and the measure stays below its first value
  have hkeep : ∀ n, m ≤ n → I (states step s is n) → ∀ d,
      (∃ k, n < k ∧ G (states step s is k)) ∨
        I (states step s is (n + d)) ∧ μ (states step s is (n + d)) ≤ μ (states step s is n) := by
    intro n hn hI d
    induction d with
    | zero => exact .inr ⟨hI, Nat.le_refl _⟩
    | succ d ih =>
        rcases ih with h | ⟨hI', hle⟩
        · exact .inl h
        · rcases hstep (n + d) (by omega) hI' with h | ⟨h1, h2⟩
          · exact .inl ⟨n + d + 1, by omega, h⟩
          · exact .inr ⟨h1, Nat.le_trans h2 hle⟩
  -- induction on a bound of the measure
  have key : ∀ b n, m ≤ n → I (states step s is n) → μ (states step s is n) < b →
      ∃ k, n < k ∧ G (states step s is k) := by
    intro b
    induction b with
    | zero => exact fun n _ _ hb => absurd hb (Nat.not_lt_zero _)
    | succ b ih =>
        intro n hn hI hb
        obtain ⟨k, hk, hlow⟩ := hfair n hn
        obtain ⟨d, rfl⟩ := Nat.exists_eq_add_of_le hk
        rcases hkeep n hn hI d with h | ⟨hI', hle⟩
        · exact h
        rcases hlow hI' with h | hlt
        · exact ⟨n + d + 1, by omega, h⟩
        rcases hstep (n + d) (by omega) hI' with h | ⟨hI'', -⟩
        · exact ⟨n + d + 1, by omega, h⟩
        · obtain ⟨k, hk, hg⟩ := ih (n + d + 1) (by omega) hI'' (by omega)
          exact ⟨k, by omega, hg⟩
  exact key _ m (Nat.le_refl m) hm (Nat.lt_succ_self _)

/-- Each state waits for one of several conditions, and each of these comes again and again.
A step reaches the goal, lowers the measure, or leaves the state waiting as it was, and the
last only as long as the condition waited for does not hold. -/
theorem reaches_of_just {α J : Type*} [Preorder α] [WellFoundedLT α] {rank : σ → α}
    {awaits : σ → J} {just : J → σ → ι → Prop} (hm : I (states step s is m))
    (hstep : ∀ n, m ≤ n → I (states step s is n) →
      G (states step s is (n + 1)) ∨
        I (states step s is (n + 1)) ∧
          (rank (states step s is (n + 1)) < rank (states step s is n) ∨
            rank (states step s is (n + 1)) = rank (states step s is n) ∧
              awaits (states step s is (n + 1)) = awaits (states step s is n) ∧
                ¬ just (awaits (states step s is n)) (states step s is n) (is n)))
    (hjust : ∀ j n, ∃ k, n ≤ k ∧ just j (states step s is k) (is k)) :
    ∃ n, m < n ∧ G (states step s is n) := by
  -- induction on the measure of the state from which the run is looked at
  have key : ∀ a n, m ≤ n → I (states step s is n) → rank (states step s is n) = a →
      ∃ k, n < k ∧ G (states step s is k) := by
    intro a
    induction a using WellFoundedLT.induction with
    | ind a ih =>
        intro n hn hI ha
        obtain ⟨k, hk, hj⟩ := hjust (awaits (states step s is n)) n
        -- up to the condition, the state waits on or the measure was lowered
        have hwait : ∀ d, n + d ≤ k → (∃ k, n < k ∧ G (states step s is k)) ∨
            I (states step s is (n + d)) ∧ rank (states step s is (n + d)) = a ∧
              awaits (states step s is (n + d)) = awaits (states step s is n) := by
          intro d
          induction d with
          | zero => exact fun _ => .inr ⟨hI, ha, rfl⟩
          | succ d ihd =>
              intro hd
              rcases ihd (by omega) with h | ⟨hI', ha', hw'⟩
              · exact .inl h
              rcases hstep (n + d) (by omega) hI' with h | ⟨hI'', hlt | ⟨heq, hw, -⟩⟩
              · exact .inl ⟨n + d + 1, by omega, h⟩
              · obtain ⟨k, hk, hg⟩ := ih _ (ha' ▸ hlt) (n + d + 1) (by omega) hI'' rfl
                exact .inl ⟨k, by omega, hg⟩
              · exact .inr ⟨hI'', heq.trans ha', hw.trans hw'⟩
        obtain ⟨d, rfl⟩ := Nat.exists_eq_add_of_le hk
        rcases hwait d (Nat.le_refl _) with h | ⟨hI', ha', hw'⟩
        · exact h
        rcases hstep (n + d) (by omega) hI' with h | ⟨hI'', hlt | ⟨-, -, hnot⟩⟩
        · exact ⟨n + d + 1, by omega, h⟩
        · obtain ⟨k, hk, hg⟩ := ih _ (ha' ▸ hlt) (n + d + 1) (by omega) hI'' rfl
          exact ⟨k, by omega, hg⟩
        · exact absurd (hw' ▸ hj) hnot
  exact key _ m (Nat.le_refl m) hm rfl

/-- What grows again and again has no bound. -/
theorem unbounded_of_again {f : ℕ → ℕ} (h : ∀ m, ∃ n, f m < f n) (N : ℕ) : ∃ n, N ≤ f n := by
  induction N with
  | zero => exact ⟨0, Nat.zero_le _⟩
  | succ N ih =>
      obtain ⟨m, hm⟩ := ih
      obtain ⟨n, hn⟩ := h m
      exact ⟨n, by omega⟩

/-- A budget that every picked step lowers bounds the number of them. -/
theorem countBefore_le {P : σ → ι → Bool} {β : σ → ℕ}
    (hI : I (states step s is 0)) {N : ℕ}
    (hstep : ∀ n, n < N → I (states step s is n) →
      I (states step s is (n + 1)) ∧
        β (states step s is (n + 1)) + (P (states step s is n) (is n)).toNat ≤
          β (states step s is n)) :
    ∀ n, n ≤ N → I (states step s is n) ∧
      countBefore (fun k => P (states step s is k) (is k)) n + β (states step s is n) ≤
        β (states step s is 0) := by
  -- the budget pays for each picked step as it is taken
  intro n
  induction n with
  | zero =>
      intro _
      exact ⟨hI, Nat.le_of_eq (Nat.zero_add _)⟩
  | succ n ih =>
      intro hn
      obtain ⟨h1, h2⟩ := ih (by omega)
      obtain ⟨h3, h4⟩ := hstep n (by omega) h1
      refine ⟨h3, ?_⟩
      rw [countBefore]
      omega

end Progress

end Runs
