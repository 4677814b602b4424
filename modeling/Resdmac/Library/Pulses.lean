import Mathlib.Logic.Function.Basic
import Resdmac.Library.Runs

/-!
# Lines with Pulses of Fixed Shapes

A line is at rest but for its pulses, and every pulse is one of a few words of values. A
machine keeps its line so if each of its states knows what is left of the pulse that was
begun, and each step shows the next value of it.

## Main definitions

- `Pulses.Paced` — a word of whole pulses and values at rest
- `Pulses.Shows` — what a step may show and leave due
- `Pulses.shown` — what a run shows, a value a step

## Main results

- `Pulses.paced_run` — what a run shows is paced once the pulse in progress is completed
-/

namespace Pulses

variable {K L : Type*} (shape : K → List L) (rest : L)

/-- The word is made of values at rest and whole pulses. -/
inductive Paced : List L → Prop
  | nil : Paced []
  | rest {ls : List L} (h : Paced ls) : Paced (ls ++ [rest])
  | pulse {ls : List L} (h : Paced ls) (k : K) : Paced (ls ++ shape k)

/-- With `due` left of a pulse, a step shows the value and leaves the rest of it due. -/
inductive Shows : List L → L → List L → Prop
  | next (l : L) (due : List L) : Shows (l :: due) l due
  | idle : Shows [] rest []
  /-- The last value at rest of a pulse may be held. -/
  | linger : Shows [rest] rest [rest]
  | start (k : K) {l : L} {due : List L} (h : shape k = l :: due) : Shows [] l due

variable {shape rest}

theorem Shows.paced {due due' ls : List L} {l : L} (h : Shows shape rest due l due')
    (hp : Paced shape rest (ls ++ due)) : Paced shape rest ((ls ++ [l]) ++ due') := by
  cases h with
  | next => rwa [List.append_assoc]
  | idle =>
      rw [List.append_nil] at hp ⊢
      exact hp.rest
  | linger => exact hp.rest
  | start k h =>
      rw [List.append_nil] at hp
      rw [List.append_assoc, List.singleton_append, ← h]
      exact hp.pulse k

section Machine

variable {σ ι : Type*} {step : σ → ι → σ}

/-- What a run shows, a value after each step. -/
def shown (step : σ → ι → σ) (line : σ → L) : σ → List ι → List L
  | _, [] => []
  | s, i :: is => line (step s i) :: shown step line (step s i) is

/-- What a run shows is paced once what is due after it is shown. -/
theorem paced_run {line : σ → L} {due : σ → List L} {I : σ → Prop} {P : σ → ι → Prop}
    (hstep : ∀ s i, I s → P s i →
      I (step s i) ∧ Shows shape rest (due s) (line (step s i)) (due (step s i)))
    {s : σ} {is : List ι} (hs : I s) (h : Runs.Along step P s is) {ls : List L}
    (hls : Paced shape rest (ls ++ due s)) :
    Paced shape rest (ls ++ shown step line s is ++ due (Runs.run step s is)) := by
  induction is generalizing s ls with
  | nil => rwa [shown, List.append_nil]
  | cons i is ih =>
      obtain ⟨hI, hd⟩ := hstep s i hs h.1
      have hnext := ih hI h.2 (hd.paced hls)
      rwa [List.append_assoc ls, List.singleton_append] at hnext

end Machine

end Pulses
