import Mathlib

/-!
# Transition systems

A system is a set of initial states and a step relation labelled by events. Its
reachable states are those a run of steps from an initial state can lead to, and an
invariant, a property that holds initially and that every step keeps, holds of all of
them. The strong form of the rule lets the step argument assume that the state it
starts from is reachable, so that facts proved about reachable states can be used
while proving the next one. Nothing here mentions a particular program.
-/

/-- A transition system over states `S` and events `E`. -/
structure TransitionSystem (S E : Type) where
  init : S → Prop
  step : S → E → S → Prop

namespace TransitionSystem

variable {S E : Type} (sys : TransitionSystem S E)

/-- The states reachable from an initial state by steps. -/
inductive Reachable : S → Prop
  | init {s : S} : sys.init s → Reachable s
  | step {s s' : S} {e : E} : Reachable s → sys.step s e s' → Reachable s'

/-- The induction rule of reachability, with the reachability of the state a step starts
from available to the step argument. -/
theorem reachable_induction {P : S → Prop} (hinit : ∀ s, sys.init s → P s)
    (hstep : ∀ s e s', sys.Reachable s → P s → sys.step s e s' → P s') {s : S}
    (h : sys.Reachable s) : P s := by
  induction h with
  | init hs => exact hinit _ hs
  | step hr hse ih => exact hstep _ _ _ hr ih hse

/-- A property that every initial state has and that every step keeps. -/
structure Invariant (P : S → Prop) : Prop where
  init : ∀ s, sys.init s → P s
  step : ∀ s e s', P s → sys.step s e s' → P s'

/-- An invariant holds of every reachable state. -/
theorem Invariant.reachable {P : S → Prop} (hP : sys.Invariant P) {s : S}
    (h : sys.Reachable s) : P s :=
  sys.reachable_induction hP.init (fun s e s' _ hs hse => hP.step s e s' hs hse) h

end TransitionSystem

/-! ## Runs of a deterministic step

A deterministic system is a step function, and its runs are the iterates of that function. A
potential that each step lowers by exactly one, down to zero, while keeping an invariant,
counts the steps left: `n` steps lower it by `n`, so the run reaches potential zero after as
many steps as the potential was at the start.
-/

namespace Function

variable {S : Type} {f : S → S} {Inv : S → Prop} {φ : S → Nat}

/-- The run rule of a potential: `n` steps keep the invariant and lower the potential by `n`. -/
theorem iterate_potential (hstep : ∀ s, Inv s → Inv (f s) ∧ φ (f s) = φ s - 1) :
    ∀ (n : Nat) (s : S), Inv s → Inv (f^[n] s) ∧ φ (f^[n] s) = φ s - n
  | 0, _, hs => ⟨hs, rfl⟩
  | n + 1, s, hs => by
    obtain ⟨hinv, hφ⟩ := hstep s hs
    obtain ⟨hinv', hφ'⟩ := iterate_potential hstep n (f s) hinv
    rw [iterate_succ_apply]
    exact ⟨hinv', by rw [hφ', hφ]; omega⟩

end Function
