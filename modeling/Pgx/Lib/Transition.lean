import Mathlib.Logic.Relation

/-!
# Transition systems: reachable states and their invariants

A system given by a partial step function `step : σ → ε → Option σ`: an event is enabled in a
state when the step returns a state, and the interleavings of a concurrent program are the
sequences of enabled events.

* `Moves`, `Reachable`: the states reached from the initial states by enabled events, through
  `Relation.ReflTransGen`;
* `Reachable.invariant`: the induction rule, a property that holds initially and that every step
  keeps holds in every reachable state;
* `Runs`, `Reachable.runs`: a list of events taken one after another, for states reached by a
  given interleaving;
* `restrict`: the system that takes only the events a predicate allows, for results about the
  runs of an environment that behaves in a given way.
-/

namespace Transition

variable {σ ε : Type} (step : σ → ε → Option σ) (init : σ → Prop)

/-- Some enabled event leads from `s` to `s'`. -/
def Moves (s s' : σ) : Prop := ∃ e, step s e = some s'

/-- A state reached from an initial state by enabled events. -/
def Reachable (s : σ) : Prop := ∃ s₀, init s₀ ∧ Relation.ReflTransGen (Moves step) s₀ s

/-- The events of a list taken one after another, each enabled where it is taken. -/
def Runs : σ → List ε → Option σ
  | s, [] => some s
  | s, e :: es => (step s e).bind fun s' => Runs s' es

/-- The system that takes only the events `allowed` lets through. -/
def restrict (allowed : ε → Prop) [DecidablePred allowed] : σ → ε → Option σ :=
  fun s e => if allowed e then step s e else none

variable {step init}

theorem restrict_eq_some {allowed : ε → Prop} [DecidablePred allowed] {s s' : σ} {e : ε}
    (h : restrict step allowed s e = some s') : allowed e ∧ step s e = some s' := by
  unfold restrict at h
  by_cases ha : allowed e
  · rw [if_pos ha] at h
    exact ⟨ha, h⟩
  · rw [if_neg ha] at h
    cases h

theorem Reachable.of_init {s : σ} (h : init s) : Reachable step init s := ⟨s, h, .refl⟩

theorem Reachable.next {s s' : σ} {e : ε} (h : Reachable step init s) (hs : step s e = some s') :
    Reachable step init s' :=
  let ⟨s₀, h₀, hr⟩ := h
  ⟨s₀, h₀, hr.tail ⟨e, hs⟩⟩

/-- A run from a reachable state ends in a reachable state. -/
theorem Reachable.runs {s s' : σ} : ∀ {es : List ε}, Reachable step init s → Runs step s es = some s' →
    Reachable step init s'
  | [], h, hr => by
    cases hr
    exact h
  | e :: es, h, hr => by
    obtain ⟨s₁, hs₁, hr⟩ := Option.bind_eq_some_iff.mp hr
    exact (h.next hs₁).runs hr

/-- The induction rule for invariants: true of the initial states and kept by every enabled
event, so true of every reachable state. -/
theorem Reachable.invariant {Inv : σ → Prop} (h₀ : ∀ s, init s → Inv s)
    (hstep : ∀ s e s', Inv s → step s e = some s' → Inv s') {s : σ} (h : Reachable step init s) :
    Inv s := by
  obtain ⟨s₀, hi, hr⟩ := h
  induction hr with
  | refl => exact h₀ _ hi
  | tail _ hm ih =>
    obtain ⟨e, he⟩ := hm
    exact hstep _ e _ ih he

end Transition
