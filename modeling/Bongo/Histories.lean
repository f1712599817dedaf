import Mathlib

/-!
Finite runs of a step function and the rules for reasoning along them. A run is
a list of events; `Along` says that every event meets a condition in the state
it is taken from, and the rules below turn one-step facts into facts about
every state of such a run.
-/

namespace Bongo.Histories

universe u v w
variable {State : Type u} {Event : Type v} {Spec : Type w}

def run (step : State → Event → State) : State → List Event → State
  | state, [] => state
  | state, event :: rest => run step (step state event) rest

/-- Every event of the run meets `cond` in the state just before it. -/
def Along (step : State → Event → State) (cond : State → Event → Prop) :
    State → List Event → Prop
  | _, [] => True
  | state, event :: rest => cond state event ∧ Along step cond (step state event) rest

instance Along.decidable (step : State → Event → State) (cond : State → Event → Prop)
    [∀ state event, Decidable (cond state event)] :
    ∀ state events, Decidable (Along step cond state events)
  | _, [] => isTrue trivial
  | state, event :: rest =>
    have := Along.decidable step cond (step state event) rest
    inferInstanceAs (Decidable (cond state event ∧ Along step cond (step state event) rest))

/-- `reached` is one of the states the run passes through, its two ends included. -/
def Passes (step : State → Event → State) (start : State) (events : List Event)
    (reached : State) : Prop :=
  ∃ before after, events = before ++ after ∧ reached = run step start before

variable (step : State → Event → State)

@[simp] theorem run_nil (state : State) : run step state [] = state := rfl

@[simp] theorem run_cons (state : State) (event : Event) (rest : List Event) :
    run step state (event :: rest) = run step (step state event) rest := rfl

theorem run_append (state : State) (first second : List Event) :
    run step state (first ++ second) = run step (run step state first) second := by
  induction first generalizing state with
  | nil => rfl
  | cons event rest ih => exact ih (step state event)

theorem along_append (cond : State → Event → Prop) (state : State)
    (first second : List Event) :
    Along step cond state (first ++ second) ↔
      Along step cond state first ∧ Along step cond (run step state first) second := by
  induction first generalizing state with
  | nil => simp [Along]
  | cons event rest ih =>
    simp only [List.cons_append, Along, run_cons]
    rw [ih (step state event), and_assoc]

variable {step} {state : State} {events : List Event}

theorem along_mono {weak strong : State → Event → Prop}
    (weaker : ∀ state event, strong state event → weak state event)
    (held : Along step strong state events) : Along step weak state events := by
  induction events generalizing state with
  | nil => trivial
  | cons event rest ih => exact ⟨weaker state event held.1, ih held.2⟩

theorem along_and {left right : State → Event → Prop}
    (first : Along step left state events) (second : Along step right state events) :
    Along step (fun state event => left state event ∧ right state event) state events := by
  induction events generalizing state with
  | nil => trivial
  | cons event rest ih => exact ⟨⟨first.1, second.1⟩, ih first.2 second.2⟩

variable {cond : State → Event → Prop}

theorem along_of_forall (meets : ∀ state, ∀ event ∈ events, cond state event) :
    Along step cond state events := by
  induction events generalizing state with
  | nil => trivial
  | cons event rest ih =>
    exact ⟨meets state event List.mem_cons_self,
      ih (fun other later member => meets other later (List.mem_cons_of_mem event member))⟩

variable {inv : State → Prop}

section

variable (keeps : ∀ state event, inv state → cond state event → inv (step state event))
include keeps

theorem run_invariant (initial : inv state) (held : Along step cond state events) :
    inv (run step state events) := by
  induction events generalizing state with
  | nil => exact initial
  | cons event rest ih => exact ih (keeps state event initial held.1) held.2

theorem passes_invariant (initial : inv state) (held : Along step cond state events)
    {reached : State} (passed : Passes step state events reached) : inv reached := by
  obtain ⟨before, after, split, rfl⟩ := passed
  subst split
  exact run_invariant keeps initial ((along_append step cond state before after).mp held).1

/-- What the invariant and the condition give for one event, the run gives at
every event it contains. -/
theorem along_strengthen {goal : State → Event → Prop}
    (gives : ∀ state event, inv state → cond state event → goal state event)
    (initial : inv state) (held : Along step cond state events) :
    Along step goal state events := by
  induction events generalizing state with
  | nil => trivial
  | cons event rest ih =>
    exact ⟨gives state event initial held.1, ih (keeps state event initial held.1) held.2⟩

end

/-- Conditions that agree wherever an invariant holds agree along its runs. -/
theorem along_congr {left right : State → Event → Prop}
    (keeps : ∀ state event, inv state → inv (step state event))
    (agree : ∀ state event, inv state → (left state event ↔ right state event))
    (initial : inv state) :
    Along step left state events ↔ Along step right state events := by
  induction events generalizing state with
  | nil => exact Iff.rfl
  | cons event rest ih =>
    exact and_congr (agree state event initial) (ih (keeps state event initial))

theorem along_at (before after : List Event) (event : Event)
    (held : Along step cond state (before ++ event :: after)) :
    cond (run step state before) event :=
  ((along_append step cond state before (event :: after)).mp held).2.1

/-- A simulation that holds at every admitted event holds of the whole run. -/
theorem run_simulates (specStep : Spec → Event → Spec) (view : State → Spec)
    (simulates : ∀ state event, cond state event →
      view (step state event) = specStep (view state) event)
    (held : Along step cond state events) :
    view (run step state events) = run specStep (view state) events := by
  induction events generalizing state with
  | nil => rfl
  | cons event rest ih =>
    rw [run_cons, run_cons, ih held.2, simulates state event held.1]

variable (step) in
/-- Events that change nothing can be left out of a run. -/
theorem run_filter (keep : Event → Bool)
    (idle : ∀ state event, keep event = false → step state event = state)
    (state : State) (events : List Event) :
    run step state (events.filter keep) = run step state events := by
  induction events generalizing state with
  | nil => rfl
  | cons event rest ih =>
    cases kept : keep event with
    | true => rw [List.filter_cons_of_pos kept, run_cons, run_cons, ih]
    | false =>
      rw [List.filter_cons_of_neg (by simp [kept]), run_cons, idle state event kept, ih]

end Bongo.Histories
