import Mathlib.Data.List.Basic

/-!
# Runs of event-driven machines

A machine here is a total step function from a state and an event to the next
state.  An event that is not enabled leaves the state alone, so every list of
events is a run and every reachable state is the end of one.  This module
collects the reusable run rules: composition, invariants that every step keeps,
invariants that only hold while every step meets a condition, what a run shows
to an observer, and simulation between two machines that answer the same or
matching events.
-/

namespace Ch579HttpLed
namespace Foundation

/-!
# Runs and their composition
-/

section Runs

variable {state event : Type*}

/-- State reached by feeding a list of events to a step function. -/
def run (step : state -> event -> state) (s : state) (es : List event) : state :=
  es.foldl step s

@[simp] theorem run_nil (step : state -> event -> state) (s : state) :
    run step s [] = s := rfl

@[simp] theorem run_cons (step : state -> event -> state) (s : state)
    (e : event) (es : List event) :
    run step s (e :: es) = run step (step s e) es := rfl

theorem run_append (step : state -> event -> state) (s : state)
    (es fs : List event) :
    run step s (es ++ fs) = run step (run step s es) fs := by
  simp [run, List.foldl_append]

theorem run_concat (step : state -> event -> state) (s : state)
    (es : List event) (e : event) :
    run step s (es ++ [e]) = step (run step s es) e := by
  simp [run_append]

/-- What holds initially and is kept by every step holds after every run. -/
theorem run_invariant {step : state -> event -> state} {Inv : state -> Prop}
    (hstep : forall s e, Inv s -> Inv (step s e))
    {s : state} (hinit : Inv s) (es : List event) :
    Inv (run step s es) := by
  induction es generalizing s with
  | nil =>
      exact hinit
  | cons e es ih =>
      exact ih (hstep s e hinit)

/-- What no event of the run changes is the same at its end. -/
theorem run_frame {out : Type*} {step : state -> event -> state} (obs : state -> out)
    (s : state) {es : List event}
    (hkeep : forall t e, e ∈ es -> obs (step t e) = obs t) :
    obs (run step s es) = obs s := by
  induction es generalizing s with
  | nil => rfl
  | cons e es ih =>
      rw [run_cons, ih (step s e) (fun t f hf => hkeep t f (List.mem_cons_of_mem _ hf))]
      exact hkeep s e List.mem_cons_self

end Runs

/-!
# Conditions on the steps of a run

`AllSteps` says that every step of a run meets a condition on the state
before it and on the event.  It is the form in which a restriction of the
environment enters a statement about whole runs.
-/

section Conditions

variable {state event : Type*}

/-- Every step of the run meets `ok` in the state it starts from. -/
def AllSteps (step : state -> event -> state) (ok : state -> event -> Prop) :
    state -> List event -> Prop
  | _, [] => True
  | s, e :: es => ok s e ∧ AllSteps step ok (step s e) es

instance AllSteps.decidable {step : state -> event -> state}
    {ok : state -> event -> Prop} [forall s e, Decidable (ok s e)] :
    forall s es, Decidable (AllSteps step ok s es)
  | _, [] => inferInstanceAs (Decidable True)
  | s, e :: es =>
      have := @AllSteps.decidable step ok _ (step s e) es
      inferInstanceAs (Decidable (_ ∧ _))

theorem allSteps_append {step : state -> event -> state}
    {ok : state -> event -> Prop} (s : state) (es fs : List event) :
    AllSteps step ok s (es ++ fs) <->
      AllSteps step ok s es ∧ AllSteps step ok (run step s es) fs := by
  induction es generalizing s with
  | nil =>
      simp [AllSteps]
  | cons e es ih =>
      simp [AllSteps, ih, and_assoc]

theorem allSteps_concat {step : state -> event -> state}
    {ok : state -> event -> Prop} (s : state) (es : List event) (e : event) :
    AllSteps step ok s (es ++ [e]) <->
      AllSteps step ok s es ∧ ok (run step s es) e := by
  simp [allSteps_append, AllSteps]

/-- The condition read at every way of cutting the run before one of its events. -/
theorem allSteps_iff_forall_split {step : state -> event -> state}
    {ok : state -> event -> Prop} (s : state) (es : List event) :
    AllSteps step ok s es <->
      forall pre e post, es = pre ++ e :: post -> ok (run step s pre) e := by
  constructor
  · intro h pre e post hsplit
    rw [hsplit, allSteps_append] at h
    exact h.right.left
  · intro h
    induction es generalizing s with
    | nil =>
        exact True.intro
    | cons e es ih =>
        constructor
        · exact h [] e es rfl
        · apply ih
          intro pre f post hsplit
          exact h (e :: pre) f post (by rw [hsplit]; rfl)

/--
Conditions that agree wherever an invariant holds are met by the same runs.  The
invariant only has to survive the steps that meet the first condition: at the
first step that does not, both runs fail.
-/
theorem allSteps_congr {step : state -> event -> state} {Inv : state -> Prop}
    {ok ok' : state -> event -> Prop}
    (hstep : forall s e, Inv s -> ok s e -> Inv (step s e))
    (hiff : forall s e, Inv s -> (ok s e <-> ok' s e))
    {s : state} (hinit : Inv s) (es : List event) :
    AllSteps step ok s es <-> AllSteps step ok' s es := by
  induction es generalizing s with
  | nil =>
      exact Iff.rfl
  | cons e es ih =>
      rw [AllSteps, AllSteps, ← hiff s e hinit]
      constructor
      · intro h
        exact ⟨h.left, (ih (hstep s e hinit h.left)).mp h.right⟩
      · intro h
        exact ⟨h.left, (ih (hstep s e hinit h.left)).mpr h.right⟩

/-- A weaker condition is met as well. -/
theorem AllSteps.imp {step : state -> event -> state} {ok ok' : state -> event -> Prop}
    (himp : forall s e, ok s e -> ok' s e) {s : state} {es : List event}
    (h : AllSteps step ok s es) : AllSteps step ok' s es := by
  rw [allSteps_iff_forall_split] at *
  intro pre e post hsplit
  exact himp _ e (h pre e post hsplit)

/-- A condition on the events alone is met by every step if every event meets it. -/
theorem allSteps_of_forall_mem {step : state -> event -> state}
    {ok : event -> Prop} (s : state) {es : List event}
    (h : forall e, e ∈ es -> ok e) : AllSteps step (fun _ e => ok e) s es := by
  rw [allSteps_iff_forall_split]
  intro pre e post hsplit
  exact h e (by simp [hsplit])

/-- An invariant that the steps meeting a condition keep. -/
theorem run_invariant_of_allSteps {step : state -> event -> state}
    {ok : state -> event -> Prop} {Inv : state -> Prop}
    (hstep : forall s e, Inv s -> ok s e -> Inv (step s e))
    {s : state} {es : List event} (hinit : Inv s)
    (hok : AllSteps step ok s es) :
    Inv (run step s es) := by
  induction es generalizing s with
  | nil =>
      exact hinit
  | cons e es ih =>
      exact ih (hstep s e hinit hok.left) hok.right

end Conditions

/-!
# Observations

What a run shows to an observer is the list of the observations of its steps;
a step may show nothing.
-/

section Observations

variable {state event out : Type*}

/-- Observations of the steps of a run, oldest first. -/
def observed (step : state -> event -> state) (obs : state -> event -> Option out) :
    state -> List event -> List out
  | _, [] => []
  | s, e :: es => (obs s e).toList ++ observed step obs (step s e) es

theorem observed_append (step : state -> event -> state)
    (obs : state -> event -> Option out) (s : state) (es fs : List event) :
    observed step obs s (es ++ fs) =
      observed step obs s es ++ observed step obs (run step s es) fs := by
  induction es generalizing s with
  | nil => rfl
  | cons e es ih =>
      rw [List.cons_append, observed, observed, ih, List.append_assoc, run_cons]

theorem observed_concat (step : state -> event -> state)
    (obs : state -> event -> Option out) (s : state) (es : List event) (e : event) :
    observed step obs s (es ++ [e]) =
      observed step obs s es ++ (obs (run step s es) e).toList := by
  rw [observed_append]
  simp [observed]

end Observations

/-!
# Answers and simulation

A machine whose steps also answer is described by a step function into pairs.
Two such machines related by a simulation give the same answers to the same
events, and stay related.
-/

section Simulation

variable {state abstractState event answer : Type*}

/-- Answers given along a run, oldest first. -/
def answers (step : state -> event -> answer × state) :
    state -> List event -> List answer
  | _, [] => []
  | s, e :: es => (step s e).1 :: answers step (step s e).2 es

/-- State reached by an answering machine. -/
def answeringRun (step : state -> event -> answer × state) (s : state)
    (es : List event) : state :=
  run (fun s e => (step s e).2) s es

@[simp] theorem answeringRun_cons (step : state -> event -> answer × state)
    (s : state) (e : event) (es : List event) :
    answeringRun step s (e :: es) = answeringRun step (step s e).2 es := rfl

/-- A step-by-step simulation with equal answers lifts to whole runs. -/
theorem answers_eq_of_simulation
    {step : state -> event -> answer × state}
    {abstractStep : abstractState -> event -> answer × abstractState}
    {Rel : state -> abstractState -> Prop}
    (hsim : forall s a e, Rel s a ->
      (step s e).1 = (abstractStep a e).1 ∧
        Rel (step s e).2 (abstractStep a e).2)
    {s : state} {a : abstractState} (hrel : Rel s a) (es : List event) :
    answers step s es = answers abstractStep a es ∧
      Rel (answeringRun step s es) (answeringRun abstractStep a es) := by
  induction es generalizing s a with
  | nil =>
      exact ⟨rfl, hrel⟩
  | cons e es ih =>
      have hstep := hsim s a e hrel
      have hrest := ih hstep.right
      constructor
      · rw [answers, answers, hstep.left, hrest.left]
      · exact hrest.right

end Simulation

end Foundation
end Ch579HttpLed
