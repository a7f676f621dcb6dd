import Mathlib.Tactic

/-!
# Comparing what two machines answer

A machine takes one event after another and answers some of them.  It is
compared with a reference machine that takes the same events: if a relation
between the two states is kept by every allowed event, and related states
give the same answer, then the two give the same answers over a whole run.
-/

namespace CheatEngine.ObservedRun

variable {State Reference Event Answer : Type*}

def answers (step : State → Event → State × List Answer) :
    State → List Event → List Answer
  | _, [] => []
  | state, event :: rest =>
    (step state event).2 ++ answers step (step state event).1 rest

def final (step : State → Event → State × List Answer) :
    State → List Event → State
  | state, [] => state
  | state, event :: rest => final step (step state event).1 rest

theorem answers_append (step : State → Event → State × List Answer)
    (state : State) (first second : List Event) :
    answers step state (first ++ second) =
      answers step state first ++ answers step (final step state first)
        second := by
  induction first generalizing state with
  | nil => rfl
  | cons event rest ih =>
    rw [List.cons_append, answers, answers, final, ih, List.append_assoc]

def AllowedRun (step : State → Event → State × List Answer)
    (Allowed : State → Event → Prop) : State → List Event → Prop
  | _, [] => True
  | state, event :: rest =>
    Allowed state event ∧ AllowedRun step Allowed (step state event).1 rest

variable {step : State → Event → State × List Answer}
  {reference : Reference → Event → Reference × List Answer}
  {Allowed : State → Event → Prop} {Related : State → Reference → Prop}

def Keeps (step : State → Event → State × List Answer)
    (reference : Reference → Event → Reference × List Answer)
    (Allowed : State → Event → Prop) (Related : State → Reference → Prop) :
    Prop :=
  ∀ state model event, Related state model → Allowed state event →
    Related (step state event).1 (reference model event).1

theorem Keeps.final_related (hkeeps : Keeps step reference Allowed Related)
    {state : State} {model : Reference} {events : List Event}
    (hrelated : Related state model)
    (hallowed : AllowedRun step Allowed state events) :
    Related (final step state events) (final reference model events) := by
  induction events generalizing state model with
  | nil => exact hrelated
  | cons event rest ih =>
    obtain ⟨hevent, hrest⟩ := hallowed
    exact ih (hkeeps state model event hrelated hevent) hrest

def AnswersAlike (step : State → Event → State × List Answer)
    (reference : Reference → Event → Reference × List Answer)
    (Allowed : State → Event → Prop) (Related : State → Reference → Prop) :
    Prop :=
  ∀ state model event, Related state model → Allowed state event →
    (step state event).2 = (reference model event).2

theorem Keeps.answers_eq (hkeeps : Keeps step reference Allowed Related)
    (halike : AnswersAlike step reference Allowed Related)
    {state : State} {model : Reference} {events : List Event}
    (hrelated : Related state model)
    (hallowed : AllowedRun step Allowed state events) :
    answers step state events = answers reference model events := by
  induction events generalizing state model with
  | nil => rfl
  | cons event rest ih =>
    obtain ⟨hevent, hrest⟩ := hallowed
    have hnext := hkeeps state model event hrelated hevent
    rw [answers, answers, halike state model event hrelated hevent,
      ih hnext hrest]

end CheatEngine.ObservedRun
