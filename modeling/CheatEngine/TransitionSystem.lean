import Mathlib.Tactic
import Mathlib.Logic.Relation

/-!
# Runs of labelled transition systems and of interleaved threads

A system is a partial step function on labelled moves.  `Reaches` is its
reachability through moves that satisfy a condition on the state before the
move; an invariant or a conserved quantity is proved for one move and holds on
every run by the rules below.

The second half is the usual interleaving: threads with a local state each
and one shared state, where a move is one step of one thread.  Quantities
summed over all threads change by the difference at the thread that moved, and
a lock that every step respects is owned by the thread that is inside.
-/

namespace CheatEngine
namespace TransitionSystem

section

variable {State Label : Type*}

def Moves (step : State → Label → Option State)
    (Allowed : State → Label → Prop) (before after : State) : Prop :=
  ∃ label, Allowed before label ∧ step before label = some after

abbrev Reaches (step : State → Label → Option State)
    (Allowed : State → Label → Prop) : State → State → Prop :=
  Relation.ReflTransGen (Moves step Allowed)

variable {step : State → Label → Option State} {Allowed : State → Label → Prop}

theorem Reaches.invariant {Inv : State → Prop}
    (hstep : ∀ before label after, Inv before → Allowed before label →
      step before label = some after → Inv after)
    {start final : State} (hrun : Reaches step Allowed start final)
    (hstart : Inv start) : Inv final := by
  induction hrun with
  | refl => exact hstart
  | tail _ hmove ih =>
    obtain ⟨label, hallowed, hafter⟩ := hmove
    exact hstep _ label _ ih hallowed hafter

def runLabels (step : State → Label → Option State) :
    List Label → State → Option State
  | [], state => some state
  | label :: rest, state => (step state label).bind (runLabels step rest)

theorem reaches_of_runLabels {labels : List Label} {start final : State}
    (hallowed : ∀ state, ∀ label ∈ labels, Allowed state label)
    (hrun : runLabels step labels start = some final) :
    Reaches step Allowed start final := by
  induction labels generalizing start with
  | nil =>
    cases hrun
    exact Relation.ReflTransGen.refl
  | cons label rest ih =>
    obtain ⟨next, hnext, hrest⟩ := Option.bind_eq_some_iff.mp hrun
    have hmove : Moves step Allowed start next :=
      ⟨label, hallowed start label (by simp), hnext⟩
    have htail : Reaches step Allowed next final := by
      apply ih ?_ hrest
      intro state other hother
      exact hallowed state other (List.mem_cons_of_mem label hother)
    exact Relation.ReflTransGen.head hmove htail

/-- Every move of a schedule is allowed in the state that it finds. -/
def allowedLabels (step : State → Label → Option State)
    (allowed : State → Label → Bool) : List Label → State → Bool
  | [], _ => true
  | label :: rest, state =>
    allowed state label &&
      (step state label).all (allowedLabels step allowed rest)

theorem reaches_of_allowedLabels {allowed : State → Label → Bool}
    {labels : List Label} {start final : State}
    (hsound : ∀ state label, allowed state label = true → Allowed state label)
    (hallowed : allowedLabels step allowed labels start = true)
    (hrun : runLabels step labels start = some final) :
    Reaches step Allowed start final := by
  induction labels generalizing start with
  | nil =>
    cases hrun
    exact Relation.ReflTransGen.refl
  | cons label rest ih =>
    obtain ⟨hlabel, hrest⟩ := (Bool.and_eq_true _ _).mp hallowed
    obtain ⟨next, hnext, hlater⟩ := Option.bind_eq_some_iff.mp hrun
    rw [hnext] at hrest
    exact Relation.ReflTransGen.head ⟨label, hsound _ _ hlabel, hnext⟩
      (ih hrest hlater)

end

structure Threads (Tid Shared Local : Type*) where
  shared : Shared
  locals : Tid → Local

namespace Threads

variable {Tid Shared Local Action : Type*}

/-- Exactly the owner of the lock is inside. -/
def Owned (inside : Local → Bool) (owner : Shared → Option Tid)
    (state : Threads Tid Shared Local) : Prop :=
  ∀ thread, inside (state.locals thread) = true ↔
    owner state.shared = some thread

theorem Owned.unique {inside : Local → Bool} {owner : Shared → Option Tid}
    {state : Threads Tid Shared Local} (howned : Owned inside owner state)
    {first second : Tid} (hfirst : inside (state.locals first) = true)
    (hsecond : inside (state.locals second) = true) : first = second :=
  Option.some.inj
    (((howned first).mp hfirst).symm.trans ((howned second).mp hsecond))

variable [DecidableEq Tid]

def step
    (threadStep : Tid → Shared → Local → Action → Option (Shared × Local))
    (state : Threads Tid Shared Local) (label : Tid × Action) :
    Option (Threads Tid Shared Local) :=
  (threadStep label.1 state.shared (state.locals label.1) label.2).map
    fun result =>
      { shared := result.1
        locals := Function.update state.locals label.1 result.2 }

theorem step_cases
    {threadStep : Tid → Shared → Local → Action → Option (Shared × Local)}
    {before after : Threads Tid Shared Local} {label : Tid × Action}
    (hstep : step threadStep before label = some after) :
    ∃ result,
      threadStep label.1 before.shared (before.locals label.1) label.2 =
        some (after.shared, result) ∧
      after.locals = Function.update before.locals label.1 result := by
  obtain ⟨⟨shared, result⟩, hresult, hafter⟩ := Option.map_eq_some_iff.mp hstep
  subst after
  exact ⟨result, hresult, rfl⟩

/-- One step of a thread leaves a lock alone, takes it while it is free, or
gives it back. -/
def LockStep (thread : Tid) (inside inside' : Bool)
    (owner owner' : Option Tid) : Prop :=
  inside' = inside ∧ owner' = owner ∨
    owner = none ∧ inside' = true ∧ owner' = some thread ∨
      inside = true ∧ inside' = false ∧ owner' = none

theorem Owned.of_step {inside : Local → Bool} {owner : Shared → Option Tid}
    {threadStep : Tid → Shared → Local → Action → Option (Shared × Local)}
    (hlock : ∀ {thread shared position action shared' position'},
      threadStep thread shared position action = some (shared', position') →
        LockStep thread (inside position) (inside position') (owner shared)
          (owner shared'))
    {before after : Threads Tid Shared Local} {label : Tid × Action}
    (howned : Owned inside owner before)
    (hstep : step threadStep before label = some after) :
    Owned inside owner after := by
  obtain ⟨result, hresult, hlocals⟩ := step_cases hstep
  intro thread
  have hmoved := howned label.1
  have hother := howned thread
  rw [hlocals]
  by_cases hsame : thread = label.1
  · rw [hsame, Function.update_self]
    rcases hlock hresult with h | h | h <;> simp_all
  · rw [Function.update_of_ne hsame, hother]
    have hne : some label.1 ≠ some thread := fun heq =>
      hsame (Option.some.inj heq).symm
    rcases hlock hresult with ⟨-, h⟩ | ⟨hfree, -, h⟩ | ⟨hinside, -, h⟩
    · rw [h]
    · simp [h, hfree, hne]
    · simp [h, hmoved.mp hinside, hne]

variable [Fintype Tid] {Weight : Type*} [AddCommMonoid Weight]

def total (weight : Local → Weight) (state : Threads Tid Shared Local) :
    Weight :=
  ∑ thread, weight (state.locals thread)

theorem sum_update (weight : Local → Weight) (locals : Tid → Local)
    (thread : Tid) (result : Local) :
    (∑ other, weight (Function.update locals thread result other)) +
        weight (locals thread) =
      (∑ other, weight (locals other)) + weight result := by
  have hrest : (∑ other ∈ Finset.univ.erase thread,
      weight (Function.update locals thread result other)) =
      ∑ other ∈ Finset.univ.erase thread, weight (locals other) := by
    apply Finset.sum_congr rfl
    intro other hother
    rw [Function.update_of_ne (Finset.ne_of_mem_erase hother)]
  have hbefore : (∑ other ∈ Finset.univ.erase thread, weight (locals other)) +
      weight (locals thread) = ∑ other, weight (locals other) :=
    Finset.sum_erase_add _ (fun other => weight (locals other))
      (Finset.mem_univ thread)
  rw [← Finset.sum_erase_add _ _ (Finset.mem_univ thread), hrest,
    Function.update_self, ← hbefore]
  abel

theorem total_update {before after : Threads Tid Shared Local}
    (weight : Local → Weight) {thread : Tid} {result : Local}
    (hlocals : after.locals = Function.update before.locals thread result) :
    after.total weight + weight (before.locals thread) =
      before.total weight + weight result := by
  unfold total
  rw [hlocals]
  exact sum_update weight before.locals thread result

end Threads

end TransitionSystem
end CheatEngine
