import CheatEngine.TransitionSystem
import CheatEngine.PointerscanTransmission

/-!
# Accounting of the path queue and its semaphore

The permits of `pathqueueSemaphore` stand for the paths in the main queue.
Five routines change the length of the queue and the semaphore, in different
orders and partly outside `pathqueueCS`.  Each routine is modelled by the
points between two of its accesses to the shared variables, and any number of
threads may run any of the routines at the same time.

The unsynchronized reads of `pathqueuelength` that only steer a worker's
choice between queueing and recursing are left open: a thread may try to push
whenever it is outside of the other routines.
-/

namespace CheatEngine
namespace Pointerscan
namespace QueueAccounting

open TransitionSystem

/-! ## The shared variables and the routines -/

structure Shared (Tid : Type) where
  semaphore : ℕ
  pathqueuelength : ℕ
  overflowlength : ℕ
  pathqueueCS : Option Tid
  overflowqueuecs : Option Tid
deriving DecidableEq

/-- `TPointerscanWorker.execute` after the wait. -/
inductive PopPosition
  | acquired
  | entered
  | leaving
deriving DecidableEq

/-- The push in `TPointerscanWorker.rscan`. -/
inductive PushPosition
  | entered
  | copied
  | counted
  | leaving
deriving DecidableEq

/-- `EatFromOverflowQueueIfNeeded`; the number is `pathsToCopy`. -/
inductive EatPosition
  | waiting
  | entered
  | checked
  | locked
  | counted (pathsToCopy : ℕ)
  | released (pathsToCopy : ℕ)
  | cutting (pathsToCopy : ℕ)
  | leaving
deriving DecidableEq

/-- The critical section of `appendDynamicPathQueueToOverflowQueue`. -/
inductive AppendPosition
  | entered (pathCount : ℕ)
  | leaving
deriving DecidableEq

/-- `BuildPathListForTransmission`; the numbers are `count`, `actualcount` and
the number of entries its last loop has not visited yet. -/
inductive BuildPosition
  | best (count : ℕ)
  | bestEntered (count : ℕ)
  | bestLocked (count : ℕ)
  | bestStored (count : ℕ)
  | bestLeaving (count actualcount : ℕ)
  | overflow (count actualcount : ℕ)
  | overflowEntered (count actualcount : ℕ)
  | overflowLeaving (count actualcount : ℕ)
  | back (count actualcount : ℕ)
  | backLoop (count actualcount index : ℕ)
  | backLocked (count actualcount index : ℕ)
  | backStored (count actualcount index : ℕ)
  | backLeaving
  | faulted
deriving DecidableEq

inductive Position
  | outside
  | pop (position : PopPosition)
  | push (position : PushPosition)
  | eat (position : EatPosition)
  | append (position : AppendPosition)
  | build (position : BuildPosition)
deriving DecidableEq

inductive Action
  | wait
  | giveBack
  | push
  | eat
  | append (pathCount : ℕ)
  | build (requested : ℤ) (includeVeryGoodPath : Bool)
  | next
deriving DecidableEq

section

variable {Tid : Type}

/-- `ReleaseSemaphore` fails when the count would exceed the maximum the
semaphore was created with. -/
def Shared.release (shared : Shared Tid) (permits : ℕ) : Shared Tid :=
  if shared.semaphore + permits ≤ MAXQUEUESIZE then
    { shared with semaphore := shared.semaphore + permits }
  else
    shared

def Shared.take (shared : Shared Tid) : Shared Tid :=
  { shared with semaphore := shared.semaphore - 1 }

def Shared.setLength (shared : Shared Tid) (size : ℕ) : Shared Tid :=
  { shared with pathqueuelength := size }

def Shared.enterPath (shared : Shared Tid) (thread : Tid) : Shared Tid :=
  { shared with pathqueueCS := some thread }

def Shared.leavePath (shared : Shared Tid) : Shared Tid :=
  { shared with pathqueueCS := none }

def Shared.enterOverflow (shared : Shared Tid) (thread : Tid) : Shared Tid :=
  { shared with overflowqueuecs := some thread }

def Shared.leaveOverflow (shared : Shared Tid) : Shared Tid :=
  { shared with overflowqueuecs := none }

def Shared.setOverflow (shared : Shared Tid) (size : ℕ) : Shared Tid :=
  { shared with overflowlength := size }

def popStep (thread : Tid) (shared : Shared Tid) :
    PopPosition → Action → Option (Shared Tid × Position)
  | .acquired, .giveBack => some (shared.release 1, .outside)
  | .acquired, .next =>
    if shared.pathqueueCS.isNone then
      some (shared.enterPath thread, .pop .entered)
    else
      none
  | .entered, .next =>
    if 0 < shared.pathqueuelength then
      some (shared.setLength (shared.pathqueuelength - 1), .pop .leaving)
    else
      some (shared, .pop .leaving)
  | .leaving, .next => some (shared.leavePath, .outside)
  | _, _ => none

def pushStep (shared : Shared Tid) :
    PushPosition → Action → Option (Shared Tid × Position)
  | .entered, .next =>
    if shared.pathqueuelength < MAXQUEUESIZE - 1 then
      some (shared, .push .copied)
    else
      some (shared, .push .leaving)
  | .copied, .next =>
    some (shared.setLength (shared.pathqueuelength + 1), .push .counted)
  | .counted, .next => some (shared.release 1, .push .leaving)
  | .leaving, .next => some (shared.leavePath, .outside)
  | _, _ => none

def eatStep (thread : Tid) (shared : Shared Tid) :
    EatPosition → Action → Option (Shared Tid × Position)
  | .waiting, .next =>
    if shared.overflowqueuecs.isNone then
      some (shared.enterOverflow thread, .eat .entered)
    else
      none
  | .entered, .next =>
    if 0 < shared.overflowlength ∧
        shared.pathqueuelength < MAXQUEUESIZE - 1 then
      some (shared, .eat .checked)
    else
      some (shared, .eat .leaving)
  | .checked, .next =>
    if shared.pathqueueCS.isNone then
      some (shared.enterPath thread, .eat .locked)
    else
      none
  | .locked, .next =>
    let pathsToCopy := min shared.overflowlength
      (MAXQUEUESIZE - shared.pathqueuelength)
    if 0 < pathsToCopy then
      some (shared.setLength (shared.pathqueuelength + pathsToCopy),
        .eat (.counted pathsToCopy))
    else
      some (shared, .eat (.released pathsToCopy))
  | .counted pathsToCopy, .next =>
    some (shared.release pathsToCopy, .eat (.released pathsToCopy))
  | .released pathsToCopy, .next =>
    some (shared.leavePath, .eat (.cutting pathsToCopy))
  | .cutting pathsToCopy, .next =>
    some (shared.setOverflow (shared.overflowlength - pathsToCopy),
      .eat .leaving)
  | .leaving, .next => some (shared.leaveOverflow, .outside)
  | _, _ => none

def appendStep (shared : Shared Tid) :
    AppendPosition → Action → Option (Shared Tid × Position)
  | .entered pathCount, .next =>
    some (shared.setOverflow (shared.overflowlength + pathCount),
      .append .leaving)
  | .leaving, .next => some (shared.leaveOverflow, .outside)
  | _, _ => none

def buildStep (thread : Tid) (shared : Shared Tid) :
    BuildPosition → Action → Option (Shared Tid × Position)
  | .best count, .next =>
    if shared.pathqueueCS.isNone then
      some (shared.enterPath thread, .build (.bestEntered count))
    else
      none
  | .bestEntered count, .next =>
    if 0 < shared.pathqueuelength ∧ 0 < shared.semaphore then
      some (shared.take, .build (.bestLocked count))
    else
      some (shared, .build (.bestLeaving count 0))
  | .bestLocked count, .next =>
    if 0 < count then
      some (shared, .build (.bestStored count))
    else
      some (shared, .build .faulted)
  | .bestStored count, .next =>
    some (shared.setLength (shared.pathqueuelength - 1),
      .build (.bestLeaving count 1))
  | .bestLeaving count actualcount, .next =>
    if count ≤ actualcount then
      some (shared.leavePath, .outside)
    else
      some (shared.leavePath, .build (.overflow count actualcount))
  | .overflow count actualcount, .next =>
    if shared.overflowqueuecs.isNone then
      some (shared.enterOverflow thread,
        .build (.overflowEntered count actualcount))
    else
      none
  | .overflowEntered count actualcount, .next =>
    let c := min (count - actualcount) shared.overflowlength
    some (shared.setOverflow (shared.overflowlength - c),
      .build (.overflowLeaving count (actualcount + c)))
  | .overflowLeaving count actualcount, .next =>
    if count ≤ actualcount then
      some (shared.leaveOverflow, .outside)
    else
      some (shared.leaveOverflow, .build (.back count actualcount))
  | .back count actualcount, .next =>
    if shared.pathqueueCS.isNone then
      some (shared.enterPath thread,
        .build (.backLoop count actualcount shared.pathqueuelength))
    else
      none
  | .backLoop _ _ 0, .next => some (shared, .build .backLeaving)
  | .backLoop count actualcount (index + 1), .next =>
    if 0 < shared.semaphore then
      some (shared.take, .build (.backLocked count actualcount index))
    else
      some (shared, .build (.backLoop count actualcount index))
  | .backLocked count actualcount index, .next =>
    if actualcount < count then
      some (shared, .build (.backStored count actualcount index))
    else
      some (shared, .build .faulted)
  | .backStored count actualcount index, .next =>
    let taken := shared.setLength (shared.pathqueuelength - 1)
    if count ≤ actualcount + 1 then
      some (taken, .build .backLeaving)
    else
      some (taken, .build (.backLoop count (actualcount + 1) index))
  | .backLeaving, .next => some (shared.leavePath, .outside)
  | .faulted, .next => some (shared.leavePath, .outside)
  | _, _ => none

def startStep (thread : Tid) (shared : Shared Tid) :
    Action → Option (Shared Tid × Position)
  | .wait =>
    if 0 < shared.semaphore then
      some (shared.take, .pop .acquired)
    else
      none
  | .push =>
    if shared.pathqueueCS.isNone then
      some (shared.enterPath thread, .push .entered)
    else
      none
  | .eat =>
    if shared.pathqueuelength = MAXQUEUESIZE ∨ shared.overflowlength = 0 then
      some (shared, .outside)
    else
      some (shared, .eat .waiting)
  | .append pathCount =>
    if shared.overflowqueuecs.isNone then
      some (shared.enterOverflow thread, .append (.entered pathCount))
    else
      none
  | .build requested includeVeryGoodPath =>
    if includeVeryGoodPath then
      some (shared, .build (.best (clampCount requested)))
    else if clampCount requested ≤ 0 then
      some (shared, .outside)
    else
      some (shared, .build (.overflow (clampCount requested) 0))
  | _ => none

def threadStep (thread : Tid) (shared : Shared Tid) :
    Position → Action → Option (Shared Tid × Position)
  | .outside, action => startStep thread shared action
  | .pop position, action => popStep thread shared position action
  | .push position, action => pushStep shared position action
  | .eat position, action => eatStep thread shared position action
  | .append position, action => appendStep shared position action
  | .build position, action => buildStep thread shared position action

end

abbrev State (Tid : Type) := Threads Tid (Shared Tid) Position

abbrev step {Tid : Type} [DecidableEq Tid] :
    State Tid → Tid × Action → Option (State Tid) :=
  Threads.step threadStep

namespace Position

/-- A permit was taken and the path it stands for is still in the queue. -/
def acquiredPermits : Position → ℕ
  | .pop .acquired => 1
  | .pop .entered => 1
  | .build (.bestLocked _) => 1
  | .build (.bestStored _) => 1
  | .build (.backLocked _ _ _) => 1
  | .build (.backStored _ _ _) => 1
  | _ => 0

def unreleasedPermits : Position → ℕ
  | .push .counted => 1
  | .eat (.counted pathsToCopy) => pathsToCopy
  | _ => 0

def inPathqueueCS : Position → Bool
  | .pop .entered => true
  | .pop .leaving => true
  | .push _ => true
  | .eat .locked => true
  | .eat (.counted _) => true
  | .eat (.released _) => true
  | .build (.bestEntered _) => true
  | .build (.bestLocked _) => true
  | .build (.bestStored _) => true
  | .build (.bestLeaving _ _) => true
  | .build (.backLoop _ _ _) => true
  | .build (.backLocked _ _ _) => true
  | .build (.backStored _ _ _) => true
  | .build .backLeaving => true
  | .build .faulted => true
  | _ => false

def Consistent (pathqueuelength : ℕ) : Position → Prop
  | .push .copied => pathqueuelength < MAXQUEUESIZE
  | .build (.best count) => 0 < count
  | .build (.bestEntered count) => 0 < count
  | .build (.bestLocked count) => 0 < count
  | .build (.back count actualcount) => actualcount < count
  | .build (.backLoop count actualcount _) => actualcount < count
  | .build (.backLocked count actualcount _) => actualcount < count
  | _ => True

/-- Permits that are missing from the semaphore on account of this thread. -/
def missingPermits (position : Position) : ℕ :=
  position.acquiredPermits + position.unreleasedPermits

end Position

/-- The accounting of the path queue.  Between an increase of the length and
the release of the new permits, which happen in one critical section, the
permits that are about to be released are counted too; while nobody is in
that section the semaphore is the length less the waiting poppers. -/
structure Accounted {Tid : Type} [Fintype Tid] (state : State Tid) :
    Prop where
  length_le : state.shared.pathqueuelength ≤ MAXQUEUESIZE
  permits : state.shared.semaphore + state.total Position.acquiredPermits +
    state.total Position.unreleasedPermits = state.shared.pathqueuelength
  free_permits : state.shared.pathqueueCS = none →
    state.shared.semaphore +
      (Finset.univ.filter fun thread =>
        state.locals thread = .pop .acquired).card =
      state.shared.pathqueuelength
  pop_nonempty : ∀ thread, state.locals thread = .pop .entered →
    0 < state.shared.pathqueuelength

structure Initial {Tid : Type} (state : State Tid) : Prop where
  length_le : state.shared.pathqueuelength ≤ MAXQUEUESIZE
  semaphore_eq : state.shared.semaphore = state.shared.pathqueuelength
  pathqueueCS_free : state.shared.pathqueueCS = none
  outside : ∀ thread, state.locals thread = .outside

/-- A call of `BuildPathListForTransmission` that includes the very good path
asks for at least one path. -/
def AsksForPaths {Tid : Type} (_ : State Tid) : Tid × Action → Prop
  | (_, .build requested true) => 1 ≤ requested
  | _ => True

/-! ## One step of one thread -/

section

variable {Tid : Type}

structure StepSound (thread : Tid) (shared : Shared Tid)
    (position : Position) (shared' : Shared Tid) (position' : Position) :
    Prop where
  balance : shared'.semaphore + position'.missingPermits +
      shared.pathqueuelength =
    shared.semaphore + position.missingPermits + shared'.pathqueuelength
  length_le : shared'.pathqueuelength ≤ MAXQUEUESIZE
  consistent : position'.Consistent shared'.pathqueuelength
  unchanged : position.inPathqueueCS = false →
    shared'.pathqueuelength = shared.pathqueuelength
  owner : position'.inPathqueueCS = true ↔ shared'.pathqueueCS = some thread
  others : ∀ other, other ≠ thread →
    (shared'.pathqueueCS = some other ↔ shared.pathqueueCS = some other)

structure StepReady (thread : Tid) (shared : Shared Tid)
    (position : Position) : Prop where
  length_le : shared.pathqueuelength ≤ MAXQUEUESIZE
  permits : shared.semaphore + position.missingPermits ≤
    shared.pathqueuelength
  consistent : position.Consistent shared.pathqueuelength
  owner : position.inPathqueueCS = true ↔ shared.pathqueueCS = some thread

namespace StepReady

variable {thread : Tid} {shared : Shared Tid} {position position' : Position}

section

variable (hready : StepReady thread shared position)

include hready

theorem quiet {shared' : Shared Tid}
    (hsemaphore : shared'.semaphore = shared.semaphore)
    (hlength : shared'.pathqueuelength = shared.pathqueuelength)
    (hsection : shared'.pathqueueCS = shared.pathqueueCS)
    (hmissing : position'.missingPermits = position.missingPermits)
    (hconsistent : position'.Consistent shared.pathqueuelength)
    (hinside : position'.inPathqueueCS = position.inPathqueueCS) :
    StepSound thread shared position shared' position' where
  balance := by
    rw [hsemaphore, hlength, hmissing]
  length_le := by
    rw [hlength]
    exact hready.length_le
  consistent := by
    rw [hlength]
    exact hconsistent
  unchanged := fun _ => hlength
  owner := by
    rw [hsection, hinside]
    exact hready.owner
  others := by
    intro other _
    rw [hsection]

theorem enter (hfree : shared.pathqueueCS.isNone = true)
    (hmissing : position'.missingPermits = position.missingPermits)
    (hconsistent : position'.Consistent shared.pathqueuelength)
    (hinside : position'.inPathqueueCS = true) :
    StepSound thread shared position (shared.enterPath thread) position' where
  balance := by
    rw [hmissing]
    rfl
  length_le := hready.length_le
  consistent := hconsistent
  unchanged := fun _ => rfl
  owner := by
    simp [hinside, Shared.enterPath]
  others := by
    intro other hother
    have hnone : shared.pathqueueCS = none := Option.isNone_iff_eq_none.mp hfree
    simp [Shared.enterPath, hnone, hother.symm]

theorem leave (hinside : position.inPathqueueCS = true)
    (houtside : position'.inPathqueueCS = false)
    (hmissing : position'.missingPermits = position.missingPermits)
    (hconsistent : position'.Consistent shared.pathqueuelength) :
    StepSound thread shared position shared.leavePath position' where
  balance := by
    rw [hmissing]
    rfl
  length_le := hready.length_le
  consistent := hconsistent
  unchanged := fun _ => rfl
  owner := by
    simp [houtside, Shared.leavePath]
  others := by
    intro other hother
    have howned : shared.pathqueueCS = some thread := hready.owner.mp hinside
    simp [Shared.leavePath, howned, hother.symm]

theorem take (hpermit : 0 < shared.semaphore)
    (hmissing : position'.missingPermits = position.missingPermits + 1)
    (hconsistent : position'.Consistent shared.pathqueuelength)
    (hinside : position'.inPathqueueCS = position.inPathqueueCS) :
    StepSound thread shared position shared.take position' where
  balance := by
    rw [hmissing]
    simp only [Shared.take]
    omega
  length_le := hready.length_le
  consistent := hconsistent
  unchanged := fun _ => rfl
  owner := by
    rw [hinside]
    exact hready.owner
  others := fun _ _ => Iff.rfl

theorem release {permits : ℕ}
    (hmissing : position.missingPermits = position'.missingPermits + permits)
    (hconsistent : position'.Consistent shared.pathqueuelength)
    (hinside : position'.inPathqueueCS = position.inPathqueueCS) :
    StepSound thread shared position (shared.release permits) position' := by
  have hroom : shared.semaphore + permits ≤ MAXQUEUESIZE := by
    have hle := hready.length_le
    have hpermits := hready.permits
    omega
  have hrelease : shared.release permits =
      { shared with semaphore := shared.semaphore + permits } :=
    if_pos hroom
  rw [hrelease]
  exact
    { balance := by
        simp only [hmissing]
        omega
      length_le := hready.length_le
      consistent := hconsistent
      unchanged := fun _ => rfl
      owner := by
        rw [hinside]
        exact hready.owner
      others := fun _ _ => Iff.rfl }

theorem setLength {size : ℕ}
    (hbalance : position'.missingPermits + shared.pathqueuelength =
      position.missingPermits + size) (hsize : size ≤ MAXQUEUESIZE)
    (hconsistent : position'.Consistent size)
    (hbefore : position.inPathqueueCS = true)
    (hafter : position'.inPathqueueCS = true) :
    StepSound thread shared position (shared.setLength size) position' where
  balance := by
    simp only [Shared.setLength]
    omega
  length_le := hsize
  consistent := hconsistent
  unchanged := by
    intro houtside
    rw [hbefore] at houtside
    cases houtside
  owner := by
    have howned : shared.pathqueueCS = some thread := hready.owner.mp hbefore
    simp [hafter, Shared.setLength, howned]
  others := fun _ _ => Iff.rfl

end

end StepReady

variable {thread : Tid} {shared shared' : Shared Tid} {action : Action}
  {position' : Position}

theorem startStep_sound (hready : StepReady thread shared .outside)
    (hasks : ∀ requested, action = .build requested true → 1 ≤ requested)
    (hstep : startStep thread shared action = some (shared', position')) :
    StepSound thread shared .outside shared' position' := by
  cases action with
  | wait =>
    simp only [startStep] at hstep
    split at hstep
    · next hpermit =>
        cases hstep
        exact hready.take hpermit rfl trivial rfl
    · cases hstep
  | push =>
    simp only [startStep] at hstep
    split at hstep
    · next hfree =>
        cases hstep
        exact hready.enter hfree rfl trivial rfl
    · cases hstep
  | eat =>
    simp only [startStep] at hstep
    split at hstep <;>
    · cases hstep
      exact hready.quiet rfl rfl rfl rfl trivial rfl
  | append pathCount =>
    simp only [startStep] at hstep
    split at hstep
    · cases hstep
      exact hready.quiet rfl rfl rfl rfl trivial rfl
    · cases hstep
  | build requested includeVeryGoodPath =>
    simp only [startStep] at hstep
    split at hstep
    · next hinclude =>
        cases hstep
        subst hinclude
        have hcount : 0 < clampCount requested := by
          have hpositive := hasks requested rfl
          have hzero := clampCount_eq_zero_iff requested
          omega
        exact hready.quiet rfl rfl rfl rfl hcount rfl
    · split at hstep <;>
      · cases hstep
        exact hready.quiet rfl rfl rfl rfl trivial rfl
  | giveBack => cases hstep
  | next => cases hstep

theorem popStep_sound {position : PopPosition}
    (hready : StepReady thread shared (.pop position))
    (hstep : popStep thread shared position action =
      some (shared', position')) :
    StepSound thread shared (.pop position) shared' position' := by
  unfold popStep at hstep
  split at hstep
  · cases hstep
    exact hready.release rfl trivial rfl
  · split at hstep
    · next hfree =>
        cases hstep
        exact hready.enter hfree rfl trivial rfl
    · cases hstep
  · have hpermits : shared.semaphore + 1 ≤ shared.pathqueuelength :=
      hready.permits
    have hle := hready.length_le
    split at hstep
    · cases hstep
      exact hready.setLength (by
        change 0 + shared.pathqueuelength = 1 + (shared.pathqueuelength - 1)
        omega) (by omega) trivial rfl rfl
    · omega
  · cases hstep
    exact hready.leave rfl rfl rfl trivial
  · cases hstep

theorem pushStep_sound {position : PushPosition}
    (hready : StepReady thread shared (.push position))
    (hstep : pushStep shared position action = some (shared', position')) :
    StepSound thread shared (.push position) shared' position' := by
  unfold pushStep at hstep
  split at hstep
  · split at hstep
    · next hroom =>
        cases hstep
        have hless : shared.pathqueuelength < MAXQUEUESIZE := by omega
        exact hready.quiet rfl rfl rfl rfl hless rfl
    · cases hstep
      exact hready.quiet rfl rfl rfl rfl trivial rfl
  · cases hstep
    have hless : shared.pathqueuelength < MAXQUEUESIZE := hready.consistent
    exact hready.setLength (by
      change 1 + shared.pathqueuelength = 0 + (shared.pathqueuelength + 1)
      omega) hless trivial rfl rfl
  · cases hstep
    exact hready.release rfl trivial rfl
  · cases hstep
    exact hready.leave rfl rfl rfl trivial
  · cases hstep

theorem eatStep_sound {position : EatPosition}
    (hready : StepReady thread shared (.eat position))
    (hstep : eatStep thread shared position action =
      some (shared', position')) :
    StepSound thread shared (.eat position) shared' position' := by
  have hle := hready.length_le
  unfold eatStep at hstep
  split at hstep
  · split at hstep
    · cases hstep
      exact hready.quiet rfl rfl rfl rfl trivial rfl
    · cases hstep
  · split at hstep <;>
    · cases hstep
      exact hready.quiet rfl rfl rfl rfl trivial rfl
  · split at hstep
    · next hfree =>
        cases hstep
        exact hready.enter hfree rfl trivial rfl
    · cases hstep
  · dsimp only at hstep
    split at hstep
    · cases hstep
      refine hready.setLength ?_ (by omega) trivial rfl rfl
      change 0 + min shared.overflowlength
        (MAXQUEUESIZE - shared.pathqueuelength) + shared.pathqueuelength =
          0 + (shared.pathqueuelength + _)
      omega
    · cases hstep
      exact hready.quiet rfl rfl rfl rfl trivial rfl
  · cases hstep
    refine hready.release ?_ trivial rfl
    rfl
  · cases hstep
    exact hready.leave rfl rfl rfl trivial
  · cases hstep
    exact hready.quiet rfl rfl rfl rfl trivial rfl
  · cases hstep
    exact hready.quiet rfl rfl rfl rfl trivial rfl
  · cases hstep

theorem appendStep_sound {position : AppendPosition}
    (hready : StepReady thread shared (.append position))
    (hstep : appendStep shared position action = some (shared', position')) :
    StepSound thread shared (.append position) shared' position' := by
  unfold appendStep at hstep
  split at hstep
  · cases hstep
    exact hready.quiet rfl rfl rfl rfl trivial rfl
  · cases hstep
    exact hready.quiet rfl rfl rfl rfl trivial rfl
  · cases hstep

theorem buildStep_sound {position : BuildPosition}
    (hready : StepReady thread shared (.build position))
    (hstep : buildStep thread shared position action =
      some (shared', position')) :
    StepSound thread shared (.build position) shared' position' := by
  have hle := hready.length_le
  have hpermits := hready.permits
  have hconsistent := hready.consistent
  unfold buildStep at hstep
  split at hstep
  · split at hstep
    · next hfree =>
        cases hstep
        exact hready.enter hfree rfl hconsistent rfl
    · cases hstep
  · split at hstep
    · next hsignalled =>
        cases hstep
        exact hready.take hsignalled.2 rfl hconsistent rfl
    · cases hstep
      exact hready.quiet rfl rfl rfl rfl trivial rfl
  · split at hstep
    · cases hstep
      exact hready.quiet rfl rfl rfl rfl trivial rfl
    · next hempty => exact absurd hconsistent hempty
  · cases hstep
    change shared.semaphore + 1 ≤ shared.pathqueuelength at hpermits
    refine hready.setLength ?_ (by omega) trivial rfl rfl
    change 0 + shared.pathqueuelength = 1 + (shared.pathqueuelength - 1)
    omega
  · split at hstep <;>
    · cases hstep
      exact hready.leave rfl rfl rfl trivial
  · split at hstep
    · cases hstep
      exact hready.quiet rfl rfl rfl rfl trivial rfl
    · cases hstep
  · cases hstep
    exact hready.quiet rfl rfl rfl rfl trivial rfl
  · split at hstep
    · cases hstep
      exact hready.quiet rfl rfl rfl rfl trivial rfl
    · next hmore =>
        cases hstep
        exact hready.quiet rfl rfl rfl rfl (Nat.lt_of_not_le hmore) rfl
  · split at hstep
    · next hfree =>
        cases hstep
        exact hready.enter hfree rfl hconsistent rfl
    · cases hstep
  · cases hstep
    exact hready.quiet rfl rfl rfl rfl trivial rfl
  · split at hstep
    · next hsignalled =>
        cases hstep
        exact hready.take hsignalled rfl hconsistent rfl
    · cases hstep
      exact hready.quiet rfl rfl rfl rfl hconsistent rfl
  · split at hstep
    · cases hstep
      exact hready.quiet rfl rfl rfl rfl trivial rfl
    · next hfull => exact absurd hconsistent hfull
  · change shared.semaphore + 1 ≤ shared.pathqueuelength at hpermits
    have hbalance : 0 + shared.pathqueuelength =
        1 + (shared.pathqueuelength - 1) := by
      omega
    dsimp only at hstep
    split at hstep
    · cases hstep
      exact hready.setLength hbalance (by omega) trivial rfl rfl
    · next hmore =>
        cases hstep
        exact hready.setLength hbalance (by omega)
          (Nat.lt_of_not_le hmore) rfl rfl
  · cases hstep
    exact hready.leave rfl rfl rfl trivial
  · cases hstep
    exact hready.leave rfl rfl rfl trivial
  · cases hstep

theorem threadStep_sound {position : Position}
    (hready : StepReady thread shared position)
    (hasks : ∀ requested, action = .build requested true → 1 ≤ requested)
    (hstep : threadStep thread shared position action =
      some (shared', position')) :
    StepSound thread shared position shared' position' := by
  cases position with
  | outside => exact startStep_sound hready hasks hstep
  | pop position => exact popStep_sound hready hstep
  | push position => exact pushStep_sound hready hstep
  | eat position => exact eatStep_sound hready hstep
  | append position => exact appendStep_sound hready hstep
  | build position => exact buildStep_sound hready hstep

end

/-! ## Every run -/

section

variable {Tid : Type} [Fintype Tid]

structure Invariant (state : State Tid) : Prop where
  length_le : state.shared.pathqueuelength ≤ MAXQUEUESIZE
  permits : state.shared.semaphore + state.total Position.missingPermits =
    state.shared.pathqueuelength
  consistent : ∀ thread,
    (state.locals thread).Consistent state.shared.pathqueuelength
  owner : ∀ thread, (state.locals thread).inPathqueueCS = true ↔
    state.shared.pathqueueCS = some thread

variable {state : State Tid}

theorem Initial.invariant (hinitial : Initial state) :
    Invariant state where
  length_le := hinitial.length_le
  permits := by
    have hzero : state.total Position.missingPermits = 0 := by
      apply Finset.sum_eq_zero
      intro thread _
      rw [hinitial.outside thread]
      rfl
    rw [hzero, hinitial.semaphore_eq, Nat.add_zero]
  consistent := by
    intro thread
    rw [hinitial.outside thread]
    trivial
  owner := by
    intro thread
    rw [hinitial.outside thread, hinitial.pathqueueCS_free]
    simp [Position.inPathqueueCS]

theorem missingPermits_le_total (state : State Tid) (thread : Tid) :
    (state.locals thread).missingPermits ≤
      state.total Position.missingPermits :=
  Finset.single_le_sum
    (f := fun other => (state.locals other).missingPermits)
    (fun _ _ => Nat.zero_le _) (Finset.mem_univ thread)

theorem Invariant.ready (hinv : Invariant state) (thread : Tid) :
    StepReady thread state.shared (state.locals thread) where
  length_le := hinv.length_le
  permits := by
    have hthread := missingPermits_le_total state thread
    have hpermits := hinv.permits
    omega
  consistent := hinv.consistent thread
  owner := hinv.owner thread

theorem Position.Consistent.of_outside {position : Position}
    {before after : ℕ} (houtside : position.inPathqueueCS = false)
    (hconsistent : position.Consistent before) :
    position.Consistent after := by
  cases position with
  | push position => cases houtside
  | outside => trivial
  | pop position => trivial
  | eat position => trivial
  | append position => trivial
  | build position => cases position <;> exact hconsistent

theorem Invariant.acquired_card (hinv : Invariant state)
    (hfree : state.shared.pathqueueCS = none) :
    state.total Position.missingPermits =
      (Finset.univ.filter fun thread =>
        state.locals thread = .pop .acquired).card := by
  rw [Finset.card_filter, Threads.total]
  apply Finset.sum_congr rfl
  intro thread _
  have houtside : (state.locals thread).inPathqueueCS = false := by
    apply Bool.eq_false_iff.mpr
    intro hinside
    have howned := (hinv.owner thread).mp hinside
    rw [hfree] at howned
    cases howned
  generalize state.locals thread = position at houtside
  rcases position with _ | position | position | position | position | position
  · rfl
  · cases position <;> first | rfl | cases houtside
  · cases houtside
  · cases position <;> first | rfl | cases houtside
  · rfl
  · cases position <;> first | rfl | cases houtside

theorem Invariant.accounted (hinv : Invariant state) :
    Accounted state where
  length_le := hinv.length_le
  permits := by
    have hsplit : state.total Position.missingPermits =
        state.total Position.acquiredPermits +
          state.total Position.unreleasedPermits :=
      Finset.sum_add_distrib
    have hpermits := hinv.permits
    omega
  free_permits := by
    intro hfree
    rw [← hinv.acquired_card hfree]
    exact hinv.permits
  pop_nonempty := by
    intro thread hentered
    have hready := (hinv.ready thread).permits
    rw [hentered] at hready
    change state.shared.semaphore + 1 ≤ state.shared.pathqueuelength at hready
    omega

variable [DecidableEq Tid]

theorem Invariant.step {before after : State Tid} {label : Tid × Action}
    (hinv : Invariant before) (hasks : AsksForPaths before label)
    (hstep : step before label = some after) :
    Invariant after := by
  obtain ⟨thread, action⟩ := label
  obtain ⟨position', hthread, hlocals⟩ := Threads.step_cases hstep
  have hsound := threadStep_sound (hinv.ready thread) (by
    rintro requested rfl
    exact hasks) hthread
  have hself : after.locals thread = position' := by
    rw [hlocals, Function.update_self]
  have hother : ∀ other, other ≠ thread →
      after.locals other = before.locals other := by
    intro other hne
    rw [hlocals, Function.update_of_ne hne]
  constructor
  · exact hsound.length_le
  · have htotal : after.total Position.missingPermits +
        (before.locals thread).missingPermits =
        before.total Position.missingPermits + position'.missingPermits :=
      Threads.total_update Position.missingPermits hlocals
    have hbalance := hsound.balance
    have hpermits := hinv.permits
    omega
  · intro other
    by_cases hne : other = thread
    · subst hne
      rw [hself]
      exact hsound.consistent
    · rw [hother other hne]
      cases hinside : (before.locals thread).inPathqueueCS with
      | false =>
        rw [hsound.unchanged hinside]
        exact hinv.consistent other
      | true =>
        have howned := (hinv.owner thread).mp hinside
        have hnot : (before.locals other).inPathqueueCS = false := by
          apply Bool.eq_false_iff.mpr
          intro hboth
          have hsame := (hinv.owner other).mp hboth
          rw [howned] at hsame
          exact hne (Option.some.inj hsame).symm
        exact (hinv.consistent other).of_outside hnot
  · intro other
    by_cases hne : other = thread
    · subst hne
      rw [hself]
      exact hsound.owner
    · rw [hother other hne, hsound.others other hne]
      exact hinv.owner other

/-- In every run in which each call that includes the very good path asks for
at least one path, the accounting holds in every state that is reached. -/
theorem accounted_of_reaches {start final : State Tid}
    (hstart : Initial start) (hrun : Reaches step AsksForPaths start final) :
    Accounted final := by
  have hinv : Invariant final := by
    apply Reaches.invariant _ hrun hstart.invariant
    intro before label after hbefore hasks hstep
    exact hbefore.step hasks hstep
  exact hinv.accounted

end

def idleScanner : State (Fin 2) where
  shared :=
    { semaphore := 0
      pathqueuelength := 0
      overflowlength := 0
      pathqueueCS := none
      overflowqueuecs := none }
  locals := fun _ => .outside

theorem idleScanner_initial : Initial idleScanner where
  length_le := by decide
  semaphore_eq := rfl
  pathqueueCS_free := rfl
  outside := fun _ => rfl

def pushSchedule : List (Fin 2 × Action) :=
  [(0, .push), (0, .next), (0, .next), (0, .next), (0, .next)]

/-- Thread 0 pushes a path and thread 1 answers a request for at most 0
paths. -/
def zeroRequestSchedule : List (Fin 2 × Action) :=
  pushSchedule ++
    [(1, .build 0 true), (1, .next), (1, .next), (1, .next), (1, .next)]

theorem accounted_after_push :
    ∃ final, Reaches step AsksForPaths idleScanner final ∧
      final.shared.pathqueuelength = 1 ∧ Accounted final := by
  have hrun : ∃ final,
      runLabels step (pushSchedule ++ [(1, .wait)]) idleScanner = some final ∧
        final.shared.pathqueuelength = 1 := ⟨_, rfl, rfl⟩
  obtain ⟨final, hfinal, hlength⟩ := hrun
  have hreaches : Reaches step AsksForPaths idleScanner final := by
    apply reaches_of_runLabels _ hfinal
    intro state label hlabel
    simp only [pushSchedule, List.cons_append, List.nil_append, List.mem_cons,
      List.not_mem_nil, or_false] at hlabel
    rcases hlabel with rfl | rfl | rfl | rfl | rfl | rfl <;> trivial
  exact ⟨final, hreaches, hlength,
    accounted_of_reaches idleScanner_initial hreaches⟩

/-- After a request for no paths that includes the very good path, a path is
queued that no permit stands for. -/
theorem zero_request_loses_permit :
    ∃ final, Initial idleScanner ∧
      Reaches step (fun _ _ => True) idleScanner final ∧
      ¬ Accounted final := by
  have hrun : ∃ final,
      runLabels step zeroRequestSchedule idleScanner = some final ∧
        final.shared.semaphore = 0 ∧ final.shared.pathqueuelength = 1 ∧
        final.shared.pathqueueCS = none ∧
        ∀ thread, final.locals thread = .outside :=
    ⟨_, rfl, rfl, rfl, rfl, by decide⟩
  obtain ⟨final, hfinal, hsemaphore, hlength, hfree, houtside⟩ := hrun
  refine ⟨final, idleScanner_initial,
    reaches_of_runLabels (fun _ _ _ => trivial) hfinal, ?_⟩
  intro haccounted
  have hpermits := haccounted.free_permits hfree
  simp [hsemaphore, hlength, houtside] at hpermits

/-! ## The order of the locks -/

def Position.inOverflowqueuecs : Position → Bool
  | .eat .waiting => false
  | .eat _ => true
  | .append _ => true
  | .build (.overflowEntered _ _) => true
  | .build (.overflowLeaving _ _) => true
  | _ => false

section

variable {Tid : Type} {thread : Tid} {shared shared' : Shared Tid}
  {position position' : Position} {action : Action}

theorem release_locks (permits : ℕ) :
    (shared.release permits).pathqueueCS = shared.pathqueueCS ∧
      (shared.release permits).overflowqueuecs = shared.overflowqueuecs := by
  unfold Shared.release
  split <;> exact ⟨rfl, rfl⟩

theorem threadStep_locks
    (hstep : threadStep thread shared position action =
      some (shared', position')) :
    Threads.LockStep thread position.inPathqueueCS position'.inPathqueueCS
        shared.pathqueueCS shared'.pathqueueCS ∧
      Threads.LockStep thread position.inOverflowqueuecs
        position'.inOverflowqueuecs shared.overflowqueuecs
        shared'.overflowqueuecs := by
  unfold threadStep at hstep
  split at hstep <;> simp only [startStep, popStep, pushStep, eatStep,
    appendStep, buildStep] at hstep <;> split at hstep <;>
    (try split at hstep) <;> (try split at hstep) <;> cases hstep <;>
    simp_all [Threads.LockStep, Position.inPathqueueCS,
      Position.inOverflowqueuecs, Shared.enterPath, Shared.leavePath,
      Shared.enterOverflow, Shared.leaveOverflow, Shared.take,
      Shared.setLength, Shared.setOverflow, release_locks]

/-- A thread in a routine waits for a lock at most, and for the lock of the
path queue last. -/
theorem threadStep_next_isSome (hinside : position ≠ .outside)
    (hpath : position.inPathqueueCS = true ∨ shared.pathqueueCS = none)
    (hoverflow : position.inPathqueueCS = true ∨
      position.inOverflowqueuecs = true ∨ shared.overflowqueuecs = none) :
    (threadStep thread shared position .next).isSome = true := by
  cases position with
  | outside => exact absurd rfl hinside
  | pop position =>
    cases position <;> simp_all [threadStep, popStep, Position.inPathqueueCS]
    split <;> rfl
  | push position =>
    cases position <;> simp only [threadStep, pushStep] <;> (try split) <;> rfl
  | eat position =>
    cases position <;> simp_all [threadStep, eatStep,
      Position.inPathqueueCS, Position.inOverflowqueuecs] <;> split <;> rfl
  | append position => cases position <;> rfl
  | build position =>
    cases position with
    | backLoop count actualcount index =>
      cases index <;> simp only [threadStep, buildStep] <;> (try split) <;> rfl
    | _ =>
      simp_all [threadStep, buildStep, Position.inPathqueueCS,
        Position.inOverflowqueuecs] <;> (try split) <;> rfl

variable [DecidableEq Tid]

theorem reaches_owned {start final : State Tid} (hinitial : Initial start)
    (hfree : start.shared.overflowqueuecs = none)
    (hrun : Reaches step (fun _ _ => True) start final) :
    Threads.Owned Position.inPathqueueCS Shared.pathqueueCS final ∧
      Threads.Owned Position.inOverflowqueuecs Shared.overflowqueuecs final := by
  constructor
  · exact hrun.invariant (fun _ _ _ hbefore _ hstep =>
      hbefore.of_step (fun h => (threadStep_locks h).1) hstep)
      (by simp [Threads.Owned, Position.inPathqueueCS, hinitial.outside,
        hinitial.pathqueueCS_free])
  · exact hrun.invariant (fun _ _ _ hbefore _ hstep =>
      hbefore.of_step (fun h => (threadStep_locks h).2) hstep)
      (by simp [Threads.Owned, Position.inOverflowqueuecs, hinitial.outside,
        hfree])

/-- Two threads are never in the sections of one lock, whatever they call. -/
theorem one_in_each_section {start final : State Tid}
    (hinitial : Initial start) (hfree : start.shared.overflowqueuecs = none)
    (hrun : Reaches step (fun _ _ => True) start final) (first second : Tid) :
    ((final.locals first).inPathqueueCS = true →
        (final.locals second).inPathqueueCS = true → first = second) ∧
      ((final.locals first).inOverflowqueuecs = true →
        (final.locals second).inOverflowqueuecs = true → first = second) := by
  obtain ⟨hpath, hoverflow⟩ := reaches_owned hinitial hfree hrun
  exact ⟨hpath.unique, hoverflow.unique⟩

/-- However many threads run the routines, and in any order, they never wait
for each other: as long as one is in a routine, one of those can go on. -/
theorem no_deadlock {start final : State Tid} (hinitial : Initial start)
    (hfree : start.shared.overflowqueuecs = none)
    (hrun : Reaches step (fun _ _ => True) start final)
    (hinside : ∃ thread, final.locals thread ≠ .outside) :
    ∃ thread, final.locals thread ≠ .outside ∧
      (step final (thread, .next)).isSome = true := by
  obtain ⟨hpath, hoverflow⟩ := reaches_owned hinitial hfree hrun
  have hgoes : ∀ thread, final.locals thread ≠ .outside →
      ((final.locals thread).inPathqueueCS = true ∨
        final.shared.pathqueueCS = none) →
      ((final.locals thread).inPathqueueCS = true ∨
        (final.locals thread).inOverflowqueuecs = true ∨
          final.shared.overflowqueuecs = none) →
      ∃ thread, final.locals thread ≠ .outside ∧
        (step final (thread, .next)).isSome = true := by
    intro thread hthread hsecond hfirst
    refine ⟨thread, hthread, ?_⟩
    rw [step, Threads.step, Option.isSome_map]
    exact threadStep_next_isSome hthread hsecond hfirst
  cases hsecond : final.shared.pathqueueCS with
  | some owner =>
    have howns := (hpath owner).mpr hsecond
    refine hgoes owner ?_ (Or.inl howns) (Or.inl howns)
    intro hout
    simp [hout, Position.inPathqueueCS] at howns
  | none =>
    cases hfirst : final.shared.overflowqueuecs with
    | some owner =>
      have howns := (hoverflow owner).mpr hfirst
      refine hgoes owner ?_ (Or.inr hsecond) (Or.inr (Or.inl howns))
      intro hout
      simp [hout, Position.inOverflowqueuecs] at howns
    | none =>
      obtain ⟨thread, hthread⟩ := hinside
      exact hgoes thread hthread (Or.inr hsecond) (Or.inr (Or.inr hfirst))

end

/-- Thread 1 has paths in the overflow queue and wants to move them to the path
queue, in whose section thread 0 is. -/
def contendedSchedule : List (Fin 2 × Action) :=
  [(1, .append 2), (1, .next), (1, .next), (1, .eat), (1, .next), (1, .next),
    (0, .push)]

theorem one_in_each_section_contended :
    ∃ final, runLabels step contendedSchedule idleScanner = some final ∧
      step final (1, .next) = none ∧
      ∀ second, ((final.locals second).inPathqueueCS = true → 0 = second) ∧
        ((final.locals second).inOverflowqueuecs = true → 1 = second) := by
  obtain ⟨final, hfinal, hwaits, hpath, hoverflow⟩ : ∃ final,
      runLabels step contendedSchedule idleScanner = some final ∧
        step final (1, .next) = none ∧
        (final.locals 0).inPathqueueCS = true ∧
        (final.locals 1).inOverflowqueuecs = true :=
    ⟨_, rfl, rfl, rfl, rfl⟩
  have hone := one_in_each_section idleScanner_initial rfl
    (reaches_of_runLabels (fun _ _ _ => trivial) hfinal)
  exact ⟨final, hfinal, hwaits, fun second =>
    ⟨(hone 0 second).1 hpath, (hone 1 second).2 hoverflow⟩⟩

theorem no_deadlock_contended :
    ∃ final, runLabels step contendedSchedule idleScanner = some final ∧
      step final (1, .next) = none ∧
      ∃ thread, final.locals thread ≠ .outside ∧
        (step final (thread, .next)).isSome = true := by
  obtain ⟨final, hfinal, hwaits, hinside⟩ : ∃ final,
      runLabels step contendedSchedule idleScanner = some final ∧
        step final (1, .next) = none ∧ final.locals 0 ≠ .outside :=
    ⟨_, rfl, rfl, by decide⟩
  exact ⟨final, hfinal, hwaits, no_deadlock idleScanner_initial rfl
    (reaches_of_runLabels (fun _ _ _ => trivial) hfinal) ⟨0, hinside⟩⟩

end QueueAccounting
end Pointerscan
end CheatEngine
