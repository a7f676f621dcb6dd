import CheatEngine.PointerscanRscan
import CheatEngine.PointerscanStructures
import CheatEngine.TransitionSystem

/-!
# Pointer scan results do not depend on the schedule

Any number of workers run `rscan` at once.  At every address it could go deeper
from, a worker puts the branch on the shared path queue, recurses itself, or,
while there is no room on the disk, hands the branch to the overflow queue.
The controller moves branches from the overflow queue to the path queue.

A worker inside `rscan` is a stack of frames, one for each call that has not
returned.  The paths stored so far together with the paths below everything
that is queued or on a stack stay the same in every step.
-/

namespace CheatEngine
namespace Pointerscan
namespace Scheduling

open List PointerValueList Rscan TransitionSystem

/-- A slot of the path queue or an element of the overflow queue. -/
structure QueuedPath where
  tempresults : ℕ → UInt32
  valuelist : ℕ → UInt64
  valuetofind : UInt64
  startlevel : ℕ

structure Shared where
  pathqueue : ℕ → QueuedPath
  pathqueuelength : ℕ
  pathqueueSemaphore : ℕ
  overflowqueue : List QueuedPath

/-- A call of `rscan`: the addresses of the current value that are left, the
address whose branch was begun and whose own path is stored next, and the
values that are left. -/
structure Frame where
  level : ℕ
  valuetofind : UInt64
  startvalue : UInt64
  dontGoDeeper : Bool
  differentOffsetsInThisNode : ℕ
  entries : List PointerData
  unstored : Option UInt64
  previous : List PointerList
deriving DecidableEq

inductive Phase
  | waiting
  | acquired
  | scanning (frames : List Frame)
deriving DecidableEq

structure Worker where
  arrays : Arrays
  valuetofind : UInt64
  startlevel : ℕ
  phase : Phase

def copyMemory {α : Type} (size : ℕ) (source target : ℕ → α) : ℕ → α :=
  fun i => if i < size then source i else target i

/-! ## The steps of a worker -/

/-- Begins the loop over the addresses of the next value, or leaves `rscan`. -/
def openNode (valuetofind : UInt64) (level : ℕ) (startvalue : UInt64)
    (arrays : Arrays) (dontGoDeeper : Bool) (count : ℕ) :
    List PointerList → Arrays × List Frame
  | [] => (arrays, [])
  | plist :: previous =>
    if startvalue ≤ plist.pointervalue then
      (arrays.setOffset level (valuetofind - plist.pointervalue).toUInt32,
        [{ level, valuetofind, startvalue, dontGoDeeper
           differentOffsetsInThisNode := count
           entries := plist.list
           unstored := none
           previous }])
    else
      (arrays, [])

/-- A call of `rscan` up to its first address. -/
def callRscan (config : Config) (arrays : Arrays) (valuetofind : UInt64)
    (level : ℕ) : Arrays × List Frame :=
  if level < config.maxlevel then
    match enter config arrays valuetofind level with
    | none => (arrays, [])
    | some (startvalue, plists, arrays) =>
      openNode valuetofind level startvalue arrays false 0 plists
  else
    (arrays, [])

/-- The address a frame can go deeper from, and the frame after that. -/
def branchPoint (config : Config) (frame : Frame) : Option (UInt64 × Frame) :=
  match frame.unstored, frame.entries with
  | none, entry :: rest =>
    if entry.staticdata = none ∧ frame.dontGoDeeper = false ∧
        frame.level + 1 < config.maxlevel then
      some (entry.address,
        { frame with entries := rest, unstored := some entry.address })
    else
      none
  | _, _ => none

def advanceFrame (config : Config) (arrays : Arrays) (frame : Frame) :
    Arrays × List Frame :=
  match frame.unstored with
  | some address =>
    (if config.staticonly then arrays
      else arrays.storePath frame.level (-1) address,
      [{ frame with unstored := none }])
  | none =>
    match frame.entries with
    | [] =>
      let count :=
        config.countOffset frame.level frame.differentOffsetsInThisNode
      if config.limitReached count then
        (arrays, [])
      else
        openNode frame.valuetofind frame.level frame.startvalue arrays
          frame.dontGoDeeper count frame.previous
    | entry :: rest =>
      match entry.staticdata with
      | some staticdata =>
        (arrays.storePath frame.level staticdata.moduleindex
          staticdata.offset.toUInt64,
          [{ frame with
             entries := rest
             dontGoDeeper :=
              frame.dontGoDeeper || config.onlyOneStaticInPath }])
      | none =>
        (arrays,
          [{ frame with
             entries := rest
             unstored :=
              if frame.dontGoDeeper then none
              else some entry.address }])

inductive Action
  | acquire
  | pop
  | advance
  | recurse
  | push
  | spill
deriving DecidableEq, Repr

/-- The element for the branch at an address, written over old arrays. -/
def queuedBranch (config : Config) (arrays : Arrays) (level : ℕ)
    (address : UInt64) (slot : QueuedPath) : QueuedPath where
  tempresults :=
    copyMemory config.maxlevel arrays.tempresults slot.tempresults
  valuelist :=
    if config.noLoop then
      copyMemory config.maxlevel arrays.valuelist slot.valuelist
    else
      slot.valuelist
  valuetofind := address
  startlevel := level + 1

def pushPath (shared : Shared) (path : QueuedPath) : Shared :=
  { shared with
    pathqueue := Function.update shared.pathqueue shared.pathqueuelength path
    pathqueuelength := shared.pathqueuelength + 1
    pathqueueSemaphore := shared.pathqueueSemaphore + 1 }

/-- The critical section in `execute`; the queue is not looked at again when it
is empty after all. -/
def popPath (config : Config) (shared : Shared) (worker : Worker) :
    Shared × Worker :=
  if 0 < shared.pathqueuelength then
    let path := shared.pathqueue (shared.pathqueuelength - 1)
    ({ shared with pathqueuelength := shared.pathqueuelength - 1 },
      { worker with
        valuetofind := path.valuetofind
        startlevel := path.startlevel
        arrays :=
          { worker.arrays with
            tempresults := copyMemory config.maxlevel path.tempresults
              worker.arrays.tempresults
            valuelist :=
              if config.noLoop then
                copyMemory config.maxlevel path.valuelist
                  worker.arrays.valuelist
              else
                worker.arrays.valuelist } })
  else
    (shared, worker)

def startScan (config : Config) (shared : Shared) (worker : Worker) :
    Shared × Worker :=
  let (shared, worker) := popPath config shared worker
  let (arrays, frames) :=
    callRscan config worker.arrays worker.valuetofind worker.startlevel
  (shared, { worker with arrays, phase := .scanning frames })

def chooseBranch (config : Config) (shared : Shared) (worker : Worker)
    (address : UInt64) (frame : Frame) (below : List Frame) :
    Action → Option (Shared × Worker)
  | .recurse =>
    let (arrays, frames) :=
      callRscan config worker.arrays address (frame.level + 1)
    some (shared,
      { worker with arrays, phase := .scanning (frames ++ frame :: below) })
  | .push =>
    if shared.pathqueuelength < MAXQUEUESIZE - 1 then
      some (pushPath shared (queuedBranch config worker.arrays frame.level
          address (shared.pathqueue shared.pathqueuelength)),
        { worker with phase := .scanning (frame :: below) })
    else
      none
  | .spill =>
    some (
      { shared with
        overflowqueue := shared.overflowqueue ++
          [{ tempresults := worker.arrays.tempresults
             valuelist := worker.arrays.valuelist
             valuetofind := address
             startlevel := frame.level + 1 }] },
      { worker with phase := .scanning (frame :: below) })
  | _ => none

def workerStep (config : Config) (shared : Shared) (worker : Worker)
    (action : Action) : Option (Shared × Worker) :=
  match worker.phase with
  | .waiting =>
    if action = .acquire ∧ 0 < shared.pathqueueSemaphore then
      some (
        { shared with
          pathqueueSemaphore := shared.pathqueueSemaphore - 1 },
        { worker with phase := .acquired })
    else
      none
  | .acquired =>
    if action = .pop then some (startScan config shared worker) else none
  | .scanning [] =>
    if action = .advance then
      some (shared, { worker with phase := .waiting })
    else
      none
  | .scanning (frame :: below) =>
    match branchPoint config frame with
    | some (address, next) =>
      chooseBranch config shared worker address next below action
    | none =>
      if action = .advance then
        let (arrays, frames) := advanceFrame config worker.arrays frame
        some (shared,
          { worker with arrays, phase := .scanning (frames ++ below) })
      else
        none

/-- The loop of `EatFromOverflowQueueIfNeeded`, which takes the elements from
the end of the overflow queue. -/
def eatPaths (config : Config) : ℕ → Shared → Shared
  | 0, shared => shared
  | paths + 1, shared =>
    match shared.overflowqueue.getLast? with
    | none => shared
    | some path =>
      let slot := shared.pathqueue shared.pathqueuelength
      eatPaths config paths
        { pushPath shared
            { tempresults := copyMemory (config.maxlevel + 1)
                path.tempresults slot.tempresults
              valuelist :=
                if config.noLoop then
                  copyMemory (config.maxlevel + 1) path.valuelist
                    slot.valuelist
                else
                  slot.valuelist
              valuetofind := path.valuetofind
              startlevel := path.startlevel } with
          overflowqueue := shared.overflowqueue.dropLast }

def eatFromOverflowQueueIfNeeded (config : Config) (shared : Shared) :
    Shared :=
  if shared.pathqueuelength = MAXQUEUESIZE ∨
      shared.overflowqueue.length = 0 then
    shared
  else if 0 < shared.overflowqueue.length ∧
      shared.pathqueuelength < MAXQUEUESIZE - 1 then
    eatPaths config (min shared.overflowqueue.length
      (MAXQUEUESIZE - shared.pathqueuelength)) shared
  else
    shared

inductive Label (Tid : Type)
  | worker (thread : Tid) (action : Action)
  | eat

variable {Tid : Type}

def scanStep [DecidableEq Tid] (config : Config) (state : Threads Tid Shared Worker) :
    Label Tid → Option (Threads Tid Shared Worker)
  | .worker thread action =>
    Threads.step (fun _ => workerStep config) state (thread, action)
  | .eat => some { state with
      shared := eatFromOverflowQueueIfNeeded config state.shared }

/-! ## The paths that are still to be found -/

def QueuedPath.arrays (path : QueuedPath) : Arrays where
  tempresults := path.tempresults
  valuelist := path.valuelist
  stored := []

def pathsOf (config : Config) (path : QueuedPath) : Multiset Path :=
  branchOf config path.arrays path.startlevel path.valuetofind

def framePaths (config : Config) (arrays : Arrays) (frame : Frame) :
    Multiset Path :=
  (match frame.unstored with
    | none => 0
    | some address => plainPath config frame.level
        (arrays.offsets (frame.level + 1)) address) +
  entriesOf config arrays frame.level frame.dontGoDeeper frame.entries +
  if config.limitReached (config.countOffset frame.level
      frame.differentOffsetsInThisNode) then
    0
  else
    nodesOf config arrays frame.level frame.valuetofind frame.startvalue
      (deeperAfter config frame.dontGoDeeper frame.entries)
      (config.countOffset frame.level frame.differentOffsetsInThisNode)
      frame.previous

def stackPaths (config : Config) (arrays : Arrays) (frames : List Frame) :
    Multiset Path :=
  (frames.map (framePaths config arrays)).sum

def Phase.frames : Phase → List Frame
  | .scanning frames => frames
  | _ => []

def workerPaths (config : Config) (worker : Worker) : Multiset Path :=
  worker.arrays.stored + stackPaths config worker.arrays worker.phase.frames

def sharedPaths (config : Config) (shared : Shared) : Multiset Path :=
  (∑ i ∈ Finset.range shared.pathqueuelength,
    pathsOf config (shared.pathqueue i)) +
  (shared.overflowqueue.map (pathsOf config)).sum

structure WellStacked (config : Config) (frames : List Frame) : Prop where
  increasing : frames.Pairwise fun upper lower => lower.level < upper.level
  bounded : ∀ frame ∈ frames, frame.level < config.maxlevel

section

variable {config : Config}

variable {level : ℕ} {frame : Frame} (arrays : Arrays)

theorem framePaths_congr {first second : Arrays}
    (hsame : SameBefore (level + 1) first second)
    (hframe : frame.level = level) :
    framePaths config first frame = framePaths config second frame := by
  subst hframe
  unfold framePaths
  rw [hsame.offsets_eq, hsame.entriesOf_eq,
    (hsame.mono (Nat.le_succ _)).nodesOf_eq hsame.values_eq]

variable (config) in
theorem stackPaths_congr {frames : List Frame}
    (hbelow : ∀ frame ∈ frames, frame.level < level) {first second : Arrays}
    (hsame : SameBefore level first second) :
    stackPaths config first frames = stackPaths config second frames := by
  unfold stackPaths
  congr 1
  apply map_congr_left
  intro frame hframe
  exact framePaths_congr (hsame.mono (hbelow frame hframe)) rfl

@[simp] theorem stackPaths_nil : stackPaths config arrays [] = 0 := rfl

@[simp] theorem stackPaths_cons (frame : Frame) (frames : List Frame) :
    stackPaths config arrays (frame :: frames) =
      framePaths config arrays frame + stackPaths config arrays frames := by
  simp [stackPaths]

@[simp] theorem stackPaths_append (frames others : List Frame) :
    stackPaths config arrays (frames ++ others) =
      stackPaths config arrays frames + stackPaths config arrays others := by
  simp [stackPaths]

theorem WellStacked.below {below : List Frame}
    (hstack : WellStacked config (frame :: below)) :
    WellStacked config below where
  increasing := (pairwise_cons.mp hstack.increasing).2
  bounded := fun other hother =>
    hstack.bounded other (mem_cons_of_mem _ hother)

theorem WellStacked.lower {below : List Frame}
    (hstack : WellStacked config (frame :: below)) :
    ∀ other ∈ below, other.level < frame.level :=
  (pairwise_cons.mp hstack.increasing).1

structure CallAt (config : Config) (level : ℕ) (frames : List Frame) :
    Prop where
  length_le : frames.length ≤ 1
  level_eq : ∀ frame ∈ frames, frame.level = level
  bounded : ∀ frame ∈ frames, frame.level < config.maxlevel

theorem CallAt.wellStacked {frames below : List Frame}
    (hcall : CallAt config level frames) (hbelow : WellStacked config below)
    (hlower : ∀ other ∈ below, other.level < level) :
    WellStacked config (frames ++ below) where
  increasing := by
    rw [pairwise_append]
    refine ⟨?_, hbelow.increasing, ?_⟩
    · rcases frames with _ | ⟨frame, rest⟩
      · exact List.Pairwise.nil
      · have hnil : rest = [] := by
          have hlength := hcall.length_le
          simp only [length_cons] at hlength
          exact length_eq_zero_iff.mp (by omega)
        subst hnil
        exact pairwise_singleton _ _
    · intro frame hframe other hother
      rw [hcall.level_eq frame hframe]
      exact hlower other hother
  bounded := by
    intro frame hframe
    rcases mem_append.mp hframe with hupper | hlow
    · exact hcall.bounded frame hupper
    · exact hbelow.bounded frame hlow

theorem openNode_spec (hlevel : level < config.maxlevel)
    (valuetofind startvalue : UInt64) (arrays : Arrays) (dontGoDeeper : Bool)
    (count : ℕ) (plists : List PointerList) :
    (openNode valuetofind level startvalue arrays dontGoDeeper count
        plists).1.stored = arrays.stored ∧
    SameBefore level (openNode valuetofind level startvalue arrays dontGoDeeper
      count plists).1 arrays ∧
    CallAt config level (openNode valuetofind level startvalue arrays
      dontGoDeeper count plists).2 ∧
    stackPaths config
        (openNode valuetofind level startvalue arrays dontGoDeeper count
          plists).1
        (openNode valuetofind level startvalue arrays dontGoDeeper count
          plists).2 =
      nodesOf config arrays level valuetofind startvalue dontGoDeeper count
        plists := by
  have hnone : CallAt config level [] :=
    ⟨by simp, by simp, by simp⟩
  cases plists with
  | nil => exact ⟨rfl, SameBefore.refl _ _, hnone, rfl⟩
  | cons plist previous =>
    by_cases hplist : startvalue ≤ plist.pointervalue
    · simp only [openNode, if_pos hplist]
      refine ⟨rfl, sameBefore_setOffset level arrays _, ?_, ?_⟩
      · exact ⟨by simp, by simp, by simpa using hlevel⟩
      · have hkept := (sameBefore_setOffset level arrays
          (valuetofind - plist.pointervalue).toUInt32).nodesOf_eq
            (rfl : _ = arrays.values config (level + 1))
        rw [nodesOf_cons config arrays level dontGoDeeper count hplist]
        simp only [stackPaths_cons, stackPaths_nil, framePaths, zero_add,
          add_zero, hkept]
    · simp only [openNode, if_neg hplist]
      refine ⟨trivial, SameBefore.refl _ _, hnone, ?_⟩
      simp only [stackPaths_nil, nodesOf, nodesPaths, if_neg hplist]

variable (config) in
theorem callRscan_spec (valuetofind : UInt64) (level : ℕ) :
    (callRscan config arrays valuetofind level).1.stored = arrays.stored ∧
    SameBefore level (callRscan config arrays valuetofind level).1 arrays ∧
    CallAt config level (callRscan config arrays valuetofind level).2 ∧
    stackPaths config (callRscan config arrays valuetofind level).1
        (callRscan config arrays valuetofind level).2 =
      branchOf config arrays level valuetofind := by
  have hnone : CallAt config level [] :=
    ⟨by simp, by simp, by simp⟩
  unfold callRscan
  by_cases hlevel : level < config.maxlevel
  · rw [if_pos hlevel]
    rcases branchOf_enter config arrays valuetofind hlevel with
      ⟨henter, hpaths⟩ |
      ⟨startvalue, plists, entered, henter, hstored, hsame, hpaths⟩
    · rw [henter, hpaths]
      exact ⟨rfl, SameBefore.refl _ _, hnone, rfl⟩
    · obtain ⟨hopened, hkept, hcall, hnodes⟩ := openNode_spec hlevel
        valuetofind startvalue entered false 0 plists
      rw [henter, hpaths]
      exact ⟨hopened.trans hstored, hkept.trans hsame, hcall, hnodes⟩
  · rw [if_neg hlevel, branchOf_eq_zero (Nat.le_of_not_lt hlevel)]
    exact ⟨rfl, SameBefore.refl _ _, hnone, rfl⟩

theorem framePaths_branchPoint {next : Frame} {address : UInt64}
    (hbranch : branchPoint config frame = some (address, next))
    (arrays : Arrays) :
    next.level = frame.level ∧ frame.level + 1 < config.maxlevel ∧
      framePaths config arrays frame =
        branchOf config arrays (frame.level + 1) address +
          framePaths config arrays next := by
  obtain ⟨level, valuetofind, startvalue, dontGoDeeper, count, entries,
    unstored, previous⟩ := frame
  unfold branchPoint at hbranch
  cases unstored with
  | some waiting => cases hbranch
  | none =>
    cases entries with
    | nil => cases hbranch
    | cons entry rest =>
      dsimp only at hbranch
      split at hbranch
      case isFalse => cases hbranch
      case isTrue hdeeper =>
        obtain ⟨hstatic, hopen, hlevel⟩ := hdeeper
        cases hbranch
        subst hopen
        refine ⟨rfl, hlevel, ?_⟩
        simp only [framePaths, entriesOf, entriesPaths, hstatic,
          deeperAfter_cons_none hstatic, Bool.false_eq_true, if_false,
          zero_add]
        abel

theorem advanceFrame_spec (hbranch : branchPoint config frame = none)
    (hlevel : frame.level < config.maxlevel) (arrays : Arrays) :
    ((advanceFrame config arrays frame).1.stored : Multiset Path) +
        stackPaths config (advanceFrame config arrays frame).1
          (advanceFrame config arrays frame).2 =
      arrays.stored + framePaths config arrays frame ∧
    SameBefore frame.level (advanceFrame config arrays frame).1 arrays ∧
    CallAt config frame.level (advanceFrame config arrays frame).2 := by
  have hcall : ∀ next : Frame, next.level = frame.level →
      CallAt config frame.level [next] := by
    intro next hnext
    exact ⟨by simp, by simpa using hnext, by simpa [hnext] using hlevel⟩
  obtain ⟨level, valuetofind, startvalue, dontGoDeeper, count, entries,
    unstored, previous⟩ := frame
  dsimp only at hlevel hcall ⊢
  cases unstored with
  | some address =>
    have hkept := sameBefore_plainPath config (level + 1) level arrays address
    refine ⟨?_, hkept.mono (Nat.le_succ level), hcall _ rfl⟩
    simp only [advanceFrame, stackPaths_cons, stackPaths_nil, add_zero,
      framePaths_congr hkept, stored_plainPath]
    simp only [framePaths, zero_add, add_assoc]
  | none =>
    cases entries with
    | nil =>
      by_cases hlimit : config.limitReached
          (config.countOffset level count) = true
      · simp only [advanceFrame, if_pos hlimit]
        refine ⟨?_, SameBefore.refl _ _, ⟨by simp, by simp, by simp⟩⟩
        simp [framePaths, entriesOf, entriesPaths, hlimit]
      · obtain ⟨hstored, hsame, hnext, hnodes⟩ := openNode_spec hlevel
          valuetofind startvalue arrays dontGoDeeper
          (config.countOffset level count) previous
        have hdeeper : deeperAfter config dontGoDeeper [] =
            dontGoDeeper := by
          simp [deeperAfter]
        simp only [advanceFrame, if_neg hlimit]
        refine ⟨?_, hsame, hnext⟩
        rw [hstored, hnodes]
        simp only [framePaths, entriesOf, entriesPaths, if_neg hlimit,
          hdeeper, zero_add]
    | cons entry rest =>
      cases hstatic : entry.staticdata with
      | some staticdata =>
        have hkept := sameBefore_storePath (level + 1) level arrays
          staticdata.moduleindex staticdata.offset.toUInt64
        simp only [advanceFrame, hstatic]
        refine ⟨?_, hkept.mono (Nat.le_succ level), hcall _ rfl⟩
        simp only [stackPaths_cons, stackPaths_nil, add_zero,
          framePaths_congr hkept, stored_storePath]
        simp only [framePaths, zero_add, entriesOf, entriesPaths, hstatic,
          deeperAfter_cons_some hstatic, add_assoc]
      | none =>
        simp only [advanceFrame, hstatic]
        refine ⟨?_, SameBefore.refl _ _, hcall _ rfl⟩
        cases dontGoDeeper with
        | true =>
          simp [framePaths, entriesOf, entriesPaths, hstatic,
            deeperAfter_cons_none hstatic]
        | false =>
          have hend : config.maxlevel ≤ level + 1 := by
            by_contra hroom
            simp [branchPoint, hstatic, Nat.lt_of_not_le hroom] at hbranch
          simp only [stackPaths_cons, stackPaths_nil, framePaths, entriesOf,
            entriesPaths, hstatic, deeperAfter_cons_none hstatic,
            branchOf_eq_zero hend, Bool.false_eq_true, if_false, zero_add,
            add_zero, add_assoc]

end

/-! ## The queues -/

section

variable {config : Config}

variable (config) in
/-- Only the entries below the maximal level count, and the values only when
loops are looked for. -/
theorem branchOf_congr {first second : Arrays}
    (htempresults : ∀ i < config.maxlevel,
      first.tempresults i = second.tempresults i)
    (hvaluelist : config.noLoop = true → ∀ i < config.maxlevel,
      first.valuelist i = second.valuelist i)
    (level : ℕ) (valuetofind : UInt64) :
    branchOf config first level valuetofind =
      branchOf config second level valuetofind := by
  by_cases hlevel : level < config.maxlevel
  · have hoffsets : first.offsets level = second.offsets level :=
      firstEntries_congr fun i hi => htempresults i (hi.trans hlevel)
    have hvalues : first.values config level = second.values config level := by
      unfold Arrays.values
      split
      case isTrue hnoLoop =>
        exact firstEntries_congr fun i hi =>
          hvaluelist hnoLoop i (hi.trans hlevel)
      case isFalse => rfl
    rw [branchOf, branchOf, hoffsets, hvalues]
  · rw [branchOf_eq_zero (Nat.le_of_not_lt hlevel),
      branchOf_eq_zero (Nat.le_of_not_lt hlevel)]

theorem copyMemory_of_lt {α : Type} {size i : ℕ} (hi : i < size)
    (source target : ℕ → α) : copyMemory size source target i = source i :=
  if_pos hi

variable (config) in
theorem branchOf_copyMemory {size : ℕ} (hsize : config.maxlevel ≤ size)
    (source target : Arrays) (stored : List Path) (level : ℕ)
    (valuetofind : UInt64) :
    branchOf config
        { tempresults := copyMemory size source.tempresults target.tempresults
          valuelist :=
            if config.noLoop then
              copyMemory size source.valuelist target.valuelist
            else
              target.valuelist
          stored } level valuetofind =
      branchOf config source level valuetofind := by
  apply branchOf_congr config
  · intro i hi
    exact copyMemory_of_lt (lt_of_lt_of_le hi hsize) _ _
  · intro hnoLoop i hi
    simp only [hnoLoop, if_true]
    exact copyMemory_of_lt (lt_of_lt_of_le hi hsize) _ _

variable (config) in
theorem sharedPaths_pushPath (shared : Shared) (path : QueuedPath) :
    sharedPaths config (pushPath shared path) =
      pathsOf config path + sharedPaths config shared := by
  have hbefore : (∑ i ∈ Finset.range shared.pathqueuelength,
      pathsOf config (Function.update shared.pathqueue shared.pathqueuelength
        path i)) =
      ∑ i ∈ Finset.range shared.pathqueuelength,
        pathsOf config (shared.pathqueue i) := by
    apply Finset.sum_congr rfl
    intro i hi
    rw [Function.update_of_ne (Nat.ne_of_lt (Finset.mem_range.mp hi))]
  simp only [sharedPaths, pushPath, Finset.sum_range_succ, hbefore,
    Function.update_self]
  abel

theorem pathsOf_queuedBranch (arrays : Arrays) (level : ℕ) (address : UInt64)
    (slot : QueuedPath) :
    pathsOf config (queuedBranch config arrays level address slot) =
      branchOf config arrays (level + 1) address :=
  branchOf_copyMemory config le_rfl arrays slot.arrays [] (level + 1) address

theorem eatPaths_spec (paths : ℕ) (shared : Shared) :
    sharedPaths config (eatPaths config paths shared) =
        sharedPaths config shared ∧
      (eatPaths config paths shared).pathqueueSemaphore +
          shared.pathqueuelength =
        shared.pathqueueSemaphore +
          (eatPaths config paths shared).pathqueuelength := by
  induction paths generalizing shared with
  | zero => exact ⟨rfl, rfl⟩
  | succ paths ih =>
    rw [eatPaths]
    cases hlast : shared.overflowqueue.getLast? with
    | none => exact ⟨rfl, rfl⟩
    | some path =>
      obtain ⟨hpaths, hpermits⟩ := ih
        { pushPath shared _ with
          overflowqueue := shared.overflowqueue.dropLast }
      refine ⟨hpaths.trans ?_, ?_⟩
      · have hsplit : shared.overflowqueue =
            shared.overflowqueue.dropLast ++ [path] :=
          (dropLast_append_getLast? path hlast).symm
        have hpath := branchOf_copyMemory config
          (Nat.le_succ config.maxlevel) path.arrays
          (shared.pathqueue shared.pathqueuelength).arrays []
          path.startlevel path.valuetofind
        have hpushed := sharedPaths_pushPath config
          { shared with overflowqueue := shared.overflowqueue.dropLast }
        refine (hpushed _).trans ?_
        rw [pathsOf]
        refine (congrArg (· + _) hpath).trans ?_
        unfold sharedPaths
        dsimp only
        conv_rhs => rw [hsplit]
        rw [map_append, sum_append, map_singleton, sum_singleton, pathsOf]
        abel
      · simp only [pushPath] at hpermits ⊢
        omega

variable (config) in
theorem popPath_spec {shared : Shared} (hqueued : 0 < shared.pathqueuelength)
    (worker : Worker) :
    (popPath config shared worker).1.pathqueuelength + 1 =
        shared.pathqueuelength ∧
      (popPath config shared worker).1.pathqueueSemaphore =
        shared.pathqueueSemaphore ∧
      (popPath config shared worker).2.arrays.stored = worker.arrays.stored ∧
      sharedPaths config shared =
        sharedPaths config (popPath config shared worker).1 +
          branchOf config (popPath config shared worker).2.arrays
            (popPath config shared worker).2.startlevel
            (popPath config shared worker).2.valuetofind := by
  obtain ⟨length, hlength⟩ : ∃ length, shared.pathqueuelength = length + 1 :=
    ⟨shared.pathqueuelength - 1, by omega⟩
  simp only [popPath, if_pos hqueued]
  refine ⟨by omega, trivial, trivial, ?_⟩
  have hcopied := branchOf_copyMemory config le_rfl
    (shared.pathqueue (shared.pathqueuelength - 1)).arrays worker.arrays
    worker.arrays.stored
    (shared.pathqueue (shared.pathqueuelength - 1)).startlevel
    (shared.pathqueue (shared.pathqueuelength - 1)).valuetofind
  refine Eq.trans ?_ (congrArg (_ + ·) hcopied.symm)
  simp only [sharedPaths, hlength, Finset.sum_range_succ, Nat.add_sub_cancel,
    pathsOf]
  abel

end

/-! ## One step -/

/-- The permits a worker has taken for paths it has not popped yet. -/
def permitsHeld (worker : Worker) : ℕ :=
  match worker.phase with
  | .acquired => 1
  | _ => 0

section

variable {config : Config}

structure Keeps (config : Config) (shared : Shared) (worker : Worker)
    (result : Shared × Worker) : Prop where
  stacked : WellStacked config result.2.phase.frames
  paths : sharedPaths config result.1 + workerPaths config result.2 =
    sharedPaths config shared + workerPaths config worker
  permits : result.1.pathqueueSemaphore + permitsHeld result.2 +
      shared.pathqueuelength =
    shared.pathqueueSemaphore + permitsHeld worker + result.1.pathqueuelength

variable {shared : Shared} {worker : Worker}

theorem startScan_keeps (hphase : worker.phase = .acquired)
    (hqueued : 0 < shared.pathqueuelength) :
    Keeps config shared worker (startScan config shared worker) := by
  obtain ⟨hlength, hsemaphore, hpopped, hshared⟩ :=
    popPath_spec config hqueued worker
  obtain ⟨hstored, -, hcall, hpaths⟩ := callRscan_spec config
    (popPath config shared worker).2.arrays
    (popPath config shared worker).2.valuetofind
    (popPath config shared worker).2.startlevel
  unfold startScan
  constructor
  · have hstack := hcall.wellStacked ⟨List.Pairwise.nil, by simp⟩ (by simp)
    rw [append_nil] at hstack
    exact hstack
  · simp only [workerPaths, Phase.frames, hphase, hstored, hpopped, hpaths,
      hshared, stackPaths_nil]
    abel
  · simp only [permitsHeld, hphase]
    omega

theorem chooseBranch_keeps {frame next : Frame} {below : List Frame}
    {address : UInt64} (hphase : worker.phase = .scanning (frame :: below))
    (hstack : WellStacked config (frame :: below))
    (hbranch : branchPoint config frame = some (address, next))
    {action : Action} {result : Shared × Worker}
    (hstep : chooseBranch config shared worker address next below action =
      some result) :
    Keeps config shared worker result := by
  obtain ⟨hlevel, hroom, hpaths⟩ :=
    framePaths_branchPoint hbranch worker.arrays
  have hnext : WellStacked config (next :: below) := by
    constructor
    · apply pairwise_cons.mpr
      rw [hlevel]
      exact pairwise_cons.mp hstack.increasing
    · intro other hother
      rcases mem_cons.mp hother with rfl | hbelow
      · rw [hlevel]
        exact hstack.bounded frame (by simp)
      · exact hstack.bounded other (mem_cons_of_mem _ hbelow)
  cases action with
  | acquire => cases hstep
  | pop => cases hstep
  | advance => cases hstep
  | recurse =>
    obtain ⟨hstored, hsame, hcall, hcalled⟩ := callRscan_spec config
      worker.arrays address (next.level + 1)
    simp only [chooseBranch] at hstep
    generalize callRscan config worker.arrays address (next.level + 1) =
      called at hstep hstored hsame hcall hcalled
    obtain ⟨arrays, frames⟩ := called
    cases hstep
    dsimp only at hstored hsame hcall hcalled
    have hbelow : ∀ other ∈ next :: below,
        other.level < next.level + 1 := by
      intro other hother
      rcases mem_cons.mp hother with rfl | hlow
      · exact Nat.lt_succ_self _
      · exact (hnext.lower other hlow).trans (Nat.lt_succ_self _)
    have hkept := stackPaths_congr config hbelow hsame
    constructor
    · exact hcall.wellStacked hnext hbelow
    · rw [← hlevel] at hpaths
      simp only [workerPaths, Phase.frames, hphase, stackPaths_append,
        hcalled, hkept, hstored]
      simp only [stackPaths_cons, hpaths]
      abel
    · simp only [permitsHeld, hphase]
  | push =>
    simp only [chooseBranch] at hstep
    split at hstep
    case isFalse => cases hstep
    case isTrue =>
      cases hstep
      constructor
      · exact hnext
      · simp only [sharedPaths_pushPath, pathsOf_queuedBranch, workerPaths,
          Phase.frames, hphase, stackPaths_cons, hpaths, hlevel]
        abel
      · simp only [permitsHeld, hphase, pushPath]
        omega
  | spill =>
    cases hstep
    constructor
    · exact hnext
    · simp only [sharedPaths, map_append, sum_append,
        map_singleton, sum_singleton, workerPaths, Phase.frames,
        hphase, stackPaths_cons, hpaths, hlevel, pathsOf]
      have hspilled : branchOf config
          (QueuedPath.arrays
            { tempresults := worker.arrays.tempresults
              valuelist := worker.arrays.valuelist
              valuetofind := address
              startlevel := frame.level + 1 })
          (frame.level + 1) address =
            branchOf config worker.arrays (frame.level + 1) address := rfl
      rw [hspilled]
      abel
    · simp only [permitsHeld, hphase]

theorem workerStep_keeps (hstack : WellStacked config worker.phase.frames)
    (hqueued : worker.phase = .acquired → 0 < shared.pathqueuelength)
    {action : Action} {result : Shared × Worker}
    (hstep : workerStep config shared worker action = some result) :
    Keeps config shared worker result := by
  unfold workerStep at hstep
  split at hstep
  case h_1 hphase =>
    split at hstep
    case isFalse => cases hstep
    case isTrue hacquire =>
      cases hstep
      constructor
      · exact ⟨List.Pairwise.nil, by simp [Phase.frames]⟩
      · simp only [workerPaths, Phase.frames, hphase, sharedPaths]
      · simp only [permitsHeld, hphase]
        omega
  case h_2 hphase =>
    split at hstep
    case isFalse => cases hstep
    case isTrue =>
      cases hstep
      exact startScan_keeps hphase (hqueued hphase)
  case h_3 hphase =>
    split at hstep
    case isFalse => cases hstep
    case isTrue =>
      cases hstep
      constructor
      · exact ⟨List.Pairwise.nil, by simp [Phase.frames]⟩
      · simp only [workerPaths, Phase.frames, hphase]
      · simp only [permitsHeld, hphase]
  case h_4 frame below hphase =>
    rw [hphase] at hstack
    change WellStacked config (frame :: below) at hstack
    split at hstep
    case h_1 address next hbranch =>
      exact chooseBranch_keeps hphase hstack hbranch hstep
    case h_2 hbranch =>
      split at hstep
      case isFalse => cases hstep
      case isTrue =>
        obtain ⟨hpaths, hsame, hcall⟩ := advanceFrame_spec hbranch
          (hstack.bounded frame (by simp)) worker.arrays
        generalize advanceFrame config worker.arrays frame = advanced
          at hstep hpaths hsame hcall
        obtain ⟨arrays, frames⟩ := advanced
        cases hstep
        dsimp only at hpaths hsame hcall
        have hkept := stackPaths_congr config hstack.lower hsame
        constructor
        · exact hcall.wellStacked hstack.below hstack.lower
        · simp only [workerPaths, Phase.frames, hphase, stackPaths_append,
            stackPaths_cons, hkept]
          rw [← add_assoc (arrays.stored : Multiset Path), hpaths, add_assoc]
        · simp only [permitsHeld, hphase]

end

/-! ## Whole scans -/

def scanPath (config : Config) (arrays : Arrays) (path : QueuedPath) :
    Arrays :=
  rscan config (config.maxlevel - path.startlevel)
    { arrays with
      tempresults :=
        copyMemory config.maxlevel path.tempresults arrays.tempresults
      valuelist :=
        if config.noLoop then
          copyMemory config.maxlevel path.valuelist arrays.valuelist
        else
          arrays.valuelist }
    path.valuetofind path.startlevel

def sequentialScan (config : Config) (arrays : Arrays)
    (paths : List QueuedPath) : Arrays :=
  paths.foldl (scanPath config) arrays

variable {state : Threads Tid Shared Worker} (config : Config)

theorem stored_scanPath (arrays : Arrays) (path : QueuedPath) :
    ((scanPath config arrays path).stored : Multiset Path) =
      arrays.stored + pathsOf config path := by
  rw [scanPath, (rscan_spec config _ rfl _ path.valuetofind).1]
  exact congrArg (_ + ·) (branchOf_copyMemory config le_rfl path.arrays arrays
    arrays.stored path.startlevel path.valuetofind)

theorem stored_sequentialScan (arrays : Arrays) (paths : List QueuedPath) :
    ((sequentialScan config arrays paths).stored : Multiset Path) =
      arrays.stored + (paths.map (pathsOf config)).sum := by
  induction paths generalizing arrays with
  | nil => simp [sequentialScan]
  | cons path rest ih =>
    have hrest := ih (scanPath config arrays path)
    rw [stored_scanPath, add_assoc] at hrest
    exact hrest

def queuedPaths (shared : Shared) : List QueuedPath :=
  (List.range shared.pathqueuelength).map shared.pathqueue ++
    shared.overflowqueue

theorem sum_queuedPaths (shared : Shared) :
    ((queuedPaths shared).map (pathsOf config)).sum =
      sharedPaths config shared := by
  rw [queuedPaths, map_append, sum_append, map_map, sharedPaths]
  congr 1

structure Starts (state : Threads Tid Shared Worker) : Prop where
  waiting : ∀ thread, (state.locals thread).phase = .waiting
  stored : ∀ thread, (state.locals thread).arrays.stored = []
  permits : state.shared.pathqueueSemaphore = state.shared.pathqueuelength

structure Completed (state : Threads Tid Shared Worker) : Prop where
  waiting : ∀ thread, (state.locals thread).phase = .waiting
  pathqueue : state.shared.pathqueuelength = 0
  overflowqueue : state.shared.overflowqueue = []

variable [Fintype Tid]

def storedPaths (state : Threads Tid Shared Worker) : Multiset Path :=
  state.total fun worker => (worker.arrays.stored : Multiset Path)

structure Balanced (config : Config) (paths : Multiset Path)
    (state : Threads Tid Shared Worker) : Prop where
  stacked : ∀ thread,
    WellStacked config (state.locals thread).phase.frames
  permits : state.shared.pathqueueSemaphore + state.total permitsHeld =
    state.shared.pathqueuelength
  paths : sharedPaths config state.shared + state.total (workerPaths config) =
    paths

theorem total_workerPaths_of_waiting {config : Config}
    (hwaiting : ∀ thread, (state.locals thread).phase = .waiting) :
    state.total (workerPaths config) = storedPaths state := by
  apply Finset.sum_congr rfl
  intro thread _
  simp [workerPaths, hwaiting thread, Phase.frames]

theorem Starts.balanced (hstart : Starts state) :
    Balanced config (sharedPaths config state.shared) state where
  stacked := by
    intro thread
    rw [hstart.waiting thread]
    exact ⟨List.Pairwise.nil, by simp [Phase.frames]⟩
  permits := by
    have hnone : state.total permitsHeld = 0 := by
      apply Finset.sum_eq_zero
      intro thread _
      simp [permitsHeld, hstart.waiting thread]
    rw [hnone, add_zero, hstart.permits]
  paths := by
    have hnone : storedPaths state = 0 := by
      apply Finset.sum_eq_zero
      intro thread _
      simp [hstart.stored thread]
    rw [total_workerPaths_of_waiting hstart.waiting, hnone, add_zero]

theorem Balanced.queued {config : Config} {paths : Multiset Path}
    (hbalanced : Balanced config paths state) {thread : Tid}
    (hphase : (state.locals thread).phase = .acquired) :
    0 < state.shared.pathqueuelength := by
  have hone : permitsHeld (state.locals thread) = 1 := by
    simp [permitsHeld, hphase]
  have hle : permitsHeld (state.locals thread) ≤ state.total permitsHeld :=
    Finset.single_le_sum (f := fun other => permitsHeld (state.locals other))
      (fun _ _ => Nat.zero_le _) (Finset.mem_univ thread)
  have hpermits := hbalanced.permits
  omega

theorem eatFromOverflowQueueIfNeeded_spec (config : Config)
    (shared : Shared) :
    sharedPaths config (eatFromOverflowQueueIfNeeded config shared) =
        sharedPaths config shared ∧
      (eatFromOverflowQueueIfNeeded config shared).pathqueueSemaphore +
          shared.pathqueuelength =
        shared.pathqueueSemaphore +
          (eatFromOverflowQueueIfNeeded config shared).pathqueuelength := by
  unfold eatFromOverflowQueueIfNeeded
  split
  · exact ⟨rfl, rfl⟩
  · split
    · exact eatPaths_spec _ _
    · exact ⟨rfl, rfl⟩

theorem scanStep_balanced [DecidableEq Tid] {config : Config} {paths : Multiset Path}
    {before after : Threads Tid Shared Worker} {label : Label Tid}
    (hbalanced : Balanced config paths before)
    (hstep : scanStep config before label = some after) :
    Balanced config paths after := by
  cases label with
  | eat =>
    cases hstep
    obtain ⟨hpaths, hpermits⟩ :=
      eatFromOverflowQueueIfNeeded_spec config before.shared
    refine ⟨hbalanced.stacked, ?_, ?_⟩
    · have hbefore := hbalanced.permits
      simp only [Threads.total] at hbefore ⊢
      omega
    · rw [← hbalanced.paths, ← hpaths]
      rfl
  | worker thread action =>
    rw [scanStep] at hstep
    obtain ⟨result, hworker, hlocals⟩ := Threads.step_cases hstep
    have hkeeps := workerStep_keeps (hbalanced.stacked thread)
      hbalanced.queued hworker
    have hpermits := Threads.total_update permitsHeld hlocals
    have hpaths := Threads.total_update (workerPaths config) hlocals
    refine ⟨?_, ?_, ?_⟩
    · intro other
      rw [hlocals]
      by_cases heq : other = thread
      · subst other
        rw [Function.update_self]
        exact hkeeps.stacked
      · rw [Function.update_of_ne heq]
        exact hbalanced.stacked other
    · have hbefore := hbalanced.permits
      have hmoved := hkeeps.permits
      dsimp only at hmoved hpermits
      omega
    · have hmoved := hkeeps.paths
      apply add_right_cancel (b := workerPaths config (before.locals thread))
      rw [add_assoc, hpaths, ← hbalanced.paths, add_right_comm, ← hmoved]
      abel

theorem stored_eq_sequentialScan [DecidableEq Tid] {config : Config}
    {start final : Threads Tid Shared Worker} (hstart : Starts start)
    (hrun : Reaches (scanStep config) (fun _ _ => True) start final)
    (hdone : Completed final) (tempresults : ℕ → UInt32)
    (valuelist : ℕ → UInt64) :
    storedPaths final =
      ((sequentialScan config { tempresults, valuelist, stored := [] }
        (queuedPaths start.shared)).stored : Multiset Path) := by
  have hfinal : Balanced config (sharedPaths config start.shared) final :=
    hrun.invariant
      (fun _ _ _ hbalanced _ hstep => scanStep_balanced hbalanced hstep)
      (hstart.balanced config)
  have hempty : sharedPaths config final.shared = 0 := by
    simp [sharedPaths, hdone.pathqueue, hdone.overflowqueue]
  calc
    storedPaths final =
        sharedPaths config final.shared + final.total (workerPaths config) := by
          rw [hempty, zero_add, total_workerPaths_of_waiting hdone.waiting]
    _ = sharedPaths config start.shared := hfinal.paths
    _ = _ := by
          rw [stored_sequentialScan, sum_queuedPaths]
          simp

/-! ## Scans that go on -/

theorem eatPaths_pathqueuelength (config : Config) (paths : ℕ)
    (shared : Shared) :
    shared.pathqueuelength + min paths shared.overflowqueue.length ≤
      (eatPaths config paths shared).pathqueuelength := by
  induction paths generalizing shared with
  | zero => simp [eatPaths]
  | succ paths ih =>
    rw [eatPaths]
    cases hlast : shared.overflowqueue.getLast? with
    | none => simp [getLast?_eq_none_iff.mp hlast]
    | some path =>
      refine le_trans ?_ (ih { pushPath shared _ with
        overflowqueue := shared.overflowqueue.dropLast })
      simp only [pushPath, length_dropLast]
      omega

theorem workerStep_isSome (config : Config) (shared : Shared) {worker : Worker}
    (hphase : worker.phase ≠ .waiting) :
    ∃ action, (workerStep config shared worker action).isSome = true := by
  unfold workerStep
  split
  case h_1 hwaiting => exact absurd hwaiting hphase
  case h_2 => exact ⟨.pop, rfl⟩
  case h_3 => exact ⟨.advance, rfl⟩
  case h_4 =>
    split
    · exact ⟨.recurse, rfl⟩
    · exact ⟨.advance, rfl⟩

/-- Until the scan is completed a worker can go on, at the latest after the
controller has moved paths to the path queue. -/
theorem goes_on_until_completed [DecidableEq Tid] [Nonempty Tid]
    {config : Config} {start final : Threads Tid Shared Worker}
    (hstart : Starts start)
    (hrun : Reaches (scanStep config) (fun _ _ => True) start final)
    (hleft : ¬ Completed final) :
    ∃ thread action,
      (scanStep config final (.worker thread action)).isSome = true ∨
        ∃ eaten, scanStep config final .eat = some eaten ∧
          (scanStep config eaten (.worker thread action)).isSome = true := by
  by_cases hwaiting : ∀ thread, (final.locals thread).phase = .waiting
  case neg =>
    obtain ⟨thread, hphase⟩ := not_forall.mp hwaiting
    obtain ⟨action, haction⟩ :=
      workerStep_isSome config final.shared hphase
    refine ⟨thread, action, Or.inl ?_⟩
    rwa [scanStep, Threads.step, Option.isSome_map]
  case pos =>
    have hpermits := (hrun.invariant
      (fun _ _ _ hbalanced _ hstep => scanStep_balanced hbalanced hstep)
      (hstart.balanced config)).permits
    have hnone : final.total permitsHeld = 0 :=
      Finset.sum_eq_zero fun thread _ => by
        simp [permitsHeld, hwaiting thread]
    have hacquires : ∀ shared : Shared, 0 < shared.pathqueueSemaphore →
        (scanStep config { final with shared }
          (.worker (Classical.arbitrary Tid) .acquire)).isSome = true := by
      intro shared hpermit
      simp [scanStep, Threads.step, workerStep, hwaiting, hpermit]
    refine ⟨Classical.arbitrary Tid, .acquire, ?_⟩
    by_cases hqueued : final.shared.pathqueuelength = 0
    · have hlength := length_pos_iff.mpr fun hempty =>
        hleft ⟨hwaiting, hqueued, hempty⟩
      refine Or.inr ⟨_, rfl, hacquires _ ?_⟩
      generalize hcount : min final.shared.overflowqueue.length
        (MAXQUEUESIZE - final.shared.pathqueuelength) = count
      have hmoved := eatPaths_pathqueuelength config count final.shared
      have heaten := (@eatPaths_spec config count final.shared).2
      rw [eatFromOverflowQueueIfNeeded, if_neg (by rw [MAXQUEUESIZE]; omega),
        if_pos ⟨hlength, by rw [hqueued]; decide⟩, hcount]
      rw [hqueued, MAXQUEUESIZE] at hcount
      omega
    · exact Or.inl (hacquires final.shared (by omega))

/-! A scan of two workers for $10: the value $10 is held at $20, and $20 at the
static address $30. -/

def twoPointers : Handler where
  maxlevel := 7
  level0list :=
    findoraddpointervalue 0x20 (fun plist =>
        { plist with
          list := [{ address := 0x30
                     staticdata := some { moduleindex := 0
                                          offset := 0x30 } }] })
      (findoraddpointervalue 0x10 (fun plist =>
        { plist with list := [{ address := 0x20, staticdata := none }] }) .nil)
  count := 2
  modulelist := [{ name := [77], base := 0 }]
  specificBaseAsStaticOnly := false
  basestart := 0
  basestop := 0

def exactScan : Config where
  pointerlisthandler := twoPointers
  maxlevel := 2
  structsize := 0
  mustEndWithSpecificOffset := false
  mustendwithoffsetlist := []
  useHeapData := false
  useOnlyHeapData := false
  heapBase := fun _ => none
  onlyOneStaticInPath := false
  staticonly := true
  noLoop := true
  limitToMaxOffsetsPerNode := false
  maxOffsetsPerNode := 0

def firstPath : QueuedPath where
  tempresults := fun _ => 0
  valuelist := fun _ => 0
  valuetofind := 0x10
  startlevel := 0

def twoWorkers : Threads (Fin 2) Shared Worker where
  shared :=
    { pathqueue := fun _ => firstPath
      pathqueuelength := 1
      pathqueueSemaphore := 1
      overflowqueue := [] }
  locals := fun _ =>
    { arrays := { tempresults := fun _ => 0
                  valuelist := fun _ => 0
                  stored := [] }
      valuetofind := 0
      startlevel := 0
      phase := .waiting }

local instance neZero : NeZero 2 := ⟨two_ne_zero⟩

/-- The first worker queues the branch at $20 and the second one takes it. -/
def sharedSchedule : List (Label (Fin 2)) :=
  [.worker 0 .acquire, .worker 0 .pop, .worker 0 .push, .worker 1 .acquire,
    .worker 1 .pop, .worker 0 .advance, .eat, .worker 0 .advance,
    .worker 1 .advance, .worker 0 .advance, .worker 1 .advance,
    .worker 1 .advance]

def sharedScanEnd : Threads (Fin 2) Shared Worker :=
  (runLabels (scanStep exactScan) sharedSchedule twoWorkers).getD twoWorkers

theorem runLabels_sharedSchedule :
    runLabels (scanStep exactScan) sharedSchedule twoWorkers =
      some sharedScanEnd := by
  have hsome : (runLabels (scanStep exactScan) sharedSchedule
      twoWorkers).isSome = true := by
    decide
  obtain ⟨final, hfinal⟩ := Option.isSome_iff_exists.mp hsome
  rw [sharedScanEnd, hfinal]
  rfl

theorem sharedScanEnd_completed : Completed sharedScanEnd where
  waiting := by decide
  pathqueue := by decide
  overflowqueue := by
    apply length_eq_zero_iff.mp
    decide

theorem stored_eq_sequentialScan_twoWorkers :
    Starts twoWorkers ∧ Completed sharedScanEnd ∧
      (storedPaths sharedScanEnd).card = 1 ∧
        storedPaths sharedScanEnd =
          ((sequentialScan exactScan
            { tempresults := fun _ => 0, valuelist := fun _ => 0, stored := [] }
            (queuedPaths twoWorkers.shared)).stored : Multiset Path) := by
  have hstart : Starts twoWorkers :=
    ⟨fun _ => rfl, fun _ => rfl, rfl⟩
  have hrun : Reaches (scanStep exactScan) (fun _ _ => True) twoWorkers
      sharedScanEnd :=
    reaches_of_runLabels (fun _ _ _ => trivial) runLabels_sharedSchedule
  exact ⟨hstart, sharedScanEnd_completed, by decide,
    stored_eq_sequentialScan hstart hrun sharedScanEnd_completed
      (fun _ => 0) (fun _ => 0)⟩

theorem goes_on_until_completed_twoWorkers :
    ∃ thread action,
      (scanStep exactScan twoWorkers (.worker thread action)).isSome = true ∨
        ∃ eaten, scanStep exactScan twoWorkers .eat = some eaten ∧
          (scanStep exactScan eaten (.worker thread action)).isSome = true :=
  goes_on_until_completed ⟨fun _ => rfl, fun _ => rfl, rfl⟩ .refl
    fun hdone => Nat.one_ne_zero hdone.pathqueue

end Scheduling
end Pointerscan
end CheatEngine
