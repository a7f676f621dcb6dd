import CheatEngine.PointerscanResume
import CheatEngine.TransitionSystem

/-!
# The lengths of the path arrays

`tempresults` and `valuelist` are allocated with `maxlevel` entries for a
worker, with `maxlevel + 2` for the slots of the path queue, with
`maxlevel + 1` for paths that were read from a stream, and with what the
worker had for the paths in the overflow queue.  Here an array is its length,
and every step of a controller lists the entries that it reads and writes.
-/

namespace CheatEngine
namespace Pointerscan
namespace PathArrays

open List hiding count

/-- `count` entries of an array, from `first` on. -/
structure Access where
  length : ℕ
  first : ℤ
  count : ℕ
deriving DecidableEq, Repr

namespace Access

def InBounds (access : Access) : Prop :=
  access.count = 0 ∨
    0 ≤ access.first ∧ access.first + access.count ≤ access.length

instance (access : Access) : Decidable access.InBounds :=
  inferInstanceAs (Decidable (_ ∨ _))

def block (length count : ℕ) : Access :=
  { length, first := 0, count }

def loop (length : ℕ) (low high : ℤ) : Access :=
  { length, first := low, count := (high + 1 - low).toNat }

theorem inBounds_block {length count : ℕ} :
    (block length count).InBounds ↔ count ≤ length := by
  unfold InBounds block
  dsimp only
  omega

theorem inBounds_loop {length : ℕ} {low high : ℤ} :
    (loop length low high).InBounds ↔
      high < low ∨ 0 ≤ low ∧ high < length := by
  unfold InBounds loop
  dsimp only
  omega

end Access

open Access

/-- A `TPathQueueElement`: the lengths of its arrays, and its level.  Levels
start at 0 and only count up. -/
structure PathShape where
  tempresults : ℕ
  valuelist : ℕ
  startlevel : ℕ
deriving DecidableEq, Repr

/-- A worker thread.  `levels` are the calls of `rscan` that it is in, the
last one first; `startlevel` is a field that starts as 0. -/
structure Worker where
  tempresults : ℕ
  valuelist : ℕ
  temppathqueue : PathShape
  startlevel : ℕ
  levels : List ℕ
deriving DecidableEq, Repr

/-- `paths` are the elements that have been taken out to be sent, or that are
kept for a child that is not trusted. -/
structure Controller where
  pathqueue : List PathShape
  pathqueuelength : ℕ
  overflowqueue : List PathShape
  localscanners : List Worker
  paths : List PathShape
deriving DecidableEq, Repr

section

variable (settings : QueueSettings) (controller : Controller)

/-- Blocks of both arrays; that of the values only with `noLoop`. -/
def both (path : PathShape) (count : ℕ) : List Access :=
  block path.tempresults count ::
    if settings.noLoop then [block path.valuelist count] else []

def withLength (size : ℕ) (path : PathShape) : PathShape :=
  { path with
    tempresults := size
    valuelist := if settings.noLoop then size else path.valuelist }

/-- All entries up to `maxlevel + 1` are filled with `$ce`. -/
def initializeEmptyPathQueue : List Access × Controller :=
  let pathqueue :=
    controller.pathqueue.map (withLength settings (settings.maxlevel + 2))
  (pathqueue.flatMap fun slot => both settings slot (settings.maxlevel + 2),
    { controller with pathqueue, pathqueuelength := 0, overflowqueue := [] })

def addWorkerThread : Controller :=
  { controller with
    localscanners := controller.localscanners ++
      [{ tempresults := settings.maxlevel
         valuelist := if settings.noLoop then settings.maxlevel else 0
         temppathqueue := { tempresults := 0, valuelist := 0, startlevel := 0 }
         startlevel := 0
         levels := [] }] }

def seedPath : Option Controller :=
  controller.pathqueue[controller.pathqueuelength]?.map fun slot =>
    { controller with
      pathqueue := controller.pathqueue.set controller.pathqueuelength
        { slot with startlevel := 0 }
      pathqueuelength := controller.pathqueuelength + 1 }

def seedOverflow (count : ℕ) : Controller :=
  { controller with
    overflowqueue := controller.overflowqueue ++
      List.replicate count
        { tempresults := settings.maxlevel + 1
          valuelist := settings.maxlevel + 1
          startlevel := 0 } }

/-- The worker gets the semaphore.  It copies the last path of the queue, if
there is one, and calls `rscan`, which leaves at once at `maxlevel`. -/
def takeFromQueue (worker : Worker) : List Access × Worker × Controller :=
  let scanning (worker : Worker) (startlevel : ℕ) : Worker :=
    { worker with
      startlevel
      levels :=
        if startlevel < settings.maxlevel then [startlevel] else [] }
  let i := controller.pathqueuelength - 1
  match controller.pathqueue[i]? with
  | some slot =>
    if 0 < controller.pathqueuelength then
      (both settings slot settings.maxlevel ++
          (block worker.tempresults settings.maxlevel ::
            if settings.noLoop then
              [block worker.valuelist settings.maxlevel] else []),
        scanning worker slot.startlevel,
        { controller with pathqueuelength := i })
    else
      ([], scanning worker worker.startlevel, controller)
  | none => ([], scanning worker worker.startlevel, controller)

/-- The value is looked up in the list and added to it, and the offset is
stored. -/
def visitLevel (worker : Worker) (level : ℕ) : List Access :=
  (if settings.noLoop then
    [loop worker.valuelist 0 (level - 1), loop worker.valuelist level level]
  else
    []) ++ [loop worker.tempresults level level]

/-- A compressed path has the offsets from the given ones to the level, an
uncompressed one all offsets. -/
def storePath (worker : Worker) (level : ℕ) (compressedptr : Bool)
    (mustendwithoffsetlistlength : ℕ) : List Access :=
  if compressedptr then
    [loop worker.tempresults mustendwithoffsetlistlength level]
  else
    [block worker.tempresults settings.maxlevel]

def doRescan (worker : Worker) (level : ℕ) : List Access :=
  [loop worker.tempresults 0 level]

def queuePath (worker : Worker) (level : ℕ) :
    Option (List Access × Controller) :=
  if controller.pathqueuelength < MAXQUEUESIZE - 1 then
    controller.pathqueue[controller.pathqueuelength]?.map fun slot =>
      (both settings slot settings.maxlevel ++
          (block worker.tempresults settings.maxlevel ::
            if settings.noLoop then
              [block worker.valuelist settings.maxlevel] else []),
        { controller with
          pathqueue := controller.pathqueue.set controller.pathqueuelength
            { slot with startlevel := level + 1 }
          pathqueuelength := controller.pathqueuelength + 1 })
  else
    none

/-- The path for the overflow queue, in arrays that only grow.  The values
are copied with and without `noLoop`. -/
def fillTempPathQueue (worker : Worker) (level : ℕ) : PathShape :=
  { tempresults := max worker.temppathqueue.tempresults worker.tempresults
    valuelist := max worker.temppathqueue.valuelist worker.valuelist
    startlevel := level + 1 }

def overflowPath (worker : Worker) (level : ℕ) :
    List Access × Worker × Controller :=
  let path := fillTempPathQueue worker level
  ([block path.tempresults settings.maxlevel,
      block worker.tempresults settings.maxlevel,
      block path.valuelist settings.maxlevel,
      block worker.valuelist settings.maxlevel,
      block path.tempresults path.tempresults,
      block path.valuelist path.valuelist],
    { worker with temppathqueue := path },
    { controller with overflowqueue := controller.overflowqueue ++ [path] })

/-- Elements from the end of the overflow queue and the slots for them. -/
def eaten : List (PathShape × PathShape) :=
  if controller.pathqueuelength < MAXQUEUESIZE - 1 then
    let pathsToCopy := min controller.overflowqueue.length
      (MAXQUEUESIZE - controller.pathqueuelength)
    (controller.overflowqueue.reverse.take pathsToCopy).zip
      (controller.pathqueue.drop controller.pathqueuelength)
  else
    []

def eatFromOverflowQueueIfNeeded : List Access × Controller :=
  let pairs := eaten controller
  (pairs.flatMap fun pair =>
      both settings pair.2 (settings.maxlevel + 1) ++
        both settings pair.1 (settings.maxlevel + 1),
    { controller with
      pathqueue := controller.pathqueue.take controller.pathqueuelength ++
        (pairs.map fun pair =>
          { pair.2 with startlevel := pair.1.startlevel }) ++
        controller.pathqueue.drop (controller.pathqueuelength + pairs.length)
      pathqueuelength := controller.pathqueuelength + pairs.length
      overflowqueue := controller.overflowqueue.take
        (controller.overflowqueue.length - pairs.length) })

/-- The first path of the queue; the others move up, and the last slot gets
arrays of its own. -/
def takeVeryGoodPath : Option Controller :=
  match controller.pathqueue with
  | first :: rest =>
    if 0 < controller.pathqueuelength then
      let shifted := rest.take (controller.pathqueuelength - 1) ++
        controller.pathqueue.drop (controller.pathqueuelength - 1)
      some { controller with
        paths := controller.paths ++ [first]
        pathqueue := shifted.modify (controller.pathqueuelength - 1)
          (withLength settings (settings.maxlevel + 1))
        pathqueuelength := controller.pathqueuelength - 1 }
    else
      none
  | [] => none

def takeOverflow (count : ℕ) : Controller :=
  let kept := controller.overflowqueue.length - count
  { controller with
    paths := controller.paths ++ (controller.overflowqueue.drop kept).reverse
    overflowqueue := controller.overflowqueue.take kept }

def takeFromBack (i : ℕ) : Option Controller :=
  controller.pathqueue[i]?.map fun slot =>
    { controller with
      paths := controller.paths ++ [slot]
      pathqueue := controller.pathqueue.set i
        (withLength settings (settings.maxlevel + 1) slot)
      pathqueuelength := controller.pathqueuelength - 1 }

/-- `WritePathQueueElementToStream`: the accesses and the level. -/
def writePathQueueElementToStream (k : ℕ) : Option (List Access × ℕ) :=
  controller.paths[k]?.map fun path =>
    (both settings path (settings.maxlevel + 1), path.startlevel)

def appendDynamicPathQueueToOverflowQueue (paths : List PathShape) :
    Controller :=
  { controller with overflowqueue := controller.overflowqueue ++ paths }

/-- `LoadPathQueueElementFromStream` into an element without arrays. -/
def loadPathQueueElementFromStream (startlevel : ℕ) : PathShape :=
  withLength settings (settings.maxlevel + 1)
    { tempresults := 0, valuelist := 0, startlevel }

def loadPaths (startlevels : List ℕ) : List Access × Controller :=
  let paths := startlevels.map (loadPathQueueElementFromStream settings)
  (paths.flatMap fun path => both settings path (settings.maxlevel + 1),
    appendDynamicPathQueueToOverflowQueue controller paths)

def saveAndClearQueue : List Access × Controller × List ℕ :=
  if 0 < controller.pathqueuelength then
    let saved := controller.pathqueue.take controller.pathqueuelength ++
      controller.overflowqueue
    (saved.flatMap fun path => both settings path (settings.maxlevel + 1),
      { controller with pathqueuelength := 0, overflowqueue := [] },
      saved.map PathShape.startlevel)
  else
    ([], controller, [])

/-- The elements of the file, sorted by level; those at the end are moved to
the path queue, and written through their old place. -/
def setupQueueForResume (startlevels : List ℕ) :
    Option (List Access × Controller) :=
  if controller.pathqueuelength = 0 ∧ controller.overflowqueue = [] then
    let loaded := startlevels.map (loadPathQueueElementFromStream settings)
    let sorted := Resume.sortByLevel
      (fun path : PathShape => Int32.ofInt path.startlevel) loaded
    let moved := sorted.reverse.take MAXQUEUESIZE
    some
      ((loaded.flatMap fun path =>
          both settings path (settings.maxlevel + 1)) ++
          moved.map fun path => loop path.tempresults 0 0,
        { controller with
          pathqueue := moved ++ controller.pathqueue.drop moved.length
          pathqueuelength := moved.length
          overflowqueue := sorted.take (sorted.length - moved.length) })
  else
    none

/-- `getQueueStatistics_checkPath` for the elements of both queues. -/
def getQueueStatistics : List Access :=
  (controller.pathqueue.take controller.pathqueuelength ++
    controller.overflowqueue).flatMap fun path =>
      [block path.tempresults path.tempresults,
        loop path.tempresults 0 path.startlevel]

/-- The loops over the offsets of the workers go up to `maxlevel`; in the
first worker there is always one that gets there. -/
def getMinAndMaxPath : List Access :=
  controller.localscanners.map fun worker =>
    block worker.tempresults (settings.maxlevel + 1)

end

/-! ## Runs -/

/-- What one controller or one of its workers does next. -/
inductive Action
  | initializeEmptyPathQueue
  | addWorkerThread
  | removeWorkerThread
  | seedPath
  | seedOverflow (count : ℕ)
  | takeFromQueue (worker : ℕ)
  | visitLevel (worker : ℕ)
  | storePath (worker : ℕ) (compressedptr : Bool)
      (mustendwithoffsetlistlength : ℕ)
  | doRescan (worker : ℕ)
  | queuePath (worker : ℕ)
  | goDeeper (worker : ℕ)
  | goBack (worker : ℕ)
  | overflowPath (worker : ℕ)
  | eatFromOverflowQueueIfNeeded
  | takeVeryGoodPath
  | takeOverflow (count : ℕ)
  | takeFromBack (i : ℕ)
  | writePath (k : ℕ)
  | returnPaths
  | dropPaths
  | loadPaths (startlevels : List ℕ)
  | saveAndClearQueue
  | setupQueueForResume (startlevels : List ℕ)
  | getQueueStatistics
  | getMinAndMaxPath
deriving DecidableEq, Repr

/-- The accesses of a step, the controller after it, and the levels of the
elements that it has written to a stream or a file. -/
structure Effect where
  accesses : List Access
  controller : Controller
  written : List ℕ
deriving DecidableEq, Repr

def Controller.setWorker (controller : Controller) (w : ℕ) (worker : Worker) :
    Controller :=
  { controller with
    localscanners := controller.localscanners.set w worker }

/-- A worker in a call of `rscan`, and the level of the call. -/
def Controller.scanning (controller : Controller) (w : ℕ) :
    Option (Worker × ℕ) :=
  controller.localscanners[w]?.bind fun worker =>
    worker.levels.head?.map fun level => (worker, level)

def onlyAccesses (controller : Controller) (accesses : List Access) :
    Effect :=
  { accesses, controller, written := [] }

def onlyChanges (controller : Controller) : Effect :=
  { accesses := [], controller, written := [] }

def act (settings : QueueSettings) (streamed : List ℕ)
    (controller : Controller) : Action → Option Effect
  | .initializeEmptyPathQueue =>
    let (accesses, next) := initializeEmptyPathQueue settings controller
    some { accesses, controller := next, written := [] }
  | .addWorkerThread =>
    some (onlyChanges (addWorkerThread settings controller))
  | .removeWorkerThread =>
    some (onlyChanges { controller with
      localscanners := controller.localscanners.dropLast })
  | .seedPath => (seedPath controller).map onlyChanges
  | .seedOverflow count =>
    some (onlyChanges (seedOverflow settings controller count))
  | .takeFromQueue w =>
    controller.localscanners[w]?.bind fun worker =>
      if worker.levels = [] then
        let (accesses, worker, next) :=
          takeFromQueue settings controller worker
        some { accesses, controller := next.setWorker w worker,
               written := [] }
      else
        none
  | .visitLevel w =>
    (controller.scanning w).map fun (worker, level) =>
      onlyAccesses controller (visitLevel settings worker level)
  | .storePath w compressedptr mustendwithoffsetlistlength =>
    (controller.scanning w).map fun (worker, level) =>
      onlyAccesses controller (storePath settings worker level
        compressedptr mustendwithoffsetlistlength)
  | .doRescan w =>
    (controller.scanning w).map fun (worker, level) =>
      onlyAccesses controller (doRescan worker level)
  | .queuePath w =>
    (controller.scanning w).bind fun (worker, level) =>
      if level + 1 < settings.maxlevel then
        (queuePath settings controller worker level).map
          fun (accesses, next) =>
            { accesses, controller := next, written := [] }
      else
        none
  | .goDeeper w =>
    (controller.scanning w).bind fun (worker, level) =>
      if level + 1 < settings.maxlevel then
        some (onlyChanges (controller.setWorker w
          { worker with levels := (level + 1) :: worker.levels }))
      else
        none
  | .goBack w =>
    (controller.scanning w).map fun (worker, _) =>
      onlyChanges (controller.setWorker w
        { worker with levels := worker.levels.tail })
  | .overflowPath w =>
    (controller.scanning w).bind fun (worker, level) =>
      if level + 1 < settings.maxlevel then
        let (accesses, worker, next) :=
          overflowPath settings controller worker level
        some { accesses, controller := next.setWorker w worker,
               written := [] }
      else
        none
  | .eatFromOverflowQueueIfNeeded =>
    let (accesses, next) := eatFromOverflowQueueIfNeeded settings controller
    some { accesses, controller := next, written := [] }
  | .takeVeryGoodPath =>
    (takeVeryGoodPath settings controller).map onlyChanges
  | .takeOverflow count => some (onlyChanges (takeOverflow controller count))
  | .takeFromBack i => (takeFromBack settings controller i).map onlyChanges
  | .writePath k =>
    (writePathQueueElementToStream settings controller k).map
      fun (accesses, startlevel) =>
        { accesses, controller, written := [startlevel] }
  | .returnPaths =>
    some (onlyChanges { appendDynamicPathQueueToOverflowQueue controller
      controller.paths with paths := [] })
  | .dropPaths => some (onlyChanges { controller with paths := [] })
  | .loadPaths startlevels =>
    if startlevels.all fun startlevel => startlevel ∈ streamed then
      let (accesses, next) := loadPaths settings controller startlevels
      some { accesses, controller := next, written := [] }
    else
      none
  | .saveAndClearQueue =>
    let (accesses, next, written) := saveAndClearQueue settings controller
    some { accesses, controller := next, written }
  | .setupQueueForResume startlevels =>
    if startlevels.all fun startlevel => startlevel ∈ streamed then
      (setupQueueForResume settings controller startlevels).map
        fun (accesses, next) =>
          { accesses, controller := next, written := [] }
    else
      none
  | .getQueueStatistics =>
    some (onlyAccesses controller (getQueueStatistics controller))
  | .getMinAndMaxPath =>
    some (onlyAccesses controller (getMinAndMaxPath settings controller))

/-- The controllers that take part in a scan, and the levels of all elements
that were ever written to a stream or a resume file. -/
structure System (Id : Type) where
  controllers : Id → Controller
  streamed : List ℕ

variable {Id : Type} [DecidableEq Id]

def System.effect (settings : QueueSettings) (system : System Id)
    (label : Id × Action) : Option Effect :=
  act settings system.streamed (system.controllers label.1) label.2

def System.step (settings : QueueSettings) (system : System Id)
    (label : Id × Action) : Option (System Id) :=
  (system.effect settings label).map fun effect =>
    { controllers :=
        Function.update system.controllers label.1 effect.controller
      streamed := system.streamed ++ effect.written }

def StepInBounds (settings : QueueSettings) (system : System Id)
    (label : Id × Action) : Prop :=
  ∀ effect ∈ system.effect settings label,
    ∀ access ∈ effect.accesses, access.InBounds

def RunInBounds (settings : QueueSettings) :
    List (Id × Action) → System Id → Prop
  | [], _ => True
  | label :: rest, system =>
    StepInBounds settings system label ∧
      ∀ next ∈ system.step settings label, RunInBounds settings rest next

section

variable (settings : QueueSettings)

def Enough (path : PathShape) : Prop :=
  settings.maxlevel + 1 ≤ path.tempresults ∧
    (settings.noLoop = true → settings.maxlevel + 1 ≤ path.valuelist)

def Permitted (controller : Controller) : Action → Prop
  | .overflowPath _ => settings.noLoop = true ∨ settings.maxlevel = 0
  | .eatFromOverflowQueueIfNeeded =>
    ∀ pair ∈ eaten controller, Enough settings pair.1
  | .writePath k => ∀ path ∈ controller.paths[k]?, Enough settings path
  | .saveAndClearQueue =>
    0 < controller.pathqueuelength →
      ∀ path ∈ controller.overflowqueue, Enough settings path
  | .getMinAndMaxPath => controller.localscanners = []
  | _ => True

structure PathSound (path : PathShape) : Prop where
  startlevel_le : path.startlevel ≤ settings.maxlevel
  startlevel_lt : path.startlevel < path.tempresults

structure WorkerSound (worker : Worker) : Prop where
  tempresults_eq : worker.tempresults = settings.maxlevel
  valuelist_eq : worker.valuelist =
    if settings.noLoop then settings.maxlevel else 0
  levels_lt : ∀ level ∈ worker.levels, level < settings.maxlevel

structure Sound (controller : Controller) : Prop where
  slots : ∀ slot ∈ controller.pathqueue,
    Enough settings slot ∧ slot.startlevel ≤ settings.maxlevel
  overflow : ∀ path ∈ controller.overflowqueue, PathSound settings path
  paths : ∀ path ∈ controller.paths, PathSound settings path
  workers : ∀ worker ∈ controller.localscanners, WorkerSound settings worker

variable {settings}

variable {path : PathShape} {w : ℕ} {worker : Worker} {level : ℕ}
  {next : Controller} {accesses : List Access} {startlevels : List ℕ}
  {action : Action}

theorem Enough.pathSound (henough : Enough settings path)
    (hlevel : path.startlevel ≤ settings.maxlevel) :
    PathSound settings path := by
  have hlength := henough.1
  exact ⟨hlevel, by omega⟩

theorem inBounds_both {count : ℕ} :
    (∀ access ∈ both settings path count, access.InBounds) ↔
      count ≤ path.tempresults ∧
        (settings.noLoop = true → count ≤ path.valuelist) := by
  unfold both
  rw [forall_mem_cons, inBounds_block]
  apply and_congr_right
  intro _
  by_cases hnoLoop : settings.noLoop = true
  · rw [if_pos hnoLoop]
    simp only [mem_singleton, forall_eq, inBounds_block, hnoLoop, true_imp_iff]
  · rw [if_neg hnoLoop]
    simp [hnoLoop]

theorem inBounds_both_succ :
    (∀ access ∈ both settings path (settings.maxlevel + 1),
      access.InBounds) ↔ Enough settings path :=
  inBounds_both

theorem enough_withLength {size : ℕ} (path : PathShape)
    (hsize : settings.maxlevel + 1 ≤ size) :
    Enough settings (withLength settings size path) := by
  refine ⟨hsize, fun hnoLoop => ?_⟩
  rw [withLength, if_pos hnoLoop]
  exact hsize

theorem forall_mem_flatMap {α β : Type*} {list : List α} {f : α → List β}
    {property : β → Prop} :
    (∀ b ∈ list.flatMap f, property b) ↔
      ∀ a ∈ list, ∀ b ∈ f a, property b := by
  simp only [mem_flatMap, forall_exists_index, and_imp]
  exact forall_comm.trans (forall_congr' fun _ => forall_comm)

theorem Controller.scanning_mem {controller : Controller}
    (hscanning : controller.scanning w = some (worker, level)) :
    worker ∈ controller.localscanners ∧ level ∈ worker.levels := by
  obtain ⟨found, hfound, hlevel⟩ := Option.bind_eq_some_iff.mp hscanning
  obtain ⟨head, hhead, heq⟩ := Option.map_eq_some_iff.mp hlevel
  cases heq
  exact ⟨mem_of_getElem? hfound, mem_of_head? hhead⟩

theorem Sound.setWorker {controller : Controller}
    (hsound : Sound settings controller)
    (hworker : WorkerSound settings worker) :
    Sound settings (controller.setWorker w worker) := by
  refine ⟨hsound.slots, hsound.overflow, hsound.paths, ?_⟩
  intro other hother
  rcases mem_or_eq_of_mem_set hother with hmem | rfl
  · exact hsound.workers other hmem
  · exact hworker

theorem initializeEmptyPathQueue_spec {controller : Controller}
    (hsound : Sound settings controller) :
    (∀ access ∈ (initializeEmptyPathQueue settings controller).1,
        access.InBounds) ∧
      Sound settings (initializeEmptyPathQueue settings controller).2 := by
  constructor
  · rw [initializeEmptyPathQueue, forall_mem_flatMap]
    intro slot hslot
    obtain ⟨before, -, rfl⟩ := mem_map.mp hslot
    refine inBounds_both.mpr ⟨le_rfl, fun hnoLoop => ?_⟩
    rw [withLength, if_pos hnoLoop]
  · refine ⟨?_, (fun _ hpath => nomatch hpath), hsound.paths, hsound.workers⟩
    intro slot hslot
    obtain ⟨before, hbefore, rfl⟩ := mem_map.mp hslot
    exact ⟨enough_withLength before (by omega),
      (hsound.slots before hbefore).2⟩

theorem addWorkerThread_sound {controller : Controller}
    (hsound : Sound settings controller) :
    Sound settings (addWorkerThread settings controller) := by
  refine ⟨hsound.slots, hsound.overflow, hsound.paths, ?_⟩
  intro worker hworker
  rcases mem_append.mp hworker with hmem | hnew
  · exact hsound.workers worker hmem
  · rw [mem_singleton.mp hnew]
    exact ⟨rfl, rfl, fun _ hlevel => nomatch hlevel⟩

theorem Sound.setSlot {controller : Controller}
    (hsound : Sound settings controller) {i : ℕ} {slot : PathShape}
    (hslot : Enough settings slot ∧ slot.startlevel ≤ settings.maxlevel)
    (pathqueuelength : ℕ) :
    Sound settings { controller with
      pathqueue := controller.pathqueue.set i slot
      pathqueuelength } := by
  refine ⟨?_, hsound.overflow, hsound.paths, hsound.workers⟩
  intro other hother
  rcases mem_or_eq_of_mem_set hother with hmem | rfl
  · exact hsound.slots other hmem
  · exact hslot

theorem seedPath_sound {controller : Controller}
    (hsound : Sound settings controller)
    (hnext : seedPath controller = some next) :
    Sound settings next := by
  obtain ⟨slot, hslot, rfl⟩ := Option.map_eq_some_iff.mp hnext
  have hseed : Enough settings { slot with startlevel := 0 } ∧
      0 ≤ settings.maxlevel :=
    ⟨(hsound.slots slot (mem_of_getElem? hslot)).1, Nat.zero_le _⟩
  exact hsound.setSlot hseed _

theorem seedOverflow_sound {controller : Controller}
    (hsound : Sound settings controller) (count : ℕ) :
    Sound settings (seedOverflow settings controller count) := by
  refine ⟨hsound.slots, ?_, hsound.paths, hsound.workers⟩
  intro path hpath
  rcases mem_append.mp hpath with hmem | hnew
  · exact hsound.overflow path hmem
  · rw [eq_of_mem_replicate hnew]
    exact Enough.pathSound ⟨le_rfl, fun _ => le_rfl⟩ (Nat.zero_le _)

theorem inBounds_worker (hworker : WorkerSound settings worker) :
    ∀ access ∈ block worker.tempresults settings.maxlevel ::
        (if settings.noLoop then
          [block worker.valuelist settings.maxlevel] else []),
      access.InBounds := by
  rw [forall_mem_cons, inBounds_block, hworker.tempresults_eq]
  refine ⟨le_rfl, ?_⟩
  intro access haccess
  split at haccess
  · rename_i hnoLoop
    rw [mem_singleton.mp haccess, inBounds_block, hworker.valuelist_eq,
      if_pos hnoLoop]
  · cases haccess

theorem inBounds_slot {controller : Controller}
    (hsound : Sound settings controller) {slot : PathShape}
    (hslot : slot ∈ controller.pathqueue) :
    ∀ access ∈ both settings slot settings.maxlevel, access.InBounds := by
  have henough := (hsound.slots slot hslot).1
  refine inBounds_both.mpr ⟨(Nat.le_succ _).trans henough.1, fun hnoLoop =>
    (Nat.le_succ _).trans (henough.2 hnoLoop)⟩

theorem takeFromQueue_spec {controller : Controller}
    (hsound : Sound settings controller)
    (hworker : WorkerSound settings worker) :
    (∀ access ∈ (takeFromQueue settings controller worker).1,
        access.InBounds) ∧
      WorkerSound settings (takeFromQueue settings controller worker).2.1 ∧
      Sound settings (takeFromQueue settings controller worker).2.2 := by
  have hscanning : ∀ startlevel : ℕ, WorkerSound settings
      { worker with
        startlevel
        levels :=
          if startlevel < settings.maxlevel then [startlevel] else [] } := by
    intro startlevel
    refine ⟨hworker.tempresults_eq, hworker.valuelist_eq, ?_⟩
    intro level hlevel
    dsimp only at hlevel
    split at hlevel
    · rename_i hless
      rw [mem_singleton.mp hlevel]
      exact hless
    · cases hlevel
  have hnothing : ∀ access ∈ ([] : List Access), access.InBounds :=
    fun _ haccess => nomatch haccess
  unfold takeFromQueue
  dsimp only
  split
  · rename_i slot hslot
    split
    · refine ⟨?_, hscanning _, hsound.slots, hsound.overflow, hsound.paths,
        hsound.workers⟩
      rw [forall_mem_append]
      exact ⟨inBounds_slot hsound (mem_of_getElem? hslot),
        inBounds_worker hworker⟩
    · exact ⟨hnothing, hscanning _, hsound⟩
  · exact ⟨hnothing, hscanning _, hsound⟩

section

variable (hworker : WorkerSound settings worker)
  (hlevel : level < settings.maxlevel)

include hworker hlevel

theorem visitLevel_inBounds :
    ∀ access ∈ visitLevel settings worker level, access.InBounds := by
  have htemp := hworker.tempresults_eq
  have hvalues := hworker.valuelist_eq
  unfold visitLevel
  split
  · rename_i hnoLoop
    rw [if_pos hnoLoop] at hvalues
    simp only [cons_append, nil_append, forall_mem_cons, inBounds_loop, htemp,
      hvalues, not_mem_nil, false_imp_iff, implies_true, and_true]
    omega
  · simp only [nil_append, mem_singleton, forall_eq, inBounds_loop, htemp]
    omega

theorem storePath_inBounds (compressedptr : Bool)
    (mustendwithoffsetlistlength : ℕ) :
    ∀ access ∈ storePath settings worker level compressedptr
      mustendwithoffsetlistlength, access.InBounds := by
  have htemp := hworker.tempresults_eq
  unfold storePath
  split
  · rw [forall_mem_singleton, inBounds_loop, htemp]
    omega
  · rw [forall_mem_singleton, inBounds_block, htemp]

theorem doRescan_inBounds :
    ∀ access ∈ doRescan worker level, access.InBounds := by
  have htemp := hworker.tempresults_eq
  unfold doRescan
  rw [forall_mem_singleton, inBounds_loop, htemp]
  omega

end

theorem queuePath_spec {controller : Controller}
    (hsound : Sound settings controller)
    (hworker : WorkerSound settings worker)
    (hlevel : level + 1 < settings.maxlevel)
    (hnext : queuePath settings controller worker level =
      some (accesses, next)) :
    (∀ access ∈ accesses, access.InBounds) ∧ Sound settings next := by
  unfold queuePath at hnext
  split at hnext
  · obtain ⟨slot, hslot, heq⟩ := Option.map_eq_some_iff.mp hnext
    obtain ⟨rfl, rfl⟩ := Prod.mk.inj heq
    have hmem := mem_of_getElem? hslot
    constructor
    · rw [forall_mem_append]
      exact ⟨inBounds_slot hsound hmem, inBounds_worker hworker⟩
    · have hqueued : Enough settings { slot with startlevel := level + 1 } ∧
          level + 1 ≤ settings.maxlevel :=
        ⟨(hsound.slots slot hmem).1, hlevel.le⟩
      exact hsound.setSlot hqueued _
  · cases hnext

theorem overflowPath_inBounds_iff {controller : Controller} {worker : Worker}
    {level : ℕ} (hworker : WorkerSound settings worker) :
    (∀ access ∈ (overflowPath settings controller worker level).1,
        access.InBounds) ↔
      settings.noLoop = true ∨ settings.maxlevel = 0 := by
  have htemp := hworker.tempresults_eq
  have hvalues := hworker.valuelist_eq
  unfold overflowPath fillTempPathQueue
  simp only [forall_mem_cons, inBounds_block, htemp, not_mem_nil,
    false_imp_iff, implies_true, and_true, le_refl, le_max_right, true_and]
  by_cases hnoLoop : settings.noLoop = true
  · rw [if_pos hnoLoop] at hvalues
    exact iff_of_true ⟨hvalues ▸ le_max_right _ _, hvalues.ge⟩ (.inl hnoLoop)
  · rw [if_neg hnoLoop] at hvalues
    rw [hvalues, or_iff_right hnoLoop]
    omega

theorem overflowPath_sound {controller : Controller}
    (hsound : Sound settings controller)
    (hworker : WorkerSound settings worker)
    (hlevel : level + 1 < settings.maxlevel) :
    WorkerSound settings (overflowPath settings controller worker level).2.1 ∧
      Sound settings (overflowPath settings controller worker level).2.2 := by
  refine ⟨⟨hworker.tempresults_eq, hworker.valuelist_eq,
    hworker.levels_lt⟩, hsound.slots, ?_, hsound.paths, hsound.workers⟩
  intro path hpath
  rcases mem_append.mp hpath with hmem | hnew
  · exact hsound.overflow path hmem
  · rw [mem_singleton.mp hnew]
    have hmax := le_max_right worker.temppathqueue.tempresults
      worker.tempresults
    rw [hworker.tempresults_eq] at hmax
    refine ⟨hlevel.le, ?_⟩
    unfold fillTempPathQueue
    rw [hworker.tempresults_eq]
    dsimp only
    omega

theorem mem_eaten {controller : Controller} {pair : PathShape × PathShape}
    (hpair : pair ∈ eaten controller) :
    pair.1 ∈ controller.overflowqueue ∧ pair.2 ∈ controller.pathqueue := by
  unfold eaten at hpair
  split at hpair
  · obtain ⟨path, slot⟩ := pair
    obtain ⟨hpath, hslot⟩ := of_mem_zip hpair
    exact ⟨mem_reverse.mp (mem_of_mem_take hpath),
      mem_of_mem_drop hslot⟩
  · cases hpair

theorem eat_inBounds_iff {controller : Controller}
    (hsound : Sound settings controller) :
    (∀ access ∈ (eatFromOverflowQueueIfNeeded settings controller).1,
        access.InBounds) ↔
      ∀ pair ∈ eaten controller, Enough settings pair.1 := by
  rw [eatFromOverflowQueueIfNeeded, forall_mem_flatMap]
  apply forall₂_congr
  intro pair hpair
  rw [forall_mem_append, inBounds_both_succ, inBounds_both_succ]
  exact and_iff_right (hsound.slots pair.2 (mem_eaten hpair).2).1

theorem eat_sound {controller : Controller}
    (hsound : Sound settings controller) :
    Sound settings
      (eatFromOverflowQueueIfNeeded settings controller).2 := by
  refine ⟨?_, fun path hpath =>
    hsound.overflow path (mem_of_mem_take hpath), hsound.paths,
    hsound.workers⟩
  intro slot hslot
  rcases mem_append.mp hslot with hfront | hdrop
  · rcases mem_append.mp hfront with htake | heaten
    · exact hsound.slots slot (mem_of_mem_take htake)
    · obtain ⟨pair, hpair, rfl⟩ := mem_map.mp heaten
      obtain ⟨hpath, hbefore⟩ := mem_eaten hpair
      exact ⟨(hsound.slots pair.2 hbefore).1,
        (hsound.overflow pair.1 hpath).startlevel_le⟩
  · exact hsound.slots slot (mem_of_mem_drop hdrop)

theorem Sound.pathSound_slot {controller : Controller}
    (hsound : Sound settings controller) {slot : PathShape}
    (hslot : slot ∈ controller.pathqueue) :
    PathSound settings slot :=
  (hsound.slots slot hslot).1.pathSound (hsound.slots slot hslot).2

theorem forall_mem_concat {paths : List PathShape}
    (hpaths : ∀ other ∈ paths, PathSound settings other)
    (hpath : PathSound settings path) :
    ∀ other ∈ paths ++ [path], PathSound settings other := by
  rw [forall_mem_append, forall_mem_singleton]
  exact ⟨hpaths, hpath⟩

theorem mem_modify {α : Type*} {list : List α} {i : ℕ} {f : α → α} {a : α}
    (ha : a ∈ list.modify i f) : a ∈ list ∨ ∃ b ∈ list, a = f b := by
  obtain ⟨j, hj, rfl⟩ := mem_iff_getElem.mp ha
  rw [getElem_modify]
  split
  · exact .inr ⟨_, getElem_mem _, rfl⟩
  · exact .inl (getElem_mem _)

theorem takeVeryGoodPath_sound {controller : Controller}
    (hsound : Sound settings controller)
    (hnext : takeVeryGoodPath settings controller = some next) :
    Sound settings next := by
  unfold takeVeryGoodPath at hnext
  split at hnext
  · rename_i first rest hqueue
    split at hnext
    · cases hnext
      have hfirst : first ∈ controller.pathqueue := by
        rw [hqueue]
        exact mem_cons_self ..
      have hshifted : ∀ slot ∈ rest.take (controller.pathqueuelength - 1) ++
          controller.pathqueue.drop (controller.pathqueuelength - 1),
          slot ∈ controller.pathqueue := by
        intro slot hslot
        rcases mem_append.mp hslot with htake | hdrop
        · rw [hqueue]
          exact mem_cons_of_mem _ (mem_of_mem_take htake)
        · exact mem_of_mem_drop hdrop
      refine ⟨?_, hsound.overflow,
        forall_mem_concat hsound.paths (hsound.pathSound_slot hfirst),
        hsound.workers⟩
      intro slot hslot
      rcases mem_modify hslot with hmem | ⟨before, hbefore, rfl⟩
      · exact hsound.slots slot (hshifted slot hmem)
      · exact ⟨enough_withLength before le_rfl,
          (hsound.slots before (hshifted before hbefore)).2⟩
    · cases hnext
  · cases hnext

theorem takeOverflow_sound {controller : Controller}
    (hsound : Sound settings controller) (count : ℕ) :
    Sound settings (takeOverflow controller count) := by
  refine ⟨hsound.slots, fun path hpath =>
    hsound.overflow path (mem_of_mem_take hpath), ?_, hsound.workers⟩
  intro path hpath
  rcases mem_append.mp hpath with hmem | hdrop
  · exact hsound.paths path hmem
  · exact hsound.overflow path
      (mem_of_mem_drop (mem_reverse.mp hdrop))

theorem takeFromBack_sound {controller : Controller}
    (hsound : Sound settings controller) {i : ℕ}
    (hnext : takeFromBack settings controller i = some next) :
    Sound settings next := by
  obtain ⟨slot, hslot, rfl⟩ := Option.map_eq_some_iff.mp hnext
  have hmem := mem_of_getElem? hslot
  have hnew : Enough settings (withLength settings (settings.maxlevel + 1)
      slot) ∧ slot.startlevel ≤ settings.maxlevel :=
    ⟨enough_withLength slot le_rfl, (hsound.slots slot hmem).2⟩
  have hset := @Sound.setSlot settings controller hsound i _ hnew
    (controller.pathqueuelength - 1)
  exact ⟨hset.slots, hset.overflow,
    forall_mem_concat hsound.paths (hsound.pathSound_slot hmem),
    hset.workers⟩

theorem append_sound {controller : Controller}
    (hsound : Sound settings controller) {paths : List PathShape}
    (hpaths : ∀ path ∈ paths, PathSound settings path) :
    Sound settings
      (appendDynamicPathQueueToOverflowQueue controller paths) := by
  refine ⟨hsound.slots, ?_, hsound.paths, hsound.workers⟩
  exact forall_mem_append.mpr ⟨hsound.overflow, hpaths⟩

theorem enough_load (startlevel : ℕ) :
    Enough settings (loadPathQueueElementFromStream settings startlevel) :=
  enough_withLength _ le_rfl

theorem loadPaths_spec {controller : Controller}
    (hsound : Sound settings controller)
    (hlevels : ∀ startlevel ∈ startlevels, startlevel ≤ settings.maxlevel) :
    (∀ access ∈ (loadPaths settings controller startlevels).1,
        access.InBounds) ∧
      Sound settings (loadPaths settings controller startlevels).2 := by
  constructor
  · rw [loadPaths, forall_mem_flatMap]
    intro path hpath
    obtain ⟨startlevel, -, rfl⟩ := mem_map.mp hpath
    exact inBounds_both_succ.mpr (enough_load startlevel)
  · apply append_sound hsound
    intro path hpath
    obtain ⟨startlevel, hstartlevel, rfl⟩ := mem_map.mp hpath
    exact (enough_load startlevel).pathSound (hlevels startlevel hstartlevel)

theorem saveAndClearQueue_inBounds_iff {controller : Controller}
    (hsound : Sound settings controller) :
    (∀ access ∈ (saveAndClearQueue settings controller).1, access.InBounds) ↔
      (0 < controller.pathqueuelength →
        ∀ path ∈ controller.overflowqueue, Enough settings path) := by
  unfold saveAndClearQueue
  split
  · rename_i hsome
    rw [forall_mem_flatMap, forall_mem_append]
    simp only [inBounds_both_succ, hsome, true_imp_iff]
    exact and_iff_right fun slot hslot =>
      (hsound.slots slot (mem_of_mem_take hslot)).1
  · rename_i hnone
    exact iff_of_true (fun _ haccess => nomatch haccess)
      fun hsome => absurd hsome hnone

theorem saveAndClearQueue_sound {controller : Controller}
    (hsound : Sound settings controller) :
    Sound settings (saveAndClearQueue settings controller).2.1 ∧
      ∀ startlevel ∈ (saveAndClearQueue settings controller).2.2,
        startlevel ≤ settings.maxlevel := by
  unfold saveAndClearQueue
  split
  · refine ⟨⟨hsound.slots, (fun _ hpath => nomatch hpath), hsound.paths,
      hsound.workers⟩, ?_⟩
    intro startlevel hstartlevel
    obtain ⟨path, hpath, rfl⟩ := mem_map.mp hstartlevel
    rcases mem_append.mp hpath with hslot | hoverflow
    · exact (hsound.slots path (mem_of_mem_take hslot)).2
    · exact (hsound.overflow path hoverflow).startlevel_le
  · exact ⟨hsound, fun _ hstartlevel => nomatch hstartlevel⟩

theorem setupQueueForResume_spec {controller : Controller}
    (hsound : Sound settings controller)
    (hlevels : ∀ startlevel ∈ startlevels, startlevel ≤ settings.maxlevel)
    (hnext : setupQueueForResume settings controller startlevels =
      some (accesses, next)) :
    (∀ access ∈ accesses, access.InBounds) ∧ Sound settings next := by
  unfold setupQueueForResume at hnext
  split at hnext
  · dsimp only at hnext
    obtain ⟨rfl, rfl⟩ := Prod.mk.inj (Option.some.inj hnext)
    have hloaded : ∀ path ∈ startlevels.map
        (loadPathQueueElementFromStream settings),
        Enough settings path ∧ path.startlevel ≤ settings.maxlevel := by
      intro path hpath
      obtain ⟨startlevel, hstartlevel, rfl⟩ := mem_map.mp hpath
      exact ⟨enough_load startlevel, hlevels startlevel hstartlevel⟩
    have hsorted : ∀ path ∈ Resume.sortByLevel
        (fun path : PathShape => Int32.ofInt path.startlevel)
        (startlevels.map (loadPathQueueElementFromStream settings)),
        Enough settings path ∧ path.startlevel ≤ settings.maxlevel :=
      fun path hpath =>
        hloaded path ((Resume.sortByLevel_perm _ _).mem_iff.mp hpath)
    constructor
    · rw [forall_mem_append, forall_mem_flatMap]
      refine ⟨fun path hpath =>
        inBounds_both_succ.mpr (hloaded path hpath).1, ?_⟩
      intro access haccess
      obtain ⟨path, hpath, rfl⟩ := mem_map.mp haccess
      have henough := (hsorted path
        (mem_reverse.mp (mem_of_mem_take hpath))).1.1
      rw [inBounds_loop]
      omega
    · refine ⟨?_, ?_, hsound.paths, hsound.workers⟩
      · rw [forall_mem_append]
        exact ⟨fun path hpath => hsorted path
          (mem_reverse.mp (mem_of_mem_take hpath)),
          fun slot hslot => hsound.slots slot (mem_of_mem_drop hslot)⟩
      · intro path hpath
        have hboth := hsorted path (mem_of_mem_take hpath)
        exact hboth.1.pathSound hboth.2
  · cases hnext

theorem getQueueStatistics_inBounds {controller : Controller}
    (hsound : Sound settings controller) :
    ∀ access ∈ getQueueStatistics controller, access.InBounds := by
  rw [getQueueStatistics, forall_mem_flatMap, forall_mem_append]
  have hpath : ∀ path, PathSound settings path →
      ∀ access ∈ [block path.tempresults path.tempresults,
        loop path.tempresults 0 path.startlevel], access.InBounds := by
    intro path hsoundPath
    have hlevel := hsoundPath.startlevel_lt
    simp only [forall_mem_cons, inBounds_block, inBounds_loop, le_refl,
      true_and, not_mem_nil, false_imp_iff, implies_true, and_true]
    omega
  exact ⟨fun slot hslot => hpath slot
      (hsound.pathSound_slot (mem_of_mem_take hslot)),
    fun path hoverflow => hpath path (hsound.overflow path hoverflow)⟩

theorem getMinAndMaxPath_inBounds_iff {controller : Controller}
    (hsound : Sound settings controller) :
    (∀ access ∈ getMinAndMaxPath settings controller, access.InBounds) ↔
      controller.localscanners = [] := by
  rw [getMinAndMaxPath, forall_mem_map, eq_nil_iff_forall_not_mem]
  apply forall_congr'
  intro worker
  constructor
  · intro hin hworker
    have hblock := inBounds_block.mp (hin hworker)
    rw [(hsound.workers worker hworker).tempresults_eq] at hblock
    omega
  · exact fun hnot hworker => absurd hworker hnot

theorem forall_mem_nil {property : Access → Prop} :
    ∀ access ∈ ([] : List Access), property access :=
  fun _ haccess => nomatch haccess

structure EffectSound (settings : QueueSettings) (effect : Effect) :
    Prop where
  controller : Sound settings effect.controller
  written : ∀ startlevel ∈ effect.written, startlevel ≤ settings.maxlevel

theorem effectSound_of_sound {controller : Controller}
    (hsound : Sound settings controller) :
    EffectSound settings { accesses, controller, written := [] } :=
  ⟨hsound, fun _ hstartlevel => nomatch hstartlevel⟩

theorem Sound.dropPaths {controller : Controller}
    (hsound : Sound settings controller) :
    Sound settings { controller with paths := [] } :=
  ⟨hsound.slots, hsound.overflow, (fun _ hpath => nomatch hpath),
    hsound.workers⟩

theorem Sound.removeWorkerThread {controller : Controller}
    (hsound : Sound settings controller) :
    Sound settings { controller with
      localscanners := controller.localscanners.dropLast } :=
  ⟨hsound.slots, hsound.overflow, hsound.paths, fun worker hworker =>
    hsound.workers worker (mem_of_mem_dropLast hworker)⟩

theorem WorkerSound.withLevels (hworker : WorkerSound settings worker)
    {levels : List ℕ} (hlevels : ∀ level ∈ levels, level < settings.maxlevel) :
    WorkerSound settings { worker with levels } :=
  ⟨hworker.tempresults_eq, hworker.valuelist_eq, hlevels⟩

/-- A step stays in bounds exactly if it is permitted, and it keeps the
lengths. -/
structure ActSpec (settings : QueueSettings) (controller : Controller)
    (action : Action) (effect : Effect) : Prop where
  inBounds_iff : (∀ access ∈ effect.accesses, access.InBounds) ↔
    Permitted settings controller action
  sound : EffectSound settings effect

theorem ActSpec.of_inBounds {controller : Controller} {effect : Effect}
    (hpermitted : Permitted settings controller action)
    (hin : ∀ access ∈ effect.accesses, access.InBounds)
    (hsound : EffectSound settings effect) :
    ActSpec settings controller action effect :=
  ⟨iff_of_true hin hpermitted, hsound⟩

theorem ActSpec.of_changes {controller : Controller}
    (hpermitted : Permitted settings controller action)
    (hsound : Sound settings next) :
    ActSpec settings controller action (onlyChanges next) :=
  .of_inBounds hpermitted forall_mem_nil (effectSound_of_sound hsound)

variable {streamed : List ℕ} {controller : Controller} {effect : Effect}

section

variable (hsound : Sound settings controller)

include hsound

theorem takeFromQueue_actSpec
    (heffect : act settings streamed controller (.takeFromQueue w) =
      some effect) :
    ActSpec settings controller (.takeFromQueue w) effect := by
  obtain ⟨worker, hworker, hthen⟩ := Option.bind_eq_some_iff.mp heffect
  split at hthen
  · cases hthen
    have hspec := takeFromQueue_spec hsound
      (hsound.workers worker (mem_of_getElem? hworker))
    exact .of_inBounds trivial hspec.1
      (effectSound_of_sound (hspec.2.2.setWorker hspec.2.1))
  · cases hthen

theorem scanning_actSpec {accesses : Worker → ℕ → List Access}
    (hiff : ∀ (worker : Worker) (level : ℕ), WorkerSound settings worker →
      level < settings.maxlevel →
      ((∀ access ∈ accesses worker level, access.InBounds) ↔
        Permitted settings controller action))
    (heffect : ((controller.scanning w).map fun (worker, level) =>
      onlyAccesses controller (accesses worker level)) = some effect) :
    ActSpec settings controller action effect := by
  obtain ⟨⟨worker, level⟩, hscanning, rfl⟩ := Option.map_eq_some_iff.mp heffect
  obtain ⟨hmem, hlevel⟩ := Controller.scanning_mem hscanning
  have hworker := hsound.workers worker hmem
  exact ⟨hiff worker level hworker (hworker.levels_lt level hlevel),
    effectSound_of_sound hsound⟩

theorem queuePath_actSpec
    (heffect : act settings streamed controller (.queuePath w) = some effect) :
    ActSpec settings controller (.queuePath w) effect := by
  obtain ⟨⟨worker, level⟩, hscanning, hthen⟩ :=
    Option.bind_eq_some_iff.mp heffect
  have hworker := hsound.workers worker (Controller.scanning_mem hscanning).1
  dsimp only at hthen
  split at hthen
  · rename_i hless
    obtain ⟨⟨accesses, next⟩, hqueue, rfl⟩ := Option.map_eq_some_iff.mp hthen
    obtain ⟨hin, hnext⟩ := queuePath_spec hsound hworker hless hqueue
    exact .of_inBounds trivial hin (effectSound_of_sound hnext)
  · cases hthen

theorem goDeeper_actSpec
    (heffect : act settings streamed controller (.goDeeper w) = some effect) :
    ActSpec settings controller (.goDeeper w) effect := by
  obtain ⟨⟨worker, level⟩, hscanning, hthen⟩ :=
    Option.bind_eq_some_iff.mp heffect
  have hworker := hsound.workers worker (Controller.scanning_mem hscanning).1
  dsimp only at hthen
  split at hthen
  · rename_i hless
    cases hthen
    have hlevels : ∀ other ∈ (level + 1) :: worker.levels,
        other < settings.maxlevel :=
      forall_mem_cons.mpr ⟨hless, hworker.levels_lt⟩
    exact .of_changes trivial (hsound.setWorker (hworker.withLevels hlevels))
  · cases hthen

theorem goBack_actSpec
    (heffect : act settings streamed controller (.goBack w) = some effect) :
    ActSpec settings controller (.goBack w) effect := by
  obtain ⟨⟨worker, level⟩, hscanning, rfl⟩ :=
    Option.map_eq_some_iff.mp heffect
  have hworker := hsound.workers worker (Controller.scanning_mem hscanning).1
  have hlevels : ∀ other ∈ worker.levels.tail, other < settings.maxlevel :=
    fun other hother =>
      hworker.levels_lt other (mem_of_mem_tail hother)
  exact .of_changes trivial (hsound.setWorker (hworker.withLevels hlevels))

theorem overflowPath_actSpec
    (heffect : act settings streamed controller (.overflowPath w) =
      some effect) :
    ActSpec settings controller (.overflowPath w) effect := by
  obtain ⟨⟨worker, level⟩, hscanning, hthen⟩ :=
    Option.bind_eq_some_iff.mp heffect
  have hworker := hsound.workers worker (Controller.scanning_mem hscanning).1
  dsimp only at hthen
  split at hthen
  · rename_i hless
    cases hthen
    obtain ⟨hafter, hnext⟩ := overflowPath_sound hsound hworker hless
    exact ⟨@overflowPath_inBounds_iff settings controller worker level hworker,
      effectSound_of_sound (hnext.setWorker hafter)⟩
  · cases hthen

theorem writePath_actSpec {k : ℕ}
    (heffect : act settings streamed controller (.writePath k) = some effect) :
    ActSpec settings controller (.writePath k) effect := by
  obtain ⟨⟨accesses, startlevel⟩, hwrite, rfl⟩ :=
    Option.map_eq_some_iff.mp heffect
  obtain ⟨path, hpath, heq⟩ := Option.map_eq_some_iff.mp hwrite
  cases heq
  refine ⟨?_, hsound, ?_⟩
  · rw [inBounds_both_succ, Permitted]
    simp only [hpath, Option.mem_def, Option.some.injEq, forall_eq']
  · intro startlevel hstartlevel
    rw [mem_singleton.mp hstartlevel]
    exact (hsound.paths path (mem_of_getElem? hpath)).startlevel_le

end

theorem streamed_le (hstreamed : ∀ startlevel ∈ streamed,
      startlevel ≤ settings.maxlevel)
    (hall : (startlevels.all fun startlevel => startlevel ∈ streamed) = true) :
    ∀ startlevel ∈ startlevels, startlevel ≤ settings.maxlevel :=
  fun startlevel hmem => hstreamed startlevel
    (of_decide_eq_true (all_eq_true.mp hall startlevel hmem))

section

variable (hsound : Sound settings controller)
  (hstreamed : ∀ startlevel ∈ streamed, startlevel ≤ settings.maxlevel)

include hsound hstreamed

theorem loadPaths_actSpec
    (heffect : act settings streamed controller (.loadPaths startlevels) =
      some effect) :
    ActSpec settings controller (.loadPaths startlevels) effect := by
  simp only [act] at heffect
  split at heffect
  · rename_i hall
    cases heffect
    obtain ⟨hin, hnext⟩ :=
      loadPaths_spec hsound (streamed_le hstreamed hall)
    exact .of_inBounds trivial hin (effectSound_of_sound hnext)
  · cases heffect

theorem setupQueueForResume_actSpec
    (heffect : act settings streamed controller
      (.setupQueueForResume startlevels) = some effect) :
    ActSpec settings controller (.setupQueueForResume startlevels)
      effect := by
  simp only [act] at heffect
  split at heffect
  · rename_i hall
    obtain ⟨⟨accesses, next⟩, hresume, rfl⟩ :=
      Option.map_eq_some_iff.mp heffect
    obtain ⟨hin, hnext⟩ := setupQueueForResume_spec hsound
      (streamed_le hstreamed hall) hresume
    exact .of_inBounds trivial hin (effectSound_of_sound hnext)
  · cases heffect

theorem act_spec
    (heffect : act settings streamed controller action = some effect) :
    ActSpec settings controller action effect := by
  cases action with
  | initializeEmptyPathQueue =>
    cases heffect
    have hspec := initializeEmptyPathQueue_spec hsound
    exact .of_inBounds trivial hspec.1 (effectSound_of_sound hspec.2)
  | addWorkerThread =>
    cases heffect
    exact .of_changes trivial (addWorkerThread_sound hsound)
  | removeWorkerThread =>
    cases heffect
    exact .of_changes trivial hsound.removeWorkerThread
  | seedPath =>
    obtain ⟨next, hnext, rfl⟩ := Option.map_eq_some_iff.mp heffect
    exact .of_changes trivial (seedPath_sound hsound hnext)
  | seedOverflow count =>
    cases heffect
    exact .of_changes trivial (seedOverflow_sound hsound count)
  | takeFromQueue w => exact takeFromQueue_actSpec hsound heffect
  | visitLevel w =>
    exact scanning_actSpec hsound (fun worker level hworker hlevel =>
      iff_of_true (visitLevel_inBounds hworker hlevel) trivial) heffect
  | storePath w compressedptr mustendwithoffsetlistlength =>
    exact scanning_actSpec hsound (fun worker level hworker hlevel =>
      iff_of_true (storePath_inBounds hworker hlevel _ _) trivial) heffect
  | doRescan w =>
    exact scanning_actSpec hsound (fun worker level hworker hlevel =>
      iff_of_true (doRescan_inBounds hworker hlevel) trivial) heffect
  | queuePath w => exact queuePath_actSpec hsound heffect
  | goDeeper w => exact goDeeper_actSpec hsound heffect
  | goBack w => exact goBack_actSpec hsound heffect
  | overflowPath w => exact overflowPath_actSpec hsound heffect
  | eatFromOverflowQueueIfNeeded =>
    cases heffect
    exact ⟨eat_inBounds_iff hsound, effectSound_of_sound (eat_sound hsound)⟩
  | takeVeryGoodPath =>
    obtain ⟨next, hnext, rfl⟩ := Option.map_eq_some_iff.mp heffect
    exact .of_changes trivial (takeVeryGoodPath_sound hsound hnext)
  | takeOverflow count =>
    cases heffect
    exact .of_changes trivial (takeOverflow_sound hsound count)
  | takeFromBack i =>
    obtain ⟨next, hnext, rfl⟩ := Option.map_eq_some_iff.mp heffect
    exact .of_changes trivial (takeFromBack_sound hsound hnext)
  | writePath k => exact writePath_actSpec hsound heffect
  | returnPaths =>
    cases heffect
    exact .of_changes trivial (append_sound hsound hsound.paths).dropPaths
  | dropPaths =>
    cases heffect
    exact .of_changes trivial hsound.dropPaths
  | loadPaths startlevels => exact loadPaths_actSpec hsound hstreamed heffect
  | saveAndClearQueue =>
    cases heffect
    obtain ⟨hnext, hwritten⟩ := saveAndClearQueue_sound hsound
    exact ⟨saveAndClearQueue_inBounds_iff hsound, hnext, hwritten⟩
  | setupQueueForResume startlevels =>
    exact setupQueueForResume_actSpec hsound hstreamed heffect
  | getQueueStatistics =>
    cases heffect
    exact .of_inBounds trivial (getQueueStatistics_inBounds hsound)
      (effectSound_of_sound hsound)
  | getMinAndMaxPath =>
    cases heffect
    exact ⟨getMinAndMaxPath_inBounds_iff hsound, effectSound_of_sound hsound⟩

end

end

section

variable (settings : QueueSettings)

def fresh : Controller :=
  (initializeEmptyPathQueue settings
    { pathqueue := List.replicate MAXQUEUESIZE
        { tempresults := 0, valuelist := 0, startlevel := 0 }
      pathqueuelength := 0
      overflowqueue := []
      localscanners := []
      paths := [] }).2

def start : System Id :=
  { controllers := fun _ => fresh settings, streamed := [] }

def RunPermitted : List (Id × Action) → System Id → Prop
  | [], _ => True
  | label :: rest, system =>
    ((system.step settings label).isSome →
      Permitted settings (system.controllers label.1) label.2) ∧
      ∀ next ∈ system.step settings label, RunPermitted rest next

structure System.Sound (system : System Id) : Prop where
  controllers : ∀ id, PathArrays.Sound settings (system.controllers id)
  streamed : ∀ startlevel ∈ system.streamed, startlevel ≤ settings.maxlevel

variable {settings}

theorem fresh_sound : PathArrays.Sound settings (fresh settings) := by
  refine ⟨?_, (fun _ hpath => nomatch hpath), (fun _ hpath => nomatch hpath),
    (fun _ hworker => nomatch hworker)⟩
  intro slot hslot
  obtain ⟨before, hbefore, rfl⟩ := mem_map.mp hslot
  rw [eq_of_mem_replicate hbefore]
  exact ⟨enough_withLength _ (by omega), Nat.zero_le _⟩

omit [DecidableEq Id] in
theorem start_sound : (start settings : System Id).Sound settings :=
  ⟨fun _ => fresh_sound, fun _ hstartlevel => nomatch hstartlevel⟩

variable {system : System Id}

omit [DecidableEq Id] in
theorem System.Sound.step_spec (hsound : system.Sound settings)
    {label : Id × Action} {effect : Effect}
    (heffect : system.effect settings label = some effect) :
    ActSpec settings (system.controllers label.1) label.2 effect :=
  act_spec (hsound.controllers label.1) hsound.streamed heffect

theorem System.Sound.step {next : System Id} (hsound : system.Sound settings)
    {label : Id × Action} (hnext : system.step settings label = some next) :
    next.Sound settings := by
  obtain ⟨effect, heffect, rfl⟩ := Option.map_eq_some_iff.mp hnext
  have hafter := (hsound.step_spec heffect).sound
  constructor
  · intro id
    dsimp only
    rw [Function.update_apply]
    split
    · exact hafter.controller
    · exact hsound.controllers id
  · exact forall_mem_append.mpr ⟨hsound.streamed, hafter.written⟩

theorem System.Sound.stepInBounds_iff (hsound : system.Sound settings)
    (label : Id × Action) :
    StepInBounds settings system label ↔
      ((system.step settings label).isSome →
        Permitted settings (system.controllers label.1) label.2) := by
  unfold StepInBounds System.step
  rw [Option.isSome_map]
  cases heffect : system.effect settings label with
  | none => simp
  | some effect =>
    simp only [Option.mem_def, Option.some.injEq, forall_eq',
      Option.isSome_some, true_imp_iff]
    exact (hsound.step_spec heffect).inBounds_iff

theorem System.Sound.runInBounds_iff (hsound : system.Sound settings)
    (labels : List (Id × Action)) :
    RunInBounds settings labels system ↔
      RunPermitted settings labels system := by
  induction labels generalizing system with
  | nil => exact Iff.rfl
  | cons label rest ih =>
    apply and_congr (hsound.stepInBounds_iff label)
    apply forall₂_congr
    intro next hnext
    exact ih (hsound.step hnext)

end

/-- A run of any controllers stays inside of all path arrays exactly if it
has only permitted steps: no path is copied to the overflow queue without
`noLoop`, and none that came from a worker is read as one of the path queue;
and the offsets of running workers are not read for the statistics. -/
theorem runInBounds_start_iff (settings : QueueSettings)
    (labels : List (Id × Action)) :
    RunInBounds settings labels (start settings) ↔
      RunPermitted settings labels (start settings) :=
  start_sound.runInBounds_iff labels

def threeLevels : QueueSettings :=
  { maxlevel := 3, noLoop := false, maxlevel_lt := by decide }

theorem not_runInBounds_overflowPath :
    ¬ RunInBounds threeLevels
      [((), .addWorkerThread), ((), .seedPath), ((), .takeFromQueue 0),
        ((), .overflowPath 0)] (start threeLevels) := by
  intro hrun
  have hoverflow := (((hrun.2 _ rfl).2 _ rfl).2 _ rfl).1 _ rfl
  have hcopy := hoverflow (block 0 3) (by decide)
  exact absurd hcopy (by decide)

end PathArrays
end Pointerscan
end CheatEngine
