import CheatEngine.PointerscanPathStream

/-!
# Saving the queues and resuming a scan

`SaveAndClearQueue` writes the path queue and the overflow queue to the
`.resume.queue` file, and `SetupQueueForResume` reads that file into the
overflow queue, sorts it and moves its end to the path queue.  Assigning one
queue slot to another copies references to dynamic arrays, so the arrays live
in a heap here and a slot refers to its array by number.
-/

namespace CheatEngine
namespace Pointerscan
namespace Resume

open List ByteStream

variable {settings : QueueSettings}

structure ScanQueues (settings : QueueSettings) where
  pathqueue : MainPathQueue settings
  overflowqueue : List PathQueueElement
  overflow_sized : ∀ element ∈ overflowqueue, element.Sized settings

def ScanQueues.paths (queues : ScanQueues settings) : List PathQueueElement :=
  queues.pathqueue.live ++ queues.overflowqueue

def saveElement (settings : QueueSettings) (element : PathQueueElement) :
    List UInt8 :=
  writeQWord element.valuetofind ++
    (writeDWord element.startlevel.toUInt32 ++
      (writeTempresults settings element ++ writeValuelist settings element))

def clearQueues (queues : ScanQueues settings) : ScanQueues settings where
  pathqueue := { queues.pathqueue with
    pathqueuelength := 0
    pathqueuelength_le := Nat.zero_le _ }
  overflowqueue := []
  overflow_sized := by simp

def saveAndClearQueue (queues : ScanQueues settings) :
    List UInt8 × ScanQueues settings :=
  if 0 < queues.pathqueue.pathqueuelength then
    (queues.pathqueue.live.flatMap (saveElement settings) ++
      queues.overflowqueue.flatMap (saveElement settings),
      clearQueues queues)
  else
    ([], queues)

/-- `CreateWriterAndQueue` starts the file with the level. -/
def resumeQueueFile (queues : ScanQueues settings) : List UInt8 :=
  writeDWord (UInt32.ofNat settings.maxlevel) ++ (saveAndClearQueue queues).1

structure QueueSlot where
  tempresults : ℕ
  valuelist : List UInt64
  valuetofind : UInt64
  startlevel : Int32
deriving DecidableEq

abbrev Heap := List (List UInt32)

def QueueSlot.element (heap : Heap) (slot : QueueSlot) : PathQueueElement where
  tempresults := heap.getD slot.tempresults []
  valuelist := slot.valuelist
  valuetofind := slot.valuetofind
  startlevel := slot.startlevel

def readValuelistUpTo (settings : QueueSettings) : Reader (List UInt64) :=
  if settings.noLoop then
    readMany readQWordUpTo (settings.maxlevel + 1)
  else
    pure []

/-- `offsetcountperlist` is a local variable the routine never sets. -/
def checkStartlevel (offsetcountperlist startlevel : Int32) (size : ℕ) :
    Reader Unit := fun unread =>
  if offsetcountperlist < startlevel then
    .error ("invalid data:" ++ toString (size - unread.length))
  else
    .ok ((), unread)

def loadElement (settings : QueueSettings) (offsetcountperlist : Int32)
    (size : ℕ) : Reader PathQueueElement := do
  let valuetofind ← readQWordUpTo
  let startlevel ← readDWordUpTo
  checkStartlevel offsetcountperlist startlevel.toInt32 size
  let tempresults ← readMany readDWordUpTo (settings.maxlevel + 1)
  let valuelist ← readValuelistUpTo settings
  return { tempresults, valuelist, valuetofind, startlevel := startlevel.toInt32 }

/-- `while f.Position<f.Size`: every turn reads at least one byte, so the
number of unread bytes bounds the number of turns. -/
def loadElements (settings : QueueSettings) (offsetcountperlist : Int32)
    (size : ℕ) : ℕ → Reader (List PathQueueElement)
  | 0 => pure []
  | turns + 1 => fun unread =>
    if unread.isEmpty then
      .ok ([], unread)
    else
      (do
        let element ← loadElement settings offsetcountperlist size
        let rest ← loadElements settings offsetcountperlist size turns
        return element :: rest) unread

def allocate (elements : List PathQueueElement) : List QueueSlot :=
  elements.zipIdx.map fun entry =>
    { tempresults := entry.2
      valuelist := entry.1.valuelist
      valuetofind := entry.1.valuetofind
      startlevel := entry.1.startlevel }

section

variable {α β : Type}

def sortStep (level : α → Int32) (i : ℕ) (entries : List α) (j : ℕ) : List α :=
  match entries[i]?, entries[j]? with
  | some first, some second =>
    if level second < level first then
      (entries.set j first).set i second
    else
      entries
  | _, _ => entries

def sortPass (level : α → Int32) (entries : List α) (i : ℕ) : List α :=
  (List.range' i (entries.length - i)).foldl (sortStep level i) entries

def sortByLevel (level : α → Int32) (entries : List α) : List α :=
  (List.range (entries.length - 1)).foldl (sortPass level) entries

end

structure ResumeState where
  heap : Heap
  pathqueue : List QueueSlot
  overflowqueue : List QueueSlot
  addedToQueue : ℕ

/-- The loop from the end of the overflow queue.  The slot is assigned to the
path queue, and then written through its reference. -/
def moveToPathQueue : List QueueSlot → ResumeState → ResumeState
  | [], state => state
  | slot :: rest, state =>
    if state.pathqueue.length < MAXQUEUESIZE then
      moveToPathQueue rest
        { state with
          pathqueue := state.pathqueue ++ [slot]
          heap := state.heap.modify slot.tempresults
            fun entries => entries.set 0 0xcece
          addedToQueue := state.addedToQueue + 1 }
    else
      state

def sortedSlots (elements : List PathQueueElement) : List QueueSlot :=
  sortByLevel QueueSlot.startlevel (allocate elements)

def fillPathQueue (elements : List PathQueueElement) : ResumeState :=
  let moved := moveToPathQueue (sortedSlots elements).reverse
    { heap := elements.map PathQueueElement.tempresults
      pathqueue := []
      overflowqueue := sortedSlots elements
      addedToQueue := 0 }
  { moved with
    overflowqueue := moved.overflowqueue.take
      (moved.overflowqueue.length - moved.addedToQueue) }

def setupQueueForResume (settings : QueueSettings)
    (offsetcountperlist : Int32) (file : List UInt8) :
    Except String ResumeState := do
  let (ml, unread) ← readDWord file
  if ml.toNat ≠ settings.maxlevel then
    throw "Invalid queue file"
  else
    let (elements, _) ← loadElements settings offsetcountperlist file.length
      unread.length unread
    return fillPathQueue elements

/-! ## What the file holds -/

variable {offsetcountperlist : Int32} {element : PathQueueElement}
  (elements : List PathQueueElement)

theorem reads_checkStartlevel {startlevel : Int32}
    (hlevel : ¬ offsetcountperlist < startlevel) (size : ℕ) :
    Reads (checkStartlevel offsetcountperlist startlevel size) [] () := by
  intro unread
  exact if_neg hlevel

theorem reads_readManyDWordUpTo (hsized : element.Sized settings) :
    Reads (readMany readDWordUpTo (settings.maxlevel + 1))
      (writeTempresults settings element) element.tempresults := by
  rw [writeTempresults, hsized.take_tempresults, ← hsized.tempresults_length]
  exact reads_readMany reads_readDWordUpTo element.tempresults

theorem reads_readValuelistUpTo (hsized : element.Sized settings) :
    Reads (readValuelistUpTo settings) (writeValuelist settings element)
      (element.transmitted settings).valuelist := by
  unfold readValuelistUpTo writeValuelist PathQueueElement.transmitted
  cases hnoLoop : settings.noLoop with
  | false => exact reads_pure []
  | true =>
    simp only [if_true]
    rw [hsized.take_valuelist hnoLoop, ← hsized.valuelist_length hnoLoop]
    exact reads_readMany reads_readQWordUpTo element.valuelist

theorem reads_loadElement (hsized : element.Sized settings)
    (hlevel : ¬ offsetcountperlist < element.startlevel) (size : ℕ) :
    Reads (loadElement settings offsetcountperlist size)
      (saveElement settings element) (element.transmitted settings) := by
  have hstart : element.startlevel.toUInt32.toInt32 = element.startlevel := by
    simp
  have hcheck : Reads (checkStartlevel offsetcountperlist
      element.startlevel.toUInt32.toInt32 size) [] () := by
    rw [hstart]
    exact reads_checkStartlevel hlevel size
  have hread : Reads (loadElement settings offsetcountperlist size)
      (saveElement settings element)
      { element with
        valuelist := (element.transmitted settings).valuelist
        startlevel := element.startlevel.toUInt32.toInt32 } :=
    (reads_readQWordUpTo _).bind ((reads_readDWordUpTo _).bind
      (hcheck.bind ((reads_readManyDWordUpTo hsized).bind
        (reads_readValuelistUpTo hsized).bind_pure)))
  rw [hstart] at hread
  exact hread

theorem fails_loadElement (hlevel : offsetcountperlist < element.startlevel)
    (size : ℕ) :
    Fails (loadElement settings offsetcountperlist size)
      (saveElement settings element) := by
  have hstart : element.startlevel.toUInt32.toInt32 = element.startlevel := by
    simp
  have hcheck : Fails (checkStartlevel offsetcountperlist
      element.startlevel.toUInt32.toInt32 size) [] := by
    intro unread
    rw [hstart]
    exact ⟨_, if_pos hlevel⟩
  exact (reads_readQWordUpTo _).bind_fails ((reads_readDWordUpTo _).bind_fails
    (hcheck.append _).bind)

theorem saveElement_ne_nil (element : PathQueueElement) :
    saveElement settings element ≠ [] := by
  intro hnil
  have hlength := congrArg List.length hnil
  simp [saveElement] at hlength

theorem loadElements_ok {elements : List PathQueueElement}
    (hsized : ∀ element ∈ elements, element.Sized settings)
    (hlevel : ∀ element ∈ elements, ¬ offsetcountperlist < element.startlevel)
    (size turns : ℕ) (hturns : elements.length ≤ turns) :
    loadElements settings offsetcountperlist size turns
        (elements.flatMap (saveElement settings)) =
      .ok (elements.map (PathQueueElement.transmitted settings), []) := by
  induction elements generalizing turns with
  | nil =>
    cases turns with
    | zero => rfl
    | succ turns => rfl
  | cons element rest ih =>
    cases turns with
    | zero => simp at hturns
    | succ turns =>
      have hhead := reads_loadElement (hsized element (by simp))
        (hlevel element (by simp)) size
        (rest.flatMap (saveElement settings))
      have hrest := ih
        (fun other hother => hsized other (mem_cons_of_mem _ hother))
        (fun other hother => hlevel other (mem_cons_of_mem _ hother))
        turns (by simpa using hturns)
      have hnonempty : (List.flatMap (saveElement settings)
          (element :: rest)).isEmpty = false := by
        simp [saveElement_ne_nil]
      simp only [loadElements, hnonempty]
      change (loadElement _ _ _ _ >>= _) = _
      rw [flatMap_cons, hhead]
      change ((loadElements _ _ _ _ _) >>= _) = _
      rw [hrest]
      rfl

theorem loadElements_error {elements : List PathQueueElement}
    (hsized : ∀ element ∈ elements, element.Sized settings)
    (hlevel : ∃ element ∈ elements, offsetcountperlist < element.startlevel)
    (size turns : ℕ) (hturns : elements.length ≤ turns) :
    ∃ message, loadElements settings offsetcountperlist size turns
      (elements.flatMap (saveElement settings)) = .error message := by
  induction elements generalizing turns with
  | nil => simp at hlevel
  | cons element rest ih =>
    cases turns with
    | zero => simp at hturns
    | succ turns =>
      have hnonempty : (List.flatMap (saveElement settings)
          (element :: rest)).isEmpty = false := by
        simp [saveElement_ne_nil]
      simp only [loadElements, hnonempty]
      rw [flatMap_cons]
      by_cases hhead : offsetcountperlist < element.startlevel
      · obtain ⟨message, herror⟩ := fails_loadElement hhead size
          (rest.flatMap (saveElement settings))
        refine ⟨message, ?_⟩
        change (loadElement _ _ _ _ >>= _) = _
        rw [herror]
        rfl
      · have hlater : ∃ other ∈ rest,
            offsetcountperlist < other.startlevel := by
          obtain ⟨other, hother, habove⟩ := hlevel
          rcases mem_cons.mp hother with rfl | hmem
          · exact absurd habove hhead
          · exact ⟨other, hmem, habove⟩
        obtain ⟨message, herror⟩ := ih
          (fun other hother => hsized other (mem_cons_of_mem _ hother))
          hlater turns (by simpa using hturns)
        have hread := reads_loadElement (hsized element (by simp)) hhead
          size (rest.flatMap (saveElement settings))
        refine ⟨message, ?_⟩
        change (loadElement _ _ _ _ >>= _) = _
        rw [hread]
        change ((loadElements _ _ _ _ _) >>= _) = _
        rw [herror]
        rfl

/-! ## Sorting and moving -/

section

variable {α β : Type}

variable (level : α → Int32)

theorem sortStep_perm (i : ℕ) (entries : List α) (j : ℕ) :
    (sortStep level i entries j).Perm entries := by
  unfold sortStep
  split
  · next first second hfirst hsecond =>
      split
      · obtain ⟨hi, rfl⟩ := List.getElem?_eq_some_iff.mp hfirst
        obtain ⟨hj, rfl⟩ := List.getElem?_eq_some_iff.mp hsecond
        exact set_set_perm hj hi
      · exact List.Perm.refl entries
  · exact List.Perm.refl entries

theorem foldl_perm {step : List α → ℕ → List α}
    (hstep : ∀ entries j, (step entries j).Perm entries)
    (indices : List ℕ) (entries : List α) :
    (indices.foldl step entries).Perm entries := by
  induction indices generalizing entries with
  | nil => exact List.Perm.refl entries
  | cons j rest ih => exact (ih (step entries j)).trans (hstep entries j)

theorem sortPass_perm (entries : List α) (i : ℕ) :
    (sortPass level entries i).Perm entries :=
  foldl_perm (sortStep_perm level i) _ entries

theorem sortByLevel_perm (entries : List α) :
    (sortByLevel level entries).Perm entries :=
  foldl_perm (sortPass_perm level) _ entries

theorem sortStep_map (f : α → β) (level : β → Int32) (i : ℕ)
    (entries : List α) (j : ℕ) :
    (sortStep (level ∘ f) i entries j).map f =
      sortStep level i (entries.map f) j := by
  unfold sortStep
  simp only [getElem?_map]
  cases hfirst : entries[i]? with
  | none => rfl
  | some first =>
    cases hsecond : entries[j]? with
    | none => rfl
    | some second =>
      simp only [Option.map_some, Function.comp_apply]
      split
      · simp
      · rfl

theorem foldl_map {step : List α → ℕ → List α} {step' : List β → ℕ → List β}
    {f : α → β}
    (hstep : ∀ entries j, (step entries j).map f = step' (entries.map f) j)
    (indices : List ℕ) (entries : List α) :
    (indices.foldl step entries).map f =
      indices.foldl step' (entries.map f) := by
  induction indices generalizing entries with
  | nil => rfl
  | cons j rest ih =>
    simp only [foldl_cons, ih, hstep]

theorem sortByLevel_map (f : α → β) (level : β → Int32) (entries : List α) :
    (sortByLevel (level ∘ f) entries).map f =
      sortByLevel level (entries.map f) := by
  unfold sortByLevel
  rw [length_map]
  apply foldl_map
  intro current i
  unfold sortPass
  rw [length_map]
  exact foldl_map (sortStep_map f level i) _ current

end

theorem allocate_element :
    (allocate elements).map
      (QueueSlot.element (elements.map PathQueueElement.tempresults)) =
        elements := by
  apply ext_getElem
  · simp [allocate]
  · intro index hleft hright
    simp [allocate, QueueSlot.element, hright]

theorem allocate_refs_nodup :
    ((allocate elements).map QueueSlot.tempresults).Nodup := by
  have hrefs : (allocate elements).map QueueSlot.tempresults =
      List.range elements.length := by
    apply ext_getElem
    · simp [allocate]
    · intro index hleft hright
      simp [allocate]
  rw [hrefs]
  exact nodup_range

def writeMarks (slots : List QueueSlot) (heap : Heap) : Heap :=
  slots.foldl
    (fun current slot =>
      current.modify slot.tempresults fun entries => entries.set 0 0xcece)
    heap

theorem moveToPathQueue_eq (slots : List QueueSlot) (state : ResumeState) :
    moveToPathQueue slots state =
      { heap := writeMarks
          (slots.take (MAXQUEUESIZE - state.pathqueue.length)) state.heap
        pathqueue := state.pathqueue ++
          slots.take (MAXQUEUESIZE - state.pathqueue.length)
        overflowqueue := state.overflowqueue
        addedToQueue := state.addedToQueue +
          min slots.length (MAXQUEUESIZE - state.pathqueue.length) } := by
  induction slots generalizing state with
  | nil => simp [moveToPathQueue, writeMarks]
  | cons slot rest ih =>
    rw [moveToPathQueue]
    by_cases hroom : state.pathqueue.length < MAXQUEUESIZE
    · obtain ⟨room, hroomEq⟩ : ∃ room,
          MAXQUEUESIZE - state.pathqueue.length = room + 1 :=
        ⟨MAXQUEUESIZE - state.pathqueue.length - 1, by omega⟩
      have hnext : MAXQUEUESIZE - (state.pathqueue.length + 1) = room := by
        omega
      have hlength : (state.pathqueue ++ [slot]).length =
          state.pathqueue.length + 1 := by
        simp
      have hadded : state.addedToQueue + 1 + min rest.length room =
          state.addedToQueue + min (rest.length + 1) (room + 1) := by
        omega
      rw [if_pos hroom, ih]
      simp only [hlength, hnext, hroomEq, hadded, take_succ_cons, length_cons,
        writeMarks, foldl_cons, append_assoc, singleton_append]
    · have hzero : MAXQUEUESIZE - state.pathqueue.length = 0 := by omega
      rw [if_neg hroom, hzero]
      simp [writeMarks]

def marked (element : PathQueueElement) : PathQueueElement :=
  { element with tempresults := element.tempresults.set 0 0xcece }

theorem getD_writeMarks (slots : List QueueSlot) (heap : Heap) (ref : ℕ) :
    (writeMarks slots heap).getD ref [] =
      if ref ∈ slots.map QueueSlot.tempresults then
        (heap.getD ref []).set 0 0xcece
      else
        heap.getD ref [] := by
  induction slots generalizing heap with
  | nil => simp [writeMarks]
  | cons slot rest ih =>
    have hwrite : (heap.modify slot.tempresults
        fun entries => entries.set 0 0xcece).getD ref [] =
        if ref = slot.tempresults then (heap.getD ref []).set 0 0xcece
        else heap.getD ref [] := by
      rw [getD_eq_getElem?_getD, getElem?_modify, getD_eq_getElem?_getD]
      by_cases href : slot.tempresults = ref
      · subst href
        cases heap[slot.tempresults]? <;> simp
      · rw [if_neg (Ne.symm href)]
        cases heap[ref]? <;> simp [href]
    change (writeMarks rest (heap.modify _ _)).getD ref [] = _
    rw [ih, hwrite]
    by_cases hhead : ref = slot.tempresults
    · simp [hhead]
    · simp [hhead]

theorem element_writeMarks_of_mem {slots : List QueueSlot} {slot : QueueSlot}
    (hslot : slot ∈ slots) (heap : Heap) :
    slot.element (writeMarks slots heap) = marked (slot.element heap) := by
  have hmem : slot.tempresults ∈ slots.map QueueSlot.tempresults :=
    mem_map_of_mem hslot
  simp only [QueueSlot.element, marked, getD_writeMarks, if_pos hmem]

theorem element_writeMarks_of_not_mem {slots : List QueueSlot}
    {slot : QueueSlot}
    (hslot : slot.tempresults ∉ slots.map QueueSlot.tempresults)
    (heap : Heap) :
    slot.element (writeMarks slots heap) = slot.element heap := by
  simp only [QueueSlot.element, getD_writeMarks, if_neg hslot]

/-! ## The work that is restored -/

/-- The part of an element that decides what a worker does with it. -/
structure Work where
  startlevel : Int32
  valuetofind : UInt64
  tempresults : List UInt32
  valuelist : List UInt64
deriving DecidableEq

def work (settings : QueueSettings) (element : PathQueueElement) : Work where
  startlevel := element.startlevel
  valuetofind := element.valuetofind
  tempresults := element.tempresults.take element.startlevel.toNatClampNeg
  valuelist := if settings.noLoop then element.valuelist else []

def ResumeState.paths (state : ResumeState) : List PathQueueElement :=
  (state.pathqueue ++ state.overflowqueue).map (QueueSlot.element state.heap)

def RestoresWork (queues : ScanQueues settings)
    (result : Except String ResumeState) : Prop :=
  ∃ state, result = .ok state ∧
    (state.paths.map (work settings)).Perm
      (queues.paths.map (work settings))

/-- The elements that resuming moves to the path queue: the end of the list in
the order of its sort by start level. -/
def movedElements (elements : List PathQueueElement) :
    List PathQueueElement :=
  (sortByLevel PathQueueElement.startlevel elements).reverse.take MAXQUEUESIZE

/-- Overwriting the first offset with `$cece` does no harm. -/
def SurvivesMark (element : PathQueueElement) : Prop :=
  element.startlevel.toNatClampNeg = 0 ∨
    element.tempresults.head? = some 0xcece

theorem work_transmitted (element : PathQueueElement) :
    work settings (element.transmitted settings) = work settings element := by
  unfold work PathQueueElement.transmitted
  cases settings.noLoop <;> rfl

theorem survivesMark_iff (hsized : element.Sized settings) :
    SurvivesMark element ↔
      (work settings element).tempresults.headD 0xcece = 0xcece := by
  obtain ⟨first, rest, hcons⟩ : ∃ first rest,
      element.tempresults = first :: rest := by
    apply exists_cons_of_length_pos
    rw [hsized.tempresults_length]
    exact Nat.succ_pos _
  unfold SurvivesMark work
  cases hlevel : element.startlevel.toNatClampNeg with
  | zero => simp
  | succ level => simp [hcons]

theorem work_marked_head (element : PathQueueElement) :
    (work settings (marked element)).tempresults.headD 0xcece = 0xcece := by
  unfold work marked
  cases element.tempresults with
  | nil => simp
  | cons first rest =>
    cases element.startlevel.toNatClampNeg with
    | zero => simp
    | succ level => simp

theorem SurvivesMark.work_marked (hsurvives : SurvivesMark element) :
    work settings (marked element) = work settings element := by
  have htemp : (element.tempresults.set 0 0xcece).take
      element.startlevel.toNatClampNeg =
      element.tempresults.take element.startlevel.toNatClampNeg := by
    rcases hsurvives with hlevel | hhead
    · rw [hlevel, take_zero, take_zero]
    · obtain ⟨rest, hcons⟩ := head?_eq_some_iff.mp hhead
      rw [hcons, set_cons_zero]
  simp only [work, marked, htemp]

theorem perm_marked_iff {elements : List PathQueueElement}
    (hsized : ∀ element ∈ elements, element.Sized settings) :
    (elements.map (work settings ∘ marked)).Perm
        (elements.map (work settings)) ↔
      ∀ element ∈ elements, SurvivesMark element := by
  constructor
  · intro hperm element hmem
    have hmarked : work settings element ∈
        elements.map (work settings ∘ marked) :=
      hperm.mem_iff.mpr (mem_map_of_mem hmem)
    obtain ⟨source, _, hsource⟩ := mem_map.mp hmarked
    rw [survivesMark_iff (hsized element hmem), ← hsource]
    exact work_marked_head source
  · intro hsurvives
    have hsame : elements.map (work settings ∘ marked) =
        elements.map (work settings) := by
      apply map_congr_left
      intro element hmem
      exact (hsurvives element hmem).work_marked
    rw [hsame]

theorem ScanQueues.paths_sized (queues : ScanQueues settings) :
    ∀ element ∈ queues.paths, element.Sized settings := by
  intro element hmem
  rcases mem_append.mp hmem with hlive | hoverflow
  · exact queues.pathqueue.slots_sized element (mem_of_mem_take hlive)
  · exact queues.overflow_sized element hoverflow

def savedElements (queues : ScanQueues settings) : List PathQueueElement :=
  if 0 < queues.pathqueue.pathqueuelength then queues.paths else []

theorem resumeQueueFile_eq (queues : ScanQueues settings) :
    resumeQueueFile queues =
      writeDWord (UInt32.ofNat settings.maxlevel) ++
        (savedElements queues).flatMap (saveElement settings) := by
  unfold resumeQueueFile saveAndClearQueue savedElements
  split
  · rw [ScanQueues.paths, flatMap_append]
  · rfl

theorem readDWord_maxlevel (settings : QueueSettings) (rest : List UInt8) :
    readDWord (writeDWord (UInt32.ofNat settings.maxlevel) ++ rest) =
        .ok (UInt32.ofNat settings.maxlevel, rest) ∧
      (UInt32.ofNat settings.maxlevel).toNat = settings.maxlevel := by
  refine ⟨reads_readDWord _ rest, ?_⟩
  have hlt := settings.maxlevel_lt
  rw [UInt32.toNat_ofNat', Nat.mod_eq_of_lt (by omega)]

theorem length_le_flatMap_saveElement :
    elements.length ≤ (elements.flatMap (saveElement settings)).length := by
  induction elements with
  | nil => simp
  | cons element rest ih =>
    have hpositive : 0 < (saveElement settings element).length :=
      length_pos_of_ne_nil (saveElement_ne_nil element)
    simp only [flatMap_cons, length_append, length_cons]
    omega

theorem sortedSlots_element :
    (sortedSlots elements).map
        (QueueSlot.element (elements.map PathQueueElement.tempresults)) =
      sortByLevel PathQueueElement.startlevel elements := by
  have hmap := sortByLevel_map
    (QueueSlot.element (elements.map PathQueueElement.tempresults))
    PathQueueElement.startlevel (allocate elements)
  rw [allocate_element] at hmap
  exact hmap

theorem sortedSlots_refs_nodup :
    ((sortedSlots elements).map QueueSlot.tempresults).Nodup := by
  have hperm : (sortedSlots elements).Perm (allocate elements) :=
    sortByLevel_perm _ _
  exact (hperm.map QueueSlot.tempresults).nodup_iff.mpr
    (allocate_refs_nodup elements)

theorem fillPathQueue_eq :
    fillPathQueue elements =
      { heap := writeMarks ((sortedSlots elements).reverse.take MAXQUEUESIZE)
          (elements.map PathQueueElement.tempresults)
        pathqueue := (sortedSlots elements).reverse.take MAXQUEUESIZE
        overflowqueue := (sortedSlots elements).take
          ((sortedSlots elements).length - MAXQUEUESIZE)
        addedToQueue := min (sortedSlots elements).length MAXQUEUESIZE } := by
  have hcut : (sortedSlots elements).length -
      min (sortedSlots elements).length MAXQUEUESIZE =
      (sortedSlots elements).length - MAXQUEUESIZE := by
    omega
  simp only [fillPathQueue, moveToPathQueue_eq, length_nil,
    length_reverse, Nat.sub_zero, nil_append, Nat.zero_add, hcut]

theorem fillPathQueue_paths :
    (fillPathQueue elements).paths =
      (movedElements elements).map marked ++
        (sortByLevel PathQueueElement.startlevel elements).take
          ((sortByLevel PathQueueElement.startlevel elements).length -
            MAXQUEUESIZE) := by
  set slots := sortedSlots elements with hslots
  set heap := elements.map PathQueueElement.tempresults with hheap
  have helement : slots.map (QueueSlot.element heap) =
      sortByLevel PathQueueElement.startlevel elements :=
    sortedSlots_element elements
  have hsplit : slots.reverse.take MAXQUEUESIZE =
      (slots.drop (slots.length - MAXQUEUESIZE)).reverse :=
    take_reverse
  have hmoved : (slots.reverse.take MAXQUEUESIZE).map
      (QueueSlot.element (writeMarks (slots.reverse.take MAXQUEUESIZE) heap)) =
      (movedElements elements).map marked := by
    rw [movedElements, ← helement, ← map_reverse, ← map_take, map_map]
    apply map_congr_left
    intro slot hslot
    exact element_writeMarks_of_mem hslot heap
  have hkept : (slots.take (slots.length - MAXQUEUESIZE)).map
      (QueueSlot.element (writeMarks (slots.reverse.take MAXQUEUESIZE) heap)) =
      (slots.take (slots.length - MAXQUEUESIZE)).map
        (QueueSlot.element heap) := by
    apply map_congr_left
    intro slot hslot
    apply element_writeMarks_of_not_mem
    intro hshared
    have hnodup := sortedSlots_refs_nodup elements
    rw [← hslots, ← take_append_drop (slots.length - MAXQUEUESIZE) slots,
      map_append] at hnodup
    rw [hsplit, map_reverse, mem_reverse] at hshared
    exact (nodup_append.mp hnodup).2.2 _ (mem_map_of_mem hslot) _
      hshared rfl
  rw [fillPathQueue_eq, ResumeState.paths, ← hslots, ← hheap, map_append,
    hmoved, hkept, map_take, helement, ← helement, length_map]

theorem movedElements_append_perm :
    (movedElements elements ++
      (sortByLevel PathQueueElement.startlevel elements).take
        ((sortByLevel PathQueueElement.startlevel elements).length -
          MAXQUEUESIZE)).Perm elements := by
  set sorted := sortByLevel PathQueueElement.startlevel elements with hsorted
  rw [movedElements, ← hsorted, take_reverse]
  calc
    ((sorted.drop (sorted.length - MAXQUEUESIZE)).reverse ++
        sorted.take (sorted.length - MAXQUEUESIZE)).Perm
        (sorted.drop (sorted.length - MAXQUEUESIZE) ++
          sorted.take (sorted.length - MAXQUEUESIZE)) :=
      (reverse_perm _).append_right _
    _ |>.Perm (sorted.take (sorted.length - MAXQUEUESIZE) ++
        sorted.drop (sorted.length - MAXQUEUESIZE)) :=
      perm_append_comm
    _ |>.Perm sorted := by
      rw [take_append_drop]
    _ |>.Perm elements := sortByLevel_perm _ _

theorem movedElements_transmitted :
    movedElements (elements.map (PathQueueElement.transmitted settings)) =
      (movedElements elements).map
        (PathQueueElement.transmitted settings) := by
  have hsort := sortByLevel_map (PathQueueElement.transmitted settings)
    PathQueueElement.startlevel elements
  rw [movedElements, ← hsort, movedElements, map_take, map_reverse]
  rfl

/-- The work in the queues after resuming from a file of the elements is the
original work exactly when every moved element survives its mark. -/
theorem fillPathQueue_restores_iff {elements : List PathQueueElement}
    (hsized : ∀ element ∈ elements, element.Sized settings) :
    (((fillPathQueue (elements.map
        (PathQueueElement.transmitted settings))).paths).map
          (work settings)).Perm (elements.map (work settings)) ↔
      ∀ element ∈ movedElements elements, SurvivesMark element := by
  set loaded := elements.map (PathQueueElement.transmitted settings)
    with hloaded
  have hwork : loaded.map (work settings) = elements.map (work settings) := by
    rw [hloaded, map_map]
    apply map_congr_left
    intro element _
    exact work_transmitted element
  have hmovedSized : ∀ element ∈ movedElements elements,
      element.Sized settings := by
    intro element hmem
    apply hsized
    exact (sortByLevel_perm _ _).mem_iff.mp
      (mem_reverse.mp (mem_of_mem_take hmem))
  have hmarked : ((movedElements loaded).map marked).map (work settings) =
      (movedElements elements).map (work settings ∘ marked) := by
    rw [hloaded, movedElements_transmitted, map_map, map_map]
    apply map_congr_left
    intro element _
    exact work_transmitted (marked element)
  have hplain : (movedElements loaded).map (work settings) =
      (movedElements elements).map (work settings) := by
    rw [hloaded, movedElements_transmitted, map_map]
    apply map_congr_left
    intro element _
    exact work_transmitted element
  have hperm := (movedElements_append_perm loaded).map (work settings)
  rw [map_append, hplain, hwork] at hperm
  rw [fillPathQueue_paths, map_append, hmarked, ← perm_marked_iff hmovedSized]
  constructor
  · intro hrestored
    exact (perm_append_right_iff _).mp (hrestored.trans hperm.symm)
  · intro hsame
    exact (hsame.append_right _).trans hperm

theorem setupQueueForResume_run (offsetcountperlist : Int32) :
    setupQueueForResume settings offsetcountperlist
        (writeDWord (UInt32.ofNat settings.maxlevel) ++
          elements.flatMap (saveElement settings)) =
      (loadElements settings offsetcountperlist
        (writeDWord (UInt32.ofNat settings.maxlevel) ++
          elements.flatMap (saveElement settings)).length
        (elements.flatMap (saveElement settings)).length
        (elements.flatMap (saveElement settings)) >>=
          fun result => pure (fillPathQueue result.1)) := by
  obtain ⟨hheader, hmaxlevel⟩ := readDWord_maxlevel settings
    (elements.flatMap (saveElement settings))
  have hsame : ¬ (UInt32.ofNat settings.maxlevel).toNat ≠
      settings.maxlevel := by
    simp [hmaxlevel]
  rw [setupQueueForResume, hheader]
  change (if _ then _ else _) = _
  rw [if_neg hsame]

theorem setupQueueForResume_ok {elements : List PathQueueElement}
    (hsized : ∀ element ∈ elements, element.Sized settings)
    (hlevel : ∀ element ∈ elements, ¬ offsetcountperlist < element.startlevel) :
    setupQueueForResume settings offsetcountperlist
        (writeDWord (UInt32.ofNat settings.maxlevel) ++
          elements.flatMap (saveElement settings)) =
      .ok (fillPathQueue
        (elements.map (PathQueueElement.transmitted settings))) := by
  rw [setupQueueForResume_run, loadElements_ok hsized hlevel _ _
    (length_le_flatMap_saveElement elements)]
  rfl

theorem setupQueueForResume_error {elements : List PathQueueElement}
    (hsized : ∀ element ∈ elements, element.Sized settings)
    (hlevel : ∃ element ∈ elements, offsetcountperlist < element.startlevel) :
    ∃ message, setupQueueForResume settings offsetcountperlist
        (writeDWord (UInt32.ofNat settings.maxlevel) ++
          elements.flatMap (saveElement settings)) = .error message := by
  obtain ⟨message, herror⟩ := loadElements_error hsized hlevel
    (writeDWord (UInt32.ofNat settings.maxlevel) ++
      elements.flatMap (saveElement settings)).length _
    (length_le_flatMap_saveElement elements)
  refine ⟨message, ?_⟩
  rw [setupQueueForResume_run, herror]
  rfl

theorem restoresWork_iff_of_saved {queues : ScanQueues settings}
    (hsaved : savedElements queues = queues.paths) :
    RestoresWork queues (setupQueueForResume settings offsetcountperlist
        (resumeQueueFile queues)) ↔
      (∀ element ∈ queues.paths, ¬ offsetcountperlist < element.startlevel) ∧
      ∀ element ∈ movedElements queues.paths, SurvivesMark element := by
  rw [resumeQueueFile_eq, hsaved]
  by_cases hlevel : ∀ element ∈ queues.paths,
      ¬ offsetcountperlist < element.startlevel
  · have hresume := setupQueueForResume_ok queues.paths_sized hlevel
    rw [hresume, ← fillPathQueue_restores_iff queues.paths_sized]
    constructor
    · rintro ⟨state, hstate, hperm⟩
      cases hstate
      exact ⟨hlevel, hperm⟩
    · rintro ⟨_, hperm⟩
      exact ⟨_, rfl, hperm⟩
  · have habove : ∃ element ∈ queues.paths,
        offsetcountperlist < element.startlevel := by
      simpa using hlevel
    obtain ⟨message, herror⟩ :=
      setupQueueForResume_error queues.paths_sized habove
    constructor
    · rintro ⟨state, hstate, _⟩
      rw [herror] at hstate
      cases hstate
    · intro hcondition
      exact absurd hcondition.1 hlevel

/-- Resuming restores the work exactly when the path queue is not empty while
the overflow queue is not, no element is above the bound that was never set,
and every element that is moved to the path queue survives the overwriting of
its first offset. -/
theorem setupQueueForResume_restores_iff (queues : ScanQueues settings)
    (offsetcountperlist : Int32) :
    RestoresWork queues (setupQueueForResume settings offsetcountperlist
        (resumeQueueFile queues)) ↔
      (queues.pathqueue.pathqueuelength = 0 → queues.overflowqueue = []) ∧
      (∀ element ∈ queues.paths, ¬ offsetcountperlist < element.startlevel) ∧
      ∀ element ∈ movedElements queues.paths, SurvivesMark element := by
  by_cases hpositive : 0 < queues.pathqueue.pathqueuelength
  · have hsaved : savedElements queues = queues.paths := if_pos hpositive
    have hnonempty : queues.pathqueue.pathqueuelength = 0 →
        queues.overflowqueue = [] := by
      intro hzero
      omega
    rw [restoresWork_iff_of_saved hsaved]
    exact (and_iff_right hnonempty).symm
  · have hzero : queues.pathqueue.pathqueuelength = 0 := by omega
    have hlive : queues.pathqueue.live = [] := by
      rw [MainPathQueue.live, hzero, take_zero]
    by_cases hoverflow : queues.overflowqueue = []
    · have hpaths : queues.paths = [] := by
        rw [ScanQueues.paths, hlive, hoverflow, append_nil]
      have hsaved : savedElements queues = queues.paths := by
        rw [savedElements, if_neg hpositive, hpaths]
      rw [restoresWork_iff_of_saved hsaved]
      exact (and_iff_right fun _ => hoverflow).symm
    · have hsaved : savedElements queues = [] := if_neg hpositive
      have hresume : setupQueueForResume settings offsetcountperlist
          (writeDWord (UInt32.ofNat settings.maxlevel) ++
            [].flatMap (saveElement settings)) = .ok (fillPathQueue []) :=
        setupQueueForResume_ok (by simp) (by simp)
      constructor
      · rintro ⟨state, hstate, hperm⟩
        rw [resumeQueueFile_eq, hsaved, hresume] at hstate
        cases hstate
        rw [fillPathQueue_paths] at hperm
        have hlength := hperm.length_eq
        have hempty : queues.overflowqueue.length = 0 := by
          simpa [ScanQueues.paths, hlive, movedElements, sortByLevel]
            using hlength.symm
        exact absurd (length_eq_zero_iff.mp hempty) hoverflow
      · intro hcondition
        exact absurd (hcondition.1 hzero) hoverflow

/-- One queued path that already has the offset `$10` at level 0. -/
def oneOffsetQueues : ScanQueues ⟨1, false, by decide⟩ where
  pathqueue :=
    { slots := List.replicate MAXQUEUESIZE ⟨[0x10, 0], [], 0x1000, 1⟩
      pathqueuelength := 1
      slots_length := length_replicate
      slots_sized := by
        intro element hmem
        rw [eq_of_mem_replicate hmem]
        exact ⟨rfl, by simp⟩
      pathqueuelength_le := by decide }
  overflowqueue := []
  overflow_sized := by simp

theorem resume_loses_first_offset :
    ¬ RestoresWork oneOffsetQueues
      (setupQueueForResume ⟨1, false, by decide⟩ 1
        (resumeQueueFile oneOffsetQueues)) := by
  rw [restoresWork_iff_of_saved rfl]
  rintro ⟨_, hsurvives⟩
  have hmoved : (⟨[0x10, 0], [], 0x1000, 1⟩ : PathQueueElement) ∈
      movedElements oneOffsetQueues.paths := by
    decide
  rcases hsurvives _ hmoved with hlevel | hhead
  · exact absurd hlevel (by decide)
  · exact absurd hhead (by decide)

end Resume
end Pointerscan
end CheatEngine
