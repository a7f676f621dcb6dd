import CheatEngine.PointerscanStructures

/-!
# Building a list of paths for transmission

`BuildPathListForTransmission` takes paths out of both queues so that they can
be sent to the other side of a connection.  It first takes the best path of
the main queue, then the end of the overflow queue, and then goes through the
main queue from the top, where every entry has to be locked by a semaphore
wait that does not block.  The outcomes of those waits depend on the workers
and are an argument of the model: `waits k` is the outcome of wait number `k`.
-/

namespace CheatEngine
namespace Pointerscan

open List

variable {settings : QueueSettings}

namespace MainPathQueue

@[ext] theorem ext {first second : MainPathQueue settings}
    (hslots : first.slots = second.slots)
    (hlength : first.pathqueuelength = second.pathqueuelength) :
    first = second := by
  cases first
  cases second
  simp_all

def giveNewArrays (queue : MainPathQueue settings) (index : ℕ) :
    MainPathQueue settings where
  slots := queue.slots.set index ((queue.slot index).newArrays settings)
  pathqueuelength := queue.pathqueuelength
  slots_length := by
    rw [length_set]
    exact queue.slots_length
  slots_sized := by
    intro element hmem
    rcases mem_or_eq_of_mem_set hmem with hold | hnew
    · exact queue.slots_sized element hold
    · rw [hnew]
      exact PathQueueElement.newArrays_sized _ _
  pathqueuelength_le := queue.pathqueuelength_le

variable (queue : MainPathQueue settings) (count : ℕ)

theorem giveNewArrays_eq (index : ℕ) : queue.giveNewArrays index = queue := by
  apply MainPathQueue.ext
  · by_cases hindex : index < queue.slots.length
    · have hsame : (queue.slot index).newArrays settings =
          queue.slots[index] := by
        rw [(queue.slot_sized hindex).newArrays_eq,
          queue.slot_eq_getElem hindex]
      simp only [giveNewArrays, hsame, set_getElem_self]
    · exact set_eq_of_length_le (by omega)
  · rfl

def shorten (queue : MainPathQueue settings) (count : ℕ) :
    MainPathQueue settings where
  slots := queue.slots
  pathqueuelength := queue.pathqueuelength - count
  slots_length := queue.slots_length
  slots_sized := queue.slots_sized
  pathqueuelength_le := by
    have hle := queue.pathqueuelength_le
    omega

@[simp] theorem shorten_slot (index : ℕ) :
    (queue.shorten count).slot index = queue.slot index := rfl

@[simp] theorem shorten_pathqueuelength :
    (queue.shorten count).pathqueuelength =
      queue.pathqueuelength - count := rfl

@[simp] theorem shorten_zero : queue.shorten 0 = queue := rfl

theorem shorten_shorten (first second : ℕ) :
    (queue.shorten first).shorten second =
      queue.shorten (first + second) := by
  apply MainPathQueue.ext
  · rfl
  · simp only [shorten_pathqueuelength]
    omega

theorem shorten_live :
    (queue.shorten count).live =
      queue.live.take (queue.pathqueuelength - count) := by
  simp only [live, shorten, take_take]
  congr 1
  omega

theorem slot_eq_live_getElem {index : ℕ} (hindex : index < queue.live.length) :
    queue.slot index = queue.live[index] := by
  have hlive := queue.live_length
  rw [queue.slot_eq_getElem (queue.lt_slots_length (by omega))]
  simp [live]

/-- `for i:=0 to count-1 do pathqueue[i]:=pathqueue[i+1]`. -/
def shiftSlots (slots : List PathQueueElement) (count : ℕ) :
    List PathQueueElement :=
  (List.range count).foldl
    (fun current index => current.set index (current.getD (index + 1) default))
    slots

theorem shiftSlots_succ (slots : List PathQueueElement) (count : ℕ) :
    shiftSlots slots (count + 1) =
      (shiftSlots slots count).set count
        ((shiftSlots slots count).getD (count + 1) default) := by
  simp [shiftSlots, range_succ]

theorem shiftSlots_eq (slots : List PathQueueElement) (count : ℕ)
    (hcount : count < slots.length) :
    shiftSlots slots count = slots.tail.take count ++ slots.drop count := by
  induction count with
  | zero => simp [shiftSlots]
  | succ count ih =>
    have hbefore := ih (by omega)
    have htail : count < slots.tail.length := by
      simp only [length_tail]
      omega
    have hpart : (slots.tail.take count).length = count := by
      simp only [length_take]
      omega
    have hnext : (shiftSlots slots count).getD (count + 1) default =
        slots.tail[count] := by
      rw [hbefore, getD_eq_getElem?_getD,
        getElem?_append_right (by omega), hpart]
      simp [hcount]
    have hdrop : slots.drop count = slots[count] :: slots.drop (count + 1) :=
      drop_eq_getElem_cons (by omega)
    rw [shiftSlots_succ, hnext, hbefore, set_append_right _ _ (by omega),
      hpart, Nat.sub_self, hdrop, set_cons_zero, ← take_concat_get' _ _ htail,
      append_assoc]
    rfl

theorem mem_of_mem_shiftSlots {slots : List PathQueueElement} {count : ℕ}
    {element : PathQueueElement} (hcount : count < slots.length)
    (hmem : element ∈ shiftSlots slots count) :
    element ∈ slots := by
  rw [shiftSlots_eq slots count hcount] at hmem
  rcases mem_append.mp hmem with htail | hdrop
  · exact mem_of_mem_tail (mem_of_mem_take htail)
  · exact mem_of_mem_drop hdrop

def removeFirst (queue : MainPathQueue settings) :
    MainPathQueue settings :=
  let shifted : MainPathQueue settings :=
    { slots := shiftSlots queue.slots (queue.pathqueuelength - 1)
      pathqueuelength := queue.pathqueuelength
      slots_length := by
        have hslots := queue.slots_length
        have hle := queue.pathqueuelength_le
        have hpositive : 0 < MAXQUEUESIZE := by decide
        rw [shiftSlots_eq _ _ (by omega)]
        simp only [length_append, length_take, length_tail, length_drop]
        omega
      slots_sized := by
        intro element hmem
        have hslots := queue.slots_length
        have hle := queue.pathqueuelength_le
        have hpositive : 0 < MAXQUEUESIZE := by decide
        exact queue.slots_sized element
          (mem_of_mem_shiftSlots (by omega) hmem)
      pathqueuelength_le := queue.pathqueuelength_le }
  (shifted.giveNewArrays (queue.pathqueuelength - 1)).shorten 1

@[simp] theorem removeFirst_pathqueuelength :
    queue.removeFirst.pathqueuelength = queue.pathqueuelength - 1 := rfl

theorem removeFirst_live : queue.removeFirst.live = queue.live.tail := by
  have hslots := queue.slots_length
  have hle := queue.pathqueuelength_le
  have hpositive : 0 < MAXQUEUESIZE := by decide
  have hcount : queue.pathqueuelength - 1 < queue.slots.length := by omega
  have htail : (queue.slots.tail.take (queue.pathqueuelength - 1)).length =
      queue.pathqueuelength - 1 := by
    simp only [length_take, length_tail]
    omega
  rw [removeFirst, giveNewArrays_eq]
  simp only [live, shorten, shiftSlots_eq _ _ hcount]
  rw [take_append_of_le_length (by omega), take_take,
    Nat.min_self, ← drop_one, ← drop_one, drop_take]

end MainPathQueue

structure BuildState (settings : QueueSettings) where
  paths : List PathQueueElement
  actualcount : ℕ
  queue : MainPathQueue settings
  overflowqueue : List PathQueueElement
  waited : ℕ

def clampCount (count : ℤ) : ℕ :=
  if count < 0 then 0 else if count > 65535 then 65535 else count.toNat

namespace BuildState

/-- `setlength(paths, count); actualcount:=0`. -/
def start (queue : MainPathQueue settings)
    (overflowqueue : List PathQueueElement) (count : ℕ) :
    BuildState settings where
  paths := List.replicate count default
  actualcount := 0
  queue := queue
  overflowqueue := overflowqueue
  waited := 0

/-- `paths[actualcount]:=element; inc(actualcount)`.  A write past the
allocated list is an access violation. -/
def store (state : BuildState settings) (element : PathQueueElement) :
    Except String (BuildState settings) :=
  if state.actualcount < state.paths.length then
    .ok { state with
      paths := state.paths.set state.actualcount element
      actualcount := state.actualcount + 1 }
  else
    .error "Access violation"

/-- `WaitForSingleObject(pathqueueSemaphore, 0)=WAIT_OBJECT_0` advances to
the next outcome. -/
def countWait (state : BuildState settings) : BuildState settings :=
  { state with waited := state.waited + 1 }

def takeVeryGoodPath (includeVeryGoodPath : Bool) (waits : ℕ → Bool)
    (state : BuildState settings) : Except String (BuildState settings) :=
  if includeVeryGoodPath && decide (0 < state.queue.pathqueuelength) then
    if waits state.waited then do
      let stored ← state.countWait.store (state.queue.slot 0)
      return { stored with queue := stored.queue.removeFirst }
    else
      return state.countWait
  else
    return state

/-- The loop over the overflow queue; the first argument is the number of
entries the loop has not visited yet. -/
def takeOverflow (count : ℕ) :
    ℕ → ℕ → BuildState settings → Except String (ℕ × BuildState settings)
  | 0, c, state => return (c, state)
  | index + 1, c, state => do
      let stored ← state.store (state.overflowqueue.getD index default)
      if count ≤ stored.actualcount then
        return (c + 1, stored)
      else
        takeOverflow count index (c + 1) stored

def takeFromBack (count : ℕ) (waits : ℕ → Bool) :
    ℕ → BuildState settings → Except String (BuildState settings)
  | 0, state => return state
  | index + 1, state => do
      let next ←
        if waits state.waited then do
          let stored ← state.countWait.store (state.queue.slot index)
          pure { stored with
            queue := (stored.queue.giveNewArrays index).shorten 1 }
        else
          pure state.countWait
      if count ≤ next.actualcount then
        return next
      else
        takeFromBack count waits index next

def getRidOfOverflow (count : ℕ) (state : BuildState settings) :
    Except String (BuildState settings) := do
  let (c, taken) ← takeOverflow count state.overflowqueue.length 0 state
  return { taken with
    overflowqueue :=
      taken.overflowqueue.take (taken.overflowqueue.length - c) }

/-- Get the rest from the static path queue; a list that could not be filled
is cut to the paths it got. -/
def getFromPathqueue (count : ℕ) (waits : ℕ → Bool)
    (state : BuildState settings) : Except String (BuildState settings) := do
  let taken ← takeFromBack count waits state.queue.pathqueuelength state
  if taken.actualcount < count then
    return { taken with paths := taken.paths.take taken.actualcount }
  else
    return taken

end BuildState

open BuildState in
def buildPathListForTransmission (queue : MainPathQueue settings)
    (overflowqueue : List PathQueueElement) (requested : ℤ)
    (includeVeryGoodPath : Bool) (waits : ℕ → Bool) :
    Except String (BuildState settings) := do
  let count := clampCount requested
  let first ← takeVeryGoodPath includeVeryGoodPath waits
    (start queue overflowqueue count)
  if count ≤ first.actualcount then
    return first
  let second ← getRidOfOverflow count first
  if count ≤ second.actualcount then
    return second
  getFromPathqueue count waits second

/-! ## What each loop takes -/

namespace BuildState

structure Holding (count : ℕ) (collected : List PathQueueElement)
    (state : BuildState settings) : Prop where
  paths_eq : state.paths =
    collected ++ List.replicate (count - collected.length) default
  actualcount_eq : state.actualcount = collected.length
  length_le : collected.length ≤ count

@[simp] theorem countWait_queue (state : BuildState settings) :
    state.countWait.queue = state.queue := rfl

@[simp] theorem countWait_overflowqueue (state : BuildState settings) :
    state.countWait.overflowqueue = state.overflowqueue := rfl

@[simp] theorem countWait_waited (state : BuildState settings) :
    state.countWait.waited = state.waited + 1 := rfl

variable {state : BuildState settings} {count : ℕ}
  {collected : List PathQueueElement}

section

variable (hholding : state.Holding count collected)

include hholding

theorem Holding.countWait :
    state.countWait.Holding count collected where
  paths_eq := hholding.paths_eq
  actualcount_eq := hholding.actualcount_eq
  length_le := hholding.length_le

theorem Holding.paths_of_full (hfull : count ≤ state.actualcount) :
    state.paths = collected := by
  rw [hholding.actualcount_eq] at hfull
  rw [hholding.paths_eq, Nat.sub_eq_zero_of_le hfull, replicate_zero,
    append_nil]

theorem Holding.store (hroom : collected.length < count)
    (element : PathQueueElement) :
    ∃ stored, state.store element = .ok stored ∧
      stored.Holding count (collected ++ [element]) ∧
      stored.queue = state.queue ∧
      stored.overflowqueue = state.overflowqueue ∧
      stored.waited = state.waited := by
  have hbound : state.actualcount < state.paths.length := by
    rw [hholding.paths_eq, hholding.actualcount_eq]
    simp only [length_append, length_replicate]
    omega
  have hreplicate : List.replicate (count - collected.length)
      (default : PathQueueElement) =
      default :: List.replicate (count - (collected.length + 1)) default := by
    rw [← replicate_succ]
    congr 1
    omega
  refine ⟨{ state with
    paths := state.paths.set state.actualcount element
    actualcount := state.actualcount + 1 },
    if_pos hbound, ?_, rfl, rfl, rfl⟩
  constructor
  · change state.paths.set state.actualcount element = _
    rw [hholding.paths_eq, hholding.actualcount_eq, hreplicate,
      set_append_right _ _ (le_refl _), Nat.sub_self, set_cons_zero]
    simp
  · simp [hholding.actualcount_eq]
  · simpa using hroom

end

theorem Holding.takeOverflow (index c : ℕ)
    (hholding : state.Holding count collected)
    (hroom : collected.length < count)
    (hindex : index ≤ state.overflowqueue.length) :
    ∃ final, takeOverflow count index c state =
        .ok (c + min index (count - collected.length), final) ∧
      final.Holding count (collected ++
        (state.overflowqueue.take index).reverse.take
          (count - collected.length)) ∧
      final.queue = state.queue ∧
      final.overflowqueue = state.overflowqueue ∧
      final.waited = state.waited := by
  induction index generalizing c collected state with
  | zero =>
    refine ⟨state, by simp [BuildState.takeOverflow]; rfl, ?_, rfl, rfl, rfl⟩
    simpa using hholding
  | succ index ih =>
    have hget : state.overflowqueue.getD index default =
        state.overflowqueue[index] := by
      simp [getD_eq_getElem?_getD, Nat.lt_of_succ_le hindex]
    have hreverse : (state.overflowqueue.take (index + 1)).reverse =
        state.overflowqueue[index] ::
          (state.overflowqueue.take index).reverse := by
      rw [← take_concat_get' _ _ (by omega), reverse_append]
      rfl
    obtain ⟨stored, hstore, hstored, hqueue, hoverflow, hwaited⟩ :=
      hholding.store hroom (state.overflowqueue.getD index default)
    have hactual : stored.actualcount = collected.length + 1 := by
      simp [hstored.actualcount_eq]
    by_cases hfull : count ≤ collected.length + 1
    · have hone : count - collected.length = 1 := by omega
      refine ⟨stored, ?_, ?_, hqueue, hoverflow, hwaited⟩
      · have hmin : min (index + 1) (count - collected.length) = 1 := by
          omega
        rw [hmin, BuildState.takeOverflow, hstore]
        exact if_pos (by rw [hactual]; exact hfull)
      · rw [hreverse, hone, ← hget]
        exact hstored
    · obtain ⟨final, hrun, hfinal, hfqueue, hfoverflow, hfwaited⟩ :=
        ih (c + 1) hstored (by simp; omega) (by rw [hoverflow]; omega)
      have hrest : count - (collected ++
          [state.overflowqueue.getD index default]).length =
          count - collected.length - 1 := by
        simp only [length_append, length_singleton]
        omega
      refine ⟨final, ?_, ?_, hfqueue.trans hqueue,
        hfoverflow.trans hoverflow, hfwaited.trans hwaited⟩
      · have hmin : c + min (index + 1) (count - collected.length) =
            c + 1 + min index (count - collected.length - 1) := by
          omega
        rw [hmin, ← hrest, BuildState.takeOverflow, hstore]
        exact (if_neg (by rw [hactual]; exact hfull)).trans hrun
      · have htake : count - collected.length =
            (count - collected.length - 1) + 1 := by
          omega
        rw [hrest, hoverflow] at hfinal
        rw [hreverse, htake, take_succ_cons, ← hget]
        simpa using hfinal

end BuildState

/-- The main-queue indices, from the top down, whose wait succeeds before the
list is full: the arguments are the number of the next wait, the number of
entries not visited yet and the room left in the list. -/
def lockedIndices (waits : ℕ → Bool) : ℕ → ℕ → ℕ → List ℕ
  | _, 0, _ => []
  | _, _ + 1, 0 => []
  | waited, index + 1, room + 1 =>
    if waits waited then
      index :: lockedIndices waits (waited + 1) index room
    else
      lockedIndices waits (waited + 1) index (room + 1)

variable {final : BuildState settings} (queue : MainPathQueue settings)
  (requested : ℤ) (overflowqueue : List PathQueueElement) (waits : ℕ → Bool)

@[simp] theorem lockedIndices_no_room (waited size : ℕ) :
    lockedIndices waits waited size 0 = [] := by
  cases size <;> rfl

theorem lockedIndices_lt (waited size room : ℕ) :
    ∀ index ∈ lockedIndices waits waited size room, index < size := by
  induction size generalizing waited room with
  | zero => simp [lockedIndices]
  | succ size ih =>
    intro index hmem
    cases room with
    | zero => simp at hmem
    | succ room =>
      simp only [lockedIndices] at hmem
      split at hmem
      · rcases mem_cons.mp hmem with hhead | hrest
        · omega
        · have hlt := ih (waited + 1) room index hrest
          omega
      · have hlt := ih (waited + 1) (room + 1) index hmem
        omega

theorem lockedIndices_length_le (waited size room : ℕ) :
    (lockedIndices waits waited size room).length ≤ min size room := by
  induction size generalizing waited room with
  | zero => simp [lockedIndices]
  | succ size ih =>
    cases room with
    | zero => simp
    | succ room =>
      simp only [lockedIndices]
      split
      · have hrest := ih (waited + 1) room
        simp only [length_cons]
        omega
      · have hrest := ih (waited + 1) (room + 1)
        omega

namespace BuildState

theorem Holding.takeFromBack_step {count : ℕ}
    {collected : List PathQueueElement} {state : BuildState settings}
    (index : ℕ) (waits : ℕ → Bool) (hholding : state.Holding count collected)
    (hroom : collected.length < count) :
    ∃ next, takeFromBack count waits (index + 1) state =
        (if count ≤ next.actualcount then pure next
          else takeFromBack count waits index next) ∧
      next.waited = state.waited + 1 ∧
      next.overflowqueue = state.overflowqueue ∧
      (waits state.waited = true →
        next.queue = state.queue.shorten 1 ∧
        next.Holding count (collected ++ [state.queue.slot index])) ∧
      (waits state.waited = false →
        next.queue = state.queue ∧ next.Holding count collected) := by
  cases hwait : waits state.waited with
  | true =>
    obtain ⟨stored, hstore, hstored, hqueue, hoverflow, hwaited⟩ :=
      hholding.countWait.store hroom (state.queue.slot index)
    refine ⟨{ stored with
      queue := (stored.queue.giveNewArrays index).shorten 1 },
      ?_, hwaited, hoverflow, ?_, by simp⟩
    · simp only [BuildState.takeFromBack, hwait, if_true, hstore]
      rfl
    · intro _
      refine ⟨?_, ⟨hstored.paths_eq, hstored.actualcount_eq,
        hstored.length_le⟩⟩
      simp [MainPathQueue.giveNewArrays_eq, hqueue]
  | false =>
    refine ⟨state.countWait, ?_, rfl, rfl, by simp, ?_⟩
    · simp only [BuildState.takeFromBack, hwait]
      rfl
    · intro _
      exact ⟨rfl, hholding.countWait⟩

/-- The main-queue loop takes the locked entries, but always gives up the
topmost slots. -/
theorem Holding.takeFromBack {count : ℕ} (waits : ℕ → Bool) (index : ℕ)
    {collected : List PathQueueElement} {state : BuildState settings}
    (hholding : state.Holding count collected)
    (hroom : collected.length < count) :
    ∃ final, takeFromBack count waits index state = .ok final ∧
      final.Holding count (collected ++
        (lockedIndices waits state.waited index
          (count - collected.length)).map state.queue.slot) ∧
      final.queue = state.queue.shorten
        (lockedIndices waits state.waited index
          (count - collected.length)).length ∧
      final.overflowqueue = state.overflowqueue := by
  induction index generalizing collected state with
  | zero =>
    refine ⟨state, rfl, ?_, ?_, rfl⟩
    · simpa [lockedIndices] using hholding
    · simp [lockedIndices]
  | succ index ih =>
    obtain ⟨next, hrun, hwaited, hoverflow, htaken, hskipped⟩ :=
      hholding.takeFromBack_step index waits hroom
    obtain ⟨room, hroomEq⟩ : ∃ room, count - collected.length = room + 1 :=
      ⟨count - collected.length - 1, by omega⟩
    rw [hrun, hroomEq]
    cases hwait : waits state.waited with
    | true =>
      obtain ⟨hqueue, hnext⟩ := htaken hwait
      have hactual : next.actualcount = collected.length + 1 := by
        simp [hnext.actualcount_eq]
      have hlocked : lockedIndices waits state.waited (index + 1)
          (room + 1) =
          index :: lockedIndices waits (state.waited + 1) index room := by
        simp [lockedIndices, hwait]
      rw [hlocked]
      by_cases hfull : count ≤ next.actualcount
      · have hzero : room = 0 := by omega
        subst room
        refine ⟨next, by rw [if_pos hfull]; rfl, ?_, ?_, hoverflow⟩
        · simpa using hnext
        · simpa using hqueue
      · rw [if_neg hfull]
        obtain ⟨final, hfrun, hfinal, hfqueue, hfoverflow⟩ :=
          ih hnext (by simp; omega)
        have hrest : count - (collected ++
            [state.queue.slot index]).length = room := by
          simp only [length_append, length_singleton]
          omega
        rw [hrest, hwaited, hqueue] at hfinal hfqueue
        refine ⟨final, hfrun, ?_, ?_, hfoverflow.trans hoverflow⟩
        · have hslots : (state.queue.shorten 1).slot =
              state.queue.slot := rfl
          rw [hslots] at hfinal
          simpa using hfinal
        · rw [hfqueue, MainPathQueue.shorten_shorten, length_cons,
            Nat.add_comm]
    | false =>
      obtain ⟨hqueue, hnext⟩ := hskipped hwait
      have hactual : ¬ count ≤ next.actualcount := by
        rw [hnext.actualcount_eq]
        omega
      have hlocked : lockedIndices waits state.waited (index + 1)
          (room + 1) =
          lockedIndices waits (state.waited + 1) index (room + 1) := by
        simp [lockedIndices, hwait]
      rw [hlocked, if_neg hactual]
      obtain ⟨final, hfrun, hfinal, hfqueue, hfoverflow⟩ := ih hnext hroom
      rw [hroomEq, hwaited, hqueue] at hfinal hfqueue
      exact ⟨final, hfrun, hfinal, hfqueue, hfoverflow.trans hoverflow⟩

end BuildState

/-! ## Conservation -/

/-- Nothing was written outside the list, the list is not longer than asked
for, and the list and both queues together hold the paths they held before. -/
def Conserves (queue : MainPathQueue settings)
    (overflowqueue : List PathQueueElement) (requested : ℤ)
    (result : Except String (BuildState settings)) : Prop :=
  ∃ final, result = .ok final ∧
    final.paths.length ≤ requested.toNat ∧
    (final.paths ++ final.overflowqueue ++ final.queue.live).Perm
      (overflowqueue ++ queue.live)

section

variable (queue : MainPathQueue settings)
  (overflowqueue : List PathQueueElement) (requested : ℤ)
  (includeVeryGoodPath : Bool) (waits : ℕ → Bool)

def takesVeryGoodPath : Bool :=
  includeVeryGoodPath && decide (0 < queue.pathqueuelength) && waits 0

def veryGoodPaths : List PathQueueElement :=
  if takesVeryGoodPath queue includeVeryGoodPath waits then
    [queue.slot 0]
  else
    []

def queueAtLoop : MainPathQueue settings :=
  if takesVeryGoodPath queue includeVeryGoodPath waits then
    queue.removeFirst
  else
    queue

def waitsBeforeLoop : ℕ :=
  if includeVeryGoodPath && decide (0 < queue.pathqueuelength) then 1 else 0

def roomAtLoop : ℕ :=
  clampCount requested -
    (veryGoodPaths queue includeVeryGoodPath waits).length -
      overflowqueue.length

def lockedAtLoop : List ℕ :=
  lockedIndices waits (waitsBeforeLoop queue includeVeryGoodPath)
    (queueAtLoop queue includeVeryGoodPath waits).pathqueuelength
    (roomAtLoop queue overflowqueue requested includeVeryGoodPath waits)

def WritesToEmptyList : Prop :=
  requested ≤ 0 ∧ takesVeryGoodPath queue includeVeryGoodPath waits = true

/-- The entries whose wait succeeds are, up to order, the topmost ones. -/
def LocksTopEntries : Prop :=
  let start := queueAtLoop queue includeVeryGoodPath waits
  let locked :=
    lockedAtLoop queue overflowqueue requested includeVeryGoodPath waits
  (locked.map start.slot).Perm
    (start.live.drop (start.pathqueuelength - locked.length))

end

theorem clampCount_eq_zero_iff : clampCount requested = 0 ↔ requested ≤ 0 := by
  unfold clampCount
  split
  · omega
  · split <;> omega

theorem clampCount_le_max : clampCount requested ≤ 65535 := by
  unfold clampCount
  split
  · omega
  · split <;> omega

theorem clampCount_le : clampCount requested ≤ requested.toNat := by
  unfold clampCount
  split
  · omega
  · split <;> omega

namespace BuildState

theorem takeVeryGoodPath_spec (queue : MainPathQueue settings)
    (overflowqueue : List PathQueueElement) (requested : ℤ)
    (includeVeryGoodPath : Bool) (waits : ℕ → Bool)
    (hwithin : ¬ WritesToEmptyList queue requested includeVeryGoodPath waits) :
    ∃ state,
      takeVeryGoodPath includeVeryGoodPath waits
        (start queue overflowqueue (clampCount requested)) = .ok state ∧
      state.Holding (clampCount requested)
        (veryGoodPaths queue includeVeryGoodPath waits) ∧
      state.queue = queueAtLoop queue includeVeryGoodPath waits ∧
      state.overflowqueue = overflowqueue ∧
      state.waited = waitsBeforeLoop queue includeVeryGoodPath := by
  have hempty : (start queue overflowqueue (clampCount requested)).Holding
      (clampCount requested) [] :=
    ⟨by simp [start], rfl, Nat.zero_le _⟩
  by_cases hasks : (includeVeryGoodPath &&
      decide (0 < queue.pathqueuelength)) = true
  · cases hwait : waits 0 with
    | false =>
      have htakes :
          takesVeryGoodPath queue includeVeryGoodPath waits = false := by
        simp [takesVeryGoodPath, hwait]
      refine ⟨(start queue overflowqueue (clampCount requested)).countWait,
        ?_, ?_, ?_, rfl, ?_⟩
      · rw [takeVeryGoodPath, start, if_pos hasks]
        simp only [hwait]
        rfl
      · simpa [veryGoodPaths, htakes] using hempty.countWait
      · simp [queueAtLoop, htakes, start]
      · simp only [waitsBeforeLoop, hasks, if_true]
        rfl
    | true =>
      have htakes :
          takesVeryGoodPath queue includeVeryGoodPath waits = true := by
        simp only [takesVeryGoodPath, hasks, hwait, Bool.and_self]
      have hroom : 0 < clampCount requested := by
        have hzero := clampCount_eq_zero_iff requested
        have hpositive : ¬ requested ≤ 0 := by
          intro hle
          exact hwithin ⟨hle, htakes⟩
        omega
      obtain ⟨stored, hstore, hstored, hqueue, hoverflow, hwaited⟩ :=
        hempty.countWait.store hroom (queue.slot 0)
      refine ⟨{ stored with queue := stored.queue.removeFirst },
        ?_, ?_, ?_, hoverflow, ?_⟩
      · have hrun : takeVeryGoodPath includeVeryGoodPath waits
            (start queue overflowqueue (clampCount requested)) =
            (store (start queue overflowqueue
              (clampCount requested)).countWait (queue.slot 0) >>=
            fun stored => pure
              { stored with queue := stored.queue.removeFirst }) :=
          (if_pos hasks).trans (if_pos hwait)
        rw [hrun, hstore]
        rfl
      · simp only [veryGoodPaths, htakes, if_true]
        exact ⟨hstored.paths_eq, hstored.actualcount_eq, hstored.length_le⟩
      · simp [queueAtLoop, htakes, hqueue, start]
      · simp only [waitsBeforeLoop, hasks, if_true]
        exact hwaited
  · have htakes :
        takesVeryGoodPath queue includeVeryGoodPath waits = false := by
      rw [takesVeryGoodPath, Bool.eq_false_iff.mpr hasks, Bool.false_and]
    refine ⟨start queue overflowqueue (clampCount requested),
      ?_, ?_, ?_, rfl, ?_⟩
    · rw [takeVeryGoodPath, start, if_neg hasks]
      rfl
    · simpa [veryGoodPaths, htakes] using hempty
    · simp [queueAtLoop, htakes, start]
    · rw [waitsBeforeLoop, if_neg hasks]
      rfl

theorem Holding.getRidOfOverflow {count : ℕ}
    {collected : List PathQueueElement} {state : BuildState settings}
    (hholding : state.Holding count collected)
    (hroom : collected.length < count) :
    ∃ final, getRidOfOverflow count state = .ok final ∧
      final.Holding count (collected ++
        state.overflowqueue.reverse.take (count - collected.length)) ∧
      final.queue = state.queue ∧
      final.overflowqueue = state.overflowqueue.take
        (state.overflowqueue.length - (count - collected.length)) ∧
      final.waited = state.waited := by
  obtain ⟨taken, hrun, htaken, hqueue, hoverflow, hwaited⟩ :=
    hholding.takeOverflow state.overflowqueue.length 0 hroom (le_refl _)
  rw [take_length] at htaken
  rw [BuildState.getRidOfOverflow, hrun]
  refine ⟨_, rfl,
    ⟨htaken.paths_eq, htaken.actualcount_eq, htaken.length_le⟩,
    hqueue, ?_, hwaited⟩
  have hcut : state.overflowqueue.length -
      (0 + min state.overflowqueue.length (count - collected.length)) =
      state.overflowqueue.length - (count - collected.length) := by
    omega
  change taken.overflowqueue.take (taken.overflowqueue.length - _) = _
  rw [hoverflow, hcut]

theorem Holding.getFromPathqueue {count : ℕ} (waits : ℕ → Bool)
    {collected : List PathQueueElement} {state : BuildState settings}
    (hholding : state.Holding count collected)
    (hroom : collected.length < count) :
    ∃ final, getFromPathqueue count waits state = .ok final ∧
      final.paths = collected ++
        (lockedIndices waits state.waited state.queue.pathqueuelength
          (count - collected.length)).map state.queue.slot ∧
      final.queue = state.queue.shorten
        (lockedIndices waits state.waited state.queue.pathqueuelength
          (count - collected.length)).length ∧
      final.overflowqueue = state.overflowqueue := by
  obtain ⟨taken, hrun, htaken, hqueue, hoverflow⟩ :=
    hholding.takeFromBack waits state.queue.pathqueuelength hroom
  simp only [BuildState.getFromPathqueue, hrun]
  change ∃ final, (if taken.actualcount < count then _ else _) =
    Except.ok final ∧ _
  by_cases hshort : taken.actualcount < count
  · rw [if_pos hshort]
    refine ⟨_, rfl, ?_, hqueue, hoverflow⟩
    change taken.paths.take taken.actualcount = _
    rw [htaken.paths_eq, htaken.actualcount_eq, take_left]
  · rw [if_neg hshort]
    exact ⟨_, rfl, htaken.paths_of_full (by omega), hqueue, hoverflow⟩

end BuildState

theorem buildPathListForTransmission_spec (requested : ℤ)
    (includeVeryGoodPath : Bool) (waits : ℕ → Bool)
    (hwithin : ¬ WritesToEmptyList queue requested includeVeryGoodPath waits) :
    let veryGood := veryGoodPaths queue includeVeryGoodPath waits
    let start := queueAtLoop queue includeVeryGoodPath waits
    let locked :=
      lockedAtLoop queue overflowqueue requested includeVeryGoodPath waits
    let wanted := clampCount requested - veryGood.length
    ∃ final, buildPathListForTransmission queue overflowqueue requested
        includeVeryGoodPath waits = .ok final ∧
      final.paths = veryGood ++ overflowqueue.reverse.take wanted ++
        locked.map start.slot ∧
      final.overflowqueue =
        overflowqueue.take (overflowqueue.length - wanted) ∧
      final.queue = start.shorten locked.length := by
  intro veryGood start locked wanted
  obtain ⟨first, hfirst, hholding, hqueue, hoverflow, hwaited⟩ :=
    BuildState.takeVeryGoodPath_spec queue overflowqueue requested
      includeVeryGoodPath waits hwithin
  change first.Holding _ veryGood at hholding
  have hactual : first.actualcount = veryGood.length :=
    hholding.actualcount_eq
  have hlocked : locked = lockedIndices waits first.waited
      first.queue.pathqueuelength (wanted - overflowqueue.length) := by
    rw [hwaited, hqueue]
    rfl
  have hrun : buildPathListForTransmission queue overflowqueue requested
      includeVeryGoodPath waits =
      if clampCount requested ≤ first.actualcount then pure first
      else BuildState.getRidOfOverflow (clampCount requested) first >>=
        fun second =>
          if clampCount requested ≤ second.actualcount then pure second
          else BuildState.getFromPathqueue (clampCount requested) waits
            second := by
    rw [buildPathListForTransmission, hfirst]
    rfl
  by_cases hdone : clampCount requested ≤ first.actualcount
  · have hwanted : wanted = 0 := Nat.sub_eq_zero_of_le (by omega)
    have hnone : locked = [] := by
      rw [hlocked, hwanted, Nat.zero_sub]
      exact lockedIndices_no_room _ _ _
    rw [hrun, if_pos hdone, hwanted, hnone]
    refine ⟨first, rfl, ?_, ?_, ?_⟩
    · simpa using hholding.paths_of_full hdone
    · simpa using hoverflow
    · simpa using hqueue
  · have hroom : veryGood.length < clampCount requested := by omega
    obtain ⟨second, hsecond, hholding₂, hqueue₂, hoverflow₂, hwaited₂⟩ :=
      hholding.getRidOfOverflow hroom
    rw [hoverflow] at hholding₂ hoverflow₂
    change second.Holding _ (veryGood ++ overflowqueue.reverse.take wanted)
      at hholding₂
    have hlength₂ : (veryGood ++ overflowqueue.reverse.take wanted).length =
        veryGood.length + min wanted overflowqueue.length := by
      simp
    have hwanted : clampCount requested = veryGood.length + wanted :=
      (Nat.add_sub_of_le hroom.le).symm
    rw [hrun, if_neg hdone, hsecond]
    change ∃ final, (if clampCount requested ≤ second.actualcount then _
      else _) = Except.ok final ∧ _
    by_cases hdone₂ : clampCount requested ≤ second.actualcount
    · have hnone : locked = [] := by
        rw [hholding₂.actualcount_eq] at hdone₂
        rw [hlocked, Nat.sub_eq_zero_of_le (by omega)]
        exact lockedIndices_no_room _ _ _
      rw [if_pos hdone₂, hnone]
      refine ⟨second, rfl, ?_, hoverflow₂, ?_⟩
      · simpa using hholding₂.paths_of_full hdone₂
      · simpa using hqueue₂.trans hqueue
    · rw [if_neg hdone₂]
      rw [hholding₂.actualcount_eq] at hdone₂
      obtain ⟨final, hfinal, hpaths, hqueue₃, hoverflow₃⟩ :=
        hholding₂.getFromPathqueue waits (by omega)
      have hrest : clampCount requested -
          (veryGood ++ overflowqueue.reverse.take wanted).length =
          wanted - overflowqueue.length := by
        omega
      rw [hrest, hwaited₂, hqueue₂, ← hlocked, hqueue] at hpaths hqueue₃
      exact ⟨final, hfinal, hpaths, hoverflow₃.trans hoverflow₂, hqueue₃⟩

theorem lockedAtLoop_length_le (requested : ℤ) (includeVeryGoodPath : Bool)
    (waits : ℕ → Bool) :
    (lockedAtLoop queue overflowqueue requested includeVeryGoodPath
      waits).length ≤
      roomAtLoop queue overflowqueue requested includeVeryGoodPath waits :=
  (lockedIndices_length_le _ _ _ _).trans (Nat.min_le_right _ _)

theorem veryGoodPaths_append_live (includeVeryGoodPath : Bool)
    (waits : ℕ → Bool) :
    veryGoodPaths queue includeVeryGoodPath waits ++
      (queueAtLoop queue includeVeryGoodPath waits).live = queue.live := by
  unfold veryGoodPaths queueAtLoop
  cases htakes : takesVeryGoodPath queue includeVeryGoodPath waits with
  | false => simp
  | true =>
    have hpositive : 0 < queue.live.length := by
      rw [queue.live_length]
      simp only [takesVeryGoodPath, Bool.and_eq_true,
        decide_eq_true_eq] at htakes
      exact htakes.1.2
    rw [if_pos rfl, if_pos rfl, queue.removeFirst_live,
      queue.slot_eq_live_getElem hpositive, singleton_append, ← drop_one]
    exact (drop_eq_getElem_cons hpositive).symm

private theorem overflow_split (overflowqueue : List PathQueueElement)
    (wanted : ℕ) :
    (overflowqueue.reverse.take wanted ++
      overflowqueue.take (overflowqueue.length - wanted)).Perm
        overflowqueue := by
  rw [take_reverse]
  calc
    ((overflowqueue.drop (overflowqueue.length - wanted)).reverse ++
        overflowqueue.take (overflowqueue.length - wanted)).Perm
        (overflowqueue.drop (overflowqueue.length - wanted) ++
          overflowqueue.take (overflowqueue.length - wanted)) :=
      (reverse_perm _).append_right _
    _ |>.Perm (overflowqueue.take (overflowqueue.length - wanted) ++
        overflowqueue.drop (overflowqueue.length - wanted)) :=
      perm_append_comm
    _ |>.Perm overflowqueue := by
      rw [take_append_drop]

theorem buildPathListForTransmission_error (requested : ℤ)
    (includeVeryGoodPath : Bool) (waits : ℕ → Bool)
    (hwrites : WritesToEmptyList queue requested includeVeryGoodPath waits) :
    buildPathListForTransmission queue overflowqueue requested
      includeVeryGoodPath waits = .error "Access violation" := by
  obtain ⟨hrequested, htakes⟩ := hwrites
  have hzero : clampCount requested = 0 :=
    (clampCount_eq_zero_iff requested).mpr hrequested
  obtain ⟨hasks, hwait⟩ := Bool.and_eq_true_iff.mp htakes
  have hfirst : BuildState.takeVeryGoodPath includeVeryGoodPath waits
      (BuildState.start queue overflowqueue (clampCount requested)) =
        .error "Access violation" := by
    rw [hzero]
    exact (if_pos hasks).trans (if_pos hwait)
  rw [buildPathListForTransmission, hfirst]
  rfl

private theorem perm_cancel {α : Type}
    {best overflow taken left rest top live : List α}
    (hoverflow : (taken ++ left).Perm overflow)
    (hlive : rest ++ top = live) (locked : List α) :
    (best ++ taken ++ locked ++ left ++ rest).Perm
        (overflow ++ (best ++ live)) ↔
      locked.Perm top := by
  subst live
  rw [← Multiset.coe_eq_coe] at hoverflow
  simp only [← Multiset.coe_eq_coe, ← Multiset.coe_add] at hoverflow ⊢
  rw [← hoverflow]
  have hleft : (best : Multiset α) + taken + locked + left + rest =
      (best + taken + left + rest) + locked := by
    abel
  have hright : (taken : Multiset α) + left + (best + (rest + top)) =
      (best + taken + left + rest) + top := by
    abel
  rw [hleft, hright, add_right_inj]

section

variable {queue : MainPathQueue settings}
  {overflowqueue : List PathQueueElement} {requested : ℤ}
  {includeVeryGoodPath : Bool} {waits : ℕ → Bool}
  (hfinal : buildPathListForTransmission queue overflowqueue requested
    includeVeryGoodPath waits = .ok final)

include hfinal

theorem not_writesToEmptyList_of_ok :
    ¬ WritesToEmptyList queue requested includeVeryGoodPath waits := by
  intro hwrites
  rw [buildPathListForTransmission_error queue overflowqueue requested
    includeVeryGoodPath waits hwrites] at hfinal
  cases hfinal

theorem buildPathListForTransmission_length_le :
    final.paths.length ≤ clampCount requested := by
  have hwithin := not_writesToEmptyList_of_ok hfinal
  obtain ⟨other, hother, hpaths, _⟩ := buildPathListForTransmission_spec
    queue overflowqueue requested includeVeryGoodPath waits hwithin
  obtain ⟨_, _, hholding, _⟩ := BuildState.takeVeryGoodPath_spec queue
    overflowqueue requested includeVeryGoodPath waits hwithin
  have hbest := hholding.length_le
  have hroom := lockedAtLoop_length_le queue overflowqueue requested
    includeVeryGoodPath waits
  rw [hfinal] at hother
  cases hother
  unfold roomAtLoop at hroom
  rw [hpaths]
  simp only [length_append, length_take, length_reverse, length_map]
  omega

/-- A build that returns leaves the paths it found exactly when the entries
it locked are the topmost ones. -/
theorem buildPathListForTransmission_perm_iff :
    (final.paths ++ final.overflowqueue ++ final.queue.live).Perm
        (overflowqueue ++ queue.live) ↔
      LocksTopEntries queue overflowqueue requested includeVeryGoodPath
        waits := by
  obtain ⟨other, hother, hpaths, hoverflow, hqueue⟩ :=
    buildPathListForTransmission_spec queue overflowqueue requested
      includeVeryGoodPath waits (not_writesToEmptyList_of_ok hfinal)
  rw [hfinal] at hother
  cases hother
  set best := veryGoodPaths queue includeVeryGoodPath waits with hbest
  set start := queueAtLoop queue includeVeryGoodPath waits with hstart
  set locked := lockedAtLoop queue overflowqueue requested
    includeVeryGoodPath waits with hlocked
  have hsplit : (start.shorten locked.length).live ++
      start.live.drop (start.pathqueuelength - locked.length) =
        start.live := by
    rw [start.shorten_live, take_append_drop]
  rw [hpaths, hoverflow, hqueue,
    ← veryGoodPaths_append_live queue includeVeryGoodPath waits,
    ← hbest, ← hstart, perm_cancel (overflow_split _ _) hsplit]
  exact Iff.rfl

end

/-- The routine conserves the paths exactly when it does not write the best
path to an empty list and the entries it locks are the topmost ones. -/
theorem buildPathListForTransmission_conserves_iff
    (queue : MainPathQueue settings) (overflowqueue : List PathQueueElement)
    (requested : ℤ) (includeVeryGoodPath : Bool) (waits : ℕ → Bool) :
    Conserves queue overflowqueue requested
        (buildPathListForTransmission queue overflowqueue requested
          includeVeryGoodPath waits) ↔
      ¬ WritesToEmptyList queue requested includeVeryGoodPath waits ∧
        LocksTopEntries queue overflowqueue requested includeVeryGoodPath
          waits := by
  constructor
  · rintro ⟨final, hfinal, _, hperm⟩
    exact ⟨not_writesToEmptyList_of_ok hfinal,
      (buildPathListForTransmission_perm_iff hfinal).mp hperm⟩
  · rintro ⟨hwithin, hlocks⟩
    obtain ⟨final, hfinal, _⟩ := buildPathListForTransmission_spec queue
      overflowqueue requested includeVeryGoodPath waits hwithin
    have hlength : final.paths.length ≤ requested.toNat :=
      (buildPathListForTransmission_length_le hfinal).trans
        (clampCount_le requested)
    exact ⟨final, hfinal, hlength,
      (buildPathListForTransmission_perm_iff hfinal).mpr hlocks⟩

/-- A queue of one path, and a request for no path at all that still asks for
the best one: the parent's maximum in a request for paths can be 0. -/
def onePathQueue : MainPathQueue ⟨0, false, zero_level_lt⟩ where
  slots := List.replicate MAXQUEUESIZE ⟨[0], [], 0x1000, 0⟩
  pathqueuelength := 1
  slots_length := length_replicate
  slots_sized := by
    intro element hmem
    rw [eq_of_mem_replicate hmem]
    exact ⟨rfl, by simp⟩
  pathqueuelength_le := Nat.succ_le_of_lt (by decide)

theorem buildPathListForTransmission_zero_not_conserves :
    ¬ Conserves onePathQueue [] 0
      (buildPathListForTransmission onePathQueue [] 0 true fun _ => true) := by
  rintro ⟨final, hfinal, _⟩
  have herror : buildPathListForTransmission onePathQueue [] 0 true
      (fun _ => true) = .error "Access violation" := rfl
  rw [herror] at hfinal
  cases hfinal

end Pointerscan
end CheatEngine
