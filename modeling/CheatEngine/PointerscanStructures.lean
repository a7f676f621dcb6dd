import Mathlib.Tactic

/-!
# Path queue elements and the main path queue

A pointer scan keeps the branches it has not explored yet in two places: a
main path queue of `MAXQUEUESIZE` slots, of which the first
`pathqueuelength` are in use, and an overflow queue that grows as needed.
The arrays of an element always have `maxlevel + 1` entries; the main queue
carries that fact with its slots.
-/

namespace CheatEngine
namespace Pointerscan

def MAXQUEUESIZE : ℕ := 64

structure PathQueueElement where
  tempresults : List UInt32
  valuelist : List UInt64
  valuetofind : UInt64
  startlevel : Int32
deriving DecidableEq, Repr, Inhabited

structure QueueSettings where
  maxlevel : ℕ
  noLoop : Bool
  maxlevel_lt : maxlevel + 1 < 2 ^ 31
deriving DecidableEq

theorem zero_level_lt : 0 + 1 < 2 ^ 31 := by
  norm_num

/-- `setlength` on a dynamic array: cut, or extended with zeroes. -/
def setlength {α : Type} (fill : α) (entries : List α) (size : ℕ) : List α :=
  entries.take size ++ List.replicate (size - entries.length) fill

@[simp] theorem setlength_length {α : Type} (fill : α) (entries : List α)
    (size : ℕ) :
    (setlength fill entries size).length = size := by
  simp only [setlength, List.length_append, List.length_take,
    List.length_replicate]
  omega

theorem setlength_self {α : Type} (fill : α) {entries : List α} {size : ℕ}
    (hsize : entries.length = size) :
    setlength fill entries size = entries := by
  subst size
  simp [setlength]

namespace PathQueueElement

structure Sized (settings : QueueSettings) (element : PathQueueElement) :
    Prop where
  tempresults_length : element.tempresults.length = settings.maxlevel + 1
  valuelist_length : settings.noLoop = true →
    element.valuelist.length = settings.maxlevel + 1

def newArrays (settings : QueueSettings) (element : PathQueueElement) :
    PathQueueElement :=
  { element with
    tempresults := setlength 0 element.tempresults (settings.maxlevel + 1)
    valuelist :=
      if settings.noLoop then
        setlength 0 element.valuelist (settings.maxlevel + 1)
      else
        element.valuelist }

theorem newArrays_sized (settings : QueueSettings)
    (element : PathQueueElement) :
    (element.newArrays settings).Sized settings where
  tempresults_length := by
    simp [newArrays]
  valuelist_length := by
    intro hnoLoop
    simp [newArrays, hnoLoop]

theorem Sized.newArrays_eq {settings : QueueSettings}
    {element : PathQueueElement} (hsized : element.Sized settings) :
    element.newArrays settings = element := by
  have htemp : setlength 0 element.tempresults (settings.maxlevel + 1) =
      element.tempresults :=
    setlength_self 0 hsized.tempresults_length
  have hvalues : (if settings.noLoop then
      setlength 0 element.valuelist (settings.maxlevel + 1)
      else element.valuelist) = element.valuelist := by
    split
    · exact setlength_self 0 (hsized.valuelist_length ‹_›)
    · rfl
  simp only [newArrays, htemp, hvalues]

end PathQueueElement

structure MainPathQueue (settings : QueueSettings) where
  slots : List PathQueueElement
  pathqueuelength : ℕ
  slots_length : slots.length = MAXQUEUESIZE
  slots_sized : ∀ element ∈ slots, element.Sized settings
  pathqueuelength_le : pathqueuelength ≤ MAXQUEUESIZE

namespace MainPathQueue

variable {settings : QueueSettings}

def live (queue : MainPathQueue settings) : List PathQueueElement :=
  queue.slots.take queue.pathqueuelength

variable {index : ℕ} (queue : MainPathQueue settings)

@[simp] theorem live_length : queue.live.length = queue.pathqueuelength := by
  have hlength := queue.slots_length
  have hle := queue.pathqueuelength_le
  simp only [live, List.length_take]
  omega

theorem lt_slots_length (hindex : index < queue.pathqueuelength) :
    index < queue.slots.length := by
  have hlength := queue.slots_length
  have hle := queue.pathqueuelength_le
  omega

def slot (queue : MainPathQueue settings) (index : ℕ) : PathQueueElement :=
  queue.slots.getD index default

theorem slot_eq_getElem (hindex : index < queue.slots.length) :
    queue.slot index = queue.slots[index] := by
  simp [slot, List.getD_eq_getElem?_getD, hindex]

theorem slot_sized (hindex : index < queue.slots.length) :
    (queue.slot index).Sized settings := by
  rw [queue.slot_eq_getElem hindex]
  exact queue.slots_sized _ (List.getElem_mem hindex)

end MainPathQueue

end Pointerscan
end CheatEngine
