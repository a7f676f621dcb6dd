import CheatEngine.PointerscanPathStream
import CheatEngine.PointerscanTransmission

/-!
# The paths one scan controller holds

A controller keeps its paths in the main path queue and in the overflow
queue.  Lists of paths move between two controllers: they are built from both
queues, written element by element, read back on the other side and appended
to the overflow queue there.  What a path is for the scan does not depend on
the loop-check list when that check is off, so the contents of queues and
lists are compared after `transmitted`.
-/

namespace CheatEngine
namespace Pointerscan

open List

variable {settings : QueueSettings}

namespace PathQueueElement

@[simp] theorem transmitted_transmitted (element : PathQueueElement) :
    (element.transmitted settings).transmitted settings =
      element.transmitted settings := by
  unfold transmitted
  split <;> rfl

theorem Sized.transmitted {element : PathQueueElement}
    (hsized : element.Sized settings) :
    (element.transmitted settings).Sized settings where
  tempresults_length := hsized.tempresults_length
  valuelist_length := by
    intro hnoLoop
    simpa [PathQueueElement.transmitted, hnoLoop] using
      hsized.valuelist_length hnoLoop

/-- The assignments that copy an element into a slot of the main queue.  The
loop-check list is only copied when it is in use. -/
def overwrittenBy (settings : QueueSettings)
    (slot element : PathQueueElement) : PathQueueElement where
  startlevel := element.startlevel
  valuetofind := element.valuetofind
  tempresults := setlength 0 element.tempresults (settings.maxlevel + 1)
  valuelist :=
    if settings.noLoop then
      setlength 0 element.valuelist (settings.maxlevel + 1)
    else
      slot.valuelist

theorem overwrittenBy_sized (slot element : PathQueueElement) :
    (slot.overwrittenBy settings element).Sized settings where
  tempresults_length := by
    simp [overwrittenBy]
  valuelist_length := by
    intro hnoLoop
    simp [overwrittenBy, hnoLoop]

theorem Sized.overwrittenBy_transmitted {element : PathQueueElement}
    (hsized : element.Sized settings) (slot : PathQueueElement) :
    (slot.overwrittenBy settings element).transmitted settings =
      element.transmitted settings := by
  unfold overwrittenBy PathQueueElement.transmitted
  rw [setlength_self 0 hsized.tempresults_length]
  cases hnoLoop : settings.noLoop with
  | false => simp
  | true => simp [setlength_self 0 (hsized.valuelist_length hnoLoop)]

end PathQueueElement

def contents (settings : QueueSettings) (paths : List PathQueueElement) :
    Multiset PathQueueElement :=
  (paths.map (PathQueueElement.transmitted settings) :
    List PathQueueElement)

@[simp] theorem contents_nil : contents settings [] = 0 := rfl

@[simp] theorem contents_append (first second : List PathQueueElement) :
    contents settings (first ++ second) =
      contents settings first + contents settings second := by
  simp [contents]

theorem contents_perm (settings : QueueSettings)
    {first second : List PathQueueElement} (hperm : first.Perm second) :
    contents settings first = contents settings second :=
  Multiset.coe_eq_coe.mpr (hperm.map _)

/-- A dynamic array of paths that was built for transmission. -/
structure PathList (settings : QueueSettings) where
  paths : List PathQueueElement
  sized : ∀ element ∈ paths, element.Sized settings
  length_le : paths.length ≤ 65535

namespace PathList

def content (list : PathList settings) : Multiset PathQueueElement :=
  contents settings list.paths

def received (list : PathList settings) : PathList settings where
  paths := list.paths.map (PathQueueElement.transmitted settings)
  sized := by
    intro element hmem
    obtain ⟨original, horiginal, heq⟩ := mem_map.mp hmem
    rw [← heq]
    exact (list.sized original horiginal).transmitted
  length_le := by
    rw [length_map]
    exact list.length_le

@[simp] theorem received_content (list : PathList settings) :
    list.received.content = list.content := by
  simp [received, content, contents, Function.comp_def]

end PathList

/-- The loop of `EatFromOverflowQueueIfNeeded`, after `copied` turns: it goes
up from the first free slot and down from the end of the overflow queue. -/
def fillSlots (settings : QueueSettings)
    (overflowqueue slots : List PathQueueElement) (pathqueuelength : ℕ) :
    ℕ → List PathQueueElement
  | 0 => slots
  | copied + 1 =>
    let filled := fillSlots settings overflowqueue slots pathqueuelength
      copied
    filled.set (pathqueuelength + copied)
      ((filled.getD (pathqueuelength + copied) default).overwrittenBy
        settings
        (overflowqueue.getD (overflowqueue.length - 1 - copied) default))

private theorem take_succ_set {α : Type} {entries : List α} {index : ℕ}
    (value : α) (hindex : index < entries.length) :
    (entries.set index value).take (index + 1) =
      entries.take index ++ [value] := by
  rw [take_add_one, take_set_of_le (le_refl index)]
  simp [hindex]

section

variable (overflowqueue slots : List PathQueueElement) (pathqueuelength : ℕ)

@[simp] theorem fillSlots_length (copied : ℕ) :
    (fillSlots settings overflowqueue slots pathqueuelength copied).length =
      slots.length := by
  induction copied with
  | zero => rfl
  | succ copied ih => simp [fillSlots, ih]

theorem fillSlots_sized
    (hslots : ∀ element ∈ slots, element.Sized settings) (copied : ℕ) :
    ∀ element ∈ fillSlots settings overflowqueue slots pathqueuelength
      copied, element.Sized settings := by
  induction copied with
  | zero => exact hslots
  | succ copied ih =>
    intro element hmem
    rcases mem_or_eq_of_mem_set hmem with hold | hnew
    · exact ih element hold
    · rw [hnew]
      exact PathQueueElement.overwrittenBy_sized _ _

theorem fillSlots_contents
    (hoverflow : ∀ element ∈ overflowqueue, element.Sized settings)
    {copied : ℕ} (hroom : pathqueuelength + copied ≤ slots.length)
    (hcopied : copied ≤ overflowqueue.length) :
    contents settings ((fillSlots settings overflowqueue slots
        pathqueuelength copied).take (pathqueuelength + copied)) =
      contents settings (slots.take pathqueuelength) +
        contents settings
          (overflowqueue.drop (overflowqueue.length - copied)) := by
  induction copied with
  | zero => simp [fillSlots]
  | succ copied ih =>
    have hbefore := ih (by omega) (by omega)
    set filled := fillSlots settings overflowqueue slots pathqueuelength
      copied with hfilled
    have hlength : filled.length = slots.length := by
      simp [hfilled]
    have hfits : pathqueuelength + copied < filled.length := by
      omega
    have hindex : overflowqueue.length - 1 - copied <
        overflowqueue.length := by
      omega
    set element := overflowqueue[overflowqueue.length - 1 - copied] with
      helement
    have hsized : element.Sized settings :=
      hoverflow element (getElem_mem hindex)
    have hget : overflowqueue.getD (overflowqueue.length - 1 - copied)
        default = element := by
      simp [helement, getD_eq_getElem?_getD, hindex]
    have htake : (fillSlots settings overflowqueue slots pathqueuelength
        (copied + 1)).take (pathqueuelength + (copied + 1)) =
        filled.take (pathqueuelength + copied) ++
          [(filled.getD (pathqueuelength + copied) default).overwrittenBy
            settings element] := by
      simp only [fillSlots, ← hfilled, hget]
      exact take_succ_set _ hfits
    have hdrop : overflowqueue.drop (overflowqueue.length - (copied + 1)) =
        element :: overflowqueue.drop (overflowqueue.length - copied) := by
      rw [show overflowqueue.length - (copied + 1) =
          overflowqueue.length - 1 - copied by omega,
        drop_eq_getElem_cons hindex]
      congr 2
      omega
    have hone : contents settings
        [(filled.getD (pathqueuelength + copied) default).overwrittenBy
          settings element] = contents settings [element] := by
      simp [contents, hsized.overwrittenBy_transmitted]
    have hcons : contents settings
        (element :: overflowqueue.drop (overflowqueue.length - copied)) =
        contents settings [element] + contents settings
          (overflowqueue.drop (overflowqueue.length - copied)) := by
      rw [← singleton_append, contents_append]
    rw [htake, hdrop, contents_append, hbefore, hone, hcons, add_assoc,
      add_comm (contents settings (List.drop _ _))]

end

structure PathQueues (settings : QueueSettings) where
  pathqueue : MainPathQueue settings
  overflowqueue : List PathQueueElement
  overflow_sized : ∀ element ∈ overflowqueue, element.Sized settings

namespace PathQueues

def content (queues : PathQueues settings) : Multiset PathQueueElement :=
  contents settings queues.pathqueue.live +
    contents settings queues.overflowqueue

def eatFromOverflowQueueIfNeeded (queues : PathQueues settings) :
    PathQueues settings :=
  if queues.pathqueue.pathqueuelength = MAXQUEUESIZE ∨
      queues.overflowqueue.length = 0 then
    queues
  else if 0 < queues.overflowqueue.length ∧
      queues.pathqueue.pathqueuelength < MAXQUEUESIZE - 1 then
    let pathsToCopy := min queues.overflowqueue.length
      (MAXQUEUESIZE - queues.pathqueue.pathqueuelength)
    { pathqueue :=
        { slots := fillSlots settings queues.overflowqueue
            queues.pathqueue.slots queues.pathqueue.pathqueuelength
            pathsToCopy
          pathqueuelength := queues.pathqueue.pathqueuelength + pathsToCopy
          slots_length := by
            rw [fillSlots_length]
            exact queues.pathqueue.slots_length
          slots_sized := fillSlots_sized _ _ _ queues.pathqueue.slots_sized _
          pathqueuelength_le := by
            have hle := queues.pathqueue.pathqueuelength_le
            omega }
      overflowqueue := queues.overflowqueue.take
        (queues.overflowqueue.length - pathsToCopy)
      overflow_sized := fun element hmem =>
        queues.overflow_sized element (mem_of_mem_take hmem) }
  else
    queues

variable (queues : PathQueues settings)

@[simp] theorem eatFromOverflowQueueIfNeeded_content :
    queues.eatFromOverflowQueueIfNeeded.content = queues.content := by
  unfold eatFromOverflowQueueIfNeeded
  split
  · rfl
  · split
    · have hlength := queues.pathqueue.slots_length
      have hle := queues.pathqueue.pathqueuelength_le
      set pathsToCopy := min queues.overflowqueue.length
        (MAXQUEUESIZE - queues.pathqueue.pathqueuelength) with hcopy
      have hroom : queues.pathqueue.pathqueuelength + pathsToCopy ≤
          queues.pathqueue.slots.length := by
        omega
      have hfilled := fillSlots_contents queues.overflowqueue
        queues.pathqueue.slots queues.pathqueue.pathqueuelength
        queues.overflow_sized hroom (Nat.min_le_left _ _)
      simp only [content, MainPathQueue.live]
      rw [hfilled, add_assoc, add_comm (contents settings (List.drop _ _)),
        ← contents_append, take_append_drop]
    · rfl

def appendDynamicPathQueueToOverflowQueue (queues : PathQueues settings)
    (list : PathList settings) : PathQueues settings :=
  eatFromOverflowQueueIfNeeded
    { pathqueue := queues.pathqueue
      overflowqueue := queues.overflowqueue ++ list.paths
      overflow_sized := by
        intro element hmem
        rcases mem_append.mp hmem with hold | hnew
        · exact queues.overflow_sized element hold
        · exact list.sized element hnew }

@[simp] theorem appendDynamicPathQueueToOverflowQueue_content
    (list : PathList settings) :
    (queues.appendDynamicPathQueueToOverflowQueue list).content =
      queues.content + list.content := by
  rw [appendDynamicPathQueueToOverflowQueue,
    eatFromOverflowQueueIfNeeded_content]
  simp [content, PathList.content, add_assoc]

def appendReceived (queues : PathQueues settings)
    (list : PathList settings) : PathQueues settings :=
  if 0 < list.paths.length then
    queues.appendDynamicPathQueueToOverflowQueue list.received
  else
    queues

@[simp] theorem appendReceived_content (list : PathList settings) :
    (queues.appendReceived list).content =
      queues.content + list.content := by
  unfold appendReceived
  split
  · simp
  · have hnil : list.paths = [] :=
      eq_nil_of_length_eq_zero (by omega)
    simp [PathList.content, hnil]

section

variable {queues : PathQueues settings} {requested : ℤ}
  {includeVeryGoodPath : Bool} {waits : ℕ → Bool}
  {final : BuildState settings}

section

variable (hbuilt : Pointerscan.buildPathListForTransmission queues.pathqueue
      queues.overflowqueue requested includeVeryGoodPath waits = .ok final)

include hbuilt

theorem built_sized : ∀ element ∈ final.paths, element.Sized settings := by
  obtain ⟨other, hother, hpaths, _⟩ := buildPathListForTransmission_spec
    queues.pathqueue queues.overflowqueue requested includeVeryGoodPath waits
    (not_writesToEmptyList_of_ok hbuilt)
  rw [hbuilt] at hother
  cases hother
  intro element hmem
  rw [hpaths, mem_append, mem_append] at hmem
  rcases hmem with (hbest | hoverflow) | hlocked
  · have hlive : element ∈ queues.pathqueue.live := by
      rw [← veryGoodPaths_append_live queues.pathqueue includeVeryGoodPath
        waits]
      exact mem_append_left _ hbest
    exact queues.pathqueue.slots_sized element (mem_of_mem_take hlive)
  · have hmem : element ∈ queues.overflowqueue := by
      simpa using mem_of_mem_take hoverflow
    exact queues.overflow_sized element hmem
  · obtain ⟨index, hindex, hslot⟩ := mem_map.mp hlocked
    rw [← hslot]
    exact MainPathQueue.slot_sized _ (MainPathQueue.lt_slots_length _
      (lockedIndices_lt _ _ _ _ index hindex))

theorem built_overflow_sized :
    ∀ element ∈ final.overflowqueue, element.Sized settings := by
  obtain ⟨other, hother, _, hoverflow, _⟩ :=
    buildPathListForTransmission_spec queues.pathqueue queues.overflowqueue
      requested includeVeryGoodPath waits (not_writesToEmptyList_of_ok hbuilt)
  rw [hbuilt] at hother
  cases hother
  intro element hmem
  rw [hoverflow] at hmem
  exact queues.overflow_sized element (mem_of_mem_take hmem)

end

end

/-- `BuildPathListForTransmission` on the queues of a controller; it returns
the list and the queues that are left, or nothing when it faults.  A fault
happens before the queues are touched. -/
def buildPathListForTransmission (queues : PathQueues settings)
    (requested : ℤ) (includeVeryGoodPath : Bool) (waits : ℕ → Bool) :
    Option (PathList settings × PathQueues settings) :=
  match hbuilt : Pointerscan.buildPathListForTransmission queues.pathqueue
      queues.overflowqueue requested includeVeryGoodPath waits with
  | .ok final =>
    some (
      { paths := final.paths
        sized := built_sized hbuilt
        length_le := (buildPathListForTransmission_length_le hbuilt).trans
          (clampCount_le_max requested) },
      { pathqueue := final.queue
        overflowqueue := final.overflowqueue
        overflow_sized := built_overflow_sized hbuilt })
  | .error _ => none

/-- The semaphore waits of a build lock the topmost entries of the queue. -/
def LocksTop (queues : PathQueues settings) (requested : ℤ)
    (includeVeryGoodPath : Bool) (waits : ℕ → Bool) : Prop :=
  LocksTopEntries queues.pathqueue queues.overflowqueue requested
    includeVeryGoodPath waits

theorem buildPathListForTransmission_content
    {queues rest : PathQueues settings} {requested : ℤ}
    {includeVeryGoodPath : Bool} {waits : ℕ → Bool}
    {list : PathList settings}
    (hbuild : queues.buildPathListForTransmission requested
      includeVeryGoodPath waits = some (list, rest))
    (hlocks : queues.LocksTop requested includeVeryGoodPath waits) :
    list.content + rest.content = queues.content := by
  unfold buildPathListForTransmission at hbuild
  split at hbuild
  · rename_i final hfinal
    obtain ⟨hlist, hrest⟩ := Prod.mk.inj (Option.some.inj hbuild)
    subst list
    subst rest
    have hperm := contents_perm settings
      ((buildPathListForTransmission_perm_iff hfinal).mpr hlocks)
    simp only [contents_append] at hperm
    simp only [PathList.content, content]
    rw [add_comm (contents settings queues.pathqueue.live), ← hperm]
    abel
  · cases hbuild

end PathQueues

end Pointerscan
end CheatEngine
