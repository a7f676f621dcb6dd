import CheatEngine.ByteStream
import CheatEngine.PointerscanStructures

/-!
# Path elements on a stream

The encoding of one path element that parent and child exchange, and the size
of that encoding.  The loop-check list is only part of it when `noLoop` is on.
-/

namespace CheatEngine
namespace Pointerscan

open ByteStream

variable {settings : QueueSettings}

def writeTempresults (settings : QueueSettings)
    (element : PathQueueElement) : List UInt8 :=
  (element.tempresults.take (settings.maxlevel + 1)).flatMap writeDWord

def writeValuelist (settings : QueueSettings) (element : PathQueueElement) :
    List UInt8 :=
  if settings.noLoop then
    (element.valuelist.take (settings.maxlevel + 1)).flatMap writeQWord
  else
    []

def writePathQueueElementToStream (settings : QueueSettings)
    (element : PathQueueElement) : List UInt8 :=
  writeDWord element.startlevel.toUInt32 ++
    (writeQWord element.valuetofind ++
      (writeTempresults settings element ++ writeValuelist settings element))

def readValuelist (settings : QueueSettings) : Reader (List UInt64) :=
  if settings.noLoop then
    readMany readQWord (settings.maxlevel + 1)
  else
    pure []

def loadPathQueueElementFromStream (settings : QueueSettings) :
    Reader PathQueueElement := do
  let startlevel ← readDWord
  let valuetofind ← readQWord
  let tempresults ← readMany readDWord (settings.maxlevel + 1)
  let valuelist ← readValuelist settings
  return { tempresults, valuelist, valuetofind, startlevel := startlevel.toInt32 }

namespace PathQueueElement

def transmitted (settings : QueueSettings) (element : PathQueueElement) :
    PathQueueElement :=
  { element with
    valuelist := if settings.noLoop then element.valuelist else [] }

theorem Sized.take_tempresults {element : PathQueueElement}
    (hsized : element.Sized settings) :
    element.tempresults.take (settings.maxlevel + 1) = element.tempresults :=
  List.take_of_length_le (by rw [hsized.tempresults_length])

theorem Sized.take_valuelist {element : PathQueueElement}
    (hsized : element.Sized settings) (hnoLoop : settings.noLoop = true) :
    element.valuelist.take (settings.maxlevel + 1) = element.valuelist :=
  List.take_of_length_le (by rw [hsized.valuelist_length hnoLoop])

end PathQueueElement

variable {element : PathQueueElement}

theorem reads_tempresults (hsized : element.Sized settings) :
    Reads (readMany readDWord (settings.maxlevel + 1))
      (writeTempresults settings element) element.tempresults := by
  rw [writeTempresults, hsized.take_tempresults, ← hsized.tempresults_length]
  exact reads_readMany reads_readDWord element.tempresults

theorem reads_valuelist (hsized : element.Sized settings) :
    Reads (readValuelist settings) (writeValuelist settings element)
      (element.transmitted settings).valuelist := by
  unfold readValuelist writeValuelist PathQueueElement.transmitted
  cases hnoLoop : settings.noLoop with
  | false => exact reads_pure []
  | true =>
    simp only [if_true]
    rw [hsized.take_valuelist hnoLoop, ← hsized.valuelist_length hnoLoop]
    exact reads_readMany reads_readQWord element.valuelist

theorem reads_loadPathQueueElementFromStream
    (hsized : element.Sized settings) :
    Reads (loadPathQueueElementFromStream settings)
      (writePathQueueElementToStream settings element)
      (element.transmitted settings) := by
  have hlevel : element.startlevel.toUInt32.toInt32 = element.startlevel := by
    simp
  have hread : Reads (loadPathQueueElementFromStream settings)
      (writePathQueueElementToStream settings element)
      { element with
        valuelist := (element.transmitted settings).valuelist
        startlevel := element.startlevel.toUInt32.toInt32 } :=
    (reads_readDWord _).bind ((reads_readQWord _).bind
      ((reads_tempresults hsized).bind (reads_valuelist hsized).bind_pure))
  rw [hlevel] at hread
  exact hread

theorem reads_loadPathQueueElements {paths : List PathQueueElement}
    (hsized : ∀ element ∈ paths, element.Sized settings) :
    Reads (readMany (loadPathQueueElementFromStream settings) paths.length)
      (paths.flatMap (writePathQueueElementToStream settings))
      (paths.map (PathQueueElement.transmitted settings)) :=
  reads_readMany_map paths fun element helement =>
    reads_loadPathQueueElementFromStream (hsized element helement)

end Pointerscan
end CheatEngine
