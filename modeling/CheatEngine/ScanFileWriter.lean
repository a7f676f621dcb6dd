import CheatEngine.TransitionSystem

/-!
# The scan-file writer

A scanner fills one of two pairs of buffers.  When a pair is full it waits
for `datawritten`, hands the pair to the writer thread, signals
`dataavailable` and goes on with the other pair.  The writer thread waits for
`dataavailable`, writes the address and the memory buffer to their files and
signals `datawritten`.  Both events are reset by the thread that waited.

If a write fails, `datawritten` is signalled by the `finally` part before
`writeError` is set.
-/

namespace CheatEngine
namespace ScanFileWriter

open TransitionSystem

structure Buffers where
  address : List UInt8
  memory : List UInt8
deriving DecidableEq, Repr

/-- Where the scanner is: in its scan, in `genericFlush` and
`writeresults`, in the last `flush`, or at the end of `execute`. -/
inductive ScannerPc where
  | filling
  | waiting
  | waited
  | handing
  | signalling
  | swapping
  | finalEntry
  | finalWaiting
  | finalWaited
  | finalSignalling
  | checking
  | finished (success : Bool)
deriving DecidableEq, Repr

/-- Where the writer thread is.  The last five are the ways out of a failed
write. -/
inductive WriterPc where
  | waiting
  | waited
  | writingAddress
  | writingMemory
  | signalling
  | failing
  | failedSignalled
  | errorSet
  | errorSignalled
  | exited
deriving DecidableEq, Repr

structure State where
  buffers : Bool → Buffers
  current : Bool
  scanner : ScannerPc
  writer : WriterPc
  datawritten : Bool
  dataavailable : Bool
  buffer : Bool
  addressSize : ℕ
  memorySize : ℕ
  writeError : Bool
  addressFile : List UInt8
  memoryFile : List UInt8
  flushed : List Buffers

inductive Label where
  | fill (content : Buffers)
  | flush
  | finish
  | scannerTimeout
  | scanner
  | writer
  | writeFails (written : ℕ)
deriving DecidableEq, Repr

namespace State

variable (state : State)

/-- The scanner's buffers as `found` entries of them are flushed. -/
def currentContent : Buffers :=
  state.buffers state.current

def handedAddress : List UInt8 :=
  (state.buffers state.buffer).address.take state.addressSize

def handedMemory : List UInt8 :=
  (state.buffers state.buffer).memory.take state.memorySize

def scannerStep : Option State :=
  match state.scanner with
  | .filling => none
  | .waiting =>
    if state.datawritten then
      some { state with scanner := .waited, datawritten := false }
    else none
  | .waited =>
    some { state with
      scanner := if state.writeError then .swapping else .handing }
  | .handing =>
    some { state with
      scanner := .signalling
      buffer := state.current
      addressSize := state.currentContent.address.length
      memorySize := state.currentContent.memory.length }
  | .signalling =>
    some { state with scanner := .swapping, dataavailable := true }
  | .swapping =>
    some { state with scanner := .filling, current := !state.current }
  | .finalEntry =>
    some { state with
      scanner := if state.writeError then .checking else .finalWaiting }
  | .finalWaiting =>
    if state.datawritten then
      some { state with scanner := .finalWaited, datawritten := false }
    else none
  | .finalWaited =>
    some { state with
      scanner := if state.writeError then .checking
        else .finalSignalling }
  | .finalSignalling =>
    some { state with scanner := .checking, datawritten := true }
  | .checking =>
    some { state with scanner := .finished (!state.writeError) }
  | .finished _ => none

def scannerTimeout : Option State :=
  match state.scanner with
  | .waiting =>
    some { state with
      scanner := if state.writeError then .swapping else .waiting }
  | .finalWaiting =>
    some { state with
      scanner := if state.writeError then .checking else .finalWaiting }
  | _ => none

def writerStep : Option State :=
  match state.writer with
  | .waiting =>
    if state.dataavailable then
      some { state with writer := .waited, dataavailable := false }
    else none
  | .waited =>
    some { state with
      writer := if state.writeError then .exited else .writingAddress }
  | .writingAddress =>
    some { state with
      writer := .writingMemory
      addressFile := state.addressFile ++ state.handedAddress }
  | .writingMemory =>
    some { state with
      writer := .signalling
      memoryFile := state.memoryFile ++ state.handedMemory }
  | .signalling =>
    some { state with writer := .waiting, datawritten := true }
  | .failing =>
    some { state with writer := .failedSignalled, datawritten := true }
  | .failedSignalled =>
    some { state with writer := .errorSet, writeError := true }
  | .errorSet =>
    some { state with writer := .errorSignalled, dataavailable := true }
  | .errorSignalled =>
    some { state with writer := .exited, datawritten := true }
  | .exited => none

def writeFails (written : ℕ) : Option State :=
  match state.writer with
  | .writingAddress =>
    some { state with
      writer := .failing
      addressFile :=
        state.addressFile ++ state.handedAddress.take written }
  | .writingMemory =>
    some { state with
      writer := .failing
      memoryFile := state.memoryFile ++ state.handedMemory.take written }
  | _ => none

end State

def step (state : State) : Label → Option State
  | .fill content =>
    if state.scanner = .filling then
      some { state with
        buffers := Function.update state.buffers state.current content }
    else none
  | .flush =>
    if state.scanner = .filling then
      some { state with
        scanner := .waiting
        flushed := state.flushed ++ [state.currentContent] }
    else none
  | .finish =>
    if state.scanner = .filling then
      some { state with scanner := .finalEntry }
    else none
  | .scannerTimeout => state.scannerTimeout
  | .scanner => state.scannerStep
  | .writer => state.writerStep
  | .writeFails written => state.writeFails written

structure State.Created (state : State) : Prop where
  scanner_eq : state.scanner = .filling
  writer_eq : state.writer = .waiting
  datawritten_eq : state.datawritten = true
  dataavailable_eq : state.dataavailable = false
  writeError_eq : state.writeError = false
  flushed_eq : state.flushed = []

/-- The scanner does not look at `writeError` for the last time after a
failed write has signalled `datawritten` and before it sets `writeError`. -/
def ChecksInTime (state : State) (label : Label) : Prop :=
  label = .scanner → state.scanner = .checking →
    state.writer ≠ .failedSignalled

instance (state : State) (label : Label) :
    Decidable (ChecksInTime state label) :=
  inferInstanceAs (Decidable (_ → _ → _))

/-! ## Who has the buffers -/

namespace State

def Healthy (state : State) : Prop :=
  state.writer = .waiting ∨ state.writer = .waited ∨
    state.writer = .writingAddress ∨ state.writer = .writingMemory ∨
    state.writer = .signalling

/-- The scanner took `datawritten` and has not signalled yet. -/
def scannerHolds (state : State) : Bool :=
  state.scanner = .waited ∨ state.scanner = .handing ∨
    state.scanner = .signalling ∨ state.scanner = .finalWaited ∨
    state.scanner = .finalSignalling

/-- The writer took `dataavailable` and has not signalled yet. -/
def writerHolds (state : State) : Bool :=
  state.writer = .waited ∨ state.writer = .writingAddress ∨
    state.writer = .writingMemory ∨ state.writer = .signalling

/-- A pair of buffers was handed over and its memory is not written. -/
def inFlight (state : State) : Bool :=
  state.scanner = .signalling ∨ state.dataavailable = true ∨
    state.writer = .waited ∨ state.writer = .writingAddress ∨
    state.writer = .writingMemory

def unhanded (state : State) : List Buffers :=
  match state.scanner with
  | .waiting => [state.currentContent]
  | .waited => [state.currentContent]
  | .handing => [state.currentContent]
  | _ => []

def flyingAddress (state : State) : List UInt8 :=
  if state.inFlight = true ∧ state.writer ≠ .writingMemory then
    state.handedAddress
  else []

def flyingMemory (state : State) : List UInt8 :=
  if state.inFlight = true then state.handedMemory else []

/-- Exactly one of the two threads and the two events has the turn. -/
def turns (state : State) : ℕ :=
  state.datawritten.toNat + state.scannerHolds.toNat +
    state.dataavailable.toNat + state.writerHolds.toNat

end State

/-- The invariant while no write has failed.  The files and what is on its
way to them are what was flushed. -/
structure Working (start state : State) : Prop where
  turns_eq : state.turns = 1
  no_error : state.writeError = false
  address_eq : start.addressFile ++ state.flushed.flatMap Buffers.address =
    state.addressFile ++ state.flyingAddress ++
      state.unhanded.flatMap Buffers.address
  memory_eq : start.memoryFile ++ state.flushed.flatMap Buffers.memory =
    state.memoryFile ++ state.flyingMemory ++
      state.unhanded.flatMap Buffers.memory
  handed : state.scanner = .signalling ∨ state.scanner = .swapping →
    state.buffer = state.current
  apart : state.inFlight = true → state.scanner ≠ .signalling →
    state.scanner ≠ .swapping → state.buffer ≠ state.current
  ended : state.scanner = .checking ∨ state.scanner = .finished true →
    state.datawritten = true
  not_failed : state.scanner ≠ .finished false

structure Broken (state : State) : Prop where
  unhealthy : ¬ state.Healthy
  no_success : state.scanner ≠ .finished true
  failing : state.writer = .failing →
    state.datawritten = false ∧ state.scannerHolds = false ∧
      state.scanner ≠ .checking ∧ state.writeError = false
  known : state.writer ≠ .failing → state.writer ≠ .failedSignalled →
    state.writeError = true

variable {start state after : State}

theorem Working.scanner_alone (hworking : Working start state)
    (hholds : state.scannerHolds = true) :
    state.datawritten = false ∧ state.dataavailable = false ∧
      state.writerHolds = false := by
  have hturns := hworking.turns_eq
  unfold State.turns at hturns
  rw [hholds] at hturns
  cases hwritten : state.datawritten <;>
    cases havailable : state.dataavailable <;>
      cases hwriter : state.writerHolds <;> simp_all

theorem Working.writer_alone (hworking : Working start state)
    (hholds : state.writerHolds = true) :
    state.datawritten = false ∧ state.dataavailable = false ∧
      state.scannerHolds = false := by
  have hturns := hworking.turns_eq
  unfold State.turns at hturns
  rw [hholds] at hturns
  cases hwritten : state.datawritten <;>
    cases havailable : state.dataavailable <;>
      cases hscanner : state.scannerHolds <;> simp_all

theorem Working.datawritten_alone (hworking : Working start state)
    (hwritten : state.datawritten = true) :
    state.scannerHolds = false ∧ state.dataavailable = false ∧
      state.writerHolds = false := by
  have hturns := hworking.turns_eq
  unfold State.turns at hturns
  rw [hwritten] at hturns
  cases hscanner : state.scannerHolds <;>
    cases havailable : state.dataavailable <;>
      cases hwriter : state.writerHolds <;> simp_all

section

attribute [local simp] State.turns State.scannerHolds State.writerHolds
  State.inFlight State.flyingAddress State.flyingMemory State.unhanded
  State.currentContent State.handedAddress State.handedMemory

section

variable (hworking : Working start state)

include hworking

theorem Working.of_scannerStep (hstep : state.scannerStep = some after) :
    Working start after := by
  have hno_error := hworking.no_error
  have halone : state.scannerHolds = true →
      state.datawritten = false ∧ state.dataavailable = false ∧
        ¬state.writer = .waited ∧ ¬state.writer = .writingAddress ∧
        ¬state.writer = .writingMemory ∧ ¬state.writer = .signalling := by
    intro hholds
    obtain ⟨hwritten, havailable, hwriter⟩ := hworking.scanner_alone hholds
    simpa [hwritten, havailable] using hwriter
  obtain ⟨hturns, -, haddress, hmemory, hhanded, hapart, hended,
    hnot_failed⟩ := hworking
  unfold State.scannerStep at hstep
  cases hpc : state.scanner with
  | filling => simp [hpc] at hstep
  | waiting =>
    simp only [hpc] at hstep
    split at hstep
    · rename_i hwritten
      cases hstep
      refine ⟨by simpa [hpc, hwritten] using hturns, hno_error,
        by simpa [hpc] using haddress, by simpa [hpc] using hmemory,
        by simp, by simpa [hpc] using hapart, by simp, by simp⟩
    · cases hstep
  | waited =>
    simp only [hpc, hno_error] at hstep
    cases hstep
    refine ⟨by simpa [hpc] using hturns, rfl,
      by simpa [hpc] using haddress, by simpa [hpc] using hmemory,
      by simp, by simpa [hpc] using hapart, by simp, by simp⟩
  | handing =>
    simp only [hpc] at hstep
    cases hstep
    obtain ⟨-, havailable, hwaited, hwritingAddress, hwritingMemory, -⟩ :=
      halone (by simp [hpc])
    refine ⟨by simpa [hpc] using hturns, hno_error, ?_, ?_, by simp,
      by simp, by simp, by simp⟩
    · simpa [hpc, havailable, hwaited, hwritingAddress, hwritingMemory]
        using haddress
    · simpa [hpc, havailable, hwaited, hwritingAddress, hwritingMemory]
        using hmemory
  | signalling =>
    simp only [hpc] at hstep
    cases hstep
    obtain ⟨-, havailable, -⟩ := halone (by simp [hpc])
    refine ⟨by simpa [hpc, havailable] using hturns, hno_error,
      by simpa [hpc] using haddress, by simpa [hpc] using hmemory,
      by simpa [hpc] using hhanded, by simp, by simp, by simp⟩
  | swapping =>
    simp only [hpc] at hstep
    cases hstep
    have hsame : state.buffer = state.current := hhanded (Or.inr hpc)
    refine ⟨by simpa [hpc] using hturns, hno_error,
      by simpa [hpc] using haddress, by simpa [hpc] using hmemory,
      by simp, by simp [hsame], by simp, by simp⟩
  | finalEntry =>
    simp only [hpc, hno_error] at hstep
    cases hstep
    refine ⟨by simpa [hpc] using hturns, rfl,
      by simpa [hpc] using haddress, by simpa [hpc] using hmemory,
      by simp, by simpa [hpc] using hapart, by simp, by simp⟩
  | finalWaiting =>
    simp only [hpc] at hstep
    split at hstep
    · rename_i hwritten
      cases hstep
      refine ⟨by simpa [hpc, hwritten] using hturns, hno_error,
        by simpa [hpc] using haddress, by simpa [hpc] using hmemory,
        by simp, by simpa [hpc] using hapart, by simp, by simp⟩
    · cases hstep
  | finalWaited =>
    simp only [hpc, hno_error] at hstep
    cases hstep
    refine ⟨by simpa [hpc] using hturns, rfl,
      by simpa [hpc] using haddress, by simpa [hpc] using hmemory,
      by simp, by simpa [hpc] using hapart, by simp, by simp⟩
  | finalSignalling =>
    simp only [hpc] at hstep
    cases hstep
    obtain ⟨hwritten, -⟩ := halone (by simp [hpc])
    refine ⟨by simpa [hpc, hwritten] using hturns, hno_error,
      by simpa [hpc] using haddress, by simpa [hpc] using hmemory,
      by simp, by simpa [hpc] using hapart, by simp, by simp⟩
  | checking =>
    simp only [hpc, hno_error] at hstep
    cases hstep
    have hwritten : state.datawritten = true := hended (Or.inl hpc)
    refine ⟨by simpa [hpc] using hturns, rfl,
      by simpa [hpc] using haddress, by simpa [hpc] using hmemory,
      by simp, by simpa [hpc] using hapart, by simp [hwritten], by simp⟩
  | finished success => simp [hpc] at hstep

theorem Working.of_scannerTimeout (hstep : state.scannerTimeout = some after) :
    Working start after := by
  have hsame : after = state := by
    unfold State.scannerTimeout at hstep
    rw [hworking.no_error] at hstep
    cases hpc : state.scanner <;> simp_all
    · rw [← hstep, ← hpc, ← hworking.no_error]
    · rw [← hstep, ← hpc, ← hworking.no_error]
  rw [hsame]
  exact hworking

theorem Working.of_fill (hpc : state.scanner = .filling) (content : Buffers) :
    Working start { state with
      buffers := Function.update state.buffers state.current content } := by
  obtain ⟨hturns, hno_error, haddress, hmemory, hhanded, hapart, hended,
    hnot_failed⟩ := hworking
  have hother : state.inFlight = true →
      Function.update state.buffers state.current content state.buffer =
        state.buffers state.buffer := by
    intro hflight
    apply Function.update_of_ne
    exact hapart hflight (by simp [hpc]) (by simp [hpc])
  constructor
  · exact hturns
  · exact hno_error
  · rw [haddress]
    by_cases hflight : state.inFlight = true
    · simp_all
    · simp_all
  · rw [hmemory]
    by_cases hflight : state.inFlight = true
    · simp_all
    · simp_all
  · exact hhanded
  · exact hapart
  · exact hended
  · exact hnot_failed

theorem Working.of_flush (hpc : state.scanner = .filling) :
    Working start { state with
      scanner := .waiting
      flushed := state.flushed ++ [state.currentContent] } := by
  obtain ⟨hturns, hno_error, haddress, hmemory, hhanded, hapart, hended,
    hnot_failed⟩ := hworking
  constructor
  · simp_all
  · exact hno_error
  · rw [List.flatMap_append, ← List.append_assoc, haddress]
    simp_all
  · rw [List.flatMap_append, ← List.append_assoc, hmemory]
    simp_all
  · simp
  · simp_all
  · simp
  · simp

theorem Working.of_finish (hpc : state.scanner = .filling) :
    Working start { state with scanner := .finalEntry } := by
  obtain ⟨hturns, hno_error, haddress, hmemory, hhanded, hapart, hended,
    hnot_failed⟩ := hworking
  constructor <;> simp_all

theorem Working.of_writerStep (hhealthy : state.Healthy)
    (hstep : state.writerStep = some after) :
    Working start after ∧ after.Healthy := by
  have hno_error := hworking.no_error
  have halone : state.writerHolds = true →
      state.datawritten = false ∧ state.dataavailable = false ∧
        state.scannerHolds = false ∧ state.scanner ≠ .signalling := by
    intro hholds
    obtain ⟨hwritten, havailable, hscanner⟩ := hworking.writer_alone hholds
    refine ⟨hwritten, havailable, hscanner, ?_⟩
    intro hpc
    simp [hpc] at hscanner
  obtain ⟨hturns, -, haddress, hmemory, hhanded, hapart, hended,
    hnot_failed⟩ := hworking
  unfold State.writerStep at hstep
  rcases hhealthy with hpc | hpc | hpc | hpc | hpc
  · simp only [hpc] at hstep
    split at hstep
    · rename_i hdata
      cases hstep
      refine ⟨⟨?_, hno_error, by simpa [hpc, hdata] using haddress,
        by simpa [hpc, hdata] using hmemory, hhanded,
        by simpa [hpc, hdata] using hapart, hended, hnot_failed⟩,
        by simp [State.Healthy]⟩
      simpa [hpc, hdata] using hturns
    · cases hstep
  · simp only [hpc, hno_error] at hstep
    cases hstep
    refine ⟨⟨by simpa [hpc] using hturns, rfl,
      by simpa [hpc] using haddress, by simpa [hpc] using hmemory, hhanded,
      by simpa [hpc] using hapart, hended, hnot_failed⟩,
      by simp [State.Healthy]⟩
  · simp only [hpc] at hstep
    cases hstep
    refine ⟨⟨by simpa [hpc] using hturns, hno_error,
      by simpa [hpc] using haddress, by simpa [hpc] using hmemory, hhanded,
      by simpa [hpc] using hapart, hended, hnot_failed⟩,
      by simp [State.Healthy]⟩
  · simp only [hpc] at hstep
    cases hstep
    obtain ⟨-, hdata, -, hscanner⟩ := halone (by simp [hpc])
    refine ⟨⟨by simpa [hpc] using hturns, hno_error,
      by simpa [hpc, hdata, hscanner] using haddress,
      by simpa [hpc, hdata, hscanner] using hmemory, hhanded,
      by simp [hdata, hscanner], hended, hnot_failed⟩,
      by simp [State.Healthy]⟩
  · simp only [hpc] at hstep
    cases hstep
    obtain ⟨-, hdata, hidle, hscanner⟩ := halone (by simp [hpc])
    refine ⟨⟨by simpa [hdata] using hidle, hno_error,
      by simpa [hpc, hdata, hscanner] using haddress,
      by simpa [hpc, hdata, hscanner] using hmemory, hhanded,
      by simp [hdata, hscanner], fun _ => rfl, hnot_failed⟩,
      by simp [State.Healthy]⟩

theorem Working.of_writeFails {written : ℕ}
    (hstep : state.writeFails written = some after) :
    Broken after := by
  have halone := hworking.writer_alone
  have hno_error := hworking.no_error
  have hended := hworking.ended
  have hfailed : state.writerHolds = true →
      state.datawritten = false ∧ state.scannerHolds = false ∧
        state.scanner ≠ .checking ∧ state.scanner ≠ .finished true := by
    intro hholds
    obtain ⟨hwritten, -, hscanner⟩ := halone hholds
    refine ⟨hwritten, hscanner, ?_, ?_⟩
    · intro hpc
      rw [hended (Or.inl hpc)] at hwritten
      cases hwritten
    · intro hpc
      rw [hended (Or.inr hpc)] at hwritten
      cases hwritten
  unfold State.writeFails at hstep
  cases hpc : state.writer <;> simp only [hpc] at hstep <;> cases hstep
  · obtain ⟨hwritten, hscanner, hchecking, hsuccess⟩ :=
      hfailed (by simp [hpc])
    exact ⟨by simp [State.Healthy], hsuccess,
      fun _ => ⟨hwritten, hscanner, hchecking, hno_error⟩, by simp⟩
  · obtain ⟨hwritten, hscanner, hchecking, hsuccess⟩ :=
      hfailed (by simp [hpc])
    exact ⟨by simp [State.Healthy], hsuccess,
      fun _ => ⟨hwritten, hscanner, hchecking, hno_error⟩, by simp⟩

end

section

variable (hbroken : Broken state)

include hbroken

theorem Broken.of_moves (hwriter : after.writer = state.writer)
    (herror : after.writeError = state.writeError)
    (hsuccess : after.scanner ≠ .finished true)
    (hfailing : state.writer = .failing →
      after.datawritten = false ∧ after.scannerHolds = false ∧
        after.scanner ≠ .checking) : Broken after where
  unhealthy := by
    unfold State.Healthy
    rw [hwriter]
    exact hbroken.unhealthy
  no_success := hsuccess
  failing := by
    intro hpc
    rw [hwriter] at hpc
    obtain ⟨hwritten, hholds, hchecking⟩ := hfailing hpc
    exact ⟨hwritten, hholds, hchecking,
      herror.trans (hbroken.failing hpc).2.2.2⟩
  known := by
    rw [hwriter, herror]
    exact hbroken.known

theorem Broken.of_scannerStep
    (hcheck : state.scanner = .checking → state.writer ≠ .failedSignalled)
    (hstep : state.scannerStep = some after) : Broken after := by
  have hfailing := hbroken.failing
  have hholds : state.scannerHolds = true → state.writer ≠ .failing := by
    intro hholds hwriter
    rw [(hfailing hwriter).2.1] at hholds
    cases hholds
  unfold State.scannerStep at hstep
  cases hpc : state.scanner with
  | checking =>
    have hwriter : state.writer ≠ .failing := fun hwriter =>
      (hfailing hwriter).2.2.1 hpc
    have herror : state.writeError = true :=
      hbroken.known hwriter (hcheck hpc)
    simp only [hpc, herror] at hstep
    cases hstep
    exact hbroken.of_moves rfl herror.symm (by simp)
      fun hfails => absurd hfails hwriter
  | filling => simp [hpc] at hstep
  | finished success => simp [hpc] at hstep
  | waiting =>
    simp only [hpc] at hstep
    split at hstep
    · rename_i hwritten
      cases hstep
      refine hbroken.of_moves rfl rfl (by simp) ?_
      intro hwriter
      rw [(hfailing hwriter).1] at hwritten
      cases hwritten
    · cases hstep
  | finalWaiting =>
    simp only [hpc] at hstep
    split at hstep
    · rename_i hwritten
      cases hstep
      refine hbroken.of_moves rfl rfl (by simp) ?_
      intro hwriter
      rw [(hfailing hwriter).1] at hwritten
      cases hwritten
    · cases hstep
  | waited =>
    simp only [hpc] at hstep
    cases hstep
    refine hbroken.of_moves rfl rfl ?_
      fun hwriter => absurd hwriter (hholds (by simp [hpc]))
    cases state.writeError <;> simp
  | finalEntry =>
    simp only [hpc] at hstep
    cases hstep
    refine hbroken.of_moves rfl rfl ?_ ?_
    · cases state.writeError <;> simp
    · intro hwriter
      obtain ⟨hwritten, -, -, herror⟩ := hfailing hwriter
      simp [hwritten, herror]
  | finalWaited =>
    simp only [hpc] at hstep
    cases hstep
    refine hbroken.of_moves rfl rfl ?_
      fun hwriter => absurd hwriter (hholds (by simp [hpc]))
    cases state.writeError <;> simp
  | handing =>
    simp only [hpc] at hstep
    cases hstep
    exact hbroken.of_moves rfl rfl (by simp)
      fun hwriter => absurd hwriter (hholds (by simp [hpc]))
  | signalling =>
    simp only [hpc] at hstep
    cases hstep
    exact hbroken.of_moves rfl rfl (by simp)
      fun hwriter => absurd hwriter (hholds (by simp [hpc]))
  | swapping =>
    simp only [hpc] at hstep
    cases hstep
    refine hbroken.of_moves rfl rfl (by simp) ?_
    intro hwriter
    exact ⟨(hfailing hwriter).1, by simp, by simp⟩
  | finalSignalling =>
    simp only [hpc] at hstep
    cases hstep
    exact hbroken.of_moves rfl rfl (by simp)
      fun hwriter => absurd hwriter (hholds (by simp [hpc]))

theorem Broken.of_scannerTimeout (hstep : state.scannerTimeout = some after) :
    Broken after := by
  unfold State.scannerTimeout at hstep
  cases hpc : state.scanner <;> simp only [hpc] at hstep <;> cases hstep
  · refine hbroken.of_moves rfl rfl ?_ ?_
    · cases state.writeError <;> simp
    · intro hwriter
      obtain ⟨hwritten, -, -, herror⟩ := hbroken.failing hwriter
      simp [hwritten, herror]
  · refine hbroken.of_moves rfl rfl ?_ ?_
    · cases state.writeError <;> simp
    · intro hwriter
      obtain ⟨hwritten, -, -, herror⟩ := hbroken.failing hwriter
      simp [hwritten, herror]

theorem Broken.of_writerStep (hstep : state.writerStep = some after) :
    Broken after := by
  obtain ⟨hunhealthy, hno_success, hfailing, hknown⟩ := hbroken
  unfold State.writerStep at hstep
  cases hpc : state.writer <;> simp only [hpc] at hstep
  case failing =>
    cases hstep
    exact ⟨by simp [State.Healthy], hno_success, by simp, by simp⟩
  case failedSignalled =>
    cases hstep
    exact ⟨by simp [State.Healthy], hno_success, by simp, fun _ _ => rfl⟩
  case errorSet =>
    cases hstep
    exact ⟨by simp [State.Healthy], hno_success, by simp,
      fun _ _ => hknown (by simp [hpc]) (by simp [hpc])⟩
  case errorSignalled =>
    cases hstep
    exact ⟨by simp [State.Healthy], hno_success, by simp,
      fun _ _ => hknown (by simp [hpc]) (by simp [hpc])⟩
  case exited => cases hstep
  all_goals
    refine absurd ?_ hunhealthy
    simp [State.Healthy, hpc]

theorem Broken.of_writeFails {written : ℕ} :
    state.writeFails written = none := by
  have hunhealthy := hbroken.unhealthy
  unfold State.writeFails
  cases hpc : state.writer <;> simp_all [State.Healthy]

/-- Nothing but the place of the scanner or the content of its buffers
changes while it scans. -/
theorem Broken.of_scan {next : ScannerPc}
    (hnext : next = .filling ∨ next = .waiting ∨ next = .finalEntry)
    (buffers : Bool → Buffers) (flushed : List Buffers) :
    Broken { state with
      scanner := next, buffers := buffers, flushed := flushed } := by
  refine hbroken.of_moves rfl rfl ?_ ?_
  · rcases hnext with rfl | rfl | rfl <;> simp
  · intro hwriter
    refine ⟨(hbroken.failing hwriter).1, ?_, ?_⟩ <;>
      rcases hnext with rfl | rfl | rfl <;> simp

end

end

/-! ## Whole runs -/

theorem scannerStep_writer (hstep : state.scannerStep = some after) :
    after.writer = state.writer := by
  unfold State.scannerStep at hstep
  split at hstep <;> first
    | cases hstep; rfl
    | (split at hstep <;> cases hstep; rfl)
    | cases hstep

theorem scannerTimeout_writer (hstep : state.scannerTimeout = some after) :
    after.writer = state.writer := by
  unfold State.scannerTimeout at hstep
  split at hstep <;> cases hstep <;> rfl

def Invariant (start state : State) : Prop :=
  (state.Healthy ∧ Working start state) ∨ Broken state

theorem Invariant.step (hinvariant : Invariant start state) {label : Label}
    (hcheck : ChecksInTime state label)
    (hstep : step state label = some after) : Invariant start after := by
  rcases hinvariant with ⟨hhealthy, hworking⟩ | hbroken
  · cases label with
    | fill content =>
      obtain ⟨hpc, hafter⟩ := Option.ite_none_right_eq_some.mp hstep
      cases hafter
      exact Or.inl ⟨hhealthy, hworking.of_fill hpc content⟩
    | flush =>
      obtain ⟨hpc, hafter⟩ := Option.ite_none_right_eq_some.mp hstep
      cases hafter
      exact Or.inl ⟨hhealthy, hworking.of_flush hpc⟩
    | finish =>
      obtain ⟨hpc, hafter⟩ := Option.ite_none_right_eq_some.mp hstep
      cases hafter
      exact Or.inl ⟨hhealthy, hworking.of_finish hpc⟩
    | scannerTimeout =>
      have hwriter := scannerTimeout_writer hstep
      refine Or.inl ⟨?_, hworking.of_scannerTimeout hstep⟩
      rw [State.Healthy, hwriter]
      exact hhealthy
    | scanner =>
      have hwriter := scannerStep_writer hstep
      refine Or.inl ⟨?_, hworking.of_scannerStep hstep⟩
      rw [State.Healthy, hwriter]
      exact hhealthy
    | writer =>
      obtain ⟨hafter, hstill⟩ := hworking.of_writerStep hhealthy hstep
      exact Or.inl ⟨hstill, hafter⟩
    | writeFails written => exact Or.inr (hworking.of_writeFails hstep)
  · right
    cases label with
    | fill content =>
      obtain ⟨hpc, hafter⟩ := Option.ite_none_right_eq_some.mp hstep
      cases hafter
      exact hpc ▸ hbroken.of_scan (Or.inl rfl) _ _
    | flush =>
      obtain ⟨hpc, hafter⟩ := Option.ite_none_right_eq_some.mp hstep
      cases hafter
      exact hbroken.of_scan (Or.inr (Or.inl rfl)) _ _
    | finish =>
      obtain ⟨hpc, hafter⟩ := Option.ite_none_right_eq_some.mp hstep
      cases hafter
      exact hbroken.of_scan (Or.inr (Or.inr rfl)) _ _
    | scannerTimeout => exact hbroken.of_scannerTimeout hstep
    | scanner => exact hbroken.of_scannerStep (hcheck rfl) hstep
    | writer => exact hbroken.of_writerStep hstep
    | writeFails written =>
      change state.writeFails written = some after at hstep
      rw [hbroken.of_writeFails] at hstep
      cases hstep

theorem State.Created.invariant (hcreated : start.Created) :
    Invariant start start := by
  obtain ⟨hscanner, hwriter, hwritten, havailable, herror, hflushed⟩ :=
    hcreated
  refine Or.inl ⟨Or.inl hwriter, ?_⟩
  constructor <;> simp_all [State.turns, State.scannerHolds,
    State.writerHolds, State.flyingAddress, State.flyingMemory,
    State.inFlight, State.unhanded]

theorem Invariant.files_eq (hinvariant : Invariant start state)
    (hsuccess : state.scanner = .finished true) :
    state.addressFile =
        start.addressFile ++ state.flushed.flatMap Buffers.address ∧
      state.memoryFile =
        start.memoryFile ++ state.flushed.flatMap Buffers.memory := by
  rcases hinvariant with ⟨_, hworking⟩ | hbroken
  · have hwritten := hworking.ended (Or.inr hsuccess)
    obtain ⟨_, havailable, hwriter⟩ := hworking.datawritten_alone hwritten
    have hflight : state.inFlight = false := by
      simp_all [State.inFlight, State.writerHolds]
    have haddress := hworking.address_eq
    have hmemory := hworking.memory_eq
    unfold State.flyingAddress State.unhanded at haddress
    unfold State.flyingMemory State.unhanded at hmemory
    simp only [hflight, hsuccess, Bool.false_eq_true, false_and,
      if_false, List.append_nil, List.flatMap_nil] at haddress hmemory
    exact ⟨haddress.symm, hmemory.symm⟩
  · exact absurd hsuccess hbroken.no_success

theorem Invariant.buffer_ne_current (hinvariant : Invariant start state)
    (hwriting : state.writer = .writingAddress ∨ state.writer = .writingMemory)
    (hfilling : state.scanner = .filling) :
    state.buffer ≠ state.current := by
  rcases hinvariant with ⟨_, hworking⟩ | hbroken
  · have hflight : state.inFlight = true := by
      rcases hwriting with hpc | hpc <;> simp [State.inFlight, hpc]
    exact hworking.apart hflight (by simp [hfilling]) (by simp [hfilling])
  · have hunhealthy := hbroken.unhealthy
    rcases hwriting with hpc | hpc <;> simp_all [State.Healthy]

/-- In every run in which the last check is in time, a scan that ends without
error has both files complete and in order, and the writer never writes the
buffers that are being filled. -/
theorem files_eq_flushed (start final : State) (hcreated : start.Created)
    (hrun : Reaches step ChecksInTime start final) :
    (final.scanner = .finished true →
      final.addressFile =
          start.addressFile ++ final.flushed.flatMap Buffers.address ∧
        final.memoryFile =
          start.memoryFile ++ final.flushed.flatMap Buffers.memory) ∧
    (final.writer = .writingAddress ∨ final.writer = .writingMemory →
      final.scanner = .filling → final.buffer ≠ final.current) := by
  have hinvariant : Invariant start final := by
    refine Reaches.invariant ?_ hrun hcreated.invariant
    intro before label after hbefore hcheck hstep
    exact hbefore.step hcheck hstep
  exact ⟨hinvariant.files_eq, hinvariant.buffer_ne_current⟩

def createdState : State where
  buffers := fun _ => ⟨[], []⟩
  current := false
  scanner := .filling
  writer := .waiting
  datawritten := true
  dataavailable := false
  buffer := false
  addressSize := 0
  memorySize := 0
  writeError := false
  addressFile := []
  memoryFile := []
  flushed := []

theorem createdState_created : createdState.Created := by
  constructor <;> rfl

def oneFlush : List Label :=
  [.fill ⟨[1], [2]⟩, .flush, .scanner, .scanner, .scanner, .scanner,
    .scanner, .finish, .writer, .writer, .writer, .writer, .writer,
    .scanner, .scanner, .scanner, .scanner, .scanner]

theorem files_eq_flushed_oneFlush :
    ∃ final, runLabels step oneFlush createdState = some final ∧
      final.addressFile = [1] ∧ final.memoryFile = [2] := by
  have hsome : (runLabels step oneFlush createdState).isSome = true := rfl
  obtain ⟨final, hfinal⟩ := Option.isSome_iff_exists.mp hsome
  have hrun : Reaches step ChecksInTime createdState final :=
    reaches_of_allowedLabels (fun _ _ => of_decide_eq_true) (by decide) hfinal
  have hfiles := (files_eq_flushed createdState final createdState_created
    hrun).1 (by cases hfinal; rfl)
  refine ⟨final, hfinal, ?_, ?_⟩
  · rw [hfiles.1]
    cases hfinal
    rfl
  · rw [hfiles.2]
    cases hfinal
    rfl

theorem failed_write_unnoticed :
    ∃ final, Reaches step (fun _ _ => True) createdState final ∧
      final.scanner = .finished true ∧
      final.addressFile ≠ createdState.addressFile ++
        final.flushed.flatMap Buffers.address := by
  have hsome : (runLabels step
      [.fill ⟨[1], [2]⟩, .flush, .scanner, .scanner, .scanner, .scanner,
        .scanner, .finish, .writer, .writer, .writeFails 0, .writer,
        .scanner, .scanner, .scanner, .scanner, .scanner]
      createdState).isSome = true := rfl
  obtain ⟨final, hfinal⟩ := Option.isSome_iff_exists.mp hsome
  refine ⟨final, reaches_of_runLabels (fun _ _ _ => trivial) hfinal, ?_⟩
  cases hfinal
  exact ⟨rfl, by decide⟩

/-! ## No wait for ever -/

/-- Someone is going to signal `datawritten`, or the error is known. -/
structure Live (state : State) : Prop where
  turn : state.datawritten = true ∨ state.dataavailable = true ∨
    state.scannerHolds = true ∨
    state.writer ≠ .waiting ∧ state.writer ≠ .exited ∨
    state.writeError = true
  known : state.writer = .errorSet ∨ state.writer = .errorSignalled ∨
    state.writer = .exited → state.writeError = true

theorem Live.of_step (hlive : Live state) {label : Label}
    (hstep : step state label = some after) : Live after := by
  obtain ⟨hturn, hknown⟩ := hlive
  cases label <;> simp only [step, State.scannerStep, State.scannerTimeout,
    State.writerStep, State.writeFails] at hstep <;> split at hstep <;>
    (try split at hstep) <;> cases hstep <;> constructor <;>
    simp_all [State.scannerHolds]

/-- In no run, failed writes or not, does the scanner wait for a signal that
nobody is going to give, unless the error is known, which ends its wait. -/
theorem scanner_never_stuck (start final : State) (hcreated : start.Created)
    (hrun : Reaches step (fun _ _ => True) start final)
    (hwaits : final.scanner = .waiting ∨ final.scanner = .finalWaiting) :
    final.datawritten = true ∨ final.writerStep.isSome = true ∨
      final.writeError = true := by
  have hlive : Live final := hrun.invariant
    (fun _ _ _ hbefore _ hstep => hbefore.of_step hstep)
    ⟨Or.inl hcreated.datawritten_eq, by simp [hcreated.writer_eq]⟩
  have hholds : final.scannerHolds = false := by
    rcases hwaits with hpc | hpc <;> simp [State.scannerHolds, hpc]
  obtain ⟨hturn, hknown⟩ := hlive
  cases hpc : final.writer <;> simp_all [State.writerStep]

/-- The second flush waits for the buffers of the first. -/
def twoFlushes : List Label :=
  [.fill ⟨[1], [2]⟩, .flush, .scanner, .scanner, .scanner, .scanner,
    .scanner, .fill ⟨[3], [4]⟩, .flush]

theorem scanner_never_stuck_twoFlushes :
    ∃ final, runLabels step twoFlushes createdState = some final ∧
      final.datawritten = false ∧
      (final.writerStep.isSome = true ∨ final.writeError = true) := by
  obtain ⟨final, hfinal, hwaits, hreset⟩ : ∃ final,
      runLabels step twoFlushes createdState = some final ∧
        final.scanner = .waiting ∧ final.datawritten = false :=
    ⟨_, rfl, rfl, rfl⟩
  have hturn := scanner_never_stuck createdState final createdState_created
    (reaches_of_runLabels (fun _ _ _ => trivial) hfinal) (Or.inl hwaits)
  exact ⟨final, hfinal, hreset, hturn.resolve_left (by simp [hreset])⟩

end ScanFileWriter
end CheatEngine
