import CheatEngine.TransitionSystem

/-!
# The circular object buffer

One thread writes, one thread reads.  Between them are two indices and two
events that are reset by the wait that they end: `hasData` is signalled after
every `Write`, `hasSpace` after every `Read` and from the start on.  `Write`
waits only when it finds the buffer full, `Read` only when it finds it empty,
so that an event may stay signalled long after what it was signalled for.
-/

namespace CheatEngine
namespace CircularBuffer

open List TransitionSystem

/-- Where the writer is in `Write`. -/
inductive WriterPc (Obj : Type*) where
  | idle
  | checking (o : Obj)
  | waiting (o : Obj)
  | storing (o : Obj)
  | publishing
  | signalling
deriving DecidableEq, Repr

inductive ReaderPc where
  | idle
  | checking
  | waiting
  | fetching
  | advancing
  | signalling
deriving DecidableEq, Repr

/-- `written` and `returned` are what was stored and what was fetched. -/
structure State (Obj : Type*) where
  buffer : ℕ → Option Obj
  ReadIndex : ℕ
  WriteIndex : ℕ
  hasData : Bool
  hasSpace : Bool
  writer : WriterPc Obj
  reader : ReaderPc
  written : List Obj
  returned : List Obj

inductive Label (Obj : Type*) where
  | write (o : Obj)
  | read
  | writer
  | reader
  | writerTimeout
  | readerTimeout
deriving DecidableEq, Repr

section

variable {Obj : Type*} (length : ℕ) (state : State Obj)

def nextwriteindex : ℕ :=
  (state.WriteIndex + 1) % length

def writerStep : Option (State Obj) :=
  match state.writer with
  | .idle => none
  | .checking o =>
    some { state with
      writer := if nextwriteindex length state = state.ReadIndex then
        .waiting o else .storing o }
  | .waiting o =>
    if state.hasSpace then
      some { state with writer := .storing o, hasSpace := false }
    else none
  | .storing o =>
    some { state with
      writer := .publishing
      buffer := Function.update state.buffer state.WriteIndex (some o)
      written := state.written ++ [o] }
  | .publishing =>
    some { state with
      writer := .signalling
      WriteIndex := nextwriteindex length state }
  | .signalling =>
    some { state with writer := .idle, hasData := true }

/-- An entry that was never stored is `nil`, and returns no object. -/
def readerStep : Option (State Obj) :=
  match state.reader with
  | .idle => none
  | .checking =>
    some { state with
      reader := if state.ReadIndex = state.WriteIndex then
        .waiting else .fetching }
  | .waiting =>
    if state.hasData then
      some { state with reader := .fetching, hasData := false }
    else none
  | .fetching =>
    some { state with
      reader := .advancing
      returned := state.returned ++
        (state.buffer state.ReadIndex).toList }
  | .advancing =>
    some { state with
      reader := .signalling
      ReadIndex := (state.ReadIndex + 1) % length }
  | .signalling =>
    some { state with reader := .idle, hasSpace := true }

def step : Label Obj → Option (State Obj)
  | .write o =>
    match state.writer with
    | .idle => some { state with writer := .checking o }
    | _ => none
  | .read =>
    match state.reader with
    | .idle => some { state with reader := .checking }
    | _ => none
  | .writer => writerStep length state
  | .reader => readerStep length state
  | .writerTimeout =>
    match state.writer with
    | .waiting _ => some { state with writer := .idle }
    | _ => none
  | .readerTimeout =>
    match state.reader with
    | .waiting => some { state with reader := .idle }
    | _ => none

end

structure State.Created {Obj : Type*} (state : State Obj) : Prop where
  ReadIndex_eq : state.ReadIndex = 0
  WriteIndex_eq : state.WriteIndex = 0
  hasData_eq : state.hasData = false
  hasSpace_eq : state.hasSpace = true
  writer_eq : state.writer = .idle
  reader_eq : state.reader = .idle
  written_eq : state.written = []
  returned_eq : state.returned = []

/-- A signal that ends a wait is not older than the reason for the wait: the
buffer is not full any more, or not empty.  With a single slot every call
waits, and there is nothing to ask for. -/
def SignalHolds {Obj : Type*} (length : ℕ) (state : State Obj)
    (label : Label Obj) : Prop :=
  length = 1 ∨
    (∀ o, label = .writer → state.writer = .waiting o →
      nextwriteindex length state ≠ state.ReadIndex) ∧
    (label = .reader → state.reader = .waiting →
      state.ReadIndex ≠ state.WriteIndex)

/-! ## Several slots -/

namespace State

variable {Obj : Type*} (state : State Obj)

def published : ℕ :=
  match state.writer with
  | .publishing => state.written.length - 1
  | _ => state.written.length

def consumed : ℕ :=
  match state.reader with
  | .advancing => state.returned.length - 1
  | _ => state.returned.length

end State

/-- The slots hold what is stored and not consumed, and one slot is free. -/
structure Fifo {Obj : Type*} (length : ℕ) (state : State Obj) : Prop where
  write_eq : state.WriteIndex = state.published % length
  read_eq : state.ReadIndex = state.consumed % length
  fetched : state.returned.length ≤ state.published
  free : state.written.length < state.consumed + length
  storing : ∀ o, state.writer = .storing o →
    state.written.length + 1 < state.consumed + length
  publishing : state.writer = .publishing → 0 < state.written.length
  fetching : state.reader = .fetching →
    state.returned.length < state.published
  advancing : state.reader = .advancing → 0 < state.returned.length
  contents : ∀ k, state.consumed ≤ k → k < state.written.length →
    state.buffer (k % length) = state.written[k]?
  order : state.returned <+: state.written

section

variable {Obj : Type*} {length : ℕ} {state after : State Obj}

theorem succ_mod_mod (index length : ℕ) :
    (index % length + 1) % length = (index + 1) % length :=
  Nat.mod_add_mod index length 1

theorem mod_ne_mod {first second length : ℕ} (hlt : first < second)
    (hround : second < first + length) :
    first % length ≠ second % length := by
  intro heq
  have hdvd := (Nat.modEq_iff_dvd' hlt.le).mp heq
  have hle := Nat.le_of_dvd (by omega) hdvd
  omega

section

variable (hfifo : Fifo length state)

include hfifo

theorem Fifo.room (hpublished : state.published = state.written.length)
    (hspace : nextwriteindex length state ≠ state.ReadIndex) :
    state.written.length + 1 < state.consumed + length := by
  have hfree := hfifo.free
  by_contra hfull
  have hlast : state.written.length + 1 = state.consumed + length := by
    omega
  apply hspace
  unfold nextwriteindex
  rw [hfifo.write_eq, hfifo.read_eq, succ_mod_mod, hpublished, hlast,
    Nat.add_mod_right]

theorem Fifo.present (hconsumed : state.consumed = state.returned.length)
    (hdata : state.ReadIndex ≠ state.WriteIndex) :
    state.returned.length < state.published := by
  apply hfifo.fetched.lt_of_ne
  intro hsame
  apply hdata
  rw [hfifo.read_eq, hfifo.write_eq, hconsumed, hsame]

theorem Fifo.of_writerPc {writer : WriterPc Obj} {hasSpace hasData : Bool}
    (hold : state.writer ≠ .publishing) (hnew : writer ≠ .publishing)
    (hstoring : ∀ o, writer = .storing o →
      state.written.length + 1 < state.consumed + length) :
    Fifo length { state with writer, hasSpace, hasData } := by
  have hpublished : state.published = state.written.length := by
    unfold State.published
    split
    · contradiction
    · rfl
  have hafter : State.published { state with writer, hasSpace, hasData } =
      state.written.length := by
    unfold State.published
    split
    · contradiction
    · rfl
  constructor
  · rw [hafter, ← hpublished]
    exact hfifo.write_eq
  · exact hfifo.read_eq
  · rw [hafter, ← hpublished]
    exact hfifo.fetched
  · exact hfifo.free
  · exact hstoring
  · exact fun hpc => absurd hpc hnew
  · intro hpc
    rw [hafter, ← hpublished]
    exact hfifo.fetching hpc
  · exact hfifo.advancing
  · exact hfifo.contents
  · exact hfifo.order

theorem Fifo.of_store {o : Obj} (hpc : state.writer = .storing o) :
    Fifo length { state with
      writer := .publishing
      buffer := Function.update state.buffer state.WriteIndex (some o)
      written := state.written ++ [o] } := by
  have hpublished : state.published = state.written.length := by
    unfold State.published
    rw [hpc]
  have hroom := hfifo.storing o hpc
  have hfetched := hfifo.fetched
  have hafter : State.published { state with
      writer := .publishing
      buffer := Function.update state.buffer state.WriteIndex (some o)
      written := state.written ++ [o] } = state.written.length := by
    simp [State.published]
  constructor
  · rw [hafter, ← hpublished]
    exact hfifo.write_eq
  · exact hfifo.read_eq
  · rw [hafter, ← hpublished]
    exact hfetched
  · simp only [length_append, length_singleton]
    exact hroom
  · intro other hother
    cases hother
  · intro _
    simp
  · intro hreader
    rw [hafter, ← hpublished]
    exact hfifo.fetching hreader
  · exact hfifo.advancing
  · intro k hconsumed hk
    simp only [length_append, length_singleton] at hk
    change state.consumed ≤ k at hconsumed
    dsimp only
    rw [hfifo.write_eq, hpublished]
    rcases Nat.lt_succ_iff_lt_or_eq.mp hk with hlt | rfl
    · rw [Function.update_of_ne (mod_ne_mod hlt (by omega)),
        getElem?_append_left hlt]
      exact hfifo.contents k hconsumed hlt
    · rw [Function.update_self, getElem?_concat_length]
  · exact hfifo.order.trans (prefix_append _ _)

theorem Fifo.of_publish (hpc : state.writer = .publishing) :
    Fifo length { state with
      writer := .signalling
      WriteIndex := nextwriteindex length state } := by
  have hpos := hfifo.publishing hpc
  have hpublished : state.published = state.written.length - 1 := by
    unfold State.published
    rw [hpc]
  have hfetched := hfifo.fetched
  constructor
  · change nextwriteindex length state = state.written.length % length
    unfold nextwriteindex
    rw [hfifo.write_eq, succ_mod_mod, hpublished, Nat.sub_add_cancel hpos]
  · exact hfifo.read_eq
  · change state.returned.length ≤ state.written.length
    omega
  · exact hfifo.free
  · intro other hother
    cases hother
  · intro hother
    cases hother
  · intro hreader
    have hlt := hfifo.fetching hreader
    change state.returned.length < state.written.length
    omega
  · exact hfifo.advancing
  · exact hfifo.contents
  · exact hfifo.order

theorem Fifo.of_writerStep (hholds : ∀ o, state.writer = .waiting o →
      nextwriteindex length state ≠ state.ReadIndex)
    (hstep : writerStep length state = some after) :
    Fifo length after := by
  unfold writerStep at hstep
  cases hpc : state.writer with
  | idle => simp [hpc] at hstep
  | checking o =>
    simp only [hpc] at hstep
    cases hstep
    have hpublished : state.published = state.written.length := by
      unfold State.published
      rw [hpc]
    apply hfifo.of_writerPc
    · simp [hpc]
    · split <;> simp
    · intro other hother
      split at hother
      · cases hother
      · rename_i hspace
        exact hfifo.room hpublished hspace
  | waiting o =>
    simp only [hpc] at hstep
    split at hstep
    · cases hstep
      have hpublished : state.published = state.written.length := by
        unfold State.published
        rw [hpc]
      apply hfifo.of_writerPc
      · simp [hpc]
      · simp
      · exact fun _ _ => hfifo.room hpublished (hholds o hpc)
    · cases hstep
  | storing o =>
    simp only [hpc] at hstep
    cases hstep
    exact hfifo.of_store hpc
  | publishing =>
    simp only [hpc] at hstep
    cases hstep
    exact hfifo.of_publish hpc
  | signalling =>
    simp only [hpc] at hstep
    cases hstep
    apply hfifo.of_writerPc <;> simp [hpc]

theorem Fifo.of_readerPc {reader : ReaderPc} {hasSpace hasData : Bool}
    (hold : state.reader ≠ .advancing) (hnew : reader ≠ .advancing)
    (hfetching : reader = .fetching → state.returned.length < state.published) :
    Fifo length { state with reader, hasSpace, hasData } := by
  have hconsumed : state.consumed = state.returned.length := by
    unfold State.consumed
    split
    · contradiction
    · rfl
  have hafter : State.consumed { state with reader, hasSpace, hasData } =
      state.consumed := by
    rw [hconsumed]
    unfold State.consumed
    split
    · contradiction
    · rfl
  constructor
  · exact hfifo.write_eq
  · rw [hafter]
    exact hfifo.read_eq
  · exact hfifo.fetched
  · rw [hafter]
    exact hfifo.free
  · intro o hpc
    rw [hafter]
    exact hfifo.storing o hpc
  · exact hfifo.publishing
  · exact hfetching
  · exact fun hpc => absurd hpc hnew
  · intro k hk
    rw [hafter] at hk
    exact hfifo.contents k hk
  · exact hfifo.order

theorem Fifo.of_fetch (hpc : state.reader = .fetching) :
    Fifo length { state with
      reader := .advancing
      returned := state.returned ++
        (state.buffer state.ReadIndex).toList } := by
  have hlt := hfifo.fetching hpc
  have hpublished : state.published ≤ state.written.length := by
    unfold State.published
    split <;> omega
  have hconsumed : state.consumed = state.returned.length := by
    unfold State.consumed
    rw [hpc]
  have hwritten : state.returned.length < state.written.length := by omega
  have hentry := hfifo.contents state.consumed le_rfl (by omega)
  rw [← hfifo.read_eq, hconsumed, getElem?_eq_getElem hwritten] at hentry
  rw [hentry, Option.toList_some]
  have hafter : State.consumed { state with
      reader := .advancing
      returned := state.returned ++ [state.written[state.returned.length]] } =
        state.consumed := by
    rw [hconsumed]
    simp [State.consumed]
  constructor
  · exact hfifo.write_eq
  · rw [hafter]
    exact hfifo.read_eq
  · simp only [length_append, length_singleton]
    exact hlt
  · rw [hafter]
    exact hfifo.free
  · intro o hwriter
    rw [hafter]
    exact hfifo.storing o hwriter
  · exact hfifo.publishing
  · intro hother
    cases hother
  · intro _
    simp
  · intro k hk
    rw [hafter] at hk
    exact hfifo.contents k hk
  · obtain ⟨rest, hrest⟩ := hfifo.order
    have htake : state.returned = state.written.take
        state.returned.length := by
      rw [← hrest, take_left]
    dsimp only
    have hnext := take_concat_get' state.written
      state.returned.length hwritten
    rw [← htake] at hnext
    rw [hnext]
    exact take_prefix _ _

theorem Fifo.of_advance (hpc : state.reader = .advancing) :
    Fifo length { state with
      reader := .signalling
      ReadIndex := (state.ReadIndex + 1) % length } := by
  have hpos := hfifo.advancing hpc
  have hconsumed : state.consumed = state.returned.length - 1 := by
    unfold State.consumed
    rw [hpc]
  have hfree := hfifo.free
  constructor
  · exact hfifo.write_eq
  · change (state.ReadIndex + 1) % length = state.returned.length % length
    rw [hfifo.read_eq, succ_mod_mod, hconsumed, Nat.sub_add_cancel hpos]
  · exact hfifo.fetched
  · change state.written.length < state.returned.length + length
    omega
  · intro o hwriter
    have hroom := hfifo.storing o hwriter
    change state.written.length + 1 < state.returned.length + length
    omega
  · exact hfifo.publishing
  · intro hother
    cases hother
  · intro hother
    cases hother
  · intro k hk
    change state.returned.length ≤ k at hk
    exact hfifo.contents k (by omega)
  · exact hfifo.order

theorem Fifo.of_readerStep
    (hholds : state.reader = .waiting → state.ReadIndex ≠ state.WriteIndex)
    (hstep : readerStep length state = some after) :
    Fifo length after := by
  unfold readerStep at hstep
  cases hpc : state.reader with
  | idle => simp [hpc] at hstep
  | checking =>
    simp only [hpc] at hstep
    cases hstep
    have hconsumed : state.consumed = state.returned.length := by
      unfold State.consumed
      rw [hpc]
    apply hfifo.of_readerPc
    · simp [hpc]
    · split <;> simp
    · intro hother
      split at hother
      · cases hother
      · rename_i hdata
        exact hfifo.present hconsumed hdata
  | waiting =>
    simp only [hpc] at hstep
    split at hstep
    · cases hstep
      have hconsumed : state.consumed = state.returned.length := by
        unfold State.consumed
        rw [hpc]
      apply hfifo.of_readerPc
      · simp [hpc]
      · simp
      · exact fun _ => hfifo.present hconsumed (hholds hpc)
    · cases hstep
  | fetching =>
    simp only [hpc] at hstep
    cases hstep
    exact hfifo.of_fetch hpc
  | advancing =>
    simp only [hpc] at hstep
    cases hstep
    exact hfifo.of_advance hpc
  | signalling =>
    simp only [hpc] at hstep
    cases hstep
    apply hfifo.of_readerPc <;> simp [hpc]

theorem Fifo.of_step (hmore : length ≠ 1) {label : Label Obj}
    (hholds : SignalHolds length state label)
    (hstep : step length state label = some after) : Fifo length after := by
  obtain ⟨hwriter, hreader⟩ := hholds.resolve_left hmore
  cases label with
  | write o =>
    simp only [step] at hstep
    split at hstep
    · rename_i hpc
      cases hstep
      apply hfifo.of_writerPc <;> simp [hpc]
    · cases hstep
  | read =>
    simp only [step] at hstep
    split at hstep
    · rename_i hpc
      cases hstep
      apply hfifo.of_readerPc <;> simp [hpc]
    · cases hstep
  | writer => exact hfifo.of_writerStep (fun o => hwriter o rfl) hstep
  | reader => exact hfifo.of_readerStep (hreader rfl) hstep
  | writerTimeout =>
    simp only [step] at hstep
    split at hstep
    · rename_i hpc
      cases hstep
      apply hfifo.of_writerPc <;> simp [hpc]
    · cases hstep
  | readerTimeout =>
    simp only [step] at hstep
    split at hstep
    · rename_i hpc
      cases hstep
      apply hfifo.of_readerPc <;> simp [hpc]
    · cases hstep

end

theorem State.Created.fifo (hcreated : state.Created)
    (hlength : 0 < length) : Fifo length state := by
  obtain ⟨hread, hwrite, -, -, hwriter, hreader, hwritten, hreturned⟩ :=
    hcreated
  have hpublished : state.published = 0 := by
    simp [State.published, hwriter, hwritten]
  have hconsumed : state.consumed = 0 := by
    simp [State.consumed, hreader, hreturned]
  constructor <;> simp_all

end

/-! ## A single slot -/

/-- The writer took `hasSpace` and has not signalled yet. -/
def WriterPc.holds {Obj : Type*} : WriterPc Obj → Bool
  | storing _ | publishing | signalling => true
  | _ => false

def WriterPc.stored {Obj : Type*} : WriterPc Obj → Bool
  | publishing | signalling => true
  | _ => false

/-- The reader took `hasData` and has not signalled yet. -/
def ReaderPc.holds : ReaderPc → Bool
  | fetching | advancing | signalling => true
  | _ => false

def ReaderPc.fetches : ReaderPc → Bool
  | fetching => true
  | _ => false

namespace State

variable {Obj : Type*} (state : State Obj)

def unread : Bool :=
  state.writer.stored || state.hasData || state.reader.fetches

/-- Exactly one of the two threads and the two events has the slot. -/
def turns : ℕ :=
  state.hasSpace.toNat + state.writer.holds.toNat + state.hasData.toNat +
    state.reader.holds.toNat

end State

structure Single {Obj : Type*} (state : State Obj) : Prop where
  indices : state.ReadIndex = 0 ∧ state.WriteIndex = 0
  turns_eq : state.turns = 1
  empty : state.unread = false → state.written = state.returned
  slot : state.unread = true →
    ∃ o, state.buffer 0 = some o ∧ state.written = state.returned ++ [o]

section

variable {Obj : Type*} {state after : State Obj}

attribute [local simp] State.turns State.unread WriterPc.holds
  WriterPc.stored ReaderPc.holds ReaderPc.fetches nextwriteindex

section

variable (hsingle : Single state)

include hsingle

theorem Single.writer_alone (hholds : state.writer.holds = true) :
    state.hasSpace = false ∧ state.hasData = false ∧
      state.reader.holds = false := by
  have hturns := hsingle.turns_eq
  rw [State.turns, hholds] at hturns
  refine ⟨?_, ?_, ?_⟩ <;> rw [← Bool.toNat_eq_zero] <;>
    simp only [Bool.toNat_true] at hturns <;> omega

theorem Single.reader_alone (hholds : state.reader.holds = true) :
    state.hasSpace = false ∧ state.hasData = false ∧
      state.writer.holds = false := by
  have hturns := hsingle.turns_eq
  rw [State.turns, hholds] at hturns
  refine ⟨?_, ?_, ?_⟩ <;> rw [← Bool.toNat_eq_zero] <;>
    simp only [Bool.toNat_true] at hturns <;> omega

theorem Single.of_same
    (hindices : after.ReadIndex = 0 ∧ after.WriteIndex = 0)
    (hturns : after.turns = 1) (hunread : after.unread = state.unread)
    (hbuffer : after.buffer = state.buffer)
    (hwritten : after.written = state.written)
    (hreturned : after.returned = state.returned) : Single after where
  indices := hindices
  turns_eq := hturns
  empty := by
    rw [hunread, hwritten, hreturned]
    exact hsingle.empty
  slot := by
    rw [hunread, hbuffer, hwritten, hreturned]
    exact hsingle.slot

theorem Single.of_writerStep (hstep : writerStep 1 state = some after) :
    Single after := by
  have hindices := hsingle.indices
  have hturns := hsingle.turns_eq
  unfold writerStep at hstep
  cases hpc : state.writer with
  | idle => simp [hpc] at hstep
  | checking o =>
    simp only [hpc, nextwriteindex, Nat.mod_one, hindices.1, if_true] at hstep
    cases hstep
    exact hsingle.of_same ⟨rfl, hindices.2⟩ (by simpa [hpc] using hturns)
      (by simp [hpc]) rfl rfl rfl
  | waiting o =>
    simp only [hpc] at hstep
    split at hstep
    · rename_i hspace
      cases hstep
      exact hsingle.of_same hindices
        (by simpa [hpc, hspace] using hturns) (by simp [hpc]) rfl rfl rfl
    · cases hstep
  | storing o =>
    simp only [hpc] at hstep
    cases hstep
    have hholds : state.writer.holds = true := by rw [hpc]; rfl
    obtain ⟨-, hdata, hreader⟩ := hsingle.writer_alone hholds
    have hfetches : state.reader.fetches = false := by
      cases hreaderPc : state.reader <;> simp_all
    have hnone : state.unread = false := by
      rw [State.unread, hpc, hdata, hfetches]
      rfl
    have hsame := hsingle.empty hnone
    refine ⟨hindices, by simpa [hpc] using hturns, by simp, fun _ => ?_⟩
    refine ⟨o, ?_, by rw [hsame]⟩
    dsimp only
    rw [hindices.2, Function.update_self]
  | publishing =>
    simp only [hpc] at hstep
    cases hstep
    exact hsingle.of_same ⟨hindices.1, Nat.mod_one _⟩
      (by simpa [hpc] using hturns) (by simp [hpc]) rfl rfl rfl
  | signalling =>
    simp only [hpc] at hstep
    cases hstep
    have hholds : state.writer.holds = true := by rw [hpc]; rfl
    obtain ⟨hspace, -, hreader⟩ := hsingle.writer_alone hholds
    refine hsingle.of_same hindices ?_ (by simp [hpc]) rfl rfl rfl
    rw [State.turns, hspace, hreader]
    rfl

theorem Single.of_readerStep (hstep : readerStep 1 state = some after) :
    Single after := by
  have hindices := hsingle.indices
  have hturns := hsingle.turns_eq
  unfold readerStep at hstep
  cases hpc : state.reader with
  | idle => simp [hpc] at hstep
  | checking =>
    simp only [hpc, hindices.1, hindices.2, if_true] at hstep
    cases hstep
    exact hsingle.of_same ⟨rfl, rfl⟩ (by simpa [hpc] using hturns)
      (by simp [hpc]) rfl rfl rfl
  | waiting =>
    simp only [hpc] at hstep
    split at hstep
    · rename_i hdata
      cases hstep
      exact hsingle.of_same hindices (by simpa [hpc, hdata] using hturns)
        (by simp [hdata]) rfl rfl rfl
    · cases hstep
  | fetching =>
    simp only [hpc] at hstep
    cases hstep
    have hholds : state.reader.holds = true := by rw [hpc]; rfl
    obtain ⟨-, hdata, hwriter⟩ := hsingle.reader_alone hholds
    have hstored : state.writer.stored = false := by
      cases hwriterPc : state.writer <;> simp_all
    obtain ⟨o, hbuffer, hwritten⟩ := hsingle.slot (by simp [hpc])
    refine ⟨hindices, by simpa [hpc] using hturns, fun _ => ?_, ?_⟩
    · dsimp only
      rw [hindices.1, hbuffer, hwritten]
      rfl
    · intro hunread
      rw [State.unread, hdata, hstored] at hunread
      cases hunread
  | advancing =>
    simp only [hpc] at hstep
    cases hstep
    exact hsingle.of_same ⟨Nat.mod_one _, hindices.2⟩
      (by simpa [hpc] using hturns) (by simp [hpc]) rfl rfl rfl
  | signalling =>
    simp only [hpc] at hstep
    cases hstep
    have hholds : state.reader.holds = true := by rw [hpc]; rfl
    obtain ⟨-, hdata, hwriter⟩ := hsingle.reader_alone hholds
    refine hsingle.of_same hindices ?_ (by simp [hpc]) rfl rfl rfl
    rw [State.turns, hdata, hwriter]
    rfl

theorem Single.of_step {label : Label Obj}
    (hstep : step 1 state label = some after) : Single after := by
  have hindices := hsingle.indices
  have hturns := hsingle.turns_eq
  cases label with
  | writer => exact hsingle.of_writerStep hstep
  | reader => exact hsingle.of_readerStep hstep
  | write o =>
    simp only [step] at hstep
    split at hstep
    · rename_i hpc
      cases hstep
      exact hsingle.of_same hindices (by simpa [hpc] using hturns)
        (by simp [hpc]) rfl rfl rfl
    · cases hstep
  | read =>
    simp only [step] at hstep
    split at hstep
    · rename_i hpc
      cases hstep
      exact hsingle.of_same hindices (by simpa [hpc] using hturns)
        (by simp [hpc]) rfl rfl rfl
    · cases hstep
  | writerTimeout =>
    simp only [step] at hstep
    split at hstep
    · rename_i hpc
      cases hstep
      exact hsingle.of_same hindices (by simpa [hpc] using hturns)
        (by simp [hpc]) rfl rfl rfl
    · cases hstep
  | readerTimeout =>
    simp only [step] at hstep
    split at hstep
    · rename_i hpc
      cases hstep
      exact hsingle.of_same hindices (by simpa [hpc] using hturns)
        (by simp [hpc]) rfl rfl rfl
    · cases hstep

end

theorem State.Created.single (hcreated : state.Created) : Single state := by
  obtain ⟨hread, hwrite, hdata, hspace, hwriter, hreader, hwritten,
    hreturned⟩ := hcreated
  constructor <;> simp_all

theorem Single.order (hsingle : Single state) :
    state.returned <+: state.written := by
  cases hunread : state.unread with
  | false => rw [hsingle.empty hunread]
  | true =>
    obtain ⟨o, -, hwritten⟩ := hsingle.slot hunread
    rw [hwritten]
    exact prefix_append _ _

end

/-- In a run in which no wait is ended by an old signal, the objects that were
returned are the first ones that were written. -/
theorem returned_prefix {Obj : Type*} {length : ℕ} (hlength : 0 < length)
    {start final : State Obj} (hcreated : start.Created)
    (hrun : Reaches (step length) (SignalHolds length) start final) :
    final.returned <+: final.written := by
  by_cases hone : length = 1
  · subst hone
    have hsingle : Single final := hrun.invariant
      (fun _ _ _ hbefore _ hstep => hbefore.of_step hstep) hcreated.single
    exact hsingle.order
  · have hfifo : Fifo length final := hrun.invariant
      (fun _ _ _ hbefore hholds hstep => hbefore.of_step hone hholds hstep)
      (hcreated.fifo hlength)
    exact hfifo.order

def created : State ℕ where
  buffer := fun _ => none
  ReadIndex := 0
  WriteIndex := 0
  hasData := false
  hasSpace := true
  writer := .idle
  reader := .idle
  written := []
  returned := []

theorem created_created : created.Created :=
  ⟨rfl, rfl, rfl, rfl, rfl, rfl, rfl, rfl⟩

/-- `SignalHolds` for a number of slots that is not 1. -/
def signalHolds (length : ℕ) (state : State ℕ) : Label ℕ → Bool
  | .writer =>
    match state.writer with
    | .waiting _ => nextwriteindex length state ≠ state.ReadIndex
    | _ => true
  | .reader =>
    match state.reader with
    | .waiting => state.ReadIndex ≠ state.WriteIndex
    | _ => true
  | _ => true

theorem signalHolds_sound {length : ℕ} {state : State ℕ} {label : Label ℕ}
    (hholds : signalHolds length state label = true) :
    SignalHolds length state label := by
  right
  constructor
  · rintro o rfl hpc
    simpa [signalHolds, hpc] using hholds
  · rintro rfl hpc
    simpa [signalHolds, hpc] using hholds

def patientRead : List (Label ℕ) :=
  [.read, .reader, .write 7, .writer, .writer, .writer, .writer, .reader,
    .reader]

theorem returned_patientRead :
    ∃ final, runLabels (step 2) patientRead created = some final ∧
      final.returned = [7] ∧ final.returned <+: final.written := by
  have hsome : (runLabels (step 2) patientRead created).isSome = true := by
    decide
  obtain ⟨final, hfinal⟩ := Option.isSome_iff_exists.mp hsome
  have hreturned : (runLabels (step 2) patientRead created).map
      State.returned = some [7] := by decide
  rw [hfinal] at hreturned
  have hholds : allowedLabels (step 2) (signalHolds 2) patientRead created =
      true := by decide
  exact ⟨final, hfinal, Option.some.inj hreturned,
    returned_prefix (by decide) created_created (reaches_of_allowedLabels
      (fun _ _ => signalHolds_sound) hholds hfinal)⟩

/-- One object is written and read.  `hasData` is still signalled, so that two
more reads return: nothing, and the object again. -/
def eagerRead : List (Label ℕ) :=
  [.write 7, .writer, .writer, .writer, .writer,
    .read, .reader, .reader, .reader, .reader,
    .read, .reader, .reader, .reader, .reader, .reader,
    .read, .reader, .reader]

theorem eagerRead_returns_twice :
    (runLabels (step 2) eagerRead created).map (fun final =>
      (final.written, final.returned)) = some ([7], [7, 7]) := by
  decide

theorem not_returned_prefix :
    ¬ ∀ final, Reaches (step 2) (fun _ _ => True) created final →
      final.returned <+: final.written := by
  intro hall
  have htwice := eagerRead_returns_twice
  obtain ⟨final, hfinal, hboth⟩ := Option.map_eq_some_iff.mp htwice
  have hprefix := hall final
    (reaches_of_runLabels (fun _ _ _ => trivial) hfinal)
  obtain ⟨hwritten, hreturned⟩ := Prod.mk.inj hboth
  rw [hwritten, hreturned] at hprefix
  exact absurd hprefix.length_le (by decide)

/-! ## No wait is forgotten -/

/-- A thread that waits has a reason to, or a signal that ends the wait is set
or about to be set. -/
structure Awake {Obj : Type*} (length : ℕ) (state : State Obj) : Prop where
  writer : ∀ o, state.writer = .waiting o →
    nextwriteindex length state = state.ReadIndex ∨
      state.hasSpace = true ∨ state.reader = .signalling
  reader : state.reader = .waiting →
    state.ReadIndex = state.WriteIndex ∨
      state.hasData = true ∨ state.writer = .signalling

section

variable {Obj : Type*} {length : ℕ} {state after : State Obj}

theorem Awake.of_step (hawake : Awake length state) {label : Label Obj}
    (hstep : step length state label = some after) :
    Awake length after := by
  obtain ⟨hwriter, hreader⟩ := hawake
  cases label <;> simp only [step, writerStep, readerStep] at hstep <;>
    split at hstep <;> (try split at hstep) <;> cases hstep <;>
    constructor <;> simp_all [nextwriteindex]

section

variable {o : Obj} (hwriter : state.writer = .waiting o)
  (hreader : state.reader = .waiting)

include hwriter hreader

theorem Awake.signalled (hawake : Awake length state) (hlength : 0 < length)
    (hmore : length ≠ 1) : state.hasSpace = true ∨ state.hasData = true := by
  have hnot_both : ¬ (nextwriteindex length state = state.ReadIndex ∧
      state.ReadIndex = state.WriteIndex) := by
    rintro ⟨hfull, hempty⟩
    rw [nextwriteindex, hempty] at hfull
    have hlt : state.WriteIndex < length := hfull ▸ Nat.mod_lt _ hlength
    rcases Nat.lt_or_eq_of_le (Nat.succ_le_of_lt hlt) with hnext | hlast
    · rw [Nat.mod_eq_of_lt hnext] at hfull
      omega
    · rw [← Nat.succ_eq_add_one, hlast, Nat.mod_self] at hfull
      omega
  rcases hawake.writer o hwriter with hfull | hspace | hsignals
  · rcases hawake.reader hreader with hempty | hdata | hsignals
    · exact absurd ⟨hfull, hempty⟩ hnot_both
    · exact Or.inr hdata
    · simp [hwriter] at hsignals
  · exact Or.inl hspace
  · simp [hreader] at hsignals

theorem Single.signalled (hsingle : Single state) :
    state.hasSpace = true ∨ state.hasData = true := by
  have hturns := hsingle.turns_eq
  rw [State.turns, hwriter, hreader] at hturns
  cases hspace : state.hasSpace <;> cases hdata : state.hasData <;>
    simp_all [WriterPc.holds, ReaderPc.holds]

end

/-- Whatever signals ended the waits before, none that is needed is lost, and
the two threads never wait for each other. -/
theorem waits_end (hlength : 0 < length) {start final : State Obj}
    (hcreated : start.Created)
    (hrun : Reaches (step length) (fun _ _ => True) start final) :
    Awake length final ∧
      ∀ o, final.writer = .waiting o → final.reader = .waiting →
        final.hasSpace = true ∨ final.hasData = true := by
  have hawake : Awake length final := hrun.invariant
    (fun _ _ _ hbefore _ hstep => hbefore.of_step hstep)
    ⟨by simp [hcreated.writer_eq], by simp [hcreated.reader_eq]⟩
  refine ⟨hawake, fun o hwriter hreader => ?_⟩
  by_cases hone : length = 1
  · subst hone
    have hsingle : Single final := hrun.invariant
      (fun _ _ _ hbefore _ hstep => hbefore.of_step hstep) hcreated.single
    exact hsingle.signalled hwriter hreader
  · exact hawake.signalled hwriter hreader hlength hone

end

theorem waits_end_single :
    ∃ final, runLabels (step 1) [.write 7, .writer, .read, .reader] created =
      some final ∧ (final.hasSpace = true ∨ final.hasData = true) := by
  have hsome : (runLabels (step 1) [.write 7, .writer, .read, .reader]
      created).isSome = true := by
    decide
  obtain ⟨final, hfinal⟩ := Option.isSome_iff_exists.mp hsome
  refine ⟨final, hfinal, (waits_end (by decide) created_created
    (reaches_of_runLabels (fun _ _ _ => trivial) hfinal)).2 7 ?_ ?_⟩ <;>
    cases hfinal <;> rfl

end CircularBuffer
end CheatEngine
