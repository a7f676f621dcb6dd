import CheatEngine.TransitionSystem

/-!
# The parents that wait for a pointer scan child

A child works for one parent at a time; the others wait in `parentqueue`.  An
entry leaves the queue when it becomes the parent (because its scan is the one
that the child works at, or because it is the first in the line) or when it
can't be reached any more.  Each time the entries behind it are moved up by a
loop of its own.

`parentcs` is held while `UpdateStatus` looks for a parent and while it
notifies the queue, so only its own steps happen in these phases.
-/

namespace CheatEngine
namespace PointerscanParentQueue

open List TransitionSystem

section

variable {Entry : Type*}

/-- `for i:=first to last do entries[i]:=entries[i+1]`; the first argument is
the number of turns. -/
def shiftDown : ℕ → ℕ → List Entry → List Entry
  | 0, _, entries => entries
  | turns + 1, i, entries =>
    shiftDown turns (i + 1)
      (match entries[i + 1]? with
        | some entry => entries.set i entry
        | none => entries)

/-- The loop up to `length-2`, and `setlength` to one entry less. -/
def removeShifted (first : ℕ) (entries : List Entry) : List Entry :=
  (shiftDown (entries.length - 1 - first) first entries).dropLast

theorem shiftDown_eq (turns i : ℕ) (entries : List Entry)
    (hroom : i + turns < entries.length) :
    shiftDown turns i entries =
      entries.take i ++ (entries.drop (i + 1)).take turns ++
        entries.drop (i + turns) := by
  induction turns generalizing i entries with
  | zero => simp [shiftDown]
  | succ turns ih =>
    have hi : i + 1 < entries.length := by omega
    rw [shiftDown, getElem?_eq_getElem hi]
    dsimp only
    rw [ih (i + 1) _ (by rw [length_set]; omega),
      take_succ_eq_append_getElem (by rw [length_set]; omega),
      getElem_set_self, take_set_of_le (Nat.le_refl i),
      drop_set_of_lt (by omega), drop_set_of_lt (by omega),
      drop_eq_getElem_cons hi, take_succ_cons,
      Nat.add_right_comm i 1 turns, Nat.add_assoc i turns 1]
    simp

theorem removeShifted_of_lt {first : ℕ} {entries : List Entry}
    (hfirst : first < entries.length) :
    removeShifted first entries = entries.eraseIdx first := by
  have hlast : first + (entries.length - 1 - first) = entries.length - 1 := by
    omega
  have hone : (entries.drop (entries.length - 1)).length = 1 := by
    rw [length_drop]
    omega
  have hne : entries.drop (entries.length - 1) ≠ [] := by
    intro hnil
    rw [hnil] at hone
    cases hone
  have hbehind : (entries.drop (first + 1)).take
      (entries.length - 1 - first) = entries.drop (first + 1) :=
    take_of_length_le (by rw [length_drop]; omega)
  rw [removeShifted, shiftDown_eq _ _ _ (by omega), hlast, hbehind,
    dropLast_append_of_ne_nil hne, dropLast_eq_take, hone,
    eraseIdx_eq_take_drop_succ]
  simp

theorem removeShifted_of_ge {first : ℕ} {entries : List Entry}
    (hfirst : entries.length ≤ first) :
    removeShifted first entries = entries.dropLast := by
  have hturns : entries.length - 1 - first = 0 := by omega
  rw [removeShifted, hturns, shiftDown]

end

/-! ## The controller -/

structure ConnectData where
  ip : List UInt8
  port : UInt16
  password : List UInt8
deriving DecidableEq, Repr

/-- `TPointerscanControllerParent`; a socket is known by a number. -/
structure ControllerParent where
  socket : Option ℕ := none
  scanid : UInt32 := 0
  name : List UInt8 := []
  iConnectedTo : Bool := false
  connectdata : ConnectData := ⟨[], 0, []⟩
  ip : List UInt8 := []
  port : UInt16 := 0
  trustsme : Bool := false
  knowsIAmTerminating : Bool := false
  connecttime : UInt64 := 0
deriving DecidableEq, Repr

/-- Whether `parentcs` is free, and what it is held for. -/
inductive Phase
  | released
  | searched
  | notifying (i : ℕ)
deriving DecidableEq, Repr

structure Controller where
  phase : Phase := .released
  parent : ControllerParent := {}
  parentqueue : List ControllerParent := []
  currentscanid : Int32 := 0
  orphanedSince : UInt64 := 0
  currentscanhasended : Bool := false
  fTerminatedScan : Bool := false
  savestate : Bool := false
  /-- What the connector is asked to connect to. -/
  connecting : List ConnectData := []
deriving DecidableEq, Repr

inductive Reply
  | handled (currentscanid : Int32) (currentscanhasended : Bool)
  | failed (now : UInt64) (resultsPending : Bool)
deriving DecidableEq, Repr

inductive Label
  | connectorConnect (socket : ℕ) (entry : Option ConnectData)
      (peer : Option (List UInt8 × UInt16))
      (hello : Option (UInt32 × List UInt8))
  | updateStatus
  | acceptParent (now : UInt64) (stopsScan terminating : Bool)
      (reply : Reply)
  | notifyQueue
  | notified (delivered : Bool)
deriving DecidableEq, Repr

namespace Controller

/-- The entry that `ConnectorConnect` makes for a new socket. -/
def candidate (socket : ℕ) (entry : Option ConnectData)
    (peer : Option (List UInt8 × UInt16)) : ControllerParent where
  socket := some socket
  iConnectedTo := entry.isSome
  connectdata := entry.getD ⟨[], 0, []⟩
  ip := (peer.map Prod.fst).getD []
  port := (peer.map Prod.snd).getD 0

/-- A node that wants to be a parent; `sayHello` gives its scan and its name
or fails, and then the entry is taken off again. -/
def connectorConnect (state : Controller) (socket : ℕ)
    (entry : Option ConnectData) (peer : Option (List UInt8 × UInt16))
    (hello : Option (UInt32 × List UInt8)) : Controller :=
  match hello with
  | some (scanid, name) =>
    { state with
      parentqueue := state.parentqueue ++
        [{ candidate socket entry peer with scanid, name }] }
  | none =>
    { state with
      parentqueue :=
        (state.parentqueue ++ [candidate socket entry peer]).dropLast }

def returning (state : Controller) : Option ℕ :=
  state.parentqueue.findIdx? fun entry =>
    (entry.scanid.toNat : ℤ) = state.currentscanid.toInt

section

variable (remove : ℕ → List ControllerParent → List ControllerParent)

def returnParent (state : Controller) : Controller :=
  if state.parent.socket = none then
    match state.returning with
    | some i =>
      { state with
        parent := state.parentqueue.getD i {}
        parentqueue := remove i state.parentqueue
        orphanedSince := 0 }
    | none => state
  else
    state

def patience (state : Controller) : UInt64 :=
  if state.parent.trustsme = false then 30 * 60 * 1000 else 60 * 60 * 1000

def giveUp (now : UInt64) (state : Controller) : Controller :=
  if now > state.orphanedSince + state.patience then
    { state with
      orphanedSince := 0
      savestate := false
      currentscanhasended := true
      fTerminatedScan :=
        if state.currentscanhasended then state.fTerminatedScan else true }
  else
    state

/-- Not an orphan, so that the first one in the list may be the parent. -/
def seeksParent (state : Controller) : Bool :=
  !state.fTerminatedScan && state.parent.socket.isNone &&
    (state.currentscanid = 0 || state.orphanedSince = 0)

def firstParent (now : UInt64) (state : Controller) : Controller :=
  if state.seeksParent then
    if 0 < state.parentqueue.length then
      { state with
        parent :=
          { state.parentqueue.getD 0 {} with connecttime := now }
        parentqueue := remove 0 state.parentqueue }
    else
      state
  else if !state.fTerminatedScan && state.parent.socket.isNone then
    giveUp now state
  else
    state

def handleParentException (now : UInt64) (resultsPending : Bool)
    (state : Controller) : Controller :=
  { state with
    parent := { state.parent with socket := none }
    connecting :=
      if state.parent.iConnectedTo then
        state.connecting ++ [state.parent.connectdata]
      else
        state.connecting
    orphanedSince :=
      if state.currentscanhasended && !resultsPending then 0 else now }

def stopScan (stopsScan : Bool) (state : Controller) : Controller :=
  if stopsScan && !state.currentscanhasended &&
      0 < state.parentqueue.length then
    { state with savestate := true, fTerminatedScan := true }
  else
    state

def announceTermination (terminating : Bool) (state : Controller) :
    Controller :=
  if terminating then
    { state with parent := { state.parent with knowsIAmTerminating := true } }
  else
    state

def updateParent (stopsScan terminating : Bool) (reply : Reply)
    (state : Controller) : Controller :=
  if state.parent.socket = none then
    state
  else
    let announced := announceTermination terminating (stopScan stopsScan state)
    match reply with
    | .handled currentscanid currentscanhasended =>
      { announced with currentscanid, currentscanhasended }
    | .failed now resultsPending =>
      handleParentException now resultsPending announced

def freed (entry : ControllerParent) : ControllerParent :=
  { entry with socket := none }

def handleParentQueueException (index : ℕ) (state : Controller) :
    Controller :=
  let entry := state.parentqueue.getD index {}
  { state with
    parentqueue := remove index (state.parentqueue.set index (freed entry))
    connecting :=
      if entry.iConnectedTo then
        state.connecting ++ [entry.connectdata]
      else
        state.connecting }

/-- Writing to entry `i` fails when the connection does and when the entry
has no socket. -/
def reaches (i : ℕ) (delivered : Bool) (state : Controller) : Bool :=
  delivered && (state.parentqueue.getD i {}).socket.isSome

def notify (i : ℕ) (delivered : Bool) (state : Controller) : Controller :=
  if i < state.parentqueue.length - 1 then
    if state.reaches i delivered then
      { state with phase := .notifying (i + 1) }
    else
      handleParentQueueException remove i state
  else
    { state with phase := .released }

def stepWith (state : Controller) : Label → Option Controller
  | .connectorConnect socket entry peer hello =>
    if state.phase = .released then
      some (state.connectorConnect socket entry peer hello)
    else
      none
  | .updateStatus =>
    if state.phase = .released then
      some { returnParent remove state with phase := .searched }
    else
      none
  | .acceptParent now stopsScan terminating reply =>
    if state.phase = .searched then
      some { updateParent stopsScan terminating reply
          (firstParent remove now state) with phase := .released }
    else
      none
  | .notifyQueue =>
    if state.phase = .released then
      some { state with phase := .notifying 0 }
    else
      none
  | .notified delivered =>
    match state.phase with
    | .notifying i => some (notify remove i delivered state)
    | _ => none

end

def removeEntry (index : ℕ) (parentqueue : List ControllerParent) :
    List ControllerParent :=
  removeShifted (index + 1) parentqueue

def step : Controller → Label → Option Controller :=
  stepWith removeEntry

def fifoStep : Controller → Label → Option Controller :=
  stepWith fun index parentqueue => parentqueue.eraseIdx index

def removed (state : Controller) : Label → Option ℕ
  | .updateStatus =>
    if state.phase = .released && state.parent.socket = none then
      state.returning
    else
      none
  | .acceptParent _ _ _ _ =>
    if state.phase = .searched && state.seeksParent &&
        0 < state.parentqueue.length then
      some 0
    else
      none
  | .notified delivered =>
    match state.phase with
    | .notifying i =>
      if i < state.parentqueue.length - 1 && !state.reaches i delivered
      then some i
      else none
    | _ => none
  | _ => none

end Controller

open Controller

/-- The step takes the entry out that it is about, and the others keep their
order. -/
def RemovesExactly (state : Controller) (label : Label) : Prop :=
  ∀ after k, step state label = some after → state.removed label = some k →
    after.parentqueue = state.parentqueue.eraseIdx k

def leftover (state : Controller) (label : Label) (k : ℕ) :
    ControllerParent :=
  match label with
  | .notified _ => freed (state.parentqueue.getD k {})
  | _ => state.parentqueue.getD k {}

/-- The entry is the last one, or the one behind it can't be told from what is
left of it. -/
def RemovesLast (state : Controller) (label : Label) : Prop :=
  ∀ k, state.removed label = some k →
    k + 1 = state.parentqueue.length ∨
      state.parentqueue[k + 1]? = some (leftover state label k)

/-! ## One step -/

variable {k : ℕ} {state : Controller} {label : Label}

theorem removeEntry_eq_iff {entries : List ControllerParent}
    (hk : k < entries.length) (entry : ControllerParent) :
    removeEntry k (entries.set k entry) = entries.eraseIdx k ↔
      k + 1 = entries.length ∨ entries[k + 1]? = some entry := by
  by_cases hlast : k + 1 < entries.length
  · have hshift : removeEntry k (entries.set k entry) =
        entries.take k ++ entry :: entries.drop (k + 2) := by
      rw [removeEntry, removeShifted_of_lt (by rwa [length_set]),
        eraseIdx_eq_take_drop_succ,
        take_succ_eq_append_getElem (by rwa [length_set]), getElem_set_self,
        take_set_of_le (Nat.le_refl k), drop_set_of_lt (by omega)]
      simp
    have herase : entries.eraseIdx k = entries.take k ++
        entries[k + 1] :: entries.drop (k + 2) := by
      rw [eraseIdx_eq_take_drop_succ, drop_eq_getElem_cons hlast]
    rw [hshift, herase, append_cancel_left_eq, List.cons.injEq,
      getElem?_eq_getElem hlast, Option.some.injEq]
    constructor
    · intro heq
      exact Or.inr heq.1.symm
    · rintro (heq | heq)
      · omega
      · exact ⟨heq.symm, rfl⟩
  · have hend : k + 1 = entries.length := by omega
    have hlength : (entries.set k entry).length ≤ k + 1 := by
      rw [length_set]
      omega
    have hsame : removeEntry k (entries.set k entry) = entries.eraseIdx k := by
      rw [removeEntry, removeShifted_of_ge hlength, dropLast_eq_take,
        length_set, ← hend, Nat.add_sub_cancel, take_set_of_le (Nat.le_refl k),
        eraseIdx_eq_take_drop_succ, drop_of_length_le (by omega), append_nil]
    simp [hsame, hend]

@[simp] theorem updateParent_parentqueue (stopsScan terminating : Bool)
    (reply : Reply) (state : Controller) :
    (updateParent stopsScan terminating reply state).parentqueue =
      state.parentqueue := by
  have hstop : (stopScan stopsScan state).parentqueue = state.parentqueue := by
    unfold stopScan
    split <;> rfl
  have hannounce : (announceTermination terminating
      (stopScan stopsScan state)).parentqueue = state.parentqueue := by
    unfold announceTermination
    split
    · exact hstop
    · exact hstop
  unfold updateParent
  split
  · rfl
  · cases reply with
    | handled currentscanid currentscanhasended => exact hannounce
    | failed now resultsPending => exact hannounce

theorem returning_lt (hk : state.returning = some k) :
    k < state.parentqueue.length := by
  obtain ⟨hlt, -⟩ := findIdx?_eq_some_iff_getElem.mp hk
  exact hlt

theorem removed_updateStatus (hk : state.removed .updateStatus = some k) :
    state.phase = .released ∧ state.parent.socket = none ∧
      state.returning = some k := by
  simpa only [removed, Option.ite_none_right_eq_some, Bool.and_eq_true,
    decide_eq_true_eq, and_assoc] using hk

theorem removed_acceptParent {now : UInt64} {stopsScan terminating : Bool}
    {reply : Reply}
    (hk : state.removed (.acceptParent now stopsScan terminating reply) =
      some k) :
    state.phase = .searched ∧ state.seeksParent = true ∧
      0 < state.parentqueue.length ∧ k = 0 := by
  simp only [removed, Option.ite_none_right_eq_some, Bool.and_eq_true,
    decide_eq_true_eq, Option.some.injEq] at hk
  obtain ⟨⟨⟨hphase, hseeks⟩, hroom⟩, hzero⟩ := hk
  exact ⟨hphase, hseeks, hroom, hzero.symm⟩

theorem removed_notified {delivered : Bool}
    (hk : state.removed (.notified delivered) = some k) :
    state.phase = .notifying k ∧ k < state.parentqueue.length - 1 ∧
      state.reaches k delivered = false := by
  cases hphase : state.phase with
  | released => simp [removed, hphase] at hk
  | searched => simp [removed, hphase] at hk
  | notifying i =>
    simp only [removed, hphase, Option.ite_none_right_eq_some,
      Bool.and_eq_true, decide_eq_true_eq, Bool.not_eq_true',
      Option.some.injEq] at hk
    obtain ⟨hfails, rfl⟩ := hk
    exact ⟨rfl, hfails⟩

theorem removed_lt (hk : state.removed label = some k) :
    k < state.parentqueue.length := by
  cases label with
  | connectorConnect socket entry peer hello => simp [removed] at hk
  | notifyQueue => simp [removed] at hk
  | updateStatus => exact returning_lt (removed_updateStatus hk).2.2
  | acceptParent now stopsScan terminating reply =>
    obtain ⟨-, -, hroom, rfl⟩ := removed_acceptParent hk
    exact hroom
  | notified delivered =>
    have hroom := (removed_notified hk).2.1
    omega

theorem set_getD_self (entries : List ControllerParent) (k : ℕ) :
    entries.set k (entries.getD k {}) = entries := by
  by_cases hk : k < entries.length
  · rw [getD_eq_getElem?_getD, getElem?_eq_getElem hk,
      Option.getD_some, set_getElem_self]
  · exact set_eq_of_length_le (by omega)

section

variable {remove : ℕ → List ControllerParent → List ControllerParent}

theorem stepWith_removed {state : Controller} {label : Label} {k : ℕ}
    (hk : state.removed label = some k) :
    ∃ after, stepWith remove state label = some after ∧
      after.parentqueue =
        remove k (state.parentqueue.set k (leftover state label k)) := by
  cases label with
  | connectorConnect socket entry peer hello => simp [removed] at hk
  | notifyQueue => simp [removed] at hk
  | updateStatus =>
    obtain ⟨hphase, hsocket, hreturning⟩ := removed_updateStatus hk
    have hleft : leftover state .updateStatus k =
        state.parentqueue.getD k {} := rfl
    rw [hleft, set_getD_self]
    simp [stepWith, returnParent, hphase, hsocket, hreturning]
  | acceptParent now stopsScan terminating reply =>
    obtain ⟨hphase, hseeks, hroom, rfl⟩ := removed_acceptParent hk
    have hleft : leftover state
        (.acceptParent now stopsScan terminating reply) 0 =
        state.parentqueue.getD 0 {} := rfl
    rw [hleft, set_getD_self]
    simp [stepWith, firstParent, hphase, hseeks, hroom]
  | notified delivered =>
    obtain ⟨hphase, hroom, hfails⟩ := removed_notified hk
    simp [stepWith, notify, handleParentQueueException, leftover, hphase,
      hroom, hfails]

theorem stepWith_congr {other : ℕ → List ControllerParent →
      List ControllerParent} {state : Controller} {label : Label}
    (hsame : ∀ k, state.removed label = some k →
      remove k (state.parentqueue.set k (leftover state label k)) =
        other k (state.parentqueue.set k (leftover state label k))) :
    stepWith remove state label = stepWith other state label := by
  cases label with
  | connectorConnect socket entry peer hello => rfl
  | notifyQueue => rfl
  | updateStatus =>
    by_cases hphase : state.phase = .released
    · have hreturn : returnParent remove state =
          returnParent other state := by
        by_cases hsocket : state.parent.socket = none
        · cases hreturning : state.returning with
          | none => simp [returnParent, hreturning]
          | some i =>
            have hqueue := hsame i (by
              simp [removed, hphase, hsocket, hreturning])
            simp only [leftover, set_getD_self] at hqueue
            simp [returnParent, hreturning, hqueue]
        · simp [returnParent, hsocket]
      simp only [stepWith, hreturn]
    · simp [stepWith, hphase]
  | acceptParent now stopsScan terminating reply =>
    by_cases hphase : state.phase = .searched
    · have hfirst : firstParent remove now state =
          firstParent other now state := by
        by_cases hseeks : state.seeksParent = true
        · by_cases hroom : 0 < state.parentqueue.length
          · have hqueue := hsame 0 (by
              simp only [removed, hphase, hseeks, hroom, decide_true,
                Bool.and_self, if_true])
            simp only [leftover, set_getD_self] at hqueue
            simp only [firstParent, hseeks, hroom, hqueue, if_true]
          · simp only [firstParent, hseeks, hroom, if_true, if_false]
        · simp only [firstParent, hseeks, if_false, Bool.false_eq_true]
      simp only [stepWith, hfirst]
    · simp [stepWith, hphase]
  | notified delivered =>
    cases hphase : state.phase with
    | released => simp [stepWith, hphase]
    | searched => simp [stepWith, hphase]
    | notifying i =>
      have hnotify : notify remove i delivered state =
          notify other i delivered state := by
        by_cases hroom : i < state.parentqueue.length - 1
        · by_cases hreaches : state.reaches i delivered = true
          · simp [notify, hroom, hreaches]
          · have hqueue := hsame i (by
              simp [removed, hphase, hroom, hreaches])
            simp only [leftover] at hqueue
            simp only [notify, handleParentQueueException, hroom,
              hreaches, hqueue]
        · simp [notify, hroom]
      simp only [stepWith, hphase, hnotify]

end

theorem removesExactly_iff (state : Controller) (label : Label) :
    RemovesExactly state label ↔ RemovesLast state label := by
  constructor
  · intro hexact k hk
    obtain ⟨after, hafter, hqueue⟩ :=
      @stepWith_removed removeEntry _ _ _ hk
    have herase := hexact after k hafter hk
    rw [hqueue] at herase
    exact (removeEntry_eq_iff (removed_lt hk) _).mp herase
  · intro hlast after k hafter hk
    obtain ⟨same, hsame, hqueue⟩ :=
      @stepWith_removed removeEntry _ _ _ hk
    have heq : same = after := Option.some.inj (hsame.symm.trans hafter)
    rw [← heq, hqueue]
    exact (removeEntry_eq_iff (removed_lt hk) _).mpr (hlast k hk)

theorem step_eq_fifoStep (hlast : RemovesLast state label) :
    step state label = fifoStep state label := by
  apply stepWith_congr
  intro k hk
  rw [(removeEntry_eq_iff (removed_lt hk) _).mpr (hlast k hk), eraseIdx_set_eq]

def EachStep (Condition : Controller → Label → Prop) :
    List Label → Controller → Prop
  | [], _ => True
  | label :: rest, state =>
    Condition state label ∧
      ∀ after, step state label = some after →
        EachStep Condition rest after

theorem eachStep_congr {First Second : Controller → Label → Prop}
    (hsame : ∀ state label, First state label ↔ Second state label)
    (labels : List Label) (state : Controller) :
    EachStep First labels state ↔ EachStep Second labels state := by
  induction labels generalizing state with
  | nil => rfl
  | cons label rest ih => simp only [EachStep, hsame, ih]

theorem runLabels_eq_fifo {labels : List Label}
    (hlast : EachStep RemovesLast labels state) :
    runLabels step labels state = runLabels fifoStep labels state := by
  induction labels generalizing state with
  | nil => rfl
  | cons label rest ih =>
    rw [runLabels, runLabels, ← step_eq_fifoStep hlast.1]
    cases hstep : step state label with
    | none => rfl
    | some after => exact ih (hlast.2 after hstep)

/-- Every removal of a run takes out the entry it is about exactly when that
entry is the last one each time; then the run is one of a queue whose removed
entries are the ones that were meant. -/
theorem parentQueue_fifo_iff (labels : List Label) (state : Controller) :
    (EachStep RemovesExactly labels state ↔
      EachStep RemovesLast labels state) ∧
    (EachStep RemovesLast labels state →
      runLabels step labels state = runLabels fifoStep labels state) :=
  ⟨eachStep_congr removesExactly_iff labels state, runLabels_eq_fifo⟩

theorem eachStep_last {Condition : Controller → Label → Prop}
    {labels : List Label} {reached : Controller}
    (heach : EachStep Condition (labels ++ [label]) state)
    (hrun : runLabels step labels state = some reached) :
    Condition reached label := by
  induction labels generalizing state with
  | nil =>
    cases hrun
    exact heach.1
  | cons first rest ih =>
    obtain ⟨after, hafter, hrest⟩ := Option.bind_eq_some_iff.mp hrun
    exact ih (heach.2 after hafter) hrest

def twoParents : List Label :=
  [.connectorConnect 1 none none (some (7, [])),
    .connectorConnect 2 none none (some (8, [])), .updateStatus]

def firstAccepted : Label :=
  .acceptParent 5 false false (.handled 0 false)

/-- The first of two waiting parents is accepted and stays in the queue as
well; the second one is lost. -/
theorem secondParent_lost :
    ¬ ∀ labels state, EachStep RemovesExactly labels state := by
  intro hall
  have heach := hall (twoParents ++ [firstAccepted]) {}
  cases hrun : runLabels step twoParents {} with
  | none => exact absurd hrun (by decide)
  | some reached =>
    have hexact := eachStep_last heach hrun
    cases hrun
    have hqueue := hexact _ 0 rfl (by decide)
    exact absurd hqueue (by decide)

end PointerscanParentQueue
end CheatEngine
