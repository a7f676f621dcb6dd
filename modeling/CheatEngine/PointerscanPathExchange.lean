import CheatEngine.FailingChannel
import CheatEngine.PointerscanPathQueues

/-!
# Moving paths between a parent and a child

A child reports its status and the parent answers by sending paths, by asking
for paths, or with nothing to do; a child whose scan has ended pushes its
paths to the parent.  Both sides are modelled with the routine they are in,
one read or write of the connection per move, and the connection can fail
between any two of them in either direction.  A read with nothing in flight
and any write can also raise, because the socket has a timeout.

A parent that refuses pushed paths leaves them on the stream.  What it makes
of them later is not determined here: every state of the parent and of the
connection can follow.
-/

namespace CheatEngine
namespace Pointerscan
namespace PathExchange

variable {settings : QueueSettings}

inductive ToParent (settings : QueueSettings) where
  | updatestatus
  | sendpaths (paths : PathList settings)
  | requested (paths : PathList settings)
  | acknowledged

inductive ToChild (settings : QueueSettings) where
  | givemeyourpaths (maxcount : ℤ)
  | herearesomepaths (paths : PathList settings)
  | everythingok
  | success
  | untrusted

/-- Where the parent is in its handling of this child. -/
inductive ParentPhase (settings : QueueSettings) where
  | waiting
  | sendingPaths (paths : PathList settings)
  | awaitingReceipt (paths : PathList settings)
  | requestingPaths (count : ℤ)
  | awaitingPaths
  | confirming
  | awaitingConfirmation
  | accepting
  | refusing
  | outOfFrame
  | disconnected

/-- Where the child is in the routine that holds `parentcs`. -/
inductive ChildPhase (settings : QueueSettings) where
  | idle
  | awaitingReply
  | sendingPaths (paths : PathList settings)
  | acknowledging
  | sendingToParent (paths : PathList settings)
  | awaitingResult (paths : PathList settings)
  | disconnected

structure Parent (settings : QueueSettings) where
  queues : PathQueues settings
  phase : ParentPhase settings

/-- `built` is the list of a `sendPathsToParent` that is still waiting for
`parentcs`. -/
structure Child (settings : QueueSettings) where
  queues : PathQueues settings
  phase : ChildPhase settings
  built : Option (PathList settings)

structure State (settings : QueueSettings) where
  parent : Parent settings
  child : Child settings
  toParent : FailingChannel (ToParent settings)
  toChild : FailingChannel (ToChild settings)

/-- The reply the parent chooses for a status update. -/
inductive UpdateReply where
  | sendPathsToChild (count : ℤ) (includeVeryGoodPath : Bool)
  | requestPathsFromChild (count : ℤ)
  | everythingok

/-- What decides the parent's next move besides the connection. -/
structure ParentChoice where
  reply : UpdateReply
  waits : ℕ → Bool
  currentscanhasended : Bool
  savestate : Bool
  trusted : Bool
  terminating : Bool

def ParentChoice.accepts (choice : ParentChoice) : Bool :=
  (choice.currentscanhasended && choice.savestate) || choice.trusted ||
    choice.terminating

namespace State

def parentGoes (state : State settings) (phase : ParentPhase settings) :
    State settings :=
  { state with parent := { state.parent with phase := phase } }

def parentAppends (state : State settings) (paths : PathList settings) :
    State settings :=
  { state with
    parent :=
      { state.parent with
        queues :=
          state.parent.queues.appendDynamicPathQueueToOverflowQueue paths } }

def parentReceives (state : State settings) (paths : PathList settings) :
    State settings :=
  { state with
    parent :=
      { state.parent with
        queues := state.parent.queues.appendReceived paths } }

def parentEats (state : State settings) : State settings :=
  { state with
    parent :=
      { state.parent with
        queues := state.parent.queues.eatFromOverflowQueueIfNeeded } }

def parentDisconnects (state : State settings) : State settings :=
  { state with
    parent := { state.parent with phase := .disconnected }
    toParent := .closed
    toChild := state.toChild.shut }

def parentWrites (state : State settings) (message : ToChild settings) :
    State settings :=
  { state with toChild := state.toChild.write message }

def parentTakes (state : State settings) : State settings :=
  { state with toParent := state.toParent.taken }

/-- `HandleUpdateStatusMessage`, up to the first write of the reply. -/
def handleUpdateStatusMessage (state : State settings)
    (choice : ParentChoice) : State settings :=
  match choice.reply with
  | .sendPathsToChild count includeVeryGoodPath =>
    match state.parent.queues.buildPathListForTransmission count
        includeVeryGoodPath choice.waits with
    | some (paths, queues) =>
      { state with
        parent := { queues := queues, phase := .sendingPaths paths } }
    | none => state.parentDisconnects
  | .requestPathsFromChild count => state.parentGoes (.requestingPaths count)
  | .everythingok => state.parentGoes .confirming

/-- `HandleSendPathsMessage`, up to the write of the result. -/
def handleSendPathsMessage (state : State settings) (choice : ParentChoice)
    (paths : PathList settings) : State settings :=
  if choice.accepts then
    if 65536 < paths.paths.length then
      state.parentDisconnects
    else
      (state.parentReceives paths).parentGoes .accepting
  else
    state.parentGoes .refusing

def parentProceeds (state : State settings) (choice : ParentChoice) :
    Option (State settings) :=
  match state.parent.phase, state.toParent.inFlight with
  | .waiting, .updatestatus :: _ =>
    some (state.parentTakes.handleUpdateStatusMessage choice)
  | .waiting, .sendpaths paths :: _ =>
    some (state.parentTakes.handleSendPathsMessage choice paths)
  | .sendingPaths paths, _ =>
    some ((state.parentWrites (.herearesomepaths paths)).parentGoes
      (.awaitingReceipt paths))
  | .awaitingReceipt _, .acknowledged :: _ =>
    some (state.parentTakes.parentGoes .waiting)
  | .requestingPaths count, _ =>
    some ((state.parentWrites (.givemeyourpaths count)).parentGoes
      .awaitingPaths)
  | .awaitingPaths, .requested paths :: _ =>
    if 65536 < paths.paths.length then
      some state.parentTakes.parentDisconnects
    else
      some ((state.parentTakes.parentReceives paths).parentEats.parentGoes
        .waiting)
  | .confirming, _ =>
    some ((state.parentWrites .everythingok).parentGoes
      .awaitingConfirmation)
  | .awaitingConfirmation, .acknowledged :: _ =>
    some (state.parentTakes.parentGoes .waiting)
  | .accepting, _ =>
    some ((state.parentWrites .success).parentGoes .waiting)
  | .refusing, _ =>
    some ((state.parentWrites .untrusted).parentGoes .outOfFrame)
  | _, _ => none

def parentRaises (state : State settings) : Option (State settings) :=
  match state.parent.phase, state.toParent.inFlight with
  | .sendingPaths paths, _ | .awaitingReceipt paths, [] =>
    some (state.parentAppends paths).parentDisconnects
  | .waiting, [] | .requestingPaths _, _ | .awaitingPaths, []
  | .confirming, _ | .awaitingConfirmation, [] | .accepting, _
  | .refusing, _ | .outOfFrame, _ => some state.parentDisconnects
  | _, _ => none

def childGoes (state : State settings) (phase : ChildPhase settings) :
    State settings :=
  { state with child := { state.child with phase := phase } }

def childAppends (state : State settings) (paths : PathList settings) :
    State settings :=
  { state with
    child :=
      { state.child with
        queues :=
          state.child.queues.appendDynamicPathQueueToOverflowQueue paths } }

def childReceives (state : State settings) (paths : PathList settings) :
    State settings :=
  { state with
    child :=
      { state.child with
        queues := state.child.queues.appendReceived paths } }

def childDisconnects (state : State settings) : State settings :=
  { state with
    child := { state.child with phase := .disconnected }
    toParent := state.toParent.shut
    toChild := .closed }

def childWrites (state : State settings) (message : ToParent settings) :
    State settings :=
  { state with toParent := state.toParent.write message }

def childTakes (state : State settings) : State settings :=
  { state with toChild := state.toChild.taken }

/-- `HandleUpdateStatusReply_GiveMeYourPaths`, up to the first write. -/
def handleGiveMeYourPaths (state : State settings) (waits : ℕ → Bool)
    (maxcount : ℤ) : State settings :=
  match state.child.queues.buildPathListForTransmission (max maxcount 0) true
      waits with
  | some (paths, queues) =>
    { state with
      child :=
        { state.child with queues := queues, phase := .sendingPaths paths } }
  | none => state.childDisconnects

/-- `HandleUpdateStatusReply_HereAreSomePaths`, up to the write. -/
def handleHereAreSomePaths (state : State settings)
    (paths : PathList settings) : State settings :=
  if 65536 < paths.paths.length then
    state.childDisconnects
  else
    (state.childReceives paths).childGoes .acknowledging

/-- `sendPathsToParent` before it enters `parentcs`: 1000 paths at a time,
without the best one, so that the build cannot fault. -/
def childBuilds (state : State settings) (waits : ℕ → Bool) :
    Option (State settings) :=
  match state.child.phase, state.child.built with
  | .disconnected, _ | _, some _ => none
  | _, none =>
    match state.child.queues.buildPathListForTransmission 1000 false
        waits with
    | some (paths, queues) =>
      let built := if paths.paths = [] then none else some paths
      some { state with
        child := { state.child with queues := queues, built := built } }
    | none => none

/-- `sendPathsToParent` enters `parentcs` and looks at the socket again. -/
def childEnters (state : State settings) : Option (State settings) :=
  match state.child.built, state.child.phase with
  | some paths, .idle =>
    some { state with
      child :=
        { state.child with built := none, phase := .sendingToParent paths } }
  | some paths, .disconnected =>
    let cleared :=
      { state with child := { state.child with built := none } }
    some (cleared.childAppends paths)
  | _, _ => none

/-- The next read or write of the child succeeds; in the idle phase this is
the status update. -/
def childProceeds (state : State settings) (waits : ℕ → Bool) :
    Option (State settings) :=
  match state.child.phase, state.toChild.inFlight with
  | .idle, _ =>
    some ((state.childWrites .updatestatus).childGoes .awaitingReply)
  | .awaitingReply, .givemeyourpaths maxcount :: _ =>
    some (state.childTakes.handleGiveMeYourPaths waits maxcount)
  | .awaitingReply, .herearesomepaths paths :: _ =>
    some (state.childTakes.handleHereAreSomePaths paths)
  | .awaitingReply, .everythingok :: _ =>
    some (state.childTakes.childGoes .acknowledging)
  | .sendingPaths paths, _ =>
    some ((state.childWrites (.requested paths)).childGoes .idle)
  | .acknowledging, _ =>
    some ((state.childWrites .acknowledged).childGoes .idle)
  | .sendingToParent paths, _ =>
    some ((state.childWrites (.sendpaths paths)).childGoes
      (.awaitingResult paths))
  | .awaitingResult _, .success :: _ =>
    some (state.childTakes.childGoes .idle)
  | .awaitingResult paths, .untrusted :: _ =>
    some ((state.childTakes.childAppends paths).childGoes .idle)
  | _, _ => none

/-- The next read or write of the child raises.  Only the reply to a request
is put back. -/
def childRaises (state : State settings) : Option (State settings) :=
  match state.child.phase, state.toChild.inFlight with
  | .sendingPaths paths, _ =>
    some (state.childAppends paths).childDisconnects
  | .idle, _ | .awaitingReply, [] | .acknowledging, _
  | .sendingToParent _, _ | .awaitingResult _, [] =>
    some state.childDisconnects
  | _, _ => none

def reconnects (state : State settings) : Option (State settings) :=
  match state.parent.phase, state.child.phase with
  | .disconnected, .disconnected =>
    some ⟨{ state.parent with phase := .waiting },
      { state.child with phase := .idle }, .opened, .opened⟩
  | _, _ => none

end State

inductive Label (settings : QueueSettings) where
  | parentProceeds (choice : ParentChoice)
  | parentRaises
  | parentMisreads (parent : Parent settings)
      (toParent : FailingChannel (ToParent settings))
      (toChild : FailingChannel (ToChild settings))
  | childBuilds (waits : ℕ → Bool)
  | childEnters
  | childProceeds (waits : ℕ → Bool)
  | childRaises
  | failToParent (kept : ℕ)
  | failToChild (kept : ℕ)
  | reconnects

def step (state : State settings) : Label settings → Option (State settings)
  | .parentProceeds choice => state.parentProceeds choice
  | .parentRaises => state.parentRaises
  | .parentMisreads parent toParent toChild =>
    match state.parent.phase with
    | .outOfFrame => some ⟨parent, state.child, toParent, toChild⟩
    | _ => none
  | .childBuilds waits => state.childBuilds waits
  | .childEnters => state.childEnters
  | .childProceeds waits => state.childProceeds waits
  | .childRaises => state.childRaises
  | .failToParent kept =>
    some { state with toParent := state.toParent.fail kept }
  | .failToChild kept =>
    some { state with toChild := state.toChild.fail kept }
  | .reconnects => state.reconnects

end PathExchange
end Pointerscan
end CheatEngine
