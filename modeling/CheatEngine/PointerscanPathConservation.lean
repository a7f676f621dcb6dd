import CheatEngine.PointerscanPathExchange
import CheatEngine.TransitionSystem

/-!
# No path is lost between a parent and a child

Every path is in one of the queues, in a message that will be read, or in a
routine that will send it or put it back; `State.accounted` collects them.
The two sides speak in turn, which is the invariant `Coherent`.  A move that
satisfies `Keeps` keeps every path accounted for, and so does a whole run of
such moves.  The remaining moves are those in which a failure of the
connection meets a routine that neither waits for an acknowledgement nor puts
its paths back.
-/

namespace CheatEngine
namespace Pointerscan
namespace PathExchange

open List TransitionSystem

variable {settings : QueueSettings}

def ToParent.isCommand : ToParent settings → Bool
  | .updatestatus | .sendpaths _ => true
  | .requested _ | .acknowledged => false

def ToParent.content : ToParent settings → Multiset PathQueueElement
  | .sendpaths paths | .requested paths => paths.content
  | .updatestatus | .acknowledged => 0

@[simp] theorem ToParent.content_updatestatus :
    (.updatestatus : ToParent settings).content = 0 := rfl

@[simp] theorem ToParent.content_sendpaths (paths : PathList settings) :
    (.sendpaths paths : ToParent settings).content = paths.content := rfl

@[simp] theorem ToParent.content_requested (paths : PathList settings) :
    (.requested paths : ToParent settings).content = paths.content := rfl

@[simp] theorem ToParent.content_acknowledged :
    (.acknowledged : ToParent settings).content = 0 := rfl

def ParentPhase.isWriting : ParentPhase settings → Bool
  | .sendingPaths _ | .requestingPaths _ | .confirming | .accepting
  | .refusing => true
  | _ => false

open Classical in
/-- The paths of the parent's routine, as long as it would put them back and
the child does not hold them yet. -/
noncomputable def ParentPhase.copy (received : Prop) :
    ParentPhase settings → Multiset PathQueueElement
  | .sendingPaths paths => paths.content
  | .awaitingReceipt paths => if received then 0 else paths.content
  | _ => 0

def ChildPhase.isWriting : ChildPhase settings → Bool
  | .idle | .sendingPaths _ | .acknowledging | .sendingToParent _ => true
  | _ => false

open Classical in
/-- The paths of the child's routine that are in no message, or that the
parent has refused. -/
noncomputable def ChildPhase.copy (refused : Prop) :
    ChildPhase settings → Multiset PathQueueElement
  | .sendingPaths paths | .sendingToParent paths => paths.content
  | .awaitingResult paths => if refused then paths.content else 0
  | _ => 0

namespace State

def held (state : State settings) : Multiset PathQueueElement :=
  state.parent.queues.content + state.child.queues.content

def inFlight (state : State settings) : Multiset PathQueueElement :=
  (state.toParent.inFlight.map ToParent.content).sum

def ChildHasReceived (state : State settings) : Prop :=
  state.child.phase = .acknowledging ∨
    .acknowledged ∈ state.toParent.inFlight

/-- The parent has refused the paths and the child is going to learn it. -/
def ParentHasRefused (state : State settings) : Prop :=
  state.parent.phase = .refusing ∨ .untrusted ∈ state.toChild.inFlight

def builtCopy (state : State settings) : Multiset PathQueueElement :=
  state.child.built.elim 0 PathList.content

/-- Every path that is held, in flight to a side that will take it, or in a
routine that will put it back or send it. -/
noncomputable def accounted (state : State settings) :
    Multiset PathQueueElement :=
  state.held + state.builtCopy +
    state.parent.phase.copy state.ChildHasReceived +
      state.child.phase.copy state.ParentHasRefused + state.inFlight

end State

/-! ## The shape of the conversation -/

/-- The two sides speak in turn: at most one of them is going to write, a
command is the last message to the parent, and nothing is in flight to the
child before the command has been read. -/
structure Coherent (state : State settings) : Prop where
  parent_writing : state.parent.phase.isWriting = true →
    state.toParent.inFlight = [] ∧ state.toChild.inFlight = [] ∧
      state.child.phase.isWriting = false
  child_writing : state.child.phase.isWriting = true →
    state.toChild.inFlight = [] ∧
      ∀ message ∈ state.toParent.inFlight, message.isCommand = false
  command_last : ∀ message ∈ state.toParent.inFlight.dropLast,
    message.isCommand = false
  command_first : ∀ message ∈ state.toParent.inFlight,
    message.isCommand = true → state.toChild.inFlight = []
  same_paths : ∀ paths, .sendpaths paths ∈ state.toParent.inFlight →
    ∀ others, state.child.phase = .awaitingResult others → others = paths
  one_reply : state.toChild.inFlight.length ≤ 1
  receipt : ∀ paths, state.parent.phase = .awaitingReceipt paths →
    ∀ message ∈ state.toChild.inFlight, message = .herearesomepaths paths
  outOfFrame : state.parent.phase = .outOfFrame →
    ∀ message ∈ state.toParent.inFlight, message.content = 0
  disconnected : state.parent.phase = .disconnected →
    state.toParent.inFlight = [] ∧ state.toParent.failed = true

namespace Coherent

variable {state : State settings}

theorem congr (hstate : Coherent state) {other : State settings}
    (hparent : other.parent.phase = state.parent.phase)
    (hchild : other.child.phase = state.child.phase)
    (htoParent : other.toParent = state.toParent)
    (htoChild : other.toChild = state.toChild) : Coherent other := by
  obtain ⟨⟨_, parentPhase⟩, ⟨_, childPhase, _⟩, toParent, toChild⟩ := other
  subst hparent hchild htoParent htoChild
  exact ⟨hstate.parent_writing, hstate.child_writing, hstate.command_last,
    hstate.command_first, hstate.same_paths, hstate.one_reply,
    hstate.receipt, hstate.outOfFrame, hstate.disconnected⟩

theorem parentDisconnects (hstate : Coherent state) :
    Coherent state.parentDisconnects where
  parent_writing := by
    intro hwriting
    cases hwriting
  child_writing := by
    intro hwriting
    exact ⟨(hstate.child_writing hwriting).1,
      by simp [State.parentDisconnects]⟩
  command_last := by
    simp [State.parentDisconnects]
  command_first := by
    simp [State.parentDisconnects]
  same_paths := by
    simp [State.parentDisconnects]
  one_reply := hstate.one_reply
  receipt := by
    intro paths hphase
    cases hphase
  outOfFrame := by
    intro hphase
    cases hphase
  disconnected := by
    simp [State.parentDisconnects]

theorem childDisconnects (hstate : Coherent state) :
    Coherent state.childDisconnects where
  parent_writing := by
    intro hwriting
    exact ⟨(hstate.parent_writing hwriting).1, rfl, rfl⟩
  child_writing := by
    intro hwriting
    cases hwriting
  command_last := hstate.command_last
  command_first := by
    simp [State.childDisconnects]
  same_paths := by
    intro paths _ others hphase
    cases hphase
  one_reply := by
    simp [State.childDisconnects]
  receipt := by
    simp [State.childDisconnects]
  outOfFrame := hstate.outOfFrame
  disconnected := by
    intro hphase
    exact ⟨(hstate.disconnected hphase).1, rfl⟩

variable {message : ToParent settings}

section

variable (hstate : Coherent state)

include hstate

/-- A command that the parent reads is alone on the connection, and the
child waits for the answer. -/
theorem command_alone {rest : List (ToParent settings)}
    (hhead : state.toParent.inFlight = message :: rest)
    (hcommand : message.isCommand = true) :
    rest = [] ∧ state.toChild.inFlight = [] ∧
      state.child.phase.isWriting = false := by
  have hmem : message ∈ state.toParent.inFlight := by
    rw [hhead]
    exact mem_cons_self
  refine ⟨?_, hstate.command_first message hmem hcommand, ?_⟩
  · cases rest with
    | nil => rfl
    | cons next rest =>
      have hlast := hstate.command_last message (by simp [hhead])
      rw [hcommand] at hlast
      cases hlast
  · cases hwriting : state.child.phase.isWriting with
    | false => rfl
    | true =>
      have hnone := (hstate.child_writing hwriting).2 message hmem
      rw [hcommand] at hnone
      cases hnone

theorem parentSpeaks {rest : List (ToParent settings)}
    (hhead : state.toParent.inFlight = message :: rest)
    (hcommand : message.isCommand = true) (phase : ParentPhase settings)
    (hwriting : phase.isWriting = true) :
    Coherent (state.parentTakes.parentGoes phase) := by
  obtain ⟨hrest, htoChild, hchild⟩ := hstate.command_alone hhead hcommand
  have htoParent : state.toParent.inFlight.tail = [] := by
    rw [hhead, tail_cons, hrest]
  constructor
  · intro _
    exact ⟨htoParent, htoChild, hchild⟩
  · intro hchildWriting
    rw [show (state.parentTakes.parentGoes phase).child.phase.isWriting =
      false from hchild] at hchildWriting
    cases hchildWriting
  · simp [State.parentTakes, State.parentGoes, htoParent]
  · simp [State.parentTakes, State.parentGoes, htoParent]
  · simp [State.parentTakes, State.parentGoes, htoParent]
  · exact hstate.one_reply
  · simp [State.parentTakes, State.parentGoes, htoChild]
  · simp [State.parentTakes, State.parentGoes, htoParent]
  · intro hphase
    change phase = .disconnected at hphase
    rw [hphase] at hwriting
    cases hwriting

theorem parentListens (hwriting : state.parent.phase.isWriting = true)
    {message : ToChild settings} {phase : ParentPhase settings}
    (hlistens : phase.isWriting = false)
    (hreceipt : ∀ paths, phase = .awaitingReceipt paths →
      message = .herearesomepaths paths) (hconnected : phase ≠ .disconnected) :
    Coherent ((state.parentWrites message).parentGoes phase) := by
  obtain ⟨htoParent, htoChild, hchild⟩ := hstate.parent_writing hwriting
  have hwritten : ∀ other ∈ (state.toChild.write message).inFlight,
      other = message := by
    intro other hmem
    rcases state.toChild.write_inFlight_cases message with hcase | hcase <;>
      simp_all
  have hlength : (state.toChild.write message).inFlight.length ≤ 1 := by
    rcases state.toChild.write_inFlight_cases message with hcase | hcase <;>
      simp [hcase, htoChild]
  constructor
  · intro hspeaks
    rw [show ((state.parentWrites message).parentGoes
      phase).parent.phase.isWriting = false from hlistens] at hspeaks
    cases hspeaks
  · intro hchildWriting
    rw [show ((state.parentWrites message).parentGoes
      phase).child.phase.isWriting = false from hchild] at hchildWriting
    cases hchildWriting
  · simp [State.parentWrites, State.parentGoes, htoParent]
  · simp [State.parentWrites, State.parentGoes, htoParent]
  · simp [State.parentWrites, State.parentGoes, htoParent]
  · exact hlength
  · intro paths hphase other hmem
    rw [hwritten other hmem, hreceipt paths hphase]
  · simp [State.parentWrites, State.parentGoes, htoParent]
  · intro hphase
    exact absurd hphase hconnected

theorem parentHears :
    Coherent (state.parentTakes.parentGoes .waiting) where
  parent_writing := by
    intro hwriting
    cases hwriting
  child_writing := by
    intro hwriting
    obtain ⟨htoChild, hnone⟩ := hstate.child_writing hwriting
    exact ⟨htoChild, fun message hmem =>
      hnone message (mem_of_mem_tail hmem)⟩
  command_last := by
    intro message hmem
    apply hstate.command_last message
    change message ∈ state.toParent.inFlight.tail.dropLast at hmem
    rw [← tail_dropLast] at hmem
    exact mem_of_mem_tail hmem
  command_first := by
    intro message hmem
    exact hstate.command_first message (mem_of_mem_tail hmem)
  same_paths := by
    intro paths hmem
    exact hstate.same_paths paths (mem_of_mem_tail hmem)
  one_reply := hstate.one_reply
  receipt := by
    intro paths hphase
    cases hphase
  outOfFrame := by
    intro hphase
    cases hphase
  disconnected := by
    intro hphase
    cases hphase

theorem childHears {message : ToChild settings}
    {rest : List (ToChild settings)}
    (hhead : state.toChild.inFlight = message :: rest)
    (phase : ChildPhase settings)
    (hphase : ∀ paths, phase ≠ .awaitingResult paths) :
    Coherent (state.childTakes.childGoes phase) := by
  have hsome : state.toChild.inFlight ≠ [] := by
    simp [hhead]
  have htail : state.toChild.inFlight.tail = [] := by
    have hone := hstate.one_reply
    rw [hhead] at hone ⊢
    exact eq_nil_of_length_eq_zero (Nat.le_zero.mp (by simpa using hone))
  have hnone : ∀ other ∈ state.toParent.inFlight,
      other.isCommand = false := by
    intro other hmem
    cases hcommand : other.isCommand with
    | false => rfl
    | true => exact absurd (hstate.command_first other hmem hcommand) hsome
  constructor
  · intro hwriting
    exact absurd (hstate.parent_writing hwriting).2.1 hsome
  · intro _
    exact ⟨htail, hnone⟩
  · exact hstate.command_last
  · intro other _ _
    exact htail
  · intro paths _ others hothers
    exact absurd hothers (hphase others)
  · simp [State.childTakes, State.childGoes, htail]
  · simp [State.childTakes, State.childGoes, htail]
  · exact hstate.outOfFrame
  · exact hstate.disconnected

theorem childSpeaks (hwriting : state.child.phase.isWriting = true)
    {phase : ChildPhase settings}
    (hreply : phase.isWriting = true → message.isCommand = false)
    (hsame : ∀ paths, message = .sendpaths paths →
      ∀ others, phase = .awaitingResult others → others = paths)
    (hframe : state.parent.phase = .outOfFrame → message.content = 0) :
    Coherent ((state.childWrites message).childGoes phase) := by
  obtain ⟨htoChild, hnone⟩ := hstate.child_writing hwriting
  constructor
  · intro hparent
    have hchild := (hstate.parent_writing hparent).2.2
    rw [hwriting] at hchild
    cases hchild
  · intro hnext
    refine ⟨htoChild, ?_⟩
    intro other hmem
    rcases FailingChannel.mem_write hmem with hold | hnew
    · exact hnone other hold
    · rw [hnew]
      exact hreply hnext
  · intro other hmem
    apply hnone other
    change other ∈ (state.toParent.write message).inFlight.dropLast at hmem
    rcases state.toParent.write_inFlight_cases message with hcase | hcase <;>
      rw [hcase] at hmem
    · simpa using hmem
    · exact mem_of_mem_dropLast hmem
  · intro other _ _
    exact htoChild
  · intro paths hmem
    rcases FailingChannel.mem_write hmem with hold | hnew
    · cases hnone _ hold
    · exact hsame paths hnew.symm
  · exact hstate.one_reply
  · exact hstate.receipt
  · intro hphase other hmem
    rcases FailingChannel.mem_write hmem with hold | hnew
    · exact hstate.outOfFrame hphase other hold
    · rw [hnew]
      exact hframe hphase
  · intro hphase
    obtain ⟨hempty, hfailed⟩ := hstate.disconnected hphase
    have hsilent := FailingChannel.write_inFlight_of_failed hfailed message
    exact ⟨hsilent.trans hempty,
      (state.toParent.write_failed message).trans hfailed⟩

theorem childStarts (hphase : state.child.phase = .idle)
    (paths : PathList settings) :
    Coherent (state.childGoes (.sendingToParent paths)) where
  parent_writing := by
    intro hwriting
    have hchild := (hstate.parent_writing hwriting).2.2
    rw [hphase] at hchild
    cases hchild
  child_writing := by
    intro _
    exact hstate.child_writing (by rw [hphase]; rfl)
  command_last := hstate.command_last
  command_first := hstate.command_first
  same_paths := by
    intro _ _ others hothers
    cases hothers
  one_reply := hstate.one_reply
  receipt := hstate.receipt
  outOfFrame := hstate.outOfFrame
  disconnected := hstate.disconnected

theorem failToParent (kept : ℕ) :
    Coherent { state with toParent := state.toParent.fail kept } where
  parent_writing := by
    intro hwriting
    obtain ⟨htoParent, hrest⟩ := hstate.parent_writing hwriting
    exact ⟨by simp [htoParent], hrest⟩
  child_writing := by
    intro hwriting
    obtain ⟨htoChild, hnone⟩ := hstate.child_writing hwriting
    exact ⟨htoChild, fun message hmem =>
      hnone message (mem_of_mem_take hmem)⟩
  command_last := by
    intro message hmem
    apply hstate.command_last message
    have hpart : (state.toParent.inFlight.take kept).dropLast <+:
        state.toParent.inFlight.dropLast := by
      rw [dropLast_eq_take, dropLast_eq_take, take_take]
      exact take_isPrefix_take.mpr (by simp; omega)
    exact hpart.subset hmem
  command_first := by
    intro message hmem
    exact hstate.command_first message (mem_of_mem_take hmem)
  same_paths := by
    intro paths hmem
    exact hstate.same_paths paths (mem_of_mem_take hmem)
  one_reply := hstate.one_reply
  receipt := hstate.receipt
  outOfFrame := by
    intro hphase message hmem
    exact hstate.outOfFrame hphase message (mem_of_mem_take hmem)
  disconnected := by
    intro hphase
    simp [(hstate.disconnected hphase).1]

theorem failToChild (kept : ℕ) :
    Coherent { state with toChild := state.toChild.fail kept } where
  parent_writing := by
    intro hwriting
    obtain ⟨htoParent, htoChild, hchild⟩ := hstate.parent_writing hwriting
    exact ⟨htoParent, by simp [htoChild], hchild⟩
  child_writing := by
    intro hwriting
    obtain ⟨htoChild, hnone⟩ := hstate.child_writing hwriting
    exact ⟨by simp [htoChild], hnone⟩
  command_last := hstate.command_last
  command_first := by
    intro message hmem hcommand
    simp [hstate.command_first message hmem hcommand]
  same_paths := hstate.same_paths
  one_reply := by
    have hone := hstate.one_reply
    simp only [FailingChannel.fail_inFlight, length_take]
    omega
  receipt := by
    intro paths hphase message hmem
    exact hstate.receipt paths hphase message (mem_of_mem_take hmem)
  outOfFrame := hstate.outOfFrame
  disconnected := hstate.disconnected

end

end Coherent

def Opened (state : State settings) : Prop :=
  state.parent.phase = .waiting ∧ state.child.phase = .idle ∧
    state.toParent = .opened ∧ state.toChild = .opened

variable {state : State settings}

theorem Opened.coherent (hopened : Opened state) : Coherent state := by
  obtain ⟨hparent, hchild, htoParent, htoChild⟩ := hopened
  constructor <;> simp [hparent, hchild, htoParent, htoChild,
    ParentPhase.isWriting]

/-- A message of the child will be read as a message by the parent. -/
def State.ReachesParent (state : State settings) : Prop :=
  state.toParent.failed = false ∧ state.parent.phase ≠ .outOfFrame

/-- The moves after which every path is still accounted for: builds lock the
topmost entries of the queue, the two messages that nobody puts back arrive,
and a refusal reaches the child while it still waits for it. -/
def Keeps (state : State settings) : Label settings → Prop
  | .parentProceeds choice =>
    match state.parent.phase, state.toParent.inFlight with
    | .waiting, .updatestatus :: _ =>
      match choice.reply with
      | .sendPathsToChild count includeVeryGoodPath =>
        state.parent.queues.LocksTop count includeVeryGoodPath
          choice.waits
      | _ => True
    | .waiting, .sendpaths _ :: _ =>
      choice.accepts = true ∨
        ∃ paths, state.child.phase = .awaitingResult paths
    | .refusing, _ => state.toChild.failed = false
    | _, _ => True
  | .parentRaises => state.parent.phase ≠ .refusing
  | .parentMisreads _ _ _ => False
  | .childBuilds waits => state.child.queues.LocksTop 1000 false waits
  | .childProceeds waits =>
    match state.child.phase, state.toChild.inFlight with
    | .awaitingReply, .givemeyourpaths maxcount :: _ =>
      state.child.queues.LocksTop (max maxcount 0) true waits
    | .sendingPaths paths, _ | .sendingToParent paths, _ =>
      paths.paths ≠ [] → state.ReachesParent
    | _, _ => True
  | .childRaises =>
    match state.child.phase with
    | .sendingToParent paths => paths.paths = []
    | .awaitingResult _ => state.parent.phase ≠ .refusing
    | _ => True
  | .failToParent kept =>
    ∀ message ∈ state.toParent.inFlight.drop kept, message.content = 0
  | .failToChild kept =>
    .untrusted ∉ state.toChild.inFlight.drop kept
  | .childEnters | .reconnects => True

/-! ## One move -/

attribute [simp] State.accounted State.held State.builtCopy State.inFlight
  State.ChildHasReceived State.ParentHasRefused State.parentGoes
  State.parentTakes State.parentWrites State.parentAppends State.parentReceives
  State.parentEats State.parentDisconnects State.childGoes State.childTakes
  State.childWrites State.childAppends State.childReceives
  State.childDisconnects

structure Preserves (before after : State settings) : Prop where
  coherent : Coherent after
  accounted_le : before.accounted ≤ after.accounted

section

variable {state : State settings}

variable {choice : ParentChoice} {paths : PathList settings}
  {after : State settings} {waits : ℕ → Bool}

section

variable (hstate : Coherent state)

include hstate

theorem handleUpdateStatusMessage_preserves {rest : List (ToParent settings)}
    (hphase : state.parent.phase = .waiting)
    (hhead : state.toParent.inFlight = .updatestatus :: rest)
    (hlocks : ∀ count includeVeryGoodPath,
      choice.reply = .sendPathsToChild count includeVeryGoodPath →
      state.parent.queues.LocksTop count includeVeryGoodPath choice.waits) :
    Preserves state (state.parentTakes.handleUpdateStatusMessage choice) := by
  obtain ⟨hrest, -, -⟩ := hstate.command_alone hhead rfl
  unfold State.handleUpdateStatusMessage
  split
  · rename_i count includeVeryGoodPath hreply
    split
    · rename_i paths queues hbuild
      have hcontent : paths.content + queues.content =
          state.parent.queues.content :=
        PathQueues.buildPathListForTransmission_content hbuild
          (hlocks count includeVeryGoodPath hreply)
      refine ⟨(hstate.parentSpeaks hhead rfl (.sendingPaths paths) rfl).congr
        rfl rfl rfl rfl, ?_⟩
      apply le_of_eq
      simp [ParentPhase.copy, hphase, hhead, ← hcontent]
      abel
    · refine ⟨hstate.parentDisconnects, ?_⟩
      simp [ParentPhase.copy, hphase, hhead, hrest]
  · refine ⟨hstate.parentSpeaks hhead rfl _ rfl, ?_⟩
    simp [ParentPhase.copy, hphase, hhead]
  · refine ⟨hstate.parentSpeaks hhead rfl _ rfl, ?_⟩
    simp [ParentPhase.copy, hphase, hhead]

theorem handleSendPathsMessage_preserves {rest : List (ToParent settings)}
    (hphase : state.parent.phase = .waiting)
    (hhead : state.toParent.inFlight = .sendpaths paths :: rest)
    (hwaits : choice.accepts = true ∨
      ∃ others, state.child.phase = .awaitingResult others) :
    Preserves state
      (state.parentTakes.handleSendPathsMessage choice paths) := by
  obtain ⟨_, htoChild, _⟩ := hstate.command_alone hhead rfl
  have hlength := paths.length_le
  unfold State.handleSendPathsMessage
  by_cases haccepts : choice.accepts = true
  · rw [if_pos haccepts, if_neg (by omega)]
    refine ⟨(hstate.parentSpeaks hhead rfl .accepting rfl).congr
      rfl rfl rfl rfl, ?_⟩
    apply le_of_eq
    simp [ParentPhase.copy, hphase, hhead]
    abel
  · obtain ⟨others, hothers⟩ := hwaits.resolve_left haccepts
    have hsame : others = paths :=
      hstate.same_paths paths (by simp [hhead]) others hothers
    rw [if_neg haccepts]
    refine ⟨hstate.parentSpeaks hhead rfl _ rfl, ?_⟩
    apply le_of_eq
    simp [ParentPhase.copy, ChildPhase.copy, hphase, hhead, hothers,
      htoChild, hsame]
    abel

theorem parentProceeds_preserves
    (hkeeps : Keeps state (.parentProceeds choice))
    (hstep : state.parentProceeds choice = some after) :
    Preserves state after := by
  unfold State.parentProceeds at hstep
  split at hstep
  · rename_i hphase hhead
    cases hstep
    apply handleUpdateStatusMessage_preserves hstate hphase hhead
    intro count includeVeryGoodPath hreply
    simpa only [Keeps, hphase, hhead, hreply] using hkeeps
  · rename_i hphase hhead
    cases hstep
    apply handleSendPathsMessage_preserves hstate hphase hhead
    simpa only [Keeps, hphase, hhead] using hkeeps
  · rename_i paths hphase
    cases hstep
    have hwriting : state.parent.phase.isWriting = true := by
      rw [hphase]
      rfl
    obtain ⟨htoParent, _, hchild⟩ := hstate.parent_writing hwriting
    have hsilent : state.child.phase ≠ .acknowledging := by
      cases hchildPhase : state.child.phase <;>
        simp_all [ChildPhase.isWriting]
    refine ⟨hstate.parentListens hwriting rfl (by simp) (by simp), ?_⟩
    simp [ParentPhase.copy, hphase, htoParent, hsilent]
  · rename_i hphase hhead
    cases hstep
    refine ⟨hstate.parentHears, ?_⟩
    simp [ParentPhase.copy, hphase, hhead]
  · rename_i count hphase
    cases hstep
    refine ⟨hstate.parentListens (by rw [hphase]; rfl) rfl (by simp)
      (by simp), ?_⟩
    simp [ParentPhase.copy, hphase]
  · rename_i paths rest hphase hhead
    have hlength := paths.length_le
    rw [if_neg (by omega)] at hstep
    cases hstep
    refine ⟨hstate.parentHears.congr rfl rfl rfl rfl, ?_⟩
    apply le_of_eq
    simp [ParentPhase.copy, hphase, hhead]
    abel
  · rename_i hphase
    cases hstep
    refine ⟨hstate.parentListens (by rw [hphase]; rfl) rfl (by simp)
      (by simp), ?_⟩
    simp [ParentPhase.copy, hphase]
  · rename_i hphase hhead
    cases hstep
    refine ⟨hstate.parentHears, ?_⟩
    simp [ParentPhase.copy, hphase, hhead]
  · rename_i hphase
    cases hstep
    refine ⟨hstate.parentListens (by rw [hphase]; rfl) rfl (by simp)
      (by simp), ?_⟩
    simp [ParentPhase.copy, hphase]
  · rename_i hphase
    cases hstep
    have hopen : state.toChild.failed = false := by
      simpa only [Keeps, hphase] using hkeeps
    refine ⟨hstate.parentListens (by rw [hphase]; rfl) rfl (by simp)
      (by simp), ?_⟩
    simp [ParentPhase.copy, hphase,
      FailingChannel.write_inFlight_of_open hopen]
  · cases hstep

theorem parentDisconnects_preserves
    (hrefusing : state.parent.phase ≠ .refusing)
    (hcopy : state.parent.phase.copy state.ChildHasReceived = 0)
    (hflight : state.inFlight = 0) :
    Preserves state state.parentDisconnects := by
  refine ⟨hstate.parentDisconnects, ?_⟩
  simp only [State.accounted, hcopy, hflight]
  simp [ParentPhase.copy, hrefusing]

theorem parentRestores_preserves (hrefusing : state.parent.phase ≠ .refusing)
    (hcopy : state.parent.phase.copy state.ChildHasReceived ≤ paths.content)
    (hflight : state.inFlight = 0) :
    Preserves state (state.parentAppends paths).parentDisconnects := by
  refine ⟨hstate.parentDisconnects.congr rfl rfl rfl rfl, ?_⟩
  have hafter : (state.parentAppends paths).parentDisconnects.accounted =
      state.held + state.builtCopy + paths.content +
        state.child.phase.copy state.ParentHasRefused := by
    simp [ParentPhase.copy, hrefusing]
    abel
  rw [hafter]
  simp only [State.accounted, hflight, add_zero]
  gcongr

theorem parentRaises_preserves (hkeeps : Keeps state .parentRaises)
    (hstep : state.parentRaises = some after) :
    Preserves state after := by
  have hrefusing : state.parent.phase ≠ .refusing := hkeeps
  have hsilent : state.parent.phase.isWriting = true → state.inFlight = 0 := by
    intro hwriting
    simp [(hstate.parent_writing hwriting).1]
  unfold State.parentRaises at hstep
  split at hstep <;> cases hstep
  · rename_i paths hphase
    apply parentRestores_preserves hstate hrefusing
    · rw [hphase]
      exact le_refl _
    · exact hsilent (by rw [hphase]; rfl)
  · rename_i paths hphase hempty
    apply parentRestores_preserves hstate hrefusing
    · rw [hphase, ParentPhase.copy]
      split <;> simp
    · simp [hempty]
  · rename_i hphase hempty
    exact parentDisconnects_preserves hstate hrefusing (by rw [hphase]; rfl)
      (by simp [hempty])
  · rename_i hphase
    exact parentDisconnects_preserves hstate hrefusing (by rw [hphase]; rfl)
      (hsilent (by rw [hphase]; rfl))
  · rename_i hphase hempty
    exact parentDisconnects_preserves hstate hrefusing (by rw [hphase]; rfl)
      (by simp [hempty])
  · rename_i hphase
    exact parentDisconnects_preserves hstate hrefusing (by rw [hphase]; rfl)
      (hsilent (by rw [hphase]; rfl))
  · rename_i hphase hempty
    exact parentDisconnects_preserves hstate hrefusing (by rw [hphase]; rfl)
      (by simp [hempty])
  · rename_i hphase
    exact parentDisconnects_preserves hstate hrefusing (by rw [hphase]; rfl)
      (hsilent (by rw [hphase]; rfl))
  · rename_i hphase
    exact absurd hphase hrefusing
  · rename_i hphase
    apply parentDisconnects_preserves hstate hrefusing (by rw [hphase]; rfl)
    apply sum_eq_zero
    intro content hmem
    obtain ⟨message, hmessage, hcontent⟩ := mem_map.mp hmem
    rw [← hcontent]
    exact hstate.outOfFrame hphase message hmessage

end

theorem ParentPhase.copy_mono (phase : ParentPhase settings)
    {before after : Prop} (hreceived : after → before) :
    phase.copy before ≤ phase.copy after := by
  cases phase with
  | awaitingReceipt paths =>
    by_cases hbefore : before
    · simp [ParentPhase.copy, hbefore]
    · have hafter : ¬ after := fun hafter => hbefore (hreceived hafter)
      simp [ParentPhase.copy, hbefore, hafter]
  | _ => exact le_refl _

theorem ParentPhase.copy_le_received {phase : ParentPhase settings}
    (hphase : ∀ others, phase = .awaitingReceipt others → others = paths)
    (before : Prop) :
    phase.copy before ≤ phase.copy True + paths.content := by
  cases phase with
  | awaitingReceipt others =>
    rw [hphase others rfl]
    by_cases hbefore : before <;> simp [ParentPhase.copy, hbefore]
  | _ => exact Multiset.le_add_right _ _

theorem ParentPhase.copy_congr {phase : ParentPhase settings}
    (hphase : ∀ paths, phase ≠ .awaitingReceipt paths)
    (before after : Prop) : phase.copy before = phase.copy after := by
  cases phase with
  | awaitingReceipt paths => exact absurd rfl (hphase paths)
  | _ => rfl

section

variable (hstate : Coherent state)

include hstate

theorem childDisconnects_preserves
    (hcopy : state.child.phase.copy state.ParentHasRefused = 0) :
    Preserves state state.childDisconnects := by
  refine ⟨hstate.childDisconnects, ?_⟩
  have hafter : state.childDisconnects.accounted =
      state.held + state.builtCopy + state.parent.phase.copy
        (.acknowledged ∈ state.toParent.inFlight) + state.inFlight := by
    simp [ChildPhase.copy]
  rw [hafter]
  simp only [State.accounted, hcopy, add_zero]
  gcongr
  exact state.parent.phase.copy_mono Or.inr

theorem childBuilds_preserves (hkeeps : Keeps state (.childBuilds waits))
    (hstep : state.childBuilds waits = some after) :
    Preserves state after := by
  unfold State.childBuilds at hstep
  split at hstep
  · cases hstep
  · cases hstep
  · rename_i hbuilt _
    split at hstep <;> cases hstep
    rename_i paths queues hbuild
    have hcontent := PathQueues.buildPathListForTransmission_content hbuild
      hkeeps
    have hcopy : (if paths.paths = [] then none
        else some paths).elim 0 PathList.content = paths.content := by
      split
      · rename_i hempty
        simp [PathList.content, hempty]
      · rfl
    refine ⟨hstate.congr rfl rfl rfl rfl, ?_⟩
    apply le_of_eq
    simp [hbuilt, ← hcontent, hcopy]
    abel

theorem childEnters_preserves (hstep : state.childEnters = some after) :
    Preserves state after := by
  unfold State.childEnters at hstep
  split at hstep <;> cases hstep
  · rename_i paths hbuilt hphase
    refine ⟨(hstate.childStarts hphase paths).congr rfl rfl rfl rfl, ?_⟩
    apply le_of_eq
    simp [ChildPhase.copy, hbuilt, hphase]
    abel
  · rename_i paths hbuilt hphase
    refine ⟨hstate.congr rfl rfl rfl rfl, ?_⟩
    apply le_of_eq
    simp [hbuilt]
    abel

theorem handleGiveMeYourPaths_preserves {maxcount : ℤ}
    {rest : List (ToChild settings)}
    (hphase : state.child.phase = .awaitingReply)
    (hhead : state.toChild.inFlight = .givemeyourpaths maxcount :: rest)
    (hlocks : state.child.queues.LocksTop (max maxcount 0) true waits) :
    Preserves state
      (state.childTakes.handleGiveMeYourPaths waits maxcount) := by
  unfold State.handleGiveMeYourPaths
  split
  · rename_i paths queues hbuild
    have hcontent : paths.content + queues.content =
        state.child.queues.content :=
      PathQueues.buildPathListForTransmission_content hbuild hlocks
    refine ⟨(hstate.childHears hhead (.sendingPaths paths) (by simp)).congr
      rfl rfl rfl rfl, ?_⟩
    apply le_of_eq
    simp [ChildPhase.copy, hphase, ← hcontent]
    abel
  · have hcopy : state.child.phase.copy state.ParentHasRefused = 0 := by
      rw [hphase]
      rfl
    exact childDisconnects_preserves hstate hcopy

theorem handleHereAreSomePaths_preserves {rest : List (ToChild settings)}
    (hphase : state.child.phase = .awaitingReply)
    (hhead : state.toChild.inFlight = .herearesomepaths paths :: rest) :
    Preserves state (state.childTakes.handleHereAreSomePaths paths) := by
  have hlength := paths.length_le
  have hreceipt : ∀ others, state.parent.phase = .awaitingReceipt others →
      others = paths := by
    intro others hothers
    have hmessage := hstate.receipt others hothers (.herearesomepaths paths)
      (by simp [hhead])
    exact (ToChild.herearesomepaths.inj hmessage).symm
  unfold State.handleHereAreSomePaths
  rw [if_neg (by omega)]
  refine ⟨(hstate.childHears hhead .acknowledging (by simp)).congr
    rfl rfl rfl rfl, ?_⟩
  have hcopy := ParentPhase.copy_le_received hreceipt state.ChildHasReceived
  have hafter : ((state.childTakes.childReceives paths).childGoes
      .acknowledging).accounted = state.held + state.builtCopy +
        (state.parent.phase.copy True + paths.content) + state.inFlight := by
    simp [ChildPhase.copy]
    abel
  rw [hafter]
  simp only [State.accounted, hphase, ChildPhase.copy, add_zero]
  gcongr

end

theorem inFlight_childWrites (message : ToParent settings)
    (hmessage : message.content = paths.content)
    (hreaches : paths.paths ≠ [] → state.ReachesParent) :
    ((state.toParent.write message).inFlight.map ToParent.content).sum =
      (state.toParent.inFlight.map ToParent.content).sum + paths.content := by
  by_cases hempty : paths.paths = []
  · have hzero : paths.content = 0 := by
      simp [PathList.content, hempty]
    rw [hzero, add_zero]
    exact state.toParent.sum_write _ (hmessage.trans hzero)
  · have hopen := (hreaches hempty).1
    simp [FailingChannel.write_inFlight_of_open hopen, hmessage]

theorem content_eq_zero_of_outOfFrame
    (hreaches : paths.paths ≠ [] → state.ReachesParent)
    (hphase : state.parent.phase = .outOfFrame) : paths.content = 0 := by
  by_cases hempty : paths.paths = []
  · simp [PathList.content, hempty]
  · exact absurd hphase (hreaches hempty).2

section

variable (hstate : Coherent state)

include hstate

theorem childProceeds_preserves (hkeeps : Keeps state (.childProceeds waits))
    (hstep : state.childProceeds waits = some after) :
    Preserves state after := by
  unfold State.childProceeds at hstep
  split at hstep
  · rename_i hphase
    cases hstep
    refine ⟨hstate.childSpeaks (by rw [hphase]; rfl)
      (by simp [ChildPhase.isWriting]) (by simp) (by simp), ?_⟩
    have hsum : ((state.toParent.write .updatestatus).inFlight.map
        ToParent.content).sum = _ :=
      state.toParent.sum_write ToParent.content rfl
    simp [ChildPhase.copy, hphase, hsum]
  · rename_i hphase hhead
    cases hstep
    apply handleGiveMeYourPaths_preserves hstate hphase hhead
    simpa only [Keeps, hphase, hhead] using hkeeps
  · rename_i hphase hhead
    cases hstep
    exact handleHereAreSomePaths_preserves hstate hphase hhead
  · rename_i hphase hhead
    cases hstep
    refine ⟨hstate.childHears hhead _ (by simp), ?_⟩
    have hcopy : state.parent.phase.copy state.ChildHasReceived =
        state.parent.phase.copy True := by
      apply ParentPhase.copy_congr
      intro paths hpaths
      cases hstate.receipt paths hpaths .everythingok (by simp [hhead])
    rw [State.accounted, hcopy]
    simp [ChildPhase.copy, hphase]
  · rename_i paths hphase
    cases hstep
    have hreaches : paths.paths ≠ [] → state.ReachesParent := by
      simpa only [Keeps, hphase] using hkeeps
    have hflight := inFlight_childWrites (.requested paths) rfl hreaches
    refine ⟨hstate.childSpeaks (by rw [hphase]; rfl) (fun _ => rfl) (by simp)
      (content_eq_zero_of_outOfFrame hreaches), ?_⟩
    apply le_of_eq
    simp [ChildPhase.copy, hphase, hflight]
    abel
  · rename_i hphase
    cases hstep
    refine ⟨hstate.childSpeaks (by rw [hphase]; rfl) (fun _ => rfl) (by simp)
      (by simp), ?_⟩
    have hsum : ((state.toParent.write .acknowledged).inFlight.map
        ToParent.content).sum = _ :=
      state.toParent.sum_write ToParent.content rfl
    have hafter : ((state.childWrites .acknowledged).childGoes
        .idle).accounted = state.held + state.builtCopy +
          state.parent.phase.copy (.acknowledged ∈
            (state.toParent.write .acknowledged).inFlight) +
            state.inFlight := by
      simp [ChildPhase.copy, hsum]
    rw [hafter]
    simp only [State.accounted, hphase, ChildPhase.copy, add_zero]
    gcongr
    exact ParentPhase.copy_mono _ fun _ => Or.inl hphase
  · rename_i paths hphase
    cases hstep
    have hreaches : paths.paths ≠ [] → state.ReachesParent := by
      simpa only [Keeps, hphase] using hkeeps
    have hflight := inFlight_childWrites (.sendpaths paths) rfl hreaches
    refine ⟨hstate.childSpeaks (by rw [hphase]; rfl)
      (by simp [ChildPhase.isWriting]) (by simp)
      (content_eq_zero_of_outOfFrame hreaches), ?_⟩
    have hbefore : state.accounted = state.held + state.builtCopy +
        state.parent.phase.copy (.acknowledged ∈ state.toParent.inFlight) +
          (state.inFlight + paths.content) := by
      simp [ChildPhase.copy, hphase]
      abel
    rw [hbefore]
    simp only [State.accounted]
    simp [hflight]
  · rename_i paths rest hphase hhead
    cases hstep
    refine ⟨hstate.childHears hhead _ (by simp), ?_⟩
    have hparent : state.parent.phase ≠ .refusing := by
      intro hrefusing
      have hnone := (hstate.parent_writing (by rw [hrefusing]; rfl)).2.1
      rw [hhead] at hnone
      cases hnone
    have hrest : rest = [] := by
      have hone := hstate.one_reply
      rw [hhead] at hone
      exact eq_nil_of_length_eq_zero (by simpa using hone)
    simp [ChildPhase.copy, hphase, hhead, hparent, hrest]
  · rename_i paths rest hphase hhead
    cases hstep
    refine ⟨(hstate.childHears hhead .idle (by simp)).congr rfl rfl rfl rfl,
      ?_⟩
    apply le_of_eq
    simp [ChildPhase.copy, hphase, hhead]
    abel
  · cases hstep

theorem childRaises_preserves (hkeeps : Keeps state .childRaises)
    (hstep : state.childRaises = some after) :
    Preserves state after := by
  unfold State.childRaises at hstep
  split at hstep <;> cases hstep
  · rename_i paths hphase
    refine ⟨hstate.childDisconnects.congr rfl rfl rfl rfl, ?_⟩
    apply le_of_eq
    simp [ChildPhase.copy, hphase]
    abel
  · rename_i hphase
    exact childDisconnects_preserves hstate (by rw [hphase]; rfl)
  · rename_i hphase _
    exact childDisconnects_preserves hstate (by rw [hphase]; rfl)
  · rename_i hphase
    exact childDisconnects_preserves hstate (by rw [hphase]; rfl)
  · rename_i paths hphase
    have hempty : paths.paths = [] := by
      simpa only [Keeps, hphase] using hkeeps
    apply childDisconnects_preserves hstate
    simp [ChildPhase.copy, hphase, PathList.content, hempty]
  · rename_i paths hphase hnone
    have hrefusing : state.parent.phase ≠ .refusing := by
      simpa only [Keeps, hphase] using hkeeps
    apply childDisconnects_preserves hstate
    simp [ChildPhase.copy, hphase, hnone, hrefusing]

theorem failToParent_preserves {kept : ℕ}
    (hkeeps : Keeps state (.failToParent kept)) :
    Preserves state
      { state with toParent := state.toParent.fail kept } := by
  refine ⟨hstate.failToParent kept, ?_⟩
  have hdropped : ((state.toParent.inFlight.drop kept).map
      ToParent.content).sum = 0 := by
    apply sum_eq_zero
    intro content hmem
    obtain ⟨message, hmessage, hcontent⟩ := mem_map.mp hmem
    rw [← hcontent]
    exact hkeeps message hmessage
  have hflight : state.inFlight =
      ((state.toParent.inFlight.take kept).map ToParent.content).sum := by
    rw [State.inFlight]
    conv_lhs => rw [← take_append_drop kept state.toParent.inFlight]
    rw [map_append, sum_append, hdropped, add_zero]
  have hafter : State.accounted
      { state with toParent := state.toParent.fail kept } =
      state.held + state.builtCopy +
        state.parent.phase.copy (state.child.phase = .acknowledging ∨
          .acknowledged ∈ state.toParent.inFlight.take kept) +
        state.child.phase.copy state.ParentHasRefused + state.inFlight := by
    rw [hflight]
    rfl
  rw [hafter, State.accounted]
  gcongr
  apply ParentPhase.copy_mono
  rintro (hphase | hmem)
  · exact Or.inl hphase
  · exact Or.inr (mem_of_mem_take hmem)

theorem failToChild_preserves {kept : ℕ}
    (hkeeps : Keeps state (.failToChild kept)) :
    Preserves state { state with toChild := state.toChild.fail kept } := by
  refine ⟨hstate.failToChild kept, ?_⟩
  have hrefused : .untrusted ∈ state.toChild.inFlight.take kept ↔
      .untrusted ∈ state.toChild.inFlight := by
    constructor
    · exact mem_of_mem_take
    · intro hmem
      rw [← take_append_drop kept state.toChild.inFlight, mem_append] at hmem
      exact hmem.resolve_right hkeeps
  simp [hrefused]

theorem reconnects_preserves (hstep : state.reconnects = some after) :
    Preserves state after := by
  unfold State.reconnects at hstep
  split at hstep <;> cases hstep
  rename_i hparent hchild
  refine ⟨Opened.coherent ⟨rfl, rfl, rfl, rfl⟩, ?_⟩
  simp [ParentPhase.copy, ChildPhase.copy, hparent, hchild,
    (hstate.disconnected hparent).1]

end

end

theorem step_preserves {after : State settings} {label : Label settings}
    (hstate : Coherent state) (hkeeps : Keeps state label)
    (hstep : step state label = some after) :
    Preserves state after := by
  cases label with
  | parentProceeds choice => exact parentProceeds_preserves hstate hkeeps hstep
  | parentRaises => exact parentRaises_preserves hstate hkeeps hstep
  | parentMisreads parent toParent toChild => exact hkeeps.elim
  | childBuilds waits => exact childBuilds_preserves hstate hkeeps hstep
  | childEnters => exact childEnters_preserves hstate hstep
  | childProceeds waits => exact childProceeds_preserves hstate hkeeps hstep
  | childRaises => exact childRaises_preserves hstate hkeeps hstep
  | failToParent kept =>
    cases hstep
    exact failToParent_preserves hstate hkeeps
  | failToChild kept =>
    cases hstep
    exact failToChild_preserves hstate hkeeps
  | reconnects => exact reconnects_preserves hstate hstep

theorem reaches_coherent {start final : State settings}
    (hrun : Reaches step Keeps start final) (hstart : Coherent start) :
    Coherent final :=
  hrun.invariant
    (fun _ _ _ hstate hkeeps hstep =>
      (step_preserves hstate hkeeps hstep).coherent) hstart

theorem reaches_accounted_le {start final : State settings}
    (hrun : Reaches step Keeps start final) (hstart : Coherent start) :
    start.accounted ≤ final.accounted := by
  induction hrun with
  | refl => exact le_refl _
  | tail hbefore hmove ih =>
    obtain ⟨label, hkeeps, hstep⟩ := hmove
    have hpreserves :=
      step_preserves (reaches_coherent hbefore hstart) hkeeps hstep
    exact ih.trans hpreserves.accounted_le

/-- No routine is under way and nothing is in flight to the parent. -/
def State.Settled (state : State settings) : Prop :=
  (state.parent.phase = .waiting ∨ state.parent.phase = .disconnected) ∧
    (state.child.phase = .idle ∨ state.child.phase = .disconnected) ∧
    state.child.built = none ∧ state.toParent.inFlight = []

theorem State.Settled.accounted_eq (hsettled : state.Settled) :
    state.accounted = state.held := by
  obtain ⟨hparent, hchild, hbuilt, hempty⟩ := hsettled
  rcases hparent with hparent | hparent <;>
    rcases hchild with hchild | hchild <;>
      simp [ParentPhase.copy, ChildPhase.copy, hparent, hchild, hbuilt, hempty]

/-- In every run of moves that keep the paths, whatever was held or under way
at some point is held or under way at every later point, and it is held by
one of the two sides whenever the exchange has settled. -/
theorem exchange_loses_no_path {start middle final : State settings}
    (hopened : Opened start) (hbefore : Reaches step Keeps start middle)
    (hafter : Reaches step Keeps middle final) :
    middle.accounted ≤ final.accounted ∧
      (final.Settled → middle.accounted ≤ final.held) := by
  have hmiddle := reaches_coherent hbefore hopened.coherent
  have hle := reaches_accounted_le hafter hmiddle
  refine ⟨hle, ?_⟩
  intro hsettled
  rw [← hsettled.accounted_eq]
  exact hle


namespace PushExample

def oneLevel : QueueSettings := ⟨0, false, zero_level_lt⟩

def path : PathQueueElement := ⟨[0], [], 0x1000, 0⟩

def emptyQueue : MainPathQueue oneLevel where
  slots := List.replicate MAXQUEUESIZE path
  pathqueuelength := 0
  slots_length := length_replicate
  slots_sized := by
    intro element hmem
    rw [eq_of_mem_replicate hmem]
    exact ⟨rfl, by simp [oneLevel]⟩
  pathqueuelength_le := Nat.zero_le _

def noPaths : PathQueues oneLevel where
  pathqueue := emptyQueue
  overflowqueue := []
  overflow_sized := by simp

def onePath : PathQueues oneLevel where
  pathqueue := emptyQueue
  overflowqueue := [path]
  overflow_sized := by
    intro element hmem
    rw [mem_singleton.mp hmem]
    exact ⟨rfl, by simp [oneLevel]⟩

def start : State oneLevel where
  parent := ⟨noPaths, .waiting⟩
  child := ⟨onePath, .idle, none⟩
  toParent := .opened
  toChild := .opened

def lostPush : List (Label oneLevel) :=
  [.childBuilds fun _ => true, .childEnters, .failToParent 0, .childRaises]

theorem start_opened : Opened start := ⟨rfl, rfl, rfl, rfl⟩

set_option maxRecDepth 8000 in
/-- The connection fails while the child pushes its path; the exception is
not followed by putting the path back. -/
theorem failed_push_loses_path :
    ∃ final, Reaches step (fun _ _ => True) start final ∧ final.Settled ∧
      ¬ start.held ≤ final.accounted := by
  have hrun : (runLabels step lostPush start).isSome = true := rfl
  refine ⟨(runLabels step lostPush start).get hrun, ?_,
    ⟨Or.inl rfl, Or.inr rfl, rfl, rfl⟩, ?_⟩
  · have hfinal : runLabels step lostPush start =
        some ((runLabels step lostPush start).get hrun) :=
      (Option.some_get hrun).symm
    exact reaches_of_runLabels (fun _ _ _ => trivial) hfinal
  · have hheld : start.held = {path} := rfl
    have hlost :
        ((runLabels step lostPush start).get hrun).accounted = 0 := rfl
    rw [hheld, hlost]
    simp

def requestOne : ParentChoice :=
  ⟨.requestPathsFromChild 1, fun _ => true, false, false, true, false⟩

/-- The parent asks for the path, and the child's reply cannot be written. -/
def failedRequest : List (Label oneLevel) :=
  [.childProceeds fun _ => true, .parentProceeds requestOne,
    .parentProceeds requestOne, .childProceeds fun _ => true,
    .failToParent 0, .childRaises, .parentRaises]

theorem exchange_loses_no_path_failedRequest :
    ∃ final, Reaches step Keeps start final ∧ final.Settled ∧
      start.accounted ≤ final.held := by
  have hrun : (runLabels step failedRequest start).isSome = true := rfl
  have hreaches : Reaches step Keeps start
      ((runLabels step failedRequest start).get hrun) := by
    apply Relation.ReflTransGen.head
    · exact ⟨.childProceeds fun _ => true, trivial, rfl⟩
    apply Relation.ReflTransGen.head
    · exact ⟨.parentProceeds requestOne, trivial, rfl⟩
    apply Relation.ReflTransGen.head
    · exact ⟨.parentProceeds requestOne, trivial, rfl⟩
    apply Relation.ReflTransGen.head
    · exact ⟨.childProceeds fun _ => true, List.Perm.nil, rfl⟩
    apply Relation.ReflTransGen.head
    · refine ⟨.failToParent 0, ?_, rfl⟩
      intro message hmem
      cases hmem
    apply Relation.ReflTransGen.head
    · exact ⟨.childRaises, trivial, rfl⟩
    apply Relation.ReflTransGen.head
    · refine ⟨.parentRaises, ?_, rfl⟩
      intro hphase
      cases hphase
    exact Relation.ReflTransGen.refl
  have hsettled :
      ((runLabels step failedRequest start).get hrun).Settled :=
    ⟨Or.inr rfl, Or.inr rfl, rfl, rfl⟩
  exact ⟨_, hreaches, hsettled,
    (exchange_loses_no_path start_opened Relation.ReflTransGen.refl
      hreaches).2 hsettled⟩

end PushExample

end PathExchange
end Pointerscan
end CheatEngine
