import CheatEngine.PointerscanPathStream

/-!
# Framing of the messages from child to parent

The parent reads the socket of a child as a stream of commands.  Every
handler has to consume the bytes the child wrote for its message, or the next
command byte is read from the middle of a message.  An exception in a handler
closes the connection, so nothing more is read from it.
-/

namespace CheatEngine
namespace Pointerscan
namespace Framing

open List ByteStream

variable {settings : QueueSettings}

def PSCMD_HELLO : UInt8 := 0
def PSCMD_YOUREINTHEQUEUE : UInt8 := 1
def PSCMD_UPDATESTATUS : UInt8 := 2
def PSCMD_AMITRUSTED : UInt8 := 3
def PSCMD_SENDPATHS : UInt8 := 4
def PSCMD_CANUPLOADRESULTS : UInt8 := 5
def PSCMD_UPLOADRESULTS : UInt8 := 6
def PSCMD_PREPAREFORMYTERMINATION : UInt8 := 7
def PSCMD_GOODBYE : UInt8 := 8

structure UpdateStatusMsg where
  currentscanid : UInt32
  isidle : UInt8
  potentialthreadcount : UInt32
  actualthreadcount : UInt32
  pathsevaluated : UInt64
  localpathqueuecount : UInt32
  totalpathQueueCount : UInt32
  queuesize : UInt32
deriving DecidableEq

/-- The record as it lies in memory: the fields are aligned, which leaves
three bytes after `isidle` and four at the end. -/
def writeUpdateStatusMsg (msg : UpdateStatusMsg) : List UInt8 :=
  writeDWord msg.currentscanid ++ (writeByte msg.isidle ++
    (List.replicate 3 0 ++ (writeDWord msg.potentialthreadcount ++
      (writeDWord msg.actualthreadcount ++ (writeQWord msg.pathsevaluated ++
        (writeDWord msg.localpathqueuecount ++
          (writeDWord msg.totalpathQueueCount ++
            (writeDWord msg.queuesize ++ List.replicate 4 0))))))))

def readUpdateStatusMsg : Reader UpdateStatusMsg := do
  let currentscanid ← readDWord
  let isidle ← readByte
  let _ ← readBuffer 3
  let potentialthreadcount ← readDWord
  let actualthreadcount ← readDWord
  let pathsevaluated ← readQWord
  let localpathqueuecount ← readDWord
  let totalpathQueueCount ← readDWord
  let queuesize ← readDWord
  let _ ← readBuffer 4
  return { currentscanid, isidle, potentialthreadcount, actualthreadcount,
           pathsevaluated, localpathqueuecount, totalpathQueueCount,
           queuesize }

/-! ## The parent -/

/-- What the handlers look at: the parent's own scan and its record of the
child. -/
structure ParentState where
  initializer : Bool
  isIdle : Bool
  terminated : Bool
  savestate : Bool
  currentscanhasended : Bool
  currentscanid : UInt32
  pathqueuelength : ℕ
  overflowsize : ℕ
  localscannercount : ℕ
  childcount : ℕ
  trusted : Bool
  terminating : Bool
  takePathsAndDisconnect : Bool
  trustlevel : ℤ
  scanresultDownloader : Bool
deriving DecidableEq

inductive UpdateReply
  | currentScanHasEnded (saveresults : Bool)
  | doNewScan
  | giveMeYourPaths (count : ℤ)
  | hereAreSomePaths (count : ℤ)
  | everythingOk
deriving DecidableEq

namespace ParentState

def endsScan (parent : ParentState) : Bool :=
  parent.initializer && (parent.isIdle || parent.terminated)

def savestateNow (parent : ParentState) : Bool :=
  if parent.endsScan && !parent.terminated then true else parent.savestate

def scanHasEndedNow (parent : ParentState) : Bool :=
  parent.endsScan || parent.currentscanhasended

def localpathcount (parent : ParentState) : ℕ :=
  parent.pathqueuelength + parent.overflowsize

def equalize (parent : ParentState) (msg : UpdateStatusMsg) : UpdateReply :=
  let theirs : ℤ := msg.localpathqueuecount.toNat
  let mine : ℤ := parent.localpathcount
  if msg.potentialthreadcount = 0 ∧ 0 < theirs then
    .giveMeYourPaths theirs
  else if parent.localscannercount = 0 ∧ 0 < mine then
    .hereAreSomePaths (1 + mine / parent.childcount)
  else if 0 < parent.overflowsize ∧ theirs < MAXQUEUESIZE then
    .hereAreSomePaths (1 + min parent.overflowsize MAXQUEUESIZE - theirs)
  else if theirs < MAXQUEUESIZE / 2 ∧ MAXQUEUESIZE / 2 < mine then
    .hereAreSomePaths (1 + (mine - theirs) / 2)
  else if MAXQUEUESIZE / 2 < theirs ∧ mine < MAXQUEUESIZE / 2 then
    .giveMeYourPaths (1 + (theirs - mine) / 2)
  else if mine = 0 ∧ 0 < parent.localscannercount then
    .giveMeYourPaths (1 + msg.totalpathQueueCount.toNat / 2)
  else
    .everythingOk

def updateReply (parent : ParentState) (msg : UpdateStatusMsg) :
    UpdateReply :=
  if parent.scanHasEndedNow then
    .currentScanHasEnded (!(parent.terminated && !parent.savestateNow))
  else if msg.isidle ≠ 1 ∧ msg.currentscanid ≠ parent.currentscanid then
    .currentScanHasEnded false
  else if msg.currentscanid ≠ parent.currentscanid then
    .doNewScan
  else if parent.currentscanid = 0 then
    .everythingOk
  else if parent.terminating then
    .giveMeYourPaths (min 1000 msg.localpathqueuecount.toNat)
  else if 0 < msg.potentialthreadcount.toInt32 ∨
      0 < msg.localpathqueuecount then
    if parent.trusted then
      parent.equalize msg
    else if msg.isidle = 1 then
      .hereAreSomePaths
        (1 + min parent.trustlevel ((parent.localpathcount / 4 : ℕ) : ℤ))
    else
      .everythingOk
  else
    .everythingOk

/-- The last paths of a terminating child were taken. -/
def disconnects (parent : ParentState) (msg : UpdateStatusMsg) : Bool :=
  !parent.scanHasEndedNow && msg.currentscanid == parent.currentscanid &&
    parent.currentscanid != 0 && parent.terminating &&
    parent.takePathsAndDisconnect && msg.localpathqueuecount == 0

/-- The condition of `HandleSendPathsMessage`: trusted (or terminating child),
or a scan that ended with its state saved. -/
def acceptsPaths (parent : ParentState) : Bool :=
  (parent.currentscanhasended && parent.savestate) || parent.trusted ||
    parent.terminating

end ParentState

def readAcknowledgement (message : String) : Reader Unit := do
  let reply ← readByte
  if reply ≠ 0 then throw message else pure ()

/-- `CopyFrom` of the elements and their decoding. -/
def readPaths (settings : QueueSettings) (count : UInt32) :
    Reader (List PathQueueElement) :=
  readMany (loadPathQueueElementFromStream settings) count.toNat

def handleRequestPathsFromChild (settings : QueueSettings) :
    Reader Unit := do
  let count ← readDWord
  if 65536 < count.toInt32 then
    throw "The child tried to send more paths than allowed after a request"
  else if count.toInt32 < 0 then
    throw "Range check error"
  else do
    let _ ← readPaths settings count
    pure ()

/-- What a new scan is answered with is read by `TScanDataUploader.execute`,
and nothing else reads the socket until then. -/
def readUpdateAnswer (settings : QueueSettings) : UpdateReply → Reader Unit
  | .currentScanHasEnded _ => readAcknowledgement
      "Invalid reply for PSUPDATEREPLYCMD_CURRENTSCANHASENDED"
  | .doNewScan => readAcknowledgement
      "Invalid result received after uploading the scanresults"
  | .giveMeYourPaths _ => handleRequestPathsFromChild settings
  | .hereAreSomePaths _ => readAcknowledgement
      "Invalid result received from PSUPDATEREPLYCMD_HEREARESOMEPATHS"
  | .everythingOk => readAcknowledgement
      "The child didn't respond to PSUPDATEREPLYCMD_EVERYTHINGOK as expected"

def handleUpdateStatusMessage (settings : QueueSettings)
    (parent : ParentState) : Reader Unit := do
  let msg ← readUpdateStatusMsg
  readUpdateAnswer settings (parent.updateReply msg)
  if parent.disconnects msg then
    throw "All paths received"
  else
    pure ()

def handleSendPathsMessage (settings : QueueSettings)
    (parent : ParentState) : Reader Unit := do
  let count ← readDWord
  if parent.acceptsPaths then
    if count.toInt32 < 0 then
      throw "The child tried to send a negative amount"
    else if 65536 < count then
      throw "The child tried to send more paths at once than allowed"
    else do
      let _ ← readPaths settings count
      pure ()
  else
    pure ()

/-- `TScanResultDownloader.execute`; `CopyFrom` with a size of 0 seeks on the
socket and raises. -/
def handleUploadResultsMessage (parent : ParentState) : Reader Unit :=
  if parent.scanresultDownloader then
    throw "The child tried to send me results while I was still busy"
  else do
    let scanid ← readDWord
    if scanid ≠ parent.currentscanid then
      throw "The child is sending me results of a different scan"
    else do
      let streamsize ← readDWord
      let _ ← readDWord
      if streamsize = 0 then
        throw "Stream seek error"
      else do
        let _ ← readBuffer streamsize.toNat
        pure ()

def handleQueueMessage : Reader Unit := do
  let _ ← readDWord
  let _ ← readDWord
  pure ()

def handleGoodbyeMessage : Reader Unit := do
  let _ ← readByte
  throw "disconnected"

def handleChildMessage (settings : QueueSettings) (parent : ParentState) :
    Reader Unit := do
  let command ← readByte
  if command = PSCMD_HELLO then
    throw "HELLO after initializtion"
  else if command = PSCMD_YOUREINTHEQUEUE then
    handleQueueMessage
  else if command = PSCMD_UPDATESTATUS then
    handleUpdateStatusMessage settings parent
  else if command = PSCMD_AMITRUSTED then
    pure ()
  else if command = PSCMD_SENDPATHS then
    handleSendPathsMessage settings parent
  else if command = PSCMD_CANUPLOADRESULTS then
    pure ()
  else if command = PSCMD_UPLOADRESULTS then
    handleUploadResultsMessage parent
  else if command = PSCMD_PREPAREFORMYTERMINATION then
    pure ()
  else if command = PSCMD_GOODBYE then
    handleGoodbyeMessage
  else
    throw "Invalid message received"

/-- Paths that a party can send: their number is sent as a dword. -/
structure SentPaths (settings : QueueSettings) where
  paths : List PathQueueElement
  sized : ∀ element ∈ paths, element.Sized settings
  length_lt : paths.length < 2 ^ 32

def SentPaths.bytes (sent : SentPaths settings) : List UInt8 :=
  writeDWord (UInt32.ofNat sent.paths.length) ++
    sent.paths.flatMap (writePathQueueElementToStream settings)

/-- Compressed results; their size is sent as a dword. -/
structure SentResults where
  data : List UInt8
  length_lt : data.length < 2 ^ 32

inductive ChildMessage (settings : QueueSettings)
  | updateStatus (msg : UpdateStatusMsg) (requested : SentPaths settings)
  | sendPaths (sent : SentPaths settings)
  | canUploadResults
  | uploadResults (scanid decompressedsize : UInt32) (results : SentResults)
  | youreInTheQueue (position size : UInt32)
  | amITrusted
  | prepareForMyTermination
  | goodbye (canreconnect : UInt8)

def updateAnswer (requested : SentPaths settings) : UpdateReply → List UInt8
  | .currentScanHasEnded _ => writeByte 0
  | .doNewScan => writeByte 0
  | .giveMeYourPaths _ => requested.bytes
  | .hereAreSomePaths _ => writeByte 0
  | .everythingOk => writeByte 0

/-- Everything the child writes for a message, its answer to the parent's
reply included. -/
def ChildMessage.bytes (parent : ParentState) :
    ChildMessage settings → List UInt8
  | .updateStatus msg requested =>
    writeByte PSCMD_UPDATESTATUS ++ (writeUpdateStatusMsg msg ++
      updateAnswer requested (parent.updateReply msg))
  | .sendPaths sent => writeByte PSCMD_SENDPATHS ++ sent.bytes
  | .canUploadResults => writeByte PSCMD_CANUPLOADRESULTS
  | .uploadResults scanid decompressedsize results =>
    writeByte PSCMD_UPLOADRESULTS ++ (writeDWord scanid ++
      (writeDWord (UInt32.ofNat results.data.length) ++
        (writeDWord decompressedsize ++ results.data)))
  | .youreInTheQueue position size =>
    writeByte PSCMD_YOUREINTHEQUEUE ++ (writeDWord position ++
      writeDWord size)
  | .amITrusted => writeByte PSCMD_AMITRUSTED
  | .prepareForMyTermination => writeByte PSCMD_PREPAREFORMYTERMINATION
  | .goodbye canreconnect =>
    writeByte PSCMD_GOODBYE ++ writeByte canreconnect

/-- Whatever the child writes next, the handler closes the connection or
leaves exactly that unread. -/
def Framed (parent : ParentState) (message : ChildMessage settings) : Prop :=
  ∀ next,
    (∃ error, handleChildMessage settings parent (message.bytes parent ++ next) =
      .error error) ∨
    handleChildMessage settings parent (message.bytes parent ++ next) =
      .ok ((), next)

/-! ## What the handlers consume -/

theorem fails_throw {α : Type} (message : String) (block : List UInt8) :
    Fails (throw message : Reader α) block := by
  intro unread
  exact ⟨message, rfl⟩

theorem reads_padding (size : ℕ) :
    Reads (readBuffer size) (List.replicate size 0) (List.replicate size 0) := by
  have hread := reads_readBuffer (List.replicate size 0)
  rw [length_replicate] at hread
  exact hread

theorem reads_readUpdateStatusMsg (msg : UpdateStatusMsg) :
    Reads readUpdateStatusMsg (writeUpdateStatusMsg msg) msg :=
  (reads_readDWord _).bind ((reads_readByte _).bind
    ((reads_padding 3).bind ((reads_readDWord _).bind
      ((reads_readDWord _).bind ((reads_readQWord _).bind
        ((reads_readDWord _).bind ((reads_readDWord _).bind
          ((reads_readDWord _).bind (reads_padding 4).bind_pure))))))))

theorem reads_readAcknowledgement (message : String) :
    Reads (readAcknowledgement message) (writeByte 0) () := by
  have hread : Reads (readAcknowledgement message) (writeByte 0 ++ []) () :=
    (reads_readByte 0).bind (reads_pure ())
  simpa using hread

variable {parent : ParentState} (sent : SentPaths settings)

theorem SentPaths.count_toNat :
    (UInt32.ofNat sent.paths.length).toNat = sent.paths.length := by
  rw [UInt32.toNat_ofNat', Nat.mod_eq_of_lt sent.length_lt]

theorem SentPaths.reads_paths :
    Reads (readPaths settings (UInt32.ofNat sent.paths.length))
      (sent.paths.flatMap (writePathQueueElementToStream settings))
      (sent.paths.map (PathQueueElement.transmitted settings)) := by
  rw [readPaths, sent.count_toNat]
  exact reads_loadPathQueueElements sent.sized

theorem handleRequestPathsFromChild_consumes :
    Reads (handleRequestPathsFromChild settings) sent.bytes () ∨
      Fails (handleRequestPathsFromChild settings) sent.bytes := by
  set count := UInt32.ofNat sent.paths.length with hcount
  by_cases hmany : 65536 < count.toInt32
  · right
    apply (reads_readDWord _).bind_fails
    rw [← hcount, if_pos hmany]
    exact fails_throw _ _
  · by_cases hnegative : count.toInt32 < 0
    · right
      apply (reads_readDWord _).bind_fails
      rw [← hcount, if_neg hmany, if_pos hnegative]
      exact fails_throw _ _
    · left
      apply (reads_readDWord _).bind
      rw [← hcount, if_neg hmany, if_neg hnegative]
      exact sent.reads_paths.bind_pure

theorem readUpdateAnswer_consumes (requested : SentPaths settings)
    (reply : UpdateReply) :
    Reads (readUpdateAnswer settings reply) (updateAnswer requested reply) () ∨
      Fails (readUpdateAnswer settings reply)
        (updateAnswer requested reply) := by
  cases reply with
  | currentScanHasEnded saveresults =>
    exact Or.inl (reads_readAcknowledgement _)
  | doNewScan => exact Or.inl (reads_readAcknowledgement _)
  | giveMeYourPaths count =>
    exact handleRequestPathsFromChild_consumes requested
  | hereAreSomePaths count => exact Or.inl (reads_readAcknowledgement _)
  | everythingOk => exact Or.inl (reads_readAcknowledgement _)

theorem handleUpdateStatusMessage_consumes (parent : ParentState)
    (msg : UpdateStatusMsg) (requested : SentPaths settings) :
    Reads (handleUpdateStatusMessage settings parent)
        (writeUpdateStatusMsg msg ++
          updateAnswer requested (parent.updateReply msg)) () ∨
      Fails (handleUpdateStatusMessage settings parent)
        (writeUpdateStatusMsg msg ++
          updateAnswer requested (parent.updateReply msg)) := by
  have hmsg := reads_readUpdateStatusMsg msg
  rcases readUpdateAnswer_consumes requested (parent.updateReply msg) with
    hanswer | hanswer
  · by_cases hdisconnect : parent.disconnects msg = true
    · right
      apply hmsg.bind_fails
      rw [← append_nil (updateAnswer _ _)]
      apply hanswer.bind_fails
      rw [if_pos hdisconnect]
      exact fails_throw _ _
    · left
      apply hmsg.bind
      rw [← append_nil (updateAnswer _ _)]
      apply hanswer.bind
      rw [if_neg hdisconnect]
      exact reads_pure ()
  · right
    exact hmsg.bind_fails hanswer.bind

theorem handleSendPathsMessage_consumes
    (haccepts : parent.acceptsPaths = true) (sent : SentPaths settings) :
    Reads (handleSendPathsMessage settings parent) sent.bytes () ∨
      Fails (handleSendPathsMessage settings parent) sent.bytes := by
  set count := UInt32.ofNat sent.paths.length with hcount
  by_cases hnegative : count.toInt32 < 0
  · right
    apply (reads_readDWord _).bind_fails
    rw [← hcount, if_pos haccepts, if_pos hnegative]
    exact fails_throw _ _
  · by_cases hmany : 65536 < count
    · right
      apply (reads_readDWord _).bind_fails
      rw [← hcount, if_pos haccepts, if_neg hnegative, if_pos hmany]
      exact fails_throw _ _
    · left
      apply (reads_readDWord _).bind
      rw [← hcount, if_pos haccepts, if_neg hnegative, if_neg hmany]
      exact sent.reads_paths.bind_pure

theorem handleSendPathsMessage_refuses
    (hrefuses : parent.acceptsPaths = false) (count : UInt32) :
    Reads (handleSendPathsMessage settings parent) (writeDWord count) () := by
  have hread : Reads (handleSendPathsMessage settings parent)
      (writeDWord count ++ []) () := by
    apply (reads_readDWord count).bind
    rw [hrefuses]
    exact reads_pure ()
  simpa using hread

theorem handleUploadResultsMessage_consumes (parent : ParentState)
    (scanid decompressedsize : UInt32) (results : SentResults) :
    Reads (handleUploadResultsMessage parent)
        (writeDWord scanid ++
          (writeDWord (UInt32.ofNat results.data.length) ++
            (writeDWord decompressedsize ++ results.data))) () ∨
      Fails (handleUploadResultsMessage parent)
        (writeDWord scanid ++
          (writeDWord (UInt32.ofNat results.data.length) ++
            (writeDWord decompressedsize ++ results.data))) := by
  unfold handleUploadResultsMessage
  by_cases hbusy : parent.scanresultDownloader = true
  · right
    rw [if_pos hbusy]
    exact fails_throw _ _
  · rw [if_neg hbusy]
    by_cases hscan : scanid ≠ parent.currentscanid
    · right
      apply (reads_readDWord _).bind_fails
      rw [if_pos hscan]
      exact fails_throw _ _
    · by_cases hempty : UInt32.ofNat results.data.length = 0
      · right
        apply (reads_readDWord _).bind_fails
        rw [if_neg hscan]
        apply (reads_readDWord _).bind_fails
        apply (reads_readDWord _).bind_fails
        rw [if_pos hempty]
        exact fails_throw _ _
      · left
        have hlength : (UInt32.ofNat results.data.length).toNat =
            results.data.length := by
          rw [UInt32.toNat_ofNat', Nat.mod_eq_of_lt results.length_lt]
        apply (reads_readDWord _).bind
        rw [if_neg hscan]
        apply (reads_readDWord _).bind
        apply (reads_readDWord _).bind
        rw [if_neg hempty, hlength]
        exact (reads_readBuffer results.data).bind_pure

/-! ## Framing -/

def CarriesRefusedPaths (parent : ParentState) :
    ChildMessage settings → Prop
  | .sendPaths sent => sent.paths ≠ [] ∧ parent.acceptsPaths = false
  | _ => False

theorem framed_of_consumes {message : ChildMessage settings}
    (command : UInt8) (handler : Reader Unit) (body : List UInt8)
    (hbytes : message.bytes parent = writeByte command ++ body)
    (hhandler : ∀ unread,
      handleChildMessage settings parent (writeByte command ++ unread) =
        handler unread)
    (hconsumes : Reads handler body () ∨ Fails handler body) :
    Framed parent message := by
  intro next
  rw [hbytes, append_assoc, hhandler]
  rcases hconsumes with hreads | hfails
  · exact Or.inr (hreads next)
  · exact Or.inl (hfails next)

theorem refused_paths_not_framed {sent : SentPaths settings}
    (hpaths : sent.paths ≠ []) (hrefuses : parent.acceptsPaths = false) :
    ¬ Framed parent (ChildMessage.sendPaths sent) := by
  intro hframed
  set payload := sent.paths.flatMap (writePathQueueElementToStream settings)
    with hpayload
  have hhandled : handleChildMessage settings parent
      ((ChildMessage.sendPaths sent).bytes parent ++ []) =
        .ok ((), payload) := by
    have hread : Reads (handleSendPathsMessage settings parent)
        (writeDWord (UInt32.ofNat sent.paths.length)) () :=
      handleSendPathsMessage_refuses hrefuses _
    rw [append_nil]
    exact hread payload
  have hnonempty : payload ≠ [] := by
    obtain ⟨first, rest, hcons⟩ := exists_cons_of_ne_nil hpaths
    intro hnil
    have hlength := congrArg List.length hnil
    rw [hpayload, hcons] at hlength
    simp [writePathQueueElementToStream] at hlength
  rcases hframed [] with ⟨error, herror⟩ | hok
  · rw [hhandled] at herror
    cases herror
  · rw [hhandled] at hok
    exact hnonempty (congrArg Prod.snd (Except.ok.inj hok))

def untrustingParent : ParentState where
  initializer := true
  isIdle := false
  terminated := false
  savestate := false
  currentscanhasended := false
  currentscanid := 1
  pathqueuelength := 0
  overflowsize := 0
  localscannercount := 1
  childcount := 1
  trusted := false
  terminating := false
  takePathsAndDisconnect := false
  trustlevel := 0
  scanresultDownloader := false

def onePath : SentPaths ⟨0, false, by decide⟩ where
  paths := [⟨[0], [], 0x1000, 0⟩]
  sized := by
    intro element hmem
    rw [mem_singleton.mp hmem]
    exact ⟨rfl, by simp⟩
  length_lt := by decide

end Framing
end Pointerscan
end CheatEngine
