import CheatEngine.ByteStream
import Mathlib.Data.List.TakeWhile
import Mathlib.Data.UInt

/-!
# The result files of a memory scan

The scanner threads of a scan write what they find to files of their own.
When all of them are done, the scan controller makes the files of the first
thread the new result, appends those of the others, and keeps the previous
result under the extension `UNDO`.

A scan of unknown initial value saves no results: its memory image stays in
`previousMemoryBuffer`, and `ADDRESSES.TMP` holds the word `REGION` only.
-/

namespace CheatEngine
namespace ScanResults

open List ByteStream

/-- The files of the scan folder.  The last two are those of the first
scanner thread. -/
inductive FileName
  | addressesTmp
  | memoryTmp
  | addressesUndo
  | memoryUndo
  | scannerAddresses
  | scannerMemory
deriving DecidableEq, Repr

abbrev Folder := FileName → Option (List UInt8)

def deletefile (folder : Folder) (name : FileName) : Folder :=
  Function.update folder name none

/-- A file that does not exist cannot be renamed, and an existing file is not
replaced. -/
def renamefile (folder : Folder) (source target : FileName) : Folder :=
  match folder source, folder target with
  | some content, none =>
    Function.update (Function.update folder source none) target
      (some content)
  | _, _ => folder

def append (folder : Folder) (name : FileName) (block : List UInt8) :
    Folder :=
  Function.update folder name ((folder name).map (· ++ block))

inductive VariableType
  | vtByte
  | vtWord
  | vtDword
  | vtQword
  | vtSingle
  | vtDouble
  | vtString
  | vtByteArray
  | vtBinary
  | vtAll
  | vtCustom
  | vtGrouped
  | vtByteArrays
deriving DecidableEq, Repr

inductive FlushRoutine
  | genericFlush
  | stringFlush
  | binaryFlush
  | groupFlush
  | allFlush
deriving DecidableEq, Repr

def flushRoutine : VariableType → FlushRoutine
  | .vtString => .stringFlush
  | .vtByteArray => .stringFlush
  | .vtByteArrays => .stringFlush
  | .vtBinary => .binaryFlush
  | .vtAll => .allFlush
  | .vtGrouped => .groupFlush
  | _ => .genericFlush

/-- One found value: its address, the bit or type of a `TBitAddress`, the
offsets of a group, and the bytes of the value. -/
structure Found where
  address : UInt64
  bit : UInt64
  offsets : List UInt32
  value : List UInt8
deriving DecidableEq, Repr

def addressEntry : FlushRoutine → Found → List UInt8
  | .genericFlush, found => writeQWord found.address
  | .stringFlush, found => writeQWord found.address
  | .binaryFlush, found => writeQWord found.address ++ writeQWord found.bit
  | .allFlush, found => writeQWord found.address ++ writeQWord found.bit
  | .groupFlush, found =>
    writeQWord found.address ++ found.offsets.flatMap writeDWord

def memoryEntry : FlushRoutine → Found → List UInt8
  | .genericFlush, found => found.value
  | .allFlush, found => found.value
  | _, _ => []

structure Scanner where
  Addressfile : List UInt8
  MemoryFile : List UInt8
  totalfound : UInt32
  haserror : Bool
deriving DecidableEq, Repr

def Scanner.flush (kind : FlushRoutine) (scanner : Scanner)
    (batch : List Found) : Scanner :=
  { scanner with
    Addressfile := scanner.Addressfile ++ batch.flatMap (addressEntry kind)
    MemoryFile := scanner.MemoryFile ++ batch.flatMap (memoryEntry kind)
    totalfound := scanner.totalfound + UInt32.ofNat batch.length }

/-- What a thread does in a scan: the buffers it flushes, one after another,
and, when it stops with an error, the bytes that the last write still left
in its two files. -/
structure Work where
  batches : List (List Found)
  failure : Option (List UInt8 × List UInt8)
deriving DecidableEq, Repr

def NORMAL : List UInt8 := [6, 78, 79, 82, 77, 65, 76]

def REGION : List UInt8 := [6, 82, 69, 71, 73, 79, 78]

/-- `header` is what the thread's address file holds before the scan. -/
def Work.run (kind : FlushRoutine) (header : List UInt8) (work : Work) :
    Scanner :=
  let done := work.batches.foldl (Scanner.flush kind) ⟨header, [], 0, false⟩
  match work.failure with
  | none => done
  | some (address, memory) =>
    { done with
      Addressfile := done.Addressfile ++ address
      MemoryFile := done.MemoryFile ++ memory
      haserror := true }

/-- What a scan for values finds: the type, the length of a group, and the
work of every thread.  There is at least one thread. -/
structure Job where
  variableType : VariableType
  groupdatalength : UInt32
  firstWork : Work
  otherWorks : List Work
deriving DecidableEq, Repr

namespace Job

def works (job : Job) : List Work :=
  job.firstWork :: job.otherWorks

def kind (job : Job) : FlushRoutine :=
  flushRoutine job.variableType

def header (job : Job) : List UInt8 :=
  if job.variableType = .vtGrouped then
    NORMAL ++ writeDWord job.groupdatalength
  else
    NORMAL

def scanners (job : Job) : List Scanner :=
  job.firstWork.run job.kind job.header ::
    job.otherWorks.map (Work.run job.kind [])

end Job

/-! ## The scan controller -/

structure MemScan where
  folder : Folder
  found : UInt64
  previousMemoryBuffer : Option (List UInt8)

def waitForScanners : UInt64 → List Scanner → UInt64 × Bool
  | found, [] => (found, false)
  | found, scanner :: others =>
    if scanner.haserror then
      (found, true)
    else
      waitForScanners (found + scanner.totalfound.toUInt64) others

structure Controller where
  memScan : MemScan
  scanners : List Scanner
  haserror : Bool
  savescannerresults : Bool

def NextNextScan (memScan : MemScan) (job : Job) : Controller :=
  let (found, haserror) := waitForScanners 0 job.scanners
  { memScan := { memScan with found := found }
    scanners := job.scanners
    haserror := haserror
    savescannerresults := !haserror }

def FirstNextScan (memScan : MemScan) (job : Job) : Controller :=
  let (found, haserror) := waitForScanners 0 job.scanners
  { memScan :=
      { memScan with
        found := found
        previousMemoryBuffer :=
          if haserror then memScan.previousMemoryBuffer else none }
    scanners := job.scanners
    haserror := haserror
    savescannerresults := true }

def Controller.failed (memScan : MemScan) : Controller :=
  { memScan := memScan
    scanners := []
    haserror := true
    savescannerresults := false }

/-- Reading the type of the previous result fails when there is none. -/
def nextScan (memScan : MemScan) (job : Job) : Controller :=
  match memScan.folder .addressesTmp with
  | none => .failed memScan
  | some content =>
    if content.length < 7 then
      .failed memScan
    else if content.take 7 = REGION then
      FirstNextScan memScan job
    else
      NextNextScan memScan job

def firstScan (memScan : MemScan) (job : Job) : Controller :=
  let (found, haserror) := waitForScanners 0 job.scanners
  { memScan := { memScan with found := if haserror then 0 else found }
    scanners := job.scanners
    haserror := haserror
    savescannerresults := !haserror }

/-- What a scan of unknown initial value keeps: the image, the sizes of the
merged regions, and what fast scan divides the count by. -/
structure Snapshot where
  threadcount : ℕ
  image : List UInt8
  memorySizes : List UInt64
  divisor : UInt64
deriving DecidableEq, Repr

def Snapshot.scanners (snapshot : Snapshot) : List Scanner :=
  ⟨REGION, [], 0, false⟩ ::
    List.replicate (snapshot.threadcount - 1) ⟨[], [], 0, false⟩

def firstScanUnknown (memScan : MemScan) (snapshot : Snapshot) :
    Controller :=
  { memScan :=
      { memScan with
        found := snapshot.memorySizes.sum / snapshot.divisor
        previousMemoryBuffer := some snapshot.image }
    scanners := snapshot.scanners
    haserror := false
    savescannerresults := true }

def commit (folder : Folder) (scanners : List Scanner) : Folder :=
  match scanners with
  | [] => folder
  | first :: others =>
    let folder := Function.update folder .scannerAddresses
      (some first.Addressfile)
    let folder := Function.update folder .scannerMemory
      (some first.MemoryFile)
    let folder := deletefile folder .addressesUndo
    let folder := renamefile folder .addressesTmp .addressesUndo
    let folder := renamefile folder .scannerAddresses .addressesTmp
    let folder := deletefile folder .memoryUndo
    let folder := renamefile folder .memoryTmp .memoryUndo
    let folder := renamefile folder .scannerMemory .memoryTmp
    let folder := append folder .addressesTmp
      (others.flatMap Scanner.Addressfile)
    append folder .memoryTmp (others.flatMap Scanner.MemoryFile)

inductive Scan
  | first (job : Job)
  | firstUnknown (snapshot : Snapshot)
  | next (job : Job)
deriving DecidableEq, Repr

def Scan.controller (memScan : MemScan) : Scan → Controller
  | .first job => firstScan memScan job
  | .firstUnknown snapshot => firstScanUnknown memScan snapshot
  | .next job => nextScan memScan job

def execute (memScan : MemScan) (scan : Scan) : MemScan :=
  let controller := scan.controller memScan
  if controller.savescannerresults then
    { controller.memScan with
      folder := commit controller.memScan.folder controller.scanners }
  else
    controller.memScan

def canUndo (memScan : MemScan) : Bool :=
  match memScan.folder .memoryUndo with
  | none => false
  | some content => decide (content.length > 0)

def undoLastScan (memScan : MemScan) : MemScan :=
  if canUndo memScan then
    let folder := deletefile memScan.folder .memoryTmp
    let folder := deletefile folder .addressesTmp
    let folder := renamefile folder .memoryUndo .memoryTmp
    { memScan with
      folder := renamefile folder .addressesUndo .addressesTmp }
  else
    memScan

/-! ## What the threads leave behind -/

variable {memScan : MemScan} {scan : Scan} (kind : FlushRoutine)

theorem flush_nil (scanner : Scanner) : scanner.flush kind [] = scanner := by
  simp [Scanner.flush]

theorem flush_append (scanner : Scanner) (first second : List Found) :
    scanner.flush kind (first ++ second) =
      (scanner.flush kind first).flush kind second := by
  simp [Scanner.flush, UInt32.ofNat_add, UInt32.add_assoc]

theorem foldl_flush (batches : List (List Found)) (scanner : Scanner) :
    batches.foldl (Scanner.flush kind) scanner =
      scanner.flush kind batches.flatten := by
  induction batches generalizing scanner with
  | nil => exact (flush_nil kind scanner).symm
  | cons batch rest ih =>
    rw [foldl_cons, ih, flatten_cons, flush_append]

namespace Work

def found (work : Work) : List Found :=
  work.batches.flatten

def count (work : Work) : UInt64 :=
  (UInt32.ofNat work.found.length).toUInt64

variable (kind : FlushRoutine) (header : List UInt8)

theorem run_of_completed {work : Work} (hwork : work.failure = none) :
    work.run kind header =
      Scanner.flush kind ⟨header, [], 0, false⟩ work.found := by
  unfold Work.run
  rw [hwork, foldl_flush]
  rfl

variable (work : Work)

theorem run_haserror :
    (work.run kind header).haserror = work.failure.isSome := by
  unfold Work.run
  rw [foldl_flush]
  cases work.failure with
  | none => rfl
  | some failure => rfl

theorem run_totalfound :
    (work.run kind header).totalfound.toUInt64 = work.count := by
  unfold Work.run
  rw [foldl_flush]
  cases work.failure with
  | none => simp [Scanner.flush, count, found]
  | some failure => simp [Scanner.flush, count, found]

theorem header_prefix_run : header <+: (work.run kind header).Addressfile := by
  unfold Work.run
  rw [foldl_flush]
  cases work.failure with
  | none => exact prefix_append _ _
  | some failure =>
    simp only [Scanner.flush, append_assoc]
    exact prefix_append _ _

theorem run_MemoryFile {work : Work} (hwork : work.failure = none) :
    (work.run kind header).MemoryFile =
      work.found.flatMap (memoryEntry kind) := by
  rw [run_of_completed kind header hwork]
  rfl

end Work

def countBeforeFailure (works : List Work) : UInt64 :=
  ((works.takeWhile fun work => work.failure.isNone).map Work.count).sum

def Ran (scanner : Scanner) (work : Work) : Prop :=
  scanner.haserror = work.failure.isSome ∧
    scanner.totalfound.toUInt64 = work.count

theorem ran_run (header : List UInt8) (work : Work) :
    Ran (work.run kind header) work :=
  ⟨work.run_haserror kind header, work.run_totalfound kind header⟩

theorem waitForScanners_eq {scanners : List Scanner} {works : List Work}
    (hran : List.Forall₂ Ran scanners works) (found : UInt64) :
    waitForScanners found scanners =
      (found + countBeforeFailure works,
        works.any fun work => work.failure.isSome) := by
  induction hran generalizing found with
  | nil => simp [waitForScanners, countBeforeFailure]
  | @cons scanner work scanners works hhead htail ih =>
    obtain ⟨herror, hfound⟩ := hhead
    rw [waitForScanners, herror, hfound]
    cases hfailure : work.failure with
    | none =>
      simp [ih, countBeforeFailure, hfailure, UInt64.add_assoc]
    | some failure =>
      simp [countBeforeFailure, hfailure]

namespace Job

variable (job : Job)

def Completed : Prop :=
  ∀ work ∈ job.works, work.failure = none

def foundCount : UInt64 :=
  (job.works.map Work.count).sum

theorem scanners_ran : List.Forall₂ Ran job.scanners job.works := by
  refine List.Forall₂.cons (ran_run job.kind job.header job.firstWork) ?_
  rw [forall₂_map_left_iff]
  exact forall₂_same.mpr fun work _ => ran_run job.kind [] work

theorem waitForScanners_scanners :
    waitForScanners 0 job.scanners =
      (countBeforeFailure job.works,
        job.works.any fun work => work.failure.isSome) := by
  rw [waitForScanners_eq job.scanners_ran 0, UInt64.zero_add]

theorem any_failure_eq_false_iff :
    (job.works.any fun work => work.failure.isSome) = false ↔
      job.Completed := by
  simp [Completed]

theorem countBeforeFailure_of_completed {job : Job}
    (hcompleted : job.Completed) :
    countBeforeFailure job.works = job.foundCount := by
  have hall : (job.works.takeWhile fun work => work.failure.isNone) =
      job.works := by
    rw [takeWhile_eq_self_iff]
    intro work hwork
    rw [hcompleted work hwork]
    rfl
  unfold countBeforeFailure
  rw [hall]
  rfl

theorem memoryFiles_of_completed {job : Job} (hcompleted : job.Completed) :
    job.scanners.flatMap Scanner.MemoryFile =
      (job.works.flatMap Work.found).flatMap (memoryEntry job.kind) := by
  have hfirst := Work.run_MemoryFile job.kind job.header
    (hcompleted job.firstWork mem_cons_self)
  have hothers : ∀ work ∈ job.otherWorks,
      (work.run job.kind []).MemoryFile =
        work.found.flatMap (memoryEntry job.kind) := fun work hwork =>
    Work.run_MemoryFile job.kind []
      (hcompleted work (mem_cons_of_mem _ hwork))
  unfold scanners works
  rw [flatMap_cons, flatMap_cons, flatMap_append, hfirst,
    flatMap_map, flatMap_assoc]
  congr 1
  exact flatMap_congr hothers

end Job

section

variable (folder : Folder) (first : Scanner) (others : List Scanner)

theorem commit_addressesTmp :
    commit folder (first :: others) .addressesTmp =
      some ((first :: others).flatMap Scanner.Addressfile) := by
  unfold commit
  cases haddresses : folder .addressesTmp <;>
    cases hmemory : folder .memoryTmp <;>
    simp [renamefile, deletefile, append, haddresses, hmemory]

theorem commit_memoryTmp :
    commit folder (first :: others) .memoryTmp =
      some ((first :: others).flatMap Scanner.MemoryFile) := by
  unfold commit
  cases haddresses : folder .addressesTmp <;>
    cases hmemory : folder .memoryTmp <;>
    simp [renamefile, deletefile, append, haddresses, hmemory]

theorem commit_addressesUndo :
    commit folder (first :: others) .addressesUndo =
      folder .addressesTmp := by
  unfold commit
  cases haddresses : folder .addressesTmp <;>
    cases hmemory : folder .memoryTmp <;>
    simp [renamefile, deletefile, append, haddresses, hmemory]

theorem commit_memoryUndo :
    commit folder (first :: others) .memoryUndo = folder .memoryTmp := by
  unfold commit
  cases haddresses : folder .addressesTmp <;>
    cases hmemory : folder .memoryTmp <;>
    simp [renamefile, deletefile, append, haddresses, hmemory]

end

/-! ## A scan that completes -/

def Completes (memScan : MemScan) (scan : Scan) : Prop :=
  (scan.controller memScan).haserror = false

namespace Scan

def scanners : Scan → List Scanner
  | .first job => job.scanners
  | .firstUnknown snapshot => snapshot.scanners
  | .next job => job.scanners

def foundCount : Scan → UInt64
  | .first job => job.foundCount
  | .firstUnknown snapshot => snapshot.memorySizes.sum / snapshot.divisor
  | .next job => job.foundCount

theorem scanners_eq_cons (scan : Scan) :
    ∃ first others, scan.scanners = first :: others := by
  cases scan with
  | first job => exact ⟨_, _, rfl⟩
  | firstUnknown snapshot => exact ⟨_, _, rfl⟩
  | next job => exact ⟨_, _, rfl⟩

end Scan

/-- Every next scan goes through one of the two routines, or fails before it
starts a thread. -/
theorem nextScan_cases (memScan : MemScan) (job : Job) :
    nextScan memScan job = .failed memScan ∨
      nextScan memScan job = FirstNextScan memScan job ∨
      nextScan memScan job = NextNextScan memScan job := by
  unfold nextScan
  split
  · exact Or.inl rfl
  · split
    · exact Or.inl rfl
    · split
      · exact Or.inr (Or.inl rfl)
      · exact Or.inr (Or.inr rfl)

theorem NextNextScan_eq (memScan : MemScan) (job : Job) :
    NextNextScan memScan job =
      { memScan :=
          { memScan with found := countBeforeFailure job.works }
        scanners := job.scanners
        haserror := job.works.any fun work => work.failure.isSome
        savescannerresults :=
          !job.works.any fun work => work.failure.isSome } := by
  unfold NextNextScan
  rw [job.waitForScanners_scanners]

theorem FirstNextScan_eq (memScan : MemScan) (job : Job) :
    FirstNextScan memScan job =
      { memScan :=
          { memScan with
            found := countBeforeFailure job.works
            previousMemoryBuffer :=
              if job.works.any fun work => work.failure.isSome then
                memScan.previousMemoryBuffer
              else
                none }
        scanners := job.scanners
        haserror := job.works.any fun work => work.failure.isSome
        savescannerresults := true } := by
  unfold FirstNextScan
  rw [job.waitForScanners_scanners]

theorem Completes.job_completed {job : Job}
    (hnext : Completes memScan (.next job)) : job.Completed := by
  have herror : (nextScan memScan job).haserror = false := hnext
  rw [← job.any_failure_eq_false_iff]
  rcases nextScan_cases memScan job with hfailed | hcase | hcase
  · rw [hfailed] at herror
    cases herror
  · rw [hcase, FirstNextScan_eq] at herror
    exact herror
  · rw [hcase, NextNextScan_eq] at herror
    exact herror

theorem Completes.first_completed {job : Job}
    (hfirst : Completes memScan (.first job)) : job.Completed := by
  have herror : (firstScan memScan job).haserror = false := hfirst
  unfold firstScan at herror
  rw [job.waitForScanners_scanners] at herror
  exact job.any_failure_eq_false_iff.mp herror

theorem Completes.controller_eq (hcompletes : Completes memScan scan) :
    (scan.controller memScan).savescannerresults = true ∧
      (scan.controller memScan).scanners = scan.scanners ∧
      (scan.controller memScan).memScan.folder = memScan.folder ∧
      (scan.controller memScan).memScan.found = scan.foundCount := by
  cases scan with
  | first job =>
    have hcompleted := hcompletes.first_completed
    have hcount := Job.countBeforeFailure_of_completed hcompleted
    change (firstScan memScan job).savescannerresults = true ∧
      (firstScan memScan job).scanners = job.scanners ∧
      (firstScan memScan job).memScan.folder = memScan.folder ∧
      (firstScan memScan job).memScan.found = job.foundCount
    unfold firstScan
    rw [job.waitForScanners_scanners,
      job.any_failure_eq_false_iff.mpr hcompleted]
    exact ⟨rfl, rfl, rfl, hcount⟩
  | firstUnknown snapshot => exact ⟨rfl, rfl, rfl, rfl⟩
  | next job =>
    have hcompleted := hcompletes.job_completed
    have hnone := job.any_failure_eq_false_iff.mpr hcompleted
    have hcount := Job.countBeforeFailure_of_completed hcompleted
    change (nextScan memScan job).savescannerresults = true ∧
      (nextScan memScan job).scanners = job.scanners ∧
      (nextScan memScan job).memScan.folder = memScan.folder ∧
      (nextScan memScan job).memScan.found = job.foundCount
    rcases nextScan_cases memScan job with hfailed | hcase | hcase
    · have herror : (nextScan memScan job).haserror = false := hcompletes
      rw [hfailed] at herror
      cases herror
    · rw [hcase, FirstNextScan_eq]
      exact ⟨rfl, rfl, rfl, hcount⟩
    · rw [hcase, NextNextScan_eq, hnone]
      exact ⟨rfl, rfl, rfl, hcount⟩

theorem Completes.execute_eq (hcompletes : Completes memScan scan) :
    (execute memScan scan).folder = commit memScan.folder scan.scanners ∧
      (execute memScan scan).found = scan.foundCount := by
  obtain ⟨hsave, hscanners, hfolder, hfound⟩ := hcompletes.controller_eq
  unfold execute
  simp only [hsave, if_true]
  exact ⟨by rw [hfolder, hscanners], hfound⟩

theorem Completes.files (hcompletes : Completes memScan scan) :
    (execute memScan scan).folder .addressesTmp =
        some (scan.scanners.flatMap Scanner.Addressfile) ∧
      (execute memScan scan).folder .memoryTmp =
        some (scan.scanners.flatMap Scanner.MemoryFile) ∧
      (execute memScan scan).folder .addressesUndo =
        memScan.folder .addressesTmp ∧
      (execute memScan scan).folder .memoryUndo =
        memScan.folder .memoryTmp := by
  obtain ⟨first, others, hscanners⟩ := scan.scanners_eq_cons
  rw [hcompletes.execute_eq.1, hscanners]
  exact ⟨commit_addressesTmp _ _ _, commit_memoryTmp _ _ _,
    commit_addressesUndo _ _ _, commit_memoryUndo _ _ _⟩

theorem undoLastScan_found (memScan : MemScan) :
    (undoLastScan memScan).found = memScan.found := by
  unfold undoLastScan
  split
  · rfl
  · rfl

theorem undoLastScan_files (hundo : canUndo memScan = true)
    (haddresses : (memScan.folder .addressesUndo).isSome) :
    (undoLastScan memScan).folder .addressesTmp =
        memScan.folder .addressesUndo ∧
      (undoLastScan memScan).folder .memoryTmp =
        memScan.folder .memoryUndo := by
  obtain ⟨content, hcontent⟩ := Option.isSome_iff_exists.mp haddresses
  have hmemory : ∃ image, memScan.folder .memoryUndo = some image := by
    unfold canUndo at hundo
    cases himage : memScan.folder .memoryUndo with
    | none => simp [himage] at hundo
    | some image => exact ⟨image, rfl⟩
  obtain ⟨image, himage⟩ := hmemory
  unfold undoLastScan
  rw [if_pos hundo]
  constructor
  · simp [renamefile, deletefile, hcontent, himage]
  · simp [renamefile, deletefile, hcontent, himage]

/-- After the scan that led from one state to the other, undo is offered and
brings the earlier state back. -/
def Undoes (before after : MemScan) : Prop :=
  canUndo after = true ∧
    (undoLastScan after).folder .addressesTmp =
      before.folder .addressesTmp ∧
    (undoLastScan after).folder .memoryTmp = before.folder .memoryTmp ∧
    (undoLastScan after).found = before.found

/-- The scan writes the bytes of at least one value to its memory file. -/
def Scan.SavesValues : Scan → Prop
  | .first job => ∃ found ∈ job.works.flatMap Work.found,
      memoryEntry job.kind found ≠ []
  | .firstUnknown _ => False
  | .next job => ∃ found ∈ job.works.flatMap Work.found,
      memoryEntry job.kind found ≠ []

theorem Completes.memoryFiles_ne_nil_iff
    (hcompletes : Completes memScan scan) :
    scan.scanners.flatMap Scanner.MemoryFile ≠ [] ↔ scan.SavesValues := by
  cases scan with
  | first job =>
    unfold Scan.scanners Scan.SavesValues
    simp only
    rw [Job.memoryFiles_of_completed hcompletes.first_completed]
    simp only [ne_eq, flatMap_eq_nil_iff, not_forall, exists_prop]
  | firstUnknown snapshot =>
    simp [Scan.scanners, Scan.SavesValues, Snapshot.scanners]
  | next job =>
    unfold Scan.scanners Scan.SavesValues
    simp only
    rw [Job.memoryFiles_of_completed hcompletes.job_completed]
    simp only [ne_eq, flatMap_eq_nil_iff, not_forall, exists_prop]

/-- There is something in the memory file of the results. -/
def MemScan.HasValues (memScan : MemScan) : Prop :=
  ∃ image ∈ memScan.folder .memoryTmp, image ≠ []

theorem Completes.hasValues_iff (hcompletes : Completes memScan scan) :
    (execute memScan scan).HasValues ↔ scan.SavesValues := by
  rw [MemScan.HasValues, hcompletes.files.2.1,
    ← hcompletes.memoryFiles_ne_nil_iff]
  simp

theorem Completes.addressesTmp_isSome {job : Job}
    (hnext : Completes memScan (.next job)) :
    (memScan.folder .addressesTmp).isSome := by
  cases haddresses : memScan.folder .addressesTmp with
  | some content => rfl
  | none =>
    simp [Completes, Scan.controller, nextScan, haddresses,
      Controller.failed] at hnext

/-- Undo works exactly when there is something in the memory file and the scan
to undo finds as many values as were found before.  After a completed scan
these are the values that it has saved and counted. -/
theorem undoes_next_iff (memScan : MemScan) (job : Job)
    (hnext : Completes memScan (.next job)) :
    (Undoes memScan (execute memScan (.next job)) ↔
      memScan.HasValues ∧ job.foundCount = memScan.found) ∧
    ∀ before previous, Completes before previous →
      memScan = execute before previous →
        (memScan.HasValues ↔ previous.SavesValues) ∧
          memScan.found = previous.foundCount := by
  refine ⟨?_, fun before previous hprevious hstate => hstate ▸
    ⟨hprevious.hasValues_iff, hprevious.execute_eq.2⟩⟩
  obtain ⟨-, -, haddressesUndo, hmemoryUndo⟩ := hnext.files
  have hfound : (execute memScan (.next job)).found = job.foundCount :=
    hnext.execute_eq.2
  have hcan : canUndo (execute memScan (.next job)) = true ↔
      memScan.HasValues := by
    unfold canUndo MemScan.HasValues
    rw [hmemoryUndo]
    cases memScan.folder .memoryTmp <;> simp [length_pos_iff]
  unfold Undoes
  rw [hcan, undoLastScan_found, hfound]
  refine and_congr_right fun hvalues => ?_
  obtain ⟨hfirst, hsecond⟩ := undoLastScan_files (hcan.mpr hvalues)
    (haddressesUndo ▸ hnext.addressesTmp_isSome)
  rw [hfirst, hsecond, haddressesUndo, hmemoryUndo]
  simp only [true_and]

def MemScan.empty : MemScan :=
  ⟨fun _ => none, 0, none⟩

def Job.single (variableType : VariableType) (values : List Found) : Job :=
  ⟨variableType, 0, ⟨[values], none⟩, []⟩

def dwordAt (address : UInt64) : Found :=
  ⟨address, 0, [], [1, 0, 0, 0]⟩

def Job.secondFails : Job :=
  ⟨.vtDword, 0, ⟨[[dwordAt 16]], none⟩, [⟨[], some ([], [])⟩]⟩

/-- A first scan, and a next one that fails. -/
def failedNext : MemScan :=
  execute (execute .empty (.first (.single .vtDword [dwordAt 16])))
    (.next .secondFails)

theorem undoes_next_failedNext :
    Undoes failedNext
      (execute failedNext (.next (.single .vtDword [dwordAt 16]))) :=
  (undoes_next_iff failedNext (.single .vtDword [dwordAt 16]) rfl).1.mpr
    ⟨⟨[1, 0, 0, 0], by decide, by decide⟩, by decide⟩

/-- Two values, of which the next scan keeps one: the files come back, the
count does not. -/
theorem dword_count_not_restored :
    ¬Undoes
      (execute .empty (.first (.single .vtDword [dwordAt 16, dwordAt 32])))
      (execute
        (execute .empty (.first (.single .vtDword [dwordAt 16, dwordAt 32])))
        (.next (.single .vtDword [dwordAt 16]))) := by
  rintro ⟨-, -, -, hfound⟩
  revert hfound
  decide

def Preserved (before after : MemScan) : Prop :=
  after.folder .addressesTmp = before.folder .addressesTmp ∧
    after.folder .memoryTmp = before.folder .memoryTmp ∧
    after.found = before.found

section

variable {memScan : MemScan} {job : Job} {content : List UInt8}

theorem execute_next_of_region
    (hcontent : memScan.folder .addressesTmp = some content)
    (hregion : content.take 7 = REGION) :
    (execute memScan (.next job)).folder =
      commit memScan.folder job.scanners := by
  have hlength : ¬content.length < 7 := by
    intro hshort
    have htake := congrArg List.length hregion
    rw [length_take, min_eq_right hshort.le] at htake
    exact absurd htake hshort.ne
  have hnext : (Scan.next job).controller memScan =
      FirstNextScan memScan job := by
    simp only [Scan.controller, nextScan, hcontent, if_neg hlength,
      if_pos hregion]
  unfold execute
  rw [hnext, FirstNextScan_eq]
  rfl

theorem NORMAL_prefix_addressesTmp (job : Job) :
    NORMAL <+: job.scanners.flatMap Scanner.Addressfile := by
  have hheader : NORMAL <+: job.header := by
    unfold Job.header
    split
    · exact prefix_append _ _
    · exact prefix_rfl
  have hfile := job.firstWork.header_prefix_run job.kind job.header
  exact (hheader.trans hfile).trans (prefix_append _ _)

theorem not_preserved_of_region
    (hcontent : memScan.folder .addressesTmp = some content)
    (hregion : content.take 7 = REGION) :
    ¬Preserved memScan (execute memScan (.next job)) := by
  rintro ⟨haddresses, -, -⟩
  obtain ⟨first, others, hscanners⟩ := (Scan.next job).scanners_eq_cons
  have hscanners : job.scanners = first :: others := hscanners
  rw [execute_next_of_region hcontent hregion, hscanners,
    commit_addressesTmp, ← hscanners, hcontent] at haddresses
  have hequal := Option.some.inj haddresses
  obtain ⟨rest, hrest⟩ := NORMAL_prefix_addressesTmp job
  rw [← hequal, ← hrest, take_left' (by rfl)] at hregion
  exact absurd hregion (by decide)

theorem execute_next_of_results
    (hcontent : memScan.folder .addressesTmp = some content)
    (hlength : 7 ≤ content.length) (hregion : content.take 7 ≠ REGION)
    (hfailing : ∃ work ∈ job.works, work.failure.isSome) :
    execute memScan (.next job) =
      { memScan with found := countBeforeFailure job.works } := by
  have hany : (job.works.any fun work => work.failure.isSome) = true :=
    any_eq_true.mpr hfailing
  have hnext : (Scan.next job).controller memScan =
      NextNextScan memScan job := by
    simp only [Scan.controller, nextScan, hcontent, if_neg hlength.not_gt,
      if_neg hregion]
  unfold execute
  rw [hnext, NextNextScan_eq, hany]
  rfl

end

/-- A failing next scan keeps the previous results exactly when they are
addresses, not regions, and the threads before the failing one happen to have
found as many values as the previous scan. -/
theorem preserved_failing_next_iff (memScan : MemScan) (job : Job)
    (content : List UInt8)
    (hcontent : memScan.folder .addressesTmp = some content)
    (hlength : 7 ≤ content.length)
    (hfailing : ∃ work ∈ job.works, work.failure.isSome) :
    Preserved memScan (execute memScan (.next job)) ↔
      content.take 7 ≠ REGION ∧
        countBeforeFailure job.works = memScan.found := by
  constructor
  · intro hpreserved
    have hregion : content.take 7 ≠ REGION := fun hregion =>
      not_preserved_of_region hcontent hregion hpreserved
    have hfound := hpreserved.2.2
    rw [execute_next_of_results hcontent hlength hregion hfailing] at hfound
    exact ⟨hregion, hfound⟩
  · rintro ⟨hregion, hfound⟩
    rw [execute_next_of_results hcontent hlength hregion hfailing]
    exact ⟨rfl, rfl, hfound⟩

theorem preserved_after_one_dword :
    Preserved (execute .empty (.first (.single .vtDword [dwordAt 16])))
      (execute (execute .empty (.first (.single .vtDword [dwordAt 16])))
        (.next .secondFails)) :=
  (preserved_failing_next_iff
    (execute .empty (.first (.single .vtDword [dwordAt 16]))) .secondFails
    (NORMAL ++ [16, 0, 0, 0, 0, 0, 0, 0]) (by decide) (by decide)
    (by decide)).mpr ⟨by decide, by decide⟩

theorem regions_not_preserved :
    ¬Preserved
      (execute .empty (.firstUnknown ⟨2, [1, 0, 0, 0], [4], 1⟩))
      (execute (execute .empty (.firstUnknown ⟨2, [1, 0, 0, 0], [4], 1⟩))
        (.next .secondFails)) := by
  rintro ⟨haddresses, -, -⟩
  revert haddresses
  decide

end ScanResults
end CheatEngine
