import Mathlib.Tactic

/-!
# Breakpoints of the threads of a debugged process

On x86 a breakpoint is set in the debug registers of every thread by itself.
ceserver does so from its debugger thread.  A thread that is not paused is
stopped with a signal first, and goes on afterwards.
-/

namespace CheatEngine.ThreadBreakpoints

open List

/-! ## The source -/

structure ThreadData where
  tid : ℕ
  isPaused : Bool
deriving DecidableEq, Repr

structure DebugEvent where
  debugevent : ℤ
  threadid : ℕ
deriving DecidableEq, Repr

structure Process where
  threadlist : List ThreadData
  debuggedThreadEvent : DebugEvent
  debugreg : ℕ → ℕ → BitVec 64

def sigstop : ℤ := 19

/-- What a call for one thread meets: what the variable `de` holds before it
is written, the events that each wait sees, and what `ptrace` answers for a
thread and a register. -/
structure Surroundings where
  uninitialised : DebugEvent
  events : ℕ → List DebugEvent
  stopped : ℕ → Bool
  accepts : ℕ → ℕ → Bool

def findPausedThread (threadlist : List ThreadData) : ℕ :=
  (threadlist.find? ThreadData.isPaused).elim 0 ThreadData.tid

def getThreadData (threadlist : List ThreadData) (tid : ℕ) :
    Option ThreadData :=
  threadlist.find? fun td => td.tid = tid

def setPaused (tid : ℕ) (isPaused : Bool) :
    List ThreadData → List ThreadData
  | [] => []
  | td :: rest =>
    if td.tid = tid then { td with isPaused } :: rest
    else td :: setPaused tid isPaused rest

structure Waited where
  found : Bool
  threadlist : List ThreadData
  de : DebugEvent

/-- Takes events until there is one of the thread; the others are queued. -/
def waitForDebugEventNative (tid : ℕ) : List DebugEvent → Waited → Waited
  | [], waited => { waited with found := false }
  | event :: rest, waited =>
    let threadlist := setPaused event.threadid true waited.threadlist
    if event.threadid = tid then ⟨true, threadlist, event⟩
    else waitForDebugEventNative tid rest ⟨false, threadlist, event⟩

def waitLoop (tid : ℕ) (events : ℕ → List DebugEvent) :
    ℕ → Waited → Waited
  | 0, waited => waited
  | tries + 1, waited =>
    if (getThreadData waited.threadlist tid).any ThreadData.isPaused then
      waited
    else
      let waited :=
        waitForDebugEventNative tid (events (10 - (tries + 1))) waited
      if waited.found then waited else waitLoop tid events tries waited

section

variable (surroundings : Surroundings) (wtid : ℕ)

def peekUser (p : Process) (register : ℕ) : BitVec 64 :=
  if surroundings.stopped wtid then p.debugreg wtid register
  else BitVec.allOnes 64

def pokeUser (p : Process) (register : ℕ) (value : BitVec 64) :
    Process × Bool :=
  if surroundings.stopped wtid && surroundings.accepts wtid register then
    ({ p with
        debugreg := Function.update p.debugreg wtid
          (Function.update (p.debugreg wtid) register value) }, true)
  else (p, false)

variable (debugreg : Fin 4)

def x86Type (bptype : ℤ) : ℤ :=
  if bptype = 2 then 3 else bptype

def bplen (bpsize : ℤ) : BitVec 32 :=
  if bpsize ≤ 1 then 0 else if bpsize ≤ 2 then 1 else 3

def controlMask (debugreg : Fin 4) (bptype bplen : BitVec 32) : BitVec 64 :=
  ((1#32) <<< (debugreg.val * 2)).signExtend 64 |||
    (bptype <<< (16 + debugreg.val * 4)).signExtend 64 |||
    (bplen <<< (18 + debugreg.val * 4)).signExtend 64

def setDr7 (bptype bpsize : ℤ) (dr7 : BitVec 64) : BitVec 64 :=
  dr7 ||| controlMask debugreg (BitVec.ofInt 32 (x86Type bptype))
    (bplen bpsize)

def clearMask (debugreg : Fin 4) : BitVec 64 :=
  (~~~((3#32) <<< (debugreg.val * 2))).signExtend 64 &&&
    (~~~((15#32) <<< (16 + debugreg.val * 4))).signExtend 64

def clearDr7 (dr7 : BitVec 64) : BitVec 64 :=
  dr7 &&& clearMask debugreg

def pokeBreakpoint (address : BitVec 64) (bptype bpsize : ℤ) (p : Process) :
    Process × Bool :=
  let newdr7 := setDr7 debugreg bptype bpsize (peekUser surroundings wtid p 7)
  let (p, r) := pokeUser surroundings wtid p debugreg address
  let (p, r2) := pokeUser surroundings wtid p 7 newdr7
  (p, r && r2)

def pokeNoBreakpoint (p : Process) : Process × Bool :=
  let dr7 := clearDr7 debugreg (peekUser surroundings wtid p 7)
  let (p, _) := pokeUser surroundings wtid p debugreg 0
  pokeUser surroundings wtid p 7 dr7

end

section

variable (surroundings : Surroundings) (debugreg : Fin 4) (tid : ℕ)

def continueThread (de : DebugEvent) (p : Process) : Process :=
  { p with
    threadlist :=
      setPaused tid (decide (de.debugevent ≠ sigstop)) p.threadlist }

def waitFor (p : Process) : Waited :=
  waitLoop tid surroundings.events 10
    ⟨false, p.threadlist, surroundings.uninitialised⟩

def setBreakpointThread (address : BitVec 64) (bptype bpsize : ℤ)
    (p : Process) : Process × Bool :=
  let isdebugged := findPausedThread p.threadlist
  match getThreadData p.threadlist tid with
  | none => (p, false)
  | some td =>
    if td.isPaused then
      pokeBreakpoint surroundings isdebugged debugreg address bptype bpsize
        p
    else
      let waited := waitFor surroundings tid p
      let wtid := if waited.found then waited.de.threadid else tid
      let (p, result) :=
        pokeBreakpoint surroundings wtid debugreg address bptype bpsize
          { p with threadlist := waited.threadlist }
      (continueThread tid waited.de p, result)

/-- No result: `td` is not checked for `NULL`. -/
def removeBreakpointThread (p : Process) : Option (Process × Bool) :=
  let isdebugged := p.debuggedThreadEvent.threadid
  match getThreadData p.threadlist tid with
  | none => none
  | some td =>
    if td.isPaused then
      some (pokeNoBreakpoint surroundings isdebugged debugreg p)
    else
      let waited := waitFor surroundings tid p
      let (p, result) :=
        pokeNoBreakpoint surroundings waited.de.threadid debugreg
          { p with threadlist := waited.threadlist }
      some (continueThread tid waited.de p, result)

end

inductive Command
  | set (address : BitVec 64) (bptype bpsize : ℤ)
  | remove
deriving DecidableEq

def Command.execute (command : Command) (surroundings : Surroundings)
    (debugreg : Fin 4) (tid : ℕ) (p : Process) : Option (Process × Bool) :=
  match command with
  | .set address bptype bpsize =>
    some (setBreakpointThread surroundings debugreg tid address bptype
      bpsize p)
  | .remove => removeBreakpointThread surroundings debugreg tid p

def forThreads (command : Command) (debugreg : Fin 4)
    (surroundings : ℕ → Surroundings) :
    ℕ → List ℕ → Process → Option (Process × Bool)
  | _, [], p => some (p, false)
  | i, tid :: rest, p =>
    (command.execute (surroundings i) debugreg tid p).bind fun first =>
      (forThreads command debugreg surroundings (i + 1) rest first.1).map
        fun later => (later.1, first.2 || later.2)

/-- `SetBreakpoint` or `RemoveBreakpoint`; without a thread, that is with -1
as its id, for all of them. -/
structure Call where
  target : Option ℕ
  debugreg : Fin 4
  command : Command
  surroundings : ℕ → Surroundings

def tids (p : Process) : List ℕ :=
  p.threadlist.map ThreadData.tid

def Call.execute (call : Call) (p : Process) : Option (Process × Bool) :=
  match call.target with
  | some tid => call.command.execute (call.surroundings 0) call.debugreg tid p
  | none =>
    forThreads call.command call.debugreg call.surroundings 0 (tids p) p

structure Control where
  enable : BitVec 2
  type : BitVec 2
  len : BitVec 2
deriving DecidableEq

def control (dr7 : BitVec 64) (slot : Fin 4) : Control where
  enable := dr7.extractLsb' (slot.val * 2) 2
  type := dr7.extractLsb' (16 + slot.val * 4) 2
  len := dr7.extractLsb' (18 + slot.val * 4) 2

structure Slot where
  control : Control
  address : BitVec 64
deriving DecidableEq

def Process.slot (p : Process) (tid : ℕ) (slot : Fin 4) : Slot where
  control := control (p.debugreg tid 7) slot
  address := p.debugreg tid slot

def Command.control : Command → Control
  | .set _ bptype bpsize =>
    ⟨1, BitVec.ofInt 2 (x86Type bptype), (bplen bpsize).setWidth 2⟩
  | .remove => ⟨0, 0, 0⟩

def Command.slot (command : Command) : Slot where
  control := command.control
  address :=
    match command with
    | .set address _ _ => address
    | .remove => 0

def Call.Names (call : Call) (p : Process) (tid : ℕ) : Prop :=
  match call.target with
  | some target => tid = target
  | none => tid ∈ tids p

instance (call : Call) (p : Process) (tid : ℕ) :
    Decidable (call.Names p tid) := by
  unfold Call.Names
  cases call.target <;> infer_instance

/-- A call changes the slot of the threads it names, and nothing else. -/
structure ReachesThread (call : Call) (before : Process)
    (after : Process × Bool) : Prop where
  others : ∀ tid, ¬ call.Names before tid →
    after.1.debugreg tid = before.debugreg tid
  otherSlots : ∀ tid slot, slot ≠ call.debugreg →
    after.1.slot tid slot = before.slot tid slot
  written : after.2 = true → ∀ tid, call.Names before tid →
    after.1.slot tid call.debugreg = call.command.slot

structure Step where
  before : Process
  call : Call
  after : Process × Bool

def run : List Call → Process → Option (List Step)
  | [], _ => some []
  | call :: rest, p =>
    (call.execute p).bind fun after =>
      (run rest after.1).map fun steps => ⟨p, call, after⟩ :: steps

def finalState (start : Process) (steps : List Step) : Process :=
  (steps.getLast?).elim start fun step => step.after.1

/-- What the last call for the slot asked for; nothing is known after a call
that failed. -/
def lastCall (tid : ℕ) (slot : Fin 4) : List Step → Option Slot → Option Slot
  | [], known => known
  | step :: rest, known =>
    lastCall tid slot rest
      (if step.call.debugreg = slot ∧ step.call.Names step.before tid then
        if step.after.2 then some step.call.command.slot else none
      else known)

/-- The calls reach the threads they name, and the slots hold what the last
calls for them asked for. -/
def Follows (calls : List Call) (start : Process) : Prop :=
  ∃ steps, run calls start = some steps ∧
    (∀ step ∈ steps, ReachesThread step.call step.before step.after) ∧
    ∀ tid slot asked,
      lastCall tid slot steps (some (start.slot tid slot)) = some asked →
        (finalState start steps).slot tid slot = asked

structure Control.Within (old new : Control) : Prop where
  enable : old.enable ||| new.enable = new.enable
  type : old.type ||| new.type = new.type
  len : old.len ||| new.len = new.len

def Stops (surroundings : Surroundings) (tid : ℕ) : Prop :=
  ∃ k < 10, ∃ event ∈ surroundings.events k, event.threadid = tid

/-- A thread that is paused is the one that the code takes, the fields can be
added to what the slot holds, and a removal finds its thread. -/
def AllowedThread (command : Command) (debugreg : Fin 4)
    (surroundings : Surroundings) (tid : ℕ) (p : Process) : Prop :=
  match command with
  | .set _ bptype _ =>
    ∀ td, getThreadData p.threadlist tid = some td →
      (td.isPaused = true → findPausedThread p.threadlist = tid) ∧
      (0 ≤ bptype ∧ bptype ≤ 3) ∧
      (p.slot tid debugreg).control.Within command.control
  | .remove =>
    ∃ td, getThreadData p.threadlist tid = some td ∧
      (td.isPaused = true → p.debuggedThreadEvent.threadid = tid) ∧
      (td.isPaused = false → Stops surroundings tid) ∧
      (surroundings.accepts tid 7 = true →
        surroundings.accepts tid debugreg = true)

def Writable (surroundings : Surroundings) (debugreg : Fin 4) (tid : ℕ) :
    Prop :=
  surroundings.stopped tid = true ∧
    surroundings.accepts tid debugreg = true ∧
    surroundings.accepts tid 7 = true

def AllowedThreads (command : Command) (debugreg : Fin 4)
    (surroundings : ℕ → Surroundings) : ℕ → List ℕ → Process → Prop
  | _, [], _ => True
  | i, tid :: rest, p =>
    AllowedThread command debugreg (surroundings i) tid p ∧
    Writable (surroundings i) debugreg tid ∧
    ∀ after, command.execute (surroundings i) debugreg tid p = some after →
      AllowedThreads command debugreg surroundings (i + 1) rest after.1

def Call.Allowed (call : Call) (p : Process) : Prop :=
  match call.target with
  | some tid =>
    AllowedThread call.command call.debugreg (call.surroundings 0) tid p
  | none =>
    AllowedThreads call.command call.debugreg call.surroundings 0 (tids p)
      p

def AllowedRun : List Call → Process → Prop
  | [], _ => True
  | call :: rest, p =>
    call.Allowed p ∧
      ∀ after, call.execute p = some after → AllowedRun rest after.1

def Control.or (left right : Control) : Control :=
  ⟨left.enable ||| right.enable, left.type ||| right.type,
    left.len ||| right.len⟩

def Control.and (left right : Control) : Control :=
  ⟨left.enable &&& right.enable, left.type &&& right.type,
    left.len &&& right.len⟩

theorem control_or (left right : BitVec 64) (slot : Fin 4) :
    control (left ||| right) slot =
      (control left slot).or (control right slot) := by
  simp only [control, Control.or, BitVec.extractLsb'_or]

theorem control_and (left right : BitVec 64) (slot : Fin 4) :
    control (left &&& right) slot =
      (control left slot).and (control right slot) := by
  simp only [control, Control.and, BitVec.extractLsb'_and]

variable {bptype : ℤ} {surroundings : Surroundings} {tid : ℕ} {p : Process}
  (fields : Control)

theorem Control.or_zero : fields.or ⟨0, 0, 0⟩ = fields := by
  simp [Control.or]

theorem Control.and_zero : fields.and ⟨0, 0, 0⟩ = ⟨0, 0, 0⟩ := by
  simp [Control.and]

theorem Control.and_ones : fields.and ⟨3, 3, 3⟩ = fields := by
  have hones : ∀ field : BitVec 2, field &&& 3 = field := by decide
  simp only [Control.and, hones]

theorem Control.Within.or_eq {old new : Control} (hwithin : old.Within new) :
    old.or new = new := by
  cases new
  simp only [Control.or, hwithin.enable, hwithin.type, hwithin.len]

theorem control_controlMask (debugreg slot type len : Fin 4) :
    control (controlMask debugreg (BitVec.ofNat 32 type)
      (BitVec.ofNat 32 len)) slot =
      if slot = debugreg then ⟨1, BitVec.ofNat 2 type, BitVec.ofNat 2 len⟩
      else ⟨0, 0, 0⟩ := by
  revert debugreg slot type len
  decide

theorem control_clearMask (debugreg slot : Fin 4) :
    control (clearMask debugreg) slot =
      if slot = debugreg then ⟨0, 0, 0⟩ else ⟨3, 3, 3⟩ := by
  revert debugreg slot
  decide

theorem exists_x86Type (hrange : 0 ≤ bptype ∧ bptype ≤ 3) :
    ∃ type : Fin 4, x86Type bptype = (type.val : ℤ) := by
  refine ⟨⟨(x86Type bptype).toNat, ?_⟩, ?_⟩
  · unfold x86Type
    split <;> omega
  · unfold x86Type
    simp only
    split <;> omega

theorem exists_bplen (bpsize : ℤ) :
    ∃ len : Fin 4, bplen bpsize = BitVec.ofNat 32 len.val := by
  unfold bplen
  split
  case isTrue => exact ⟨0, rfl⟩
  case isFalse =>
    split
    case isTrue => exact ⟨1, rfl⟩
    case isFalse => exact ⟨3, rfl⟩

theorem setWidth_ofNat (len : Fin 4) :
    (BitVec.ofNat 32 len.val).setWidth 2 = BitVec.ofNat 2 len.val := by
  revert len
  decide

theorem control_setDr7 (hrange : 0 ≤ bptype ∧ bptype ≤ 3)
    (address : BitVec 64) (bpsize : ℤ) (dr7 : BitVec 64)
    (debugreg slot : Fin 4) :
    control (setDr7 debugreg bptype bpsize dr7) slot =
      if slot = debugreg then
        (control dr7 slot).or (Command.set address bptype bpsize).control
      else control dr7 slot := by
  obtain ⟨type, htype⟩ := exists_x86Type hrange
  obtain ⟨len, hlen⟩ := exists_bplen bpsize
  rw [setDr7, control_or, Command.control, htype, hlen, BitVec.ofInt_natCast,
    BitVec.ofInt_natCast, control_controlMask, setWidth_ofNat]
  split
  case isTrue => rfl
  case isFalse => exact Control.or_zero _

/-- A slot that is set again keeps the bits of its old type and length. -/
example : control (setDr7 0 0 1 (setDr7 0 3 4 0)) 0 = ⟨1, 3, 3⟩ := by
  decide

theorem control_clearDr7 (dr7 : BitVec 64) (debugreg slot : Fin 4) :
    control (clearDr7 debugreg dr7) slot =
      if slot = debugreg then ⟨0, 0, 0⟩ else control dr7 slot := by
  rw [clearDr7, control_and, control_clearMask]
  split
  case isTrue => exact Control.and_zero _
  case isFalse => exact Control.and_ones _

/-! ## Writing the registers of a thread -/

section

variable (surroundings : Surroundings) (wtid : ℕ) (p : Process)

variable (register : ℕ) (value : BitVec 64)

theorem pokeUser_threadlist :
    (pokeUser surroundings wtid p register value).1.threadlist =
      p.threadlist := by
  unfold pokeUser
  split <;> rfl

theorem pokeUser_snd :
    (pokeUser surroundings wtid p register value).2 =
      (surroundings.stopped wtid &&
        surroundings.accepts wtid register) := by
  unfold pokeUser
  split
  case isTrue haccepts => exact haccepts.symm
  case isFalse hrefuses => exact (Bool.not_eq_true _ ▸ hrefuses).symm

theorem pokeUser_other {tid : ℕ} (hne : tid ≠ wtid) (register : ℕ)
    (value : BitVec 64) :
    (pokeUser surroundings wtid p register value).1.debugreg tid =
      p.debugreg tid := by
  unfold pokeUser
  split
  case isTrue => exact Function.update_of_ne hne _ _
  case isFalse => rfl

theorem pokeUser_self :
    (pokeUser surroundings wtid p register value).1.debugreg wtid =
      if surroundings.stopped wtid && surroundings.accepts wtid register then
        Function.update (p.debugreg wtid) register value
      else p.debugreg wtid := by
  unfold pokeUser
  split
  case isTrue => exact Function.update_self _ _ _
  case isFalse => rfl

def pokeBoth (debugreg : Fin 4) (address : BitVec 64)
    (dr7 : BitVec 64 → BitVec 64) : Process :=
  (pokeUser surroundings wtid
    (pokeUser surroundings wtid p debugreg address).1 7
    (dr7 (peekUser surroundings wtid p 7))).1

theorem pokeBoth_threadlist (debugreg : Fin 4) (address : BitVec 64)
    (dr7 : BitVec 64 → BitVec 64) :
    (pokeBoth surroundings wtid p debugreg address dr7).threadlist =
      p.threadlist := by
  rw [pokeBoth, pokeUser_threadlist, pokeUser_threadlist]

theorem pokeBoth_other {tid : ℕ} (hne : tid ≠ wtid) (debugreg : Fin 4)
    (address : BitVec 64) (dr7 : BitVec 64 → BitVec 64) :
    (pokeBoth surroundings wtid p debugreg address dr7).debugreg tid =
      p.debugreg tid := by
  rw [pokeBoth, pokeUser_other _ _ _ hne, pokeUser_other _ _ _ hne]

theorem register_ne_seven (slot : Fin 4) : slot.val ≠ 7 := by
  omega

theorem slot_pokeBoth (debugreg slot : Fin 4) (address : BitVec 64)
    (dr7 : BitVec 64 → BitVec 64) :
    (pokeBoth surroundings wtid p debugreg address dr7).slot wtid slot =
      ⟨if surroundings.stopped wtid && surroundings.accepts wtid 7 then
          control (dr7 (p.debugreg wtid 7)) slot
        else control (p.debugreg wtid 7) slot,
        if (surroundings.stopped wtid &&
            surroundings.accepts wtid debugreg) ∧ slot = debugreg then address
        else p.debugreg wtid slot⟩ := by
  have hslot := register_ne_seven slot
  have hdebugreg := register_ne_seven debugreg
  rw [pokeBoth, Process.slot, pokeUser_self, pokeUser_self]
  cases hstopped : surroundings.stopped wtid with
  | false => simp
  | true =>
    simp only [peekUser, hstopped, if_true, Bool.true_and]
    cases surroundings.accepts wtid 7 <;>
      cases surroundings.accepts wtid debugreg <;>
      simp [Function.update_apply, hslot, hdebugreg.symm, Fin.ext_iff]

end

structure ReachesOne (command : Command) (debugreg : Fin 4)
    (surroundings : Surroundings) (tid : ℕ) (before : Process)
    (after : Process × Bool) : Prop where
  others : ∀ other ≠ tid,
    after.1.debugreg other = before.debugreg other
  otherSlots : ∀ slot ≠ debugreg,
    after.1.slot tid slot = before.slot tid slot
  written : after.2 = true →
    after.1.slot tid debugreg = command.slot
  sameTids : tids after.1 = tids before
  succeeds : tid ∈ tids before →
    Writable surroundings debugreg tid → after.2 = true

theorem pokeBreakpoint_reaches {debugreg : Fin 4} {address : BitVec 64}
    (hrange : 0 ≤ bptype ∧ bptype ≤ 3) {bpsize : ℤ}
    (hwithin : (p.slot tid debugreg).control.Within
      (Command.set address bptype bpsize).control) :
    ReachesOne (.set address bptype bpsize) debugreg surroundings tid p
      (pokeBreakpoint surroundings tid debugreg address bptype bpsize p) := by
  have hfst : (pokeBreakpoint surroundings tid debugreg address bptype bpsize
      p).1 = pokeBoth surroundings tid p debugreg address
        (setDr7 debugreg bptype bpsize) := rfl
  have hsnd : (pokeBreakpoint surroundings tid debugreg address bptype bpsize
      p).2 = ((surroundings.stopped tid &&
          surroundings.accepts tid debugreg) &&
        (surroundings.stopped tid && surroundings.accepts tid 7)) := by
    rw [pokeBreakpoint]
    simp only [pokeUser_snd]
  constructor
  · intro other hne
    rw [hfst, pokeBoth_other _ _ _ hne]
  · intro slot hne
    rw [hfst, slot_pokeBoth, control_setDr7 hrange address, if_neg hne,
      ite_self, if_neg (fun hboth => hne hboth.2)]
    rfl
  · intro htrue
    rw [hsnd, Bool.and_eq_true] at htrue
    rw [hfst, slot_pokeBoth, control_setDr7 hrange address, if_pos htrue.2,
      if_pos rfl, if_pos ⟨htrue.1, rfl⟩]
    exact congrArg (Slot.mk · address) hwithin.or_eq
  · rw [hfst, tids, pokeBoth_threadlist]
    rfl
  · rintro _ ⟨hstopped, haddress, hdr7⟩
    rw [hsnd, hstopped, haddress, hdr7]
    rfl

theorem pokeNoBreakpoint_reaches {debugreg : Fin 4}
    (haccepts : surroundings.accepts tid 7 = true →
      surroundings.accepts tid debugreg = true) :
    ReachesOne .remove debugreg surroundings tid p
      (pokeNoBreakpoint surroundings tid debugreg p) := by
  have hfst : (pokeNoBreakpoint surroundings tid debugreg p).1 =
      pokeBoth surroundings tid p debugreg 0 (clearDr7 debugreg) := rfl
  have hsnd : (pokeNoBreakpoint surroundings tid debugreg p).2 =
      (surroundings.stopped tid && surroundings.accepts tid 7) :=
    pokeUser_snd _ _ _ _ _
  constructor
  · intro other hne
    rw [hfst, pokeBoth_other _ _ _ hne]
  · intro slot hne
    rw [hfst, slot_pokeBoth, control_clearDr7, if_neg hne, ite_self,
      if_neg (fun hboth => hne hboth.2)]
    rfl
  · intro htrue
    rw [hsnd] at htrue
    have hboth := Bool.and_eq_true_iff.mp htrue
    rw [hfst, slot_pokeBoth, control_clearDr7, if_pos htrue, if_pos rfl,
      if_pos ⟨by rw [hboth.1, haccepts hboth.2]; rfl, rfl⟩]
    rfl
  · rw [hfst, tids, pokeBoth_threadlist]
    rfl
  · rintro _ ⟨hstopped, _, hdr7⟩
    rw [hsnd, hstopped, hdr7]
    rfl

/-! ## Stopping a thread -/

theorem map_tid_setPaused (tid : ℕ) (isPaused : Bool)
    (threadlist : List ThreadData) :
    (setPaused tid isPaused threadlist).map ThreadData.tid =
      threadlist.map ThreadData.tid := by
  induction threadlist with
  | nil => rfl
  | cons td rest ih =>
    rw [setPaused]
    split
    · rfl
    · rw [map_cons, map_cons, ih]

theorem getThreadData_setPaused_of_ne {other : ℕ} (hne : other ≠ tid)
    (isPaused : Bool) (threadlist : List ThreadData) :
    getThreadData (setPaused other isPaused threadlist) tid =
      getThreadData threadlist tid := by
  unfold getThreadData
  induction threadlist with
  | nil => rfl
  | cons td rest ih =>
    rw [setPaused]
    split
    case isTrue hsame =>
      have hnot : td.tid ≠ tid := hsame ▸ hne
      rw [find?_cons_of_neg (by simpa using hnot),
        find?_cons_of_neg (by simpa using hnot)]
    case isFalse =>
      rw [find?_cons, find?_cons, ih]

/-- What a wait leaves: the threads are the same, and an event that was found
is of the thread. -/
structure WaitKeeps (tid : ℕ) (before after : Waited) : Prop where
  sameTids : after.threadlist.map ThreadData.tid =
    before.threadlist.map ThreadData.tid
  found : after.found = true → after.de.threadid = tid

theorem waitForDebugEventNative_keeps (tid : ℕ) (events : List DebugEvent) :
    ∀ waited, WaitKeeps tid waited
      (waitForDebugEventNative tid events waited) := by
  induction events with
  | nil =>
    intro waited
    exact ⟨rfl, fun hfound => by cases hfound⟩
  | cons event rest ih =>
    intro waited
    rw [waitForDebugEventNative]
    split
    case isTrue hsame =>
      exact ⟨map_tid_setPaused _ _ _, fun _ => hsame⟩
    case isFalse =>
      have hrest := ih ⟨false,
        setPaused event.threadid true waited.threadlist, event⟩
      exact ⟨hrest.sameTids.trans (map_tid_setPaused _ _ _), hrest.found⟩

theorem waitLoop_keeps (tid : ℕ) (events : ℕ → List DebugEvent)
    (tries : ℕ) : ∀ waited,
    (waited.found = true → waited.de.threadid = tid) →
      WaitKeeps tid waited (waitLoop tid events tries waited) := by
  induction tries with
  | zero => exact fun waited hfound => ⟨rfl, hfound⟩
  | succ tries ih =>
    intro waited hfound
    rw [waitLoop]
    have hwait := waitForDebugEventNative_keeps tid
      (events (10 - (tries + 1))) waited
    split
    case isTrue => exact ⟨rfl, hfound⟩
    case isFalse =>
      simp only
      split
      case isTrue => exact hwait
      case isFalse =>
        have hrest := ih _ hwait.found
        exact ⟨hrest.sameTids.trans hwait.sameTids, hrest.found⟩

theorem waitFor_keeps (surroundings : Surroundings) (tid : ℕ) (p : Process) :
    WaitKeeps tid ⟨false, p.threadlist, surroundings.uninitialised⟩
      (waitFor surroundings tid p) :=
  waitLoop_keeps tid surroundings.events 10 _ fun hfound => by cases hfound

theorem waitForDebugEventNative_missed (events : List DebugEvent) :
    ∀ waited, (waitForDebugEventNative tid events waited).found = false →
      getThreadData (waitForDebugEventNative tid events waited).threadlist
          tid =
        getThreadData waited.threadlist tid ∧
      ∀ event ∈ events, event.threadid ≠ tid := by
  induction events with
  | nil => exact fun waited _ => ⟨rfl, by simp⟩
  | cons event rest ih =>
    intro waited hmissed
    rw [waitForDebugEventNative] at hmissed ⊢
    split at hmissed
    case isTrue => cases hmissed
    case isFalse hne =>
      obtain ⟨hdata, hrest⟩ := ih _ hmissed
      rw [if_neg hne]
      refine ⟨hdata.trans (getThreadData_setPaused_of_ne hne _ _), ?_⟩
      intro other hother
      rcases mem_cons.mp hother with rfl | hlater
      · exact hne
      · exact hrest other hlater

theorem waitLoop_found {events : ℕ → List DebugEvent} (tries : ℕ) :
    ∀ {waited : Waited}, tries ≤ 10 →
    (∃ k, 10 - tries ≤ k ∧ k < 10 ∧ ∃ event ∈ events k, event.threadid = tid) →
    (getThreadData waited.threadlist tid).any ThreadData.isPaused = false →
    (waitLoop tid events tries waited).found = true := by
  induction tries with
  | zero =>
    rintro waited _ ⟨k, hle, hlt, _⟩ _
    omega
  | succ tries ih =>
    rintro waited hle ⟨k, hfirst, hlt, event, hevent, hsame⟩ hrunning
    rw [waitLoop, if_neg (by rw [hrunning]; exact Bool.false_ne_true)]
    cases hfound : (waitForDebugEventNative tid (events (10 - (tries + 1)))
        waited).found with
    | true => simp only [hfound, if_true]
    | false =>
      obtain ⟨hdata, hmissed⟩ := waitForDebugEventNative_missed _ _ hfound
      simp only [hfound, Bool.false_eq_true, if_false]
      refine ih (by omega) ⟨k, ?_, hlt, event, hevent, hsame⟩
        (by rw [hdata, hrunning])
      have hk : k ≠ 10 - (tries + 1) := by
        rintro rfl
        exact hmissed event hevent hsame
      omega

theorem waitFor_found (hstops : Stops surroundings tid) {td : ThreadData}
    (htd : getThreadData p.threadlist tid = some td)
    (hrunning : td.isPaused = false) :
    (waitFor surroundings tid p).found = true := by
  obtain ⟨k, hlt, hevent⟩ := hstops
  refine waitLoop_found 10 le_rfl ⟨k, by omega, hlt, hevent⟩ ?_
  rw [htd, Option.any_some, hrunning]

variable {command : Command} {debugreg : Fin 4}

theorem ReachesOne.around {threadlist : List ThreadData}
    (htids : threadlist.map ThreadData.tid = tids p) {after : Process × Bool}
    (hreaches : ReachesOne command debugreg surroundings tid
      { p with threadlist } after) (de : DebugEvent) :
    ReachesOne command debugreg surroundings tid p
      (continueThread tid de after.1, after.2) where
  others := hreaches.others
  otherSlots := hreaches.otherSlots
  written := hreaches.written
  sameTids := by
    rw [← htids]
    exact (map_tid_setPaused _ _ _).trans hreaches.sameTids
  succeeds hmem := hreaches.succeeds (by
    rw [← htids] at hmem
    exact hmem)

theorem getThreadData_none (hnone : getThreadData p.threadlist tid = none) :
    tid ∉ tids p := by
  intro hmem
  obtain ⟨td, htd, rfl⟩ := mem_map.mp hmem
  simpa using find?_eq_none.mp hnone td htd

theorem setBreakpointThread_reaches {address : BitVec 64} {bpsize : ℤ}
    (hallowed : AllowedThread (.set address bptype bpsize) debugreg
      surroundings tid p) :
    ReachesOne (.set address bptype bpsize) debugreg surroundings tid p
      (setBreakpointThread surroundings debugreg tid address bptype bpsize
        p) := by
  rw [setBreakpointThread]
  cases htd : getThreadData p.threadlist tid with
  | none =>
    exact ⟨fun _ _ => rfl, fun _ _ => rfl, (fun hfalse => by cases hfalse),
      rfl, fun hmem => absurd hmem (getThreadData_none htd)⟩
  | some td =>
    obtain ⟨hpaused, hrange, hwithin⟩ := hallowed td htd
    simp only
    split
    case isTrue hstopped =>
      rw [hpaused hstopped]
      exact pokeBreakpoint_reaches hrange hwithin
    case isFalse =>
      have hkeeps := waitFor_keeps surroundings tid p
      have hwtid : (if (waitFor surroundings tid p).found then
          (waitFor surroundings tid p).de.threadid else tid) = tid := by
        split
        case isTrue hfound => exact hkeeps.found hfound
        case isFalse => rfl
      rw [hwtid]
      exact ReachesOne.around hkeeps.sameTids
        (pokeBreakpoint_reaches hrange hwithin) _

theorem removeBreakpointThread_reaches
    (hallowed : AllowedThread .remove debugreg surroundings tid p) :
    ∃ after, removeBreakpointThread surroundings debugreg tid p = some after ∧
      ReachesOne .remove debugreg surroundings tid p after := by
  obtain ⟨td, htd, hpaused, hrunning, haccepts⟩ := hallowed
  rw [removeBreakpointThread, htd]
  simp only
  split
  case isTrue hstopped =>
    rw [hpaused hstopped]
    exact ⟨_, rfl, pokeNoBreakpoint_reaches haccepts⟩
  case isFalse hnot =>
    have hkeeps := waitFor_keeps surroundings tid p
    have hfound := waitFor_found (hrunning (Bool.not_eq_true _ ▸ hnot)) htd
      (Bool.not_eq_true _ ▸ hnot)
    rw [hkeeps.found hfound]
    exact ⟨_, rfl, ReachesOne.around hkeeps.sameTids
      (pokeNoBreakpoint_reaches haccepts) _⟩

theorem command_reaches
    (hallowed : AllowedThread command debugreg surroundings tid p) :
    ∃ after, command.execute surroundings debugreg tid p = some after ∧
      ReachesOne command debugreg surroundings tid p after := by
  cases command with
  | set address bptype bpsize =>
    exact ⟨_, rfl, setBreakpointThread_reaches hallowed⟩
  | remove => exact removeBreakpointThread_reaches hallowed

theorem slot_congr {before after : Process}
    (hsame : after.debugreg tid = before.debugreg tid) (slot : Fin 4) :
    after.slot tid slot = before.slot tid slot := by
  rw [Process.slot, Process.slot, hsame]

theorem ReachesOne.otherSlot {before : Process} {after : Process × Bool}
    (hreaches : ReachesOne command debugreg surroundings tid before after)
    {slot : Fin 4} (hne : slot ≠ debugreg) (other : ℕ) :
    after.1.slot other slot = before.slot other slot := by
  by_cases hsame : other = tid
  · subst hsame
    exact hreaches.otherSlots slot hne
  · exact slot_congr (hreaches.others other hsame) slot

structure ReachesAll (command : Command) (debugreg : Fin 4) (list : List ℕ)
    (before after : Process) : Prop where
  others : ∀ tid ∉ list, after.debugreg tid = before.debugreg tid
  otherSlots : ∀ tid, ∀ slot ≠ debugreg,
    after.slot tid slot = before.slot tid slot
  written : ∀ tid ∈ list, after.slot tid debugreg = command.slot

theorem forThreads_reaches {surroundings : ℕ → Surroundings}
    (list : List ℕ) : ∀ {i : ℕ} {p : Process},
    (∀ tid ∈ list, tid ∈ tids p) →
    AllowedThreads command debugreg surroundings i list p →
    ∃ after, forThreads command debugreg surroundings i list p = some after ∧
      ReachesAll command debugreg list p after.1 := by
  induction list with
  | nil =>
    exact fun _ _ => ⟨_, rfl, fun _ _ => rfl, fun _ _ _ => rfl,
      fun tid hmem => by cases hmem⟩
  | cons tid rest ih =>
    rintro i p hlisted ⟨hallowed, hwritable, hrest⟩
    obtain ⟨first, hfirst, hreaches⟩ := command_reaches hallowed
    have hsucceeds := hreaches.succeeds
      (hlisted tid mem_cons_self) hwritable
    obtain ⟨later, hlater, hothers, hslots, hwritten⟩ :=
      ih (by
        intro other hother
        rw [hreaches.sameTids]
        exact hlisted other (mem_cons_of_mem tid hother))
        (hrest first hfirst)
    refine ⟨(later.1, first.2 || later.2), ?_, ?_, ?_, ?_⟩
    · rw [forThreads, hfirst, Option.bind_some, hlater]
      rfl
    · intro other hother
      rw [mem_cons, not_or] at hother
      rw [hothers other hother.2, hreaches.others other hother.1]
    · intro other slot hne
      rw [hslots other slot hne, hreaches.otherSlot hne]
    · intro other hother
      by_cases hlast : other ∈ rest
      · exact hwritten other hlast
      · obtain rfl := (mem_cons.mp hother).resolve_right hlast
        rw [slot_congr (hothers other hlast)]
        exact hreaches.written hsucceeds

theorem call_reaches {call : Call} (hallowed : call.Allowed p) :
    ∃ after, call.execute p = some after ∧ ReachesThread call p after := by
  obtain ⟨target, debugreg, command, surroundings⟩ := call
  cases target with
  | some tid =>
    obtain ⟨after, hafter, hreaches⟩ := command_reaches hallowed
    refine ⟨after, hafter, hreaches.others, ?_, ?_⟩
    · exact fun other slot hne => hreaches.otherSlot hne other
    · rintro htrue other rfl
      exact hreaches.written htrue
  | none =>
    obtain ⟨after, hafter, hothers, hslots, hwritten⟩ :=
      forThreads_reaches (tids p) (fun _ hmem => hmem) hallowed
    exact ⟨after, hafter, hothers, hslots, fun _ => hwritten⟩

theorem known_step {step : Step}
    (hreaches : ReachesThread step.call step.before step.after) {tid : ℕ}
    {slot : Fin 4} {known : Option Slot}
    (hknown : ∀ asked, known = some asked →
      step.before.slot tid slot = asked) :
    ∀ asked, (if step.call.debugreg = slot ∧
          step.call.Names step.before tid then
        if step.after.2 then some step.call.command.slot else none
      else known) = some asked → step.after.1.slot tid slot = asked := by
  intro asked
  split
  case isTrue hnamed =>
    split
    case isTrue hsucceeded =>
      intro hasked
      rw [← Option.some.inj hasked, ← hnamed.1]
      exact hreaches.written hsucceeded tid hnamed.2
    case isFalse =>
      intro hasked
      cases hasked
  case isFalse hnot =>
    intro hasked
    rw [← hknown asked hasked]
    by_cases hslot : slot = step.call.debugreg
    · exact slot_congr
        (hreaches.others tid fun hnames => hnot ⟨hslot.symm, hnames⟩) slot
    · exact hreaches.otherSlots tid slot hslot

theorem finalState_cons (start : Process) (step : Step) (steps : List Step) :
    finalState start (step :: steps) = finalState step.after.1 steps := by
  rw [finalState, finalState]
  cases steps with
  | nil => rfl
  | cons next rest =>
    rw [getLast?_cons_cons, getLast?_cons]
    rfl

theorem run_reaches (calls : List Call) : ∀ {start : Process},
    AllowedRun calls start →
    ∃ steps, run calls start = some steps ∧
      (∀ step ∈ steps, ReachesThread step.call step.before step.after) ∧
      ∀ tid slot known,
        (∀ asked, known = some asked → start.slot tid slot = asked) →
        ∀ asked, lastCall tid slot steps known = some asked →
          (finalState start steps).slot tid slot = asked := by
  induction calls with
  | nil =>
    intro start _
    exact ⟨[], rfl, (fun step hstep => by cases hstep),
      fun tid slot known hknown => hknown⟩
  | cons call rest ih =>
    rintro start ⟨hallowed, hrest⟩
    obtain ⟨after, hafter, hreaches⟩ := call_reaches hallowed
    obtain ⟨steps, hsteps, hall, hlast⟩ := ih (hrest after hafter)
    refine ⟨⟨start, call, after⟩ :: steps, ?_, ?_, ?_⟩
    · rw [run, hafter, Option.bind_some, hsteps]
      rfl
    · intro step hstep
      rcases mem_cons.mp hstep with rfl | hlater
      · exact hreaches
      · exact hall step hlater
    · intro tid slot known hknown asked hasked
      rw [finalState_cons]
      exact hlast tid slot _
        (@known_step ⟨start, call, after⟩ hreaches tid slot known hknown)
        asked hasked

/-- In a run of allowed calls every breakpoint reaches its threads. -/
theorem breakpoints_follow (calls : List Call) (start : Process)
    (hallowed : AllowedRun calls start) : Follows calls start := by
  obtain ⟨steps, hsteps, hall, hlast⟩ := run_reaches calls hallowed
  refine ⟨steps, hsteps, hall, ?_⟩
  intro tid slot asked hasked
  exact hlast tid slot _ (fun known hknown => Option.some.inj hknown) asked
    hasked

def twoThreads : Process where
  threadlist := [⟨1, false⟩, ⟨2, true⟩]
  debuggedThreadEvent := ⟨5, 2⟩
  debugreg _ _ := 0

def stopsAtOnce (tid : ℕ) : Surroundings where
  uninitialised := ⟨0, 0⟩
  events _ := [⟨sigstop, tid⟩]
  stopped _ := true
  accepts _ _ := true

def setAndRemove : List Call :=
  [⟨some 1, 0, .set 0x400000 1 4, fun _ => stopsAtOnce 1⟩,
    ⟨some 1, 0, .remove, fun _ => stopsAtOnce 1⟩]

theorem setAndRemove_allowed : AllowedRun setAndRemove twoThreads := by
  refine ⟨?_, ?_⟩
  · intro td htd
    obtain rfl : (⟨1, false⟩ : ThreadData) = td := Option.some.inj htd
    exact ⟨(fun hpaused => by cases hpaused), by decide,
      by decide, by decide, by decide⟩
  · intro after hafter
    obtain rfl := Option.some.inj hafter
    refine ⟨⟨⟨1, false⟩, rfl, (fun hpaused => by cases hpaused), ?_,
      fun _ => rfl⟩, fun _ _ => trivial⟩
    exact fun _ => ⟨0, by decide, ⟨sigstop, 1⟩, mem_cons_self, rfl⟩

theorem breakpoints_follow_setAndRemove : Follows setAndRemove twoThreads :=
  breakpoints_follow setAndRemove twoThreads setAndRemove_allowed

def bothPaused : Process where
  threadlist := [⟨1, true⟩, ⟨2, true⟩]
  debuggedThreadEvent := ⟨5, 2⟩
  debugreg _ _ := 0

theorem not_follows_bothPaused :
    ¬ Follows [⟨some 2, 0, .set 0x400000 1 4, fun _ => stopsAtOnce 2⟩]
      bothPaused := by
  rintro ⟨steps, hsteps, hall, _⟩
  obtain rfl := Option.some.inj hsteps
  have hothers := (hall _ mem_cons_self).others 1 (by decide)
  have hsame := congrFun hothers 7
  exact absurd hsame (by decide)

end CheatEngine.ThreadBreakpoints
