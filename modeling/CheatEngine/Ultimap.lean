import CheatEngine.ObservedRun

/-!
# Ultimap and the debug MSRs

While the watched process runs, Ultimap puts its own values into
`IA32_DEBUGCTL` and `IA32_DS_AREA`, keeps those of the guest aside and
registers a VM exit for accesses of the two registers.  Everything is about
one CPU.

A guest access traps when the MSR bitmap says so.  The processor looks for
the bits of the low MSRs at offset 0 for reads and at offset 2048 for writes;
`ultimap_handleCR3Change` sets bits at offset 0 and at offset 1024.
-/

namespace CheatEngine
namespace Dbvm

abbrev QWORD : Type := BitVec 64

inductive DebugMsr where
  | IA32_DEBUGCTL
  | IA32_DS_AREA
deriving DecidableEq, Repr

namespace DebugMsr

def number : DebugMsr → ℕ
  | IA32_DEBUGCTL => 0x1d9
  | IA32_DS_AREA => 0x600

end DebugMsr

structure DebugMsrs where
  DEBUGCTL : QWORD
  DS_AREA : QWORD
deriving DecidableEq, Repr

namespace DebugMsrs

def get (values : DebugMsrs) : DebugMsr → QWORD
  | .IA32_DEBUGCTL => values.DEBUGCTL
  | .IA32_DS_AREA => values.DS_AREA

def set (values : DebugMsrs) : DebugMsr → QWORD → DebugMsrs
  | .IA32_DEBUGCTL, value => { values with DEBUGCTL := value }
  | .IA32_DS_AREA, value => { values with DS_AREA := value }

/-- What a `#DB` does to the registers: the LBR bit is cleared. -/
def clearLBR (values : DebugMsrs) : DebugMsrs :=
  { values with DEBUGCTL := values.DEBUGCTL &&& ~~~1 }

@[simp]
theorem get_set_self (values : DebugMsrs) (msr : DebugMsr) (value : QWORD) :
    (values.set msr value).get msr = value := by
  cases msr <;> rfl

theorem get_set_of_ne (values : DebugMsrs) {msr other : DebugMsr}
    (hother : other ≠ msr) (value : QWORD) :
    (values.set msr value).get other = values.get other := by
  cases msr <;> cases other <;> first | rfl | exact absurd rfl hother

@[simp]
theorem set_get (values : DebugMsrs) (msr : DebugMsr) :
    values.set msr (values.get msr) = values := by
  cases msr <;> rfl

end DebugMsrs

structure UltimapInfo where
  Active : Bool
  CR3 : QWORD
  values : DebugMsrs
  Original : DebugMsrs

/-- A CPU.  `registers` are the guest's `IA32_DEBUGCTL` in the VMCS, which
the debug controls save and restore, and the real `IA32_DS_AREA`. -/
structure CpuInfo where
  registers : DebugMsrs
  guestCR3 : QWORD
  MSRBitmap : ℕ → BitVec 8
  Ultimap : UltimapInfo

/-- `MSRBitmap[offset+msr/8]|=1 << (msr % 8)`. -/
def setBit (offset msr : ℕ) (bitmap : ℕ → BitVec 8) : ℕ → BitVec 8 :=
  Function.update bitmap (offset + msr / 8)
    (bitmap (offset + msr / 8) ||| 1#8 <<< (msr % 8))

/-- `MSRBitmap[offset+msr/8]&=~(1 << (msr % 8))`. -/
def unsetBit (offset msr : ℕ) (bitmap : ℕ → BitVec 8) : ℕ → BitVec 8 :=
  Function.update bitmap (offset + msr / 8)
    (bitmap (offset + msr / 8) &&& ~~~(1#8 <<< (msr % 8)))

/-- The bitmap that `setupVMX` makes: the sysenter MSRs, EFER and the feature
control MSR. -/
def initialMSRBitmap : ℕ → BitVec 8 :=
  setBit 0 0x3a <| setBit 0 0x3a <|
    setBit 3072 0x80 <| setBit 1024 0x80 <|
    setBit 2048 0x176 <| setBit 2048 0x175 <| setBit 2048 0x174 <|
    setBit 0 0x176 <| setBit 0 0x175 <| setBit 0 0x174 <|
    fun _ => 0

namespace CpuInfo

def trapBit (cpu : CpuInfo) (offset : ℕ) (msr : DebugMsr) : Bool :=
  (cpu.MSRBitmap (offset + msr.number / 8)).getLsbD (msr.number % 8)

def readTraps (cpu : CpuInfo) (msr : DebugMsr) : Bool :=
  cpu.trapBit 0 msr

def writeTraps (cpu : CpuInfo) (msr : DebugMsr) : Bool :=
  cpu.trapBit 2048 msr

def Inside (cpu : CpuInfo) : Prop :=
  cpu.Ultimap.Active = true ∧ cpu.Ultimap.CR3 = cpu.guestCR3

instance (cpu : CpuInfo) : Decidable cpu.Inside :=
  inferInstanceAs (Decidable (_ ∧ _))

def ultimap_disable (cpu : CpuInfo) : CpuInfo :=
  if cpu.Ultimap.Active then
    { cpu with
      registers := cpu.Ultimap.Original
      Ultimap := { cpu.Ultimap with Active := false } }
  else
    cpu

def ultimap_setup (cpu : CpuInfo) (CR3 DEBUGCTL DS_AREA : QWORD) : CpuInfo :=
  { cpu with
    Ultimap :=
      { Active := true
        CR3 := CR3
        values := ⟨DEBUGCTL, DS_AREA⟩
        Original := cpu.registers } }

def enterWatched (cpu : CpuInfo) : CpuInfo :=
  { cpu with
    registers := cpu.Ultimap.values
    MSRBitmap :=
      setBit 1024 (DebugMsr.number .IA32_DEBUGCTL) <|
      setBit 0 (DebugMsr.number .IA32_DEBUGCTL) <|
      setBit 1024 (DebugMsr.number .IA32_DS_AREA) <|
      setBit 0 (DebugMsr.number .IA32_DS_AREA) cpu.MSRBitmap
    Ultimap := { cpu.Ultimap with Original := cpu.registers } }

def leaveWatched (cpu : CpuInfo) : CpuInfo :=
  { cpu with
    registers := cpu.Ultimap.Original
    MSRBitmap :=
      unsetBit 1024 (DebugMsr.number .IA32_DEBUGCTL) <|
      unsetBit 0 (DebugMsr.number .IA32_DEBUGCTL) <|
      unsetBit 1024 (DebugMsr.number .IA32_DS_AREA) <|
      unsetBit 0 (DebugMsr.number .IA32_DS_AREA) cpu.MSRBitmap }

def ultimap_handleCR3Change (cpu : CpuInfo) (oldcr3 newcr3 : QWORD) :
    CpuInfo :=
  if oldcr3 ≠ newcr3 then
    if cpu.Ultimap.CR3 = newcr3 then cpu.enterWatched
    else if cpu.Ultimap.CR3 = cpu.guestCR3 then cpu.leaveWatched
    else cpu
  else
    cpu

def maskedCR3 (is64bitpaging : Bool) (newcr3 : QWORD) : QWORD :=
  if is64bitpaging then newcr3 else newcr3 &&& 0xffffffff

def setVM_CR3 (cpu : CpuInfo) (is64bitpaging : Bool) (newcr3 : QWORD) :
    CpuInfo :=
  let handled :=
    if cpu.Ultimap.Active then
      cpu.ultimap_handleCR3Change cpu.guestCR3 newcr3
    else
      cpu
  { handled with guestCR3 := maskedCR3 is64bitpaging newcr3 }

def ultimap_handleDB (cpu : CpuInfo) : CpuInfo :=
  { cpu with
    registers :=
      if cpu.guestCR3 ≠ cpu.Ultimap.CR3 then
        cpu.registers.clearLBR
      else
        { cpu.registers with DEBUGCTL := cpu.Ultimap.values.DEBUGCTL }
    Ultimap :=
      { cpu.Ultimap with Original := cpu.Ultimap.Original.clearLBR } }

def handleInt1 (cpu : CpuInfo) : CpuInfo :=
  if cpu.Ultimap.Active then
    cpu.ultimap_handleDB
  else
    { cpu with registers := cpu.registers.clearLBR }

def ultimap_handleMSRWrite (cpu : CpuInfo) (msr : DebugMsr) (value : QWORD) :
    CpuInfo :=
  { cpu with
    registers :=
      if cpu.Inside then
        cpu.registers.set msr (cpu.Ultimap.values.get msr)
      else
        cpu.registers.set msr value
    Ultimap :=
      { cpu.Ultimap with Original := cpu.Ultimap.Original.set msr value } }

def ultimap_handleMSRRead (cpu : CpuInfo) (msr : DebugMsr) : QWORD :=
  if cpu.Inside then cpu.Ultimap.Original.get msr
  else cpu.registers.get msr

def guestWrite (cpu : CpuInfo) (msr : DebugMsr) (value : QWORD) : CpuInfo :=
  if cpu.writeTraps msr then cpu.ultimap_handleMSRWrite msr value
  else { cpu with registers := cpu.registers.set msr value }

def guestRead (cpu : CpuInfo) (msr : DebugMsr) : QWORD :=
  if cpu.readTraps msr then cpu.ultimap_handleMSRRead msr
  else cpu.registers.get msr

end CpuInfo

inductive UltimapEvent where
  | setup (CR3 DEBUGCTL DS_AREA : QWORD)
  | disable
  | changeCR3 (is64bitpaging : Bool) (newcr3 : QWORD)
  | debugException
  | write (msr : DebugMsr) (value : QWORD)
  | read (msr : DebugMsr)
deriving Repr

def ultimapStep (cpu : CpuInfo) : UltimapEvent → CpuInfo × List QWORD
  | .setup CR3 DEBUGCTL DS_AREA =>
    (cpu.ultimap_setup CR3 DEBUGCTL DS_AREA, [])
  | .disable => (cpu.ultimap_disable, [])
  | .changeCR3 is64bitpaging newcr3 =>
    (cpu.setVM_CR3 is64bitpaging newcr3, [])
  | .debugException => (cpu.handleInt1, [])
  | .write msr value => (cpu.guestWrite msr value, [])
  | .read msr => (cpu, [cpu.guestRead msr])

def plainStep (values : DebugMsrs) : UltimapEvent → DebugMsrs × List QWORD
  | .setup _ _ _ => (values, [])
  | .disable => (values, [])
  | .changeCR3 _ _ => (values, [])
  | .debugException => (values.clearLBR, [])
  | .write msr value => (values.set msr value, [])
  | .read msr => (values, [values.get msr])

structure Started (cpu : CpuInfo) : Prop where
  inactive : cpu.Ultimap.Active = false
  bitmap_eq : cpu.MSRBitmap = initialMSRBitmap

/-- The events that the handlers get right.  The guest does not write the
registers while the watched process runs (writes are not trapped), Ultimap is
not set up again there, it is not switched off elsewhere after the guest
changed a register, and a `#DB` that finds the watched process running comes
after the switch to it. -/
def Unharmed (cpu : CpuInfo) : UltimapEvent → Prop
  | .setup _ _ _ => ¬ cpu.Inside
  | .disable => cpu.Ultimap.Active = true →
      cpu.Inside ∨ cpu.Ultimap.Original = cpu.registers
  | .changeCR3 is64bitpaging newcr3 => cpu.Ultimap.Active = true →
      (cpu.Ultimap.CR3 = newcr3 ↔
        cpu.Ultimap.CR3 = CpuInfo.maskedCR3 is64bitpaging newcr3)
  | .debugException => cpu.Inside → cpu.readTraps .IA32_DEBUGCTL = true
  | .write msr value => cpu.Inside → cpu.Ultimap.Original.get msr = value
  | .read _ => True

/-- Outside the watched process the registers hold the values of the guest.
Inside they are kept aside, and a register that holds something else is
trapped when read. -/
structure Holds (cpu : CpuInfo) (values : DebugMsrs) : Prop where
  no_write_trap : ∀ msr, cpu.writeTraps msr = false
  outside : ¬ cpu.Inside → cpu.registers = values
  kept : cpu.Inside → cpu.Ultimap.Original = values
  trapped : cpu.Inside → ∀ msr,
    cpu.readTraps msr = true ∨ cpu.registers.get msr = values.get msr

theorem initialMSRBitmap_no_trap (cpu : CpuInfo)
    (hbitmap : cpu.MSRBitmap = initialMSRBitmap) (msr : DebugMsr) :
    cpu.writeTraps msr = false := by
  unfold CpuInfo.writeTraps CpuInfo.trapBit
  rw [hbitmap]
  cases msr <;> decide

theorem Started.holds {cpu : CpuInfo} (hstarted : Started cpu) :
    Holds cpu cpu.registers := by
  have houtside : ¬ cpu.Inside := by
    rintro ⟨hactive, _⟩
    rw [hstarted.inactive] at hactive
    exact absurd hactive (by decide)
  constructor
  · exact initialMSRBitmap_no_trap cpu hstarted.bitmap_eq
  · exact fun _ => rfl
  · exact fun hinside => absurd hinside houtside
  · exact fun hinside => absurd hinside houtside

theorem enterWatched_writeTraps (cpu : CpuInfo) (msr : DebugMsr) :
    cpu.enterWatched.writeTraps msr = cpu.writeTraps msr := by
  cases msr <;>
    simp [CpuInfo.writeTraps, CpuInfo.trapBit, CpuInfo.enterWatched, setBit,
      DebugMsr.number]

theorem enterWatched_readTraps (cpu : CpuInfo) (msr : DebugMsr) :
    cpu.enterWatched.readTraps msr = true := by
  cases msr <;>
    simp [CpuInfo.readTraps, CpuInfo.trapBit, CpuInfo.enterWatched, setBit,
      DebugMsr.number]

theorem leaveWatched_writeTraps (cpu : CpuInfo) (msr : DebugMsr) :
    cpu.leaveWatched.writeTraps msr = cpu.writeTraps msr := by
  cases msr <;>
    simp [CpuInfo.writeTraps, CpuInfo.trapBit, CpuInfo.leaveWatched,
      unsetBit, DebugMsr.number]

/-! ## One event -/

variable {cpu : CpuInfo} {values : DebugMsrs}

theorem Holds.setup (hholds : Holds cpu values) (houtside : ¬ cpu.Inside)
    (CR3 DEBUGCTL DS_AREA : QWORD) :
    Holds (cpu.ultimap_setup CR3 DEBUGCTL DS_AREA) values := by
  have hregisters : cpu.registers = values := hholds.outside houtside
  constructor
  · exact hholds.no_write_trap
  · exact fun _ => hregisters
  · exact fun _ => hregisters
  · intro _ msr
    right
    rw [← hregisters]
    rfl

theorem Holds.disable (hholds : Holds cpu values)
    (hunharmed : Unharmed cpu .disable) :
    Holds cpu.ultimap_disable values := by
  unfold CpuInfo.ultimap_disable
  split
  · rename_i hactive
    have hkept : cpu.Ultimap.Original = values := by
      by_cases hinside : cpu.Inside
      · exact hholds.kept hinside
      · rcases hunharmed hactive with hcontra | hsame
        · exact absurd hcontra hinside
        · rw [hsame, hholds.outside hinside]
    constructor
    · exact hholds.no_write_trap
    · exact fun _ => hkept
    · exact fun hcontra => absurd hcontra.1 Bool.false_ne_true
    · exact fun hcontra => absurd hcontra.1 Bool.false_ne_true
  · exact hholds

variable {newcr3 : QWORD}

theorem Holds.withCR3 (hholds : Holds cpu values)
    (hinside : ({ cpu with guestCR3 := newcr3 } : CpuInfo).Inside ↔
      cpu.Inside) : Holds { cpu with guestCR3 := newcr3 } values := by
  constructor
  · exact hholds.no_write_trap
  · exact fun houtside => hholds.outside (mt hinside.mpr houtside)
  · exact fun hafter => hholds.kept (hinside.mp hafter)
  · exact fun hafter => hholds.trapped (hinside.mp hafter)

section

variable (hholds : Holds cpu values)

include hholds

theorem Holds.enterWatched (houtside : ¬ cpu.Inside)
    (hactive : cpu.Ultimap.Active = true) :
    Holds { cpu.enterWatched with guestCR3 := cpu.Ultimap.CR3 } values := by
  have hregisters : cpu.registers = values := hholds.outside houtside
  constructor
  · intro msr
    exact (enterWatched_writeTraps cpu msr).trans (hholds.no_write_trap msr)
  · exact fun hcontra => absurd ⟨hactive, rfl⟩ hcontra
  · exact fun _ => hregisters
  · exact fun _ msr => Or.inl (enterWatched_readTraps cpu msr)

theorem Holds.leaveWatched (hinside : cpu.Inside)
    (hother : cpu.Ultimap.CR3 ≠ newcr3) :
    Holds { cpu.leaveWatched with guestCR3 := newcr3 } values := by
  constructor
  · intro msr
    exact (leaveWatched_writeTraps cpu msr).trans (hholds.no_write_trap msr)
  · exact fun _ => hholds.kept hinside
  · exact fun hcontra => absurd hcontra.2 hother
  · exact fun hcontra => absurd hcontra.2 hother

theorem Holds.setVM_CR3 {is64bitpaging : Bool}
    (hunharmed : Unharmed cpu (.changeCR3 is64bitpaging newcr3)) :
    Holds (cpu.setVM_CR3 is64bitpaging newcr3) values := by
  unfold CpuInfo.setVM_CR3
  dsimp only
  split
  · rename_i hactive
    have hmask := hunharmed hactive
    unfold CpuInfo.ultimap_handleCR3Change
    split_ifs with hsame hwatched hold
    · rw [← hmask.mp hwatched]
      apply hholds.enterWatched _ hactive
      rintro ⟨_, hcurrent⟩
      exact hsame (hcurrent.symm.trans hwatched)
    · exact hholds.leaveWatched ⟨hactive, hold⟩ (mt hmask.mpr hwatched)
    · apply hholds.withCR3
      constructor
      · exact fun hafter => absurd (hmask.mpr hafter.2) hwatched
      · exact fun hbefore => absurd hbefore.2 hold
    · rw [ne_eq, not_not] at hsame
      apply hholds.withCR3
      constructor
      · exact fun hafter => ⟨hactive, (hmask.mpr hafter.2).trans hsame.symm⟩
      · exact fun hbefore => ⟨hactive, hmask.mp (hbefore.2.trans hsame)⟩
  · rename_i hinactive
    apply hholds.withCR3
    constructor
    · exact fun hafter => absurd hafter.1 hinactive
    · exact fun hbefore => absurd hbefore.1 hinactive

theorem Holds.handleInt1 (hunharmed : Unharmed cpu .debugException) :
    Holds cpu.handleInt1 values.clearLBR := by
  unfold CpuInfo.handleInt1
  split
  · rename_i hactive
    constructor
    · exact hholds.no_write_trap
    · intro houtside
      have hother : cpu.guestCR3 ≠ cpu.Ultimap.CR3 :=
        fun hsame => houtside ⟨hactive, hsame.symm⟩
      change (if cpu.guestCR3 ≠ cpu.Ultimap.CR3 then _ else _) = _
      rw [if_pos hother, hholds.outside houtside]
    · intro hinside
      exact congrArg DebugMsrs.clearLBR (hholds.kept hinside)
    · intro hinside msr
      have hsame : ¬ cpu.guestCR3 ≠ cpu.Ultimap.CR3 :=
        fun hother => hother hinside.2.symm
      cases msr with
      | IA32_DEBUGCTL => exact Or.inl (hunharmed hinside)
      | IA32_DS_AREA =>
        rcases hholds.trapped hinside .IA32_DS_AREA with htrap | hget
        · exact Or.inl htrap
        · right
          change DebugMsrs.get (if cpu.guestCR3 ≠ cpu.Ultimap.CR3 then _
            else _) _ = _
          rw [if_neg hsame]
          exact hget
  · rename_i hinactive
    have houtside : ¬ cpu.Inside := fun hinside => hinactive hinside.1
    constructor
    · exact hholds.no_write_trap
    · exact fun _ =>
        congrArg DebugMsrs.clearLBR (hholds.outside houtside)
    · exact fun hcontra => absurd hcontra houtside
    · exact fun hcontra => absurd hcontra houtside

theorem Holds.guestWrite {msr : DebugMsr} {value : QWORD}
    (hunharmed : Unharmed cpu (.write msr value)) :
    Holds (cpu.guestWrite msr value) (values.set msr value) := by
  unfold CpuInfo.guestWrite
  rw [hholds.no_write_trap msr, if_neg Bool.false_ne_true]
  constructor
  · exact hholds.no_write_trap
  · intro houtside
    exact congrArg (fun held => DebugMsrs.set held msr value)
      (hholds.outside houtside)
  · intro hinside
    have hkept : cpu.Ultimap.Original = values := hholds.kept hinside
    have hvalue : values.get msr = value := by
      rw [← hkept]
      exact hunharmed hinside
    rw [← hvalue, DebugMsrs.set_get]
    exact hkept
  · intro hinside other
    by_cases hsame : other = msr
    · right
      rw [hsame, DebugMsrs.get_set_self, DebugMsrs.get_set_self]
    · rcases hholds.trapped hinside other with htrap | hget
      · exact Or.inl htrap
      · right
        rw [DebugMsrs.get_set_of_ne _ hsame,
          DebugMsrs.get_set_of_ne _ hsame, hget]

theorem Holds.guestRead_eq (msr : DebugMsr) :
    cpu.guestRead msr = values.get msr := by
  unfold CpuInfo.guestRead CpuInfo.ultimap_handleMSRRead
  by_cases hinside : cpu.Inside
  · rw [if_pos hinside, hholds.kept hinside]
    split
    · rfl
    · rename_i huntrapped
      rcases hholds.trapped hinside msr with htrap | hget
      · exact absurd htrap huntrapped
      · exact hget
  · rw [if_neg hinside, hholds.outside hinside, ite_self]

end

theorem ultimapStep_keeps :
    ObservedRun.Keeps ultimapStep plainStep Unharmed Holds := by
  intro cpu values event hholds hunharmed
  cases event with
  | setup CR3 DEBUGCTL DS_AREA =>
    exact hholds.setup hunharmed CR3 DEBUGCTL DS_AREA
  | disable => exact hholds.disable hunharmed
  | changeCR3 is64bitpaging newcr3 => exact hholds.setVM_CR3 hunharmed
  | debugException => exact hholds.handleInt1 hunharmed
  | write msr value => exact hholds.guestWrite hunharmed
  | read msr => exact hholds

theorem ultimapStep_answersAlike :
    ObservedRun.AnswersAlike ultimapStep plainStep Unharmed Holds := by
  intro cpu values event hholds _
  cases event with
  | read msr =>
    change [cpu.guestRead msr] = [values.get msr]
    rw [hholds.guestRead_eq]
  | _ => rfl

/-- In a run of unharmed events every read gives what it gives without
Ultimap. -/
theorem ultimap_reads_eq_plain (cpu : CpuInfo) (hstarted : Started cpu)
    (events : List UltimapEvent)
    (hunharmed : ObservedRun.AllowedRun ultimapStep Unharmed cpu events) :
    ObservedRun.answers ultimapStep cpu events =
      ObservedRun.answers plainStep cpu.registers events :=
  ultimapStep_keeps.answers_eq ultimapStep_answersAlike hstarted.holds
    hunharmed

def zeroCpu : CpuInfo where
  registers := ⟨0, 0⟩
  guestCR3 := 0
  MSRBitmap := initialMSRBitmap
  Ultimap := ⟨false, 0, ⟨0, 0⟩, ⟨0, 0⟩⟩

theorem ultimap_reads_eq_plain_watched :
    ObservedRun.answers ultimapStep zeroCpu
      [.setup 0x1000 0xc1 0x5000, .write .IA32_DEBUGCTL 1,
        .changeCR3 true 0x1000, .read .IA32_DEBUGCTL, .debugException,
        .read .IA32_DEBUGCTL, .disable, .read .IA32_DEBUGCTL] =
    [1, 0, 0] := by
  rw [ultimap_reads_eq_plain zeroCpu ⟨rfl, rfl⟩ _ (by
    simp only [ObservedRun.AllowedRun, Unharmed]
    decide)]
  decide

/-- A write in the watched process is not trapped, and the next read is
answered with the value that was kept aside. -/
theorem watched_write_is_lost :
    ObservedRun.answers ultimapStep zeroCpu
      [.setup 0x1000 0xc1 0x5000, .changeCR3 true 0x1000,
        .write .IA32_DEBUGCTL 1, .read .IA32_DEBUGCTL] ≠
    ObservedRun.answers plainStep zeroCpu.registers
      [.setup 0x1000 0xc1 0x5000, .changeCR3 true 0x1000,
        .write .IA32_DEBUGCTL 1, .read .IA32_DEBUGCTL] := by
  decide

end Dbvm
end CheatEngine
