import CheatEngine.AssemblerRelativeAddress
import CheatEngine.AssemblerRexPrefix

/-!
# Relative branches

The displacement of a jump, call or loop is the distance of its target from
the end of the opcode and the displacement.  Its size is chosen from the low
32 bits of that distance, and prefixes are not counted.
-/

namespace CheatEngine
namespace Assembler

open List PascalText X86Addressing

namespace Opcode

variable (opcode : Opcode)

def isShortBranch : Bool := opcode.paramtype1 = .parRel8

def isBranch : Bool :=
  opcode.isShortBranch || opcode.paramtype1 = .parRel32

/-- What the table has for every branch and for a later entry with its
mnemonic. -/
def isPlainBranch : Bool :=
  opcode.paramtype2 = .parNoparam && !opcode.norexw &&
    !opcode.invalidin32bit && !opcode.invalidin64bit &&
    (opcode.bytes = 1 || opcode.bytes = 2)

def mayFollowBranch : Bool :=
  opcode.paramtype1 = .parRel32 && opcode.isPlainBranch ||
    opcode.paramtype1 = .parRm32

end Opcode

def branchesTogether : List Opcode → Bool
  | [] => true
  | opcode :: rest =>
    (!opcode.isBranch || opcode.isPlainBranch &&
      (rest.takeWhile fun later => later.mnemonic = opcode.mnemonic).all
        Opcode.mayFollowBranch) && branchesTogether rest

theorem branchesTogether_opcodes : branchesTogether opcodes = true := by
  decide +kernel

theorem branchesTogether_drop {table : List Opcode}
    (htogether : branchesTogether table = true) {count : ℕ}
    {mnemonic : Text} {opcode : Opcode} {rest : List Opcode}
    (hrun : (table.drop count).takeWhile (fun opcode =>
      opcode.mnemonic.toList = mnemonic) = opcode :: rest)
    (hbranch : opcode.isBranch = true) :
    opcode.isPlainBranch = true ∧
      ∀ later ∈ rest, later.mayFollowBranch = true := by
  induction table generalizing count with
  | nil => simp at hrun
  | cons first others ih =>
    rw [branchesTogether, Bool.and_eq_true] at htogether
    cases count with
    | succ count => exact ih htogether.2 hrun
    | zero =>
      rw [drop_zero, takeWhile_cons] at hrun
      by_cases hmnemonic : first.mnemonic.toList = mnemonic
      · rw [if_pos (decide_eq_true hmnemonic)] at hrun
        obtain ⟨rfl, rfl⟩ := List.cons.inj hrun
        have hsame : (fun later : Opcode =>
            decide (later.mnemonic.toList = mnemonic)) =
            fun later => decide (later.mnemonic = first.mnemonic) := by
          funext later
          rw [← hmnemonic, decide_eq_decide, String.toList_inj]
        have hfirst := htogether.1
        rw [hbranch, Bool.not_true, Bool.false_or, Bool.and_eq_true,
          all_eq_true, ← hsame] at hfirst
        exact hfirst
      · rw [if_neg (by simpa using hmnemonic)] at hrun
        cases hrun

def littleEndian : List UInt8 → ℕ
  | [] => 0
  | byte :: rest => byte.toNat + 2 ^ 8 * littleEndian rest

variable {width : ℕ} (value : UInt64)

theorem littleEndian_dwordBytes :
    littleEndian (dwordBytes value) = value.toNat % 2 ^ 32 := by
  unfold dwordBytes
  simp only [littleEndian]
  rw [toNat_toUInt8, shiftRight_toUInt8 value 8 (by decide),
    shiftRight_toUInt8 value 16 (by decide),
    shiftRight_toUInt8 value 24 (by decide)]
  have h8 : (8 : UInt64).toNat = 8 := rfl
  have h16 : (16 : UInt64).toNat = 16 := rfl
  have h24 : (24 : UInt64).toNat = 24 := rfl
  rw [h8, h16, h24]
  omega

theorem littleEndian_append (bytes others : List UInt8) :
    littleEndian (bytes ++ others) =
      littleEndian bytes + 2 ^ (8 * bytes.length) * littleEndian others := by
  induction bytes with
  | nil => simp [littleEndian]
  | cons byte rest ih =>
    rw [cons_append, littleEndian, littleEndian, ih, length_cons]
    ring

theorem qwordBytes_eq :
    qwordBytes value = dwordBytes value ++ dwordBytes (value >>> 32) :=
  rfl

theorem littleEndian_qwordBytes :
    littleEndian (qwordBytes value) = value.toNat := by
  have hvalue := value.toNat_lt
  have hlow : (32 : UInt64).toNat % 64 = 32 := rfl
  rw [qwordBytes_eq, littleEndian_append, littleEndian_dwordBytes,
    littleEndian_dwordBytes, length_dwordBytes, UInt64.toNat_shiftRight,
    hlow, Nat.shiftRight_eq_div_pow]
  omega

theorem signed_eq_iff (hwidth : 0 < width) (value other : ℤ) :
    signed width value = other ↔
      (other - value) % 2 ^ width = 0 ∧
        -2 ^ (width - 1) ≤ other ∧ other < 2 ^ (width - 1) := by
  obtain ⟨width, rfl⟩ := Nat.exists_eq_add_one_of_ne_zero hwidth.ne'
  have hpow : (2 : ℤ) ^ (width + 1) = 2 * 2 ^ width := pow_succ' 2 width
  have hpos : (0 : ℤ) < 2 ^ width := by positivity
  rw [Nat.add_sub_cancel]
  unfold signed
  rw [Nat.add_sub_cancel, hpow]
  generalize (2 : ℤ) ^ width = half at hpos ⊢
  have hnonneg := Int.emod_nonneg value (show 2 * half ≠ 0 by omega)
  have hlt := Int.emod_lt_of_pos value (show 0 < 2 * half by omega)
  have hdiv := Int.emod_add_mul_ediv value (2 * half)
  constructor
  · intro heq
    refine ⟨?_, ?_, ?_⟩
    · refine Int.emod_eq_zero_of_dvd ?_
      split at heq
      · exact ⟨-(value / (2 * half)), by linarith⟩
      · exact ⟨-(value / (2 * half)) - 1, by linarith⟩
    · split at heq <;> omega
    · split at heq <;> omega
  · rintro ⟨hmod, hlow, hhigh⟩
    obtain ⟨count, hcount⟩ := Int.dvd_of_emod_eq_zero hmod
    have hvalue : value = other + 2 * half * -count := by linarith
    rw [hvalue, Int.add_mul_emod_self_left]
    by_cases hsign : 0 ≤ other
    · rw [Int.emod_eq_of_lt hsign (by omega), if_pos hhigh]
    · have hemod : other % (2 * half) = other + 2 * half := by
        rw [← Int.add_emod_right, Int.emod_eq_of_lt (by omega) (by omega)]
      rw [hemod, if_neg (by omega)]
      omega

/-- A displacement of `size` bits is the distance from the end of the opcode
and of itself; the prefixes are in front of both. -/
theorem displacement_reaches_iff {size : ℕ} (hsize : 0 < size)
    (hle : size ≤ width) (address target prefixes length : ℤ) :
    (address + (prefixes + length) +
        signed size (target - address - length)) % 2 ^ width =
          target % 2 ^ width ↔
      (2 : ℤ) ^ size ∣ prefixes ∧
        -2 ^ (size - 1) ≤
            signed width (target - address - (prefixes + length)) ∧
          signed width (target - address - (prefixes + length)) <
            2 ^ (size - 1) := by
  have hwidth : 0 < width := by omega
  have hdvd : (2 : ℤ) ^ size ∣ 2 ^ width := pow_dvd_pow 2 hle
  have hrange : (2 : ℤ) ^ (size - 1) ≤ 2 ^ (width - 1) :=
    pow_le_pow_right₀ (by norm_num) (by omega)
  obtain ⟨distance, hdistance⟩ :
      ∃ distance, distance = target - address - (prefixes + length) :=
    ⟨_, rfl⟩
  have htarget : target - address - length = distance + prefixes := by
    rw [hdistance]
    ring
  rw [htarget, ← hdistance]
  have hreached := signed_eq_iff hsize (distance + prefixes)
  generalize signed size (distance + prefixes) = reached at hreached ⊢
  obtain ⟨hself, hlow, hhigh⟩ := (hreached reached).mp rfl
  obtain ⟨hsigned, -, -⟩ := (signed_eq_iff hwidth distance _).mp rfl
  have hsigned := hdvd.trans (Int.dvd_of_emod_eq_zero hsigned)
  have hsum : (address + (prefixes + length) + reached) % 2 ^ width =
      target % 2 ^ width ↔ signed width distance = reached := by
    have hdifference : address + (prefixes + length) + reached - target =
        reached - distance := by
      rw [hdistance]
      ring
    rw [Int.emod_eq_emod_iff_emod_sub_eq_zero, hdifference,
      signed_eq_iff hwidth]
    constructor
    · exact fun hmod => ⟨hmod, by omega, by omega⟩
    · exact fun hmod => hmod.1
  rw [hsum]
  constructor
  · intro heq
    rw [heq] at hsigned ⊢
    refine ⟨?_, hlow, hhigh⟩
    have hself := Int.dvd_of_emod_eq_zero hself
    have hprefixes : prefixes =
        (reached - distance) - (reached - (distance + prefixes)) := by ring
    rw [hprefixes]
    exact dvd_sub hsigned hself
  · rintro ⟨hdiv, hlow, hhigh⟩
    refine ((hreached _).mpr ⟨?_, hlow, hhigh⟩).symm
    refine Int.emod_eq_zero_of_dvd ?_
    rw [← sub_sub]
    exact dvd_sub hsigned hdiv

/-! ## The form of a branch -/

namespace Line

variable {line : Line}

def staysShort (line : Line) (opcode : Opcode) : Bool :=
  line.overrideShort || !(line.overrideLong ||
    8 < valueToType (line.distance opcode 1).toUInt32)

/-- The entry of a branch, and the size of its displacement in bytes. -/
def branch (line : Line) : Option (Opcode × ℕ) :=
  match line.opcodes.head? with
  | some opcode =>
    if opcode.isShortBranch && line.staysShort opcode then some (opcode, 1)
    else (line.opcodes.find? isRel32).map (·, 4)
  | none => none

def branchForm (line : Line) (opcode : Opcode) (size : ℕ) : Form :=
  plain opcode ((dwordBytes (line.distance opcode size)).take size)

theorem isRel32_of_isPlainBranch {opcode : Opcode}
    (hlong : opcode.paramtype1 = .parRel32)
    (hplain : opcode.isPlainBranch = true) : isRel32 opcode = true := by
  simp only [Opcode.isPlainBranch, Bool.and_eq_true,
    decide_eq_true_eq] at hplain
  simp [isRel32, hlong, hplain.1.1.1.1]

theorem entryForm_of_isPlainBranch {opcode : Opcode}
    (hplain : opcode.isPlainBranch = true) :
    line.entryForm opcode = line.select opcode := by
  simp only [Opcode.isPlainBranch, Bool.and_eq_true, Bool.not_eq_true',
    decide_eq_true_eq] at hplain
  obtain ⟨⟨⟨⟨-, hnorexw⟩, h32⟩, h64⟩, -⟩ := hplain
  have hvalid : line.isInvalid opcode = false := by
    simp [isInvalid, h32, h64]
  rw [entryForm, hvalid, if_neg Bool.false_ne_true, current,
    if_neg (by rw [hnorexw]; decide)]

structure IsDirect (line : Line) : Prop where
  paramtype1 : line.paramtype1 = .ttValue
  oldParamtype1 : line.oldParamtype1 = .ttValue
  isDistance : line.isDistance = false

theorem select_long (hdirect : line.IsDirect) {opcode : Opcode}
    (hlong : opcode.paramtype1 = .parRel32)
    (hplain : opcode.isPlainBranch = true) :
    line.select opcode = if line.parameter2.isEmpty then
      some (line.branchForm opcode 4) else none := by
  simp only [Opcode.isPlainBranch, Bool.and_eq_true,
    decide_eq_true_eq] at hplain
  unfold select
  rw [hlong]
  simp only [selectRel32, given, noSecond, hdirect.paramtype1,
    hdirect.isDistance, hplain.1.1.1.1, decide_true, Bool.true_and, if_true,
    Bool.false_eq_true, if_false]
  rfl

theorem select_short (hdirect : line.IsDirect) {opcode : Opcode}
    (hshort : opcode.isShortBranch = true)
    (hplain : opcode.isPlainBranch = true) :
    line.select opcode = if line.parameter2.isEmpty then
      if line.staysShort opcode then some (line.branchForm opcode 1)
      else (line.opcodes.find? isRel32).map fun k => line.branchForm k 4
    else none := by
  simp only [Opcode.isPlainBranch, Bool.and_eq_true,
    decide_eq_true_eq] at hplain
  rw [Opcode.isShortBranch, decide_eq_true_eq] at hshort
  unfold select
  rw [hshort]
  simp only [selectRel8, given, noSecond, hdirect.paramtype1,
    hdirect.isDistance, hplain.1.1.1.1, decide_true, Bool.true_and, if_true,
    Bool.false_eq_true, if_false]
  have hcondition : (!line.overrideShort && (line.overrideLong ||
      decide (8 < valueToType (line.distance opcode 1).toUInt32))) =
        !line.staysShort opcode := by
    simp [staysShort]
  rw [hcondition]
  cases line.staysShort opcode <;> rfl

theorem entryForm_indirect (hdirect : line.IsDirect) {opcode : Opcode}
    (hindirect : opcode.paramtype1 = .parRm32) :
    line.entryForm opcode = none := by
  have hvalue : TokenType.isrm32 .ttValue = false := rfl
  have hfirst : (line.current opcode).paramtype1 = .ttValue ∧
      (line.current opcode).oldParamtype1 = .ttValue := by
    unfold current withoutRexW
    split
    · simp [hdirect.paramtype1, hdirect.oldParamtype1]
    · exact ⟨hdirect.paramtype1, hdirect.oldParamtype1⟩
  unfold entryForm
  split
  · rfl
  · unfold select
    rw [hindirect]
    simp only [selectRm32, given, hfirst.1, hfirst.2, hvalue, Bool.or_self,
      Bool.false_eq_true, if_false]

structure IsBranchRun (line : Line) (opcode : Opcode)
    (rest : List Opcode) : Prop where
  opcodes : line.opcodes = opcode :: rest
  isBranch : opcode.isBranch = true
  isPlainBranch : opcode.isPlainBranch = true
  mayFollowBranch : ∀ later ∈ rest, later.mayFollowBranch = true

variable {opcode : Opcode} {rest : List Opcode}

variable {entry : Opcode}

theorem IsBranchRun.isPlain_or_indirect (hrun : line.IsBranchRun opcode rest)
    (hentry : entry ∈ line.opcodes) :
    entry.isBranch = true ∧ entry.isPlainBranch = true ∨
      entry.paramtype1 = .parRm32 := by
  rw [hrun.opcodes] at hentry
  rcases mem_cons.mp hentry with rfl | hmem
  · exact Or.inl ⟨hrun.isBranch, hrun.isPlainBranch⟩
  · have hfollows := hrun.mayFollowBranch entry hmem
    simp only [Opcode.mayFollowBranch, Bool.or_eq_true, Bool.and_eq_true,
      decide_eq_true_eq] at hfollows
    rcases hfollows with ⟨hlong, hplain⟩ | hindirect
    · exact Or.inl ⟨by simp [Opcode.isBranch, hlong], hplain⟩
    · exact Or.inr hindirect

theorem isBranch_cases (hbranch : entry.isBranch = true) :
    entry.isShortBranch = true ∨ entry.paramtype1 = .parRel32 := by
  simpa [Opcode.isBranch] using hbranch

section

variable (hrun : line.IsBranchRun opcode rest)

include hrun

theorem IsBranchRun.entryForm_head (hdirect : line.IsDirect)
    (hsecond : line.parameter2.isEmpty = true) :
    line.entryForm opcode =
      line.branch.map fun found => line.branchForm found.1 found.2 := by
  have hhead : line.opcodes.head? = some opcode := by
    rw [hrun.opcodes]
    rfl
  unfold branch
  rw [entryForm_of_isPlainBranch hrun.isPlainBranch, hhead]
  simp only
  cases hshort : opcode.isShortBranch with
  | true =>
    rw [select_short hdirect hshort hrun.isPlainBranch, if_pos hsecond,
      Bool.true_and]
    split
    · rfl
    · rw [Option.map_map]
      rfl
  | false =>
    have hlong := (isBranch_cases hrun.isBranch).resolve_left
      (by rw [hshort]; decide)
    rw [select_long hdirect hlong hrun.isPlainBranch, if_pos hsecond,
      hrun.opcodes, find?_cons_of_pos
        (isRel32_of_isPlainBranch hlong hrun.isPlainBranch)]
    rfl

theorem IsBranchRun.parameter2_of_entryForm (hdirect : line.IsDirect)
    (hentry : entry ∈ line.opcodes) {form : Form}
    (hform : line.entryForm entry = some form) :
    line.parameter2.isEmpty = true ∧ entry.isBranch = true ∧
      entry.isPlainBranch = true := by
  rcases hrun.isPlain_or_indirect hentry with ⟨hbranch, hplain⟩ | hindirect
  · refine ⟨?_, hbranch, hplain⟩
    rw [entryForm_of_isPlainBranch hplain] at hform
    rcases isBranch_cases hbranch with hshort | hlong
    · rw [select_short hdirect hshort hplain] at hform
      split at hform
      · assumption
      · cases hform
    · rw [select_long hdirect hlong hplain] at hform
      split at hform
      · assumption
      · cases hform
  · rw [entryForm_indirect hdirect hindirect] at hform
    cases hform

theorem IsBranchRun.isPlainBranch_of_isRel32 (hentry : entry ∈ line.opcodes)
    (hlong : isRel32 entry = true) :
    entry.isPlainBranch = true := by
  rcases hrun.isPlain_or_indirect hentry with ⟨-, hplain⟩ | hindirect
  · exact hplain
  · simp [isRel32, hindirect] at hlong

theorem IsBranchRun.branch_mem {found : Opcode × ℕ}
    (hfound : line.branch = some found) :
    found.1 ∈ line.opcodes ∧ found.1.isPlainBranch = true ∧
      (found.2 = 1 ∨ found.2 = 4) := by
  have hhead : line.opcodes.head? = some opcode := by
    rw [hrun.opcodes]
    rfl
  have hmem : opcode ∈ line.opcodes := by
    rw [hrun.opcodes]
    exact mem_cons_self
  unfold branch at hfound
  rw [hhead] at hfound
  simp only at hfound
  split at hfound
  · cases hfound
    exact ⟨hmem, hrun.isPlainBranch, Or.inl rfl⟩
  · obtain ⟨k, hk, rfl⟩ := Option.map_eq_some_iff.mp hfound
    have hkmem := mem_of_find?_eq_some hk
    exact ⟨hkmem, hrun.isPlainBranch_of_isRel32 hkmem (find?_some hk),
      Or.inr rfl⟩

theorem IsBranchRun.branch_ne_none (hentry : entry ∈ rest)
    (hbranch : entry.isBranch = true) : line.branch ≠ none := by
  have hfollows := hrun.mayFollowBranch entry hentry
  simp only [Opcode.mayFollowBranch, Bool.or_eq_true, Bool.and_eq_true,
    decide_eq_true_eq] at hfollows
  have hlong : isRel32 entry = true := by
    rcases hfollows with ⟨hlong, hplain⟩ | hindirect
    · exact isRel32_of_isPlainBranch hlong hplain
    · simp [Opcode.isBranch, Opcode.isShortBranch, hindirect] at hbranch
  have hmem : entry ∈ line.opcodes := by
    rw [hrun.opcodes]
    exact mem_cons_of_mem _ hentry
  have hfind : line.opcodes.find? isRel32 ≠ none := by
    intro hnone
    exact find?_eq_none.mp hnone entry hmem hlong
  unfold branch
  rw [hrun.opcodes, head?_cons, ← hrun.opcodes]
  simp only
  split
  · exact Option.some_ne_none _
  · simpa using hfind

theorem IsBranchRun.findSome_branch (hdirect : line.IsDirect) {form : Form}
    (hform : line.opcodes.findSome? line.entryForm = some form) :
    line.parameter2.isEmpty = true ∧ ∃ entry size,
      line.branch = some (entry, size) ∧ entry ∈ line.opcodes ∧
        entry.isPlainBranch = true ∧ (size = 1 ∨ size = 4) ∧
        form = line.branchForm entry size := by
  obtain ⟨entry, hentry, hsome⟩ := exists_of_findSome?_eq_some hform
  obtain ⟨hsecond, hbranch, -⟩ :=
    hrun.parameter2_of_entryForm hdirect hentry hsome
  refine ⟨hsecond, ?_⟩
  have hhead := hrun.entryForm_head hdirect hsecond
  cases hfound : line.branch with
  | none =>
    rw [hfound] at hhead
    rw [hrun.opcodes] at hentry
    rcases mem_cons.mp hentry with rfl | hmem
    · rw [hhead] at hsome
      cases hsome
    · exact absurd hfound (hrun.branch_ne_none hmem hbranch)
  | some found =>
    obtain ⟨hmem, hplain, hsize⟩ := hrun.branch_mem hfound
    rw [hfound] at hhead
    rw [hrun.opcodes, findSome?_cons, hhead] at hform
    exact ⟨found.1, found.2, rfl, hmem, hplain, hsize,
      (Option.some.inj hform).symm⟩

end

end Line

/-! ## Where a branch goes -/

def addressWidth (is64Bit : Bool) : ℕ := if is64Bit then 64 else 32

/-- The processor adds the displacement to the end of the instruction. -/
def ReachesTarget (prepared : Prepared) (form : Form) (bytes : List UInt8) :
    Prop :=
  bytes = prepared.bytes ++ form.opcode.opcodeBytes ++ form.immediate ∧
    ((prepared.line.address.toNat + bytes.length : ℤ) +
        signed (8 * form.immediate.length) (littleEndian form.immediate)) %
          2 ^ addressWidth prepared.line.is64Bit =
      prepared.line.v.toNat % 2 ^ addressWidth prepared.line.is64Bit

instance (prepared : Prepared) (form : Form) (bytes : List UInt8) :
    Decidable (ReachesTarget prepared form bytes) :=
  inferInstanceAs (Decidable (_ ∧ _))

/-- The target is in reach of the displacement: the distance from the end of
the instruction fits it, and no prefixes shift it. -/
def Line.InReach (line : Line) (prefixes : ℕ) : Prop :=
  ∃ opcode size, line.branch = some (opcode, size) ∧
    (2 : ℤ) ^ (8 * size) ∣ prefixes ∧
    -2 ^ (8 * size - 1) ≤ signed (addressWidth line.is64Bit)
        (line.v.toNat - line.address.toNat -
          (prefixes + (opcode.bytes + size))) ∧
      signed (addressWidth line.is64Bit)
        (line.v.toNat - line.address.toNat -
          (prefixes + (opcode.bytes + size))) < 2 ^ (8 * size - 1)

/-- The indirect jump or call reads the whole target from behind itself. -/
def HoldsTarget (isJmp : Bool) (target : UInt64) (bytes : List UInt8) :
    Prop :=
  ∃ modrm gap slot,
    bytes = 0xff :: modrm :: dwordBytes (UInt64.ofNat gap.length) ++ gap ++
        slot ∧
      highField modrm = 0 ∧ lowField modrm = 5 ∧
      middleField modrm = (if isJmp then 4 else 2) ∧
      slot.length = 8 ∧ littleEndian slot = target.toNat

theorem farBytes_holdsTarget (isJmp : Bool) (target : UInt64) :
    HoldsTarget isJmp target (farBytes isJmp target) := by
  have hvalue := littleEndian_qwordBytes target
  cases isJmp with
  | true =>
    exact ⟨0x25, [], qwordBytes target, rfl, by decide, by decide,
      by decide, rfl, hvalue⟩
  | false =>
    exact ⟨0x15, [0xeb, 0x08], qwordBytes target, rfl, by decide,
      by decide, by decide, rfl, hvalue⟩

theorem signed_congr {value other : ℤ}
    (hmod : value % 2 ^ width = other % 2 ^ width) :
    signed width value = signed width other := by
  unfold signed
  rw [hmod]

section

variable {line : Line} {entry : Opcode} {size : ℕ}

theorem signed_branchForm (hsize : size = 1 ∨ size = 4) :
    (line.branchForm entry size).immediate.length = size ∧
      signed (8 * size) (littleEndian (line.branchForm entry size).immediate) =
        signed (8 * size) (line.v.toNat - line.address.toNat -
          (entry.bytes + size : ℕ)) := by
  have hdistance : ((line.distance entry size).toNat : ℤ) % 2 ^ 64 =
      (line.v.toNat - line.address.toNat - (entry.bytes + size : ℕ)) %
        2 ^ 64 := by
    unfold Line.distance
    rw [UInt64.toNat_sub, UInt64.toNat_sub, UInt64.toNat_ofNat']
    have haddress := line.address.toNat_lt
    omega
  rcases hsize with rfl | rfl
  · refine ⟨rfl, signed_congr ?_⟩
    change ((littleEndian [(line.distance entry 1).toUInt8] : ℕ) : ℤ) % _ = _
    rw [littleEndian, littleEndian, toNat_toUInt8]
    omega
  · refine ⟨rfl, signed_congr ?_⟩
    change ((littleEndian (dwordBytes (line.distance entry 4)) : ℕ) : ℤ) %
      _ = _
    rw [littleEndian_dwordBytes]
    omega

theorem length_opcodeBytes (hplain : entry.isPlainBranch = true) :
    entry.opcodeBytes.length = entry.bytes := by
  simp only [Opcode.isPlainBranch, Bool.and_eq_true, Bool.or_eq_true,
    decide_eq_true_eq] at hplain
  unfold Opcode.opcodeBytes
  rcases hplain.2 with hbytes | hbytes <;> simp [hbytes]

variable {prepared : Prepared}

theorem reachesTarget_iff
    (hbranch : prepared.line.branch = some (entry, size))
    (hplain : entry.isPlainBranch = true) (hsize : size = 1 ∨ size = 4)
    {bytes : List UInt8}
    (hbytes : bytes = prepared.bytes ++ entry.opcodeBytes ++
      (prepared.line.branchForm entry size).immediate) :
    ReachesTarget prepared (prepared.line.branchForm entry size) bytes ↔
      prepared.line.InReach prepared.bytes.length := by
  obtain ⟨hlength, hsigned⟩ :=
    @signed_branchForm prepared.line entry size hsize
  have htotal : (bytes.length : ℤ) =
      prepared.bytes.length + (entry.bytes + size : ℕ) := by
    rw [hbytes, length_append, length_append,
      length_opcodeBytes hplain, hlength]
    push_cast
    ring
  have hwidth : 8 * size ≤ addressWidth prepared.line.is64Bit := by
    unfold addressWidth
    split <;> omega
  have hreaches := displacement_reaches_iff (by omega) hwidth
    prepared.line.address.toNat prepared.line.v.toNat prepared.bytes.length
    (entry.bytes + size : ℕ)
  unfold ReachesTarget Line.InReach
  rw [hlength, hsigned, htotal, hreaches]
  constructor
  · rintro ⟨-, hdvd, hlow, hhigh⟩
    exact ⟨entry, size, hbranch, hdvd, by exact_mod_cast hlow,
      by exact_mod_cast hhigh⟩
  · rintro ⟨other, bits, hother, hdvd, hlow, hhigh⟩
    rw [hbranch] at hother
    cases hother
    exact ⟨hbytes, hdvd, by exact_mod_cast hlow, by exact_mod_cast hhigh⟩

end

theorem finish_unchanged {state : State} (hrex : state.rexPrefix = 0)
    (hnone : state.relativeAddressLocation = none)
    (hswitch : state.needsAddressSwitchPrefix = false)
    (selection : Selection) (address : UInt64) (skiprangecheck : Bool)
    (bytes : List UInt8) :
    finish state selection address skiprangecheck bytes = .ok bytes := by
  have hwide : (if selection.norexw then state.setRexW false
      else state).rexPrefix = 0 ∧
        (if selection.norexw then state.setRexW false
          else state).relativeAddressLocation = none := by
    split
    · refine ⟨?_, hnone⟩
      simp [State.setRexW, hrex]
    · exact ⟨hrex, hnone⟩
  have hsame : insertRex (if selection.norexw then state.setRexW false
      else state) bytes = (if selection.norexw then state.setRexW false
        else state, bytes) := by
    rw [insertRex, if_neg (not_not.mpr hwide.1)]
  have hset : setRelativeAddress (if selection.norexw then
      state.setRexW false else state) address bytes skiprangecheck =
        .ok bytes := by
    rw [setRelativeAddress, hwide.2]
  unfold finish
  simp only [hsame, hset, hswitch, Bool.false_eq_true, if_false]
  split
  · rfl
  · rfl

/-! ## The assembled line -/

def Prepared.isDirectBranch (prepared : Prepared) : Bool :=
  prepared.line.opcodes.head?.any Opcode.isBranch &&
    prepared.line.paramtype1 = .ttValue && !prepared.line.isDistance

section

variable {convertHexStrToRealStr : Text → Text}
  {getOpcodesIndex : Text → Option ℕ} {is64Bit : Bool}
  {assemblerPreference : AssemblerPreference} {address : UInt64}
  {tokens : List Text} {prepared : Prepared}

theorem isWide_of_value {paramtype1 paramtype2 : TokenType}
    (hfirst : (adjustTypes { is64Bit } paramtype1 paramtype2).2.1 =
      .ttValue) : paramtype1.isWide = false := by
  cases is64Bit with
  | false =>
    have hsame : paramtype1 = .ttValue := hfirst
    rw [hsame]
    rfl
  | true => cases paramtype1 <;> first | rfl | cases hfirst

section

variable (hprepare : prepare convertHexStrToRealStr getOpcodesIndex is64Bit
      assemblerPreference address tokens = some prepared)

include hprepare

theorem prepare_rexPrefix_of_value
    (hvalue : prepared.line.paramtype1 = .ttValue)
    (hsecond : prepared.line.parameter2.isEmpty = true) :
    prepared.state.rexPrefix = 0 := by
  unfold prepare at hprepare
  simp only at hprepare
  split at hprepare
  · cases hprepare
  · cases hprepare
    simp only at hvalue hsecond ⊢
    rw [adjustTypes_narrow (isWide_of_value hvalue) ?_]
    exact gettokentype_narrow (by decide) (by decide)
      (List.isEmpty_iff.mp hsecond)

theorem prepare_run (hbranch : prepared.isDirectBranch = true) :
    ∃ opcode rest, prepared.line.IsBranchRun opcode rest := by
  simp only [Prepared.isDirectBranch, Bool.and_eq_true] at hbranch
  have hhead := hbranch.1.1
  cases hopcodes : prepared.line.opcodes with
  | nil =>
    rw [hopcodes] at hhead
    cases hhead
  | cons opcode rest =>
    rw [hopcodes] at hhead
    have hisBranch : opcode.isBranch = true := hhead
    cases hindex : getOpcodesIndex prepared.mnemonic with
    | none =>
      rw [prepare_opcodes_none hprepare hindex] at hopcodes
      cases hopcodes
    | some j =>
      have hrun := prepare_opcodes hprepare hindex
      rw [hopcodes] at hrun
      obtain ⟨hplain, hrest⟩ := branchesTogether_drop
        branchesTogether_opcodes hrun.symm hisBranch
      exact ⟨opcode, rest, hopcodes, hisBranch, hplain, hrest⟩

end

/-- A jump, call or loop reaches its target exactly when the distance fits
the displacement that is chosen for it and no prefixes are in front; the far
jump or call always holds its target. -/
theorem assemble_reachesTarget_iff {skiprangecheck : Bool}
    {bytes : List UInt8}
    (hassemble : assemble convertHexStrToRealStr getOpcodesIndex is64Bit
      assemblerPreference address skiprangecheck tokens =
        .ok (some bytes)) :
    ∃ prepared,
      prepare convertHexStrToRealStr getOpcodesIndex is64Bit
        assemblerPreference address tokens = some prepared ∧
      (prepared.isDirectBranch = true →
        prepared.isFar = true ∧
            HoldsTarget (prepared.mnemonic = "JMP".toList) prepared.line.v
              bytes ∨
          prepared.isFar = false ∧
            ∃ form, FormAssembled prepared skiprangecheck form bytes ∧
              (ReachesTarget prepared form bytes ↔
                prepared.line.InReach prepared.bytes.length)) := by
  obtain ⟨prepared, hprepare, hcases⟩ := assemble_cases hassemble
  refine ⟨prepared, hprepare, fun hbranch => ?_⟩
  rcases hcases with ⟨hfar, rfl⟩ | ⟨hfar, form, hform⟩
  · exact Or.inl ⟨hfar, farBytes_holdsTarget _ _⟩
  · refine Or.inr ⟨hfar, form, hform, ?_⟩
    have hfresh := prepare_fresh hprepare
    obtain ⟨opcode, rest, hrun⟩ := prepare_run hprepare hbranch
    simp only [Prepared.isDirectBranch, Bool.and_eq_true,
      decide_eq_true_eq, Bool.not_eq_true'] at hbranch
    have hdirect : prepared.line.IsDirect :=
      ⟨hbranch.1.2, hfresh.oldParamtype1.trans hbranch.1.2, hbranch.2⟩
    obtain ⟨hsecond, entry, size, hfound, -, hplain, hsize, rfl⟩ :=
      hrun.findSome_branch hdirect hform.fromTable
    have hrex :=
      prepare_rexPrefix_of_value hprepare hdirect.paramtype1 hsecond
    obtain ⟨emitted, selection, hemit, hfinish⟩ := hform.finished
    cases hemit
    have hunchanged := @finish_unchanged
      (addopcode prepared.state prepared.bytes entry).1 hrex
      hfresh.relativeAddressLocation hfresh.needsAddressSwitchPrefix
      selection prepared.line.address skiprangecheck
    have hbytes := (hunchanged _).symm.trans hfinish
    exact reachesTarget_iff hfound hplain hsize (Except.ok.inj hbytes).symm

end

/-- The symbol handler puts a `$` in front of the hexadecimal number. -/
def hexNumber (number : String) : Text → Text := fun text =>
  if text = number.toList then '$' :: text else text

def branchTokens (mnemonic number : String) : List Text :=
  [mnemonic.toList, number.toList]

theorem assemble_jne :
    assemble (hexNumber "140000010") (fun _ => some 473) true .apNone
      0x140000000 false (branchTokens "JNE" "140000010") =
        .ok (some [0x75, 0x0e]) := by
  decide +kernel

theorem assemble_reachesTarget_iff_jne :
    ∃ prepared,
      prepare (hexNumber "140000010") (fun _ => some 473) true .apNone
        0x140000000 (branchTokens "JNE" "140000010") = some prepared ∧
      prepared.isDirectBranch = true ∧
      (prepared.isFar = true ∧
          HoldsTarget (prepared.mnemonic = "JMP".toList) prepared.line.v
            [0x75, 0x0e] ∨
        prepared.isFar = false ∧
          ∃ form, FormAssembled prepared false form [0x75, 0x0e] ∧
            (ReachesTarget prepared form [0x75, 0x0e] ↔
              prepared.line.InReach prepared.bytes.length)) := by
  obtain ⟨prepared, hprepare, hreaches⟩ :=
    assemble_reachesTarget_iff assemble_jne
  have hbranch : (prepare (hexNumber "140000010") (fun _ => some 473) true
      .apNone 0x140000000 (branchTokens "JNE" "140000010")).any
        Prepared.isDirectBranch = true := by
    decide +kernel
  rw [hprepare] at hbranch
  exact ⟨prepared, hprepare, hbranch, hreaches hbranch⟩

/-- Only the low 32 bits of a distance count for a short jump, and the
length of a call is left out of the check of its distance. -/
theorem assemble_missesTarget :
    (assemble (hexNumber "40000010") (fun _ => some 473) true .apNone
        0x140000000 false (branchTokens "JNE" "40000010") =
          .ok (some [0x75, 0x0e]) ∧
      ∃ prepared form,
        prepare (hexNumber "40000010") (fun _ => some 473) true .apNone
          0x140000000 (branchTokens "JNE" "40000010") = some prepared ∧
        prepared.isDirectBranch = true ∧ prepared.isFar = false ∧
        prepared.line.opcodes.findSome? prepared.line.entryForm = some form ∧
        ¬ ReachesTarget prepared form [0x75, 0x0e]) ∧
    (assemble (hexNumber "C0000002") (fun _ => some 81) true .apNone
        0x140000000 false (branchTokens "CALL" "C0000002") =
          .ok (some [0xe8, 0xfd, 0xff, 0xff, 0x7f]) ∧
      ∃ prepared form,
        prepare (hexNumber "C0000002") (fun _ => some 81) true .apNone
          0x140000000 (branchTokens "CALL" "C0000002") = some prepared ∧
        prepared.isDirectBranch = true ∧ prepared.isFar = false ∧
        prepared.line.opcodes.findSome? prepared.line.entryForm = some form ∧
        ¬ ReachesTarget prepared form [0xe8, 0xfd, 0xff, 0xff, 0x7f]) := by
  have hsome {α : Type} {found : Option α} (h : found.isSome = true) :
      found = some (found.get h) := (Option.some_get h).symm
  refine ⟨⟨by decide +kernel, _, _, hsome (by decide +kernel),
    by decide +kernel, by decide +kernel, hsome (by decide +kernel),
    by decide +kernel⟩, by decide +kernel, _, _, hsome (by decide +kernel),
    by decide +kernel, by decide +kernel, hsome (by decide +kernel),
    by decide +kernel⟩

end Assembler
end CheatEngine
