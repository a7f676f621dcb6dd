import CheatEngine.AutoAssembler

/-!
# Forward references keep their line

The scripts for which the pass of the auto assembler emits what the two-pass
assembler emits.  A line that has to wait for a label is assembled again from
its source text, with that one label replaced, so nothing else of the line may
need a replacement.
-/

namespace CheatEngine
namespace AutoAssembler

open List HexText TokenText

variable {line : Text} {labels : List KnownLabel} (address : UInt64)

theorem addressText_ne_nil : addressText address ≠ [] :=
  intToHex_ne_nil _ _

theorem addressText_isTokenChar :
    ∀ char ∈ addressText address, isTokenChar char = true := by
  intro char hchar
  have hdigits : "0123456789ABCDEF".toList.all isTokenChar = true := by
    decide
  exact all_eq_true.mp hdigits char (intToHex_mem hchar)

theorem tokencheck_iff (input token : Text) :
    tokencheck input token = true ↔ token ∈ tokens isTokenChar input :=
  hasToken_iff input token

theorem tokencheck_eq_false {input token : Text}
    (habsent : token ∉ tokens isTokenChar input) :
    tokencheck input token = false :=
  Bool.eq_false_of_not_eq_true fun hcheck =>
    habsent ((tokencheck_iff input token).mp hcheck)

theorem replacetoken_absent {input token : Text} (replacewith : Text)
    (habsent : token ∉ tokens isTokenChar input) :
    replacetoken input token replacewith = input :=
  replaceToken_of_notMem replacewith habsent

theorem mem_tokens_replaced {name other : Text} {address : UInt64}
    (hother : other ∈ tokens isTokenChar
      (replacetoken line name (addressText address)))
    (hname : other ≠ addressText address) :
    other ∈ tokens isTokenChar line ∧ other ≠ name :=
  (mem_tokens_replaceToken (addressText_ne_nil address)
    (addressText_isTokenChar address) hother).resolve_right hname

/-! ## Scripts that resolve -/

/-- `label` is the only name of the script that the line mentions. -/
structure SoleLabel (script : Script) (label : ℕ) (line : Text) : Prop where
  allocs : ∀ alloc ∈ script.allocs, alloc.varname ∉ tokens isTokenChar line
  kallocs : ∀ alloc ∈ script.kallocs, alloc.varname ∉ tokens isTokenChar line
  defines : ∀ define ∈ script.defines, define.name ∉ tokens isTokenChar line
  labels : ∃ declaration, script.labels[label]? = some declaration ∧
    declaration.labelname ∈ tokens isTokenChar line ∧
    ∀ other otherDeclaration,
      script.labels[other]? = some otherDeclaration →
      otherDeclaration.labelname ∈ tokens isTokenChar line →
      label ≤ other ∧ otherDeclaration.labelname = declaration.labelname

def DefinedAt (script : Script) (label index : ℕ) : Prop :=
  ∃ declaration line, script.labels[label]? = some declaration ∧
    declaration.assemblerline = index ∧
    script.assemblerlines[index]? = some line ∧
    (replaceNames script line).getLast? = some ':' ∧
    ∀ other otherDeclaration,
      script.labels[other]? = some otherDeclaration →
      otherDeclaration.assemblerline = index → label ≤ other

/-- The first label of this name is defined before line `index`. -/
def NameDefinedBefore (script : Script) (label index : ℕ) (name : Text) :
    Prop :=
  ∃ first declaration, first ≤ label ∧
    script.labels[first]? = some declaration ∧
    declaration.labelname = name ∧
    ∃ earlier < index, DefinedAt script first earlier

/-- A line without a forward reference, or with one that comes alone. -/
def Resolvable (script : Script) (index : ℕ) (line : Text) : Prop :=
  (replaceNames script line).getLast? = some ':' ∨
  (∀ label declaration, script.labels[label]? = some declaration →
    declaration.labelname ∈ tokens isTokenChar (replaceNames script line) →
    NameDefinedBefore script label index declaration.labelname) ∨
  ∃ label definition, SoleLabel script label line ∧
    DefinedAt script label definition

def ResolvableScript (script : Script) : Prop :=
  ∀ index line, script.assemblerlines[index]? = some line →
    Resolvable script index line

def valueText (label : KnownLabel) : Option Text :=
  label.value.map addressText

def guessText (address : UInt64) (label : KnownLabel) : Option Text :=
  some (addressText (label.value.getD address))

/-- No later label is named as the address that is put into the line. -/
def NamesApart (shown : KnownLabel → Option Text) (labels : List KnownLabel)
    (line : Text) : Prop :=
  labels.Pairwise fun label later =>
    label.labelname ∈ tokens isTokenChar line →
      ∀ text ∈ shown label, later.labelname ≠ text

instance (shown : KnownLabel → Option Text) (labels : List KnownLabel)
    (line : Text) : Decidable (NamesApart shown labels line) :=
  inferInstanceAs (Decidable (List.Pairwise ..))

/-- The final encoding of a forward reference is not longer than its room. -/
def FitsRoom (tools : Tools) (script : Script) (labels : List KnownLabel)
    (item : Item) : Prop :=
  item.forward = true → unresolved labels item.text = false →
    ∀ bytes ∈ tools.assemble (resolve labels item.text) item.address
      (referencePreference script) false, bytes.length ≤ item.size

instance (tools : Tools) (script : Script) (labels : List KnownLabel)
    (item : Item) : Decidable (FitsRoom tools script labels item) :=
  inferInstanceAs (Decidable (_ → _ → _))

section

variable (tools : Tools) (script : Script)

/-- Of the addresses that are reached, none is written like a label that the
line is searched for after it is put in. -/
def NamesAreNotAddresses : Prop :=
  ∀ lines ∈ script.assemblerlines.inits,
    ∀ layout ∈ layoutLines tools script 0 lines (initialLayout script),
      (∀ item ∈ layout.items, NamesApart valueText layout.labels item.text) ∧
      ∀ line ∈ script.assemblerlines[lines.length]?,
        (replaceNames script line).getLast? ≠ some ':' →
        ∀ distance ∈ [0, farDistance script],
          NamesApart (guessText (layout.currentaddress + distance))
            layout.labels (replaceNames script line)

/-- At the addresses that are reached, no reference becomes longer than the
room kept for it. -/
def ReservesEnough : Prop :=
  ∀ lines ∈ script.assemblerlines.inits,
    ∀ layout ∈ layoutLines tools script 0 lines (initialLayout script),
      ∀ item ∈ layout.items, FitsRoom tools script layout.labels item

end

theorem foldl_replacetoken_absent {β : Type*} {name text : β → Text}
    {entries : List β}
    (habsent : ∀ entry ∈ entries, name entry ∉ tokens isTokenChar line) :
    entries.foldl
      (fun line entry => replacetoken line (name entry) (text entry)) line =
        line := by
  induction entries with
  | nil => rfl
  | cons entry rest ih =>
    rw [foldl_cons, replacetoken_absent _ (habsent entry (by simp))]
    exact ih (fun other hother => habsent other (by simp [hother]))

namespace SoleLabel

variable {script : Script} {label : ℕ} {line : Text}

theorem replaceNames_eq (hsole : SoleLabel script label line) :
    replaceNames script line = line := by
  simp only [replaceNames, replaceAllocs, replaceDefines,
    foldl_replacetoken_absent hsole.allocs,
    foldl_replacetoken_absent hsole.kallocs,
    foldl_replacetoken_absent hsole.defines]

theorem unique (hsole : SoleLabel script label line) {other : ℕ}
    (hother : SoleLabel script other line) : label = other := by
  obtain ⟨declaration, hdeclaration, htoken, hfirst⟩ := hsole.labels
  obtain ⟨otherDeclaration, hotherDeclaration, hotherToken, hotherFirst⟩ :=
    hother.labels
  have hle := (hfirst other otherDeclaration hotherDeclaration hotherToken).1
  have hge := (hotherFirst label declaration hdeclaration htoken).1
  omega

theorem split (hsole : SoleLabel script label line) {β : Type*}
    (declare : β → LabelDeclaration) {labels : List β}
    (hlabels : labels.map declare = script.labels) :
    ∃ before found after, labels = before ++ found :: after ∧
      before.length = label ∧
      (∀ other ∈ before, (declare other).labelname ∉ tokens isTokenChar line) ∧
      (declare found).labelname ∈ tokens isTokenChar line ∧
      ∀ other ∈ after,
        (declare other).labelname ∈ tokens isTokenChar line →
        (declare other).labelname = (declare found).labelname := by
  obtain ⟨declaration, hdeclaration, htoken, hfirst⟩ := hsole.labels
  rw [← hlabels, getElem?_map, Option.map_eq_some_iff] at hdeclaration
  obtain ⟨found, hfound, hdeclare⟩ := hdeclaration
  have hbound : label < labels.length :=
    (List.getElem?_eq_some_iff.mp hfound).1
  have hvalue : labels[label] = found :=
    (List.getElem?_eq_some_iff.mp hfound).2
  have hother : ∀ (other : ℕ) (value : β), labels[other]? = some value →
      (declare value).labelname ∈ tokens isTokenChar line →
      label ≤ other ∧
        (declare value).labelname = (declare found).labelname := by
    intro other value hget hmem
    rw [hdeclare]
    apply hfirst other (declare value) _ hmem
    rw [← hlabels, getElem?_map, hget]
    rfl
  refine ⟨labels.take label, found, labels.drop (label + 1), ?_, ?_, ?_, ?_,
    ?_⟩
  · rw [← hvalue, getElem_cons_drop, take_append_drop]
  · rw [length_take]
    omega
  · intro value hmem htokens
    obtain ⟨other, hlt, hget⟩ := mem_take_iff_getElem.mp hmem
    have hget' : labels[other]? = some value :=
      List.getElem?_eq_some_iff.mpr ⟨by omega, hget⟩
    have hle := (hother other value hget' htokens).1
    omega
  · rw [hdeclare]
    exact htoken
  · intro value hmem htokens
    have hmem' := mem_of_mem_drop hmem
    obtain ⟨other, hlt, hget⟩ := mem_iff_getElem.mp hmem'
    exact (hother other value
      (List.getElem?_eq_some_iff.mpr ⟨hlt, hget⟩) htokens).2

end SoleLabel

theorem replaceLabels_absent (shown : KnownLabel → Option Text)
    (habsent : ∀ label ∈ labels, label.labelname ∉ tokens isTokenChar line) :
    replaceLabels shown labels line = line := by
  induction labels with
  | nil => rfl
  | cons label labels ih =>
    have hrest := ih (fun other hother => habsent other (by simp [hother]))
    unfold replaceLabels
    cases shown label with
    | none => exact hrest
    | some text =>
      simp only
      rw [replacetoken_absent _ (habsent label (by simp))]
      exact hrest

theorem replaceLabels_append (shown : KnownLabel → Option Text)
    (before after : List KnownLabel) (line : Text) :
    replaceLabels shown (before ++ after) line =
      replaceLabels shown after (replaceLabels shown before line) := by
  induction before generalizing line with
  | nil => rfl
  | cons label before ih =>
    simp only [cons_append, replaceLabels]
    cases shown label with
    | none => exact ih line
    | some text => exact ih _

theorem unresolved_append_absent {before after : List KnownLabel}
    (habsent : ∀ label ∈ before, label.labelname ∉ tokens isTokenChar line) :
    unresolved (before ++ after) line = unresolved after line := by
  induction before with
  | nil => rfl
  | cons label before ih =>
    have hhead := habsent label (by simp)
    have hrest := ih (fun other hother => habsent other (by simp [hother]))
    rw [cons_append, unresolved]
    cases label.value with
    | none => simp [tokencheck_eq_false hhead, hrest]
    | some address =>
      simp only
      rw [replacetoken_absent _ hhead]
      exact hrest

theorem unresolved_absent
    (habsent : ∀ label ∈ labels, label.labelname ∉ tokens isTokenChar line) :
    unresolved labels line = false := by
  rw [← append_nil labels, unresolved_append_absent habsent]
  rfl

section

variable {before after : List KnownLabel} {found : KnownLabel} {line : Text}
  (hbefore : ∀ label ∈ before, label.labelname ∉ tokens isTokenChar line)
  (hfound : found.labelname ∈ tokens isTokenChar line)
  (hafter : ∀ label ∈ after, label.labelname ∈ tokens isTokenChar line →
    label.labelname = found.labelname)

include hfound in
theorem NamesApart.later_ne {shown : KnownLabel → Option Text} {text : Text}
    (hapart : NamesApart shown (before ++ found :: after) line)
    (hshown : shown found = some text) :
    ∀ label ∈ after, label.labelname ≠ text := by
  have hrest := (pairwise_append.mp hapart).2.1
  exact fun label hlabel =>
    (pairwise_cons.mp hrest).1 label hlabel hfound text hshown

include hafter in
theorem absent_after_replaced {address : UInt64}
    (hnames : ∀ label ∈ after, label.labelname ≠ addressText address) :
    ∀ label ∈ after, label.labelname ∉ tokens isTokenChar
      (replacetoken line found.labelname (addressText address)) := by
  intro label hlabel hmem
  obtain ⟨hold, hdistinct⟩ := mem_tokens_replaced hmem (hnames label hlabel)
  exact hdistinct (hafter label hlabel hold)

include hbefore hfound hafter

theorem replaceLabels_sole {shown : KnownLabel → Option Text}
    (hapart : NamesApart shown (before ++ found :: after) line)
    {address : UInt64} (hshown : shown found = some (addressText address)) :
    replaceLabels shown (before ++ found :: after) line =
      replacetoken line found.labelname (addressText address) := by
  rw [replaceLabels_append, replaceLabels_absent shown hbefore,
    replaceLabels, hshown]
  exact replaceLabels_absent shown
    (absent_after_replaced hafter (hapart.later_ne hfound hshown))

omit hafter in
theorem unresolved_sole_none (hvalue : found.value = none) :
    unresolved (before ++ found :: after) line = true := by
  rw [unresolved_append_absent hbefore, unresolved, hvalue]
  simp [(tokencheck_iff line found.labelname).mpr hfound]

theorem unresolved_sole_some
    (hapart : NamesApart valueText (before ++ found :: after) line)
    {address : UInt64} (hvalue : found.value = some address) :
    unresolved (before ++ found :: after) line = false := by
  rw [unresolved_append_absent hbefore, unresolved, hvalue]
  exact unresolved_absent (absent_after_replaced hafter
    (hapart.later_ne hfound (by rw [valueText, hvalue]; rfl)))

end

/-! ## Labels that become known -/

def Extends (labels later : List KnownLabel) : Prop :=
  List.Forall₂
    (fun label later =>
      label.toLabelDeclaration = later.toLabelDeclaration ∧
        ∀ address, label.value = some address → later.value = some address)
    labels later

theorem Extends.refl (labels : List KnownLabel) : Extends labels labels := by
  unfold Extends
  apply forall₂_same.mpr
  intro label hlabel
  exact ⟨rfl, fun address hvalue => hvalue⟩

theorem Extends.trans {later last : List KnownLabel}
    (hlater : Extends labels later) (hlast : Extends later last) :
    Extends labels last := by
  unfold Extends at *
  induction hlater generalizing last with
  | nil =>
    cases hlast
    exact List.Forall₂.nil
  | cons hhead htail ih =>
    cases hlast with
    | cons hhead' htail' =>
      exact List.Forall₂.cons
        ⟨hhead.1.trans hhead'.1,
          fun address hvalue => hhead'.2 _ (hhead.2 _ hvalue)⟩
        (ih htail')

theorem Extends.resolve_eq {later : List KnownLabel}
    (hextends : Extends labels later)
    (hresolved : unresolved labels line = false) :
    unresolved later line = false ∧
      resolve later line = resolve labels line := by
  unfold Extends at hextends
  induction hextends generalizing line with
  | nil => exact ⟨rfl, rfl⟩
  | @cons label laterLabel labels later hhead htail ih =>
    obtain ⟨hdeclaration, hvalue⟩ := hhead
    have hname : label.labelname = laterLabel.labelname :=
      congrArg LabelDeclaration.labelname hdeclaration
    unfold unresolved at hresolved
    unfold unresolved resolve replaceLabels
    cases hknown : label.value with
    | some address =>
      rw [hknown] at hresolved
      rw [hvalue address hknown, ← hname]
      exact ih hresolved
    | none =>
      rw [hknown] at hresolved
      simp only [Bool.or_eq_false_iff] at hresolved
      obtain ⟨hcheck, hrest⟩ := hresolved
      have habsent :
          laterLabel.labelname ∉ tokens isTokenChar line := by
        rw [← hname, ← tokencheck_iff, hcheck]
        simp
      cases hlaterKnown : laterLabel.value with
      | none =>
        rw [← hname]
        simp only [hcheck, Bool.false_or, Option.map_none]
        exact ih hrest
      | some address =>
        simp only [Option.map_some, Option.map_none]
        rw [replacetoken_absent _ habsent]
        exact ih hrest

theorem NamesApart.tail {label : KnownLabel}
    {shown : KnownLabel → Option Text} {address : UInt64}
    (hapart : NamesApart shown (label :: labels) line)
    (hshown : shown label = some (addressText address)) :
    NamesApart shown labels
        (replacetoken line label.labelname (addressText address)) ∧
      ∀ later ∈ labels, later.labelname ∈ tokens isTokenChar
          (replacetoken line label.labelname (addressText address)) →
        later.labelname ∈ tokens isTokenChar line ∧
          later.labelname ≠ label.labelname := by
  obtain ⟨hhead, hrest⟩ := pairwise_cons.mp hapart
  by_cases htoken : label.labelname ∈ tokens isTokenChar line
  · have hlater (later : KnownLabel) (hmem : later ∈ labels)
        (htokens : later.labelname ∈ tokens isTokenChar
          (replacetoken line label.labelname (addressText address))) :=
      mem_tokens_replaced htokens (hhead later hmem htoken _ hshown)
    exact ⟨hrest.imp_of_mem fun hfirst _ hnot hmem =>
      hnot (hlater _ hfirst hmem).1, hlater⟩
  · rw [replacetoken_absent _ htoken]
    refine ⟨hrest, fun later _ hmem => ⟨hmem, fun hequal => ?_⟩⟩
    exact htoken (hequal ▸ hmem)

theorem unresolved_settled (hapart : NamesApart valueText labels line)
    (hsettled : ∀ (position : ℕ) (label : KnownLabel),
      labels[position]? = some label →
      label.labelname ∈ tokens isTokenChar line →
      ∃ other ∈ labels.take (position + 1),
        other.labelname = label.labelname ∧ other.value ≠ none) :
    unresolved labels line = false := by
  induction labels generalizing line with
  | nil => rfl
  | cons label labels ih =>
    have hlater (position : ℕ) (later : KnownLabel)
        (hget : labels[position]? = some later)
        (htoken : later.labelname ∈ tokens isTokenChar line) :
        (label.labelname = later.labelname ∧ label.value ≠ none) ∨
          ∃ other ∈ labels.take (position + 1),
            other.labelname = later.labelname ∧ other.value ≠ none := by
      obtain ⟨other, hother, hknown⟩ :=
        hsettled (position + 1) later (by simpa using hget) htoken
      rcases mem_cons.mp hother with rfl | hother
      · exact Or.inl hknown
      · exact Or.inr ⟨other, hother, hknown⟩
    unfold unresolved
    cases hvalue : label.value with
    | some address =>
      obtain ⟨hrest, hlaterTokens⟩ :=
        @hapart.tail _ _ _ _ address (by rw [valueText, hvalue]; rfl)
      refine ih hrest fun position later hget htoken => ?_
      obtain ⟨hold, hdistinct⟩ :=
        hlaterTokens later (mem_of_getElem? hget) htoken
      exact (hlater position later hget hold).resolve_left
        fun hfirst => hdistinct hfirst.1.symm
    | none =>
      have habsent : label.labelname ∉ tokens isTokenChar line := by
        intro htoken
        obtain ⟨other, hother, -, hknown⟩ := hsettled 0 label rfl htoken
        rw [mem_singleton.mp hother] at hknown
        exact hknown hvalue
      simp only [tokencheck_eq_false habsent, Bool.false_or]
      refine ih (pairwise_cons.mp hapart).2
        fun position later hget htoken => ?_
      exact (hlater position later hget htoken).resolve_left
        fun hfirst => hfirst.2 hvalue

theorem defineKnown_some {index : ℕ} {currentaddress : UInt64}
    {later : List KnownLabel}
    (hdefine : defineKnown index currentaddress labels = some later) :
    ∃ place found, labels[place]? = some found ∧
      found.assemblerline = index ∧
      (∀ (other : ℕ) (label : KnownLabel), labels[other]? = some label →
        label.assemblerline = index → place ≤ other) ∧
      later =
        labels.set place { found with value := some currentaddress } := by
  induction labels generalizing later with
  | nil => simp [defineKnown] at hdefine
  | cons label labels ih =>
    unfold defineKnown at hdefine
    split at hdefine
    · next hindex =>
        exact ⟨0, label, rfl, hindex.symm, fun _ _ _ _ => Nat.zero_le _,
          (Option.some.inj hdefine).symm⟩
    · next hindex =>
        obtain ⟨rest, hrest, rfl⟩ := Option.map_eq_some_iff.mp hdefine
        obtain ⟨place, found, hfound, hline, hfirst, rfl⟩ := ih hrest
        refine ⟨place + 1, found, hfound, hline, ?_, rfl⟩
        intro other later hlater hat
        cases other with
        | zero =>
          obtain rfl : label = later := by simpa using hlater
          exact absurd hat.symm hindex
        | succ other => exact Nat.succ_le_succ (hfirst other later hlater hat)

theorem defineKnown_none {index : ℕ} {currentaddress : UInt64}
    (hdefine : defineKnown index currentaddress labels = none) :
    ∀ label ∈ labels, label.assemblerline ≠ index := by
  induction labels with
  | nil => simp
  | cons label labels ih =>
    unfold defineKnown at hdefine
    split at hdefine
    · simp at hdefine
    · next hindex =>
        intro other hother
        rcases mem_cons.mp hother with hhead | htail
        · rw [hhead]
          exact fun hequal => hindex hequal.symm
        · exact ih (Option.map_eq_none_iff.mp hdefine) other htail

theorem forall₂_set {α β : Type*} {related : α → β → Prop} {left : List α}
    {right : List β} (hrelated : List.Forall₂ related left right)
    {position : ℕ} {first : α} {second : β}
    (hfirst : left[position]? = some first) (hnew : related first second) :
    List.Forall₂ related left (right.set position second) := by
  induction hrelated generalizing position with
  | nil => simp at hfirst
  | cons hhead htail ih =>
    cases position with
    | zero =>
      simp only [getElem?_cons_zero, Option.some.injEq] at hfirst
      rw [hfirst]
      exact List.Forall₂.cons hnew htail
    | succ position =>
      exact List.Forall₂.cons hhead (ih (by simpa using hfirst))

theorem map_set_eq {α β : Type*} {f : α → β} {list : List α} {place : ℕ}
    {old new : α} (hold : list[place]? = some old) (hnew : f new = f old) :
    (list.set place new).map f = list.map f := by
  obtain ⟨hlt, rfl⟩ := List.getElem?_eq_some_iff.mp hold
  rw [map_set, hnew, ← map_set, set_getElem_self]

/-- The labels after the lines before `index`. -/
structure Laid (script : Script) (index : ℕ) (labels : List KnownLabel) :
    Prop where
  declared : labels.map KnownLabel.toLabelDeclaration = script.labels
  past : ∀ label ∈ labels, label.value ≠ none → label.assemblerline < index
  defined : ∀ (position earlier : ℕ) (label : KnownLabel),
    earlier < index → DefinedAt script position earlier →
    labels[position]? = some label → label.value ≠ none

namespace Laid

variable {script : Script} {index : ℕ} {labels : List KnownLabel}

theorem initial : Laid script 0 (initialLayout script).labels := by
  constructor
  · simp [initialLayout, Function.comp_def]
  · intro label hlabel hvalue
    simp only [initialLayout, mem_map] at hlabel
    obtain ⟨declaration, hdeclaration, hlabel⟩ := hlabel
    rw [← hlabel] at hvalue
    simp at hvalue
  · intro position earlier label hearlier
    omega

theorem declaration_get (hlaid : Laid script index labels) {position : ℕ}
    {label : KnownLabel} (hlabel : labels[position]? = some label) :
    script.labels[position]? = some label.toLabelDeclaration := by
  rw [← hlaid.declared, getElem?_map, hlabel]
  rfl

theorem skip (hlaid : Laid script index labels)
    (hother : ∀ position, ¬ DefinedAt script position index) :
    Laid script (index + 1) labels := by
  constructor
  · exact hlaid.declared
  · intro label hlabel hvalue
    have hpast := hlaid.past label hlabel hvalue
    omega
  · intro position earlier label hearlier hdefined hlabel
    have hne : earlier ≠ index := by
      rintro rfl
      exact hother position hdefined
    exact hlaid.defined position earlier label (by omega) hdefined hlabel

theorem define (hlaid : Laid script index labels)
    {currentaddress : UInt64} {later : List KnownLabel}
    (hdefine : defineKnown index currentaddress labels = some later) :
    Laid script (index + 1) later ∧ Extends labels later := by
  obtain ⟨place, found, hfound, hline, hfirst, rfl⟩ :=
    defineKnown_some hdefine
  have hbound := (List.getElem?_eq_some_iff.mp hfound).1
  refine ⟨⟨(map_set_eq hfound (by rfl)).trans hlaid.declared, ?_, ?_⟩,
    forall₂_set (Extends.refl labels) hfound ⟨rfl, ?_⟩⟩
  · intro label hlabel hvalue
    rcases mem_or_eq_of_mem_set hlabel with hmem | rfl
    · exact (hlaid.past label hmem hvalue).trans (Nat.lt_succ_self index)
    · exact hline.trans_lt (Nat.lt_succ_self index)
  · intro position earlier label hearlier hdefined hlabel
    by_cases hplace : place = position
    · rw [← hplace, getElem?_set_self hbound] at hlabel
      rw [← Option.some.inj hlabel]
      simp
    · rw [getElem?_set_ne hplace] at hlabel
      refine hlaid.defined position earlier label ?_ hdefined hlabel
      obtain ⟨declaration, line, hdeclaration, hat, -, -, hlast⟩ := hdefined
      obtain rfl := Option.some.inj
        (hdeclaration.symm.trans (hlaid.declaration_get hlabel))
      by_contra hlate
      have hequal : earlier = index := by omega
      exact hplace (le_antisymm
        (hfirst position label hlabel (hat.trans hequal))
        (hlast place found.toLabelDeclaration
          (hlaid.declaration_get hfound) (hline.trans hequal.symm)))
  · intro address hvalue
    have hpast := hlaid.past found (mem_of_getElem? hfound)
      (by simp [hvalue])
    exact absurd hline hpast.ne

end Laid

/-! ## The labels of one line in the pass -/

def Label.known (label : Label) : KnownLabel where
  toLabelDeclaration := label.toLabelDeclaration
  value := if label.defined then some label.address else none

section

variable {tools : Tools} {script : Script} {index : ℕ}

variable {labels : List Label} {state : LineState}

theorem referenceLabels_append_absent {before after : List Label}
    (habsent : ∀ label ∈ before,
      label.labelname ∉ tokens isTokenChar state.currentline) :
    referenceLabels tools script index (before ++ after) state =
      (referenceLabels tools script index after state).map
        (fun rest => (before ++ rest.1, rest.2)) := by
  induction before with
  | nil => simp
  | cons label before ih =>
    have hcheck := tokencheck_eq_false (habsent label (by simp))
    have hrest := ih (fun other hother => habsent other (by simp [hother]))
    simp only [cons_append, referenceLabels, referenceLabel, hcheck,
      Bool.false_eq_true, if_false, Option.bind_eq_bind, Option.bind_some,
      hrest]
    cases referenceLabels tools script index after state <;> rfl

theorem referenceLabels_absent (habsent : ∀ label ∈ labels,
      label.labelname ∉ tokens isTokenChar state.currentline) :
    referenceLabels tools script index labels state =
      some (labels, state) := by
  rw [← append_nil labels, referenceLabels_append_absent habsent]
  rfl

theorem referenceLabels_resolved (hresolved :
      unresolved (labels.map Label.known) state.currentline = false) :
    referenceLabels tools script index labels state =
      some (labels, { state with
        currentline :=
          resolve (labels.map Label.known) state.currentline }) := by
  induction labels generalizing state with
  | nil => rfl
  | cons label labels ih =>
    simp only [map_cons] at hresolved ⊢
    unfold unresolved at hresolved
    unfold resolve replaceLabels
    cases hdefined : label.defined with
    | false =>
      have hvalue : (Label.known label).value = none := by
        simp [Label.known, hdefined]
      rw [hvalue] at hresolved
      simp only [Bool.or_eq_false_iff] at hresolved
      obtain ⟨hcheck, hrest⟩ := hresolved
      have hcheck' :
          tokencheck state.currentline label.labelname = false := hcheck
      rw [hvalue]
      simp only [referenceLabels, referenceLabel, hcheck',
        Bool.false_eq_true, if_false, Option.bind_eq_bind,
        Option.bind_some, Option.map_none, ih hrest]
      rfl
    | true =>
      have hvalue : (Label.known label).value = some label.address := by
        simp [Label.known, hdefined]
      rw [hvalue] at hresolved
      have hstep : referenceLabel tools script index label state =
          some (label, { state with
            currentline := replacetoken state.currentline
              label.labelname (addressText label.address) }) := by
        unfold referenceLabel
        by_cases hcheck :
            tokencheck state.currentline label.labelname = true
        · simp [hcheck, hdefined]
        · rw [if_neg hcheck, replacetoken_absent]
          rw [← tokencheck_iff]
          exact hcheck
      rw [hvalue]
      simp only [referenceLabels, hstep, Option.bind_eq_bind,
        Option.bind_some, Option.map_some]
      rw [ih hresolved]
      rfl

theorem known_labelname (label : Label) :
    label.known.labelname = label.labelname := rfl

theorem referenceLabels_forward {before after : List Label} {found : Label}
    (hbefore : ∀ label ∈ before,
      label.labelname ∉ tokens isTokenChar state.currentline)
    (hfound : found.labelname ∈ tokens isTokenChar state.currentline)
    (hafter : ∀ label ∈ after,
      label.labelname ∈ tokens isTokenChar state.currentline →
      label.labelname = found.labelname)
    (hnames : ∀ label ∈ after, label.labelname ≠
      addressText (state.currentaddress + farDistance script))
    (hdefined : found.defined = false) :
    referenceLabels tools script index (before ++ found :: after) state =
      (reserve tools
        (replacetoken state.currentline found.labelname
          (addressText state.currentaddress))
        (replacetoken state.currentline found.labelname
          (addressText (state.currentaddress + farDistance script)))
        state.currentaddress).map (fun bytes =>
          (before ++ { found with
              references := found.references ++
                [⟨state.assembled.length, index⟩] } :: after,
            { currentline := replacetoken state.currentline found.labelname
                (addressText (state.currentaddress + farDistance script))
              currentaddress :=
                state.currentaddress + UInt64.ofNat bytes.length
              assembled :=
                state.assembled ++ [⟨state.currentaddress, bytes⟩]
              ok1 := true })) := by
  have hcheck : tokencheck state.currentline found.labelname = true :=
    (tokencheck_iff _ _).mpr hfound
  rw [referenceLabels_append_absent hbefore]
  simp only [referenceLabels, referenceLabel, hcheck,
    hdefined, if_true, Bool.not_false, Option.bind_eq_bind]
  cases reserve tools
      (replacetoken state.currentline found.labelname
        (addressText state.currentaddress))
      (replacetoken state.currentline found.labelname
        (addressText (state.currentaddress + farDistance script)))
      state.currentaddress with
  | none => rfl
  | some bytes =>
    have hrest : ∀ label ∈ after, label.labelname ∉ tokens isTokenChar
        (replacetoken state.currentline found.labelname
          (addressText
            (state.currentaddress + farDistance script))) := by
      intro label hlabel hmem
      obtain ⟨hold, hdistinct⟩ :=
        mem_tokens_replaced hmem (hnames label hlabel)
      exact hdistinct (hafter label hlabel hold)
    simp only [Option.bind_some, Option.map_some]
    rw [referenceLabels_absent hrest]
    rfl

theorem defineKnown_map (currentaddress : UInt64) (labels : List Label) :
    defineKnown index currentaddress (labels.map Label.known) =
      (defineLabel index currentaddress labels).map
        (fun result => result.1.map Label.known) := by
  induction labels with
  | nil => rfl
  | cons label labels ih =>
    simp only [map_cons, defineKnown, defineLabel]
    by_cases hindex : index = label.assemblerline
    · have hindex' : index = label.known.assemblerline := hindex
      rw [if_pos hindex, if_pos hindex']
      simp [Label.known]
    · have hindex' : ¬ index = label.known.assemblerline := hindex
      rw [if_neg hindex, if_neg hindex', ih]
      cases defineLabel index currentaddress labels with
      | none => rfl
      | some result => rfl

theorem defineLabel_some {currentaddress : UInt64} {later : List Label}
    {label : Label}
    (hdefine : defineLabel index currentaddress labels = some (later, label)) :
    ∃ place found, labels[place]? = some found ∧
      found.assemblerline = index ∧
      label = { found with address := currentaddress, defined := true } ∧
      later = labels.set place label := by
  induction labels generalizing later with
  | nil => simp [defineLabel] at hdefine
  | cons head labels ih =>
    unfold defineLabel at hdefine
    split at hdefine
    · next hindex =>
        obtain ⟨rfl, rfl⟩ := Prod.mk.inj (Option.some.inj hdefine)
        exact ⟨0, head, rfl, hindex.symm, rfl, rfl⟩
    · obtain ⟨⟨rest, last⟩, hrest, hresult⟩ :=
        Option.map_eq_some_iff.mp hdefine
      obtain ⟨rfl, rfl⟩ := Prod.mk.inj hresult
      obtain ⟨place, found, hfound, hline, hlabel, hlater⟩ := ih hrest
      exact ⟨place + 1, found, hfound, hline, hlabel,
        congrArg (head :: ·) hlater⟩

end

/-! ## Lines that wait for their label -/

section

variable (tools : Tools) (script : Script)

structure Waits (label : ℕ) (item : Item) : Prop where
  forward : item.forward = true
  source : script.assemblerlines[item.line]? = some item.text
  sole : SoleLabel script label item.text

/-- The conditions for the items of a layout. -/
def Clear (labels : List KnownLabel) (items : List Item) : Prop :=
  ∀ item ∈ items, NamesApart valueText labels item.text ∧
    FitsRoom tools script labels item

/-- The entry has the address and the size of the item. -/
def Placed (item : Item) (entry : Assembled) : Prop :=
  entry.address = item.address ∧ entry.bytes.length = item.size

structure Agrees (index : ℕ) (layout : Layout) (state : State) : Prop where
  laid : Laid script index layout.labels
  currentaddress : state.currentaddress = layout.currentaddress
  labels : state.labels.map Label.known = layout.labels
  placed : List.Forall₂ Placed layout.items state.assembled
  kinds : ∀ item ∈ layout.items,
    unresolved layout.labels item.text = false ∨
      ∃ label definition, Waits script label item ∧
        DefinedAt script label definition
  settled : ∀ (position : ℕ) (item : Item) (entry : Assembled),
    layout.items[position]? = some item →
    state.assembled[position]? = some entry →
    unresolved layout.labels item.text = false →
    emit tools script layout.labels item = some entry
  referenced : ∀ (position : ℕ) (label : Label),
    state.labels[position]? = some label → label.defined = false →
    ∀ reference ∈ label.references, ∃ item,
      layout.items[reference.entry]? = some item ∧
      item.line = reference.line ∧ Waits script position item
  recorded : ∀ (position : ℕ) (label : Label),
    state.labels[position]? = some label → label.defined = false →
    ∀ (entry : ℕ) (item : Item), layout.items[entry]? = some item →
      Waits script position item →
      ∃ reference ∈ label.references, reference.entry = entry

variable {tools script} {index : ℕ}

variable {labels : List KnownLabel} {item : Item} {position : ℕ}
  {entry : Assembled} {line : Text} {layout : Layout} {state : State}

theorem emit_extends {later : List KnownLabel}
    (hextends : Extends labels later)
    (hresolved : unresolved labels item.text = false) :
    emit tools script later item = emit tools script labels item := by
  unfold emit encode
  rw [(hextends.resolve_eq hresolved).2]

namespace SoleLabel

variable {label : ℕ} {line : Text} {labels : List KnownLabel}
  {known : KnownLabel}

section

variable (hsole : SoleLabel script label line)
  (hlaid : Laid script index labels)

include hsole hlaid

theorem split_known (hknown : labels[label]? = some known) :
    ∃ before after, labels = before ++ known :: after ∧
      (∀ other ∈ before, other.labelname ∉ tokens isTokenChar line) ∧
      known.labelname ∈ tokens isTokenChar line ∧
      ∀ other ∈ after, other.labelname ∈ tokens isTokenChar line →
        other.labelname = known.labelname := by
  obtain ⟨before, found, after, hlabels, hlength, hbefore, hfound, hafter⟩ :=
    hsole.split _ hlaid.declared
  have hsame : found = known := by
    rw [hlabels, ← hlength] at hknown
    simpa using hknown
  subst hsame
  exact ⟨before, after, hlabels, hbefore, hfound, hafter⟩

theorem unresolved_none (hknown : labels[label]? = some known)
    (hvalue : known.value = none) :
    unresolved labels line = true := by
  obtain ⟨before, after, hlabels, hbefore, hfound, -⟩ :=
    hsole.split_known hlaid hknown
  rw [hlabels]
  exact unresolved_sole_none hbefore hfound hvalue

theorem resolved_some (hapart : NamesApart valueText labels line)
    {address : UInt64} (hknown : labels[label]? = some known)
    (hvalue : known.value = some address) :
    unresolved labels line = false ∧
      resolve labels line =
        replacetoken line known.labelname (addressText address) := by
  obtain ⟨before, after, hlabels, hbefore, hfound, hafter⟩ :=
    hsole.split_known hlaid hknown
  rw [hlabels] at hapart ⊢
  refine ⟨unresolved_sole_some hbefore hfound hafter hapart hvalue, ?_⟩
  exact replaceLabels_sole hbefore hfound hafter hapart
    (by rw [valueText, hvalue]; rfl)

theorem guess_eq {address : UInt64}
    (hapart : NamesApart (guessText address) labels line)
    (hknown : labels[label]? = some known) (hvalue : known.value = none) :
    guess labels address line =
      replacetoken line known.labelname (addressText address) := by
  obtain ⟨before, after, hlabels, hbefore, hfound, hafter⟩ :=
    hsole.split_known hlaid hknown
  rw [hlabels] at hapart ⊢
  exact replaceLabels_sole hbefore hfound hafter hapart
    (by rw [guessText, hvalue]; rfl)

end

end SoleLabel

theorem reassemble_eq (hapart : NamesApart valueText labels item.text)
    (hfits : FitsRoom tools script labels item)
    (hlaid : Laid script index labels)
    {label : Label} (hdefined : label.defined = true)
    (hlabel : labels[position]? = some label.known)
    (hwaits : Waits script position item) {reference : Reference}
    (hline : item.line = reference.line) {assembled : List Assembled}
    (hentry : assembled[reference.entry]? = some entry)
    (hplaced : Placed item entry) :
    reassemble tools script label assembled reference =
      (emit tools script labels item).map
        (fun entry => assembled.set reference.entry entry) := by
  have hvalue : label.known.value = some label.address := by
    simp [Label.known, hdefined]
  obtain ⟨hresolved, hresolve⟩ :=
    hwaits.sole.resolved_some hlaid hapart hlabel hvalue
  have hsource := hwaits.source
  rw [hline] at hsource
  have hroom := hfits hwaits.forward hresolved
  rw [hresolve] at hroom
  unfold reassemble emit encode
  rw [hentry, hsource, hresolve, hwaits.forward]
  simp only [Option.bind_eq_bind, Option.bind_some, if_true,
    known_labelname, hplaced.1]
  cases hbytes : tools.assemble
      (replacetoken item.text label.labelname (addressText label.address))
      item.address (referencePreference script) false with
  | none => rfl
  | some bytes =>
    have htake : bytes.take item.size = bytes :=
      take_of_length_le (hroom bytes hbytes)
    simp only [Option.bind_some, Option.map_some, fillReserved, hplaced.2, htake]

theorem nops_length (count : ℕ) : (nops script count).length = count := by
  unfold nops
  cases script.systemArchitecture with
  | archX86 => simp
  | archArm =>
    simp only [length_take, length_flatten, map_replicate,
      sum_replicate, length_cons, length_nil, smul_eq_mul]
    omega

theorem emit_placed (hfits : FitsRoom tools script labels item)
    (hforward : item.forward = true)
    (hresolved : unresolved labels item.text = false)
    (hemit : emit tools script labels item = some entry) :
    Placed item entry := by
  unfold emit encode at hemit
  rw [hforward, if_pos rfl] at hemit
  obtain ⟨bytes, hbytes, hentry⟩ := Option.map_eq_some_iff.mp hemit
  have hroom := hfits hforward hresolved bytes hbytes
  rw [← hentry]
  refine ⟨rfl, ?_⟩
  rw [length_append, nops_length]
  omega

theorem foldlM_reassemble {items : List Item}
    (hclear : Clear tools script labels items)
    (hlaid : Laid script index labels)
    {label : Label} (hdefined : label.defined = true)
    (hlabel : labels[position]? = some label.known)
    (references : List Reference)
    (hreferences : ∀ reference ∈ references, ∃ item,
      items[reference.entry]? = some item ∧
      item.line = reference.line ∧ Waits script position item)
    {assembled : List Assembled}
    (hplaced : List.Forall₂ Placed items assembled) :
    match references.foldlM (reassemble tools script label) assembled with
    | none => ∃ item ∈ items, Waits script position item ∧
        emit tools script labels item = none
    | some later =>
      List.Forall₂ Placed items later ∧
      ∀ (entry : ℕ) (item : Item) (value : Assembled),
        items[entry]? = some item → later[entry]? = some value →
        ((∃ reference ∈ references, reference.entry = entry) ∧
          emit tools script labels item = some value) ∨
        ((∀ reference ∈ references, reference.entry ≠ entry) ∧
          assembled[entry]? = some value) := by
  induction references generalizing assembled with
  | nil =>
    simp only [foldlM_nil, Option.pure_def]
    refine ⟨hplaced, ?_⟩
    intro entry item value hitem hvalue
    exact Or.inr ⟨by simp, hvalue⟩
  | cons reference references ih =>
    obtain ⟨item, hitem, hline, hwaits⟩ :=
      hreferences reference (by simp)
    have hbound : reference.entry < items.length :=
      (List.getElem?_eq_some_iff.mp hitem).1
    have hbound' : reference.entry < assembled.length := by
      rw [← List.Forall₂.length_eq hplaced]
      exact hbound
    have hentry := getElem?_eq_getElem hbound'
    have hrelated :=
      (forall₂_iff_get.mp hplaced).2 reference.entry hbound hbound'
    have hitem' := (List.getElem?_eq_some_iff.mp hitem).2
    simp only [get_eq_getElem, hitem'] at hrelated
    obtain ⟨hapart, hfits⟩ := hclear item (mem_of_getElem? hitem)
    have hstep := reassemble_eq hapart hfits hlaid hdefined hlabel
      hwaits hline hentry hrelated
    rw [foldlM_cons, hstep]
    cases hemit : emit tools script labels item with
    | none =>
      exact ⟨item, mem_of_getElem? hitem, hwaits, hemit⟩
    | some value =>
      have hplaced' : List.Forall₂ Placed items
          (assembled.set reference.entry value) := by
        have hknown : label.known.value = some label.address := by
          simp [Label.known, hdefined]
        exact forall₂_set hplaced hitem (emit_placed hfits hwaits.forward
          (hwaits.sole.resolved_some hlaid hapart hlabel hknown).1 hemit)
      have hrest := ih
        (fun other hother => hreferences other (by simp [hother]))
        hplaced'
      simp only [Option.map_some, Option.bind_eq_bind, Option.bind_some]
      cases hfold : references.foldlM (reassemble tools script label)
          (assembled.set reference.entry value) with
      | none =>
        rw [hfold] at hrest
        exact hrest
      | some later =>
        rw [hfold] at hrest
        refine ⟨hrest.1, ?_⟩
        intro entry other result hother hresult
        rcases hrest.2 entry other result hother hresult with
          ⟨⟨found, hfound, hequal⟩, hemitted⟩ | ⟨hnone, hkept⟩
        · exact Or.inl ⟨⟨found, by simp [hfound], hequal⟩, hemitted⟩
        · by_cases hequal : reference.entry = entry
          · subst hequal
            rw [hitem] at hother
            rw [getElem?_set_self hbound'] at hkept
            have hsame := Option.some.inj hother
            have hvalue := Option.some.inj hkept
            subst hsame hvalue
            exact Or.inl ⟨⟨reference, by simp, rfl⟩, hemit⟩
          · rw [getElem?_set_ne hequal] at hkept
            refine Or.inr ⟨?_, hkept⟩
            intro found hfound
            rcases mem_cons.mp hfound with hhead | htail
            · rw [hhead]
              exact hequal
            · exact hnone found htail

/-! ## One line -/

theorem getElem?_concat_iff {α : Type*} {list : List α} {last value : α} :
    (list ++ [last])[position]? = some value ↔
      list[position]? = some value ∨
        position = list.length ∧ last = value := by
  rcases Nat.lt_trichotomy position list.length with hlt | rfl | hgt
  · simp [getElem?_append_left hlt, hlt.ne]
  · simp
  · simp [getElem?_append_right hgt.le, hgt.le, hgt.ne',
      Nat.sub_ne_zero_of_lt hgt]

theorem not_definedAt_of_code {last : Char}
    (hlast : (replaceNames script line).getLast? = some last)
    (hcolon : last ≠ ':') (hline : script.assemblerlines[index]? = some line)
    (position : ℕ) : ¬ DefinedAt script position index := by
  rintro ⟨declaration, other, -, -, hother, hend, -⟩
  rw [hline] at hother
  rw [← Option.some.inj hother, hlast] at hend
  exact hcolon (Option.some.inj hend)

theorem not_definedAt_of_none (hlaid : Laid script index labels)
    {currentaddress : UInt64}
    (hdefine : defineKnown index currentaddress labels = none) (position : ℕ) :
    ¬ DefinedAt script position index := by
  rintro ⟨declaration, other, hdeclaration, hindex, -, -, -⟩
  rw [← hlaid.declared, getElem?_map, Option.map_eq_some_iff] at hdeclaration
  obtain ⟨label, hlabel, hequal⟩ := hdeclaration
  apply defineKnown_none hdefine label (mem_of_getElem? hlabel)
  rw [← hindex, ← hequal]

theorem layoutLine_laid {later : Layout}
    (hline : script.assemblerlines[index]? = some line)
    (hlaid : Laid script index layout.labels)
    (hlayout : layoutLine tools script index line layout = some later) :
    Laid script (index + 1) later.labels ∧
      Extends layout.labels later.labels ∧
      ∃ more, later.items = layout.items ++ more := by
  unfold layoutLine at hlayout
  split at hlayout
  · simp at hlayout
  · next last hlast =>
      split at hlayout
      · split at hlayout
        · next labels hdefine =>
            have hlater := Option.some.inj hlayout
            subst hlater
            obtain ⟨hnext, hextends⟩ := hlaid.define hdefine
            exact ⟨hnext, hextends, [], by simp⟩
        · next hdefine =>
            simp only [Option.bind_eq_bind, Option.bind_eq_some_iff,
              Option.some.injEq] at hlayout
            obtain ⟨currentaddress, -, hlater⟩ := hlayout
            subst hlater
            exact ⟨hlaid.skip (not_definedAt_of_none hlaid hdefine),
              Extends.refl _, [], by simp⟩
      · next hcolon =>
          simp only [Option.bind_eq_bind, Option.bind_eq_some_iff,
            Option.some.injEq] at hlayout
          obtain ⟨size, -, hlater⟩ := hlayout
          subst hlater
          exact ⟨hlaid.skip (not_definedAt_of_code hlast hcolon hline),
            Extends.refl _, _, rfl⟩

/-- A line in the pass against the same line in the layout: both stop, or
both go on, or the pass stops at a line that cannot be emitted. -/
def StepAgrees (tools : Tools) (script : Script) (index : ℕ) :
    Option Layout → Option State → Prop
  | none, state => state = none
  | some layout, none => ∃ item ∈ layout.items,
      unresolved layout.labels item.text = false ∧
      emit tools script layout.labels item = none
  | some layout, some state => Agrees tools script index layout state

section

variable (hagrees : Agrees tools script index layout state)

include hagrees

theorem Agrees.declared :
    state.labels.map Label.toLabelDeclaration = script.labels := by
  rw [← hagrees.laid.declared, ← hagrees.labels, map_map]
  rfl

theorem Agrees.append
    (hnone : ∀ position, ¬ DefinedAt script position index)
    {next : List Label} (hnext : next.map Label.known = layout.labels)
    (hline : item.line = index)
    (hkind : unresolved layout.labels item.text = false ∨
      ∃ label definition, Waits script label item ∧
        DefinedAt script label definition)
    (hplaced : Placed item entry)
    (hemit : unresolved layout.labels item.text = false →
      emit tools script layout.labels item = some entry)
    (hreferences : ∀ (position : ℕ) (label : Label),
      next[position]? = some label → label.defined = false →
      ∃ old, state.labels[position]? = some old ∧ old.defined = false ∧
        ∀ reference, reference ∈ label.references ↔
          reference ∈ old.references ∨
            (reference = ⟨state.assembled.length, index⟩ ∧
              Waits script position item))
    (currentaddress : UInt64) :
    Agrees tools script (index + 1)
      { layout with currentaddress, items := layout.items ++ [item] }
      { currentaddress, labels := next,
        assembled := state.assembled ++ [entry] } := by
  have hlength := List.Forall₂.length_eq hagrees.placed
  constructor
  · exact hagrees.laid.skip hnone
  · rfl
  · exact hnext
  · exact rel_append hagrees.placed
      (List.Forall₂.cons hplaced List.Forall₂.nil)
  · intro other hother
    rcases mem_append.mp hother with hold | hnew
    · exact hagrees.kinds other hold
    · rw [mem_singleton.mp hnew]
      exact hkind
  · intro position other value hother hvalue hknown
    rcases getElem?_concat_iff.mp hother with hother | ⟨rfl, rfl⟩
    · have hbound := (List.getElem?_eq_some_iff.mp hother).1
      rw [getElem?_append_left (by omega)] at hvalue
      exact hagrees.settled position other value hother hvalue hknown
    · rw [hlength, getElem?_concat_length] at hvalue
      rw [← Option.some.inj hvalue]
      exact hemit hknown
  · intro position label hlabel hdefined reference hreference
    obtain ⟨old, hold, hundefined, hiff⟩ :=
      hreferences position label hlabel hdefined
    rcases (hiff reference).mp hreference with hreference | ⟨rfl, hwaits⟩
    · obtain ⟨other, hother, hline, hwaits⟩ := hagrees.referenced position
        old hold hundefined reference hreference
      exact ⟨other, getElem?_concat_iff.mpr (Or.inl hother), hline, hwaits⟩
    · exact ⟨item, getElem?_concat_iff.mpr (Or.inr ⟨hlength.symm, rfl⟩),
        hline, hwaits⟩
  · intro position label hlabel hdefined place other hother hwaits
    obtain ⟨old, hold, hundefined, hiff⟩ :=
      hreferences position label hlabel hdefined
    rcases getElem?_concat_iff.mp hother with hother | ⟨rfl, rfl⟩
    · obtain ⟨reference, hreference, hentry⟩ := hagrees.recorded position
        old hold hundefined place other hother hwaits
      exact ⟨reference, (hiff reference).mpr (Or.inl hreference), hentry⟩
    · exact ⟨_, (hiff _).mpr (Or.inr ⟨rfl, hwaits⟩), hlength.symm⟩

theorem Agrees.append_resolved
    (hnone : ∀ position, ¬ DefinedAt script position index)
    (hline : item.line = index) (hforward : item.forward = false)
    (hresolved : unresolved layout.labels item.text = false)
    (hplaced : Placed item entry)
    (hemit : emit tools script layout.labels item = some entry)
    (currentaddress : UInt64) :
    Agrees tools script (index + 1)
      { layout with currentaddress, items := layout.items ++ [item] }
      { state with
        currentaddress, assembled := state.assembled ++ [entry] } :=
  hagrees.append hnone hagrees.labels hline (Or.inl hresolved) hplaced
    (fun _ => hemit) (fun position label hlabel hdefined =>
      ⟨label, hlabel, hdefined, fun reference => (or_iff_left fun hnew =>
        by simp [hnew.2.forward] at hforward).symm⟩) currentaddress

theorem Agrees.append_waiting
    (hnone : ∀ position, ¬ DefinedAt script position index)
    {place definition : ℕ} {found : Label}
    (hfound : state.labels[place]? = some found)
    (hwaits : Waits script place item) (hline : item.line = index)
    (hdefinition : DefinedAt script place definition)
    (hunresolved : unresolved layout.labels item.text = true)
    (hplaced : Placed item entry) (currentaddress : UInt64) :
    Agrees tools script (index + 1)
      { layout with currentaddress, items := layout.items ++ [item] }
      { currentaddress
        labels := state.labels.set place { found with
          references := found.references ++ [⟨state.assembled.length, index⟩] }
        assembled := state.assembled ++ [entry] } := by
  refine hagrees.append hnone ((map_set_eq hfound (by rfl)).trans hagrees.labels)
    hline (Or.inr ⟨place, definition, hwaits, hdefinition⟩) hplaced
    (fun hresolved => by simp [hunresolved] at hresolved)
    (fun position label hlabel hdefined => ?_) currentaddress
  by_cases hposition : place = position
  · subst hposition
    rw [getElem?_set_self (List.getElem?_eq_some_iff.mp hfound).1]
      at hlabel
    obtain rfl := Option.some.inj hlabel
    exact ⟨found, hfound, hdefined, fun reference => by simp [hwaits]⟩
  · rw [getElem?_set_ne hposition] at hlabel
    exact ⟨label, hlabel, hdefined, fun reference => (or_iff_left fun hnew =>
      hposition (hwaits.sole.unique hnew.2.sole)).symm⟩

end

theorem NamesApart.of_guessText {address : UInt64}
    (hapart : NamesApart (guessText address) labels line) :
    NamesApart valueText labels line := by
  refine hapart.imp fun hlater htoken text htext => ?_
  obtain ⟨value, hvalue, rfl⟩ := Option.map_eq_some_iff.mp htext
  exact hlater htoken _ (by rw [guessText, hvalue]; rfl)

/-- A line all of whose labels are defined by earlier lines. -/
theorem Laid.resolved (hlaid : Laid script index labels) {text : Text}
    (hapart : NamesApart valueText labels text)
    (hdefined : ∀ label declaration,
      script.labels[label]? = some declaration →
      declaration.labelname ∈ tokens isTokenChar text →
      NameDefinedBefore script label index declaration.labelname) :
    unresolved labels text = false := by
  apply unresolved_settled hapart
  intro position label hlabel htoken
  obtain ⟨first, declaration, hfirst, hdeclaration, hname, earlier, hearlier,
    hat⟩ := hdefined position _ (hlaid.declaration_get hlabel) htoken
  rw [← hlaid.declared, getElem?_map, Option.map_eq_some_iff] at hdeclaration
  obtain ⟨other, hother, hequal⟩ := hdeclaration
  refine ⟨other, ?_, by rw [← hname, ← hequal],
    hlaid.defined first earlier other hearlier hat hother⟩
  rw [← getElem?_take_of_lt (Nat.lt_succ_of_le hfirst)] at hother
  exact mem_of_getElem? hother

section

variable {last : Char}
  (hlast : (replaceNames script line).getLast? = some last)
  (hcolon : last ≠ ':')

include hlast hcolon

theorem resolvedLine_agrees
    (hline : script.assemblerlines[index]? = some line)
    (hagrees : Agrees tools script index layout state)
    (hresolved :
      unresolved layout.labels (replaceNames script line) = false) :
    StepAgrees tools script (index + 1)
      (layoutLine tools script index line layout)
      (codeLine tools script index (replaceNames script line) state) := by
  unfold layoutLine codeLine layoutSize
  rw [hlast,
    referenceLabels_resolved (by rw [hagrees.labels]; exact hresolved)]
  simp only [hcolon, hresolved, Option.bind_eq_bind, Option.bind_some,
    Bool.false_eq_true, if_false, hagrees.labels, hagrees.currentaddress]
  cases hbytes : assembleLine tools script
      (resolve layout.labels (replaceNames script line))
      layout.currentaddress with
  | none => rfl
  | some bytes =>
    simp only [Option.map_some, Option.bind_some]
    apply hagrees.append_resolved
      (not_definedAt_of_code hlast hcolon hline) rfl rfl hresolved ⟨rfl, rfl⟩
    unfold emit encode
    simp only [Bool.false_eq_true, if_false, hbytes, Option.map_some,
      Nat.sub_self]
    rw [length_eq_zero_iff.mp (nops_length 0)]
    simp

theorem waitingLine_agrees
    (hline : script.assemblerlines[index]? = some line)
    (hagrees : Agrees tools script index layout state)
    (hnear : NamesApart (guessText layout.currentaddress) layout.labels line)
    (hfar : NamesApart
      (guessText (layout.currentaddress + farDistance script)) layout.labels
      line)
    {place definition : ℕ} (hsole : SoleLabel script place line)
    (hdefinition : DefinedAt script place definition)
    (hunresolved : unresolved layout.labels line = true) :
    StepAgrees tools script (index + 1)
      (layoutLine tools script index line layout)
      (codeLine tools script index line state) := by
  have hnone := not_definedAt_of_code hlast hcolon hline
  rw [hsole.replaceNames_eq] at hlast
  obtain ⟨before, found, after, hlabels, hplace, hbefore, hfound, hafter⟩ :=
    hsole.split _ hagrees.declared
  have hget : state.labels[place]? = some found := by
    rw [hlabels, ← hplace]
    simp
  have hknown : layout.labels[place]? = some found.known := by
    rw [← hagrees.labels, getElem?_map, hget]
    rfl
  have hundefined : found.defined = false := by
    cases hdefined : found.defined with
    | false => rfl
    | true =>
      have hvalue : found.known.value = some found.address := by
        simp [Label.known, hdefined]
      rw [(hsole.resolved_some hagrees.laid hnear.of_guessText hknown
        hvalue).1] at hunresolved
      simp at hunresolved
  have hvalue : found.known.value = none := by
    simp [Label.known, hundefined]
  have hnamesAfter : ∀ label ∈ after, label.labelname ≠
      addressText (state.currentaddress + farDistance script) := by
    intro label hlabel
    have hapart := hfar
    rw [← hagrees.labels, hlabels, map_append, map_cons] at hapart
    rw [hagrees.currentaddress]
    exact hapart.later_ne hfound (by rw [guessText, hvalue]; rfl) label.known
      (mem_map_of_mem hlabel)
  unfold layoutLine codeLine layoutSize
  rw [hsole.replaceNames_eq, hlast, hlabels,
    referenceLabels_forward hbefore hfound hafter hnamesAfter hundefined,
    hsole.guess_eq hagrees.laid hnear hknown hvalue,
    hsole.guess_eq hagrees.laid hfar hknown hvalue]
  simp only [hcolon, if_false, hunresolved, hagrees.currentaddress,
    known_labelname, if_true, Option.bind_eq_bind]
  cases hreserve : reserve tools
      (replacetoken line found.labelname (addressText layout.currentaddress))
      (replacetoken line found.labelname
        (addressText (layout.currentaddress + farDistance script)))
      layout.currentaddress with
  | none => rfl
  | some bytes =>
    simp only [Option.map_some, Option.bind_some, if_true]
    have hset : ∀ label : Label,
        before ++ label :: after = state.labels.set place label := by
      intro label
      rw [hlabels, ← hplace]
      simp
    rw [hset]
    apply hagrees.append_waiting hnone hget _ rfl hdefinition hunresolved
      ⟨rfl, rfl⟩
    exact ⟨rfl, hline, hsole⟩

theorem codeLine_agrees
    (hnames : ∀ distance ∈ [0, farDistance script],
      NamesApart (guessText (layout.currentaddress + distance)) layout.labels
        (replaceNames script line))
    (hline : script.assemblerlines[index]? = some line)
    (hresolvable : Resolvable script index line)
    (hagrees : Agrees tools script index layout state) :
    StepAgrees tools script (index + 1)
      (layoutLine tools script index line layout)
      (codeLine tools script index (replaceNames script line) state) := by
  have hnear := hnames 0 (by simp)
  have hfar := hnames (farDistance script) (by simp)
  rw [UInt64.add_zero] at hnear
  cases hunresolved :
      unresolved layout.labels (replaceNames script line) with
  | false => exact resolvedLine_agrees hlast hcolon hline hagrees hunresolved
  | true =>
    rcases hresolvable with
      hend | hdefined | ⟨place, definition, hsole, hdefinition⟩
    · rw [hlast] at hend
      exact absurd (Option.some.inj hend) hcolon
    · rw [hagrees.laid.resolved hnear.of_guessText hdefined] at hunresolved
      cases hunresolved
    · rw [hsole.replaceNames_eq] at hunresolved hnear hfar ⊢
      exact waitingLine_agrees hlast hcolon hline hagrees hnear hfar hsole
        hdefinition hunresolved

end

/-- An item that waits for another label than the one that is defined. -/
theorem Agrees.resolved_before
    (hagrees : Agrees tools script index layout state)
    (hclear : Clear tools script layout.labels layout.items)
    (hlaid : Laid script (index + 1) labels) {place : ℕ}
    (hothers : ∀ other, place ≠ other →
      labels[other]? = layout.labels[other]?)
    (hmem : item ∈ layout.items) (hnot : ¬ Waits script place item)
    (hresolved : unresolved labels item.text = false) :
    unresolved layout.labels item.text = false := by
  rcases hagrees.kinds item hmem with
    hbefore | ⟨other, definition, hwaits, hdefinition⟩
  · exact hbefore
  · have hother : place ≠ other := by
      rintro rfl
      exact hnot hwaits
    obtain ⟨declaration, hdeclaration, -, -⟩ := hwaits.sole.labels
    rw [← hagrees.laid.declared, getElem?_map,
      Option.map_eq_some_iff] at hdeclaration
    obtain ⟨waited, hwaited, -⟩ := hdeclaration
    cases hvalue : waited.value with
    | some address =>
      exact (hwaits.sole.resolved_some hagrees.laid (hclear item hmem).1
        hwaited hvalue).1
    | none =>
      rw [← hothers other hother] at hwaited
      rw [hwaits.sole.unresolved_none hlaid hwaited hvalue] at hresolved
      cases hresolved

theorem Agrees.define {layout : Layout} {state : State}
    (hagrees : Agrees tools script index layout state) {labels : List Label}
    {label : Label} (hclear : Clear tools script layout.labels layout.items)
    (hnext : Clear tools script (labels.map Label.known) layout.items)
    (hdefine : defineLabel index state.currentaddress state.labels =
      some (labels, label)) :
    StepAgrees tools script (index + 1)
      (some { layout with labels := labels.map Label.known })
      ((label.references.foldlM (reassemble tools script label)
        state.assembled).map
          (fun assembled => { state with labels, assembled })) := by
  obtain ⟨place, found, hfound, hindex, hlabel, hset⟩ :=
    defineLabel_some hdefine
  have hknown : defineKnown index layout.currentaddress layout.labels =
      some (labels.map Label.known) := by
    rw [← hagrees.labels, ← hagrees.currentaddress, defineKnown_map, hdefine]
    rfl
  obtain ⟨hlaid, hextends⟩ := hagrees.laid.define hknown
  have hundefined : found.defined = false := by
    cases hdefined : found.defined with
    | false => rfl
    | true =>
      have hmem : found.known ∈ layout.labels := by
        rw [← hagrees.labels]
        exact mem_map_of_mem (mem_of_getElem? hfound)
      have hpast := hagrees.laid.past found.known hmem
        (by simp [Label.known, hdefined])
      have hsame : found.known.assemblerline = index := hindex
      omega
  have hbound := (List.getElem?_eq_some_iff.mp hfound).1
  have hplace : (labels.map Label.known)[place]? = some label.known := by
    rw [getElem?_map, hset, getElem?_set_self hbound]
    rfl
  have hdefined : label.defined = true := by rw [hlabel]
  have hvalue : label.known.value = some label.address := by
    simp [Label.known, hdefined]
  have hreferences := hagrees.referenced place found hfound hundefined
  have hrecorded := hagrees.recorded place found hfound hundefined
  have hsameReferences : label.references = found.references := by
    rw [hlabel]
  have hfold := foldlM_reassemble hnext hlaid hdefined hplace
    label.references (by rw [hsameReferences]; exact hreferences)
    hagrees.placed
  have hothers : ∀ other, place ≠ other →
      (labels.map Label.known)[other]? = layout.labels[other]? := by
    intro other hother
    rw [← hagrees.labels, getElem?_map, getElem?_map, hset,
      getElem?_set_ne hother]
  have hold : ∀ (position : ℕ) (other : Label),
      labels[position]? = some other → other.defined = false →
      state.labels[position]? = some other := by
    intro position other hother hundefined'
    rw [hset] at hother
    by_cases hposition : place = position
    · subst hposition
      rw [getElem?_set_self hbound] at hother
      rw [← Option.some.inj hother, hdefined] at hundefined'
      simp at hundefined'
    · rw [getElem?_set_ne hposition] at hother
      exact hother
  cases hresult : label.references.foldlM (reassemble tools script label)
      state.assembled with
  | none =>
    rw [hresult] at hfold
    obtain ⟨item, hitem, hwaits, hemit⟩ := hfold
    exact ⟨item, hitem,
      (hwaits.sole.resolved_some hlaid (hnext item hitem).1 hplace
        hvalue).1, hemit⟩
  | some assembled =>
    rw [hresult] at hfold
    obtain ⟨hplaced, hentries⟩ := hfold
    constructor
    · exact hlaid
    · exact hagrees.currentaddress
    · rfl
    · exact hplaced
    · intro item hitem
      rcases hagrees.kinds item hitem with hresolved | hwaiting
      · exact Or.inl (hextends.resolve_eq hresolved).1
      · exact Or.inr hwaiting
    · intro position item entry hitem hentry hresolved
      rcases hentries position item entry hitem hentry with
        ⟨-, hemit⟩ | ⟨hnot, hkept⟩
      · exact hemit
      · have hnotWaits : ¬ Waits script place item := by
          intro hwaits
          obtain ⟨reference, hreference, hequal⟩ :=
            hrecorded position item hitem hwaits
          rw [← hsameReferences] at hreference
          exact hnot reference hreference hequal
        have hbefore := hagrees.resolved_before hclear hlaid hothers
          (mem_of_getElem? hitem) hnotWaits hresolved
        rw [emit_extends hextends hbefore]
        exact hagrees.settled position item entry hitem hkept hbefore
    · intro position other hother hundefined'
      exact hagrees.referenced position other
        (hold position other hother hundefined') hundefined'
    · intro position other hother hundefined'
      exact hagrees.recorded position other
        (hold position other hother hundefined') hundefined'

theorem colonLine_agrees
    (hclear : Clear tools script layout.labels layout.items)
    (hnext : ∀ next, layoutLine tools script index line layout = some next →
      Clear tools script next.labels next.items)
    (hcolon : (replaceNames script line).getLast? = some ':')
    (hagrees : Agrees tools script index layout state) :
    StepAgrees tools script (index + 1)
      (layoutLine tools script index line layout)
      (colonLine tools script index (replaceNames script line) state) := by
  have hmap :
      defineKnown index state.currentaddress (state.labels.map Label.known) =
        (defineLabel index state.currentaddress state.labels).map
          (fun result => result.1.map Label.known) :=
    defineKnown_map state.currentaddress state.labels
  rw [hagrees.labels] at hmap
  unfold layoutLine at hnext ⊢
  unfold colonLine
  rw [hcolon] at hnext ⊢
  simp only [if_true] at hnext ⊢
  rw [← hagrees.currentaddress, hmap] at hnext ⊢
  cases hdefine : defineLabel index state.currentaddress state.labels with
  | some result =>
    obtain ⟨labels, label⟩ := result
    rw [hdefine] at hnext
    have hstep := hagrees.define hclear (hnext _ rfl) hdefine
    rw [← hagrees.currentaddress] at hstep
    simp only [Option.map_some, Option.bind_eq_bind]
    cases hfold : label.references.foldlM (reassemble tools script label)
        state.assembled with
    | none =>
      rw [hfold] at hstep
      exact hstep
    | some assembled =>
      rw [hfold] at hstep
      exact hstep
  | none =>
    simp only [Option.map_none, Option.bind_eq_bind]
    cases tools.getAddressFromName (replaceNames script line).dropLast with
    | none => rfl
    | some currentaddress =>
      rw [hdefine] at hmap
      have hlaid := hagrees.laid.skip (not_definedAt_of_none hagrees.laid hmap)
      exact ⟨hlaid, rfl, hagrees.labels, hagrees.placed, hagrees.kinds,
        hagrees.settled, hagrees.referenced, hagrees.recorded⟩

theorem processLine_agrees
    (hclear : Clear tools script layout.labels layout.items)
    (hnext : ∀ next, layoutLine tools script index line layout = some next →
      Clear tools script next.labels next.items)
    (hnames : (replaceNames script line).getLast? ≠ some ':' →
      ∀ distance ∈ [0, farDistance script],
        NamesApart (guessText (layout.currentaddress + distance)) layout.labels
          (replaceNames script line))
    (hline : script.assemblerlines[index]? = some line)
    (hresolvable : Resolvable script index line)
    (hagrees : Agrees tools script index layout state) :
    StepAgrees tools script (index + 1)
      (layoutLine tools script index line layout)
      (processLine tools script index line state) := by
  cases hlast : (replaceNames script line).getLast? with
  | none =>
    unfold layoutLine processLine
    rw [hlast]
    rfl
  | some last =>
    by_cases hcolon : last = ':'
    · rw [hcolon] at hlast
      have hstep := colonLine_agrees hclear hnext hlast hagrees
      unfold processLine
      rw [hlast]
      exact hstep
    · have hcode : (replaceNames script line).getLast? ≠ some ':' := by
        rw [hlast]
        simpa using hcolon
      have hstep := codeLine_agrees hlast hcolon (hnames hcode) hline
        hresolvable hagrees
      unfold processLine
      rw [hlast]
      simpa only [hcolon, if_false] using hstep

/-! ## Whole scripts -/

theorem of_drop_eq_cons {α : Type*} {list rest : List α} {first : α}
    (hdrop : list.drop index = first :: rest) :
    list[index]? = some first ∧ list.drop (index + 1) = rest := by
  rw [← head?_drop, ← tail_drop, hdrop]
  exact ⟨rfl, rfl⟩

theorem layoutLines_laid {lines : List Text} {last : Layout}
    (hlines : script.assemblerlines.drop index = lines)
    (hlaid : Laid script index layout.labels)
    (hlayout : layoutLines tools script index lines layout = some last) :
    Extends layout.labels last.labels ∧
      ∃ more, last.items = layout.items ++ more := by
  induction lines generalizing index layout with
  | nil =>
    have hlast := Option.some.inj hlayout
    subst hlast
    exact ⟨Extends.refl _, [], by simp⟩
  | cons line lines ih =>
    simp only [layoutLines, Option.bind_eq_bind,
      Option.bind_eq_some_iff] at hlayout
    obtain ⟨next, hnext, hrest⟩ := hlayout
    obtain ⟨hline, hdrop⟩ := of_drop_eq_cons hlines
    obtain ⟨hlaidNext, hextends, more, hmore⟩ :=
      layoutLine_laid hline hlaid hnext
    obtain ⟨hextends', more', hmore'⟩ := ih hdrop hlaidNext hrest
    exact ⟨hextends.trans hextends', more ++ more',
      by rw [hmore', hmore, List.append_assoc]⟩

theorem mapM_eq_none {α β : Type*} {f : α → Option β} {list : List α}
    {value : α} (hmem : value ∈ list) (hnone : f value = none) :
    list.mapM f = none := by
  induction list with
  | nil => simp at hmem
  | cons head list ih =>
    rw [mapM_cons]
    rcases mem_cons.mp hmem with hhead | htail
    · rw [← hhead, hnone]
      rfl
    · rw [ih htail]
      cases f head <;> rfl

theorem mapM_eq_some {α β : Type*} {f : α → Option β} {list : List α}
    {results : List β} (hlength : list.length = results.length)
    (hvalue : ∀ (position : ℕ) (value : α) (result : β),
      list[position]? = some value → results[position]? = some result →
      f value = some result) :
    list.mapM f = some results := by
  induction list generalizing results with
  | nil =>
    rw [length_eq_zero_iff.mp hlength.symm]
    rfl
  | cons head list ih =>
    cases results with
    | nil => simp at hlength
    | cons result results =>
      have hhead := hvalue 0 head result (by simp) (by simp)
      have hrest := ih (by simpa using hlength)
        (fun position value other hget hother =>
          hvalue (position + 1) value other (by simpa using hget)
            (by simpa using hother))
      rw [mapM_cons, hhead, hrest]
      rfl

theorem layoutLines_append (before after : List Text) :
    layoutLines tools script index (before ++ after) layout =
      (layoutLines tools script index before layout).bind
        (layoutLines tools script (index + before.length) after) := by
  induction before generalizing index layout with
  | nil => rfl
  | cons line before ih =>
    simp only [cons_append, layoutLines, Option.bind_eq_bind,
      Option.bind_assoc, ih, length_cons, Nat.add_right_comm _ 1,
      Nat.add_assoc]

theorem clear_of_reached (henough : ReservesEnough tools script)
    (hnames : NamesAreNotAddresses tools script)
    (hreached : layoutLines tools script 0 (script.assemblerlines.take index)
      (initialLayout script) = some layout) :
    Clear tools script layout.labels layout.items := by
  have hprefix := (mem_inits _ _).mpr
    (List.take_prefix index script.assemblerlines)
  exact fun item hitem => ⟨(hnames _ hprefix layout hreached).1 item hitem,
    henough _ hprefix layout hreached item hitem⟩

/-- Behind the last line no item waits any more. -/
theorem Agrees.mapM_emit
    (hagrees : Agrees tools script index layout state)
    (hend : script.assemblerlines.length ≤ index)
    (hclear : Clear tools script layout.labels layout.items) :
    layout.items.mapM (emit tools script layout.labels) =
      some state.assembled := by
  apply mapM_eq_some (List.Forall₂.length_eq hagrees.placed)
  intro position item entry hitem hentry
  apply hagrees.settled position item entry hitem hentry
  have hmem := mem_of_getElem? hitem
  rcases hagrees.kinds item hmem with
    hresolved | ⟨label, definition, hwaits, hdefinition⟩
  · exact hresolved
  · obtain ⟨declaration, line, hdeclaration, -, hline, -, -⟩ := id hdefinition
    have hbound : definition < index :=
      (List.getElem?_eq_some_iff.mp hline).1.trans_le hend
    rw [← hagrees.laid.declared, getElem?_map,
      Option.map_eq_some_iff] at hdeclaration
    obtain ⟨known, hknown, -⟩ := hdeclaration
    obtain ⟨address, haddress⟩ := Option.ne_none_iff_exists'.mp
      (hagrees.laid.defined label definition known hbound hdefinition hknown)
    exact (hwaits.sole.resolved_some hagrees.laid (hclear item hmem).1 hknown
      haddress).1

theorem processLines_eq (henough : ReservesEnough tools script)
    (hnames : NamesAreNotAddresses tools script)
    (hresolvable : ResolvableScript script) {lines : List Text}
    (hlines : script.assemblerlines.drop index = lines)
    (hreached : layoutLines tools script 0 (script.assemblerlines.take index)
      (initialLayout script) = some layout)
    (hagrees : Agrees tools script index layout state) :
    (processLines tools script index lines state).map State.assembled =
      (layoutLines tools script index lines layout).bind (fun last =>
        last.items.mapM (emit tools script last.labels)) := by
  induction lines generalizing index layout state with
  | nil =>
    simp only [processLines, layoutLines, Option.map_some, Option.bind_some]
    exact (hagrees.mapM_emit (drop_eq_nil_iff.mp hlines)
      (clear_of_reached henough hnames hreached)).symm
  | cons line lines ih =>
    obtain ⟨hline, hdrop⟩ := of_drop_eq_cons hlines
    have hlength : (script.assemblerlines.take index).length = index :=
      length_take_of_le (List.getElem?_eq_some_iff.mp hline).1.le
    have htake : script.assemblerlines.take (index + 1) =
        script.assemblerlines.take index ++ [line] := by
      rw [take_add_one, hline]
      rfl
    have hreachedNext (next : Layout)
        (hlayout : layoutLine tools script index line layout = some next) :
        layoutLines tools script 0 (script.assemblerlines.take (index + 1))
          (initialLayout script) = some next := by
      rw [htake, layoutLines_append, hreached, Option.bind_some, Nat.zero_add,
        hlength, layoutLines, hlayout]
      rfl
    have hprefix := (mem_inits _ _).mpr
      (List.take_prefix index script.assemblerlines)
    have hstep := processLine_agrees
      (clear_of_reached henough hnames hreached)
      (fun next hlayout =>
        clear_of_reached henough hnames (hreachedNext next hlayout))
      ((hnames _ hprefix layout hreached).2 line
        (by rw [hlength]; exact hline))
      hline (hresolvable index line hline) hagrees
    simp only [processLines, layoutLines, Option.bind_eq_bind]
    cases hlayout : layoutLine tools script index line layout with
    | none =>
      rw [hlayout] at hstep
      rw [show processLine tools script index line state = none from hstep]
      rfl
    | some next =>
      rw [hlayout] at hstep
      cases hstate : processLine tools script index line state with
      | some nextState =>
        rw [hstate] at hstep
        exact ih hdrop (hreachedNext next hlayout) hstep
      | none =>
        rw [hstate] at hstep
        obtain ⟨item, hitem, hresolved, hemit⟩ := hstep
        have hlaid := (layoutLine_laid hline hagrees.laid hlayout).1
        simp only [Option.bind_none, Option.map_none, Option.bind_some]
        cases hlast : layoutLines tools script (index + 1) lines
            next with
        | none => rfl
        | some last =>
          obtain ⟨hextends, more, hmore⟩ :=
            layoutLines_laid hdrop hlaid hlast
          have hmem : item ∈ last.items := by
            simp [hmore, hitem]
          rw [Option.bind_some, mapM_eq_none hmem]
          rw [emit_extends hextends hresolved]
          exact hemit

theorem Agrees.initial :
    Agrees tools script 0 (initialLayout script) (initialState script) := by
  constructor
  · exact Laid.initial
  · rfl
  · simp [initialState, initialLayout, Label.known, Function.comp_def]
  · exact List.Forall₂.nil
  · simp [initialLayout]
  · simp [initialLayout]
  · intro position label hlabel hdefined reference hreference
    simp only [initialState, getElem?_map, Option.map_eq_some_iff] at hlabel
    obtain ⟨declaration, -, hlabel⟩ := hlabel
    rw [← hlabel] at hreference
    simp at hreference
  · intro position label hlabel hdefined entry item hitem
    simp [initialLayout] at hitem

/-- When every forward reference comes alone in its line, the pass emits each
line once, with the final addresses and the nops of the room kept for it. -/
theorem secondPass_eq_twoPass (henough : ReservesEnough tools script)
    (hnames : NamesAreNotAddresses tools script)
    (hresolvable : ResolvableScript script) :
    secondPass tools script = twoPass tools script := by
  have hrun : (processLines tools script 0 script.assemblerlines
      (initialState script)).map State.assembled =
      (layoutLines tools script 0 script.assemblerlines
        (initialLayout script)).bind (fun last =>
          last.items.mapM (emit tools script last.labels)) :=
    processLines_eq henough hnames hresolvable (by simp) rfl Agrees.initial
  exact hrun

end

/-! ## A jump over one instruction -/

/-- Jumps and `nop` as a 32-bit target has them: a jump to itself is short,
the other jumps of the script take the long form. -/
def jumpTools : Tools where
  assemble := fun line address preference _ =>
    match line with
    | 'j' :: rest =>
      if rest.drop 3 = addressText address ∧ preference = .apNone then
        some [0xEB, 0xFE]
      else
        (parseHex (rest.drop 3)).map (fun target =>
          [0xE9, UInt8.ofNat (target - address.toNat - 5), 0, 0, 0])
    | 'n' :: _ => some [0x90]
    | _ => some []
  getAddressFromName := fun name => (parseHex name).map UInt64.ofNat

/-- The label is written with nine hexadecimal digits. -/
def jumpScript : Script where
  systemArchitecture := .archX86
  is64Bit := false
  allocs := []
  kallocs := []
  defines := []
  labels := [⟨"123456789".toList, 3⟩]
  readmems := []
  assemblerlines :=
    ["00400000:".toList, "jmp 123456789".toList, "nop".toList,
      "123456789:".toList, "jmp 123456789".toList]

theorem jumpScript_defined : DefinedAt jumpScript 0 3 := by
  refine ⟨⟨"123456789".toList, 3⟩, "123456789:".toList, rfl, rfl, rfl,
    by decide, ?_⟩
  exact fun other declaration hother hequal => Nat.zero_le _

theorem jumpScript_resolvable : ResolvableScript jumpScript := by
  intro index line hline
  have hbound := (List.getElem?_eq_some_iff.mp hline).1
  have hindex : index < 5 := hbound
  have hlabel : ∀ (label : ℕ) (declaration : LabelDeclaration),
      jumpScript.labels[label]? = some declaration →
      declaration = ⟨"123456789".toList, 3⟩ := by
    intro label declaration hget
    exact mem_singleton.mp (mem_of_getElem? hget)
  interval_cases index
  · rw [← Option.some.inj hline]
    exact Or.inl (by decide)
  · rw [← Option.some.inj hline]
    refine Or.inr (Or.inr ⟨0, 3, ⟨by simp [jumpScript], by simp [jumpScript],
      by simp [jumpScript], ⟨"123456789".toList, 3⟩, rfl, by decide, ?_⟩,
      jumpScript_defined⟩)
    intro other declaration hother hmem
    exact ⟨Nat.zero_le _, by rw [hlabel other declaration hother]⟩
  · rw [← Option.some.inj hline]
    refine Or.inr (Or.inl ?_)
    intro label declaration hget hmem
    rw [hlabel label declaration hget] at hmem
    exact absurd hmem (by decide)
  · rw [← Option.some.inj hline]
    exact Or.inl (by decide)
  · rw [← Option.some.inj hline]
    refine Or.inr (Or.inl ?_)
    intro label declaration hget hmem
    rw [hlabel label declaration hget]
    exact ⟨0, ⟨"123456789".toList, 3⟩, Nat.zero_le _, rfl, rfl, 3,
      by decide, jumpScript_defined⟩

theorem jumpScript_emits :
    secondPass jumpTools jumpScript = some
      [⟨0x400000, [0xE9, 1, 0, 0, 0]⟩, ⟨0x400005, [0x90]⟩,
        ⟨0x400006, [0xEB, 0xFE]⟩] ∧
    secondPass jumpTools jumpScript = twoPass jumpTools jumpScript :=
  ⟨by decide,
    secondPass_eq_twoPass (by unfold ReservesEnough; decide) (by
      unfold NamesAreNotAddresses
      simp only [forall_mem_cons, not_mem_nil, false_implies, implies_true]
      decide) jumpScript_resolvable⟩

/-- Stores of a constant at the allocated address.  A line with a name in it
cannot be assembled. -/
def storeTools : Tools where
  assemble := fun line _ _ _ =>
    if line.take 25 = "mov dword ptr [00400000],".toList then
      some ((parseHex (line.drop 25)).elim [] (fun value =>
        [0xC7, 0x05, 0x00, 0x00, 0x40, 0x00, UInt8.ofNat value,
          UInt8.ofNat (value / 2 ^ 8), UInt8.ofNat (value / 2 ^ 16),
          UInt8.ofNat (value / 2 ^ 24)]))
    else
      some []
  getAddressFromName := fun name => (parseHex name).map UInt64.ofNat

def storeScript : Script where
  systemArchitecture := .archX86
  is64Bit := false
  allocs := [⟨"newmem".toList, 0x400000⟩]
  kallocs := []
  defines := []
  labels := [⟨"lab".toList, 2⟩]
  readmems := []
  assemblerlines :=
    ["newmem:".toList, "mov dword ptr [newmem],lab".toList, "lab:".toList]

/-- The store is assembled again with `newmem` still in its text, and only
nops are left of it. -/
theorem storeScript_loses_store :
    secondPass storeTools storeScript = some
      [⟨0x400000, List.replicate 10 0x90⟩] ∧
    twoPass storeTools storeScript = some
      [⟨0x400000, [0xC7, 0x05, 0x00, 0x00, 0x40, 0x00, 0x0A, 0x00, 0x40,
        0x00]⟩] ∧
    secondPass storeTools storeScript ≠ twoPass storeTools storeScript := by
  refine ⟨by decide, by decide, by decide⟩

end AutoAssembler
end CheatEngine
