import CheatEngine.PointerscanStructures

/-!
# Disconnecting a child of a pointer scan

`childnodes` holds a record for every child.  A child is known by its
`childid`, a number that starts at random and that the record keeps when the
records before it are removed.  `disconnectChild` gets such a number;
`handleChildException` gets an index of the table.
-/

namespace CheatEngine.PointerscanChildren

open List Pointerscan

structure ConnectData where
  ip : String
  port : UInt16
  password : String
deriving DecidableEq, Repr

/-- `TPointerscancontrollerchild`; a socket is known by a number. -/
structure Child where
  childid : Int32
  socket : Option ℕ
  MissingSince : UInt64 := 0
  Error : String := ""
  iConnectedTo : Bool := false
  connectdata : ConnectData := ⟨"", 0, ""⟩
  trusted : Bool := false
  takePathsAndDisconnect : Bool := false
  terminating : Bool := false
  idle : Bool := false
  hasReceivedScandata : Bool := false
  pathqueuesize : Int32 := 0
  totalpathqueuesize : Int32 := 0
  queued : Bool := false
  queuepos : UInt32 := 0
  queuesize : UInt32 := 0
  nontrustedlastpaths : List PathQueueElement := []
deriving DecidableEq, Repr

structure ConnectEntry where
  connectdata : ConnectData
  becomeparent : Bool
  trusted : Bool
  deleted : Bool := false
deriving DecidableEq, Repr

structure Controller where
  childnodes : List Child
  currentscanhasended : Bool
  connections : List ConnectEntry
deriving DecidableEq, Repr

def ConnectData.sameNode (first second : ConnectData) : Bool :=
  first.ip.toUpper = second.ip.toUpper && first.port = second.port

/-- `BecomeParentOfNode`.  Raises an exception, which the flag tells, when a
child at the address is still connected. -/
def becomeParentOfNode (connectdata : ConnectData) (trusted : Bool)
    (controller : Controller) : Controller × Bool :=
  if controller.childnodes.any fun child => child.socket.isSome &&
      child.iConnectedTo && connectdata.sameNode child.connectdata then
    (controller, true)
  else
    let marked := controller.connections.map fun entry =>
      if connectdata.sameNode entry.connectdata then
        { entry with deleted := true }
      else
        entry
    ({ controller with
        connections := marked ++
          [{ connectdata, becomeparent := true, trusted }] }, false)

/-- `childnodes[index]`; an index outside the array is an error. -/
def childAt (childnodes : List Child) (index : Int32) : Option Child :=
  if index < 0 then none else childnodes[index.toInt.toNat]?

section

variable (now : UInt64)

/-- What `handleChildException` leaves of a record. -/
def lost (currentscanhasended : Bool) (error : String) (child : Child) :
    Child :=
  { child with
    socket := none
    MissingSince :=
      if currentscanhasended && child.idle || !child.hasReceivedScandata then
        0
      else
        now
    Error := error }

def handleChildException (index : Int32) (error : String)
    (controller : Controller) : Option (Controller × Bool) :=
  match childAt controller.childnodes index with
  | none => none
  | some child =>
    let disconnected :=
      { controller with
        childnodes := controller.childnodes.set index.toInt.toNat
          (lost now controller.currentscanhasended error child) }
    if child.iConnectedTo then
      some (becomeParentOfNode child.connectdata child.trusted disconnected)
    else
      some (disconnected, false)

def forcedDisconnect : String := "forced disconnect"

def leaving (force : Bool) (child : Child) : Child :=
  if force then
    { child with iConnectedTo := false }
  else
    { child with
      iConnectedTo := false
      takePathsAndDisconnect := true
      terminating := true }

def tellChild (i : ℕ) (force : Bool) (child : Child)
    (controller : Controller) : Controller :=
  { controller with
    childnodes := controller.childnodes.set i (leaving force child) }

/-- The loop over the table from index `i` on; the first argument is the
number of turns. -/
def disconnectFrom (childid : Int32) (force : Bool) :
    ℕ → ℕ → Controller → Option (Controller × Bool)
  | 0, _, controller => some (controller, false)
  | turns + 1, i, controller =>
    match controller.childnodes[i]? with
    | none => some (controller, false)
    | some child =>
      if child.childid = childid then
        let told := tellChild i force child controller
        if force then
          match handleChildException now childid forcedDisconnect told with
          | none => none
          | some (after, true) => some (after, true)
          | some (after, false) =>
            disconnectFrom childid force turns (i + 1) after
        else
          disconnectFrom childid force turns (i + 1) told
      else
        disconnectFrom childid force turns (i + 1) controller

def disconnectChild (childid : Int32) (force : Bool)
    (controller : Controller) : Option (Controller × Bool) :=
  disconnectFrom now childid force controller.childnodes.length 0 controller

end

structure ChangesOnly (childid : Int32) (before after : List Child) :
    Prop where
  ids : after.map Child.childid = before.map Child.childid
  others : ∀ (j : ℕ) (child : Child), before[j]? = some child → child.childid ≠ childid →
    after[j]? = some child

/-- The call comes back, and the record of the child with that id is the only
one it changed. -/
def AffectsOnly (childid : Int32) (before : Controller)
    (result : Option (Controller × Bool)) : Prop :=
  ∃ after raised, result = some (after, raised) ∧
    ChangesOnly childid before.childnodes after.childnodes

/-- The index that equals the id is the one of that child, or of a record on
which `handleChildException` has no effect. -/
def IndexFits (now : UInt64) (childid : Int32) (controller : Controller) :
    Prop :=
  ∃ child, childAt controller.childnodes childid = some child ∧
    (child.childid = childid ∨
      lost now controller.currentscanhasended forcedDisconnect child = child)

/-! ## One turn -/

theorem ChangesOnly.refl (childid : Int32) (childnodes : List Child) :
    ChangesOnly childid childnodes childnodes where
  ids := rfl
  others := fun _ _ hchild _ => hchild

variable {childid : Int32} {childnodes : List Child}

theorem ChangesOnly.trans {first second third : List Child}
    (hfirst : ChangesOnly childid first second)
    (hsecond : ChangesOnly childid second third) :
    ChangesOnly childid first third where
  ids := hsecond.ids.trans hfirst.ids
  others := fun j child hchild hne =>
    hsecond.others j child (hfirst.others j child hchild hne) hne

theorem ChangesOnly.symm {before after : List Child}
    (hchanges : ChangesOnly childid before after) :
    ChangesOnly childid after before where
  ids := hchanges.ids.symm
  others := by
    intro j child hchild hne
    have hmap : (before[j]?).map Child.childid = some child.childid := by
      rw [← getElem?_map, ← hchanges.ids, getElem?_map, hchild]
      rfl
    obtain ⟨other, hother, hid⟩ := Option.map_eq_some_iff.mp hmap
    have hkept := hchanges.others j other hother (hid ▸ hne)
    rw [hchild] at hkept
    cases hkept
    exact hother

theorem changesOnly_set {i : ℕ} {child replaced : Child}
    (hchild : childnodes[i]? = some child)
    (hid : replaced.childid = child.childid)
    (hsame : child.childid = childid ∨ replaced = child) :
    ChangesOnly childid childnodes (childnodes.set i replaced) where
  ids := by
    rw [map_set, hid]
    apply ext_getElem?
    intro j
    rw [getElem?_set]
    split
    · next heq =>
      subst heq
      split
      · rw [getElem?_map, hchild]
        rfl
      · next hge =>
        rw [getElem?_eq_none (by omega)]
    · rfl
  others := by
    intro j other hother hne
    rw [getElem?_set]
    split
    · next heq =>
      subst heq
      rw [hchild] at hother
      cases hother
      have hlt := (List.getElem?_eq_some_iff.mp hchild).1
      rw [if_pos hlt]
      rcases hsame with hid | hreplaced
      · exact absurd hid hne
      · rw [hreplaced]
    · exact hother

@[simp] theorem becomeParentOfNode_childnodes (connectdata : ConnectData)
    (trusted : Bool) (controller : Controller) :
    (becomeParentOfNode connectdata trusted controller).1.childnodes =
      controller.childnodes := by
  unfold becomeParentOfNode
  split <;> rfl

@[simp] theorem becomeParentOfNode_currentscanhasended
    (connectdata : ConnectData) (trusted : Bool) (controller : Controller) :
    (becomeParentOfNode connectdata trusted controller).1.currentscanhasended =
      controller.currentscanhasended := by
  unfold becomeParentOfNode
  split <;> rfl

@[simp] theorem leaving_childid (force : Bool) (child : Child) :
    (leaving force child).childid = child.childid := by
  unfold leaving
  split <;> rfl

section

variable {now : UInt64} {childid : Int32} {error : String}
  {controller after : Controller} {raised : Bool}

theorem handleChildException_eq_none :
    handleChildException now childid error controller = none ↔
      childAt controller.childnodes childid = none := by
  unfold handleChildException
  cases hchild : childAt controller.childnodes childid with
  | none => simp
  | some child =>
    dsimp only
    split <;> simp

theorem handleChildException_childnodes
    (hafter : handleChildException now childid error controller =
      some (after, raised)) :
    ∃ child, childAt controller.childnodes childid = some child ∧
      after.childnodes = controller.childnodes.set childid.toInt.toNat
        (lost now controller.currentscanhasended error child) ∧
      after.currentscanhasended = controller.currentscanhasended := by
  unfold handleChildException at hafter
  cases hchild : childAt controller.childnodes childid with
  | none => simp [hchild] at hafter
  | some child =>
    refine ⟨child, rfl, ?_⟩
    simp only [hchild] at hafter
    split at hafter
    · have hafter' := congrArg Prod.fst (Option.some.inj hafter)
      dsimp only at hafter'
      rw [← hafter', becomeParentOfNode_childnodes,
        becomeParentOfNode_currentscanhasended]
      exact ⟨rfl, rfl⟩
    · have hafter' := congrArg Prod.fst (Option.some.inj hafter)
      dsimp only at hafter'
      rw [← hafter']
      exact ⟨rfl, rfl⟩

end

theorem getElem?_of_childAt {index : Int32} {child : Child}
    (hchild : childAt childnodes index = some child) :
    childnodes[index.toInt.toNat]? = some child := by
  simp only [childAt, Option.ite_none_left_eq_some] at hchild
  exact hchild.2

theorem childAt_of_getElem? {other : List Child} {index : Int32}
    {child result : Child} (hchild : childAt childnodes index = some child)
    (hresult : other[index.toInt.toNat]? = some result) :
    childAt other index = some result := by
  simp only [childAt, Option.ite_none_left_eq_some] at hchild ⊢
  exact ⟨hchild.1, hresult⟩

section

variable {now : UInt64} {childid : Int32}

variable {after controller : Controller} {raised : Bool}

theorem IndexFits.mono {before : Controller}
    (hfits : IndexFits now childid before)
    (hchanges : ChangesOnly childid before.childnodes after.childnodes)
    (hended : after.currentscanhasended = before.currentscanhasended) :
    IndexFits now childid after := by
  obtain ⟨child, hchild, hsame⟩ := hfits
  have hat := getElem?_of_childAt hchild
  rcases eq_or_ne child.childid childid with hid | hne
  · have hmap : (after.childnodes[childid.toInt.toNat]?).map Child.childid =
        some child.childid := by
      rw [← getElem?_map, hchanges.ids, getElem?_map, hat]
      rfl
    obtain ⟨result, hresult, hresultid⟩ := Option.map_eq_some_iff.mp hmap
    exact ⟨result, childAt_of_getElem? hchild hresult,
      Or.inl (hresultid.trans hid)⟩
  · have hlost := hsame.resolve_left hne
    refine ⟨child, childAt_of_getElem? hchild
      (hchanges.others _ _ hat hne), Or.inr ?_⟩
    rw [hended, hlost]

theorem handleChildException_of_fits
    (hfits : IndexFits now childid controller)
    (hafter : handleChildException now childid forcedDisconnect controller =
      some (after, raised)) :
    ChangesOnly childid controller.childnodes after.childnodes ∧
      IndexFits now childid after := by
  obtain ⟨child, hchild, hsame⟩ := hfits
  obtain ⟨other, hother, hnodes, hended⟩ :=
    handleChildException_childnodes hafter
  rw [hchild] at hother
  cases hother
  have hchanges : ChangesOnly childid controller.childnodes
      after.childnodes := by
    rw [hnodes]
    exact changesOnly_set (getElem?_of_childAt hchild) rfl hsame
  exact ⟨hchanges, IndexFits.mono ⟨child, hchild, hsame⟩ hchanges hended⟩

theorem changesOnly_tellChild {i : ℕ} {child : Child}
    (hchild : controller.childnodes[i]? = some child)
    (hid : child.childid = childid) (force : Bool) :
    ChangesOnly childid controller.childnodes
      (tellChild i force child controller).childnodes :=
  changesOnly_set hchild (leaving_childid force child) (Or.inl hid)

theorem AffectsOnly.of_changesOnly {before told : Controller}
    {result : Option (Controller × Bool)}
    (hchanges : ChangesOnly childid before.childnodes told.childnodes)
    (haffects : AffectsOnly childid told result) :
    AffectsOnly childid before result := by
  obtain ⟨after, raised, hafter, hrest⟩ := haffects
  exact ⟨after, raised, hafter, hchanges.trans hrest⟩

theorem affectsOnly_disconnectFrom {force : Bool} {turns i : ℕ}
    {controller : Controller}
    (hfits : force = true → (∃ child ∈ controller.childnodes,
      child.childid = childid) → IndexFits now childid controller) :
    AffectsOnly childid controller
      (disconnectFrom now childid force turns i controller) := by
  induction turns generalizing i controller with
  | zero => exact ⟨controller, false, rfl, .refl _ _⟩
  | succ turns ih =>
    rw [disconnectFrom]
    cases hchild : controller.childnodes[i]? with
    | none => exact ⟨controller, false, rfl, .refl _ _⟩
    | some child =>
      dsimp only
      by_cases hid : child.childid = childid
      · have hmem : child ∈ controller.childnodes :=
          mem_of_getElem? hchild
        have htold := changesOnly_tellChild hchild hid force
        rw [if_pos hid]
        cases force with
        | false => exact AffectsOnly.of_changesOnly htold (ih (by simp))
        | true =>
          have htoldFits := (hfits rfl ⟨child, hmem, hid⟩).mono htold rfl
          simp only [if_true]
          cases hhandle : handleChildException now childid
              forcedDisconnect (tellChild i true child controller) with
          | none =>
            obtain ⟨record, hrecord, -⟩ := htoldFits
            rw [handleChildException_eq_none.mp hhandle] at hrecord
            cases hrecord
          | some result =>
            obtain ⟨after, raised⟩ := result
            obtain ⟨hchanges, hfitsAfter⟩ :=
              handleChildException_of_fits htoldFits hhandle
            cases raised with
            | true => exact ⟨after, true, rfl, htold.trans hchanges⟩
            | false =>
              exact AffectsOnly.of_changesOnly
                (htold.trans hchanges)
                (ih fun _ _ => hfitsAfter)
      · rw [if_neg hid]
        exact ih hfits

theorem indexFits_of_handle
    (hafter : handleChildException now childid forcedDisconnect controller =
      some (after, raised)) : IndexFits now childid after := by
  obtain ⟨child, hchild, hnodes, hended⟩ :=
    handleChildException_childnodes hafter
  have hat := getElem?_of_childAt hchild
  have hlt := (List.getElem?_eq_some_iff.mp hat).1
  refine ⟨lost now controller.currentscanhasended forcedDisconnect child,
    childAt_of_getElem? hchild ?_, Or.inr ?_⟩
  · rw [hnodes, getElem?_set_self hlt]
  · rw [hended]
    rfl

theorem indexFits_of_handle_affectsOnly {final : Controller}
    (hafter : handleChildException now childid forcedDisconnect controller =
      some (after, raised))
    (hrest : ChangesOnly childid after.childnodes final.childnodes)
    (hchanges : ChangesOnly childid controller.childnodes final.childnodes) :
    IndexFits now childid controller := by
  obtain ⟨child, hchild, hnodes, -⟩ := handleChildException_childnodes hafter
  refine ⟨child, hchild, ?_⟩
  rcases eq_or_ne child.childid childid with hid | hne
  · exact Or.inl hid
  · have hat := getElem?_of_childAt hchild
    have hlt := (List.getElem?_eq_some_iff.mp hat).1
    have hlost : after.childnodes[childid.toInt.toNat]? =
        some (lost now controller.currentscanhasended forcedDisconnect
          child) := by
      rw [hnodes, getElem?_set_self hlt]
    have hkept := hchanges.others _ child hat hne
    rw [hrest.others _ _ hlost hne] at hkept
    exact Or.inr (Option.some.inj hkept)

/-- When the index doesn't fit, the record there changes at the first child
with that id, and no later turn changes it back. -/
theorem indexFits_of_affectsOnly {turns i : ℕ} {child : Child}
    (hchild : child ∈ controller.childnodes.drop i)
    (hid : child.childid = childid)
    (hturns : controller.childnodes.length ≤ i + turns)
    (haffects : AffectsOnly childid controller
      (disconnectFrom now childid true turns i controller)) :
    IndexFits now childid controller := by
  induction turns generalizing i with
  | zero =>
    rw [drop_of_length_le (by omega)] at hchild
    cases hchild
  | succ turns ih =>
    have hi : i < controller.childnodes.length := by
      by_contra hge
      rw [drop_of_length_le (Nat.le_of_not_lt hge)] at hchild
      cases hchild
    have hat := getElem?_eq_getElem hi
    rw [drop_eq_getElem_cons hi, mem_cons] at hchild
    rw [disconnectFrom, hat] at haffects
    dsimp only at haffects
    by_cases hhere : (controller.childnodes[i]).childid = childid
    · have htold := changesOnly_tellChild hat hhere true
      rw [if_pos hhere, if_pos rfl] at haffects
      apply IndexFits.mono _ htold.symm rfl
      cases hhandle : handleChildException now childid forcedDisconnect
          (tellChild i true controller.childnodes[i] controller) with
      | none =>
        obtain ⟨final, raised, hfinal, -⟩ := haffects
        rw [hhandle] at hfinal
        cases hfinal
      | some result =>
        obtain ⟨after, raised⟩ := result
        obtain ⟨final, _, hfinal, hchanges⟩ := haffects
        have hboth := htold.symm.trans hchanges
        rw [hhandle] at hfinal
        cases raised with
        | true =>
          cases hfinal
          exact indexFits_of_handle_affectsOnly hhandle (.refl _ _) hboth
        | false =>
          obtain ⟨other, _, hother, hrest⟩ :=
            @affectsOnly_disconnectFrom now childid true turns (i + 1)
              after (fun _ _ => indexFits_of_handle hhandle)
          cases hother.symm.trans hfinal
          exact indexFits_of_handle_affectsOnly hhandle hrest hboth
    · rw [if_neg hhere] at haffects
      rcases hchild with heq | htail
      · exact absurd (heq ▸ hid) hhere
      · exact ih htail (by omega) haffects

end

/-- A forced disconnect leaves the records of the other children alone exactly
when the id of the child is its index as well (or the record at that index
looks like a lost one already); without force it always does. -/
theorem disconnectChild_iff (now : UInt64) (childid : Int32) (force : Bool)
    (controller : Controller) :
    AffectsOnly childid controller
        (disconnectChild now childid force controller) ↔
      (force = true → (∃ child ∈ controller.childnodes,
        child.childid = childid) → IndexFits now childid controller) := by
  constructor
  · rintro haffects rfl ⟨child, hchild, hid⟩
    exact indexFits_of_affectsOnly (drop_zero ▸ hchild) hid
      (Nat.le_of_eq (Nat.zero_add _).symm) haffects
  · exact affectsOnly_disconnectFrom

def twoChildren : Controller where
  childnodes :=
    [{ childid := 1, socket := some 11 }, { childid := 2, socket := some 12 }]
  currentscanhasended := false
  connections := []

theorem disconnectChild_drops_other :
    ¬ AffectsOnly 1 twoChildren (disconnectChild 0 1 true twoChildren) := by
  rintro ⟨after, raised, hafter, hchanges⟩
  have hsecond := hchanges.others 1 { childid := 2, socket := some 12 } rfl
    (by decide)
  cases hafter
  exact absurd hsecond (by decide)

end CheatEngine.PointerscanChildren
