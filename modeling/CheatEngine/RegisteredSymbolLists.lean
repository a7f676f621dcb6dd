import Mathlib.Tactic

/-!
# The registered symbol lists

`AddSymbolList` appends a list to an array, `RemoveSymbolList` closes the gap
that a list leaves.  The loop that searches the list goes on up to the length
that the array had at its start, and the loop inside of it moves the same
element again and again.
-/

namespace CheatEngine.RegisteredSymbolLists

open List

variable {α : Type*}

/-- The array, and whether an index outside of it has been used. -/
structure Registered (α : Type*) where
  symbollists : List α
  outside : Bool
deriving DecidableEq

def moveDown (i : ℕ) (symbollists : List α) : List α :=
  match symbollists[i + 1]? with
  | some next => symbollists.set i next
  | none => symbollists

def shift (i : ℕ) (symbollists : List α) : List α :=
  (moveDown i)^[symbollists.length - 1 - i] symbollists

section

variable [DecidableEq α]

/-- One turn of the loop of `RemoveSymbolList`.  Behind the array there is
whatever the memory holds. -/
def visit (stale : ℕ → α) (sl : α) (i : ℕ) (state : Registered α) :
    Registered α :=
  { symbollists :=
      if state.symbollists.getD i (stale i) = sl then
        (shift i state.symbollists).dropLast
      else
        state.symbollists
    outside := state.outside || decide (state.symbollists.length ≤ i) }

def removeSymbolList (stale : ℕ → α) (sl : α) (state : Registered α) :
    Registered α :=
  (List.range state.symbollists.length).foldl
    (fun state i => visit stale sl i state) state

def addSymbolList (sl : α) (state : Registered α) : Registered α :=
  if sl ∈ state.symbollists then state
  else { state with symbollists := state.symbollists ++ [sl] }

end

inductive Call (α : Type*)
  | add (sl : α)
  | remove (sl : α) (stale : ℕ → α)

section

variable [DecidableEq α]

def Call.execute : Call α → Registered α → Registered α
  | .add sl, state => addSymbolList sl state
  | .remove sl stale, state => removeSymbolList stale sl state

def run (calls : List (Call α)) : Registered α :=
  calls.foldl (fun state call => call.execute state)
    { symbollists := [], outside := false }

def Call.effect : Call α → List α → List α
  | .add sl, lists => if sl ∈ lists then lists else lists ++ [sl]
  | .remove sl _, lists => lists.filter (· ≠ sl)

/-- The lists that were added and not removed since, in the order of their
addition. -/
def added (calls : List (Call α)) : List α :=
  calls.foldl (fun lists call => call.effect lists) []

/-- The array holds the lists that were added and not removed, and no index
outside of it has been used. -/
def HoldsAdded (calls : List (Call α)) : Prop :=
  run calls = { symbollists := added calls, outside := false }

/-- The call removes no list, one that is not there, or the last one. -/
def Call.RemovesLast : Call α → List α → Prop
  | .add _, _ => True
  | .remove sl _, lists => sl ∈ lists → lists.getLast? = some sl

def OnlyLastRemoved (calls : List (Call α)) : Prop :=
  ∀ before call after, calls = before ++ call :: after →
    call.RemovesLast (added before)

theorem added_append (before : List (Call α)) (call : Call α) :
    added (before ++ [call]) = call.effect (added before) := by
  rw [added, foldl_append]
  rfl

theorem run_append (before : List (Call α)) (call : Call α) :
    run (before ++ [call]) = call.execute (run before) := by
  rw [run, foldl_append]
  rfl

theorem added_nodup (calls : List (Call α)) : (added calls).Nodup := by
  induction calls using List.reverseRecOn with
  | nil => exact nodup_nil
  | append_singleton before call ih =>
    rw [added_append]
    cases call with
    | add sl =>
      unfold Call.effect
      dsimp only
      split
      · exact ih
      · rename_i hnew
        exact ih.append (nodup_singleton sl) (by simpa using hnew)
    | remove sl stale => exact ih.filter _

end

/-! ## The loop -/

section

variable {stale : ℕ → α} {sl : α} {i : ℕ} {state : Registered α}

theorem length_moveDown (i : ℕ) (symbollists : List α) :
    (moveDown i symbollists).length = symbollists.length := by
  unfold moveDown
  split
  · exact length_set
  · rfl

theorem length_shift (i : ℕ) (symbollists : List α) :
    (shift i symbollists).length = symbollists.length := by
  unfold shift
  generalize symbollists.length - 1 - i = turns
  induction turns with
  | zero => rfl
  | succ turns ih =>
    rw [Function.iterate_succ_apply', length_moveDown, ih]

variable [DecidableEq α]

theorem length_visit_le :
    (visit stale sl i state).symbollists.length ≤
      state.symbollists.length := by
  unfold visit
  dsimp only
  split
  · rw [length_dropLast, length_shift]
    exact Nat.sub_le _ _
  · exact le_rfl

theorem visit_outside (houtside : state.outside = true) :
    (visit stale sl i state).outside = true := by
  unfold visit
  rw [houtside, Bool.true_or]

theorem visit_other {other : α} (hget : state.symbollists[i]? = some other)
    (hne : other ≠ sl) : visit stale sl i state = state := by
  obtain ⟨hlt, -⟩ := List.getElem?_eq_some_iff.mp hget
  unfold visit
  rw [getD_eq_getElem?_getD, hget, Option.getD_some, if_neg hne,
    decide_eq_false (not_le.mpr hlt), Bool.or_false]

theorem foldl_outside (indices : List ℕ) (houtside : state.outside = true) :
    (indices.foldl (fun state i => visit stale sl i state)
      state).outside = true := by
  induction indices generalizing state with
  | nil => exact houtside
  | cons i rest ih => exact ih (visit_outside houtside)

theorem foldl_other (indices : List ℕ) (hother : ∀ i ∈ indices, ∃ other,
      state.symbollists[i]? = some other ∧ other ≠ sl) :
    indices.foldl (fun state i => visit stale sl i state) state =
      state := by
  induction indices with
  | nil => rfl
  | cons i rest ih =>
    obtain ⟨⟨other, hget, hne⟩, hrest⟩ := forall_mem_cons.mp hother
    rw [foldl_cons, visit_other hget hne]
    exact ih hrest

theorem foldl_behind {indices : List ℕ} (hindex : i ∈ indices)
    (hle : state.symbollists.length ≤ i) :
    (indices.foldl (fun state i => visit stale sl i state)
      state).outside = true := by
  induction indices generalizing state with
  | nil => cases hindex
  | cons first rest ih =>
    rw [foldl_cons]
    rcases mem_cons.mp hindex with rfl | hrest
    · apply foldl_outside
      unfold visit
      rw [decide_eq_true hle, Bool.or_true]
    · exact ih hrest (length_visit_le.trans hle)

variable {before : List α}

theorem removeSymbolList_split {after : List α}
    (hlists : state.symbollists = before ++ sl :: after)
    (hbefore : sl ∉ before) :
    removeSymbolList stale sl state =
      (List.range' (before.length + 1) after.length).foldl
        (fun state i => visit stale sl i state)
        (visit stale sl before.length state) := by
  have hrange : List.range state.symbollists.length =
      List.range before.length ++
        before.length :: List.range' (before.length + 1) after.length := by
    rw [hlists, length_append, length_cons, range_eq_range', range_eq_range',
      ← range'_append_1, range'_succ, Nat.zero_add]
  rw [removeSymbolList, hrange, foldl_append, foldl_cons]
  congr 2
  apply foldl_other
  intro i hi
  have hlt := mem_range.mp hi
  refine ⟨before[i], ?_, ?_⟩
  · rw [hlists, getElem?_append_left hlt]
    exact getElem?_eq_getElem hlt
  · intro heq
    exact hbefore (heq ▸ getElem_mem hlt)

theorem removeSymbolList_absent (habsent : sl ∉ state.symbollists) :
    removeSymbolList stale sl state = state := by
  apply foldl_other
  intro i hi
  have hlt := mem_range.mp hi
  refine ⟨state.symbollists[i], getElem?_eq_getElem hlt, ?_⟩
  intro heq
  exact habsent (heq ▸ getElem_mem hlt)

theorem removeSymbolList_last (hlists : state.symbollists = before ++ [sl])
    (hbefore : sl ∉ before) :
    removeSymbolList stale sl state =
      { state with symbollists := before } := by
  have hget : state.symbollists.getD before.length (stale before.length) =
      sl := by
    rw [hlists, getD_eq_getElem?_getD,
      getElem?_append_right le_rfl, Nat.sub_self]
    rfl
  have hlength : state.symbollists.length = before.length + 1 := by
    rw [hlists, length_append, length_singleton]
  have hshift : shift before.length state.symbollists =
      before ++ [sl] := by
    rw [shift, hlength, Nat.add_sub_cancel, Nat.sub_self, hlists]
    rfl
  rw [removeSymbolList_split hlists hbefore, length_nil, range'_zero,
    foldl_nil, visit, if_pos hget, hshift, dropLast_concat, hlength,
    decide_eq_false (by omega), Bool.or_false]

theorem removeSymbolList_outside {after : List α}
    (hlists : state.symbollists = before ++ sl :: after)
    (hbefore : sl ∉ before) (hafter : after ≠ []) :
    (removeSymbolList stale sl state).outside = true := by
  have hpos := length_pos_of_ne_nil hafter
  have hget : state.symbollists.getD before.length (stale before.length) =
      sl := by
    rw [hlists, getD_eq_getElem?_getD,
      getElem?_append_right le_rfl, Nat.sub_self]
    rfl
  have hlength : state.symbollists.length =
      before.length + (after.length + 1) := by
    rw [hlists, length_append, length_cons]
  have hindex : before.length + after.length ∈
      List.range' (before.length + 1) after.length :=
    mem_range'_1.mpr ⟨by omega, by omega⟩
  rw [removeSymbolList_split hlists hbefore]
  apply foldl_behind hindex
  unfold visit
  rw [if_pos hget, length_dropLast, length_shift, hlength]
  omega

end

/-! ## A sequence of calls -/

section

variable [DecidableEq α]

variable {call : Call α}

theorem execute_removesLast {lists : List α} (hnodup : lists.Nodup)
    (hcall : call.RemovesLast lists) :
    call.execute { symbollists := lists, outside := false } =
      { symbollists := call.effect lists, outside := false } := by
  cases call with
  | add sl =>
    unfold Call.execute addSymbolList Call.effect
    dsimp only
    split <;> rfl
  | remove sl stale =>
    by_cases hmem : sl ∈ lists
    · obtain ⟨before, rfl⟩ :=
        getLast?_eq_some_iff.mp (hcall hmem)
      have hbefore : sl ∉ before := by
        intro hin
        exact (nodup_append.mp hnodup).2.2 sl hin sl
          (mem_singleton_self sl) rfl
      have hkept : ∀ list ∈ before, decide (list ≠ sl) = true := by
        intro list hlist
        exact decide_eq_true fun heq => hbefore (heq ▸ hlist)
      rw [Call.execute, removeSymbolList_last rfl hbefore, Call.effect,
        filter_append, filter_eq_self.mpr hkept]
      simp
    · have hkept : ∀ list ∈ lists, decide (list ≠ sl) = true := by
        intro list hlist
        exact decide_eq_true fun heq => hmem (heq ▸ hlist)
      rw [Call.execute, removeSymbolList_absent hmem, Call.effect,
        filter_eq_self.mpr hkept]

theorem execute_outside {state : Registered α}
    (houtside : state.outside = true) :
    (call.execute state).outside = true := by
  cases call with
  | add sl =>
    rw [Call.execute, addSymbolList]
    split
    · exact houtside
    · exact houtside
  | remove sl stale =>
    rw [Call.execute]
    exact foldl_outside _ houtside

theorem not_removesLast_outside {lists : List α}
    (hcall : ¬ call.RemovesLast lists) :
    (call.execute { symbollists := lists, outside := false }).outside =
      true := by
  cases call with
  | add sl => exact absurd trivial hcall
  | remove sl stale =>
    obtain ⟨hmem, hlast⟩ := Classical.not_imp.mp hcall
    obtain ⟨before, after, hlists, hbefore⟩ :=
      eq_append_cons_of_mem hmem
    apply removeSymbolList_outside hlists hbefore
    rintro rfl
    exact hlast (by rw [hlists, getLast?_concat])

theorem onlyLastRemoved_append {before : List (Call α)} :
    OnlyLastRemoved (before ++ [call]) ↔
      OnlyLastRemoved before ∧ call.RemovesLast (added before) := by
  constructor
  · intro honly
    refine ⟨?_, honly before call [] rfl⟩
    intro first other after heq
    apply honly first other (after ++ [call])
    rw [heq, append_assoc, cons_append]
  · rintro ⟨hbefore, hcall⟩ first other after heq
    cases after using List.reverseRecOn with
    | nil =>
      obtain ⟨rfl, hlast⟩ := append_inj' heq rfl
      obtain rfl := singleton_inj.mp hlast
      exact hcall
    | append_singleton after last =>
      rw [← cons_append, ← append_assoc] at heq
      exact hbefore first other after (append_inj' heq rfl).1

theorem run_eq_added {calls : List (Call α)}
    (honly : OnlyLastRemoved calls) : HoldsAdded calls := by
  induction calls using List.reverseRecOn with
  | nil => rfl
  | append_singleton before call ih =>
    obtain ⟨hbefore, hcall⟩ := onlyLastRemoved_append.mp honly
    rw [HoldsAdded, run_append, ih hbefore, added_append]
    exact execute_removesLast (added_nodup before) hcall

theorem run_outside {calls : List (Call α)}
    (honly : ¬ OnlyLastRemoved calls) : (run calls).outside = true := by
  induction calls using List.reverseRecOn with
  | nil =>
    exfalso
    apply honly
    intro before call after heq
    simp at heq
  | append_singleton before call ih =>
    rw [run_append]
    by_cases hbefore : OnlyLastRemoved before
    · rw [run_eq_added hbefore]
      apply not_removesLast_outside
      intro hcall
      exact honly (onlyLastRemoved_append.mpr ⟨hbefore, hcall⟩)
    · exact execute_outside (ih hbefore)

/-- The array holds the lists that were added if and only if no list is
removed that has others behind it. -/
theorem holdsAdded_iff (calls : List (Call α)) :
    HoldsAdded calls ↔ OnlyLastRemoved calls := by
  refine ⟨fun hholds => ?_, run_eq_added⟩
  by_contra honly
  have houtside := run_outside honly
  rw [hholds] at houtside
  cases houtside

end

/-- The first of three lists is removed: the second one is there twice, and
the third one is lost. -/
theorem not_holdsAdded :
    run [.add 1, .add 2, .add 3, .remove 1 fun _ => 0] =
        { symbollists := [2, 2], outside := true } ∧
      ¬ HoldsAdded [.add 1, .add 2, .add 3, .remove 1 fun _ => 0] := by
  unfold HoldsAdded
  decide

end CheatEngine.RegisteredSymbolLists
