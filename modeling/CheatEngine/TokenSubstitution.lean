import CheatEngine.TokenText

/-!
# Substitutions of tokens

Two substitutions one after the other are one substitution, and two that give
the same text agree on its tokens, if one of them never gives the longer
images.
-/

namespace CheatEngine.TokenText

open List

variable {α : Type*} {isToken : α → Bool}

variable {current rest token input : List α} {first second : List α → List α}
  (map : List α → List α)

theorem tokensFrom_infix (htoken : token ∈ tokensFrom isToken current rest) :
    token <:+: current ++ rest := by
  induction rest generalizing current with
  | nil =>
    rw [tokensFrom] at htoken
    split at htoken
    · exact absurd htoken not_mem_nil
    · rw [mem_singleton.mp htoken, append_nil]
  | cons symbol rest ih =>
    rw [tokensFrom] at htoken
    split at htoken
    · have hwithin := ih htoken
      rwa [append_assoc] at hwithin
    · rcases mem_append.mp htoken with hmem | hmem
      · split at hmem
        · exact absurd hmem not_mem_nil
        · rw [mem_singleton.mp hmem]
          exact infix_append_left
      · exact (ih hmem).trans
          (suffix_append_of_suffix (suffix_cons _ _)).isInfix

theorem tokens_within (htoken : token ∈ tokens isToken input) :
    token <:+: input :=
  tokensFrom_infix htoken

theorem tokensFrom_word
    (hcurrent : ∀ symbol ∈ current, isToken symbol = true)
    (htoken : token ∈ tokensFrom isToken current rest) :
    token ≠ [] ∧ ∀ symbol ∈ token, isToken symbol = true := by
  induction rest generalizing current with
  | nil =>
    rw [tokensFrom] at htoken
    split_ifs at htoken with hnil
    · exact absurd htoken not_mem_nil
    · obtain rfl := mem_singleton.mp htoken
      exact ⟨hnil, hcurrent⟩
  | cons symbol rest ih =>
    rw [tokensFrom] at htoken
    split_ifs at htoken with hsymbol hnil
    · refine ih ?_ htoken
      rw [forall_mem_append, forall_mem_singleton]
      exact ⟨hcurrent, hsymbol⟩
    · exact ih (by simp) htoken
    · rcases mem_append.mp htoken with hmem | hmem
      · obtain rfl := mem_singleton.mp hmem
        exact ⟨hnil, hcurrent⟩
      · exact ih (by simp) hmem

theorem tokens_word (htoken : token ∈ tokens isToken input) :
    token ≠ [] ∧ ∀ symbol ∈ token, isToken symbol = true :=
  tokensFrom_word (by simp) htoken

theorem substituteFrom_run (current : List α) {word : List α}
    (hword : ∀ symbol ∈ word, isToken symbol = true) (rest : List α) :
    substituteFrom isToken map current (word ++ rest) =
      substituteFrom isToken map (current ++ word) rest := by
  induction word generalizing current with
  | nil => rw [append_nil]; rfl
  | cons symbol word ih =>
    rw [forall_mem_cons] at hword
    rw [cons_append, substituteFrom, if_pos hword.1, ih _ hword.2,
      append_assoc]
    rfl

theorem substitute_word {word : List α} (hne : word ≠ [])
    (hword : ∀ symbol ∈ word, isToken symbol = true) :
    substitute isToken map word = map word := by
  have hrun := substituteFrom_run map [] hword []
  rw [append_nil, nil_append] at hrun
  rw [substitute, hrun, substituteFrom, if_neg hne]

theorem substituteFrom_separator (current before : List α) {symbol : α}
    (hsymbol : isToken symbol = false) (after : List α) :
    substituteFrom isToken map current (before ++ symbol :: after) =
      substituteFrom isToken map current before ++
        symbol :: substitute isToken map after := by
  induction before generalizing current with
  | nil =>
    rw [nil_append, substituteFrom, substituteFrom, hsymbol]
    rfl
  | cons first before ih =>
    rw [cons_append, substituteFrom, substituteFrom, ih, ih]
    by_cases hfirst : isToken first = true
    · rw [if_pos hfirst, if_pos hfirst]
    · rw [if_neg hfirst, if_neg hfirst, append_assoc, cons_append]

theorem substituteFrom_twice (first second : List α → List α)
    (current rest : List α) :
    substitute isToken second (substituteFrom isToken first current rest) =
      substituteFrom isToken
        (fun token => substitute isToken second (first token))
        current rest := by
  induction rest generalizing current with
  | nil =>
    rw [substituteFrom, substituteFrom]
    split_ifs
    · rfl
    · rfl
  | cons symbol rest ih =>
    rw [substituteFrom, substituteFrom]
    cases hsymbol : isToken symbol with
    | true => exact ih _
    | false =>
      rw [if_neg Bool.false_ne_true, if_neg Bool.false_ne_true,
        substitute, substituteFrom_separator second [] _ hsymbol, ih]
      split_ifs
      · rfl
      · rfl

theorem substitute_substitute (first second : List α → List α)
    (input : List α) :
    substitute isToken second (substitute isToken first input) =
      substitute isToken
        (fun token => substitute isToken second (first token)) input :=
  substituteFrom_twice first second [] input

theorem substituteFrom_congr
    (hmaps : ∀ token ∈ tokensFrom isToken current rest,
      first token = second token) :
    substituteFrom isToken first current rest =
      substituteFrom isToken second current rest := by
  induction rest generalizing current with
  | nil =>
    rw [tokensFrom] at hmaps
    rw [substituteFrom, substituteFrom]
    split_ifs with hnil
    · rfl
    · rw [if_neg hnil] at hmaps
      exact hmaps current mem_cons_self
  | cons symbol rest ih =>
    rw [tokensFrom] at hmaps
    rw [substituteFrom, substituteFrom]
    split_ifs at hmaps ⊢ with hsymbol hnil
    · exact ih hmaps
    · exact congrArg (symbol :: ·) (ih hmaps)
    · rw [singleton_append, forall_mem_cons] at hmaps
      rw [hmaps.1, ih hmaps.2]

theorem substitute_congr
    (hmaps : ∀ token ∈ tokens isToken input, first token = second token) :
    substitute isToken first input = substitute isToken second input :=
  substituteFrom_congr hmaps

theorem substitute_id {map : List α → List α}
    (hid : ∀ token ∈ tokens isToken input, map token = token) :
    substitute isToken map input = input :=
  substituteFrom_id map [] input hid

section

variable (hmaps : ∀ token ∈ tokensFrom isToken current rest,
      (first token).length ≤ (second token).length)

include hmaps

theorem substituteFrom_length :
    (substituteFrom isToken first current rest).length ≤
      (substituteFrom isToken second current rest).length := by
  induction rest generalizing current with
  | nil =>
    rw [tokensFrom] at hmaps
    rw [substituteFrom, substituteFrom]
    split_ifs with hnil
    · exact Nat.le_refl _
    · rw [if_neg hnil] at hmaps
      exact hmaps current mem_cons_self
  | cons symbol rest ih =>
    rw [tokensFrom] at hmaps
    rw [substituteFrom, substituteFrom]
    split_ifs at hmaps ⊢ with hsymbol hnil
    · exact ih hmaps
    · exact Nat.succ_le_succ (ih hmaps)
    · rw [singleton_append, forall_mem_cons] at hmaps
      rw [length_append, length_append]
      exact Nat.add_le_add hmaps.1 (Nat.succ_le_succ (ih hmaps.2))

theorem substituteFrom_inj (heq : substituteFrom isToken first current rest =
      substituteFrom isToken second current rest) :
    ∀ token ∈ tokensFrom isToken current rest,
      first token = second token := by
  induction rest generalizing current with
  | nil =>
    rw [tokensFrom] at hmaps ⊢
    rw [substituteFrom, substituteFrom] at heq
    split_ifs at heq ⊢ with hnil
    · exact fun _ hmem => absurd hmem not_mem_nil
    · rw [forall_mem_singleton]
      exact heq
  | cons symbol rest ih =>
    rw [tokensFrom] at hmaps ⊢
    rw [substituteFrom, substituteFrom] at heq
    split_ifs at hmaps heq ⊢ with hsymbol hnil
    · exact ih hmaps heq
    · exact ih hmaps (List.cons.inj heq).2
    · rw [singleton_append, forall_mem_cons] at hmaps ⊢
      have hlength := congrArg List.length heq
      have hrest := substituteFrom_length hmaps.2
      rw [length_append, length_append, length_cons, length_cons] at hlength
      have hcurrent : (first current).length = (second current).length := by
        have hle := hmaps.1
        omega
      obtain ⟨hfirst, htail⟩ := append_inj heq hcurrent
      exact ⟨hfirst, ih hmaps.2 (List.cons.inj htail).2⟩

end

theorem substitute_inj (hmaps : ∀ token ∈ tokens isToken input,
      (first token).length ≤ (second token).length)
    (heq : substitute isToken first input = substitute isToken second input) :
    ∀ token ∈ tokens isToken input, first token = second token :=
  substituteFrom_inj hmaps heq

end CheatEngine.TokenText
