import Mathlib.Tactic

/-!
# Tokens of a text

A token of a text is a maximal run of symbols that satisfy a predicate.  The
loop that finds the tokens together with their positions, the replacement of
a token by cutting the text at these positions, and what that replacement
does to the list of tokens.
-/

namespace CheatEngine.TokenText

open List

variable {α : Type*} (isToken : α → Bool)

def tokenAt (input : List α) (start : Option ℕ) (stop : ℕ) :
    List (List α × ℕ) :=
  match start with
  | none => []
  | some start => [((input.drop start).take (stop - start), start)]

def tokenizeFrom (input : List α) (index : ℕ) (start : Option ℕ) :
    List α → List (List α × ℕ)
  | [] => tokenAt input start index
  | symbol :: rest =>
    if isToken symbol then
      tokenizeFrom input (index + 1) (start <|> some index) rest
    else
      tokenAt input start index ++
        tokenizeFrom input (index + 1) none rest

def tokenize (input : List α) : List (List α × ℕ) :=
  tokenizeFrom isToken input 0 none input

def replaceAt [DecidableEq α] (token replacement : List α)
    (found : List α × ℕ) (result : List α) : List α :=
  if found.1 = token then
    result.take found.2 ++ replacement ++
      result.drop (found.2 + token.length)
  else
    result

def replaceToken [DecidableEq α] (input token replacement : List α) :
    List α :=
  (tokenize isToken input).foldr (replaceAt token replacement) input

def hasToken [DecidableEq α] (input token : List α) : Bool :=
  (tokenize isToken input).any (fun found => found.1 = token)

def tokensFrom (current : List α) : List α → List (List α)
  | [] => if current = [] then [] else [current]
  | symbol :: rest =>
    if isToken symbol then
      tokensFrom (current ++ [symbol]) rest
    else
      (if current = [] then [] else [current]) ++ tokensFrom [] rest

def tokens (input : List α) : List (List α) :=
  tokensFrom isToken [] input

def substituteFrom (map : List α → List α) (current : List α) :
    List α → List α
  | [] => if current = [] then [] else map current
  | symbol :: rest =>
    if isToken symbol then
      substituteFrom map (current ++ [symbol]) rest
    else
      (if current = [] then [] else map current) ++
        symbol :: substituteFrom map [] rest

def substitute (map : List α → List α) (input : List α) : List α :=
  substituteFrom isToken map [] input

variable {isToken}

/-- The loop state that stands for a token `current` begun after `done`. -/
def startOf (done current : List α) : Option ℕ :=
  if current = [] then none else some done.length

theorem tokenAt_startOf (done current rest : List α) :
    tokenAt (done ++ current ++ rest) (startOf done current)
        (done ++ current).length =
      if current = [] then [] else [(current, done.length)] := by
  unfold startOf
  split
  · rfl
  · simp [tokenAt]

theorem startOf_append (done current : List α) (symbol : α) :
    (startOf done current <|> some (done ++ current).length) =
      startOf done (current ++ [symbol]) := by
  by_cases hcurrent : current = []
  · simp [startOf, hcurrent]
  · simp [startOf, hcurrent]

variable (map : List α → List α) (input : List α)

theorem tokenizeFrom_tokens (done current rest : List α)
    (hinput : input = done ++ current ++ rest) :
    (tokenizeFrom isToken input (done ++ current).length
        (startOf done current) rest).map Prod.fst =
      tokensFrom isToken current rest := by
  induction rest generalizing done current with
  | nil =>
    simp only [tokenizeFrom, tokensFrom]
    rw [hinput, tokenAt_startOf]
    split <;> simp
  | cons symbol rest ih =>
    simp only [tokenizeFrom, tokensFrom]
    split
    · have hnext := ih done (current ++ [symbol]) (by simp [hinput])
      rw [startOf_append done current symbol]
      simpa [Nat.add_assoc] using hnext
    · have hnext := ih (done ++ current ++ [symbol]) [] (by simp [hinput])
      have hflush := tokenAt_startOf done current (symbol :: rest)
      rw [← hinput] at hflush
      rw [map_append, hflush]
      have hrest :
          (tokenizeFrom isToken input ((done ++ current).length + 1) none
            rest).map Prod.fst = tokensFrom isToken [] rest := by
        simpa [startOf, Nat.add_assoc] using hnext
      rw [hrest]
      split <;> simp

theorem tokenize_tokens :
    (tokenize isToken input).map Prod.fst = tokens isToken input := by
  have hfrom :
      (tokenizeFrom isToken input ([] ++ []).length (startOf [] [])
        input).map Prod.fst = tokensFrom isToken [] input :=
    tokenizeFrom_tokens input [] [] input (by simp)
  simpa [startOf, tokenize, tokens] using hfrom

theorem hasToken_iff [DecidableEq α] (input token : List α) :
    hasToken isToken input token = true ↔ token ∈ tokens isToken input := by
  rw [hasToken, any_eq_true, ← tokenize_tokens, mem_map]
  simp

section

variable [DecidableEq α]

def replaced (token replacement current : List α) : List α :=
  if current = token then replacement else current

theorem replaceAt_flush (token replacement done current rest : List α) :
    (if current = [] then [] else [(current, done.length)]).foldr
        (replaceAt token replacement) (done ++ current ++ rest) =
      done ++ (if current = [] then []
        else replaced token replacement current) ++ rest := by
  by_cases hcurrent : current = []
  · simp [hcurrent]
  · simp only [hcurrent, if_false, foldr_cons, foldr_nil]
    unfold replaceAt replaced
    by_cases hequal : current = token
    · subst hequal
      simp [drop_append]
    · simp [hequal]

theorem foldr_tokenizeFrom (token replacement input done current rest : List α)
    (hinput : input = done ++ current ++ rest) :
    (tokenizeFrom isToken input (done ++ current).length
        (startOf done current) rest).foldr
        (replaceAt token replacement) input =
      done ++
        substituteFrom isToken (replaced token replacement) current rest := by
  induction rest generalizing done current with
  | nil =>
    simp only [tokenizeFrom, substituteFrom]
    rw [hinput, tokenAt_startOf]
    simpa using replaceAt_flush token replacement done current []
  | cons symbol rest ih =>
    simp only [tokenizeFrom, substituteFrom]
    split
    · have hnext := ih done (current ++ [symbol]) (by simp [hinput])
      rw [startOf_append done current symbol]
      simpa [Nat.add_assoc] using hnext
    · have hnext := ih (done ++ current ++ [symbol]) [] (by simp [hinput])
      have hrest :
          (tokenizeFrom isToken input ((done ++ current).length + 1) none
            rest).foldr (replaceAt token replacement) input =
            done ++ current ++ (symbol :: substituteFrom isToken
              (replaced token replacement) [] rest) := by
        simpa [startOf, Nat.add_assoc] using hnext
      have hflush := tokenAt_startOf done current (symbol :: rest)
      rw [← hinput] at hflush
      rw [foldr_append, hflush, hrest, replaceAt_flush]
      simp

theorem replaceToken_eq_substitute (input token replacement : List α) :
    replaceToken isToken input token replacement =
      substitute isToken (replaced token replacement) input := by
  have hfrom :
      (tokenizeFrom isToken input ([] ++ []).length (startOf [] [])
        input).foldr (replaceAt token replacement) input =
        [] ++ substituteFrom isToken (replaced token replacement) [] input :=
    foldr_tokenizeFrom token replacement input [] [] input (by simp)
  simpa [startOf, replaceToken, tokenize, substitute] using hfrom

end

/-! ## The tokens of a text after a replacement -/

theorem tokensFrom_run (current word rest : List α)
    (hword : ∀ symbol ∈ word, isToken symbol = true) :
    tokensFrom isToken current (word ++ rest) =
      tokensFrom isToken (current ++ word) rest := by
  induction word generalizing current with
  | nil => simp
  | cons symbol word ih =>
    have hsymbol := hword symbol (by simp)
    simp only [cons_append, tokensFrom, hsymbol, if_true]
    rw [ih _ (fun other hother => hword other (by simp [hother]))]
    simp

theorem tokens_run (word : List α) (hne : word ≠ [])
    (hword : ∀ symbol ∈ word, isToken symbol = true) :
    tokens isToken word = [word] := by
  have hrun :
      tokensFrom isToken [] (word ++ []) = tokensFrom isToken ([] ++ word) [] :=
    tokensFrom_run [] word [] hword
  simp only [append_nil, nil_append] at hrun
  rw [tokens, hrun, tokensFrom, if_neg hne]

theorem tokensFrom_substituteFrom (current rest : List α)
    (hcurrent : ∀ symbol ∈ current, isToken symbol = true)
    (hmap : ∀ token, token ≠ [] →
      (∀ symbol ∈ token, isToken symbol = true) →
      map token ≠ [] ∧ ∀ symbol ∈ map token, isToken symbol = true) :
    tokens isToken (substituteFrom isToken map current rest) =
      (tokensFrom isToken current rest).map map := by
  induction rest generalizing current with
  | nil =>
    by_cases hnil : current = []
    · simp [substituteFrom, tokensFrom, hnil, tokens]
    · obtain ⟨hne, hall⟩ := hmap current hnil hcurrent
      simp only [substituteFrom, tokensFrom, hnil, if_false]
      exact tokens_run _ hne hall
  | cons symbol rest ih =>
    by_cases hsymbol : isToken symbol = true
    · simp only [substituteFrom, tokensFrom, hsymbol, if_true]
      apply ih
      intro other hother
      rcases mem_append.mp hother with hmem | hmem
      · exact hcurrent other hmem
      · rw [mem_singleton.mp hmem]
        exact hsymbol
    · have hrest := ih [] (by simp)
      by_cases hnil : current = []
      · simp only [substituteFrom, tokensFrom, hsymbol, hnil, if_true,
          Bool.false_eq_true, if_false, nil_append, tokens]
        simpa [tokens] using hrest
      · obtain ⟨hne, hall⟩ := hmap current hnil hcurrent
        simp only [substituteFrom, tokensFrom, hsymbol, hnil,
          Bool.false_eq_true, if_false, tokens]
        rw [tokensFrom_run _ _ _ hall]
        simp only [tokensFrom, hsymbol, nil_append, hne,
          Bool.false_eq_true, if_false]
        rw [show tokensFrom isToken [] (substituteFrom isToken map [] rest)
          = _ from hrest]
        simp

theorem tokens_substitute (hmap : ∀ token, token ≠ [] →
      (∀ symbol ∈ token, isToken symbol = true) →
      map token ≠ [] ∧ ∀ symbol ∈ map token, isToken symbol = true) :
    tokens isToken (substitute isToken map input) =
      (tokens isToken input).map map :=
  tokensFrom_substituteFrom map [] input (by simp) hmap

theorem substituteFrom_id (current rest : List α)
    (hid : ∀ token ∈ tokensFrom isToken current rest, map token = token) :
    substituteFrom isToken map current rest = current ++ rest := by
  induction rest generalizing current with
  | nil =>
    by_cases hnil : current = []
    · simp [substituteFrom, hnil]
    · have hcurrent := hid current (by simp [tokensFrom, hnil])
      simp [substituteFrom, hnil, hcurrent]
  | cons symbol rest ih =>
    by_cases hsymbol : isToken symbol = true
    · simp only [substituteFrom, tokensFrom, hsymbol, if_true] at hid ⊢
      rw [ih _ hid]
      simp
    · simp only [substituteFrom, tokensFrom, hsymbol, Bool.false_eq_true,
        if_false] at hid ⊢
      have hrest := ih [] (fun token htoken => hid token (by simp [htoken]))
      rw [hrest]
      by_cases hnil : current = []
      · simp [hnil]
      · have hcurrent := hid current (by simp [hnil])
        simp [hnil, hcurrent]

section

variable [DecidableEq α]

theorem replaceToken_of_notMem {input token : List α}
    (replacement : List α) (habsent : token ∉ tokens isToken input) :
    replaceToken isToken input token replacement = input := by
  rw [replaceToken_eq_substitute, substitute, substituteFrom_id]
  · rfl
  · intro other hother
    unfold replaced
    split
    · next hequal =>
        rw [hequal] at hother
        exact absurd hother habsent
    · rfl

theorem tokens_replaceToken {input token replacement : List α}
    (hne : replacement ≠ [])
    (hword : ∀ symbol ∈ replacement, isToken symbol = true) :
    tokens isToken (replaceToken isToken input token replacement) =
      (tokens isToken input).map (replaced token replacement) := by
  rw [replaceToken_eq_substitute]
  apply tokens_substitute
  intro other hother hall
  unfold replaced
  split
  · exact ⟨hne, hword⟩
  · exact ⟨hother, hall⟩

theorem mem_tokens_replaceToken {input token replacement other : List α}
    (hne : replacement ≠ [])
    (hword : ∀ symbol ∈ replacement, isToken symbol = true)
    (hother : other ∈ tokens isToken
      (replaceToken isToken input token replacement)) :
    (other ∈ tokens isToken input ∧ other ≠ token) ∨ other = replacement := by
  rw [tokens_replaceToken hne hword, mem_map] at hother
  obtain ⟨source, hsource, himage⟩ := hother
  unfold replaced at himage
  split at himage
  · exact Or.inr himage.symm
  · next hdistinct =>
      rw [← himage]
      exact Or.inl ⟨hsource, hdistinct⟩

end

end CheatEngine.TokenText
