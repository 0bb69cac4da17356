import GraphQLCanon.Grammar.Parser.Executable
import GraphQLCanon.Proofs.ParsingValues

/-!
# Parsing selections

A selection set is parsed by its depth: every set below it has one bracket less to
open. What is parsed fits and was written by the tokens taken, and selections that
fit are taken back. Behind a selection, a colon, arguments, directives and a brace
would prolong it; no selection begins with one of them.
-/

namespace GraphQLCanon.Grammar.Parser

open GraphQLCanon.Lexical

variable {tokens rest : List Token}

/-- What follows the name of a field. -/
def fieldBehind (allowance : Nat) (selections : Parser (List Selection))
    (aliasName : Option String) (fieldName : String) : Parser Selection := do
  let fieldArguments ← arguments false allowance
  let fieldDirectives ← directives false allowance
  if ← sees .openBrace then
    return .field aliasName fieldName fieldArguments fieldDirectives (← selections)
  else return .field aliasName fieldName fieldArguments fieldDirectives []

/-- What follows the type condition of an inline fragment. -/
def inlineBehind (allowance : Nat) (selections : Parser (List Selection))
    (typeCondition : Option String) : Parser Selection := do
  let fragmentDirectives ← directives false allowance
  return .inline typeCondition fragmentDirectives (← selections)

section Soundness

/-- A fragment is not named by the word that opens a type condition. -/
theorem fragmentName_eq_ok {text : String} (taken : fragmentName tokens = .ok (text, rest)) :
    tokens = .name text :: rest ∧ text ≠ "on" := by
  unfold fragmentName at taken
  rw [bind_of_ok (peek_eq tokens)] at taken
  generalize worded : tokens.head?.bind Token.text? = word at taken
  split at taken
  · exact absurd taken refuse_ne_ok
  · rename_i allowed
    have spelled := name_eq_ok taken
    refine ⟨spelled, ?_⟩
    rintro rfl
    rw [spelled] at worded
    exact allowed worded.symm

/-- A selection set in braces fits when it is not empty and every selection does. -/
theorem fits_of_selectionsFit {allowance : Nat} {selections : List Selection}
    {aliasName : Option String} {name : String} {arguments : List (String × Value)}
    {directives : List Directive} (argumentsFit : ArgumentsFit false allowance arguments)
    (directivesFit : DirectivesFit false allowance directives)
    (selectionsFit : SelectionsFit allowance selections) :
    (Selection.field aliasName name arguments directives selections).Fits allowance := by
  obtain ⟨nonempty, inner, rfl, fits⟩ := selectionsFit
  exact .branch aliasName name arguments directives selections argumentsFit directivesFit nonempty
    fits

variable {allowance : Nat} {selections : Parser (List Selection)}

/-- What follows the name of a field was written by the tokens taken. -/
theorem fieldBehind_sound (aliasName : Option String) {fieldName : String}
    (sound : Sound selections selectionTokens (SelectionsFit allowance)) {result : Selection}
    (taken : fieldBehind allowance selections aliasName fieldName tokens = .ok (result, rest)) :
    result.Fits allowance ∧ ∃ shown, Takes tokens rest shown ∧
      result.tokens = headerTokens aliasName fieldName ++ shown := by
  unfold fieldBehind at taken
  obtain ⟨fields, middle, several, further⟩ := bind_eq_ok.1 taken
  obtain ⟨fieldsFit, fieldsTaken⟩ := arguments_sound false allowance several
  obtain ⟨results, behind, applied, further⟩ := bind_eq_ok.1 further
  obtain ⟨resultsFit, resultsTaken⟩ := directives_sound false allowance applied
  rw [bind_of_ok (sees_eq _ _)] at further
  split at further
  · obtain ⟨inner, last, nested, done⟩ := bind_eq_ok.1 further
    obtain ⟨rfl, rfl⟩ := pure_eq_ok.1 done
    obtain ⟨innerFit, innerTaken⟩ := sound nested
    exact ⟨fits_of_selectionsFit fieldsFit resultsFit innerFit, _,
      fieldsTaken.trans (resultsTaken.trans innerTaken), Selection.tokens_field ..⟩
  · obtain ⟨rfl, rfl⟩ := pure_eq_ok.1 further
    exact ⟨.leaf aliasName fieldName fields results fieldsFit resultsFit, _,
      fieldsTaken.trans (resultsTaken.trans (Takes.none _)), Selection.tokens_field ..⟩

/-- A field that was parsed fits, and was written by the tokens taken. -/
theorem field_sound (sound : Sound selections selectionTokens (SelectionsFit allowance)) :
    Sound (field allowance selections) Selection.tokens (Selection.Fits allowance) := by
  intro tokens result rest taken
  unfold field at taken
  obtain ⟨first, middle, named, further⟩ := bind_eq_ok.1 taken
  obtain ⟨passed, behind, looked, onward⟩ := bind_eq_ok.1 further
  rw [name_eq_ok named]
  rcases skip_eq_ok looked with ⟨rfl, rfl⟩ | ⟨rfl, rfl, -⟩
  · obtain ⟨fieldName, last, renamed, onward⟩ := bind_eq_ok.1 onward
    obtain ⟨fits, shown, shownTaken, written⟩ := fieldBehind_sound (some first) sound onward
    rw [name_eq_ok renamed, written]
    exact ⟨fits, ((shownTaken.cons _).cons _).cons _⟩
  · obtain ⟨fits, shown, shownTaken, written⟩ := fieldBehind_sound none sound onward
    rw [written]
    exact ⟨fits, shownTaken.cons _⟩

/-- What follows the type condition of an inline fragment was written by the tokens
taken. -/
theorem inlineBehind_sound (typeCondition : Option String)
    (sound : Sound selections selectionTokens (SelectionsFit allowance)) {result : Selection}
    (taken : inlineBehind allowance selections typeCondition tokens = .ok (result, rest)) :
    result.Fits allowance ∧ ∃ shown, Takes tokens rest shown ∧
      result.tokens = .punctuator .ellipsis :: (conditionTokens typeCondition ++ shown) := by
  obtain ⟨results, behind, applied, further⟩ := bind_eq_ok.1 taken
  obtain ⟨resultsFit, resultsTaken⟩ := directives_sound false allowance applied
  obtain ⟨inner, last, nested, done⟩ := bind_eq_ok.1 further
  obtain ⟨rfl, rfl⟩ := pure_eq_ok.1 done
  obtain ⟨⟨nonempty, deeper, rfl, fits⟩, innerTaken⟩ := sound nested
  exact ⟨.inline typeCondition results inner resultsFit nonempty fits, _,
    resultsTaken.trans innerTaken, Selection.tokens_inline ..⟩

/-- A spread or inline fragment that was parsed fits, and was written by the tokens
taken. -/
theorem fragment_sound (sound : Sound selections selectionTokens (SelectionsFit allowance)) :
    Sound (fragment allowance selections) Selection.tokens (Selection.Fits allowance) := by
  intro tokens result rest taken
  unfold fragment at taken
  obtain ⟨_, middle, signed, further⟩ := bind_eq_ok.1 taken
  rw [expect_eq_ok signed]
  obtain ⟨passed, behind, looked, onward⟩ := bind_eq_ok.1 further
  rcases skipKeyword_eq_ok looked with ⟨rfl, rfl⟩ | ⟨rfl, rfl, unconditional⟩
  · obtain ⟨typeCondition, last, named, onward⟩ := bind_eq_ok.1 onward
    rw [name_eq_ok named]
    obtain ⟨fits, shown, shownTaken, written⟩ :=
      inlineBehind_sound (some typeCondition) sound onward
    rw [written]
    exact ⟨fits, ((shownTaken.cons _).cons _).cons _⟩
  · obtain ⟨_, _, peeked, onward⟩ := bind_eq_ok.1 onward
    cases peeked
    cases middle with
    | nil =>
      obtain ⟨fits, shown, shownTaken, written⟩ := inlineBehind_sound none sound onward
      rw [written]
      exact ⟨fits, shownTaken.cons _⟩
    | cons token others =>
      cases token with
      | name text =>
        obtain ⟨spreadName, last, named, onward⟩ := bind_eq_ok.1 onward
        obtain ⟨spelled, free⟩ := fragmentName_eq_ok named
        obtain ⟨results, last, applied, done⟩ := bind_eq_ok.1 onward
        obtain ⟨rfl, rfl⟩ := pure_eq_ok.1 done
        obtain ⟨resultsFit, resultsTaken⟩ := directives_sound false allowance applied
        rw [spelled]
        exact ⟨.spread spreadName results free resultsFit, (resultsTaken.cons _).cons _⟩
      | _ =>
        obtain ⟨fits, shown, shownTaken, written⟩ := inlineBehind_sound none sound onward
        rw [written]
        exact ⟨fits, shownTaken.cons _⟩

/-- A selection that was parsed fits, and was written by the tokens taken. -/
theorem selection_sound (sound : Sound selections selectionTokens (SelectionsFit allowance)) :
    Sound (selection allowance selections) Selection.tokens (Selection.Fits allowance) := by
  intro tokens result rest taken
  unfold selection at taken
  rw [bind_of_ok (sees_eq _ _)] at taken
  split at taken
  · exact fragment_sound sound taken
  · exact field_sound sound taken

/-- A selection set that was parsed fits, and was written by the tokens taken. -/
theorem selectionSet_sound (allowance : Nat) :
    Sound (selectionSet allowance) selectionTokens (SelectionsFit allowance) := by
  induction allowance with
  | zero =>
    intro tokens result rest taken
    exact absurd taken refuse_ne_ok
  | succ inner inductionHypothesis =>
    intro tokens result rest taken
    obtain ⟨nonempty, fits, written⟩ :=
      enclosedSome_sound (selection_sound inductionHypothesis) taken
    exact ⟨⟨nonempty, inner, rfl, fits⟩, written.plain⟩

end Soundness

section Completeness

/-- The signs that would prolong a selection. -/
def selectionSigns : List Token :=
  [.punctuator .colon, .punctuator .openParenthesis, .punctuator .atSign, .punctuator .openBrace]

/-- A selection begins with a name or with dots. -/
theorem clear_selection (result : Selection) (rest : List Token) :
    Clear (.punctuator .closeBrace :: selectionSigns) (result.tokens ++ rest) := by
  cases result with
  | field aliasName name arguments directives selections =>
    cases aliasName <;> simp [Clear, selectionSigns, Selection.tokens, headerTokens]
  | spread name directives => simp [Clear, selectionSigns, Selection.tokens]
  | inline typeCondition directives selections =>
    simp [Clear, selectionSigns, Selection.tokens]

/-- The selections of a set are taken back when each of them is. -/
theorem selectionSet_returns_of_each {inner : Nat} {results : List Selection}
    (nonempty : results ≠ [])
    (returned : ∀ result ∈ results,
      Returns (selection inner (selectionSet inner)) result.tokens result selectionSigns) :
    Returns (selectionSet (inner + 1)) (selectionTokens results) results [] := by
  have apart : Apart (selection inner (selectionSet inner)) Selection.tokens .closeBrace
      selectionSigns results := {
    unbarred := by simp [selectionSigns]
    returned := returned
    begun := fun result _ rest => clear_selection result rest }
  exact enclosedSome_returns apart nonempty

/-- Arguments and directives are taken back behind a name, in front of a brace too. -/
theorem fieldBehind_append {allowance : Nat} {selections : Parser (List Selection)}
    {aliasName : Option String} {fieldName : String} {fields : List (String × Value)}
    {results : List Directive} (fieldsFit : ArgumentsFit false allowance fields)
    (resultsFit : DirectivesFit false allowance results)
    (clear : Clear [.punctuator .openParenthesis, .punctuator .atSign] rest) :
    fieldBehind allowance selections aliasName fieldName
        (argumentTokens fields ++ (directiveTokens results ++ rest)) =
      (do
        if ← sees .openBrace then
          return .field aliasName fieldName fields results (← selections)
        else return .field aliasName fieldName fields results [] : Parser Selection) rest := by
  have behind : Clear [.punctuator .openParenthesis] (directiveTokens results ++ rest) :=
    (clear.of_subset (by simp)).append (directiveTokens_begun results) (by simp)
  have clearDirectives : Clear [.punctuator .atSign, .punctuator .openParenthesis] rest :=
    clear.of_subset (by simp)
  unfold fieldBehind
  rw [bind_of_ok (arguments_returns fieldsFit _ behind),
    bind_of_ok (directives_returns resultsFit _ clearDirectives)]

/-- A name, perhaps behind an alias, is taken in front of anything but a colon. -/
theorem field_append {allowance : Nat} {selections : Parser (List Selection)}
    {aliasName : Option String} {fieldName : String} (clear : Clear [.punctuator .colon] rest) :
    selection allowance selections (headerTokens aliasName fieldName ++ rest) =
      fieldBehind allowance selections aliasName fieldName rest := by
  unfold selection
  rw [bind_of_ok (sees_eq _ _)]
  cases aliasName with
  | none =>
    have alone := skip_of_head_ne (clear _ List.mem_cons_self)
    refine (bind_of_ok (name_cons fieldName rest)).trans ?_
    exact bind_of_ok alone
  | some aliasName =>
    refine (bind_of_ok (name_cons aliasName _)).trans ?_
    refine (bind_of_ok (skip_cons .colon _)).trans ?_
    exact bind_of_ok (name_cons fieldName rest)

/-- What stands behind the name of a field is no colon, given what stands behind the
field. -/
theorem clear_colon {fields : List (String × Value)} {results : List Directive}
    (clear : Clear [.punctuator .colon] rest) :
    Clear [.punctuator .colon] (argumentTokens fields ++ (directiveTokens results ++ rest)) :=
  (clear.append (directiveTokens_begun results) (by simp)).append
    (enclosedTokens_begun _ _ namedTokens fields) (by simp)

/-- Selections that a set opens with are no prolongation of what stands before. -/
theorem selectionTokens_eq_cons {selections : List Selection} (nonempty : selections ≠ []) :
    ∃ others, selectionTokens selections = .punctuator .openBrace :: others := by
  obtain ⟨first, others, rfl⟩ := List.exists_cons_of_ne_nil nonempty
  exact ⟨_, rfl⟩

/-- Directives and the selections behind them begin with a sign. -/
theorem opens_with_sign (results : List Directive) {selections : List Selection}
    (nonempty : selections ≠ []) (rest : List Token) :
    ∃ sign others, directiveTokens results ++ selectionTokens selections ++ rest =
      .punctuator sign :: others := by
  cases results with
  | nil =>
    obtain ⟨others, opened⟩ := selectionTokens_eq_cons nonempty
    exact ⟨.openBrace, others ++ rest, by rw [opened]; rfl⟩
  | cons first others => exact ⟨.atSign, _, rfl⟩

/-- The name of a fragment is taken back when it is not the word that opens a type
condition. -/
theorem fragmentName_cons {text : String} (free : text ≠ "on") (rest : List Token) :
    fragmentName (.name text :: rest) = .ok (text, rest) := by
  unfold fragmentName
  rw [bind_of_ok (peek_eq _)]
  generalize worded : (Token.name text :: rest).head?.bind Token.text? = word
  split
  · cases worded
    exact absurd rfl free
  · exact name_cons text rest

/-- An inline fragment whose directives fit is taken back when its selections are. -/
theorem inlineBehind_returns {allowance : Nat} {selections : Parser (List Selection)}
    (typeCondition : Option String) {results : List Directive} {inner : List Selection}
    (resultsFit : DirectivesFit false allowance results) (nonempty : inner ≠ [])
    (returned : Returns selections (selectionTokens inner) inner []) :
    Returns (inlineBehind allowance selections typeCondition)
      (directiveTokens results ++ selectionTokens inner) (.inline typeCondition results inner)
      [] := by
  intro rest clear
  obtain ⟨others, opened⟩ := selectionTokens_eq_cons nonempty
  have apart : Clear [.punctuator .atSign, .punctuator .openParenthesis]
      (selectionTokens inner ++ rest) := by
    simp [Clear, opened]
  unfold inlineBehind
  rw [List.append_assoc, bind_of_ok (directives_returns resultsFit _ apart),
    bind_of_ok (returned rest clear)]
  rfl

/-- A field without selections is taken back, in front of anything that does not prolong
it. -/
theorem leaf_returns {allowance : Nat} (aliasName : Option String) (name : String)
    {fields : List (String × Value)} {results : List Directive}
    (fieldsFit : ArgumentsFit false allowance fields)
    (resultsFit : DirectivesFit false allowance results) :
    Returns (selection allowance (selectionSet allowance))
      (Selection.field aliasName name fields results []).tokens
      (.field aliasName name fields results []) selectionSigns := by
  intro rest clear
  have plain : Clear [.punctuator .openParenthesis, .punctuator .atSign] rest :=
    clear.of_subset (by simp [selectionSigns])
  have uncoloned : Clear [.punctuator .colon] rest :=
    clear.of_subset (by simp [selectionSigns])
  have unopened : rest.head? ≠ some (.punctuator .openBrace) :=
    clear _ (by simp [selectionSigns])
  have tokens_eq : (Selection.field aliasName name fields results []).tokens ++ rest =
      headerTokens aliasName name ++
        (argumentTokens fields ++ (directiveTokens results ++ rest)) := by
    simp [Selection.tokens]
  rw [tokens_eq, field_append (clear_colon uncoloned),
    fieldBehind_append fieldsFit resultsFit plain,
    bind_of_ok (sees_eq _ _), if_neg (by simpa using unopened)]
  rfl

/-- A field with selections is taken back when its selections are. -/
theorem branch_returns {inner : Nat} (aliasName : Option String) (name : String)
    {fields : List (String × Value)} {results : List Directive} {selections : List Selection}
    (fieldsFit : ArgumentsFit false (inner + 1) fields)
    (resultsFit : DirectivesFit false (inner + 1) results) (nonempty : selections ≠ [])
    (returned : Returns (selectionSet (inner + 1)) (selectionTokens selections) selections []) :
    Returns (selection (inner + 1) (selectionSet (inner + 1)))
      (Selection.field aliasName name fields results selections).tokens
      (.field aliasName name fields results selections) selectionSigns := by
  intro rest _
  have nested := returned rest (by simp [Clear])
  obtain ⟨others, opened⟩ := selectionTokens_eq_cons nonempty
  have tokens_eq : (Selection.field aliasName name fields results selections).tokens ++ rest =
      headerTokens aliasName name ++ (argumentTokens fields ++ (directiveTokens results ++
        (selectionTokens selections ++ rest))) := by
    rw [Selection.tokens_field]
    simp only [List.append_assoc]
  rw [tokens_eq, field_append (clear_colon (by simp [opened, Clear])),
    fieldBehind_append fieldsFit resultsFit (by simp [opened, Clear]), bind_of_ok (sees_eq _ _),
    if_pos (by simp [opened])]
  exact bind_of_ok nested

/-- A spread is taken back, in front of anything but a directive. -/
theorem spread_returns {allowance : Nat} {name : String} {results : List Directive}
    (free : name ≠ "on") (resultsFit : DirectivesFit false allowance results) :
    Returns (selection allowance (selectionSet allowance)) (Selection.spread name results).tokens
      (.spread name results) selectionSigns := by
  intro rest clear
  have plain : Clear [.punctuator .atSign, .punctuator .openParenthesis] rest :=
    clear.of_subset (by simp [selectionSigns])
  rw [Selection.tokens, List.cons_append]
  unfold selection
  rw [bind_of_ok (sees_eq _ _), if_pos (by simp)]
  unfold fragment
  refine (bind_of_ok (expect_cons .ellipsis _)).trans ?_
  refine (bind_of_ok (skipKeyword_of_head_ne (by simpa using free))).trans ?_
  refine (bind_of_ok (peek_eq _)).trans ?_
  refine (bind_of_ok (fragmentName_cons free _)).trans ?_
  exact bind_of_ok (directives_returns resultsFit rest plain)

/-- An inline fragment is taken back when its selections are. -/
theorem inline_returns {inner : Nat} (typeCondition : Option String) {results : List Directive}
    {selections : List Selection} (resultsFit : DirectivesFit false (inner + 1) results)
    (nonempty : selections ≠ [])
    (returned : Returns (selectionSet (inner + 1)) (selectionTokens selections) selections []) :
    Returns (selection (inner + 1) (selectionSet (inner + 1)))
      (Selection.inline typeCondition results selections).tokens
      (.inline typeCondition results selections) selectionSigns := by
  intro rest _
  have behind := inlineBehind_returns typeCondition resultsFit nonempty returned rest
    (by simp [Clear])
  rw [Selection.tokens_inline, List.cons_append, List.append_assoc]
  unfold selection
  rw [bind_of_ok (sees_eq _ _), if_pos (by simp)]
  unfold fragment
  refine (bind_of_ok (expect_cons .ellipsis _)).trans ?_
  cases typeCondition with
  | some typeCondition =>
    refine (bind_of_ok (skipKeyword_cons "on" _)).trans ?_
    refine (bind_of_ok (name_cons typeCondition _)).trans ?_
    exact behind
  | none =>
    obtain ⟨sign, following, signed⟩ := opens_with_sign results nonempty rest
    rw [signed] at behind ⊢
    refine (bind_of_ok (skipKeyword_of_head_ne (by simp [conditionTokens]))).trans ?_
    refine (bind_of_ok (peek_eq _)).trans ?_
    exact behind

/-- A selection that fits is taken back, in front of anything that does not prolong
it. -/
theorem selection_returns {allowance : Nat} {result : Selection} (fits : result.Fits allowance) :
    Returns (selection allowance (selectionSet allowance)) result.tokens result
      selectionSigns := by
  induction fits with
  | leaf aliasName name fields results fieldsFit resultsFit =>
    exact leaf_returns aliasName name fieldsFit resultsFit
  | branch aliasName name fields results selections fieldsFit resultsFit nonempty _
    inductionHypothesis =>
    exact branch_returns aliasName name fieldsFit resultsFit nonempty
      (selectionSet_returns_of_each nonempty inductionHypothesis)
  | spread name results free resultsFit => exact spread_returns free resultsFit
  | inline typeCondition results selections resultsFit nonempty _ inductionHypothesis =>
    exact inline_returns typeCondition resultsFit nonempty
      (selectionSet_returns_of_each nonempty inductionHypothesis)

/-- A selection set that fits is taken back, in front of anything. -/
theorem selectionSet_returns {allowance : Nat} {results : List Selection}
    (fit : SelectionsFit allowance results) :
    Returns (selectionSet allowance) (selectionTokens results) results [] := by
  obtain ⟨nonempty, inner, rfl, fits⟩ := fit
  exact selectionSet_returns_of_each nonempty fun result inside =>
    selection_returns (fits result inside)

end Completeness

end GraphQLCanon.Grammar.Parser
