import GraphQLCanon.Proofs.QueryRoundTrip

/-!
# Tokens of formatted queries

Formatting a query loses no token and invents none, but for two things: the
descriptions of operations, fragments and variables are dropped, and every shorthand
gains the keyword that it was written without. Both are counted against the source
text, so neither the conversion nor the printer has to be trusted.
-/

namespace GraphQLCanon.Grammar

open GraphQLCanon.Lexical

/-- True for an operation that is written without its keyword. -/
def Definition.isShorthand : Definition → Bool
  | shorthand _ => true
  | _ => false

/-- The keyword that a definition gains, if it is a shorthand. -/
def Definition.gainedTokens (definition : Definition) : List Token :=
  if definition.isShorthand then [.name OperationType.query.keyword] else []

/-- Definitions gain a keyword for each shorthand among them. -/
theorem gainedTokens_eq_replicate (definitions : List Definition) :
    definitions.flatMap Definition.gainedTokens =
      List.replicate (definitions.countP Definition.isShorthand) (.name "query") := by
  induction definitions with
  | nil => rfl
  | cons first others inductionHypothesis =>
    rw [List.flatMap_cons, inductionHypothesis, List.countP_cons]
    by_cases short : first.isShorthand = true
    · simp [Definition.gainedTokens, short, OperationType.keyword, List.replicate_succ]
    · simp [Definition.gainedTokens, short]

/-- Variable definitions without their descriptions have all other tokens. -/
theorem variableTokens_perm (entries : List VariableDefinition) :
    (enclosedTokens .openParenthesis .closeParenthesis VariableDefinition.tokens
        (entries.map fun entry => { entry with description := none }) ++
      (entries.flatMap VariableDefinition.descriptions).map Token.string).Perm
        (enclosedTokens .openParenthesis .closeParenthesis VariableDefinition.tokens entries) := by
  have each : ∀ entry ∈ entries,
      (VariableDefinition.tokens { entry with description := none } ++
        entry.descriptions.map Token.string).Perm entry.tokens := by
    intro entry _
    rw [VariableDefinition.tokens, VariableDefinition.tokens, descriptionTokens_eq_map,
      descriptionTokens_eq_map]
    exact List.perm_append_comm
  have divided := enclosedTokens_split .openParenthesis .closeParenthesis each
  simp only [enclosedTokens, List.isEmpty_map, List.flatMap_map, List.map_flatMap] at divided ⊢
  exact divided

/-- An arranged operation or fragment has the tokens of its source, less the descriptions
and with the keyword that a shorthand gains. -/
theorem Definition.tokens_arranged_perm {definition : Definition}
    (executable : definition.isExecutable = true) :
    (definition.arranged.tokens ++ definition.descriptions.map Token.string).Perm
      (definition.tokens ++ definition.gainedTokens) := by
  have sets (selections : List Selection) :
      (selectionTokens (arrangedSelections selections)).Perm (selectionTokens selections) :=
    selectionTokens_perm fun selection _ => Grammar.tokens_arranged_perm selection
  rw [List.perm_iff_count]
  intro token
  cases definition with
  | shorthand selections =>
    have counted := (sets selections).count_eq token
    simp only [arranged, tokens, OperationDefinition.tokens, descriptions, gainedTokens,
      isShorthand, descriptionTokens, nameTokens, directiveTokens, enclosedTokens, List.isEmpty_nil,
      List.flatMap_nil, List.map_nil, List.nil_append, List.append_nil, if_true,
      List.count_append, List.count_cons, List.count_nil] at counted ⊢
    omega
  | operation source =>
    have counted := (sets source.selections).count_eq token
    have entries := (variableTokens_perm source.variableDefinitions).count_eq token
    simp only [arranged, tokens, OperationDefinition.tokens, descriptions,
      OperationDefinition.descriptions, gainedTokens, isShorthand, descriptionTokens_eq_map,
      Option.toList_none, List.map_nil, List.map_append, List.count_append, List.count_cons,
      List.count_nil, Bool.false_eq_true, if_false] at counted entries ⊢
    omega
  | fragment source =>
    have counted := (sets source.selections).count_eq token
    simp only [arranged, tokens, FragmentDefinition.tokens, descriptions,
      FragmentDefinition.descriptions, gainedTokens, isShorthand, descriptionTokens_eq_map,
      Option.toList_none, List.map_nil, List.count_append, List.count_cons, List.count_nil,
      Bool.false_eq_true, if_false] at counted ⊢
    omega
  | typeSystem source | directive source | extension source => cases executable

/-- No separator may lead a list of names in an operation or a fragment. -/
theorem leadingSigns_eq_nil {definitions : List Definition}
    (executable : ∀ definition ∈ definitions, definition.isExecutable = true) :
    definitions.flatMap Definition.leadingSigns = [] := by
  rw [List.flatMap_eq_nil_iff]
  intro definition inside
  have one := executable definition inside
  cases definition <;> first | rfl | cases one

/-- Arranged operations and fragments have the tokens of their sources, less the
descriptions and with the keywords that shorthands gain. -/
theorem arrangedTokens_perm {definitions : List Definition}
    (executable : ∀ definition ∈ definitions, definition.isExecutable = true) :
    ((definitions.map Definition.arranged).flatMap Definition.tokens ++
        (definitions.flatMap Definition.descriptions).map Token.string).Perm
      (definitions.flatMap Definition.tokens ++ definitions.flatMap Definition.gainedTokens) := by
  have each := List.Perm.flatMap_left definitions fun definition inside =>
    Definition.tokens_arranged_perm (executable definition inside)
  have left := List.flatMap_append_perm definitions (fun definition => definition.arranged.tokens)
    fun definition => definition.descriptions.map Token.string
  have right := List.flatMap_append_perm definitions Definition.tokens Definition.gainedTokens
  rw [List.flatMap_map, List.map_flatMap]
  exact left.trans (each.trans right.symm)

end GraphQLCanon.Grammar

namespace GraphQLCanon

open GraphQLCanon.Grammar
open GraphQLCanon.Lexical

/-- The tokens of a canonical query, together with the tokens that write the descriptions
of the source, are the tokens of the source together with the keyword `query` for every
shorthand. -/
theorem tokens_formatQuery_perm {text result : String} {options : Options}
    (formatted : formatQuery text options = .ok result) :
    ∃ (definitions : Grammar.Document) (dropped : List Token),
      Grammar.Document.ofText text = .ok definitions ∧
      List.Forall₂ Token.Denotes dropped (definitions.flatMap Definition.descriptions) ∧
      (scan text.toList).fault = none ∧ (scan result.toList).fault = none ∧
      ((scan result.toList).tokens ++ dropped).Perm
        ((scan text.toList).tokens ++
          List.replicate (definitions.countP Definition.isShorthand) (.name "query")) := by
  obtain ⟨definitions, read, executable, spells, -⟩ := arranged_of_formatQuery formatted
  obtain ⟨dropped, leading, denotes, listed, permuted⟩ := Document.ofText_tokens_perm read
  rw [leadingSigns_eq_nil executable, List.sublist_nil] at listed
  subst listed
  refine ⟨definitions, dropped, read, denotes, (Document.ofText_eq_ok.1 read).1, spells.scan.2, ?_⟩
  rw [spells.scan.1, ← gainedTokens_eq_replicate]
  have arranged := arrangedTokens_perm executable
  -- Both sides are what the source text has, the quoted descriptions apart: these stand
  -- in the token form of the source only, and cancel.
  rw [List.perm_iff_count] at permuted arranged ⊢
  intro token
  have counted := permuted token
  have kept := arranged token
  simp only [List.map_nil, List.append_nil, List.count_append] at counted kept ⊢
  omega

set_option maxRecDepth 4000 in
/-- A block description and a quoted one are dropped, and the shorthand gains its
keyword. -/
theorem tokens_formatQuery_perm_described :
    formatQuery "\"\"\"F\"\"\" query Q(\"v\" $v: T) \x7b b(y: $v) \x7d \x7b a \x7d" Options.standard =
        .ok "query Q($v: T) \x7b\n  b(y: $v)\n\x7d\n\nquery \x7b\n  a\n\x7d" ∧
      ∃ (definitions : Grammar.Document) (dropped : List Token),
        Grammar.Document.ofText
            "\"\"\"F\"\"\" query Q(\"v\" $v: T) \x7b b(y: $v) \x7d \x7b a \x7d" =
          .ok definitions ∧
        List.Forall₂ Token.Denotes dropped (definitions.flatMap Definition.descriptions) ∧
        (scan "\"\"\"F\"\"\" query Q(\"v\" $v: T) \x7b b(y: $v) \x7d \x7b a \x7d".toList).fault =
          none ∧
        (scan "query Q($v: T) \x7b\n  b(y: $v)\n\x7d\n\nquery \x7b\n  a\n\x7d".toList).fault =
          none ∧
        ((scan "query Q($v: T) \x7b\n  b(y: $v)\n\x7d\n\nquery \x7b\n  a\n\x7d".toList).tokens ++
            dropped).Perm
          ((scan "\"\"\"F\"\"\" query Q(\"v\" $v: T) \x7b b(y: $v) \x7d \x7b a \x7d".toList).tokens
            ++ List.replicate (definitions.countP Definition.isShorthand) (.name "query")) := by
  have formatted : formatQuery
      "\"\"\"F\"\"\" query Q(\"v\" $v: T) \x7b b(y: $v) \x7d \x7b a \x7d" Options.standard =
        .ok "query Q($v: T) \x7b\n  b(y: $v)\n\x7d\n\nquery \x7b\n  a\n\x7d" := by
    cbv
  exact ⟨formatted, tokens_formatQuery_perm formatted⟩

end GraphQLCanon
