import GraphQLCanon.Grammar.Parser.Document
import GraphQLCanon.Proofs.ParsingTypeSystem

/-!
# Parsing documents

A document that was parsed was written by all of its tokens. Documents that hold
only operations and fragments are taken back, and so are documents that hold only
type-system definitions. A document that mixes them need not be: a selection set
without keyword behind a type would be taken for its fields.
-/

namespace GraphQLCanon.Grammar.Parser

open GraphQLCanon.Lexical

variable {tokens rest : List Token}

section Soundness

/-- The definition that a keyword opens was written by the tokens taken. -/
theorem definitionOf?_sound {keyword : String} {parser : Parser Definition}
    (opened : definitionOf? keyword = some parser) :
    Sound parser Definition.tokens Definition.Fits Definition.descriptions
      Definition.leadingSigns := by
  intro tokens result rest taken
  unfold definitionOf? at opened
  split at opened
  · cases opened
    obtain ⟨operation, parsed, rfl⟩ := map_eq_ok.1 taken
    exact operationDefinition_sound parsed
  · cases opened
    obtain ⟨operation, parsed, rfl⟩ := map_eq_ok.1 taken
    exact operationDefinition_sound parsed
  · cases opened
    obtain ⟨operation, parsed, rfl⟩ := map_eq_ok.1 taken
    exact operationDefinition_sound parsed
  · cases opened
    obtain ⟨fragment, parsed, rfl⟩ := map_eq_ok.1 taken
    exact fragmentDefinition_sound parsed
  · cases opened
    obtain ⟨directive, parsed, rfl⟩ := map_eq_ok.1 taken
    exact directiveDefinition_sound parsed
  · obtain ⟨body, bodied, rfl⟩ := Option.map_eq_some_iff.1 opened
    obtain ⟨source, parsed, rfl⟩ := map_eq_ok.1 taken
    exact typeSystemDefinition_sound (bodyOf?_sound rootOperations_sound bodied) parsed

/-- A definition behind its description was written by the tokens taken. -/
theorem describedDefinition_sound {start behind : List Token} :
    Sound (describedDefinition start behind) Definition.tokens Definition.Fits
      Definition.descriptions Definition.leadingSigns := by
  intro tokens result rest taken
  unfold describedDefinition at taken
  cases behind with
  | nil => cases taken
  | cons token others =>
    cases token with
    | name keyword =>
      cases opened : definitionOf? keyword with
      | none =>
        simp only [List.head?_cons, opened] at taken
        cases taken
      | some parser =>
        simp only [List.head?_cons, opened] at taken
        exact definitionOf?_sound opened taken
    | punctuator sign => cases sign <;> cases taken
    | _ => cases taken

/-- A definition that was parsed fits, and was written by the tokens taken. -/
theorem definition_sound :
    Sound definition Definition.tokens Definition.Fits Definition.descriptions
      Definition.leadingSigns := by
  intro tokens result rest taken
  unfold definition at taken
  rw [bind_of_ok (get_eq tokens)] at taken
  cases tokens with
  | nil => cases taken
  | cons token others =>
    cases token with
    | punctuator sign =>
      cases sign with
      | openBrace =>
        obtain ⟨selections, last, nested, done⟩ := bind_eq_ok.1 taken
        obtain ⟨rfl, rfl⟩ := pure_eq_ok.1 done
        exact selectionSet_sound nestingLimit nested
      | _ => cases taken
    | string description => exact describedDefinition_sound taken
    | blockString description => exact describedDefinition_sound taken
    | name keyword =>
      by_cases extended : keyword = "extend"
      · subst extended
        obtain ⟨_, behind, advanced, further⟩ := bind_eq_ok.1 taken
        cases advanced
        obtain ⟨addition, last, added, done⟩ := bind_eq_ok.1 further
        obtain ⟨rfl, rfl⟩ := pure_eq_ok.1 done
        obtain ⟨fits, written⟩ := extension_sound added
        exact ⟨fits, written.cons _⟩
      · cases opened : definitionOf? keyword with
        | none =>
          simp only [opened] at taken
          cases taken
        | some parser =>
          simp only [opened] at taken
          exact definitionOf?_sound opened taken
    | _ => cases taken

/-- No definition that fits is written by nothing. -/
theorem definitionTokens_ne_nil {result : Definition} (fits : result.Fits) :
    result.tokens ≠ [] := by
  cases result with
  | shorthand selections =>
    obtain ⟨others, opened⟩ := selectionTokens_eq_cons fits.1
    simp [Definition.tokens, opened]
  | operation definition => simp [Definition.tokens, OperationDefinition.tokens]
  | fragment definition => simp [Definition.tokens, FragmentDefinition.tokens]
  | typeSystem definition =>
    cases definition <;>
      simp [Definition.tokens, TypeSystemDefinition.tokens, TypeSystemDefinition.bodyTokens]
  | directive definition => simp [Definition.tokens, DirectiveDefinition.tokens]
  | extension addition => simp [Definition.tokens]

/-- Nothing is written by no tokens only. -/
theorem Respelled.ne_nil {descriptions : List String} {signs : List Punctuator}
    {source shown : List Token} (respelled : Respelled descriptions signs source shown)
    (written : shown ≠ []) : source ≠ [] := by
  induction respelled <;> simp_all

/-- Definitions that were parsed fit, and were written by all tokens when the bound
allows for them. -/
theorem definitions_sound {fuel : Nat} {results : List Definition}
    (enough : tokens.length ≤ fuel) (taken : definitions fuel tokens = .ok (results, rest)) :
    results ≠ [] ∧ (∀ result ∈ results, result.Fits) ∧
      Respelled (results.flatMap Definition.descriptions) (results.flatMap Definition.leadingSigns)
        tokens (results.flatMap Definition.tokens) := by
  induction fuel generalizing tokens results with
  | zero =>
    obtain rfl := List.length_eq_zero_iff.1 (Nat.le_zero.1 enough)
    cases taken
  | succ fuel inductionHypothesis =>
    unfold definitions at taken
    obtain ⟨first, middle, one, further⟩ := bind_eq_ok.1 taken
    obtain ⟨firstFits, front, rfl, firstWritten⟩ := definition_sound one
    obtain ⟨_, _, peeked, onward⟩ := bind_eq_ok.1 further
    cases peeked
    cases middle with
    | nil =>
      obtain ⟨rfl, rfl⟩ := pure_eq_ok.1 onward
      exact ⟨by simp, by simpa using firstFits, by simpa using firstWritten⟩
    | cons token others =>
      obtain ⟨following, last, more, done⟩ := bind_eq_ok.1 onward
      obtain ⟨rfl, rfl⟩ := pure_eq_ok.1 done
      have shorter : 0 < front.length :=
        List.length_pos_iff.2 (firstWritten.ne_nil (definitionTokens_ne_nil firstFits))
      obtain ⟨-, followingFit, followingWritten⟩ :=
        inductionHypothesis (by simp only [List.length_append] at enough; omega) more
      exact ⟨by simp, by simpa using ⟨firstFits, followingFit⟩,
        firstWritten.append followingWritten⟩

/-- A document that was parsed fits, and was written by all of its tokens. -/
theorem document_sound {results : List Definition}
    (taken : document tokens = .ok (results, rest)) :
    results ≠ [] ∧ (∀ result ∈ results, result.Fits) ∧
      Respelled (results.flatMap Definition.descriptions) (results.flatMap Definition.leadingSigns)
        tokens (results.flatMap Definition.tokens) := by
  unfold document at taken
  rw [bind_of_ok (bound_eq tokens)] at taken
  exact definitions_sound (Nat.le_succ _) taken

end Soundness

section Completeness

/-- The definition that a keyword opens is parsed at the keyword and at the description
in front of it. -/
theorem definition_of_keyword {keyword : String} {parser : Parser Definition}
    (opened : definitionOf? keyword = some parser) (description : Option String)
    (others : List Token) :
    definition (descriptionTokens description ++ .name keyword :: others) =
      parser (descriptionTokens description ++ .name keyword :: others) := by
  unfold definition
  rw [bind_of_ok (get_eq _)]
  cases description with
  | none =>
    have defined : keyword ≠ "extend" := by
      rintro rfl
      cases opened
    simp only [descriptionTokens, List.nil_append, opened]
  | some description =>
    simp only [descriptionTokens, List.cons_append, List.nil_append, describedDefinition,
      List.head?_cons, opened]

/-- A keyword that opens a body opens a type-system definition. -/
theorem definitionOf?_of_bodyOf? {keyword : String}
    {body : Option String → Parser TypeSystemDefinition}
    (opened : bodyOf? rootOperations keyword = some body) :
    definitionOf? keyword = some (.typeSystem <$> typeSystemDefinition body) := by
  unfold bodyOf? at opened
  split at opened <;> cases opened <;> rfl

/-- A type-system definition that fits is taken back, in front of anything that does
not prolong it. -/
theorem typeSystem_returns {result : TypeSystemDefinition}
    (fits : (Definition.typeSystem result).Fits) :
    Returns definition result.tokens (.typeSystem result) definitionSigns := by
  intro rest clear
  obtain ⟨keyword, others, body, spelled, opened, returned⟩ := bodyOf?_returns fits.1 fits.2
  have taken := returned rest clear
  have described : optionalDescription
      (descriptionTokens result.description? ++ (result.bodyTokens ++ rest)) =
        .ok (result.description?, result.bodyTokens ++ rest) :=
    optionalDescription_append _ (by rw [spelled]; exact not_describes_name _ _)
  have parsed : typeSystemDefinition body
      (descriptionTokens result.description? ++ (result.bodyTokens ++ rest)) = .ok (result, rest) :=
    (bind_of_ok described).trans taken
  rw [TypeSystemDefinition.tokens, List.append_assoc]
  rw [spelled] at parsed ⊢
  rw [List.cons_append, definition_of_keyword (definitionOf?_of_bodyOf? opened)]
  exact map_eq_ok.2 ⟨result, parsed, rfl⟩

/-- An operation or fragment that fits is taken back, in front of anything. -/
theorem executable_returns {result : Definition} (executable : result.isExecutable = true)
    (fits : result.Fits) : Returns definition result.tokens result [] := by
  intro rest clear
  cases result with
  | shorthand selections =>
    have nested := selectionSet_returns fits rest clear
    obtain ⟨others, opened⟩ := selectionTokens_eq_cons fits.1
    rw [Definition.tokens]
    rw [opened] at nested ⊢
    unfold definition
    rw [bind_of_ok (get_eq _)]
    exact bind_of_ok nested
  | operation source =>
    have parsed := operationDefinition_returns fits rest clear
    have opened : definitionOf? source.operation.keyword =
        some (.operation <$> operationDefinition) := by
      cases source.operation <;> rfl
    rw [Definition.tokens]
    rw [OperationDefinition.tokens, List.append_assoc, List.cons_append] at parsed ⊢
    rw [definition_of_keyword opened]
    exact map_eq_ok.2 ⟨source, parsed, rfl⟩
  | fragment source =>
    have parsed := fragmentDefinition_returns fits rest clear
    have opened : definitionOf? "fragment" = some (.fragment <$> fragmentDefinition) := rfl
    rw [Definition.tokens]
    rw [FragmentDefinition.tokens, List.append_assoc, List.cons_append] at parsed ⊢
    rw [definition_of_keyword opened]
    exact map_eq_ok.2 ⟨source, parsed, rfl⟩
  | _ => cases executable

/-- Definitions are taken back when each of them is, in front of the ones behind it. -/
theorem definitions_returns {barred : List Token} {results : List Definition} {fuel : Nat}
    (nonempty : results ≠ []) (enough : results.length ≤ fuel + 1)
    (fit : ∀ result ∈ results, result.Fits)
    (returned : ∀ result ∈ results, Returns definition result.tokens result barred)
    (begun : ∀ result ∈ results, ∀ rest, Clear barred (result.tokens ++ rest)) :
    definitions fuel (results.flatMap Definition.tokens) = .ok (results, []) := by
  induction results generalizing fuel with
  | nil => exact absurd rfl nonempty
  | cons first others inductionHypothesis =>
    cases others with
    | nil =>
      have one := returned first List.mem_cons_self [] (by simp [Clear])
      rw [List.flatMap_cons, List.flatMap_nil]
      cases fuel with
      | zero =>
        unfold definitions
        exact bind_of_ok one
      | succ fuel =>
        unfold definitions
        refine (bind_of_ok one).trans ?_
        rfl
    | cons second others =>
      cases fuel with
      | zero => simp at enough
      | succ fuel =>
        have one := returned first List.mem_cons_self
          ((second :: others).flatMap Definition.tokens) (by
            rw [List.flatMap_cons]
            exact begun second (by simp) _)
        have further := inductionHypothesis (by simp) (Nat.le_of_succ_le_succ enough)
          (fun result inside => fit result (List.mem_cons_of_mem _ inside))
          (fun result inside => returned result (List.mem_cons_of_mem _ inside))
          (fun result inside => begun result (List.mem_cons_of_mem _ inside))
        obtain ⟨token, following, spelled⟩ : ∃ token following,
            (second :: others).flatMap Definition.tokens = token :: following :=
          List.exists_cons_of_ne_nil (by
            simp [definitionTokens_ne_nil (fit second (by simp))])
        rw [List.flatMap_cons]
        rw [spelled] at one further ⊢
        unfold definitions
        refine (bind_of_ok one).trans ?_
        refine (bind_of_ok (peek_eq _)).trans ?_
        exact bind_of_ok further

/-- A document is taken back when each of its definitions is, in front of the ones
behind it. -/
theorem document_returns (barred : List Token) {results : List Definition}
    (nonempty : results ≠ []) (fit : ∀ result ∈ results, result.Fits)
    (returned : ∀ result ∈ results, Returns definition result.tokens result barred)
    (begun : ∀ result ∈ results, ∀ rest, Clear barred (result.tokens ++ rest)) :
    document (results.flatMap Definition.tokens) = .ok (results, []) := by
  have enough : results.length ≤ (results.flatMap Definition.tokens).length :=
    length_le_flatMap fun result inside => definitionTokens_ne_nil (fit result inside)
  unfold document
  rw [bind_of_ok (bound_eq _)]
  exact definitions_returns nonempty (by omega) fit returned begun

/-- A document of operations and fragments that fit is taken back. -/
theorem document_of_executables {results : List Definition} (nonempty : results ≠ [])
    (executable : ∀ result ∈ results, result.isExecutable = true)
    (fit : ∀ result ∈ results, result.Fits) :
    document (results.flatMap Definition.tokens) = .ok (results, []) :=
  document_returns [] nonempty fit
    (fun result inside => executable_returns (executable result inside) (fit result inside))
    (fun result _ rest => by simp [Clear])

/-- A type-system definition begins with its description or its keyword. -/
theorem clear_typeSystem (result : TypeSystemDefinition) (rest : List Token) :
    Clear definitionSigns (result.tokens ++ rest) := by
  cases result with
  | schema description | scalar description | object description | interface description
  | union description | enum description | inputObject description =>
    cases description <;>
      simp [Clear, definitionSigns, TypeSystemDefinition.tokens, TypeSystemDefinition.bodyTokens,
        TypeSystemDefinition.description?, descriptionTokens]

/-- A document of type-system definitions that fit is taken back. -/
theorem document_of_typeSystem {results : List TypeSystemDefinition} (nonempty : results ≠ [])
    (fit : ∀ result ∈ results, (Definition.typeSystem result).Fits) :
    document ((results.map Definition.typeSystem).flatMap Definition.tokens) =
      .ok (results.map Definition.typeSystem, []) := by
  apply document_returns definitionSigns
  · simpa using nonempty
  · simpa using fit
  · simp only [List.forall_mem_map]
    exact fun result inside => typeSystem_returns (fit result inside)
  · simp only [List.forall_mem_map]
    exact fun result _ rest => clear_typeSystem result rest

end Completeness

end GraphQLCanon.Grammar.Parser
