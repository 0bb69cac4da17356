import GraphQLCanon.Proofs.SchemaOutlines
import GraphQLCanon.Proofs.StandingRows

/-!
# Schemas that stand where they belong

The outline of every type-system definition stands where it belongs: a line begins at the
number of brackets that are open in front of it, and behind the definition none is open.
The parts of a definition fill the level in its braces, and the arguments of a field with a
described one among them fill that in its parentheses.
-/

namespace GraphQLCanon.TypeSystem

open GraphQLCanon.Layout
open GraphQLCanon.Layout.Row
open GraphQLCanon.Lexical
open GraphQLCanon.Grammar (AllLegible allLegible_cons allLegible_append allLegible_enclosedTokens
  descriptionTokens directiveTokens enclosedTokens argumentDefinitionTokens interfaceTokens
  memberTokens balanced_type balanced_typed balanced_separated woven_typed woven_separated
  woven_spaced)

/-- A written input value is whole, whatever its description and directives are. -/
theorem whole_inputValue {definition : Grammar.InputValueDefinition}
    (legible : AllLegible definition.tokens) : Whole (InputValue.ofGrammar definition).write := by
  obtain ⟨description, name, type, default, directives⟩ := definition
  simp only [Grammar.InputValueDefinition.tokens, allLegible_append, allLegible_cons] at legible
  obtain ⟨-, named, -, typed, given, -⟩ := legible
  exact ⟨_, woven_typed named typed given, balanced_typed name type default⟩

/-- An argument on a line of its own, under its description. -/
theorem fill_inputValue {definition : Grammar.InputValueDefinition}
    (legible : AllLegible definition.tokens) (depth : Nat) :
    Fill (InputValue.rows depth (InputValue.ofGrammar definition)) depth := by
  have whole := whole_inputValue legible
  simp only [Grammar.InputValueDefinition.tokens, allLegible_append] at legible
  exact (fill_description legible.1 depth).append (lead_line whole.comma depth).fill

/-- A field under its description up to its type may be prolonged. -/
theorem front_arguments {definition : Grammar.FieldDefinition}
    (named : (Token.name definition.name).Legible)
    (legible : ∀ argument ∈ definition.arguments, AllLegible argument.tokens) (depth : Nat) :
    Front ((Field.ofGrammar definition).argumentRows depth) depth := by
  have whole : Whole (Field.ofGrammar definition).name := whole_name named
  unfold Field.argumentRows
  split
  · exact front_line whole depth
  · rename_i some?
    split
    · have each : ∀ text ∈ (Field.ofGrammar definition).arguments.map InputValue.write,
          Whole text := by
        rw [Field.ofGrammar, List.map_map, List.forall_mem_map]
        exact fun argument inside => whole_inputValue (legible argument inside)
      exact front_listed whole (by simpa using some?) each depth
    · have each : Fill ((Field.ofGrammar definition).arguments.flatMap
          (InputValue.rows (depth + 1))) (depth + 1) := by
        rw [Field.ofGrammar, List.flatMap_map]
        exact fill_flatMap fun argument inside => fill_inputValue (legible argument inside) _
      exact (front_line whole depth).parentheses each

/-- A field, under its description. -/
theorem fill_field {definition : Grammar.FieldDefinition}
    (legible : AllLegible definition.tokens) (depth : Nat) :
    Fill (Field.rows depth (Field.ofGrammar definition)) depth := by
  simp only [Grammar.FieldDefinition.tokens, argumentDefinitionTokens, allLegible_append,
    allLegible_cons, allLegible_enclosedTokens] at legible
  obtain ⟨described, named, arguments, -, typed, -⟩ := legible
  have type : Whole (": " ++ definition.type.write) :=
    ⟨_, woven_typeEnding typed, balanced_type definition.type⟩
  have ending : Lengthens (": " ++ definition.type.write) := type.lengthens (by simp; decide)
  exact (fill_description described depth).append ((front_arguments named arguments depth).ended
    ending).fill

/-- The keyword and name of a type, under its description, may be prolonged. -/
theorem front_header {keyword name : String} {description : Option String}
    (directives : List String) (described : AllLegible (descriptionTokens description))
    (word : (Token.name keyword).Legible) (named : (Token.name name).Legible) (depth : Nat) :
    Front (Header.rows ⟨name, description, directives⟩ keyword depth) depth := by
  have whole : Whole (keyword ++ " " ++ name) := ⟨_, woven_typeHeader word named, fun _ => rfl⟩
  exact (fill_description described depth).front (front_line whole depth)

/-- Parts of a definition in braces, if there are any, behind what may be prolonged. -/
theorem lead_body {α : Type} {head : String → List Row} {depth : Nat} (heads : Front head depth)
    {parts : List α} {rows : Nat → α → List Row}
    (each : ∀ part ∈ parts, Fill (rows (depth + 1) part) (depth + 1)) :
    Lead (bodyRows head depth parts rows) depth depth := by
  unfold bodyRows
  split
  · exact heads.lead
  · exact heads.braces (fill_flatMap each)

/-- A written root operation is whole: it is one of the source. -/
theorem whole_roots {roots : List (Grammar.OperationType × String)}
    (legible : ∀ root ∈ roots, AllLegible (Grammar.rootTokens root))
    (description : Option String) (directives : List String) :
    ∀ root ∈ Schema.roots ⟨rootType? roots .query, rootType? roots .mutation,
      rootType? roots .subscription, description, directives⟩,
        Whole (root.1 ++ ": " ++ root.2) := by
  intro root inside
  have listed : Schema.roots ⟨rootType? roots .query, rootType? roots .mutation,
      rootType? roots .subscription, description, directives⟩ =
        Grammar.writtenOperations.filterMap fun operation =>
          ((rootType? roots operation).filter fun type => !type.isEmpty).map fun type =>
            (operation.keyword, type) := rfl
  rw [listed, List.mem_filterMap] at inside
  obtain ⟨operation, -, shown⟩ := inside
  obtain ⟨type, kept, rfl⟩ := Option.map_eq_some_iff.1 shown
  obtain ⟨entry, found, rfl⟩ := Option.map_eq_some_iff.1 (Option.filter_eq_some_iff.1 kept).1
  have among := List.mem_reverse.1 (List.mem_of_find?_eq_some found)
  have same : entry.1 = operation := by simpa using List.find?_some found
  rw [← same]
  exact ⟨_, woven_root (legible entry among), fun _ => rfl⟩

/-- Interfaces lengthen the name of the type that implements them. -/
theorem lengthens_interfacesText {interfaces : List String}
    (legible : AllLegible (interfaceTokens interfaces)) :
    Lengthens (interfacesText interfaces) := by
  unfold interfacesText interfaceTokens at *
  split
  · exact lengthens_empty
  · rename_i some?
    rw [if_neg some?, allLegible_cons] at legible
    have plain : Balanced [.punctuator .ampersand] := fun _ => rfl
    have names : Whole (" & ".intercalate interfaces) :=
      ⟨_, woven_separated rfl (by simpa using some?) (legible_of_separatedTokens legible.2),
        balanced_separated plain interfaces⟩
    have words := ((whole_name legible.1).append names.spaced).spaced
    have text_eq : " implements " ++ " & ".intercalate interfaces =
        " " ++ ("implements" ++ (" " ++ " & ".intercalate interfaces)) := by
      rw [← String.toList_inj]
      simp
    exact text_eq ▸ words

/-- Members lengthen the name of their union. -/
theorem lengthens_membersText {members : List String}
    (legible : AllLegible (memberTokens members)) : Lengthens (membersText members) := by
  unfold membersText memberTokens at *
  split
  · exact lengthens_empty
  · rename_i some?
    rw [if_neg some?, allLegible_cons] at legible
    have plain : Balanced [.punctuator .pipe] := fun _ => rfl
    have names : Whole ("= " ++ " | ".intercalate members) := by
      refine ⟨.punctuator .equals :: Grammar.separatedTokens .pipe members, ?_,
        balanced_separated plain members⟩
      rw [String.toList_append]
      exact woven_spaced .equals (woven_separated rfl (by simpa using some?)
        (legible_of_separatedTokens legible.2))
    have text_eq : " = " ++ " | ".intercalate members =
        " " ++ ("= " ++ " | ".intercalate members) := by
      rw [← String.toList_inj]
      simp
    exact text_eq ▸ names.spaced

/-- An object type or interface leads from no open brackets to none. -/
theorem lead_composite {keyword name : String} {description : Option String}
    {interfaces : List String} {directives : List Grammar.Directive}
    {fields : List Grammar.FieldDefinition}
    (legible : AllLegible (descriptionTokens description ++ .name keyword :: .name name ::
      (interfaceTokens interfaces ++ (directiveTokens directives ++
        enclosedTokens .openBrace .closeBrace Grammar.FieldDefinition.tokens fields)))) :
    Lead (Composite.rows ⟨⟨name, description, Grammar.directiveNames directives⟩, interfaces,
      fields.map Field.ofGrammar⟩ keyword 0) 0 0 := by
  simp only [allLegible_append, allLegible_cons, allLegible_enclosedTokens] at legible
  obtain ⟨described, word, named, implemented, -, parts⟩ := legible
  refine lead_body ((front_header _ described word named 0).append
    (lengthens_interfacesText implemented)) ?_
  rw [List.forall_mem_map]
  exact fun field inside => fill_field (parts field inside) 1

/-- A field of an input object, perhaps with an empty line below it. -/
theorem fill_inputField (input : InputObject) {definition : Grammar.InputValueDefinition}
    (legible : AllLegible definition.tokens) (depth : Nat) :
    Fill (input.fieldRows depth (InputValue.ofGrammar definition)) depth := by
  have line := lead_line (whole_inputValue legible) depth
  simp only [Grammar.InputValueDefinition.tokens, allLegible_append] at legible
  refine (fill_description legible.1 depth).append ?_
  split
  · exact line.gap
  · exact line.fill

/-- An enum value, under its description. -/
theorem fill_enumValue {definition : Grammar.EnumValueDefinition}
    (legible : AllLegible definition.tokens) (depth : Nat) :
    Fill (EnumValue.rows depth (EnumValue.ofGrammar definition)) depth := by
  simp only [Grammar.EnumValueDefinition.tokens, allLegible_append, allLegible_cons] at legible
  exact (fill_description legible.1 depth).append (lead_line (whole_name legible.2.1) depth).fill

/-- A definition leads from no open brackets to none. -/
theorem lead_definition {definition : Grammar.TypeSystemDefinition}
    (legible : AllLegible definition.tokens) :
    Lead ((Definition.ofTypeSystem definition).rows 0) 0 0 := by
  cases definition with
  | schema description directives roots =>
    simp only [Grammar.TypeSystemDefinition.tokens, Grammar.TypeSystemDefinition.description?,
      Grammar.TypeSystemDefinition.bodyTokens, allLegible_append, allLegible_cons,
      allLegible_enclosedTokens] at legible
    obtain ⟨described, word, -, entries⟩ := legible
    have heads := (fill_description described 0).front (front_line (whole_name word) 0)
    exact heads.braces (fill_flatMap fun root inside =>
      (lead_line (whole_roots entries _ _ root inside) 1).fill)
  | scalar description name directives =>
    simp only [Grammar.TypeSystemDefinition.tokens, Grammar.TypeSystemDefinition.description?,
      Grammar.TypeSystemDefinition.bodyTokens, allLegible_append, allLegible_cons] at legible
    obtain ⟨described, word, named, -⟩ := legible
    exact (front_header _ described word named 0).lead
  | object description name interfaces directives fields
  | interface description name interfaces directives fields => exact lead_composite legible
  | union description name directives members =>
    simp only [Grammar.TypeSystemDefinition.tokens, Grammar.TypeSystemDefinition.description?,
      Grammar.TypeSystemDefinition.bodyTokens, allLegible_append, allLegible_cons] at legible
    obtain ⟨described, word, named, -, members⟩ := legible
    exact (front_header _ described word named 0).ended (lengthens_membersText members)
  | enum description name directives values =>
    simp only [Grammar.TypeSystemDefinition.tokens, Grammar.TypeSystemDefinition.description?,
      Grammar.TypeSystemDefinition.bodyTokens, allLegible_append, allLegible_cons,
      allLegible_enclosedTokens] at legible
    obtain ⟨described, word, named, -, entries⟩ := legible
    refine lead_body (front_header _ described word named 0) ?_
    rw [List.forall_mem_map]
    exact fun value inside => fill_enumValue (entries value inside) 1
  | inputObject description name directives fields =>
    simp only [Grammar.TypeSystemDefinition.tokens, Grammar.TypeSystemDefinition.description?,
      Grammar.TypeSystemDefinition.bodyTokens, allLegible_append, allLegible_cons,
      allLegible_enclosedTokens] at legible
    obtain ⟨described, word, named, -, entries⟩ := legible
    refine lead_body (front_header _ described word named 0) ?_
    rw [List.forall_mem_map]
    exact fun field inside => fill_inputField _ (entries field inside) 1

/-- The canonical form of a definition leads from no open brackets to none. -/
theorem Definition.lead_canonical {definition : Grammar.TypeSystemDefinition}
    (legible : AllLegible definition.tokens) :
    Lead ((Definition.ofTypeSystem definition).canonical.rows 0) 0 0 := by
  rw [← Definition.ofTypeSystem_arranged]
  exact lead_definition (Grammar.TypeSystemDefinition.legible_arranged legible)

end GraphQLCanon.TypeSystem
