import GraphQLCanon.Proofs.SchemaArrangement
import GraphQLCanon.Proofs.SchemaPieces
import GraphQLCanon.Proofs.SolidPieces

/-!
# Written schemas

Where nothing stops it, the piece of a type-system definition adds the tokens of its
source. The source has to be one whose tokens are legible and whose root operations are
those that count, in the order in which they are written.
-/

namespace GraphQLCanon.TypeSystem

open GraphQLCanon.Grammar (rootsOf AllLegible allLegible_cons allLegible_append allLegible_flatMap
  allLegible_enclosedTokens descriptionTokens directiveTokens enclosedTokens
  argumentDefinitionTokens interfaceTokens memberTokens separatedTokens spells_name closes_space
  woven_spaced woven_word woven_label woven_typed woven_type woven_separated)
open GraphQLCanon.Layout
open GraphQLCanon.Layout.Printing
open GraphQLCanon.Lexical

/-- The written form of an input value is woven from its tokens behind the description when it
has no directives. -/
theorem woven_inputValue {definition : Grammar.InputValueDefinition}
    (undirected : definition.directives = []) (legible : AllLegible definition.tokens) :
    Woven (InputValue.ofGrammar definition).write.toList
      (Grammar.InputValueDefinition.tokens { definition with description := none }) := by
  obtain ⟨description, name, type, default, directives⟩ := definition
  obtain rfl : directives = [] := undirected
  simp only [Grammar.InputValueDefinition.tokens, allLegible_append, allLegible_cons] at legible
  obtain ⟨-, named, -, typed, given, -⟩ := legible
  have tokens_eq : Grammar.InputValueDefinition.tokens ⟨none, name, type, default, []⟩ =
      .name name :: .punctuator .colon :: (type.tokens ++ Grammar.defaultTokens default) := by
    simp [Grammar.InputValueDefinition.tokens, descriptionTokens, directiveTokens]
  rw [tokens_eq]
  exact woven_typed named typed given

/-- An argument on a line of its own adds its tokens. -/
theorem closes_inputValue {definition : Grammar.InputValueDefinition}
    (undirected : definition.directives = []) (legible : AllLegible definition.tokens) :
    (InputValue.ofGrammar definition).piece.Closes definition.tokens :=
  Piece.closes_described definition.description
    (Piece.closes_commaLine (woven_inputValue undirected legible).spells)

/-- The arguments of a field add their tokens in parentheses, in each of the layouts. -/
theorem seals_argumentsPiece {field : Field} {definitions : List Grammar.InputValueDefinition}
    (taken : field.arguments = definitions.map InputValue.ofGrammar) (nonempty : definitions ≠ [])
    (undirected : ∀ definition ∈ definitions, definition.directives = [])
    (legible : ∀ definition ∈ definitions, AllLegible definition.tokens) :
    field.argumentsPiece.Seals (.punctuator .openParenthesis ::
      (definitions.flatMap Grammar.InputValueDefinition.tokens ++
        [.punctuator .closeParenthesis])) := by
  have some? : (definitions.map InputValue.ofGrammar).isEmpty = false := by simpa using nonempty
  unfold Field.argumentsPiece
  rw [taken, some?, if_neg Bool.false_ne_true]
  split
  · rename_i undescribed
    have each : ∀ definition ∈ definitions,
        Lexical.Spells (InputValue.ofGrammar definition).write.toList definition.tokens := by
      intro definition inside
      have plain : definition.description = none := by
        simpa [InputValue.ofGrammar] using
          List.all_eq_true.1 undescribed _ (List.mem_map.2 ⟨definition, inside, rfl⟩)
      have woven := woven_inputValue (undirected definition inside) (legible definition inside)
      rw [← plain] at woven
      exact woven.spells
    rw [List.map_map]
    exact Piece.seals_arguments each
  · have lines : (Piece.concat (definitions.map InputValue.ofGrammar) InputValue.piece).Closes
        (definitions.flatMap Grammar.InputValueDefinition.tokens) := by
      rw [Piece.concat_map]
      exact Piece.closes_concat fun definition inside =>
        closes_inputValue (undirected definition inside) (legible definition inside)
    have opens : Lexical.Closes "(\n".toList [.punctuator .openParenthesis] :=
      (closes_punctuator .openParenthesis).append Piece.closes_lineFeed
    exact ⟨Piece.closes_block opens lines (closes_punctuator .closeParenthesis),
      Piece.delimits_block (by decide) (by decide) _ _⟩

/-- A type behind a colon is woven from both. -/
theorem woven_typeEnding {type : Grammar.TypeReference} (legible : AllLegible type.tokens) :
    Woven (": " ++ type.write).toList (.punctuator .colon :: type.tokens) := by
  rw [String.toList_append]
  exact woven_spaced .colon (woven_type type legible)

/-- The end of the line of a field adds the colon and the type. -/
theorem seals_type {type : Grammar.TypeReference} (legible : AllLegible type.tokens) :
    (Piece.text (": " ++ type.write ++ "\n")).Seals (.punctuator .colon :: type.tokens) := by
  refine ⟨Piece.closes_text (Piece.closes_line (woven_typeEnding legible).spells), ?_⟩
  rw [String.append_assoc]
  exact Piece.delimits_text_append (by decide) (by decide) _

/-- A field adds its tokens where no directive stops it. -/
theorem closes_field {definition : Grammar.FieldDefinition} {owner : String}
    (legible : AllLegible definition.tokens)
    (unstopped : (Field.ofGrammar definition).offence? owner = none) :
    (Field.ofGrammar definition).piece.Closes definition.tokens := by
  simp only [Field.offence?, Field.argumentOffence?, Option.or_eq_none_iff,
    firstOffence?_eq_none] at unstopped
  have undirected : definition.directives = [] := directives_eq_nil unstopped.1
  have bare : ∀ argument ∈ definition.arguments, argument.directives = [] :=
    fun argument inside => directives_eq_nil
      (unstopped.2 _ (List.mem_map.2 ⟨argument, inside, rfl⟩))
  have tokens_eq : definition.tokens = descriptionTokens definition.description ++
      ([.name definition.name] ++ (argumentDefinitionTokens definition.arguments ++
        .punctuator .colon :: definition.type.tokens)) := by
    simp [Grammar.FieldDefinition.tokens, undirected, directiveTokens]
  rw [tokens_eq] at legible ⊢
  simp only [argumentDefinitionTokens, allLegible_append, allLegible_cons,
    allLegible_enclosedTokens] at legible
  obtain ⟨-, ⟨named, -⟩, entries, -, typed⟩ := legible
  have type := seals_type typed
  have behind : ((Field.ofGrammar definition).argumentsPiece ++
      Piece.text (": " ++ definition.type.write ++ "\n")).Seals
        (argumentDefinitionTokens definition.arguments ++
          .punctuator .colon :: definition.type.tokens) := by
    by_cases none? : definition.arguments = []
    · have nothing : (Field.ofGrammar definition).argumentsPiece = Piece.text "" := by
        simp [Field.argumentsPiece, Field.ofGrammar, none?]
      rw [nothing, none?, Piece.empty_append]
      exact type
    · have arguments := @seals_argumentsPiece (Field.ofGrammar definition) _ rfl none? bare entries
      have shown : argumentDefinitionTokens definition.arguments = .punctuator .openParenthesis ::
          (definition.arguments.flatMap Grammar.InputValueDefinition.tokens ++
            [.punctuator .closeParenthesis]) := by
        simp [argumentDefinitionTokens, enclosedTokens, none?]
      rw [shown]
      exact arguments.append type.closes
  have line := (Piece.spells_indented (spells_name named)).append_seals behind
  exact (Piece.closes_description definition.description).append line

/-- An enum value adds its tokens where it has no directives. -/
theorem closes_enumValue {definition : Grammar.EnumValueDefinition}
    (undirected : definition.directives = []) (legible : AllLegible definition.tokens) :
    (EnumValue.ofGrammar definition).piece.Closes definition.tokens := by
  have tokens_eq : definition.tokens =
      descriptionTokens definition.description ++ [.name definition.name] := by
    simp [Grammar.EnumValueDefinition.tokens, undirected, directiveTokens]
  rw [tokens_eq] at legible ⊢
  simp only [allLegible_append, allLegible_cons] at legible
  exact Piece.closes_described definition.description
    (Piece.closes_line (spells_name legible.2.1))

/-- A field of an input object adds its tokens where it has no directives, with an empty
line behind it or not. -/
theorem closes_inputField (input : InputObject) {definition : Grammar.InputValueDefinition}
    (undirected : definition.directives = []) (legible : AllLegible definition.tokens) :
    (input.fieldPiece (InputValue.ofGrammar definition)).Closes definition.tokens := by
  have line := Piece.closes_indented
    (Piece.closes_line (woven_inputValue undirected legible).spells)
  have gap : (if input.isDescribed then Piece.text "\n" else Piece.text "").Closes [] := by
    split
    · exact Piece.closes_text Piece.closes_lineFeed
    · exact Piece.closes_text closes_nil
  have whole := line.append gap
  rw [List.append_nil] at whole
  exact (Piece.closes_description definition.description).append whole

/-- A root operation and its type are woven from their tokens. -/
theorem woven_root {root : Grammar.OperationType × String}
    (legible : AllLegible (Grammar.rootTokens root)) :
    Woven (root.1.keyword ++ ": " ++ root.2).toList (Grammar.rootTokens root) := by
  simp only [Grammar.rootTokens, allLegible_cons] at legible
  obtain ⟨keyword, -, type, -⟩ := legible
  rw [String.append_assoc, String.toList_append, String.toList_append]
  exact woven_label keyword (.token type)

/-- A root operation and its type add their tokens. -/
theorem closes_root {root : Grammar.OperationType × String}
    (legible : AllLegible (Grammar.rootTokens root)) :
    (rootPiece (root.1.keyword, root.2)).Closes (Grammar.rootTokens root) :=
  Piece.closes_indented (Piece.closes_line (woven_root legible).spells)

/-- The parts of a definition in braces, if there are any. -/
def bodyBlock {α : Type} (parts : List α) (piece : α → Piece) : Piece :=
  if parts.isEmpty then Piece.text "" else Piece.block " \x7b\n" "\x7d" (Piece.concat parts piece)

/-- The body of a definition ends its line. -/
theorem bodyPiece_eq {α : Type} (parts : List α) (piece : α → Piece) :
    bodyPiece parts piece = bodyBlock parts piece ++ Piece.text "\n" := by
  unfold bodyPiece bodyBlock
  split
  · exact (Piece.empty_append _).symm
  · exact Piece.braces_eq _

/-- The parts of a definition stand in braces behind its header, if there are any. -/
theorem mayTrail_bodyBlock {σ α : Type} {sources : List σ} {take : σ → α} {piece : α → Piece}
    {shown : σ → List Token}
    (each : ∀ source ∈ sources, (piece (take source)).Closes (shown source)) :
    (bodyBlock (sources.map take) piece).MayTrail
      (enclosedTokens .openBrace .closeBrace shown sources) := by
  unfold bodyBlock enclosedTokens
  rw [List.isEmpty_map, Piece.concat_map]
  split
  · exact .inr ⟨rfl, rfl⟩
  · exact .inl (Piece.trails_enclosed (Piece.closes_concat each))

/-- Parted names behind a sign stand behind what the sign belongs to. -/
theorem trails_separated {sign : Punctuator} {separator opening : String} {before : List Token}
    (spelled : separator.toList = [' '] ++ (sign.spelling.toList ++ [' ']))
    (opens : Lexical.Closes opening.toList before) (delimitedOpening : Delimited opening.toList)
    (opened : opening.toList ≠ []) {names : List String} (some? : names ≠ [])
    (legible : ∀ name ∈ names, (Token.name name).Legible) :
    (Piece.text (opening ++ separator.intercalate names)).Trails
      (before ++ separatedTokens sign names) where
  spells := by
    apply Piece.spells_text
    rw [String.toList_append]
    exact opens.append_spells (woven_separated spelled some? legible).spells
  delimits := Piece.delimits_text_append delimitedOpening opened _
  ends := Piece.ends_text ((endsSolid_intercalate some? fun name inside =>
    (solid_name (legible name inside)).2).append opening)

/-- Parted names are legible when the names are. -/
theorem legible_of_separatedTokens {sign : Punctuator} {names : List String}
    (legible : AllLegible (separatedTokens sign names)) :
    ∀ name ∈ names, (Token.name name).Legible := by
  intro name inside
  apply legible
  apply (Grammar.separatedTokens_perm_names sign names).mem_iff.2
  exact List.mem_append_left _ (List.mem_map_of_mem inside)

/-- Implemented interfaces stand behind the name of a type, if there are any. -/
theorem mayTrail_interfacesPiece {interfaces : List String}
    (legible : AllLegible (interfaceTokens interfaces)) :
    (interfacesPiece interfaces).MayTrail (interfaceTokens interfaces) := by
  unfold interfacesPiece interfaceTokens at *
  split
  · exact .inr ⟨rfl, rfl⟩
  · rename_i some?
    rw [if_neg some?, allLegible_cons] at legible
    have word : Lexical.Closes " implements ".toList [.name "implements"] :=
      (closes_space.append_spells (spells_name legible.1)).append_closes closes_space (by decide)
        (by decide)
    exact .inl (trails_separated (rfl : " & ".toList = _) word (by decide) (by decide)
      (by simpa using some?) (legible_of_separatedTokens legible.2))

/-- The members of a union stand behind its name, if there are any. -/
theorem mayTrail_membersPiece {members : List String}
    (legible : AllLegible (memberTokens members)) :
    (membersPiece members).MayTrail (memberTokens members) := by
  unfold membersPiece memberTokens at *
  split
  · exact .inr ⟨rfl, rfl⟩
  · rename_i some?
    rw [if_neg some?, allLegible_cons] at legible
    exact .inl (trails_separated (rfl : " | ".toList = _) Grammar.closes_equals (by decide)
      (by decide) (by simpa using some?) (legible_of_separatedTokens legible.2))

/-- The keyword and name of a type are woven. -/
theorem woven_typeHeader {keyword name : String} (word : (Token.name keyword).Legible)
    (named : (Token.name name).Legible) :
    Woven (keyword ++ " " ++ name).toList [.name keyword, .name name] := by
  rw [String.append_assoc, String.toList_append, String.toList_append]
  exact woven_word word (.token named)

/-- The header of a type spells its description, keyword and name. -/
theorem solid_header {keyword name : String} (description : Option String)
    (directives : List String) (word : (Token.name keyword).Legible)
    (named : (Token.name name).Legible) :
    (Header.piece ⟨name, description, directives⟩ keyword).Solid
      (descriptionTokens description ++ [.name keyword, .name name]) := by
  have woven := woven_typeHeader word named
  exact ⟨(Piece.closes_description description).append_spells (Piece.spells_indented woven.spells),
    Piece.begins_described description woven.begins, (Piece.ends_indented woven.ends).append _⟩

/-- The root operations of a schema are the entries that give their types. Names of types
are not empty, so none is left out. -/
theorem Schema.roots_eq {type? : Grammar.OperationType → Option String}
    (legible : ∀ root ∈ rootsOf type?, (Token.name root.2).Legible)
    (description : Option String) (directives : List String) :
    Schema.roots ⟨type? .query, type? .mutation, type? .subscription, description, directives⟩ =
      (rootsOf type?).map fun root => (root.1.keyword, root.2) := by
  have kept (operation : Grammar.OperationType) :
      (type? operation).filter (fun type => !type.isEmpty) = type? operation := by
    cases found : type? operation with
    | none => rfl
    | some type =>
      have entry := legible (operation, type) (Grammar.mem_rootsOf found)
      simp [Option.filter, isEmpty_of_legible entry]
  have listed : Schema.roots ⟨type? .query, type? .mutation, type? .subscription, description,
      directives⟩ = Grammar.writtenOperations.filterMap fun operation =>
        ((type? operation).filter fun type => !type.isEmpty).map fun type =>
          (operation.keyword, type) := rfl
  rw [listed, rootsOf, List.map_filterMap]
  refine List.filterMap_congr fun operation _ => ?_
  rw [kept operation, Option.map_map]
  rfl

/-- A schema spells its tokens where it has no directives. -/
theorem rounded_schema {type? : Grammar.OperationType → Option String}
    {description : Option String} {directives : List Grammar.Directive}
    (legible : AllLegible (Grammar.TypeSystemDefinition.schema description directives
      (rootsOf type?)).tokens)
    (nonempty : rootsOf type? ≠ [])
    (unstopped : directiveOffence? (Grammar.directiveNames directives) .schema = none) :
    (Schema.piece ⟨type? .query, type? .mutation, type? .subscription, description,
      Grammar.directiveNames directives⟩).Rounded
        (Grammar.TypeSystemDefinition.schema description directives (rootsOf type?)).tokens := by
  obtain rfl := directives_eq_nil unstopped
  have tokens_eq : (Grammar.TypeSystemDefinition.schema description [] (rootsOf type?)).tokens =
      descriptionTokens description ++ [.name "schema"] ++
        enclosedTokens .openBrace .closeBrace Grammar.rootTokens (rootsOf type?) := by
    simp [Grammar.TypeSystemDefinition.tokens, Grammar.TypeSystemDefinition.description?,
      Grammar.TypeSystemDefinition.bodyTokens, directiveTokens]
  rw [tokens_eq] at legible ⊢
  simp only [allLegible_append, allLegible_cons, allLegible_enclosedTokens] at legible
  obtain ⟨⟨-, keyword, -⟩, entries⟩ := legible
  have types : ∀ root ∈ rootsOf type?, (Token.name root.2).Legible := by
    intro root inside
    have entry := entries root inside
    simp only [Grammar.rootTokens, allLegible_cons] at entry
    exact entry.2.2.1
  have word : (Piece.description description ++ Piece.indented "schema").Solid
      (descriptionTokens description ++ [.name "schema"]) :=
    ⟨(Piece.closes_description description).append_spells
      (Piece.spells_indented (spells_name keyword)),
      Piece.begins_described description (solid_name keyword).1,
      (Piece.ends_indented (solid_name keyword).2).append _⟩
  have block : (Piece.concat ((rootsOf type?).map fun root => (root.1.keyword, root.2))
      rootPiece).Closes ((rootsOf type?).flatMap Grammar.rootTokens) := by
    rw [Piece.concat_map]
    exact Piece.closes_concat fun root inside => closes_root (entries root inside)
  have shown : enclosedTokens .openBrace .closeBrace Grammar.rootTokens (rootsOf type?) =
      .punctuator .openBrace :: ((rootsOf type?).flatMap Grammar.rootTokens ++
        [.punctuator .closeBrace]) := by
    simp [enclosedTokens, nonempty]
  rw [shown, Schema.piece, Schema.roots_eq types, Piece.braces_eq, ← Piece.append_assoc,
    ← Piece.append_assoc]
  exact (word.append (Piece.trails_enclosed block)).rounded

/-- An object type or interface spells its tokens where no directive stops it. -/
theorem rounded_composite {keyword name : String} {description : Option String}
    {interfaces : List String} {directives : List Grammar.Directive}
    {fields : List Grammar.FieldDefinition}
    (legible : AllLegible (descriptionTokens description ++ .name keyword :: .name name ::
      (interfaceTokens interfaces ++ (directiveTokens directives ++
        enclosedTokens .openBrace .closeBrace Grammar.FieldDefinition.tokens fields))))
    (unstopped : Composite.offence? ⟨⟨name, description, Grammar.directiveNames directives⟩,
      interfaces, fields.map Field.ofGrammar⟩ keyword = none) :
    (Composite.piece ⟨⟨name, description, Grammar.directiveNames directives⟩, interfaces,
      fields.map Field.ofGrammar⟩ keyword).Rounded
        (descriptionTokens description ++ .name keyword :: .name name ::
          (interfaceTokens interfaces ++ (directiveTokens directives ++
            enclosedTokens .openBrace .closeBrace Grammar.FieldDefinition.tokens fields))) := by
  simp only [Composite.offence?, Header.offence?, Option.or_eq_none_iff, firstOffence?_eq_none,
    List.forall_mem_map] at unstopped
  obtain ⟨own, below⟩ := unstopped
  obtain rfl := directives_eq_nil own
  simp only [allLegible_append, allLegible_cons, allLegible_enclosedTokens] at legible
  obtain ⟨-, word, named, implemented, -, parts⟩ := legible
  have header := solid_header description (Grammar.directiveNames []) word named
  have body := mayTrail_bodyBlock fun field inside =>
    closes_field (parts field inside) (below field inside)
  have whole := (header.append_mayTrail (mayTrail_interfacesPiece implemented)).append_mayTrail body
  have tokens_eq : descriptionTokens description ++ .name keyword :: .name name ::
      (interfaceTokens interfaces ++ (directiveTokens [] ++
        enclosedTokens .openBrace .closeBrace Grammar.FieldDefinition.tokens fields)) =
      descriptionTokens description ++ [.name keyword, .name name] ++ interfaceTokens interfaces ++
        enclosedTokens .openBrace .closeBrace Grammar.FieldDefinition.tokens fields := by
    simp [directiveTokens]
  rw [tokens_eq, Composite.piece, bodyPiece_eq, ← Piece.append_assoc, ← Piece.append_assoc]
  exact whole.rounded

/-- The header of a type and one more part spell their tokens where the type has no
directives. -/
theorem rounded_header {keyword name : String} {description : Option String}
    {directives : List Grammar.Directive} {behind : Piece} {tokens : List Token}
    (legible : AllLegible (descriptionTokens description ++ .name keyword :: .name name ::
      (directiveTokens directives ++ tokens)))
    (undirected : directives = []) (mayTrail : behind.MayTrail tokens) :
    (Header.piece ⟨name, description, Grammar.directiveNames directives⟩ keyword ++
      (behind ++ Piece.text "\n")).Rounded
        (descriptionTokens description ++ .name keyword :: .name name ::
          (directiveTokens directives ++ tokens)) := by
  obtain rfl := undirected
  simp only [allLegible_append, allLegible_cons] at legible
  obtain ⟨-, word, named, -⟩ := legible
  have header := solid_header description (Grammar.directiveNames []) word named
  have tokens_eq : descriptionTokens description ++ .name keyword :: .name name ::
      (directiveTokens [] ++ tokens) =
        descriptionTokens description ++ [.name keyword, .name name] ++ tokens := by
    simp [directiveTokens]
  rw [tokens_eq, ← Piece.append_assoc]
  exact (header.append_mayTrail mayTrail).rounded

/-- The header of a type and its parts spell their tokens where the type has no directives
and each part adds its own. -/
theorem rounded_listed {σ α : Type} {keyword name : String} {description : Option String}
    {directives : List Grammar.Directive} {sources : List σ} {take : σ → α} {piece : α → Piece}
    {shown : σ → List Token}
    (legible : AllLegible (descriptionTokens description ++ .name keyword :: .name name ::
      (directiveTokens directives ++ enclosedTokens .openBrace .closeBrace shown sources)))
    (undirected : directives = [])
    (each : ∀ source ∈ sources, AllLegible (shown source) →
      (piece (take source)).Closes (shown source)) :
    (Header.piece ⟨name, description, Grammar.directiveNames directives⟩ keyword ++
      bodyPiece (sources.map take) piece).Rounded
        (descriptionTokens description ++ .name keyword :: .name name ::
          (directiveTokens directives ++ enclosedTokens .openBrace .closeBrace shown sources)) := by
  have parts := legible
  simp only [allLegible_append, allLegible_cons, allLegible_enclosedTokens] at parts
  obtain ⟨-, -, -, -, entries⟩ := parts
  have body := mayTrail_bodyBlock fun source inside => each source inside (entries source inside)
  rw [bodyPiece_eq]
  exact rounded_header legible undirected body

/-- The canonical form of a definition spells the tokens of its arranged source where
nothing stops it. -/
theorem Definition.rounded_canonical {definition : Grammar.TypeSystemDefinition} {strict : Bool}
    (fits : (Grammar.Definition.typeSystem definition).Fits)
    (legible : AllLegible definition.tokens)
    (unstopped : (Definition.ofTypeSystem definition).canonical.offence? strict = none) :
    (Definition.ofTypeSystem definition).canonical.piece.Rounded definition.arranged.tokens := by
  have arrangedFits := Grammar.TypeSystemDefinition.fits_arranged fits
  have arrangedLegible := Grammar.TypeSystemDefinition.legible_arranged legible
  rw [← Definition.ofTypeSystem_arranged] at unstopped ⊢
  cases definition with
  | schema description directives roots =>
    simp only [Grammar.TypeSystemDefinition.arranged, Definition.ofTypeSystem,
      Grammar.rootType?_settledRoots] at unstopped ⊢
    exact rounded_schema arrangedLegible arrangedFits.2 unstopped
  | scalar description name directives =>
    have nothing : (Piece.text "").MayTrail [] := .inr ⟨rfl, rfl⟩
    have line := @rounded_header "scalar" name description directives _ _
      (by rw [List.append_nil]; exact arrangedLegible) (directives_eq_nil unstopped) nothing
    rw [List.append_nil] at line
    exact line
  | object description name interfaces directives fields
  | interface description name interfaces directives fields =>
    exact rounded_composite arrangedLegible unstopped
  | union description name directives members =>
    have members := arrangedLegible
    simp only [Grammar.TypeSystemDefinition.arranged, Grammar.TypeSystemDefinition.tokens,
      Grammar.TypeSystemDefinition.bodyTokens, allLegible_append, allLegible_cons] at members
    exact rounded_header arrangedLegible (directives_eq_nil unstopped)
      (mayTrail_membersPiece members.2.2.2.2)
  | enum description name directives values =>
    simp only [Grammar.TypeSystemDefinition.arranged, Definition.ofTypeSystem, Definition.offence?,
      Enum.offence?, Header.offence?, Option.or_eq_none_iff, firstOffence?_eq_none,
      List.forall_mem_map] at unstopped
    obtain ⟨own, below⟩ := unstopped
    exact rounded_listed arrangedLegible (directives_eq_nil own) fun value inside =>
      closes_enumValue (directives_eq_nil (below value inside))
  | inputObject description name directives fields =>
    simp only [Grammar.TypeSystemDefinition.arranged, Definition.ofTypeSystem, Definition.offence?,
      InputObject.offence?, Header.offence?, Option.or_eq_none_iff, firstOffence?_eq_none,
      List.forall_mem_map] at unstopped
    obtain ⟨own, -, below⟩ := unstopped
    exact rounded_listed arrangedLegible (directives_eq_nil own) fun field inside =>
      closes_inputField _ (directives_eq_nil (below field inside))

/-- The definitions of a canonical form spell the tokens of those of its arranged source where
nothing stops it. -/
theorem Document.rounded_canonical {definitions : List Grammar.TypeSystemDefinition} {strict : Bool}
    (fit : ∀ definition ∈ definitions, (Grammar.Definition.typeSystem definition).Fits)
    (legible : ∀ definition ∈ definitions, AllLegible definition.tokens)
    (unstopped : (Document.mk (definitions.map Definition.ofTypeSystem)).canonical.offence? strict =
      none) :
    List.Forall₂ (fun (source : Grammar.TypeSystemDefinition)
      (definition : Definition) => definition.piece.Rounded source.tokens)
        (definitions.map Grammar.TypeSystemDefinition.arranged)
        (Document.mk (definitions.map Definition.ofTypeSystem)).canonical.definitions := by
  simp only [Document.offence?, firstOffence?_eq_none, Document.canonical,
    List.forall_mem_map] at unstopped
  simp only [Document.canonical, List.forall₂_map_left_iff, List.forall₂_map_right_iff,
    List.forall₂_same]
  exact fun definition inside => Definition.rounded_canonical (fit definition inside)
    (legible definition inside) (unstopped definition inside)

/-- The canonical form of a document spells the tokens of its arranged source where
nothing stops it. -/
theorem Document.spells_canonical {definitions : List Grammar.TypeSystemDefinition} {strict : Bool}
    (nonempty : definitions ≠ [])
    (fit : ∀ definition ∈ definitions, (Grammar.Definition.typeSystem definition).Fits)
    (legible : ∀ definition ∈ definitions, AllLegible definition.tokens)
    (unstopped : (Document.mk (definitions.map Definition.ofTypeSystem)).canonical.offence? strict =
      none) (indentWidth maxWidth : Int) :
    Lexical.Spells
      (Text.strip ((Document.mk (definitions.map Definition.ofTypeSystem)).canonical.piece
        (.start indentWidth maxWidth))).toList
      ((definitions.map Grammar.TypeSystemDefinition.arranged).flatMap
        Grammar.TypeSystemDefinition.tokens) :=
  Piece.spells_strip_concat (Document.rounded_canonical fit legible unstopped)
    (by simpa [Document.canonical] using nonempty) indentWidth maxWidth

end GraphQLCanon.TypeSystem
