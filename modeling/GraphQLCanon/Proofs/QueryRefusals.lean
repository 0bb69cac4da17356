import GraphQLCanon.Proofs.Offences
import GraphQLCanon.Proofs.QueryRoundTrip

/-!
# Refused queries

A query text is formatted exactly when it is read as operations and fragments without
directives. Any other text is refused for one reason, and the reasons are these: it is not
read; a definition does not belong in a query, and the first such one is named; a directive
stands somewhere, and the first one on the first part that has any is named. Parts are met
in the canonical order, each one before those below it. The options play no role in it.
-/

namespace GraphQLCanon.Grammar

mutual

/-- A selection and the selections below it, each one before those below it. -/
def Selection.carriers : Selection → List Carrier
  | .field _ name _ directives selections =>
    ⟨.selectedField name, directives⟩ :: carriersEach selections
  | .spread name directives => [⟨.spread name, directives⟩]
  | .inline typeCondition directives selections =>
    ⟨Executable.inlineOwner typeCondition, directives⟩ :: carriersEach selections

/-- Selections one after another, each with those below it. -/
def carriersEach : List Selection → List Carrier
  | [] => []
  | selection :: selections => selection.carriers ++ carriersEach selections

end

/-- A variable of an operation, with its directives. -/
def VariableDefinition.carrier (definition : VariableDefinition) : Carrier :=
  ⟨.variableDefinition definition.name, definition.directives⟩

/-- An operation, then its variables, then its selections. -/
def OperationDefinition.carriers (definition : OperationDefinition) : List Carrier :=
  ⟨.operation definition.operation.keyword definition.name, definition.directives⟩ ::
    (definition.variableDefinitions.map VariableDefinition.carrier ++
      carriersEach definition.selections)

/-- A fragment, then its selections. -/
def FragmentDefinition.carriers (definition : FragmentDefinition) : List Carrier :=
  ⟨.fragment definition.name, definition.directives⟩ :: carriersEach definition.selections

/-- The parts of an operation or fragment that may carry directives, each one before those
below it. A shorthand is an operation that carries none itself. -/
def Definition.carriers : Definition → List Carrier
  | shorthand selections =>
    ⟨.operation OperationType.query.keyword none, []⟩ :: carriersEach selections
  | operation definition => definition.carriers
  | fragment definition => definition.carriers
  | typeSystem _ | directive _ | extension _ => []

/-- Selections are listed one by one. -/
theorem carriersEach_eq_flatMap (selections : List Selection) :
    carriersEach selections = selections.flatMap Selection.carriers := by
  induction selections with
  | nil => rfl
  | cons first others inductionHypothesis =>
    rw [carriersEach, inductionHypothesis, List.flatMap_cons]

/-- A set in canonical order has the same parts when its selections have. -/
theorem carriersEach_perm {selections : List Selection}
    (each : ∀ selection ∈ selections, selection.arranged.carriers.Perm selection.carriers) :
    (carriersEach (arrangedSelections selections)).Perm (carriersEach selections) := by
  rw [carriersEach_eq_flatMap, carriersEach_eq_flatMap]
  refine ((arrangedSelections_perm selections).flatMap_right _).trans ?_
  rw [List.flatMap_map]
  exact List.Perm.flatMap_left _ each

/-- A selection has the same parts with everything below it in canonical order. -/
theorem Selection.carriers_arranged_perm (selection : Selection) :
    selection.arranged.carriers.Perm selection.carriers := by
  induction selection using Selection.induct with
  | field aliasName name arguments directives selections inductionHypothesis =>
    rw [Selection.arranged, Selection.carriers, Selection.carriers]
    exact (carriersEach_perm inductionHypothesis).cons _
  | spread name directives => exact .refl _
  | inline typeCondition directives selections inductionHypothesis =>
    rw [Selection.arranged, Selection.carriers, Selection.carriers]
    exact (carriersEach_perm inductionHypothesis).cons _

/-- A definition has the same parts arranged. -/
theorem Definition.carriers_arranged_perm (definition : Definition) :
    definition.arranged.carriers.Perm definition.carriers := by
  have sets (selections : List Selection) :=
    @carriersEach_perm selections fun selection _ => selection.carriers_arranged_perm
  cases definition with
  | shorthand selections => exact (sets selections).cons _
  | operation source =>
    have entries : (source.variableDefinitions.map fun entry =>
        { entry with description := none }).map VariableDefinition.carrier =
          source.variableDefinitions.map VariableDefinition.carrier := by
      rw [List.map_map]
      rfl
    simp only [arranged, carriers, OperationDefinition.carriers, entries]
    exact ((sets source.selections).append_left _).cons _
  | fragment source => exact (sets source.selections).cons _
  | typeSystem | directive | extension => exact .refl _

/-- Arranged definitions are without directives exactly when the definitions are. -/
theorem bare_arranged {definitions : List Definition} :
    Bare ((definitions.map Definition.arranged).flatMap Definition.carriers) ↔
      ∀ definition ∈ definitions, Bare definition.carriers := by
  rw [List.flatMap_map, bare_flatMap]
  exact forall₂_congr fun definition _ => bare_perm definition.carriers_arranged_perm

end GraphQLCanon.Grammar

namespace GraphQLCanon.Executable

open GraphQLCanon.Layout.Printing
open GraphQLCanon.Grammar (Bare offencesOn carriersEach)

/-- Selections stop the printing at the first directive on the parts of their sources, if
each of them does. -/
theorem offenceEach?_selectionsOf {selections : List Grammar.Selection}
    (each : ∀ selection ∈ selections,
      (Selection.ofGrammar selection).offence? = (offencesOn selection.carriers).head?) :
    offenceEach? (selectionsOf selections) = (offencesOn (carriersEach selections)).head? := by
  rw [offenceEach?_eq_firstOffence?, selectionsOf_eq_map, Grammar.carriersEach_eq_flatMap]
  exact Grammar.firstOffence?_flatMap each

/-- A selection stops the printing at the first directive on the parts of its source. -/
theorem Selection.offence?_ofGrammar (selection : Grammar.Selection) :
    (Selection.ofGrammar selection).offence? = (offencesOn selection.carriers).head? := by
  induction selection using Grammar.Selection.induct with
  | field aliasName name arguments directives selections inductionHypothesis =>
    rw [Selection.ofGrammar, Selection.offence?, offenceEach?_selectionsOf inductionHypothesis,
      Grammar.directiveOffence?_eq_head?, Grammar.Selection.carriers, Grammar.offencesOn_cons,
      List.head?_append]
  | spread name directives =>
    rw [Selection.ofGrammar, Selection.offence?, Grammar.directiveOffence?_eq_head?,
      Grammar.Selection.carriers, Grammar.offencesOn_cons, offencesOn, List.flatMap_nil,
      List.append_nil]
  | inline typeCondition directives selections inductionHypothesis =>
    rw [Selection.ofGrammar, Selection.offence?, offenceEach?_selectionsOf inductionHypothesis,
      Grammar.directiveOffence?_eq_head?, Grammar.Selection.carriers, Grammar.offencesOn_cons,
      List.head?_append]

/-- An operation stops the printing at the first directive on the parts of its source. -/
theorem Operation.offence?_ofGrammar (definition : Grammar.OperationDefinition) :
    (Operation.ofGrammar definition).offence? = (offencesOn definition.carriers).head? := by
  have entries : firstOffence? variableOffence?
      (definition.variableDefinitions.map Variable.ofGrammar) =
        (offencesOn (definition.variableDefinitions.map
          Grammar.VariableDefinition.carrier)).head? :=
    Grammar.firstOffence?_carriers fun entry _ => Grammar.directiveOffence?_eq_head? _ _
  have below := @offenceEach?_selectionsOf definition.selections fun selection _ =>
    Selection.offence?_ofGrammar selection
  simp only [Operation.ofGrammar, Operation.offence?, entries, below,
    Grammar.directiveOffence?_eq_head?, Grammar.OperationDefinition.carriers,
    Grammar.offencesOn_cons, Grammar.offencesOn_append, List.head?_append]

/-- A fragment stops the printing at the first directive on the parts of its source. -/
theorem Fragment.offence?_ofGrammar (definition : Grammar.FragmentDefinition) :
    (Fragment.ofGrammar definition).offence? = (offencesOn definition.carriers).head? := by
  have below := @offenceEach?_selectionsOf definition.selections fun selection _ =>
    Selection.offence?_ofGrammar selection
  simp only [Fragment.ofGrammar, Fragment.offence?, below, Grammar.directiveOffence?_eq_head?,
    Grammar.FragmentDefinition.carriers, Grammar.offencesOn_cons, List.head?_append]

/-- A definition stops the printing at the first directive on the parts of its source. -/
theorem Definition.offence?_of_ofGrammar {source : Grammar.Definition} {definition : Definition}
    (taken : Definition.ofGrammar source = .ok definition) :
    definition.offence? = (offencesOn source.carriers).head? := by
  cases source with
  | shorthand selections =>
    cases taken
    exact Operation.offence?_ofGrammar ⟨none, .query, none, [], [], selections⟩
  | operation source =>
    cases taken
    exact Operation.offence?_ofGrammar source
  | fragment source =>
    cases taken
    exact Fragment.offence?_ofGrammar source
  | typeSystem | directive | extension => cases taken

/-- A document stops the printing at the first directive on the parts of its source. -/
theorem Document.offence?_of_ofGrammar {definitions : List Grammar.Definition}
    {document : Document} (taken : Document.ofGrammar definitions = .ok document) :
    document.offence? = (offencesOn (definitions.flatMap Grammar.Definition.carriers)).head? := by
  have each := (Document.ofGrammar_eq_ok.1 taken).imp fun source definition one =>
    Definition.offence?_of_ofGrammar one
  rw [Document.offence?, Grammar.firstOffence?_forall₂ each]
  exact congrArg List.head? List.flatMap_assoc.symm

/-- An operation or fragment of a source is taken. -/
theorem Definition.ofGrammar_of_isExecutable {source : Grammar.Definition}
    (executable : source.isExecutable = true) :
    ∃ definition, Definition.ofGrammar source = .ok definition := by
  cases source with
  | shorthand | operation | fragment => exact ⟨_, rfl⟩
  | typeSystem | directive | extension => cases executable

/-- Operations and fragments of a source are taken. -/
theorem Document.ofGrammar_of_executable {definitions : List Grammar.Definition}
    (executable : ∀ definition ∈ definitions, definition.isExecutable = true) :
    ∃ document, Document.ofGrammar definitions = .ok document := by
  obtain ⟨taken, each⟩ := exists_mapM_eq_ok fun definition inside =>
    Definition.ofGrammar_of_isExecutable (executable definition inside)
  exact ⟨⟨taken⟩, by rw [Document.ofGrammar, each]; rfl⟩

/-- A source is refused for its first definition that is neither an operation nor a
fragment. -/
theorem Document.ofGrammar_of_foreign {before : List Grammar.Definition}
    {definition : Grammar.Definition}
    (earlier : ∀ other ∈ before, other.isExecutable = true)
    (foreign : definition.isExecutable = false) (behind : List Grammar.Definition) :
    Document.ofGrammar (before ++ definition :: behind) =
      .error (.inQueryDocument definition.label) := by
  have refused : Definition.ofGrammar definition = .error (.inQueryDocument definition.label) := by
    cases definition with
    | shorthand | operation | fragment => cases foreign
    | typeSystem | directive | extension => rfl
  rw [Document.ofGrammar, mapM_eq_error
    (fun other inside => Definition.ofGrammar_of_isExecutable (earlier other inside)) refused]
  rfl

end GraphQLCanon.Executable

namespace GraphQLCanon

open GraphQLCanon.Executable
open GraphQLCanon.Layout
open GraphQLCanon.Grammar (Bare Carrier Directive offencesOn)

/-- A query text that has a canonical form: it is read as operations and fragments, and no
directive stands on any part of them. -/
def QueryAccepted (text : String) : Prop :=
  ∃ definitions, Grammar.Document.ofText text = .ok definitions ∧
    ∀ definition ∈ definitions, definition.isExecutable = true ∧ Bare definition.carriers

/-- Why a query text has no canonical form. The reasons exclude each other. -/
inductive QueryRefused (text : String) : FormatError → Prop
  /-- The text is not read. -/
  | badSyntax {error : Grammar.SyntaxError}
    (unread : Grammar.Document.ofText text = .error error) : QueryRefused text (.badSyntax error)
  /-- The first definition that is neither an operation nor a fragment. -/
  | foreign {before behind : List Grammar.Definition} {definition : Grammar.Definition}
    (read : Grammar.Document.ofText text = .ok (before ++ definition :: behind))
    (earlier : ∀ other ∈ before, other.isExecutable = true)
    (foreign : definition.isExecutable = false) :
    QueryRefused text (.unprintable (.unsupported (.inQueryDocument definition.label)))
  /-- The first directive on the first part that carries any, in the canonical order. -/
  | directive {definitions : List Grammar.Definition} {before behind : List Carrier}
    {carrier : Carrier} {first : Directive} {others : List Directive}
    (read : Grammar.Document.ofText text = .ok definitions)
    (executable : ∀ definition ∈ definitions, definition.isExecutable = true)
    (parts : (definitions.map Grammar.Definition.arranged).flatMap Grammar.Definition.carriers =
      before ++ carrier :: behind)
    (earlier : Bare before) (directives : carrier.directives = first :: others) :
    QueryRefused text (.unprintable (.unsupported (.directive first.name carrier.owner)))

/-- Every query text is accepted or refused. -/
theorem queryAccepted_or_refused (text : String) :
    QueryAccepted text ∨ ∃ error, QueryRefused text error := by
  cases read : Grammar.Document.ofText text with
  | error error => exact .inr ⟨_, .badSyntax read⟩
  | ok definitions =>
    obtain executable | ⟨before, definition, behind, rfl, earlier, foreign⟩ :=
      forall_or_exists_first (fun definition => definition.isExecutable = true) definitions
    · obtain bare | ⟨before, carrier, behind, parts, earlier, some?⟩ :=
        forall_or_exists_first (fun carrier => carrier.directives = [])
          ((definitions.map Grammar.Definition.arranged).flatMap Grammar.Definition.carriers)
      · have each := Grammar.bare_arranged.1 bare
        exact .inl ⟨definitions, read, fun definition inside =>
          ⟨executable definition inside, each definition inside⟩⟩
      · obtain ⟨first, others, directives⟩ := List.exists_cons_of_ne_nil some?
        exact .inr ⟨_, .directive read executable parts earlier directives⟩
    · exact .inr ⟨_, .foreign read earlier (Bool.eq_false_iff.2 foreign)⟩

/-- The outcome of formatting operations and fragments: the first directive on their
arranged parts, or the piece of their canonical form. -/
theorem formatQuery_of_executable {text : String} {definitions : List Grammar.Definition}
    (read : Grammar.Document.ofText text = .ok definitions)
    (executable : ∀ definition ∈ definitions, definition.isExecutable = true)
    (options : Options) :
    ∃ written, formatQuery text options =
      (Printing.outcome (offencesOn ((definitions.map Grammar.Definition.arranged).flatMap
        Grammar.Definition.carriers)).head? written).mapError .unprintable := by
  obtain ⟨document, taken⟩ := Document.ofGrammar_of_executable executable
  have stopped := Document.offence?_of_ofGrammar (Document.ofGrammar_arranged taken)
  have rendered := document.render_eq options.indentWidth options.maxWidth
  rw [stopped] at rendered
  refine ⟨document.canonical.piece (.start options.indentWidth options.maxWidth), ?_⟩
  simp only [formatQuery, readExecutable_eq_ok.2 ⟨definitions, read, taken⟩, bind, Except.bind,
    renderExecutable, rendered]

/-- An accepted query text is formatted. -/
theorem formatQuery_of_accepted {text : String} (accepted : QueryAccepted text)
    (options : Options) : ∃ result, formatQuery text options = .ok result := by
  obtain ⟨definitions, read, each⟩ := accepted
  obtain ⟨written, formatted⟩ := formatQuery_of_executable read
    (fun definition inside => (each definition inside).1) options
  have bare := Grammar.bare_arranged.2 fun definition inside => (each definition inside).2
  rw [Grammar.offencesOn_eq_nil.2 bare] at formatted
  exact ⟨_, formatted⟩

/-- A refused query text is refused for its reason. -/
theorem formatQuery_of_refused {text : String} {error : FormatError}
    (refused : QueryRefused text error) (options : Options) :
    formatQuery text options = .error error := by
  cases refused with
  | badSyntax unread => simp [formatQuery, readExecutable, unread, bind, Except.bind]
  | foreign read earlier foreign =>
    simp [formatQuery, readExecutable, read, Document.ofGrammar_of_foreign earlier foreign, bind,
      Except.bind, Except.mapError]
  | @directive _ before behind carrier first others read executable parts earlier directives =>
    obtain ⟨written, formatted⟩ := formatQuery_of_executable read executable options
    have met : (offencesOn (before ++ carrier :: behind)).head? =
        some (.directive first.name carrier.owner) := by
      rw [Grammar.offencesOn_append, Grammar.offencesOn_eq_nil.2 earlier, List.nil_append,
        Grammar.offencesOn_cons, Carrier.offences, directives]
      rfl
    rw [parts, met] at formatted
    exact formatted

/-- A query text is formatted exactly when it is read as operations and fragments without
directives, and an error is the reason for which it is refused: it is not read, else its
first definition that does not belong in a query, else the first directive on the first part
that carries one. What is accepted and what is refused does not depend on the options. -/
theorem formatQuery_verdict (text : String) (options : Options) :
    ((∃ result, formatQuery text options = .ok result) ↔ QueryAccepted text) ∧
      ∀ error, formatQuery text options = .error error ↔ QueryRefused text error :=
  except_verdict (fun accepted => formatQuery_of_accepted accepted options)
    (fun _ refused => formatQuery_of_refused refused options) (queryAccepted_or_refused text)

set_option maxRecDepth 4000 in
/-- The field without selections is met first, although it stands behind the other one. -/
theorem formatQuery_verdict_sorted :
    formatQuery "\x7b a @late \x7b b \x7d c @early \x7d" Options.standard =
        .error (.unprintable (.unsupported (.directive "early" (.selectedField "c")))) ∧
      QueryRefused "\x7b a @late \x7b b \x7d c @early \x7d"
        (.unprintable (.unsupported (.directive "early" (.selectedField "c")))) := by
  have refused : formatQuery "\x7b a @late \x7b b \x7d c @early \x7d" Options.standard =
      .error (.unprintable (.unsupported (.directive "early" (.selectedField "c")))) := by
    cbv
  exact ⟨refused, ((formatQuery_verdict _ Options.standard).2 _).1 refused⟩

end GraphQLCanon
