import GraphQLCanon.Proofs.SchemaRoundTrip

/-!
# Tokens of formatted schemas

Formatting a schema loses no token and invents none, but for three things: descriptions
are written in quotes, no separator leads a list of names, and of several entries for
one root operation in a schema block only the last is kept.
-/

namespace GraphQLCanon.Grammar

open GraphQLCanon.Lexical
open GraphQLCanon.TypeSystem (rootType?)

/-- The entries of a schema block that a later entry for the same operation overwrites. -/
def overwrittenRoots : List (OperationType × String) → List (OperationType × String)
  | [] => []
  | root :: others =>
    if root.1 ∈ others.map Prod.fst then root :: overwrittenRoots others
    else overwrittenRoots others

/-- The entries for root operations of a definition that later ones overwrite. -/
def TypeSystemDefinition.overwritten : TypeSystemDefinition → List (OperationType × String)
  | schema _ _ roots => overwrittenRoots roots
  | _ => []

/-- An operation has a type exactly when an entry names it. -/
theorem rootType?_isSome_iff {roots : List (OperationType × String)} {operation : OperationType} :
    (rootType? roots operation).isSome = true ↔ operation ∈ roots.map Prod.fst := by
  rw [rootType?, Option.isSome_map, List.find?_isSome]
  simp

/-- An entry gives a type to its operation only, and only where no later entry does. -/
theorem rootType?_cons (root : OperationType × String) (others : List (OperationType × String))
    (operation : OperationType) :
    rootType? (root :: others) operation =
      (rootType? others operation).or (if root.1 = operation then some root.2 else none) := by
  unfold rootType?
  rw [List.reverse_cons, List.find?_append]
  cases found : others.reverse.find? fun other => other.1 == operation with
  | some last => simp
  | none => by_cases same : root.1 = operation <;> simp [same]

/-- The entry for an operation, if it has a type. -/
def rootEntry (type? : OperationType → Option String) (operation : OperationType) :
    List (OperationType × String) :=
  ((type? operation).map fun type => (operation, type)).toList

/-- The entries stand in the order of the operations. -/
theorem rootsOf_eq (type? : OperationType → Option String) :
    rootsOf type? =
      rootEntry type? .mutation ++ (rootEntry type? .query ++ rootEntry type? .subscription) := by
  unfold rootsOf writtenOperations rootEntry
  cases mutation : type? .mutation <;> cases query : type? .query <;>
    cases subscription : type? .subscription <;> simp [mutation, query, subscription]

/-- An entry that a later one overwrites does not count. -/
theorem settledRoots_cons_of_named {root : OperationType × String}
    {others : List (OperationType × String)} (named : root.1 ∈ others.map Prod.fst) :
    settledRoots (root :: others) = settledRoots others := by
  have same : rootType? (root :: others) = rootType? others := by
    funext operation
    rw [rootType?_cons]
    by_cases front : root.1 = operation
    · subst front
      obtain ⟨type, found⟩ := Option.isSome_iff_exists.1 (rootType?_isSome_iff.2 named)
      simp [found]
    · simp [front]
  rw [settledRoots, same, settledRoots]

/-- An entry for an operation that no later entry names counts. -/
theorem settledRoots_cons_of_unnamed {root : OperationType × String}
    {others : List (OperationType × String)} (unnamed : root.1 ∉ others.map Prod.fst) :
    (settledRoots (root :: others)).Perm (root :: settledRoots others) := by
  obtain ⟨operation, type⟩ := root
  have missing : rootType? others operation = none := by
    rw [← Option.not_isSome_iff_eq_none, rootType?_isSome_iff]
    exact unnamed
  have own : rootEntry (rootType? ((operation, type) :: others)) operation =
      [(operation, type)] := by
    simp [rootEntry, rootType?_cons, missing]
  have nothing : rootEntry (rootType? others) operation = [] := by simp [rootEntry, missing]
  have kept (other : OperationType) (different : operation ≠ other) :
      rootEntry (rootType? ((operation, type) :: others)) other =
        rootEntry (rootType? others) other := by
    simp [rootEntry, rootType?_cons, different]
  rw [settledRoots, settledRoots, rootsOf_eq, rootsOf_eq, List.perm_iff_count]
  intro entry
  cases operation with
  | mutation =>
    rw [own, nothing, kept .query (by simp), kept .subscription (by simp)]
    simp only [List.count_append, List.count_cons, List.count_nil]
    omega
  | query =>
    rw [own, nothing, kept .mutation (by simp), kept .subscription (by simp)]
    simp only [List.count_append, List.count_cons, List.count_nil]
    omega
  | subscription =>
    rw [own, nothing, kept .mutation (by simp), kept .query (by simp)]
    simp only [List.count_append, List.count_cons, List.count_nil]
    omega

/-- The entries of a schema block are those that count and those that are overwritten. -/
theorem settledRoots_append_perm (roots : List (OperationType × String)) :
    (settledRoots roots ++ overwrittenRoots roots).Perm roots := by
  induction roots with
  | nil => exact .refl _
  | cons root others inductionHypothesis =>
    unfold overwrittenRoots
    by_cases named : root.1 ∈ others.map Prod.fst
    · rw [if_pos named, settledRoots_cons_of_named named]
      exact List.perm_middle.trans (inductionHypothesis.cons root)
    · rw [if_neg named]
      have last := settledRoots_cons_of_unnamed named
      exact (last.append_right _).trans (inductionHypothesis.cons root)

/-- Where an entry is overwritten, an entry counts. -/
theorem enclosedRoots_perm (roots : List (OperationType × String)) :
    (enclosedTokens .openBrace .closeBrace rootTokens (settledRoots roots) ++
        (overwrittenRoots roots).flatMap rootTokens).Perm
      (enclosedTokens .openBrace .closeBrace rootTokens roots) := by
  have divided := (settledRoots_append_perm roots).flatMap_right rootTokens
  rw [List.flatMap_append] at divided
  by_cases nonempty : roots = []
  · subst nonempty
    exact .refl _
  · have some? := settledRoots_ne_nil nonempty
    simp only [enclosedTokens, List.isEmpty_iff, if_neg nonempty, if_neg some?]
    rw [List.perm_iff_count] at divided ⊢
    intro token
    have counted := divided token
    simp only [List.count_append, List.count_cons, List.count_nil] at counted ⊢
    omega

/-- An arranged definition has the tokens of its source, less the entries for root
operations that are overwritten. -/
theorem TypeSystemDefinition.tokens_arranged_append_perm (definition : TypeSystemDefinition) :
    (definition.arranged.tokens ++ definition.overwritten.flatMap rootTokens).Perm
      definition.tokens := by
  refine (definition.tokens_arranged_perm.append_right _).trans ?_
  cases definition with
  | schema description directives roots =>
    have entries := enclosedRoots_perm roots
    simp only [settled, overwritten, tokens, bodyTokens, description?, List.append_assoc,
      List.cons_append]
    exact .append_left _ ((entries.append_left _).cons _)
  | scalar | object | interface | union | enum | inputObject =>
    simp only [overwritten, List.flatMap_nil, List.append_nil]
    exact .refl _

/-- Arranged definitions have the tokens of their sources, less the entries for root
operations that are overwritten. -/
theorem arrangedSchemaTokens_perm (definitions : List TypeSystemDefinition) :
    ((definitions.map TypeSystemDefinition.arranged).flatMap TypeSystemDefinition.tokens ++
        (definitions.flatMap TypeSystemDefinition.overwritten).flatMap rootTokens).Perm
      (definitions.flatMap TypeSystemDefinition.tokens) := by
  have together := List.flatMap_append_perm definitions (fun definition =>
    definition.arranged.tokens) fun definition => definition.overwritten.flatMap rootTokens
  rw [List.flatMap_map, List.flatMap_assoc]
  exact together.trans (List.Perm.flatMap_left definitions fun definition _ =>
    definition.tokens_arranged_append_perm)

end GraphQLCanon.Grammar

namespace GraphQLCanon

open GraphQLCanon.Grammar
open GraphQLCanon.Lexical

/-- The tokens of a canonical schema are the tokens of the source. Its descriptions count
the same in quotes and in block form, separators that lead a list of names do not count,
and of the entries for one root operation in a schema block only the last one does. -/
theorem tokens_formatSchema_perm {text result : String} {options : Options}
    (formatted : formatSchema text options = .ok result) :
    ∃ (definitions : List TypeSystemDefinition) (described : List Token)
      (leading : List Punctuator),
      Grammar.Document.ofText text = .ok (definitions.map .typeSystem) ∧
      List.Forall₂ Token.Denotes described
        (definitions.flatMap TypeSystemDefinition.descriptions) ∧
      leading.Sublist (definitions.flatMap TypeSystemDefinition.leadingSigns) ∧
      (scan text.toList).fault = none ∧ (scan result.toList).fault = none ∧
      ((scan result.toList).tokens ++ (described ++ leading.map Token.punctuator ++
          (definitions.flatMap TypeSystemDefinition.overwritten).flatMap rootTokens)).Perm
        ((scan text.toList).tokens ++
          (definitions.flatMap TypeSystemDefinition.descriptions).map Token.string) := by
  obtain ⟨definitions, read, spells, -⟩ := arranged_of_formatSchema formatted
  obtain ⟨described, leading, denotes, listed, permuted⟩ := Document.ofText_tokens_perm read
  rw [List.flatMap_map] at denotes listed
  rw [List.flatMap_map, List.flatMap_map] at permuted
  refine ⟨definitions, described, leading, read, denotes, listed, (Document.ofText_eq_ok.1 read).1,
    spells.scan.2, ?_⟩
  have source : ((scan text.toList).tokens ++
      (definitions.flatMap TypeSystemDefinition.descriptions).map Token.string).Perm
        (definitions.flatMap TypeSystemDefinition.tokens ++
          (described ++ leading.map Token.punctuator)) := permuted
  have arranged := arrangedSchemaTokens_perm definitions
  rw [spells.scan.1]
  -- The token form of the definitions stands between the two texts: the source differs
  -- from it by forms, the result by entries.
  rw [List.perm_iff_count] at source arranged ⊢
  intro token
  have counted := source token
  have kept := arranged token
  simp only [List.count_append] at counted kept ⊢
  omega

/-- A block description is quoted, the leading sign of a union is left out and the first
of two entries is overwritten. -/
theorem tokens_formatSchema_perm_overwritten :
    formatSchema "\"\"\"S\"\"\" schema \x7b query: A query: B \x7d union U = | B | A" Options.standard =
        .ok "\"S\"\nschema \x7b\n  query: B\n\x7d\n\nunion U = A | B" ∧
      ∃ (definitions : List TypeSystemDefinition) (described : List Token)
        (leading : List Punctuator),
        Grammar.Document.ofText
            "\"\"\"S\"\"\" schema \x7b query: A query: B \x7d union U = | B | A" =
          .ok (definitions.map .typeSystem) ∧
        List.Forall₂ Token.Denotes described
          (definitions.flatMap TypeSystemDefinition.descriptions) ∧
        leading.Sublist (definitions.flatMap TypeSystemDefinition.leadingSigns) ∧
        (scan "\"\"\"S\"\"\" schema \x7b query: A query: B \x7d union U = | B | A".toList).fault =
          none ∧
        (scan "\"S\"\nschema \x7b\n  query: B\n\x7d\n\nunion U = A | B".toList).fault = none ∧
        ((scan "\"S\"\nschema \x7b\n  query: B\n\x7d\n\nunion U = A | B".toList).tokens ++
            (described ++ leading.map Token.punctuator ++
              (definitions.flatMap TypeSystemDefinition.overwritten).flatMap rootTokens)).Perm
          ((scan
              "\"\"\"S\"\"\" schema \x7b query: A query: B \x7d union U = | B | A".toList).tokens ++
            (definitions.flatMap TypeSystemDefinition.descriptions).map Token.string) := by
  have formatted : formatSchema
      "\"\"\"S\"\"\" schema \x7b query: A query: B \x7d union U = | B | A" Options.standard =
        .ok "\"S\"\nschema \x7b\n  query: B\n\x7d\n\nunion U = A | B" := by
    cbv
  exact ⟨formatted, tokens_formatSchema_perm formatted⟩

end GraphQLCanon
