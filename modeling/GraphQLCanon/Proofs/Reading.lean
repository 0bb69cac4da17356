import Mathlib.Data.List.Forall2
import GraphQLCanon.Grammar.Document
import GraphQLCanon.Proofs.ParsingDocuments
import GraphQLCanon.Proofs.WrittenValues

/-!
# Reading texts

A text is read when its scan has no fault and the parser takes its tokens. Then the
definitions are ones that the grammar admits, and their tokens are legible. A text that
spells the tokens of definitions is read as the definitions that the parser takes from
these tokens.
-/

namespace GraphQLCanon.Grammar

open GraphQLCanon.Lexical

/-- A text is read when no fault stops the scan and the parser takes the tokens. -/
theorem Document.ofText_eq_ok {text : String} {definitions : Document} :
    Document.ofText text = .ok definitions ↔
      (scan text.toList).fault = none ∧
        ∃ rest, Parser.document (scan text.toList).tokens = .ok (definitions, rest) := by
  unfold Document.ofText Document.ofChars
  cases parsed : Parser.document (scan text.toList).tokens with
  | error refusal =>
    cases faulted : (scan text.toList).fault with
    | none => simp [parsed, faulted]
    | some fault =>
      simp only [parsed, faulted]
      split <;> simp
  | ok parts =>
    obtain ⟨taken, rest⟩ := parts
    cases faulted : (scan text.toList).fault <;> simp [parsed, faulted]

/-- Tokens that write the same are legible when the written ones are. Every string has a
quoted form, so a block string may stand in its place. -/
theorem Parser.Respelled.legible {descriptions : List String} {signs : List Punctuator}
    {source shown : List Token} (respelled : Parser.Respelled descriptions signs source shown)
    (legible : AllLegible source) : AllLegible shown := by
  induction respelled with
  | nil => exact allLegible_nil
  | same token _ inductionHypothesis =>
    simp only [allLegible_cons] at legible ⊢
    exact ⟨legible.1, inductionHypothesis legible.2⟩
  | quoted value _ inductionHypothesis | block value _ inductionHypothesis =>
    simp only [allLegible_cons] at legible ⊢
    exact ⟨legible_string value, inductionHypothesis legible.2⟩
  | led sign _ inductionHypothesis =>
    simp only [allLegible_cons] at legible
    exact inductionHypothesis legible.2
  | unled sign _ inductionHypothesis => exact inductionHypothesis legible

/-- Of two tokens, one may stand in front of either part and the other behind it. -/
theorem perm_crossed {source shown extra written : List Token} (first second : Token)
    (permuted : (source ++ extra).Perm (shown ++ written)) :
    (first :: source ++ second :: extra).Perm (second :: shown ++ first :: written) := by
  have left : (first :: source ++ second :: extra).Perm (first :: second :: (source ++ extra)) :=
    List.perm_middle.cons first
  have right : (second :: shown ++ first :: written).Perm (second :: first :: (shown ++ written)) :=
    List.perm_middle.cons second
  have inside := ((permuted.cons first).cons second)
  exact left.trans ((List.Perm.swap second first _).trans (inside.trans right.symm))

/-- Tokens that write the same differ by the forms of the descriptions and by the signs
that lead: nothing else is more or less. -/
theorem Parser.Respelled.perm {descriptions : List String} {signs : List Punctuator}
    {source shown : List Token} (respelled : Parser.Respelled descriptions signs source shown) :
    ∃ (written : List Token) (leading : List Punctuator),
      List.Forall₂ Token.Denotes written descriptions ∧
      leading.Sublist signs ∧
      (source ++ descriptions.map Token.string).Perm
        (shown ++ (written ++ leading.map Token.punctuator)) := by
  induction respelled with
  | nil => exact ⟨[], [], .nil, .slnil, .nil⟩
  | same token _ inductionHypothesis =>
    obtain ⟨written, leading, denotes, listed, permuted⟩ := inductionHypothesis
    exact ⟨written, leading, denotes, listed, permuted.cons token⟩
  | quoted value _ inductionHypothesis =>
    obtain ⟨written, leading, denotes, listed, permuted⟩ := inductionHypothesis
    exact ⟨.string value :: written, leading, .cons (.inl rfl) denotes, listed,
      perm_crossed _ _ permuted⟩
  | block value _ inductionHypothesis =>
    obtain ⟨written, leading, denotes, listed, permuted⟩ := inductionHypothesis
    exact ⟨.blockString value :: written, leading, .cons (.inr rfl) denotes, listed,
      perm_crossed _ _ permuted⟩
  | led sign _ inductionHypothesis =>
    obtain ⟨written, leading, denotes, listed, permuted⟩ := inductionHypothesis
    refine ⟨written, sign :: leading, denotes, listed.cons_cons sign, ?_⟩
    refine (permuted.cons (.punctuator sign)).trans ?_
    rw [← List.append_assoc, ← List.append_assoc]
    exact List.perm_middle.symm
  | unled sign _ inductionHypothesis =>
    obtain ⟨written, leading, denotes, listed, permuted⟩ := inductionHypothesis
    exact ⟨written, leading, denotes, listed.cons sign, permuted⟩

/-- What was read are definitions that the grammar admits, at least one, with legible
tokens. -/
theorem Document.ofText_sound {text : String} {definitions : Document}
    (read : Document.ofText text = .ok definitions) :
    definitions ≠ [] ∧ (∀ definition ∈ definitions, definition.Fits) ∧
      ∀ definition ∈ definitions, AllLegible definition.tokens := by
  obtain ⟨-, rest, taken⟩ := Document.ofText_eq_ok.1 read
  obtain ⟨nonempty, fit, respelled⟩ := Parser.document_sound taken
  -- Scanned tokens are legible. The form of the definitions has others in place of block
  -- strings that are descriptions, and every string can be quoted.
  have scanned : AllLegible (scan text.toList).tokens := fun token => legible_of_mem_scan
  have legible := respelled.legible scanned
  rw [allLegible_flatMap] at legible
  exact ⟨nonempty, fit, legible⟩

/-- A text that was read has the tokens of its definitions, apart from the forms of the
descriptions and the signs that lead a list of names. -/
theorem Document.ofText_tokens_perm {text : String} {definitions : Document}
    (read : Document.ofText text = .ok definitions) :
    ∃ (written : List Token) (leading : List Punctuator),
      List.Forall₂ Token.Denotes written (definitions.flatMap Definition.descriptions) ∧
      leading.Sublist (definitions.flatMap Definition.leadingSigns) ∧
      ((scan text.toList).tokens ++
          (definitions.flatMap Definition.descriptions).map Token.string).Perm
        (definitions.flatMap Definition.tokens ++
          (written ++ leading.map Token.punctuator)) := by
  obtain ⟨-, rest, taken⟩ := Document.ofText_eq_ok.1 read
  obtain ⟨-, -, respelled⟩ := Parser.document_sound taken
  exact respelled.perm

/-- A text that spells tokens is read as what the parser takes from them. -/
theorem Document.ofText_of_spells {text : String} {tokens rest : List Token}
    {definitions : Document} (spells : Spells text.toList tokens)
    (taken : Parser.document tokens = .ok (definitions, rest)) :
    Document.ofText text = .ok definitions := by
  obtain ⟨same, faultless⟩ := spells.scan
  rw [← same] at taken
  exact Document.ofText_eq_ok.2 ⟨faultless, rest, taken⟩

end GraphQLCanon.Grammar
