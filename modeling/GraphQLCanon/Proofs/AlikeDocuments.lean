import GraphQLCanon.Proofs.AlikeTexts
import GraphQLCanon.Proofs.BlankedOrders
import GraphQLCanon.Proofs.SchemaTokens
import GraphQLCanon.Proofs.QueryTokens

/-!
# Documents alike to their canonical form

A source whose tokens are those of its canonical form, the values of strings apart, has the
very tokens of it: nothing was left out, nothing was moved, and so no string was exchanged for
another one. Where no block string consists of breaks, a source that is alike to its canonical
form is that form.
-/

namespace GraphQLCanon.Lexical

/-- Tokens that are the same up to the values of strings are the same without these. -/
theorem map_blanked_of_akin {source shown : List Token}
    (akin : List.Forall₂ Token.Akin source shown) :
    source.map Token.blanked = shown.map Token.blanked := by
  induction akin with
  | nil => rfl
  | cons head _ inductionHypothesis =>
    rw [List.map_cons, List.map_cons, inductionHypothesis]
    cases head <;> rfl

end GraphQLCanon.Lexical

namespace GraphQLCanon.Grammar.Parser

open GraphQLCanon.Lexical

variable {descriptions : List String} {signs : List Punctuator} {source shown : List Token}

/-- A token form is no longer than what it was written by, and shorter by the separators that
may have been left out at most. -/
theorem Respelled.length_bounds (respelled : Respelled descriptions signs source shown) :
    shown.length ≤ source.length ∧ source.length ≤ shown.length + signs.length := by
  induction respelled <;> simp only [List.length_cons, List.length_nil] at * <;> omega

/-- Where nothing was left out, a token form differs from what it was written by in the forms
of descriptions only. -/
theorem Respelled.forms (respelled : Respelled descriptions signs source shown)
    (whole : source.length = shown.length) :
    List.Forall₂ (fun own written => own = written ∨
      ∃ value, own = .blockString value ∧ written = .string value) source shown := by
  induction respelled with
  | nil => exact .nil
  | same token rest inductionHypothesis =>
    exact .cons (.inl rfl) (inductionHypothesis (Nat.succ.inj whole))
  | quoted value rest inductionHypothesis =>
    exact .cons (.inl rfl) (inductionHypothesis (Nat.succ.inj whole))
  | block value rest inductionHypothesis =>
    exact .cons (.inr ⟨value, rfl, rfl⟩) (inductionHypothesis (Nat.succ.inj whole))
  | led sign rest inductionHypothesis =>
    have bounds := rest.length_bounds.1
    rw [List.length_cons] at whole
    omega
  | unled sign rest inductionHypothesis => exact inductionHypothesis whole

/-- The forms of descriptions do not show without the values of strings. -/
theorem Respelled.map_blanked (respelled : Respelled descriptions signs source shown)
    (whole : source.length = shown.length) :
    source.map Token.blanked = shown.map Token.blanked := by
  have forms := respelled.forms whole
  clear respelled whole
  induction forms with
  | nil => rfl
  | cons head _ inductionHypothesis =>
    rw [List.map_cons, List.map_cons, inductionHypothesis]
    rcases head with rfl | ⟨value, rfl, rfl⟩ <;> rfl

/-- What was written by tokens that are the same up to the values of strings was written by
itself. -/
theorem Respelled.eq_of_akin (respelled : Respelled descriptions signs source shown)
    (akin : List.Forall₂ Token.Akin source shown) : source = shown := by
  have forms := respelled.forms akin.length_eq
  clear respelled
  induction akin with
  | nil => rfl
  | cons head _ inductionHypothesis =>
    obtain ⟨form, others⟩ := List.forall₂_cons.1 forms
    rw [inductionHypothesis others]
    rcases form with rfl | ⟨value, rfl, rfl⟩
    · rfl
    · cases head

end GraphQLCanon.Grammar.Parser

namespace GraphQLCanon.Grammar

/-- An operation or fragment stays one in canonical order. -/
theorem Definition.isExecutable_arranged {definition : Definition}
    (executable : definition.isExecutable = true) : definition.arranged.isExecutable = true := by
  cases definition <;> first | rfl | exact executable

end GraphQLCanon.Grammar

namespace GraphQLCanon

open GraphQLCanon.Lexical

variable {text result : String} {options : Options}

/-- A query whose tokens are those of its canonical form, the values of strings apart, has the
tokens of it. -/
theorem tokens_eq_of_formatQuery (formatted : formatQuery text options = .ok result)
    (akin : List.Forall₂ Token.Akin (scan text.toList).tokens (scan result.toList).tokens) :
    (scan text.toList).tokens = (scan result.toList).tokens := by
  obtain ⟨definitions, read, executable, spells, reread⟩ := arranged_of_formatQuery formatted
  rw [spells.scan.1] at akin ⊢
  obtain ⟨-, rest, taken⟩ := Grammar.Document.ofText_eq_ok.1 read
  obtain ⟨nonempty, fit, respelled⟩ := Grammar.Parser.document_sound taken
  rw [Grammar.leadingSigns_eq_nil executable] at respelled
  obtain ⟨some?, arrangedFit, -⟩ := Grammar.Document.ofText_sound reread
  have looks : (definitions.flatMap Grammar.Definition.tokens).map Token.blanked =
      ((definitions.map Grammar.Definition.arranged).flatMap Grammar.Definition.tokens).map
        Token.blanked := by
    rw [← map_blanked_of_akin akin]
    refine (respelled.map_blanked ?_).symm
    have bounds := respelled.length_bounds
    rw [List.length_nil] at bounds
    omega
  have own := Grammar.document_blanked nonempty executable fit
  have arranged := Grammar.document_blanked some?
    (List.forall_mem_map.2 fun definition inside =>
      Grammar.Definition.isExecutable_arranged (executable definition inside)) arrangedFit
  rw [looks, arranged] at own
  have same := (Prod.mk.inj (Except.ok.inj own)).1
  rw [List.map_map, List.map_inj_left] at same
  have ordered : definitions.map Grammar.Definition.arranged = definitions :=
    (List.map_congr_left fun definition inside =>
      Grammar.Definition.arranged_eq_self (same definition inside).symm).trans (List.map_id _)
  rw [ordered] at akin ⊢
  exact respelled.eq_of_akin akin

/-- A schema whose tokens are those of its canonical form, the values of strings apart, has the
tokens of it. -/
theorem tokens_eq_of_formatSchema (formatted : formatSchema text options = .ok result)
    (akin : List.Forall₂ Token.Akin (scan text.toList).tokens (scan result.toList).tokens) :
    (scan text.toList).tokens = (scan result.toList).tokens := by
  obtain ⟨definitions, read, spells, reread⟩ := arranged_of_formatSchema formatted
  rw [spells.scan.1] at akin ⊢
  obtain ⟨-, rest, taken⟩ := Grammar.Document.ofText_eq_ok.1 read
  obtain ⟨nonempty, fit, respelled⟩ := Grammar.Parser.document_sound taken
  obtain ⟨some?, arrangedFit, -⟩ := Grammar.Document.ofText_sound reread
  rw [ne_eq, List.map_eq_nil_iff] at nonempty some?
  rw [List.forall_mem_map] at fit arrangedFit
  have listed : (definitions.map Grammar.Definition.typeSystem).flatMap Grammar.Definition.tokens =
      definitions.flatMap Grammar.TypeSystemDefinition.tokens := List.flatMap_map ..
  rw [listed] at respelled
  have looks : (definitions.flatMap Grammar.TypeSystemDefinition.tokens).map Token.blanked =
      ((definitions.map Grammar.TypeSystemDefinition.arranged).flatMap
        Grammar.TypeSystemDefinition.tokens).map Token.blanked := by
    rw [← map_blanked_of_akin akin]
    refine (respelled.map_blanked ?_).symm
    -- The canonical form has no more tokens than the definitions, and these have no more than
    -- the source, which has as many as the canonical form.
    have fewer := (Grammar.arrangedSchemaTokens_perm definitions).length_eq
    rw [List.length_append] at fewer
    have bounds := respelled.length_bounds.1
    have equal := akin.length_eq
    omega
  have own := Grammar.typeSystem_blanked nonempty fit
  have arranged := Grammar.typeSystem_blanked some? arrangedFit
  rw [looks, arranged] at own
  have same := List.map_injective_iff.2 (fun _ _ => Grammar.Definition.typeSystem.inj)
    (Prod.mk.inj (Except.ok.inj own)).1
  rw [List.map_map, List.map_inj_left] at same
  have ordered : definitions.map Grammar.TypeSystemDefinition.arranged = definitions :=
    (List.map_congr_left fun definition inside =>
      Grammar.TypeSystemDefinition.arranged_eq_self (same definition inside).symm).trans
        (List.map_id _)
  rw [ordered] at akin ⊢
  exact respelled.eq_of_akin akin

/-- A text whose tokens are those of its canonical form, the values of strings apart, has the
tokens of it. -/
theorem tokens_eq_of_formatText (formatted : formatText text options = .ok result)
    (akin : List.Forall₂ Token.Akin (scan text.toList).tokens (scan result.toList).tokens) :
    (scan text.toList).tokens = (scan result.toList).tokens := by
  rw [formatText_eq] at formatted
  split at formatted
  · exact tokens_eq_of_formatSchema formatted akin
  · exact tokens_eq_of_formatQuery formatted akin

/-- A text that is alike to its canonical form is it, where no block string of the text consists
of breaks. -/
theorem eq_of_alike_formatText (formatted : formatText text options = .ok result)
    (returnless : '\r' ∉ text.toList) (alike : Text.Alike text.toList result.toList)
    (unbroken : ∀ value, .blockString value ∈ (scan text.toList).tokens →
      isBroken value = false) : text = result := by
  have faultless : (scan text.toList).fault = none := by
    have read : ∃ definitions, Grammar.Document.ofText text = .ok definitions := by
      rw [formatText_eq] at formatted
      split at formatted
      · obtain ⟨definitions, read, -⟩ := arranged_of_formatSchema formatted
        exact ⟨_, read⟩
      · obtain ⟨definitions, read, -⟩ := arranged_of_formatQuery formatted
        exact ⟨_, read⟩
    obtain ⟨definitions, read⟩ := read
    exact (Grammar.Document.ofText_eq_ok.1 read).1
  obtain ⟨akin, whole⟩ := scan_alike (typeset_of_formatText formatted) alike returnless faultless
  have same := tokens_eq_of_formatText formatted akin
  rw [same] at unbroken
  exact String.toList_inj.1 (whole same unbroken)

end GraphQLCanon
