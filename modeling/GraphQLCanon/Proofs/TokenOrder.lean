import Mathlib.Data.List.Perm.Basic
import GraphQLCanon.Proofs.WrittenValues

/-!
# Tokens in another order

Items in another order have the same tokens in another order, whether signs stand around
them or between them.
-/

namespace GraphQLCanon.Grammar

open GraphQLCanon.Lexical

/-- Legible tokens in another order are legible. -/
theorem AllLegible.of_perm {left right : List Token} (legible : AllLegible right)
    (permuted : left.Perm right) : AllLegible left :=
  fun token inside => legible token (permuted.mem_iff.1 inside)

/-- Items in another order have the same tokens in another order. -/
theorem enclosedTokens_perm {α : Type} (opening closing : Punctuator) {shown : α → List Token}
    {left right : List α} (permuted : left.Perm right) :
    (enclosedTokens opening closing shown left).Perm
      (enclosedTokens opening closing shown right) := by
  unfold enclosedTokens
  rw [permuted.isEmpty_eq]
  split
  · exact .refl _
  · exact ((permuted.flatMap_right shown).append_right _).cons _

/-- Changed items have the same tokens when each of them has. -/
theorem enclosedTokens_map_perm {α : Type} (opening closing : Punctuator)
    {shown : α → List Token} {items : List α} {change : α → α}
    (each : ∀ item ∈ items, (shown (change item)).Perm (shown item)) :
    (enclosedTokens opening closing shown (items.map change)).Perm
      (enclosedTokens opening closing shown items) := by
  unfold enclosedTokens
  rw [List.isEmpty_map, List.flatMap_map]
  split
  · exact .refl _
  · exact ((List.Perm.flatMap_left items each).append_right _).cons _

/-- Items that keep some of their tokens and lose the others do so between two signs. -/
theorem enclosedTokens_split {α : Type} (opening closing : Punctuator)
    {shown kept lost : α → List Token} {items : List α}
    (each : ∀ item ∈ items, (kept item ++ lost item).Perm (shown item)) :
    (enclosedTokens opening closing kept items ++ items.flatMap lost).Perm
      (enclosedTokens opening closing shown items) := by
  have together := (List.flatMap_append_perm items kept lost).trans (List.Perm.flatMap_left items each)
  unfold enclosedTokens
  split
  · simp_all
  · rw [List.perm_iff_count] at together ⊢
    intro token
    have counted := together token
    simp only [List.count_append, List.count_cons, List.count_nil] at counted ⊢
    omega

/-- Parted names are the names, and one sign less than there are names. -/
theorem separatedTokens_perm_names (sign : Punctuator) (names : List String) :
    (separatedTokens sign names).Perm
      (names.map Token.name ++ List.replicate (names.length - 1) (.punctuator sign)) := by
  induction names with
  | nil => exact .refl _
  | cons first others inductionHypothesis =>
    cases others with
    | nil => exact .refl _
    | cons second others =>
      have moved := (inductionHypothesis.cons (.punctuator sign)).trans List.perm_middle.symm
      exact moved.cons (.name first)

/-- Names in another order have the same tokens with a sign between them. -/
theorem separatedTokens_perm (sign : Punctuator) {left right : List String}
    (permuted : left.Perm right) :
    (separatedTokens sign left).Perm (separatedTokens sign right) := by
  have names := (permuted.map Token.name).append_right
    (List.replicate (left.length - 1) (.punctuator sign))
  refine (separatedTokens_perm_names sign left).trans (names.trans ?_)
  rw [permuted.length_eq]
  exact (separatedTokens_perm_names sign right).symm

end GraphQLCanon.Grammar
