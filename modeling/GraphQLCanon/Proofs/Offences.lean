import Mathlib.Data.List.Forall2
import GraphQLCanon.Grammar.Definition
import GraphQLCanon.Proofs.Pieces

/-!
# What a source has that is not supported

The parts of a source that may carry directives, and the constructs that are not
supported, as lists in the order in which they are met. Every directive is one of them, so
the first one met is the first of the list, and nothing is met where the list is empty.
-/

namespace GraphQLCanon.Grammar

open GraphQLCanon.Layout.Printing

/-- A part of a source with the directives that stand on it. -/
structure Carrier where
  owner : DirectiveOwner
  directives : List Directive
  deriving Repr

/-- The directives on a part, as constructs that are not supported. -/
def Carrier.offences (carrier : Carrier) : List Unsupported :=
  carrier.directives.map fun directive => .directive directive.name carrier.owner

/-- The directives on some parts, as constructs that are not supported. -/
def offencesOn (carriers : List Carrier) : List Unsupported := carriers.flatMap Carrier.offences

/-- True where no directive stands on any of some parts. -/
def Bare (carriers : List Carrier) : Prop := ∀ carrier ∈ carriers, carrier.directives = []

@[simp]
theorem bare_nil : Bare [] := by simp [Bare]

@[simp]
theorem bare_cons (carrier : Carrier) (others : List Carrier) :
    Bare (carrier :: others) ↔ carrier.directives = [] ∧ Bare others := by
  simp [Bare]

@[simp]
theorem bare_append (carriers others : List Carrier) :
    Bare (carriers ++ others) ↔ Bare carriers ∧ Bare others := by
  simp only [Bare, List.forall_mem_append]

/-- The parts of some items are bare when those of each item are. -/
theorem bare_flatMap {α : Type} {carriers : α → List Carrier} {items : List α} :
    Bare (items.flatMap carriers) ↔ ∀ item ∈ items, Bare (carriers item) := by
  simp only [Bare, List.forall_mem_flatMap]

/-- Parts in another order are bare when the parts are. -/
theorem bare_perm {carriers others : List Carrier} (permuted : carriers.Perm others) :
    Bare carriers ↔ Bare others := by
  simp only [Bare, permuted.mem_iff]

/-- Nothing is met on parts exactly when no directive stands on any of them. -/
theorem offencesOn_eq_nil {carriers : List Carrier} : offencesOn carriers = [] ↔ Bare carriers := by
  simp only [offencesOn, List.flatMap_eq_nil_iff, Carrier.offences, List.map_eq_nil_iff, Bare]

/-- What is met on some parts and others is met on the first and then on the others. -/
theorem offencesOn_append (carriers others : List Carrier) :
    offencesOn (carriers ++ others) = offencesOn carriers ++ offencesOn others :=
  List.flatMap_append

/-- What is met on a part and others is met on the part and then on the others. -/
theorem offencesOn_cons (carrier : Carrier) (others : List Carrier) :
    offencesOn (carrier :: others) = carrier.offences ++ offencesOn others :=
  List.flatMap_cons

/-- Parts in another order meet the same in another order. -/
theorem offencesOn_perm {carriers others : List Carrier} (permuted : carriers.Perm others) :
    (offencesOn carriers).Perm (offencesOn others) :=
  permuted.flatMap_right _

/-- The first directive on a part is the one that is reported. -/
theorem directiveOffence?_eq_head? (directives : List Directive) (owner : DirectiveOwner) :
    directiveOffence? (directiveNames directives) owner =
      (Carrier.mk owner directives).offences.head? := by
  cases directives <;> rfl

/-- The first offence among items is the first of what their sources have, if that is so for
each of them. -/
theorem firstOffence?_forall₂ {α β : Type} {offence? : β → Option Unsupported}
    {offences : α → List Unsupported} {source : List α} {items : List β}
    (each : List.Forall₂ (fun origin item => offence? item = (offences origin).head?) source
      items) : firstOffence? offence? items = (source.flatMap offences).head? := by
  induction each with
  | nil => rfl
  | cons one _ inductionHypothesis =>
    rw [firstOffence?, one, inductionHypothesis, List.flatMap_cons, List.head?_append]

/-- The first offence among items that are made from others is the first of what the others
have, if that is so for each of them. -/
theorem firstOffence?_map {α β : Type} {offence? : β → Option Unsupported} {change : α → β}
    {offences : α → List Unsupported} {source : List α}
    (each : ∀ origin ∈ source, offence? (change origin) = (offences origin).head?) :
    firstOffence? offence? (source.map change) = (source.flatMap offences).head? := by
  refine firstOffence?_forall₂ ?_
  rw [List.forall₂_map_right_iff, List.forall₂_same]
  exact each

/-- The first offence among items of which each stops at the directives on one part. -/
theorem firstOffence?_carriers {α β : Type} {offence? : β → Option Unsupported} {change : α → β}
    {carrier : α → Carrier} {source : List α}
    (each : ∀ origin ∈ source, offence? (change origin) = (carrier origin).offences.head?) :
    firstOffence? offence? (source.map change) = (offencesOn (source.map carrier)).head? := by
  rw [offencesOn, List.flatMap_map]
  exact firstOffence?_map each

/-- The first offence among items of which each stops at the directives on some parts. -/
theorem firstOffence?_flatMap {α β : Type} {offence? : β → Option Unsupported} {change : α → β}
    {carriers : α → List Carrier} {source : List α}
    (each : ∀ origin ∈ source,
      offence? (change origin) = (offencesOn (carriers origin)).head?) :
    firstOffence? offence? (source.map change) = (offencesOn (source.flatMap carriers)).head? := by
  rw [offencesOn, List.flatMap_assoc]
  exact firstOffence?_map each

end GraphQLCanon.Grammar
