/-!
# Layout options

The constants of the layout for one run. They are checked once, when they are
read, and never change afterwards.
-/

namespace GraphQLCanon

/-- The constants of the layout. -/
structure Options where
  /-- Spaces per level of indentation. -/
  indentWidth : Nat
  /-- The greatest length of a line that ends with an argument list. -/
  maxWidth : Nat
  /-- Whether an input object must have descriptions on all fields or on none. -/
  strictDescriptions : Bool
  /-- Lines have room for something. -/
  maxWidth_pos : 1 ≤ maxWidth := by decide
  deriving DecidableEq, Repr

/-- Two spaces per level, lines of eighty characters, and mixed descriptions
allowed. -/
def Options.standard : Options where
  indentWidth := 2
  maxWidth := 80
  strictDescriptions := false

end GraphQLCanon
