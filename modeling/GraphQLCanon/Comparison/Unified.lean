import GraphQLCanon.Text.Lines
import GraphQLCanon.Comparison.Script

/-!
# The unified form of a comparison

Changes are shown in hunks, with up to three kept lines around them; changes with
at most six kept lines between them share a hunk. Every line of the form has a
role. Equal lists of lines have no form at all, not even the file headers.
-/

namespace GraphQLCanon.Comparison

/-- The number of kept lines shown before and behind a change. -/
def contextWidth : Nat := 3

/-- Neighbouring segments with the number of lines before them in each text. -/
structure Hunk where
  oldStart : Nat
  newStart : Nat
  segments : List (Segment String)
  deriving DecidableEq, Repr

/-- The lines of a hunk in the old text. -/
def Hunk.old (hunk : Hunk) : List String := hunk.segments.flatMap Segment.old

/-- The lines of a hunk in the new text. -/
def Hunk.new (hunk : Hunk) : List String := hunk.segments.flatMap Segment.new

/-- True of segments that change something. -/
def Segment.isChange {α : Type} : Segment α → Bool
  | kept _ => false
  | changed _ _ => true

/-- Cuts a script into hunks. The hunk that is open takes up segments until a kept
one is too long for it; it then ends, and the next one begins with the last lines
of that segment. -/
def hunksFrom (current : Hunk) : List (Segment String) → List Hunk
  | [] => if current.segments.any Segment.isChange then [current] else []
  | segment :: others =>
    let extended := { current with segments := current.segments ++ [segment] }
    match segment with
    | .changed _ _ => hunksFrom extended others
    | .kept lines =>
      if lines.length ≤ 2 * contextWidth then hunksFrom extended others
      else
        let passed := lines.length - contextWidth
        { current with segments := current.segments ++ [.kept (lines.take contextWidth)] } ::
          hunksFrom
            ⟨current.oldStart + current.old.length + passed,
              current.newStart + current.new.length + passed,
              [.kept (lines.drop passed)]⟩ others

/-- The first segment, cut to the last lines of context if it is kept, and the
number of lines cut off. -/
def trimFirst : List (Segment String) → Nat × List (Segment String)
  | .kept lines :: others =>
    (lines.length - contextWidth, .kept (lines.drop (lines.length - contextWidth)) :: others)
  | segments => (0, segments)

/-- The last segment, cut to the first lines of context if it is kept. -/
def trimLast : List (Segment String) → List (Segment String)
  | [] => []
  | [.kept lines] => [.kept (lines.take contextWidth)]
  | segment :: others => segment :: trimLast others

/-- The hunks of a script. -/
def hunks (script : List (Segment String)) : List Hunk :=
  let (cut, segments) := trimFirst script
  hunksFrom ⟨cut, cut, []⟩ (trimLast segments)

/-- What a line of the unified form stands for. -/
inductive LineRole
  | oldHeader
  | newHeader
  | hunkHeader
  | context
  | removed
  | added
  deriving DecidableEq, Repr

/-- A line of the unified form: its role and its content, without the sign that
stands for the role. -/
structure UnifiedLine where
  role : LineRole
  content : String
  deriving DecidableEq, Repr

/-- The sign that a role is written with. -/
def LineRole.sign : LineRole → String
  | oldHeader => "--- "
  | newHeader => "+++ "
  | hunkHeader => "@@ "
  | context => " "
  | removed => "-"
  | added => "+"

/-- A line of the unified form as it is printed. -/
def UnifiedLine.write (line : UnifiedLine) : String := line.role.sign ++ line.content

/-- A range of lines: the number of its first line, and its length unless that is
one. An empty range is placed behind the line before it. -/
def writeRange (start length : Nat) : String :=
  if length = 1 then toString (start + 1)
  else if length = 0 then toString start ++ ",0"
  else toString (start + 1) ++ "," ++ toString length

/-- The header of a hunk. -/
def Hunk.header (hunk : Hunk) : UnifiedLine :=
  ⟨.hunkHeader, "-" ++ writeRange hunk.oldStart hunk.old.length ++ " +" ++
    writeRange hunk.newStart hunk.new.length ++ " @@"⟩

/-- The lines of a segment: kept ones, or the removed ones before the added. -/
def Segment.unified : Segment String → List UnifiedLine
  | kept lines => lines.map (UnifiedLine.mk .context)
  | changed removed added =>
    removed.map (UnifiedLine.mk .removed) ++ added.map (UnifiedLine.mk .added)

/-- The lines of a hunk. -/
def Hunk.unified (hunk : Hunk) : List UnifiedLine :=
  hunk.header :: hunk.segments.flatMap Segment.unified

/-- The unified form of the comparison of two texts under two titles. -/
def unified (oldTitle newTitle : String) (old new : List String) : List UnifiedLine :=
  match hunks (script old new) with
  | [] => []
  | all => ⟨.oldHeader, oldTitle⟩ :: ⟨.newHeader, newTitle⟩ :: all.flatMap Hunk.unified

end GraphQLCanon.Comparison
