import Mathlib.Data.List.DropRight
import GraphQLCanon.Proofs.Pieces

/-!
# Runs of an output

An output is changed step by step: something is written, or the depth goes up or down. A step
down fails at the outermost level, and a step that fails changes nothing. One step writes a piece
at the position of the output and moves the depth; so along every run the counters of an output
are those of its text and of its steps.
-/

namespace GraphQLCanon.Layout

/-- One change of an output. -/
inductive Step
  | push (text : String)
  | pushIndented (text : String)
  | pushDescription (description : Option String)
  | pushArguments (arguments : List String)
  | indent
  | dedent
  deriving DecidableEq, Repr

/-- What a step writes. -/
def Step.piece : Step → Piece
  | push text => Piece.text text
  | pushIndented text => Piece.indented text
  | pushDescription description => Piece.description description
  | pushArguments arguments => Piece.arguments arguments
  | indent | dedent => Piece.text ""

/-- The depth behind a step. -/
def Step.depthAfter (depth : Nat) : Step → Nat
  | indent => depth + 1
  | dedent => depth - 1
  | push _ | pushIndented _ | pushDescription _ | pushArguments _ => depth

namespace Output

/-- What a step makes of an output, unless it fails. -/
def step? (output : Output) : Step → Option Output
  | .push text => some (output.push text)
  | .pushIndented text => some (output.pushIndented text)
  | .pushDescription description => some (output.pushDescription description)
  | .pushArguments arguments => some (output.pushArguments arguments)
  | .indent => some output.indent
  | .dedent => output.dedent?

/-- The output behind a step. A step that fails leaves the output as it was. -/
def after (output : Output) (step : Step) : Output := (output.step? step).getD output

/-- The output behind some steps. -/
def run (output : Output) (steps : List Step) : Output := steps.foldl after output

/-- The texts that some steps write, one for each step. -/
def pushed (output : Output) : List Step → List String
  | [] => []
  | step :: steps => step.piece output.position :: (output.after step).pushed steps

/-- The number of steps that come back one level and do not fail. -/
def dedents (output : Output) : List Step → Nat
  | [] => 0
  | step :: steps =>
    (if step = .dedent ∧ (output.step? step).isSome then 1 else 0) +
      (output.after step).dedents steps

/-- An output whose line length is the one counted through its whole text. -/
def Exact (output : Output) : Prop :=
  output.lineLength = lineLengthAfter 0 output.text.toList

end Output

/-- The line length counted through a text is the number of characters behind its last line
feed, or of all of them if there is none. -/
theorem lineLengthAfter_zero (characters : List Char) :
    lineLengthAfter 0 characters = (characters.rtakeWhile (· != '\n')).length := by
  induction characters using List.reverseRecOn with
  | nil => rfl
  | append_singleton front last inductionHypothesis =>
    rw [lineLengthAfter_append, inductionHypothesis, lineLengthAfter, lineLengthAfter]
    by_cases feed : last = '\n'
    · rw [if_pos feed, List.rtakeWhile_concat_neg _ _ _ (by simp [feed]), List.length_nil]
    · rw [if_neg feed, List.rtakeWhile_concat_pos _ _ _ (by simpa using feed), List.length_append,
        List.length_singleton]

namespace Output

section Steps

variable (output : Output)

/-- A step writes its piece and moves the depth, and does nothing else. -/
theorem after_eq (step : Step) :
    output.after step =
      { output.push (step.piece output.position) with depth := step.depthAfter output.depth } := by
  have nothing : output.push (Piece.text "" output.position) = output := push_empty output
  cases step with
  | push text => rfl
  | pushIndented text => rfl
  | pushDescription description =>
    cases description with
    | none => exact nothing.symm
    | some value => rfl
  | pushArguments arguments => exact pushArguments_eq output arguments
  | indent =>
    rw [Step.piece, nothing]
    rfl
  | dedent =>
    rw [Step.piece, nothing]
    obtain ⟨indentWidth, maxWidth, depth, text, lineLength⟩ := output
    cases depth <;> rfl

/-- Only a step back from the outermost level fails. -/
theorem step?_eq_none_iff (step : Step) :
    output.step? step = none ↔ step = .dedent ∧ output.depth = 0 := by
  cases step with
  | dedent =>
    rw [step?, dedent?]
    split <;> simp_all
  | _ => simp [step?]

/-- A step that fails changes nothing. -/
theorem after_of_step?_eq_none {step : Step} (failed : output.step? step = none) :
    output.after step = output := by
  rw [after, failed, Option.getD_none]

/-- A step up raises the depth and a step back that does not fail lowers it. -/
theorem depth_after (step : Step) :
    (output.after step).depth +
        (if step = .dedent ∧ (output.step? step).isSome then 1 else 0) =
      output.depth + if step = .indent then 1 else 0 := by
  rw [after_eq]
  cases step with
  | dedent =>
    have fails := output.step?_eq_none_iff .dedent
    by_cases outermost : output.depth = 0
    · simp [fails.2 ⟨rfl, outermost⟩, outermost, Step.depthAfter]
    · have goes : (output.step? .dedent).isSome = true := by
        rw [← Option.ne_none_iff_isSome]
        exact fun failed => outermost (fails.1 failed).2
      simp only [goes, and_self, if_true, Step.depthAfter, reduceCtorEq, if_false]
      omega
  | _ => simp [Step.depthAfter]

/-- A step keeps the line length exact. -/
theorem Exact.after {output : Output} (exact : output.Exact) (step : Step) :
    (output.after step).Exact := by
  rw [after_eq]
  change lineLengthAfter output.lineLength _ = lineLengthAfter 0 (output.text ++ _).toList
  rw [String.toList_append, lineLengthAfter_append, ← exact]

end Steps

section Runs

/-- Runs keep the line length exact. -/
theorem Exact.run {output : Output} (exact : output.Exact) (steps : List Step) :
    (output.run steps).Exact := by
  induction steps generalizing output with
  | nil => exact exact
  | cons step others inductionHypothesis => exact inductionHypothesis (exact.after step)

/-- A run adds what its steps write to the text. -/
theorem text_run (output : Output) (steps : List Step) :
    (output.run steps).text = output.text ++ String.join (output.pushed steps) := by
  induction steps generalizing output with
  | nil => exact String.append_empty.symm
  | cons step others inductionHypothesis =>
    have written : (output.after step).text = output.text ++ step.piece output.position := by
      rw [after_eq]
      rfl
    rw [run, List.foldl_cons, ← run, inductionHypothesis, written, pushed, String.join_cons,
      String.append_assoc]

/-- A run goes up as often as it has steps up, and comes back as often as one does not fail. -/
theorem depth_run (output : Output) (steps : List Step) :
    (output.run steps).depth + output.dedents steps = output.depth + steps.count .indent := by
  induction steps generalizing output with
  | nil => rfl
  | cons step others inductionHypothesis =>
    have first := output.depth_after step
    have behind := inductionHypothesis (output.after step)
    rw [run, List.foldl_cons, ← run, dedents, List.count_cons]
    simp only [beq_iff_eq]
    omega

end Runs

end Output

/-- Along every run from an empty output of any widths the counters are exact, so they are after
each of its steps. The text is all that the steps wrote, and the line length is the number of its
characters behind the last line feed. The depth is the number of steps up less the number of steps
back that did not fail, and never negative. From there an argument list leaves the depth as it is,
whichever layout it takes; a step fails exactly if it goes back from the outermost level, and then
changes nothing. -/
theorem counters_run (indentWidth maxWidth : Int) (steps : List Step) :
    let start := Output.empty indentWidth maxWidth
    let output := start.run steps
    let written := String.join (start.pushed steps)
    output.text = written ∧
      output.lineLength = (written.toList.rtakeWhile (· != '\n')).length ∧
      (output.depth : Int) = steps.count .indent - start.dedents steps ∧ 0 ≤ (output.depth : Int) ∧
      (∀ arguments, (output.after (.pushArguments arguments)).depth = output.depth) ∧
      ∀ step, (output.step? step = none ↔ step = .dedent ∧ output.depth = 0) ∧
        (output.step? step = none → output.after step = output) := by
  intro start output written
  have text : output.text = written := by
    have whole := start.text_run steps
    rwa [show start.text = "" from rfl, String.empty_append] at whole
  have exact : start.Exact := rfl
  have lines : output.lineLength = lineLengthAfter 0 output.text.toList := exact.run steps
  have levels : output.depth + start.dedents steps = 0 + steps.count .indent :=
    start.depth_run steps
  refine ⟨text, ?_, by omega, by omega, fun arguments => ?_, fun step => ?_⟩
  · rw [lines, text, lineLengthAfter_zero]
  · rw [Output.after_eq]
    rfl
  · exact ⟨output.step?_eq_none_iff step, output.after_of_step?_eq_none⟩

end GraphQLCanon.Layout
