import GraphQLCanon.Proofs.FileByFile
import GraphQLCanon.Proofs.TrailingSeparators
import GraphQLCanon.Proofs.WovenTexts

/-!
# Places of syntax errors

The text of a file is stripped of blanks before it is read, and a syntax error is reported at
its place in what is left. In the file it lies behind the blanks in front, by so many lines and
columns more. Blanks that the grammar passes over change nothing else: where the file is read as
it stands, the error is found at the same character, unless it lay at the end of the text.
-/

namespace GraphQLCanon.Text

/-- A place of a text that begins at another place itself. -/
def Place.shifted (place origin : Place) : Place :=
  ⟨origin.line + place.line - 1,
    if place.line = 1 then origin.column + place.column - 1 else place.column⟩

/-- A line and a column are at least one. -/
theorem Place.behind_pos (before : List Char) :
    1 ≤ (Place.behind before).line ∧ 1 ≤ (Place.behind before).column := by
  refine ⟨List.length_pos_iff.2 (splitLines_ne_nil _ _), Nat.le_add_left 1 _⟩

/-- Behind a line feed everything is a line further down. -/
theorem Place.behind_feed (before : List Char) :
    Place.behind ('\n' :: before) = ⟨(Place.behind before).line + 1, (Place.behind before).column⟩ := by
  have below : lines ('\n' :: before) = [] :: lines before := by
    simp [lines, splitLines, isLineBreak]
  obtain ⟨line, others, split⟩ := List.exists_cons_of_ne_nil (splitLines_ne_nil isLineBreak before)
  have some : lines before = line :: others := split
  simp only [Place.behind, below, some, List.length_cons, List.getLastD_cons]

/-- Behind another character the first line has a column more. -/
theorem Place.behind_cons {character : Char} (unbroken : character ≠ '\n')
    (returnless : character ≠ '\r') (before : List Char) :
    Place.behind (character :: before) = ⟨(Place.behind before).line,
      if (Place.behind before).line = 1 then (Place.behind before).column + 1
      else (Place.behind before).column⟩ := by
  have put : lines (character :: before) = prependToFirst character (lines before) := by
    simp [lines, splitLines, isLineBreak, unbroken, returnless]
  obtain ⟨line, others, split⟩ := List.exists_cons_of_ne_nil (splitLines_ne_nil isLineBreak before)
  have some : lines before = line :: others := split
  simp only [Place.behind, put, some, prependToFirst]
  cases others with
  | nil => simp
  | cons second others => simp

/-- A place behind two texts is the place behind the second one, shifted by the first one. -/
theorem Place.behind_append {lead : List Char} (returnless : '\r' ∉ lead) (before : List Char) :
    Place.behind (lead ++ before) = (Place.behind before).shifted (Place.behind lead) := by
  obtain ⟨line, column⟩ := Place.behind_pos before
  induction lead with
  | nil =>
    have start : Place.behind [] = ⟨1, 1⟩ := rfl
    rw [List.nil_append, start, Place.shifted, Nat.add_sub_cancel_left, Nat.add_sub_cancel_left,
      ite_self]
  | cons character lead inductionHypothesis =>
    rw [List.mem_cons, not_or] at returnless
    have further := inductionHypothesis returnless.2
    obtain ⟨leadLine, leadColumn⟩ := Place.behind_pos lead
    rw [List.cons_append]
    by_cases feed : character = '\n'
    · subst feed
      rw [Place.behind_feed, Place.behind_feed, further]
      simp only [Place.shifted, Place.mk.injEq, and_true]
      omega
    · rw [Place.behind_cons feed (Ne.symm returnless.1), Place.behind_cons feed
        (Ne.symm returnless.1), further]
      simp only [Place.shifted, Place.mk.injEq]
      grind

/-- The place behind a text without line feeds is on the first line. -/
theorem Place.behind_of_unbroken {before : List Char} (unbroken : '\n' ∉ before)
    (returnless : '\r' ∉ before) : Place.behind before = ⟨1, before.length + 1⟩ := by
  induction before with
  | nil => rfl
  | cons character before inductionHypothesis =>
    rw [List.mem_cons, not_or] at unbroken returnless
    rw [Place.behind_cons (Ne.symm unbroken.1) (Ne.symm returnless.1),
      inductionHypothesis unbroken.2 returnless.2]
    simp

/-- The place behind a text with a line feed is not on the first line. -/
theorem Place.one_lt_line_behind {before : List Char} (broken : '\n' ∈ before)
    (returnless : '\r' ∉ before) : 1 < (Place.behind before).line := by
  obtain ⟨above, below, rfl⟩ := List.append_of_mem broken
  have returnlessAbove : '\r' ∉ above := fun inside => returnless (List.mem_append_left _ inside)
  obtain ⟨above_pos, -⟩ := Place.behind_pos above
  obtain ⟨below_pos, -⟩ := Place.behind_pos below
  rw [Place.behind_append returnlessAbove, Place.behind_feed]
  simp only [Place.shifted]
  omega

/-- A place is the same behind a text in front exactly when the text has no line feed, and is
empty or the place is not on the first line. -/
theorem Place.shifted_eq_iff {place : Place} {lead : List Char} (line : 1 ≤ place.line)
    (returnless : '\r' ∉ lead) : place.shifted (Place.behind lead) = place ↔
      '\n' ∉ lead ∧ (lead = [] ∨ place.line ≠ 1) := by
  obtain ⟨row, column⟩ := place
  by_cases broken : '\n' ∈ lead
  · have below := Place.one_lt_line_behind broken returnless
    simp only [Place.shifted, Place.mk.injEq, broken, not_true_eq_false, false_and, iff_false]
    simp only at line
    omega
  · rw [Place.behind_of_unbroken broken returnless]
    simp only [Place.shifted, Place.mk.injEq, broken, not_false_eq_true, true_and,
      ← List.length_eq_zero_iff]
    grind

end GraphQLCanon.Text

namespace GraphQLCanon.Grammar

open GraphQLCanon.Lexical

/-- Separators in front of a text are passed over. -/
theorem scan_separators_append {lead : List Char} (separated : lead.all isSeparator = true)
    (text : List Char) : scan (lead ++ text) = scan text := by
  induction lead with
  | nil => rfl
  | cons first others inductionHypothesis =>
    rw [List.all_cons, Bool.and_eq_true] at separated
    rw [← inductionHypothesis separated.2, List.cons_append]
    apply scan_congr
    have noComment : first ≠ '#' := by
      rintro rfl
      exact absurd separated.1 (by decide)
    simp [skipIgnored, noComment, separated.1]

section Offsets

variable {lead text trail source other : List Char}

/-- The offset of an end of a text moves with the text in front, and where the end is empty it
may move into the text behind. -/
theorem offsetOf_around (suffix : source <:+ text) (reaches : other <:+ source ++ trail)
    (same : source ≠ [] → other = source ++ trail) :
    lead.length + offsetOf text source ≤ offsetOf (lead ++ (text ++ trail)) other ∧
      (offsetOf text source < text.length →
        offsetOf (lead ++ (text ++ trail)) other = lead.length + offsetOf text source) := by
  have inside := suffix.length_le
  have longest := reaches.length_le
  rw [List.length_append] at longest
  unfold offsetOf
  simp only [List.length_append]
  refine ⟨by omega, fun before => ?_⟩
  have some : source ≠ [] := by
    rintro rfl
    simp at before
  have length := congrArg List.length (same some)
  rw [List.length_append] at length
  omega

/-- Each lexeme of a text names an end of it. -/
theorem source_suffix {lexeme : Lexeme} (inside : lexeme ∈ (scan text).lexemes) :
    lexeme.source <:+ text := by
  fun_induction scan text with
  | case1 text skipped => contradiction
  | case2 text first rest skipped fault read => contradiction
  | case3 text first rest skipped token remaining read others inductionHypothesis =>
    have begun : first :: rest <:+ text := skipped ▸ skipIgnored_suffix false text
    rcases List.mem_cons.1 inside with rfl | later
    · exact begun
    · obtain ⟨spelling, -, split⟩ := readToken_ok read
      have left : remaining <:+ first :: rest := ⟨spelling, split.symm⟩
      exact (inductionHypothesis later).trans (left.trans begun)

end Offsets

/-- The error of a text with separators around it: it is at the same character, or behind the
text if it lay at the end of it. -/
theorem Document.ofChars_around {lead text trail : List Char} {error : SyntaxError}
    (front : lead.all isSeparator = true) (back : trail.all isSeparator = true)
    (refused : Document.ofChars text = .error error) :
    ∃ other, Document.ofChars (lead ++ (text ++ trail)) = .error other ∧
      other.text = lead ++ (text ++ trail) ∧ lead.length + error.offset ≤ other.offset ∧
        (error.offset < text.length → other.offset = lead.length + error.offset) := by
  obtain ⟨lexemes, faultless, faulty⟩ := scan_separators back text
  have tokens : (scan (lead ++ (text ++ trail))).tokens = (scan text).tokens := by
    rw [scan_separators_append front, Scan.tokens, lexemes, List.map_map]
    rfl
  have refusal (refusal : Refusal) :
      let own := SyntaxError.ofRefusal text (scan text).lexemes refusal
      let other := SyntaxError.ofRefusal (lead ++ (text ++ trail))
        (scan (lead ++ (text ++ trail))).lexemes refusal
      lead.length + own.offset ≤ other.offset ∧
        (own.offset < text.length → other.offset = lead.length + own.offset) := by
    rw [scan_separators_append front, lexemes]
    simp only [SyntaxError.ofRefusal, List.length_map, ← List.map_drop, List.head?_map,
      Option.map_map]
    cases behind : ((scan text).lexemes.drop
        ((scan text).lexemes.length - refusal.reported.length)).head? with
    | none => exact offsetOf_around List.nil_suffix List.nil_suffix fun some => absurd rfl some
    | some lexeme =>
      have inside := List.mem_of_mem_drop (List.mem_of_head? behind)
      exact offsetOf_around (source_suffix inside) (List.suffix_refl _) fun _ => rfl
  have faults : (scan (lead ++ (text ++ trail))).fault = (scan (text ++ trail)).fault := by
    rw [scan_separators_append front]
  unfold Document.ofChars at refused ⊢
  dsimp only at refused ⊢
  rw [tokens, faults]
  cases parsed : Parser.document (scan text).tokens with
  | ok parts =>
    cases found : (scan text).fault with
    | none => simp [parsed, found] at refused
    | some fault =>
      obtain ⟨further, again, suffix, reaches⟩ := faulty fault found
      simp only [parsed, found, Except.error.injEq] at refused
      obtain rfl := refused
      rw [again]
      exact ⟨_, rfl, rfl, offsetOf_around suffix reaches.suffix reaches.same⟩
  | error own =>
    cases found : (scan text).fault with
    | none =>
      simp only [parsed, found, Except.error.injEq] at refused
      obtain rfl := refused
      rw [faultless found]
      exact ⟨_, rfl, rfl, refusal own⟩
    | some fault =>
      obtain ⟨further, again, suffix, reaches⟩ := faulty fault found
      simp only [parsed, found] at refused
      rw [again]
      dsimp only
      split at refused
      · rename_i ahead
        obtain rfl := Except.error.inj refused
        rw [if_pos ahead]
        exact ⟨_, rfl, rfl, offsetOf_around suffix reaches.suffix reaches.same⟩
      · rename_i behind
        obtain rfl := Except.error.inj refused
        rw [if_neg behind]
        exact ⟨_, rfl, rfl, refusal own⟩

/-- A blank begins no token. -/
theorem readToken_of_blank {first : Char} (blank : Text.isBlank first = true) (rest : List Char) :
    ∃ cause, readToken first rest = .error ⟨cause, first :: rest⟩ := by
  have apart (character : Char) (solid : Text.isBlank character = false) : first ≠ character := by
    rintro rfl
    rw [blank] at solid
    cases solid
  have noSign : Punctuator.ofChar? first = none := by
    unfold Punctuator.ofChar?
    split <;> first | rfl | exact absurd rfl (apart _ (by decide))
  have noName : isNameContinue first = false := by
    by_contra name
    exact apart first (isBlank_of_isNameContinue (by simpa using name)) rfl
  simp only [isNameContinue, Bool.or_eq_false_iff] at noName
  have noNumber : (first.isDigit || first == '-') = false := by
    simp [noName.2, apart '-' (by decide)]
  have noStart : isNameStart first = false := noName.1
  unfold readToken
  rw [noSign]
  simp only [apart '.' (by decide), apart '"' (by decide), apart '\'' (by decide), noNumber,
    noStart, if_false, Bool.false_eq_true]
  exact ⟨_, rfl⟩

/-- In front of a text, blanks of which one is no separator hold an error themselves. -/
theorem Document.ofChars_of_blank {lead : List Char}
    (blank : ∀ character ∈ lead, Text.isBlank character = true)
    (apart : lead.all isSeparator = false) (text : List Char) :
    ∃ other, Document.ofChars (lead ++ text) = .error other ∧ other.offset < lead.length := by
  -- The first blank that is no separator ends the scan before any token.
  obtain ⟨front, first, rest, rfl, separated, odd⟩ : ∃ front first rest,
      lead = front ++ first :: rest ∧ front.all isSeparator = true ∧ isSeparator first = false := by
    rw [List.all_eq_false] at apart
    obtain all | ⟨front, first, rest, split, before, odd⟩ :=
      forall_or_exists_first (fun character => isSeparator character = true) lead
    · obtain ⟨character, inside, odd⟩ := apart
      exact absurd (all character inside) odd
    · exact ⟨front, first, rest, split, List.all_eq_true.2 before, by simpa using odd⟩
  obtain ⟨cause, refused⟩ := readToken_of_blank (blank first (by simp)) (rest ++ text)
  have noComment : first ≠ '#' := by
    rintro rfl
    exact absurd (blank '#' (by simp)) (by decide)
  have skipped : skipIgnored false (first :: (rest ++ text)) = first :: (rest ++ text) := by
    simp [skipIgnored, noComment, odd]
  have scanned : scan (front ++ first :: rest ++ text) = ⟨[], some ⟨cause, first :: (rest ++ text)⟩⟩ := by
    rw [List.append_assoc, scan_separators_append separated]
    exact scan_of_error skipped refused
  refine ⟨SyntaxError.ofFault (front ++ first :: rest ++ text) ⟨cause, first :: (rest ++ text)⟩,
    ?_, ?_⟩
  · unfold Document.ofChars
    rw [scanned]
    rfl
  · simp only [SyntaxError.ofFault, offsetOf, List.length_append, List.length_cons]
    omega

end GraphQLCanon.Grammar

namespace GraphQLCanon

open GraphQLCanon.Grammar

/-- A syntax error quotes the text that was read, and lies in it or at its end. -/
theorem error_of_ofChars {text : List Char} {error : SyntaxError}
    (refused : Document.ofChars text = .error error) :
    error.text = text ∧ error.offset ≤ text.length := by
  unfold Document.ofChars at refused
  dsimp only at refused
  split at refused
  · contradiction
  · cases refused
    exact ⟨rfl, Nat.sub_le _ _⟩
  · cases refused
    exact ⟨rfl, Nat.sub_le _ _⟩
  · split at refused
    · cases refused
      exact ⟨rfl, Nat.sub_le _ _⟩
    · cases refused
      exact ⟨rfl, Nat.sub_le _ _⟩

/-- The message about a syntax error: the cause, the place, and the lines around it. -/
theorem message_badSyntax (error : SyntaxError) : (FormatError.badSyntax error).message =
    "Syntax Error: " ++ error.cause.message ++ "\n\nGraphQL request:" ++
      toString error.place.line ++ ":" ++ toString error.place.column ++ "\n" ++
        Text.excerpt error.text error.place := rfl

/-- What has no canonical form for its syntax is no document. -/
theorem ofText_of_badSyntax {text : String} {options : Options} {error : SyntaxError}
    (refused : formatText text options = .error (.badSyntax error)) :
    Document.ofText text = .error error := by
  cases read : Document.ofText text with
  | error other =>
    have own : formatText text options = .error (.badSyntax other) := by
      rw [formatText_eq, formatSchema, formatQuery, readTypeSystem, readExecutable, read]
      split <;> rfl
    rw [own] at refused
    obtain rfl := FormatError.badSyntax.inj (Except.error.inj refused)
    rfl
  | ok definitions =>
    exfalso
    rw [formatText_eq, formatSchema, formatQuery, readTypeSystem, readExecutable, read] at refused
    dsimp only at refused
    split at refused
    · cases taken : TypeSystem.Document.ofGrammar definitions with
      | error construct => simp [taken, Except.mapError, bind, Except.bind] at refused
      | ok document =>
        simp only [taken, Except.mapError, bind, Except.bind] at refused
        split at refused <;> cases refused
    · cases taken : Executable.Document.ofGrammar definitions with
      | error construct => simp [taken, Except.mapError, bind, Except.bind] at refused
      | ok document =>
        simp only [taken, Except.mapError, bind, Except.bind] at refused
        split at refused <;> cases refused

end GraphQLCanon

namespace GraphQLCanon.CommandLine

open GraphQLCanon.Grammar (SyntaxError Document)
open GraphQLCanon.Lexical (isSeparator)
open GraphQLCanon.Text (Place)

/-- Files are visited one part after the other. -/
theorem visitAll_append (request : Request) (colour : Bool) (progress : Progress)
    (files others : List String) : progress.visitAll request colour (files ++ others) =
      progress.visitAll request colour files >>= fun next => next.visitAll request colour others := by
  induction files generalizing progress with
  | nil => rfl
  | cons path files inductionHypothesis =>
    rw [List.cons_append, Progress.visitAll, Progress.visitAll]
    cases progress.visit request colour path with
    | error stopped => rfl
    | ok visited => exact inductionHypothesis visited

/-- A run stops at a file without canonical form behind those that it passed: it says why, and
leaves the files as they are then. -/
theorem Request.run_refused {request : Request} {store : Store} {colour : Bool}
    {reached behind : List String} {path : String} {before : Progress} {error : FormatError}
    (listed : request.files = reached ++ path :: behind)
    (passed : Progress.visitAll ⟨store, "", "", 0⟩ request colour reached = .ok before)
    (refused : before.store.canonicalForm request.options path = .error error) :
    request.run store colour = Progress.outcome { before with
      errors := before.errors ++ (request.announcement colour before.store path ++
        echoed colour ("Error: " ++ normalPath path ++ ": " ++ error.message)) } 1 := by
  have stopped := visit_refused colour refused
  rw [Request.run, listed, visitAll_append, passed]
  simp only [bind, Except.bind, Progress.visitAll, stopped]

/-- What is left of a text behind the blanks in front of it, and the blanks behind that. -/
theorem exists_trail (content : List Char) : ∃ trail,
    content = content.takeWhile Text.isBlank ++ (Text.trimEnds Text.isBlank content ++ trail) ∧
      ∀ character ∈ trail, Text.isBlank character = true := by
  refine ⟨((content.dropWhile Text.isBlank).reverse.takeWhile Text.isBlank).reverse, ?_, ?_⟩
  · rw [Text.trimEnds, ← List.reverse_append, List.takeWhile_append_dropWhile, List.reverse_reverse,
      List.takeWhile_append_dropWhile]
  · intro character inside
    exact Lexical.forall_mem_takeWhile _ _ character (List.mem_reverse.1 inside)

variable {sorted : Sorted} {options : Options} {store : Store}

/-- A run that stops at a syntax error of a file reports the place of the error in the stripped
content of the file. The place in the file is the same one shifted by the blanks in front, so it
is reported exactly when no line feed is among these, and they are none or the error is not on
the first line. Where the grammar passes over all blanks at both ends, reading the content as it
stands finds the error there as well, unless it lay at the end of the text: then it is not found
before that. Where it does not pass over those in front, it finds an error among them. -/
theorem run_syntaxError {arguments : List String} (colour : Bool)
    (told : sortArguments ⟨[], [], []⟩ arguments = .ok sorted) (noHelp : .help ∉ sorted.flags)
    (admitted : sorted.Admits store options) {reached behind : List String} {path : String}
    {before : Progress} {error : SyntaxError} (listed : sorted.files = reached ++ path :: behind)
    (passed : Progress.visitAll ⟨store, "", "", 0⟩ (sorted.requestUnder options) colour reached =
      .ok before)
    (refused : before.store.canonicalForm options path = .error (.badSyntax error)) :
    let content := Text.unifyBreaks (before.store.content path).toList
    let lead := content.takeWhile Text.isBlank
    let place := Place.behind (content.take (lead.length + error.offset))
    let outcome := run store ("format" :: arguments) colour
    (outcome.status = 1 ∧ outcome.store = before.store ∧ outcome.errors = before.errors ++
        ((sorted.requestUnder options).announcement colour before.store path ++
          echoed colour ("Error: " ++ normalPath path ++ ": " ++
            ("Syntax Error: " ++ error.cause.message ++ "\n\nGraphQL request:" ++
              toString error.place.line ++ ":" ++ toString error.place.column ++ "\n" ++
                Text.excerpt error.text error.place)))) ∧
      place = error.place.shifted (Place.behind lead) ∧
      (error.place = place ↔ '\n' ∉ lead ∧ (lead = [] ∨ error.place.line ≠ 1)) ∧
      (∃ trail, content = lead ++ (error.text ++ trail) ∧
        (∀ character ∈ trail, Text.isBlank character = true) ∧
        error.offset ≤ error.text.length ∧
        (lead.all isSeparator = true → trail.all isSeparator = true →
          ∃ other, Document.ofChars content = .error other ∧
            lead.length + error.offset ≤ other.offset ∧
            (error.offset < error.text.length → other.place = place))) ∧
      (lead.all isSeparator = false →
        ∃ other, Document.ofChars content = .error other ∧ other.offset < lead.length) := by
  intro content lead place outcome
  have ran : outcome = (sorted.requestUnder options).run store colour :=
    run_of_told colour told noHelp admitted
  have stopped := Request.run_refused listed passed refused
  have read : Document.ofChars (Text.trimEnds Text.isBlank content) = .error error := by
    have unread := ofText_of_badSyntax refused
    rwa [Document.ofText, formattedPart, Text.toList_strip, String.toList_ofList] at unread
  obtain ⟨trail, split, blank⟩ := exists_trail content
  obtain ⟨text_eq, inside⟩ := error_of_ofChars read
  rw [← text_eq] at read inside split
  have whole : content = lead ++ (error.text ++ trail) := split
  have returnless : '\r' ∉ lead := fun among =>
    Text.return_not_mem_unifyBreaks _ ((List.takeWhile_prefix _).subset among)
  have upto : content.take (lead.length + error.offset) = lead ++ error.text.take error.offset := by
    rw [whole, List.take_length_add_append, List.take_append_of_le_length inside]
  have shifted : place = error.place.shifted (Place.behind lead) := by
    change Place.behind (content.take _) = _
    rw [upto, Place.behind_append returnless]
    rfl
  refine ⟨?_, shifted, ?_, ⟨trail, whole, blank, inside, ?_⟩, ?_⟩
  · rw [ran, stopped, message_badSyntax]
    exact ⟨rfl, rfl, rfl⟩
  · rw [shifted, eq_comm]
    exact Place.shifted_eq_iff (Place.behind_pos _).1 returnless
  · intro front back
    obtain ⟨other, again, quoted, later, same⟩ := Document.ofChars_around front back read
    rw [whole]
    refine ⟨other, again, later, fun early => ?_⟩
    rw [SyntaxError.place, quoted, same early, ← whole]
  · intro odd
    have front : ∀ character ∈ lead, Text.isBlank character = true :=
      Lexical.forall_mem_takeWhile _ _
    rw [whole]
    exact Document.ofChars_of_blank front odd _

set_option maxRecDepth 4000 in
/-- The error is on the third line of a file of which only a line feed at the end is stripped. -/
theorem run_syntaxError_unshifted :
    let store := Store.ofFiles [("a", "query Q \x7b\n  a(\n\x7d\n")]
    let content := "query Q \x7b\n  a(\n\x7d\n".toList
    let outcome := run store ["format", "a"] false
    outcome.status = 1 ∧ outcome.errors =
        "Error: a: Syntax Error: Expected Name, found '\x7d'.\n\nGraphQL request:3:1\n" ++
          "2 |   a(\n3 | \x7d\n  | ^\n" ∧
      ∃ other, Document.ofChars content = .error other ∧ other.place = ⟨3, 1⟩ := by
  intro store content outcome
  have told : sortArguments ⟨[], [], []⟩ ["a"] = .ok ⟨[], [], ["a"]⟩ := by
    cbv
  have admitted : Sorted.Admits ⟨[], [], ["a"]⟩ store Options.standard := by
    refine ⟨rfl, ⟨_, _, rfl, rfl, rfl⟩, by simp, ?_, by simp⟩
    simp only [List.forall_mem_cons]
    exact ⟨⟨_, by cbv⟩, by simp⟩
  have listed : ["a"] = [] ++ "a" :: [] := rfl
  have refused : Store.canonicalForm store Options.standard "a" =
      .error (.badSyntax ⟨.grammatical (.expectedName (some (.punctuator .closeBrace))),
        "query Q \x7b\n  a(\n\x7d".toList, 15⟩) := by
    cbv
  have unified : Text.unifyBreaks (store.content "a").toList = content := by
    cbv
  have excerpt : Text.excerpt "query Q \x7b\n  a(\n\x7d".toList ⟨3, 1⟩ =
      "2 |   a(\n3 | \x7d\n  | ^" := by
    cbv
  have place : SyntaxError.place ⟨.grammatical (.expectedName (some (.punctuator .closeBrace))),
      "query Q \x7b\n  a(\n\x7d".toList, 15⟩ = ⟨3, 1⟩ := by
    decide
  have wording : Grammar.SyntaxErrorCause.message
      (.grammatical (.expectedName (some (.punctuator .closeBrace)))) =
        "Expected Name, found '\x7d'." := rfl
  obtain ⟨⟨status, -, said⟩, -, -, ⟨trail, split, -, -, unstripped⟩, -⟩ :=
    run_syntaxError false told (by simp) admitted listed rfl refused
  dsimp only at said split unstripped
  rw [unified] at split unstripped
  rw [wording, place, excerpt] at said
  have lead : content.takeWhile Text.isBlank = [] := by
    decide
  have line : trail = ['\n'] := by
    rw [lead, List.nil_append] at split
    exact List.append_cancel_left (split.symm.trans rfl)
  obtain ⟨other, read, -, same⟩ := unstripped (by rw [lead]; rfl) (by rw [line]; rfl)
  exact ⟨status, said.trans (by cbv), other, read, (same (by decide)).trans (by rw [lead]; decide)⟩

set_option maxRecDepth 4000 in
/-- Two line feeds in front are stripped, and the error is reported two lines above its place in
the file. -/
theorem run_syntaxError_shifted :
    (run (Store.ofFiles [("a", "\n\n\x7b a( \x7d\n")]) ["format", "a"] false).errors =
        "Error: a: Syntax Error: Expected Name, found '\x7d'.\n\nGraphQL request:1:6\n" ++
          "1 | \x7b a( \x7d\n  |      ^\n" ∧
      ∃ other, Document.ofChars "\n\n\x7b a( \x7d\n".toList = .error other ∧
        other.place = ⟨3, 6⟩ := by
  have asked : Task.ofArguments (Store.ofFiles [("a", "\n\n\x7b a( \x7d\n")]) ["format", "a"] =
      .ok (.format ⟨["a"], false, false, false, Options.standard⟩) := by
    cbv
  have refused : Store.canonicalForm (Store.ofFiles [("a", "\n\n\x7b a( \x7d\n")])
      Options.standard "a" =
        .error (.badSyntax ⟨.grammatical (.expectedName (some (.punctuator .closeBrace))),
          "\x7b a( \x7d".toList, 5⟩) := by
    cbv
  have excerpt : Text.excerpt "\x7b a( \x7d".toList ⟨1, 6⟩ = "1 | \x7b a( \x7d\n  |      ^" := by
    cbv
  have place : SyntaxError.place ⟨.grammatical (.expectedName (some (.punctuator .closeBrace))),
      "\x7b a( \x7d".toList, 5⟩ = ⟨1, 6⟩ := by
    decide
  have read : Document.ofChars "\n\n\x7b a( \x7d\n".toList =
      .error ⟨.grammatical (.expectedName (some (.punctuator .closeBrace))),
        "\n\n\x7b a( \x7d\n".toList, 7⟩ := by
    cbv
  have wording : Grammar.SyntaxErrorCause.message
      (.grammatical (.expectedName (some (.punctuator .closeBrace)))) =
        "Expected Name, found '\x7d'." := rfl
  have stopped := @Request.run_refused ⟨["a"], false, false, false, Options.standard⟩
    (Store.ofFiles [("a", "\n\n\x7b a( \x7d\n")]) false [] [] "a" _ _ rfl rfl refused
  have said : (run (Store.ofFiles [("a", "\n\n\x7b a( \x7d\n")]) ["format", "a"] false).errors =
      "" ++ ("" ++ echoed false ("Error: " ++ normalPath "a" ++ ": " ++ ("Syntax Error: " ++
        "Expected Name, found '\x7d'." ++ "\n\nGraphQL request:" ++ toString 1 ++ ":" ++
          toString 6 ++ "\n" ++ "1 | \x7b a( \x7d\n  |      ^"))) := by
    unfold run
    rw [asked]
    dsimp only
    rw [stopped]
    change "" ++ ("" ++ echoed false ("Error: " ++ normalPath "a" ++ ": " ++ FormatError.message _)) =
      _
    rw [message_badSyntax, wording, place, excerpt]
  exact ⟨said.trans (by cbv), _, read, by decide⟩

end GraphQLCanon.CommandLine
