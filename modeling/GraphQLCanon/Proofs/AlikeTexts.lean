import GraphQLCanon.Proofs.AlikeStrings
import GraphQLCanon.Proofs.OutputLayout
import GraphQLCanon.Proofs.Reclassification

/-!
# Texts alike to a canonical form

A canonical form has only spaces, commas and line feeds between its tokens. A text that is
alike to it and has no lexical fault has the same tokens up to the values of strings: where it
has another break than the form, it is inside a string. With the same values too, it is the
form, unless the value of some block string consists of breaks.
-/

namespace GraphQLCanon.Lexical

open GraphQLCanon.Text

/-- Tokens that are the same up to the values of strings. -/
inductive Token.Akin : Token → Token → Prop
  | same (token : Token) : Akin token token
  | strings (one two : String) : Akin (.string one) (.string two)
  | blockStrings (one two : String) : Akin (.blockString one) (.blockString two)

/-- True of values that are not empty and consist of breaks. -/
def isBroken (value : String) : Bool := value != "" && value.toList.all isDisplayBreak

/-- A text of legible tokens with spaces, commas and line feeds between them. -/
inductive Typeset : List Char → List Token → Prop
  | nil : Typeset [] []
  | gap {character : Char} {text : List Char} {tokens : List Token}
    (blank : character ∈ [' ', ',', '\n']) (below : Typeset text tokens) :
    Typeset (character :: text) tokens
  | token {token : Token} {text : List Char} {tokens : List Token} (legible : token.Legible)
    (apart : (∃ sign, token = .punctuator sign) ∨ Delimited text) (below : Typeset text tokens) :
    Typeset (token.spelling ++ text) (token :: tokens)

section Scanning

variable {source text form rest behind : List Char} {tokens : List Token}

/-- Spaces, commas and line feeds are passed over. -/
theorem scan_gap {character : Char} (blank : character ∈ [' ', ',', '\n']) (rest : List Char) :
    scan (character :: rest) = scan rest := by
  simp only [List.mem_cons, List.not_mem_nil, or_false] at blank
  rcases blank with rfl | rfl | rfl
  · exact @scan_spacing_append [' '] rfl rest
  · exact @scan_spacing_append [','] rfl rest
  · exact scan_lineFeed rest

/-- A break other than a line feed or a carriage return begins no token. -/
theorem fault_of_break {character : Char} (broken : isDisplayBreak character = true)
    (noFeed : character ≠ '\n') (noReturn : character ≠ '\r') (rest : List Char) :
    (scan (character :: rest)).fault ≠ none := by
  have unfit := @of_isDisplayBreak (fun other => other == '\n' || other == '\r' ||
    (!isSeparator other && !isNameStart other && !other.isDigit &&
      (Punctuator.ofChar? other).isNone && !(['#', '.', '"', '-'].contains other)))
        (by decide +kernel) _ broken
  rw [beq_false_of_ne noFeed, beq_false_of_ne noReturn, Bool.false_or, Bool.false_or] at unfit
  simp only [Bool.and_eq_true, Bool.not_eq_true', Option.isNone_iff_eq_none, List.contains_cons,
    List.contains_nil, Bool.or_eq_false_iff, beq_eq_false_iff_ne] at unfit
  obtain ⟨⟨⟨⟨separator, name⟩, digit⟩, punctuator⟩, comment, point, quote, minus, -⟩ := unfit
  have skipped : skipIgnored false (character :: rest) = character :: rest := by
    simp [skipIgnored, comment, separator]
  have read : ∃ fault, readToken character rest = .error fault := by
    simp only [readToken, punctuator, point, quote, digit, name, Bool.or_self,
      beq_eq_false_iff_ne.2 minus, if_false, Bool.false_eq_true]
    split <;> exact ⟨_, rfl⟩
  obtain ⟨fault, read⟩ := read
  rw [scan_of_error skipped read]
  simp

/-- A text that is alike to one that prolongs no token in front of it prolongs none. -/
theorem Delimited.of_alike (delimited : Delimited behind) (alike : Alike rest behind) :
    Delimited rest := by
  cases alike with
  | nil => exact delimited_nil
  | @cons first second _ _ head _ =>
    rw [delimited_cons] at delimited ⊢
    rcases head with rfl | ⟨broken, -⟩
    · exact delimited
    · have all : ['\n', '\r', '\x0b', '\x0c', '\x1c', '\x1d', '\x1e', '\u0085', '\u2028',
          '\u2029'].all delimits = true := by decide +kernel
      exact List.all_eq_true.1 all first (isDisplayBreak_iff.1 broken)

/-- What begins with a double quote is scanned as a string. -/
theorem scan_quote (source : List Char) :
    (∃ fault, scan ('"' :: source) = ⟨[], some fault⟩) ∨
      ∃ token remaining, readString source = .ok (token, remaining) ∧
        (scan ('"' :: source)).tokens = token :: (scan remaining).tokens ∧
        (scan ('"' :: source)).fault = (scan remaining).fault := by
  have skipped : skipIgnored false ('"' :: source) = '"' :: source := rfl
  cases read : readString source with
  | error fault => exact .inl ⟨fault, scan_of_error skipped read⟩
  | ok parts =>
    refine .inr ⟨parts.1, parts.2, rfl, ?_⟩
    rw [scan_of_ok skipped (show readToken '"' source = .ok (parts.1, parts.2) from read)]
    exact ⟨rfl, rfl⟩

/-- A legible token that no text prolongs is scanned in front of it. -/
theorem scan_spelling {token : Token} (legible : token.Legible)
    (apart : (∃ sign, token = .punctuator sign) ∨ Delimited rest) :
    (scan (token.spelling ++ rest)).tokens = token :: (scan rest).tokens ∧
      (scan (token.spelling ++ rest)).fault = (scan rest).fault := by
  rw [scan_token legible apart]
  exact ⟨rfl, rfl⟩

/-- A text alike to a quoted string with more behind it begins with a quoted string, with the
same one if it has the same value. -/
theorem scan_alike_string {value : String} (delimited : Delimited behind)
    (alike : Alike text ((Token.string value).spelling ++ behind))
    (faultless : (scan text).fault = none) :
    ∃ start rest other, text = start ++ rest ∧ Alike rest behind ∧
      (scan text).tokens = .string other :: (scan rest).tokens ∧ (scan rest).fault = none ∧
        (other = value → start = (Token.string value).spelling) := by
  have spelled : (Token.string value).spelling ++ behind =
      ['"'] ++ (value.toList.flatMap QuotedString.escape ++ '"' :: behind) := by
    simp [Token.spelling, QuotedString.encode]
  rw [spelled] at alike
  have solid : isDisplayBreak '"' = false := by decide
  obtain ⟨source, rfl, inner⟩ := alike.split_unbroken (by simpa using solid)
  rw [List.singleton_append] at faultless ⊢
  have quoted : readString source = (QuotedString.read source).map fun parts =>
      (.string (String.ofList parts.1), parts.2) := by
    unfold readString
    split
    · rename_i block
      obtain ⟨more, opened, -⟩ :=
        @Alike.split_unbroken _ ['"', '"'] block inner.symm (by simpa using solid)
      exact absurd opened (flatMap_escape_ne delimited more)
    · rfl
  rcases scan_quote source with ⟨fault, stopped⟩ | ⟨token, rest, read, tokens, further⟩
  · rw [stopped] at faultless
    contradiction
  · rw [quoted] at read
    cases found : QuotedString.read source with
    | error fault => simp [found, Except.map] at read
    | ok parts =>
      simp only [found, Except.map, Except.ok.injEq, Prod.mk.injEq] at read
      obtain ⟨rfl, rfl⟩ := read
      obtain ⟨body, rfl, same, spelled⟩ := QuotedString.readAfter_alike inner found
      refine ⟨'"' :: body ++ ['"'], parts.2, String.ofList parts.1, by simp, same, tokens,
        further ▸ faultless, ?_⟩
      rintro rfl
      rw [spelled (String.toList_ofList ..).symm]
      rfl

/-- A text alike to a block string with more behind it begins with a block string, with the same
one if it has the same value and that does not consist of breaks. -/
theorem scan_alike_blockString {raw : List Char} (returnless : '\r' ∉ text)
    (alike : Alike text
      ((Token.blockString (String.ofList (BlockString.value raw))).spelling ++ behind))
    (faultless : (scan text).fault = none) :
    ∃ start rest other, text = start ++ rest ∧ Alike rest behind ∧
      (scan text).tokens = .blockString other :: (scan rest).tokens ∧ (scan rest).fault = none ∧
        (other = String.ofList (BlockString.value raw) → isBroken other = false →
          start = (Token.blockString (String.ofList (BlockString.value raw))).spelling) := by
  let value := BlockString.value raw
  let written := BlockString.feedIf (BlockString.shape value).leading ++
    (BlockString.escapeQuotes value ++ (BlockString.feedIf (BlockString.shape value).trailing ++
      ('"' :: '"' :: '"' :: behind)))
  have spelled : (Token.blockString (String.ofList value)).spelling ++ behind =
      ['"', '"', '"'] ++ written := by
    simp [Token.spelling, BlockString.encode, BlockString.feedIf, written]
  have solid : isDisplayBreak '"' = false := by decide
  rw [spelled] at alike
  obtain ⟨source, rfl, inner⟩ := alike.split_unbroken (by simpa using solid)
  obtain ⟨own, rest, found, same, left, inside, respelled⟩ :=
    BlockString.readRaw_alike inner (BlockString.readRaw_written value behind)
  have read : readString ('"' :: '"' :: source) =
      .ok (.blockString (String.ofList (BlockString.value own)), rest) := by
    simp [readString, BlockString.read, found, Except.map]
  rcases scan_quote ('"' :: '"' :: source) with
    ⟨fault, stopped⟩ | ⟨token, after, again, tokens, further⟩
  · rw [List.cons_append, List.cons_append, List.singleton_append, stopped] at faultless
    contradiction
  · rw [read] at again
    cases again
    by_cases whole : own = BlockString.spread value
    · obtain ⟨spelling, rfl, ending⟩ := respelled whole
      refine ⟨['"', '"', '"'] ++ spelling, rest, _, by simp, left, tokens,
        further ▸ faultless, fun _ _ => ?_⟩
      rw [ending, ← List.append_assoc] at spelled
      exact (List.append_cancel_right spelled).symm
    · obtain ⟨spelling, -, rfl⟩ := BlockString.readRaw_ok found
      refine ⟨['"', '"', '"'] ++ spelling, rest, _, by simp, left, tokens,
        further ▸ faultless, fun agrees unbroken => ?_⟩
      have valued : BlockString.value own = value := String.ofList_inj.1 agrees
      have ownReturnless : '\r' ∉ own := fun member =>
        returnless (List.mem_append_right _ (inside member))
      rw [← valued] at same whole
      rcases BlockString.eq_spread_or_breaks ownReturnless same with equal | ⟨nonempty, broken⟩
      · exact absurd equal whole
      · simp [isBroken, nonempty, broken] at unbroken

/-- A text alike to a typeset one and without a lexical fault has tokens that are the same up to
the values of strings. Where they are the same and no block string has a broken value, the
texts are the same. -/
theorem scan_alike (typeset : Typeset form tokens) (alike : Alike text form)
    (returnless : '\r' ∉ text) (faultless : (scan text).fault = none) :
    List.Forall₂ Token.Akin (scan text).tokens tokens ∧
      ((scan text).tokens = tokens →
        (∀ value, .blockString value ∈ tokens → isBroken value = false) → text = form) := by
  induction typeset generalizing text with
  | nil =>
    obtain rfl := List.forall₂_nil_right_iff.1 alike
    have nothing : scan [] = ⟨[], none⟩ := scan_of_skipped_nil rfl
    rw [nothing]
    exact ⟨.nil, fun _ _ => rfl⟩
  | @gap character below tokens blank rest inductionHypothesis =>
    obtain ⟨first, others, head, tail, rfl⟩ := List.forall₂_cons_right_iff.1 alike
    rw [List.mem_cons, not_or] at returnless
    have passed : first = character ∧ scan (character :: others) = scan others := by
      refine ⟨?_, scan_gap blank others⟩
      simp only [List.mem_cons, List.not_mem_nil, or_false] at blank
      rcases blank with rfl | rfl | rfl
      · exact head.eq_of_right (by decide)
      · exact head.eq_of_right (by decide)
      · rcases head with same | ⟨broken, -⟩
        · exact same
        · by_contra noFeed
          exact fault_of_break broken noFeed (Ne.symm returnless.1) others faultless
    obtain ⟨rfl, passed⟩ := passed
    rw [passed] at faultless ⊢
    obtain ⟨akin, whole⟩ := inductionHypothesis tail returnless.2 faultless
    exact ⟨akin, fun same unbroken => by rw [whole same unbroken]⟩
  | @token token below tokens legible apart rest inductionHypothesis =>
    -- The text begins with a token that is akin, and with the same one if it has its value.
    have begun : ∃ start more other, text = start ++ more ∧ Alike more below ∧
        (scan text).tokens = other :: (scan more).tokens ∧ (scan more).fault = none ∧
          other.Akin token ∧ (other = token → (∀ value, token = .blockString value →
            isBroken value = false) → start = token.spelling) := by
      rcases legible.unblank_or_string with solid | ⟨value, rfl⟩ | ⟨raw, rfl⟩
      · obtain ⟨more, rfl, tail⟩ := alike.split_unbroken fun character inside =>
          isDisplayBreak_eq_false_of_not_blank (solid character inside)
        obtain ⟨tokens, further⟩ := scan_spelling legible
          (apart.imp_right fun delimited => delimited.of_alike tail)
        exact ⟨token.spelling, more, token, rfl, tail, tokens, further ▸ faultless, .same token,
          fun _ _ => rfl⟩
      · have delimited := apart.resolve_left (by simp)
        obtain ⟨start, more, other, rfl, tail, tokens, further, spelled⟩ :=
          scan_alike_string delimited alike faultless
        exact ⟨start, more, .string other, rfl, tail, tokens, further, .strings _ _,
          fun same _ => spelled (Token.string.inj same)⟩
      · obtain ⟨start, more, other, rfl, tail, tokens, further, spelled⟩ :=
          scan_alike_blockString returnless alike faultless
        refine ⟨start, more, .blockString other, rfl, tail, tokens, further, .blockStrings _ _,
          fun same unbroken => ?_⟩
        have same := Token.blockString.inj same
        exact spelled same (unbroken other (by rw [same]))
    obtain ⟨start, more, other, rfl, tail, found, further, akin, spelled⟩ := begun
    obtain ⟨others, whole⟩ := inductionHypothesis tail
      (fun member => returnless (List.mem_append_right _ member)) further
    rw [found]
    refine ⟨.cons akin others, fun same unbroken => ?_⟩
    obtain ⟨same, rest⟩ := List.cons.inj same
    rw [spelled same fun value written => unbroken value (by rw [written]; simp),
      whole rest fun value inside => unbroken value (List.mem_cons_of_mem _ inside)]

end Scanning

section Typesetting

variable {text rest : List Char} {tokens more : List Token}

/-- Spaces and commas in front of a typeset text. -/
theorem Typeset.spaced {gap : List Char} (spaced : gap.all isSpacing = true)
    (typeset : Typeset rest more) : Typeset (gap ++ rest) more := by
  induction gap with
  | nil => exact typeset
  | cons character others inductionHypothesis =>
    rw [List.all_cons, Bool.and_eq_true] at spaced
    refine .gap ?_ (inductionHypothesis spaced.2)
    have spacing := spaced.1
    simp only [isSpacing, Bool.or_eq_true, beq_iff_eq] at spacing
    rcases spacing with rfl | rfl <;> simp

/-- A woven text in front of a typeset one that prolongs no token. -/
theorem Woven.typeset (woven : Woven text tokens) (delimited : Delimited rest)
    (typeset : Typeset rest more) : Typeset (text ++ rest) (tokens ++ more) := by
  induction woven generalizing rest with
  | token legible => exact .token legible (.inr delimited) typeset
  | @cons token gap inner tokens legible spaced apart woven inductionHypothesis =>
    rw [List.append_assoc, List.append_assoc, List.cons_append]
    refine .token legible (apart.imp_right fun closed => ?_)
      ((inductionHypothesis delimited typeset).spaced spaced)
    rw [← List.append_assoc]
    exact closed.append_of_ne_nil (by simp [woven.text_ne_nil]) rest
  | comma woven inductionHypothesis =>
    rw [List.append_assoc]
    exact inductionHypothesis (by simp; decide) (.gap (by simp) typeset)

/-- A typeset text has the tokens that it is typeset from. -/
theorem Typeset.tokens_eq (typeset : Typeset text tokens) : (scan text).tokens = tokens := by
  induction typeset with
  | nil =>
    have nothing : scan [] = ⟨[], none⟩ := scan_of_skipped_nil rfl
    rw [nothing]
    rfl
  | @gap character below tokens blank rest inductionHypothesis =>
    rw [scan_gap blank, inductionHypothesis]
  | token legible apart rest inductionHypothesis =>
    rw [(scan_spelling legible apart).1, inductionHypothesis]

end Typesetting

end GraphQLCanon.Lexical

namespace GraphQLCanon.Layout

open GraphQLCanon.Lexical

variable {indentWidth : Nat}

/-- Lines that stand where they belong are typeset from their tokens. -/
theorem Stands.typeset {first last : Footing} {lines : List Line}
    (stands : Stands first lines last) :
    ∃ tokens, Typeset (Line.join indentWidth lines).toList tokens := by
  induction stands with
  | nil footing => exact ⟨[], .nil⟩
  | @gap level lines last below inductionHypothesis =>
    obtain ⟨tokens, typeset⟩ := inductionHypothesis
    cases lines with
    | nil => exact ⟨[], by simpa [Line.join, Line.write] using Typeset.nil⟩
    | cons second others =>
      refine ⟨tokens, ?_⟩
      rw [Line.toList_join_cons_cons]
      exact .gap (by simp) typeset
  | @line level depth roomy text opening others lines last woven placed below inductionHypothesis =>
    obtain ⟨tokens, typeset⟩ := inductionHypothesis
    have indentation : (List.replicate (indentWidth * depth) ' ').all isSpacing = true := by
      simp [isSpacing]
    have written : (Line.write indentWidth ⟨depth, text⟩).toList =
        List.replicate (indentWidth * depth) ' ' ++ text.toList := by
      simp [Line.write]
    refine ⟨opening :: others ++ tokens, ?_⟩
    cases lines with
    | nil =>
      have alone := (woven.typeset delimited_nil typeset).spaced indentation
      simpa [Line.join, written] using alone
    | cons second more =>
      have feed : Delimited ('\n' :: (Line.join indentWidth (second :: more)).toList) := by
        simp; decide
      rw [Line.toList_join_cons_cons, written, List.append_assoc]
      exact (woven.typeset feed (.gap (by simp) typeset)).spaced indentation

end GraphQLCanon.Layout

namespace GraphQLCanon

open GraphQLCanon.Lexical

/-- A canonical form is typeset from its tokens. -/
theorem typeset_of_formatText {text result : String} {options : Options}
    (formatted : formatText text options = .ok result) :
    Typeset result.toList (scan result.toList).tokens := by
  have standing : ∃ tokens, Typeset result.toList tokens := by
    rw [formatText_eq] at formatted
    split at formatted
    · obtain ⟨document, read, rfl⟩ := rows_of_formatSchema formatted
      exact (lead_of_readTypeSystem read options.indentWidth options.maxWidth false).typeset
    · obtain ⟨document, read, rfl⟩ := rows_of_formatQuery formatted
      exact (lead_of_readExecutable read options.indentWidth options.maxWidth false).typeset
  obtain ⟨tokens, typeset⟩ := standing
  rw [typeset.tokens_eq]
  exact typeset

end GraphQLCanon
