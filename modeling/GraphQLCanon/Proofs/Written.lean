import GraphQLCanon.Proofs.TokenCharacters

/-!
# Texts that spell tokens

What a text adds to a scan, whatever stands behind it. A text that ends in a
punctuator or a separator adds its tokens in front of every text, and one that
ends in a name, a number or a string adds them in front of every delimited text.
Texts are put together from tokens, separators and other such texts, and their
tokens stand in the order of the parts. None of them holds a carriage return, so
a file that holds one is read back as it was written.
-/

namespace GraphQLCanon.Lexical

/-- A scan finds some tokens and then goes on like another one. -/
structure Scan.Continues (whole : Scan) (tokens : List Token) (further : Scan) : Prop where
  tokens_eq : whole.tokens = tokens ++ further.tokens
  fault_eq : whole.fault = further.fault

/-- A text without carriage returns that adds its tokens in front of every delimited
text. -/
structure Spells (text : List Char) (tokens : List Token) : Prop where
  returnless : '\r' ∉ text
  continues : ∀ rest, Delimited rest → (scan (text ++ rest)).Continues tokens (scan rest)

/-- A text without carriage returns that adds its tokens in front of every text. -/
structure Closes (text : List Char) (tokens : List Token) : Prop where
  returnless : '\r' ∉ text
  continues : ∀ rest, (scan (text ++ rest)).Continues tokens (scan rest)

/-- The separators that are written between tokens. -/
def isGap (character : Char) : Bool := isSeparator character && character != '\r'

/-- Nothing is ignored in front of a token. -/
theorem skipIgnored_of_readToken {first : Char} {rest : List Char} {result : Token × List Char}
    (read : readToken first rest = .ok result) (behind : List Char) :
    skipIgnored false (first :: behind) = first :: behind := by
  have notComment : first ≠ '#' := by
    rintro rfl
    contradiction
  have notSeparator : isSeparator first = false := by
    cases separator : isSeparator first with
    | false => rfl
    | true =>
      simp only [isSeparator, Bool.or_eq_true, beq_iff_eq] at separator
      rcases separator with ((((rfl | rfl) | rfl) | rfl) | rfl) | rfl <;> contradiction
  simp [skipIgnored, notComment, notSeparator]

/-- A scan of nothing but separators and comments finds nothing. -/
theorem scan_of_skipped_nil {source : List Char} (skipped : skipIgnored false source = []) :
    scan source = ⟨[], none⟩ := by
  rw [scan]
  split
  · rfl
  · rename_i other
    rw [skipped] at other
    contradiction

/-- A scan stops where no token can be read. -/
theorem scan_of_error {source rest : List Char} {first : Char} {fault : Fault}
    (skipped : skipIgnored false source = first :: rest)
    (read : readToken first rest = .error fault) : scan source = ⟨[], some fault⟩ := by
  rw [scan]
  split
  · rename_i other
    rw [skipped] at other
    contradiction
  · rename_i other
    rw [skipped] at other
    obtain ⟨rfl, rfl⟩ := List.cons.inj other
    split
    · rename_i found
      rw [read] at found
      cases found
      rfl
    · rename_i found
      rw [read] at found
      contradiction

/-- A scan begins with the token in front and goes on behind it. -/
theorem scan_of_ok {source rest remaining : List Char} {first : Char} {token : Token}
    (skipped : skipIgnored false source = first :: rest)
    (read : readToken first rest = .ok (token, remaining)) :
    scan source = ⟨⟨token, first :: rest⟩ :: (scan remaining).lexemes, (scan remaining).fault⟩ := by
  rw [scan]
  split
  · rename_i other
    rw [skipped] at other
    contradiction
  · rename_i other
    rw [skipped] at other
    obtain ⟨rfl, rfl⟩ := List.cons.inj other
    split
    · rename_i found
      rw [read] at found
      contradiction
    · rename_i found
      rw [read] at found
      cases found
      rfl

/-- A scan depends on what is left behind separators and comments only. -/
theorem scan_congr {source other : List Char}
    (same : skipIgnored false source = skipIgnored false other) : scan source = scan other := by
  cases skipped : skipIgnored false source with
  | nil => rw [scan_of_skipped_nil skipped, scan_of_skipped_nil (same ▸ skipped)]
  | cons first rest =>
    have otherSkipped : skipIgnored false other = first :: rest := same ▸ skipped
    cases read : readToken first rest with
    | error fault => rw [scan_of_error skipped read, scan_of_error otherSkipped read]
    | ok parts =>
      have left := scan_of_ok skipped read
      have right := scan_of_ok otherSkipped read
      rw [left, right]

/-- All tokens of a scan are legible. -/
theorem legible_of_mem_scan {source : List Char} {token : Token}
    (inside : token ∈ (scan source).tokens) : token.Legible := by
  fun_induction scan source with
  | case1 source skipped => simp [Scan.tokens] at inside
  | case2 source first rest skipped fault read => simp [Scan.tokens] at inside
  | case3 source first rest skipped found remaining read others inductionHypothesis =>
    rcases List.mem_cons.1 inside with rfl | later
    · exact ⟨first, rest, remaining, read⟩
    · exact inductionHypothesis later

/-- Continuing first by some tokens and then by others is continuing by both. -/
theorem Scan.Continues.trans {whole middle further : Scan} {first second : List Token}
    (left : whole.Continues first middle) (right : middle.Continues second further) :
    whole.Continues (first ++ second) further where
  tokens_eq := by rw [left.tokens_eq, right.tokens_eq, List.append_assoc]
  fault_eq := left.fault_eq.trans right.fault_eq

/-- A text that adds its tokens in front of every text does so in front of a
delimited one. -/
theorem Closes.spells {text : List Char} {tokens : List Token} (closes : Closes text tokens) :
    Spells text tokens where
  returnless := closes.returnless
  continues := fun rest _ => closes.continues rest

/-- The empty text adds nothing. -/
theorem closes_nil : Closes [] [] where
  returnless := List.not_mem_nil
  continues := fun _ => ⟨rfl, rfl⟩

/-- A separator adds nothing. -/
theorem scan_separator_append {character : Char} (separator : isSeparator character = true)
    (rest : List Char) : (scan (character :: rest)).Continues [] (scan rest) := by
  have notComment : character ≠ '#' := by
    rintro rfl
    contradiction
  have same : scan (character :: rest) = scan rest :=
    scan_congr (by simp [skipIgnored, notComment, separator])
  rw [same]
  exact ⟨rfl, rfl⟩

/-- Separators add nothing. -/
theorem closes_separators {text : List Char} (separators : text.all isGap = true) :
    Closes text [] := by
  induction text with
  | nil => exact closes_nil
  | cons first others inductionHypothesis =>
    rw [List.all_cons, Bool.and_eq_true, isGap, Bool.and_eq_true, bne_iff_ne] at separators
    obtain ⟨⟨separator, noReturn⟩, more⟩ := separators
    have closes := inductionHypothesis more
    refine ⟨?_, fun rest => ?_⟩
    · rw [List.mem_cons, not_or]
      exact ⟨noReturn.symm, closes.returnless⟩
    · exact (scan_separator_append separator (others ++ rest)).trans (closes.continues rest)

/-- A punctuator adds itself in front of every text. -/
theorem closes_punctuator (sign : Punctuator) :
    Closes sign.spelling.toList [.punctuator sign] where
  returnless := (legible_punctuator sign).return_not_mem
  continues := by
    intro rest
    obtain ⟨first, tail, spelled, read⟩ := readToken_punctuator sign rest
    have found := scan_of_ok (skipIgnored_of_readToken read _) read
    rw [spelled, List.cons_append, found]
    exact ⟨rfl, rfl⟩

/-- A legible token adds itself in front of every delimited text. -/
theorem spells_token {token : Token} (legible : token.Legible) :
    Spells token.spelling [token] where
  returnless := legible.return_not_mem
  continues := by
    intro rest delimited
    obtain ⟨first, tail, spelled, read⟩ := legible.read delimited
    have found := scan_of_ok (skipIgnored_of_readToken read _) read
    rw [spelled, List.cons_append, found]
    exact ⟨rfl, rfl⟩

/-- Two texts without carriage returns have none together. -/
theorem return_not_mem_append {text other : List Char} (left : '\r' ∉ text)
    (right : '\r' ∉ other) : '\r' ∉ text ++ other := by
  rw [List.mem_append, not_or]
  exact ⟨left, right⟩

/-- Behind a text that needs no delimiter stands any text. -/
theorem Closes.append_spells {text other : List Char} {first second : List Token}
    (left : Closes text first) (right : Spells other second) :
    Spells (text ++ other) (first ++ second) where
  returnless := return_not_mem_append left.returnless right.returnless
  continues := by
    intro rest delimited
    rw [List.append_assoc]
    exact (left.continues _).trans (right.continues rest delimited)

/-- Behind a text that needs no delimiter stands any text. -/
theorem Closes.append {text other : List Char} {first second : List Token}
    (left : Closes text first) (right : Closes other second) :
    Closes (text ++ other) (first ++ second) where
  returnless := return_not_mem_append left.returnless right.returnless
  continues := by
    intro rest
    rw [List.append_assoc]
    exact (left.continues _).trans (right.continues rest)

/-- Behind a text that needs a delimiter stands a delimited text. -/
theorem Spells.append {text other : List Char} {first second : List Token}
    (left : Spells text first) (right : Spells other second) (delimited : Delimited other) :
    Spells (text ++ other) (first ++ second) where
  returnless := return_not_mem_append left.returnless right.returnless
  continues := by
    intro rest delimitedRest
    rw [List.append_assoc]
    exact (left.continues _ (delimited.append delimitedRest)).trans
      (right.continues rest delimitedRest)

/-- A delimiter ends a text that needs one. -/
theorem Spells.append_closes {text other : List Char} {first second : List Token}
    (left : Spells text first) (right : Closes other second) (delimited : Delimited other)
    (nonempty : other ≠ []) : Closes (text ++ other) (first ++ second) where
  returnless := return_not_mem_append left.returnless right.returnless
  continues := by
    intro rest
    rw [List.append_assoc]
    exact (left.continues _ (delimited.append_of_ne_nil nonempty rest)).trans
      (right.continues rest)

/-- A whole text that spells tokens is scanned as these tokens, without a fault. -/
theorem Spells.scan {text : List Char} {tokens : List Token} (spells : Spells text tokens) :
    (scan text).tokens = tokens ∧ (scan text).fault = none := by
  have whole := spells.continues [] delimited_nil
  have nothing : Lexical.scan [] = ⟨[], none⟩ := scan_of_skipped_nil rfl
  rw [List.append_nil, nothing] at whole
  exact ⟨by simpa [Scan.tokens] using whole.tokens_eq, whole.fault_eq⟩

end GraphQLCanon.Lexical
