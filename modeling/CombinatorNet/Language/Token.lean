import CombinatorNet.Error
import CombinatorNet.Text.Blank
import CombinatorNet.Text.Numeric

/-!
# Tokens of the network language

A source text is a sequence of lexemes with blanks between them, where comments count as blanks. A
lexeme is either a token or a fault; after a fault reading goes on behind it.

## Main definitions

* `TokenKind`, `Token` — the kinds of tokens, and a token with its text and place
* `splitBlank` — the blanks and comments at the start of a text, and the rest
* `Lexeme.read` — the lexeme at the start of a text without leading blanks
* `scan` — all lexemes of a text, followed by the end of input

## Main results

* `splitBlank_append`, `Lexeme.read_append` — both only cut the text in two
* `Lexeme.rest_length_le` — a lexeme takes at least one character, so that scanning ends
-/

namespace CombinatorNet

/-- The kinds of tokens. -/
inductive TokenKind
  /-- The name of a network, wire or signal, or a keyword. -/
  | identifier
  /-- A run of digits; a sign is a token of its own. -/
  | integer
  /-- An operator symbol other than `=`. -/
  | operator
  /-- The sign `->`. -/
  | arrow
  /-- The sign `=`, which binds a parameter and compares. -/
  | equals
  | openBrace | closeBrace | openParen | closeParen | comma | colon
  /-- A heading with its number of `#`. -/
  | heading (level : Nat)
  /-- The end of the text. -/
  | finish
deriving DecidableEq, Repr, Inhabited

/-- A token with its text and place. -/
structure Token where
  /-- What sort of token it is. -/
  kind : TokenKind
  /-- The characters of the token; for a heading, the label. -/
  text : String
  /-- The place of the token. -/
  span : Span
deriving DecidableEq, Repr, Inhabited

/-- The token at the end of a text. -/
def Token.finish (p : Position) : Token := ⟨.finish, "", ⟨p, p⟩⟩

/-! ### Blanks -/

/-- The part of a text up to the first end of a comment, that end included, and the rest. -/
def closeComment? : List Char → Option (List Char × List Char)
  | [] => none
  | '*' :: '/' :: rest => some (['*', '/'], rest)
  | c :: rest => (closeComment? rest).map fun p => (c :: p.1, p.2)

/-- The comment at the start of a text, and the rest: from `//` to the end of the line, or from `/*`
to the next `*/`. -/
def comment? : List Char → Option (List Char × List Char)
  | '/' :: '/' :: rest =>
    some ('/' :: '/' :: rest.takeWhile (· != '\n'), rest.dropWhile (· != '\n'))
  | '/' :: '*' :: rest => (closeComment? rest).map fun p => ('/' :: '*' :: p.1, p.2)
  | _ => none

theorem append_of_closeComment? {cs body rest : List Char}
    (h : closeComment? cs = some (body, rest)) : body ++ rest = cs := by
  fun_induction closeComment? cs generalizing body rest with
  | case1 => cases h
  | case2 tail => cases h; rfl
  | case3 c tail _ ih =>
    obtain ⟨⟨b, t⟩, hb, heq⟩ := Option.map_eq_some_iff.1 h
    cases heq
    exact congrArg (c :: ·) (ih hb)

theorem append_of_comment? {cs body rest : List Char} (h : comment? cs = some (body, rest)) :
    body ++ rest = cs := by
  rw [comment?.eq_def] at h
  split at h
  · cases h; simp [List.takeWhile_append_dropWhile]
  · obtain ⟨⟨b, t⟩, hb, heq⟩ := Option.map_eq_some_iff.1 h
    cases heq
    simp [append_of_closeComment? hb]
  · cases h

theorem ne_nil_of_comment? {cs body rest : List Char} (h : comment? cs = some (body, rest)) :
    body ≠ [] := by
  rw [comment?.eq_def] at h
  split at h
  · cases h; exact List.cons_ne_nil _ _
  · obtain ⟨⟨b, t⟩, hb, heq⟩ := Option.map_eq_some_iff.1 h
    cases heq
    exact List.cons_ne_nil _ _
  · cases h

theorem length_of_comment? {cs body rest : List Char} (h : comment? cs = some (body, rest)) :
    rest.length < cs.length := by
  rw [← append_of_comment? h, List.length_append]
  have := List.length_pos_iff.2 (ne_nil_of_comment? h)
  omega

/-- The blanks and comments at the start of a text, and the rest. -/
def splitBlank (cs : List Char) : List Char × List Char :=
  match cs with
  | [] => ([], [])
  | c :: rest =>
    if isBlank c then
      let split := splitBlank rest
      (c :: split.1, split.2)
    else
      match _h : comment? (c :: rest) with
      | some (body, rest') =>
        let split := splitBlank rest'
        (body ++ split.1, split.2)
      | none => ([], c :: rest)
termination_by cs.length
decreasing_by
  · simp
  · exact length_of_comment? _h

theorem splitBlank_append (cs : List Char) : (splitBlank cs).1 ++ (splitBlank cs).2 = cs := by
  fun_induction splitBlank cs with
  | case1 => rfl
  | case2 c rest _ split ih => exact congrArg (c :: ·) ih
  | case3 c rest _ body rest' h split ih =>
    rw [List.append_assoc, ih, append_of_comment? h]
  | case4 => rfl

/-! ### Lexemes -/

/-- What stands at the start of a text: a token or a fault, the characters it takes, and the
rest. -/
structure Lexeme where
  /-- The kind and text of the token, or the fault. -/
  reading : Except SyntaxFault (TokenKind × String)
  /-- The characters taken. -/
  chars : List Char
  /-- The text behind them. -/
  rest : List Char

namespace Lexeme

/-- The lexeme that is a token with its own characters as text. -/
def plain (kind : TokenKind) (chars rest : List Char) : Lexeme :=
  ⟨.ok (kind, String.ofList chars), chars, rest⟩

/-- The lexeme that is a fault. -/
def fault (cause : SyntaxFault) (chars rest : List Char) : Lexeme :=
  ⟨.error cause, chars, rest⟩

/-- The kind of a token of this one character. -/
def kindOfChar? : Char → Option TokenKind
  | '{' => some .openBrace
  | '}' => some .closeBrace
  | '(' => some .openParen
  | ')' => some .closeParen
  | ',' => some .comma
  | ':' => some .colon
  | '=' => some .equals
  | '+' | '*' | '/' | '%' | '&' | '|' | '^' => some .operator
  | _ => none

/-- Whether a character can start a name. -/
def startsName (c : Char) : Bool := isAlphabetic c || c == '_'

/-- Whether a character can stand in a name behind its start. -/
def inName (c : Char) : Bool := isAlphanumeric c || c == '_'

/-- The lexeme that starts with `/*`, where the comment has no end: all of the text. -/
def openComment (cs : List Char) : Lexeme := fault .unterminatedComment cs []

/-- The lexeme that starts with a minus sign. -/
def minus : List Char → Lexeme
  | '>' :: rest => plain .arrow ['-', '>'] rest
  | rest => plain .operator ['-'] rest

/-- The lexeme that starts with an exclamation mark. -/
def exclamation : List Char → Lexeme
  | '=' :: rest => plain .operator ['!', '='] rest
  | rest => fault .loneExclamation ['!'] rest

/-- The lexeme that starts with one of the angle signs: alone, doubled, or before an equals sign. -/
def angle (c : Char) : List Char → Lexeme
  | [] => plain .operator [c] []
  | d :: rest =>
    if d = '=' ∨ d = c then plain .operator [c, d] rest else plain .operator [c] (d :: rest)

/-- The heading that starts a text: a run of `#` and the rest of the line. -/
def heading (cs : List Char) : Lexeme :=
  let marks := cs.takeWhile (· == '#')
  let label := (cs.dropWhile (· == '#')).takeWhile (· != '\n')
  ⟨.ok (.heading (min marks.length 255), String.ofList (trimBlanks label)), marks ++ label,
    (cs.dropWhile (· == '#')).dropWhile (· != '\n')⟩

/-- The run of digits that starts a text; no name may follow it directly. -/
def digits (cs : List Char) : Lexeme :=
  let run := cs.takeWhile Char.isDigit
  match cs.dropWhile Char.isDigit with
  | [] => plain .integer run []
  | c :: rest =>
    if startsName c then fault .digitsBeforeName run (c :: rest) else plain .integer run (c :: rest)

/-- The name that starts a text. -/
def name (cs : List Char) : Lexeme :=
  plain .identifier (cs.takeWhile inName) (cs.dropWhile inName)

/-- The lexeme at the start of the text `c :: cs`, which starts with no blank and no comment. -/
def read (c : Char) (cs : List Char) : Lexeme :=
  -- A comment with an end would have been skipped as a blank.
  if c = '/' ∧ cs.head? = some '*' then openComment (c :: cs)
  else
    match kindOfChar? c with
    | some kind => plain kind [c] cs
    | none =>
      if c = '-' then minus cs
      else if c = '!' then exclamation cs
      else if c = '<' ∨ c = '>' then angle c cs
      else if c = '#' then heading (c :: cs)
      else if c.isDigit then digits (c :: cs)
      else if startsName c then name (c :: cs)
      else fault (.unexpectedCharacter c) [c] cs

theorem minus_append (cs : List Char) : (minus cs).chars ++ (minus cs).rest = '-' :: cs := by
  rw [minus.eq_def]; split <;> rfl

theorem exclamation_append (cs : List Char) :
    (exclamation cs).chars ++ (exclamation cs).rest = '!' :: cs := by
  rw [exclamation.eq_def]; split <;> rfl

theorem angle_append (c : Char) (cs : List Char) :
    (angle c cs).chars ++ (angle c cs).rest = c :: cs := by
  cases cs with
  | nil => rfl
  | cons d cs => rw [angle]; split <;> rfl

theorem heading_append (cs : List Char) : (heading cs).chars ++ (heading cs).rest = cs := by
  simp [heading, List.append_assoc, List.takeWhile_append_dropWhile]

theorem digits_append (cs : List Char) : (digits cs).chars ++ (digits cs).rest = cs := by
  have h := List.takeWhile_append_dropWhile (p := Char.isDigit) (l := cs)
  simp only [digits]
  split
  · next hd => rw [hd] at h; exact h
  · next hd => rw [hd] at h; split <;> exact h

theorem name_append (cs : List Char) : (name cs).chars ++ (name cs).rest = cs :=
  List.takeWhile_append_dropWhile

/-- A lexeme and what is behind it make up the text. -/
theorem read_append (c : Char) (cs : List Char) :
    (read c cs).chars ++ (read c cs).rest = c :: cs := by
  rw [read]
  split
  · exact List.append_nil _
  · split
    · rfl
    · split
      · next h => rw [h]; exact minus_append cs
      · split
        · next h => rw [h]; exact exclamation_append cs
        · split
          · exact angle_append c cs
          · split
            · exact heading_append _
            · split
              · exact digits_append _
              · split
                · exact name_append _
                · rfl

/-- A lexeme takes at least one character. -/
theorem chars_ne_nil (c : Char) (cs : List Char) : (read c cs).chars ≠ [] := by
  rw [read]
  split
  · exact List.cons_ne_nil _ _
  · split
    · exact List.cons_ne_nil _ _
    · split
      · rw [minus.eq_def]; split <;> exact List.cons_ne_nil _ _
      · split
        · rw [exclamation.eq_def]; split <;> exact List.cons_ne_nil _ _
        · split
          · cases cs with
            | nil => exact List.cons_ne_nil _ _
            | cons d cs => rw [angle]; split <;> exact List.cons_ne_nil _ _
          · split
            · next h => simp [heading, h]
            · split
              · next h =>
                simp only [digits]
                split
                · simp [plain, h]
                · split <;> simp [plain, fault, h]
              · split
                · next h =>
                  have : inName c = true := by
                    simp only [startsName, inName, isAlphanumeric, Bool.or_eq_true] at h ⊢
                    exact h.imp_left .inl
                  simp [name, plain, this]
                · exact List.cons_ne_nil _ _

theorem rest_length_le (c : Char) (cs : List Char) : (read c cs).rest.length ≤ cs.length := by
  have h := congrArg List.length (read_append c cs)
  have h' := List.length_pos_iff.2 (chars_ne_nil c cs)
  rw [List.length_append, List.length_cons] at h
  omega

/-- A lexeme at its place: a token, or a fault of the source. -/
def locate (l : Lexeme) (span : Span) : Except SourceFault Token :=
  match l.reading with
  | .ok (kind, text) => .ok ⟨kind, text, span⟩
  | .error cause => .error ⟨cause, span⟩

end Lexeme

/-! ### Scanning -/

/-- The lexemes of a text that starts at a given position, followed by the end of input. -/
def scanFrom (p : Position) (cs : List Char) : List (Except SourceFault Token) :=
  match _h : splitBlank cs with
  | (gap, []) => [.ok (Token.finish (p.after gap))]
  | (gap, c :: rest) =>
    let lexeme := Lexeme.read c rest
    let start := p.after gap
    let stop := start.after lexeme.chars
    lexeme.locate ⟨start, stop⟩ :: scanFrom stop lexeme.rest
termination_by cs.length
decreasing_by
  have hlen := congrArg List.length (splitBlank_append cs)
  rw [_h, List.length_append, List.length_cons] at hlen
  have := Lexeme.rest_length_le c rest
  show (Lexeme.read c rest).rest.length < cs.length
  omega

/-- The lexemes of a source text, followed by the end of input. -/
def scan (source : String) : List (Except SourceFault Token) := scanFrom .origin source.toList

end CombinatorNet
