import CombinatorNet.Language.Program
import CombinatorNet.Language.Reader
import CombinatorNet.Word

/-!
# Parsing programs

The grammar, with names and numbers as the tokens of these kinds:

    program    = template { template }
    template   = name '(' [ name { ',' name } [','] ] ')' '{' { statement } '}'
    statement  = [ 'toggle' | 'pulse' ] '{' [ value { ',' value } [','] ] '}' '->' wires
               | wires '->' operand operator operand ( 'as' | 'then' [ '1' 'as' ] ) name '->' wires
               | wires '->' 'display' name
               | name '(' [ binding { ',' binding } [','] ] ')'
               | ( 'red' | 'green' ) wires
               | heading
    value      = name ':' number
    binding    = name '=' name
    wires      = name | '(' name { ',' name } ')'
    operand    = name | number
    number     = [ '-' ] digits

The keywords are names, and are read as names wherever the grammar does not ask for the keyword.

## Main definitions

* `Program.read` — the reader of a whole program
* `Program.ofLexemes`, `Program.parse` — the program that a token sequence, or a text, stands for
-/

namespace CombinatorNet

open Reader

/-- Read digits behind a sign that may already have been taken. -/
def readDigits (negative : Bool) (start : Span) : Reader Int := do
  let token ← expect .integer "a number"
  let magnitude : Int := Nat.ofDigitChars 10 token.text.toList 0
  let value := if negative then -magnitude else magnitude
  if FitsWord value then return value
  else fail (.outOfRange ((if negative then "-" else "") ++ token.text)) (start.upTo token.span)

/-- Read a number with an optional minus sign. -/
def readNumber : Reader Int := do
  let token ← current
  if token.kind = .operator ∧ token.text = "-" then
    let _ ← advance
    readDigits true token.span
  else readDigits false token.span

/-- Read an operand. -/
def readOperand : Reader Operand := do
  match (← current).kind with
  | .identifier => return .signal (← advance).text
  | .integer => return .literal (← readNumber)
  -- The only operator that a number can start with is the minus sign.
  | .operator => return .literal (← readNumber)
  | _ => unexpected "a signal or a number"

/-- Read one further wire of a wire list. -/
def readNextWire (_ : List String) : Reader String := do
  let _ ← advance
  name "a wire name"

theorem shrinks_readNextWire (seen : List String) : Shrinks (readNextWire seen) :=
  shrinks_advance.bind fun _ => (shrinks_name _).keeps

/-- Read one wire, or several between parentheses. -/
def readWires : Reader (List String) := do
  if (← current).kind = .openParen then
    let _ ← advance
    let first ← name "a wire name"
    let wires ← many (fun kind => kind = .comma) readNextWire shrinks_readNextWire [first]
    let _ ← expect .closeParen "')'"
    return wires
  else return [← name "a wire name or '('"]

/-! ### Statements -/

/-- Read the value of one signal of a constant statement. -/
def readValue (_ : List (String × Int)) : Reader (String × Int) := do
  let signal ← expect .identifier "a signal name"
  if isReserved signal.text then fail (.reservedConstant signal.text) signal.span
  else
    let _ ← expect .colon "':'"
    let value ← readNumber
    return (signal.text, value)

theorem keeps_readDigits (negative : Bool) (start : Span) : Keeps (readDigits negative start) :=
  ((shrinks_expect _ _).bind fun _ => Keeps.ite (.pure _) (shrinks_fail _ _).keeps).keeps

theorem keeps_readNumber : Keeps readNumber :=
  keeps_current.bind fun _ =>
    .ite (shrinks_advance.bind fun _ => keeps_readDigits _ _).keeps (keeps_readDigits _ _)

theorem shrinks_readValue (seen : List (String × Int)) : Shrinks (readValue seen) :=
  (shrinks_expect _ _).bind fun _ =>
    .ite (shrinks_fail _ _).keeps
      ((shrinks_expect _ _).bind fun _ => keeps_readNumber.bind fun _ => .pure _).keeps

/-- Read the values and outputs of a constant statement. -/
def readConstant (drive : Drive) : Reader Request := do
  let _ ← expect .openBrace "'\x7b'"
  let values ← commaList .closeBrace readValue shrinks_readValue []
  let _ ← expect .closeBrace "'\x7d'"
  let _ ← expect .arrow "'->'"
  let outputs ← readWires
  return .constant drive values outputs

/-- Read what an expression does with its result: `as`, `then` or `then 1 as`; the answer says
whether it was the last one. -/
def readMode (op : Operator) : Reader Bool := do
  if op.isComparison then
    let _ ← expectKeyword "then"
    if (← current).kind = .integer then
      let number ← advance
      if number.text = "1" then
        let _ ← expectKeyword "as"
        return true
      else fail .deciderNumber number.span
    else return false
  else
    let _ ← expectKeyword "as"
    return false

/-- Read an operator symbol. -/
def readOperator : Reader Operator := do
  let token ← current
  if token.kind = .operator ∨ token.kind = .equals then
    let _ ← advance
    match Operator.ofSymbol? token.text with
    | some op => return op
    | none => fail (.unknownOperator token.text) token.span
  else unexpected "an operator"

/-- Read an expression. -/
def readExpr : Reader Expr := do
  let start := (← current).span.start
  let left ← readOperand
  let op ← readOperator
  let right ← readOperand
  let asOne ← readMode op
  let output ← name "an output signal"
  let span ← spanFrom start
  return { left, op, right, output, asOne, span }

/-- Whether a display statement follows: the keyword and then a name. -/
def atDisplay : Reader Bool := do
  if (← current).isKeyword "display" then return (← peekKind) = .identifier else return false

/-- Read a statement that begins with its input wires. -/
def readWired : Reader Request := do
  let inputs ← readWires
  let _ ← expect .arrow "'->'"
  if ← atDisplay then
    let _ ← advance
    return .display inputs (← name "a signal name")
  else
    let expr ← readExpr
    let _ ← expect .arrow "'->'"
    let outputs ← readWires
    return .binary inputs expr outputs

/-- Read one binding of an instance. -/
def readBinding (_ : List Binding) : Reader Binding := do
  let formal ← expect .identifier "a parameter name"
  let _ ← expect .equals "'='"
  let actual ← expect .identifier "a wire or signal name"
  return ⟨formal.text, actual.text, formal.span.upTo actual.span⟩

theorem shrinks_readBinding (seen : List Binding) : Shrinks (readBinding seen) :=
  (shrinks_expect _ _).bind fun _ =>
    ((shrinks_expect _ _).bind fun _ => ((shrinks_expect _ _).bind fun _ => .pure _).keeps).keeps

/-- Read an instance of a template. -/
def readInstance : Reader Request := do
  let template ← name "a network name"
  let _ ← expect .openParen "'('"
  let bindings ← commaList .closeParen readBinding shrinks_readBinding []
  let _ ← expect .closeParen "')'"
  return .instantiate template bindings

/-- What a statement that begins with a name is: a button, a coloring of wires, an instance of a
template, or a statement with input wires. -/
inductive NamedForm
  | button (drive : Drive)
  | paint (color : Color)
  | unit
  | wired
deriving DecidableEq, Repr

/-- The form of a statement that begins with the given name before a token of the given kind. -/
def NamedForm.of (word : String) (next : TokenKind) : NamedForm :=
  if word = "toggle" ∧ next = .openBrace then .button .toggle
  else if word = "pulse" ∧ next = .openBrace then .button .pulse
  else if word = "red" ∧ (next = .identifier ∨ next = .openParen) then .paint .red
  else if word = "green" ∧ (next = .identifier ∨ next = .openParen) then .paint .green
  else if next = .openParen then .unit
  else .wired

/-- Read a statement that begins with a name. -/
def readNamed : NamedForm → Reader Request
  | .button drive => do
    let _ ← advance
    readConstant drive
  | .paint color => do
    let _ ← advance
    return .paint color (← readWires)
  | .unit => readInstance
  | .wired => readWired

/-- Read what a statement asks for. -/
def readRequest : Reader Request := do
  let token ← current
  match token.kind with
  | .heading level =>
    let _ ← advance
    return .label token.text (min level 3)
  | .openBrace => readConstant .constant
  | .openParen => readWired
  | .identifier => readNamed (.of token.text (← peekKind))
  | _ => unexpected "a statement"

/-- Read a statement. -/
def readStatement : Reader Statement := do
  let start := (← current).span.start
  let request ← readRequest
  let span ← spanFrom start
  return ⟨request, span⟩

theorem keeps_readWiresTail (first : String) :
    Keeps (do
      let wires ← many (fun kind => kind = .comma) readNextWire shrinks_readNextWire [first]
      let _ ← expect .closeParen "')'"
      return wires) :=
  (keeps_many _ _ _ _).bind fun _ => ((shrinks_expect _ _).bind fun _ => .pure _).keeps

theorem shrinks_readWires : Shrinks readWires :=
  keeps_current.bind_shrinks fun _ =>
    .ite
      (shrinks_advance.bind fun _ => ((shrinks_name _).bind fun _ => keeps_readWiresTail _).keeps)
      ((shrinks_name _).bind fun _ => .pure _)

theorem shrinks_readConstant (drive : Drive) : Shrinks (readConstant drive) :=
  (shrinks_expect _ _).bind fun _ => (keeps_commaList _ _ _ _).bind fun _ =>
    ((shrinks_expect _ _).bind fun _ => ((shrinks_expect _ _).bind fun _ =>
      (shrinks_readWires.bind fun _ => .pure _).keeps).keeps).keeps

theorem keeps_readMode (op : Operator) : Keeps (readMode op) :=
  .ite
    ((shrinks_expectKeyword _).bind fun _ => keeps_current.bind fun _ =>
      .ite
        (shrinks_advance.bind fun _ =>
          .ite ((shrinks_expectKeyword _).bind fun _ => .pure _).keeps (shrinks_fail _ _).keeps).keeps
        (.pure _)).keeps
    ((shrinks_expectKeyword _).bind fun _ => .pure _).keeps

theorem keeps_readOperand : Keeps readOperand :=
  keeps_current.bind fun token => by
    split
    · exact (shrinks_advance.bind fun _ => .pure _).keeps
    · exact keeps_readNumber.bind fun _ => .pure _
    · exact keeps_readNumber.bind fun _ => .pure _
    · exact (shrinks_unexpected _).keeps

theorem keeps_readOperator : Keeps readOperator :=
  keeps_current.bind fun token =>
    .ite
      (shrinks_advance.bind fun _ => by
        split
        · exact .pure _
        · exact (shrinks_fail _ _).keeps).keeps
      (shrinks_unexpected _).keeps

theorem keeps_readExpr : Keeps readExpr :=
  keeps_current.bind fun _ => keeps_readOperand.bind fun _ => keeps_readOperator.bind fun _ =>
    keeps_readOperand.bind fun _ => (keeps_readMode _).bind fun _ =>
      ((shrinks_name _).bind fun _ => (keeps_spanFrom _).bind fun _ => .pure _).keeps

theorem keeps_atDisplay : Keeps atDisplay :=
  keeps_current.bind fun _ => .ite (keeps_peekKind.bind fun _ => .pure _) (.pure _)

theorem shrinks_readWired : Shrinks readWired :=
  shrinks_readWires.bind fun _ => ((shrinks_expect _ _).bind fun _ => keeps_atDisplay.bind fun _ =>
    .ite (shrinks_advance.bind fun _ => ((shrinks_name _).bind fun _ => .pure _).keeps).keeps
      (keeps_readExpr.bind fun _ => ((shrinks_expect _ _).bind fun _ =>
        (shrinks_readWires.bind fun _ => .pure _).keeps).keeps)).keeps

theorem shrinks_readInstance : Shrinks readInstance :=
  (shrinks_name _).bind fun _ => ((shrinks_expect _ _).bind fun _ =>
    (keeps_commaList _ _ _ _).bind fun _ =>
      ((shrinks_expect _ _).bind fun _ => .pure _).keeps).keeps

theorem shrinks_readNamed (form : NamedForm) : Shrinks (readNamed form) := by
  cases form with
  | button drive => exact shrinks_advance.bind fun _ => (shrinks_readConstant _).keeps
  | paint color =>
    exact shrinks_advance.bind fun _ => (shrinks_readWires.bind fun _ => .pure _).keeps
  | unit => exact shrinks_readInstance
  | wired => exact shrinks_readWired

theorem shrinks_readRequest : Shrinks readRequest :=
  keeps_current.bind_shrinks fun token => by
    split
    · exact shrinks_advance.bind fun _ => .pure _
    · exact shrinks_readConstant _
    · exact shrinks_readWired
    · exact keeps_peekKind.bind_shrinks fun _ => shrinks_readNamed _
    · exact shrinks_unexpected _

theorem shrinks_readStatement : Shrinks readStatement :=
  keeps_current.bind_shrinks fun _ => shrinks_readRequest.bind fun _ =>
    (keeps_spanFrom _).bind fun _ => .pure _

/-! ### Templates -/

/-- Read one more parameter of a template. -/
def readParam (seen : List String) : Reader String := do
  let param ← expect .identifier "a parameter name"
  if param.text ∈ seen then fail (.duplicateParameter param.text) param.span
  else return param.text

theorem shrinks_readParam (seen : List String) : Shrinks (readParam seen) :=
  (shrinks_expect _ _).bind fun _ => .ite (shrinks_fail _ _).keeps (.pure _)

/-- Read one more statement of a body that has not ended. -/
def readBodyStatement (_ : List Statement) : Reader Statement := do
  if (← current).kind = .finish then unexpected "'\x7d'" else readStatement

theorem shrinks_readBodyStatement (seen : List Statement) : Shrinks (readBodyStatement seen) :=
  keeps_current.bind_shrinks fun _ => .ite (shrinks_unexpected _) shrinks_readStatement

/-- Read the body of a template. -/
def readBody : Reader (List Statement) := do
  let _ ← expect .openBrace "'\x7b'"
  let body ← many (fun kind => kind ≠ .closeBrace) readBodyStatement shrinks_readBodyStatement []
  -- The next token is the closing brace, as nothing else ends the repetition.
  let _ ← advance
  return body

theorem shrinks_readBody : Shrinks readBody :=
  (shrinks_expect _ _).bind fun _ => (keeps_many _ _ _ _).bind fun _ =>
    (shrinks_advance.bind fun _ => .pure _).keeps

/-- Read one more template of a program. -/
def readTemplate (seen : List Template) : Reader Template := do
  let start := (← current).span.start
  let name ← name "a network name"
  let _ ← expect .openParen "'('"
  let params ← commaList .closeParen readParam shrinks_readParam []
  let _ ← expect .closeParen "')'"
  let span ← spanFrom start
  let body ← readBody
  -- A fault in the body comes before a name that is taken.
  if seen.any (fun t => t.name = name) then throw (.duplicateTemplate name span)
  else return ⟨name, params, body, span⟩

theorem shrinks_readTemplate (seen : List Template) : Shrinks (readTemplate seen) :=
  keeps_current.bind_shrinks fun _ => (shrinks_name _).bind fun _ =>
    ((shrinks_expect _ _).bind fun _ => (keeps_commaList _ _ _ _).bind fun _ =>
      ((shrinks_expect _ _).bind fun _ => (keeps_spanFrom _).bind fun _ =>
        (shrinks_readBody.bind fun _ => .ite (shrinks_throw _).keeps (.pure _)).keeps).keeps).keeps

/-- Read a whole program. -/
def Program.read : Reader Program := do
  let templates ← many (fun kind => kind ≠ .finish) readTemplate shrinks_readTemplate []
  if templates.isEmpty then fail .noDefinition (← current).span
  else return ⟨templates⟩

/-- The program of a list of lexemes. -/
def Program.ofLexemes (lexemes : List (Except SourceFault Token)) : Except NetworkError Program :=
  match Feed.ofLexemes lexemes with
  | .error e => .error e
  | .ok feed => (Program.read feed).map (·.1)

/-- The program of a source text. -/
def Program.parse (source : String) : Except NetworkError Program :=
  ofLexemes (scan source)

end CombinatorNet
