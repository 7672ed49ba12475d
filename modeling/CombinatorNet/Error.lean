import CombinatorNet.Source.Span

/-!
# Errors

What can be wrong with a source text, with an expression, with the colors of the wires, with the
layout and with a request to a network. Each cause has its wording in one place, and
`NetworkError.location` says which part of the source text is to blame.

## Main definitions

* `SyntaxFault`, `OperandFault`, `ColorFault`, `LayoutFault` — the causes of one kind each
* `SourceFault` — a syntax fault with its place
* `NetworkError` — all of them
* `NetworkError.message`, `NetworkError.location`
-/

namespace CombinatorNet

/-- A lexical or grammatical fault of a source text. -/
inductive SyntaxFault
  /-- A block comment has no end. -/
  | unterminatedComment
  /-- An exclamation mark stands without an equals sign. -/
  | loneExclamation
  /-- A digit run is followed by a letter or an underscore. -/
  | digitsBeforeName
  /-- No token starts with this character. -/
  | unexpectedCharacter (c : Char)
  /-- One thing was expected and another token, or the end of the text, was found. -/
  | expected (what : String) (found : Option String)
  /-- A parameter is declared twice. -/
  | duplicateParameter (name : String)
  /-- A constant statement gives a value to a reserved signal name. -/
  | reservedConstant (name : String)
  /-- No operator has this symbol. -/
  | unknownOperator (symbol : String)
  /-- The number between `then` and `as` is not 1. -/
  | deciderNumber
  /-- A number does not fit in 64 bits. -/
  | outOfRange (number : String)
  /-- The text defines no network. -/
  | noDefinition
  /-- A program has no network to start from. -/
  | noEntry
  /-- A statement list still contains an instance of a network. -/
  | notFlattened (name : String)
deriving DecidableEq, Repr

/-- The wording of a syntax fault. -/
def SyntaxFault.message : SyntaxFault → String
  | unterminatedComment => "unterminated block comment"
  | loneExclamation => "expected '=' after '!'"
  | digitsBeforeName => "identifiers cannot start with a digit"
  | unexpectedCharacter c => s!"unexpected character '{c}'"
  | expected what none => s!"expected {what}, found end of input"
  | expected what (some found) => s!"expected {what}, found '{found}'"
  | duplicateParameter name => s!"duplicate parameter '{name}'"
  | reservedConstant name => s!"'{name}' cannot be used as a constant signal"
  | unknownOperator symbol => s!"unknown operator '{symbol}'"
  | deciderNumber => "a decider can only output its input count or 1"
  | outOfRange number => s!"number {number} is out of range"
  | noDefinition => "expected a network definition such as 'Main() \x7b \x7d'"
  | noEntry => "no network definitions"
  | notFlattened name => s!"instantiation of '{name}' was not expanded"

/-- A syntax fault at its place in the text. -/
structure SourceFault where
  /-- What is wrong. -/
  fault : SyntaxFault
  /-- Where it is wrong. -/
  span : Span
deriving DecidableEq, Repr

/-- A reserved signal name where a combinator cannot take it. -/
inductive OperandFault
  /-- The right operand is a reserved name. -/
  | reservedRight (name : String)
  /-- An arithmetic combinator reads a reserved name other than `each`. -/
  | reservedArithmeticInput
  /-- The output is `each`, but the left operand is not. -/
  | eachOutput
  /-- An arithmetic combinator writes a reserved name other than `each`. -/
  | reservedArithmeticOutput (name : String)
  /-- A decider reads `each` and writes another reserved name. -/
  | eachDeciderOutput
  /-- A decider writes `any`. -/
  | anyDeciderOutput (name : String)
deriving DecidableEq, Repr

/-- The wording of an operand fault. -/
def OperandFault.message : OperandFault → String
  | reservedRight name => s!"'{name}' cannot be used as the right operand"
  | reservedArithmeticInput => "arithmetic combinators only accept 'each' as a special input"
  | eachOutput => "'each' output requires 'each' as the left operand"
  | reservedArithmeticOutput name => s!"'{name}' cannot be the output of an arithmetic combinator"
  | eachDeciderOutput => "a decider with 'each' input outputs 'each' or a signal"
  | anyDeciderOutput name => s!"'{name}' cannot be the output of a decider"

/-- Wires that cannot be colored. -/
inductive ColorFault
  /-- Two wires would need the same color and different colors. -/
  | conflict (first second : String)
  /-- A side carries more than two wires. -/
  | tooManyWires (count : Nat)
deriving DecidableEq, Repr

/-- The wording of a color fault. -/
def ColorFault.message : ColorFault → String
  | conflict first second =>
    s!"Wires {first} and {second} must be the same color and cannot be added to the same side of a combinator"
  | tooManyWires count => s!"A combinator side can carry at most 2 wires, got {count}"

/-- A network that cannot be laid out. -/
inductive LayoutFault
  /-- Relay poles did not settle. -/
  | tooComplex (iterations slot : Nat)
  /-- A wire to be drawn has no color. -/
  | uncolored (wire : String)
deriving DecidableEq, Repr

/-- The wording of a layout fault. -/
def LayoutFault.message : LayoutFault → String
  | tooComplex iterations slot =>
    s!"Network too complex to lay out: relays did not converge after {iterations} iterations at slot {slot}"
  | uncolored wire => s!"Wire '{wire}' has no color"

/-- Everything that can go wrong with a network. -/
inductive NetworkError
  /-- The source text is not well formed. -/
  | badSource (cause : SourceFault)
  /-- An expression uses a reserved name where it cannot stand. -/
  | invalidOperand (cause : OperandFault) (span : Span)
  /-- The wires cannot be colored. -/
  | coloring (cause : ColorFault) (span : Option Span)
  /-- An instance of a network that is not defined. -/
  | unknownTemplate (name : String) (span : Span)
  /-- A binding of a parameter that the network does not declare. -/
  | unknownParameter (template parameter : String) (span : Span)
  /-- A second binding of a parameter. -/
  | duplicateBinding (template parameter : String) (span : Span)
  /-- A second definition of a network. -/
  | duplicateTemplate (name : String) (span : Span)
  /-- Instances nested deeper than allowed. -/
  | tooDeep (name : String) (limit : Nat) (span : Span)
  /-- The network cannot be laid out. -/
  | layout (cause : LayoutFault)
  /-- No combinator has this index. -/
  | noCombinator (index : Nat)
  /-- The combinator with this index is not a button. -/
  | notButton (index : Nat)
deriving DecidableEq, Repr

namespace NetworkError

/-- The wording of an error. -/
def message : NetworkError → String
  | badSource cause => s!"Syntax error at {cause.span.text}: {cause.fault.message}"
  | invalidOperand cause span => s!"Invalid operand at {span.text}: {cause.message}"
  | coloring cause _ => cause.message
  | unknownTemplate name span => s!"Unknown network '{name}' at {span.text}"
  | unknownParameter template parameter span =>
    s!"Network '{template}' has no parameter '{parameter}' (at {span.text})"
  | duplicateBinding template parameter span =>
    s!"Parameter '{parameter}' of '{template}' is bound more than once (at {span.text})"
  | duplicateTemplate name span => s!"Network '{name}' is defined more than once (at {span.text})"
  | tooDeep name limit span =>
    s!"Instantiating '{name}' exceeds the maximum nesting depth of {limit} (at {span.text})"
  | layout cause => cause.message
  | noCombinator index => s!"No combinator with index {index}"
  | notButton index => s!"Combinator {index} is not a toggle or pulse button"

/-- The part of the source text that an error is about. -/
def location : NetworkError → Option Span
  | badSource cause => some cause.span
  | invalidOperand _ span => some span
  | coloring _ span => span
  | unknownTemplate _ span => some span
  | unknownParameter _ _ span => some span
  | duplicateBinding _ _ span => some span
  | duplicateTemplate _ span => some span
  | tooDeep _ _ span => some span
  | layout _ => none
  | noCombinator _ => none
  | notButton _ => none

end NetworkError

end CombinatorNet
