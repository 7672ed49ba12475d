import CombinatorNet.Error
import CombinatorNet.Language.Program
import CombinatorNet.Operator
import CombinatorNet.Signal.SignalSet

/-!
# Combinators

A combinator reads the signals on its input wires and writes signals to its output wires. Constants
and buttons read nothing, displays and labels write nothing.

## Main definitions

* `Value`, `Condition`, `Target`, `Combinator` — the kinds of combinators and their settings
* `Combinator.ofValues`, `Combinator.ofExpr`, `Combinator.ofSignal`, `Combinator.ofHeading` — the
  combinator that a statement asks for
* `Combinator.output`, `Combinator.next` — what it writes in a tick, and its state afterwards
* `Combinator.active?`, `Combinator.setActive` — the switch of a button
* `Combinator.kind`, `Combinator.text` — its name and its written form
-/

namespace CombinatorNet

/-- An operand of a combinator: a signal to be read, or a constant. -/
inductive Value
  | signal (name : String)
  | constant (value : Int)
deriving DecidableEq, Repr, Inhabited

namespace Value

/-- The operand that a written operand stands for; a literal saturates. -/
def ofOperand : Operand → Value
  | .signal name => signal name
  | .literal v => constant (saturate v)

/-- The value of an operand on a given input. -/
def resolve (input : SignalSet) : Value → Int
  | signal name => input.get name
  | constant v => v

/-- The written form of an operand. -/
def text : Value → String
  | signal name => name
  | constant v => toString v

end Value

/-- The left side of a decider with one outcome: a value, any present signal or all of them. -/
inductive Condition
  | value (v : Value)
  | any
  | all
deriving DecidableEq, Repr, Inhabited

namespace Condition

/-- Whether a condition holds for an operator and its right operand; all of no signals do. -/
def holds (op : Operator) (right : Int) (input : SignalSet) : Condition → Bool
  | value v => op.test (v.resolve input) right
  | any => input.toList.any fun e => op.test e.2 right
  | all => input.toList.all fun e => op.test e.2 right

/-- The written form of the left side. -/
def text : Condition → String
  | value v => v.text
  | any => "any"
  | all => "all"

end Condition

/-- What a decider with one outcome writes: one signal, or its whole input. -/
inductive Target
  | signal (name : String)
  | all
deriving DecidableEq, Repr, Inhabited

/-- The written form of a target. -/
def Target.text : Target → String
  | signal name => name
  | all => "all"

/-- A combinator with its settings and its state. -/
inductive Combinator
  /-- Writes the same signals in every tick. -/
  | constant (values : SignalSet)
  /-- Writes its signals while it is on. -/
  | toggle (values : SignalSet) (active : Bool)
  /-- Writes its signals for one tick after it was switched on. -/
  | pulse (values : SignalSet) (active : Bool)
  /-- Writes the value of an operator on two operands. -/
  | arithmetic (op : Operator) (left right : Value) (output : String)
  /-- Writes the sum of the values of an operator on each present signal. -/
  | arithmeticSum (op : Operator) (right : Value) (output : String)
  /-- Writes the value of an operator on each present signal under its own name. -/
  | arithmeticEach (op : Operator) (right : Value)
  /-- Writes a signal or the whole input, each with its value or with 1, if a condition holds. -/
  | decider (op : Operator) (left : Condition) (right : Value) (target : Target) (asOne : Bool)
  /-- Writes the sum, or the number, of the present signals that pass a test. -/
  | deciderSum (op : Operator) (right : Value) (output : String) (asOne : Bool)
  /-- Writes the present signals that pass a test, each with its value or with 1. -/
  | deciderEach (op : Operator) (right : Value) (asOne : Bool)
  /-- Shows the value of a signal. -/
  | display (signal : String) (value : Int)
  /-- Shows a heading. -/
  | label (text : String) (level : Nat)
deriving DecidableEq

namespace Combinator

instance : Inhabited Combinator := ⟨constant ∅⟩

/-! ### Building -/

/-- The combinator of a constant statement; a button is off at first. -/
def ofValues (drive : Drive) (values : List (String × Int)) : Combinator :=
  match drive with
  | .constant => constant (.collect values)
  | .toggle => toggle (.collect values) false
  | .pulse => pulse (.collect values) false

/-- The display of a signal, which shows 0 at first. -/
def ofSignal (signal : String) : Combinator := display signal 0

/-- The label of a heading; its level lies between 1 and 3. -/
def ofHeading (text : String) (level : Nat) : Combinator := label text (max 1 (min level 3))

/-- The reserved name that an operand is. -/
def reserved? : Operand → Option Reserved
  | .signal name => Reserved.ofName? name
  | .literal _ => none

/-- The arithmetic combinator of an expression. -/
def ofArithmetic (e : Expr) : Except OperandFault Combinator :=
  let right := Value.ofOperand e.right
  match reserved? e.left, Reserved.ofName? e.output with
  | some .each, some .each => .ok (arithmeticEach e.op right)
  | some .each, none => .ok (arithmeticSum e.op right e.output)
  | none, none => .ok (arithmetic e.op (.ofOperand e.left) right e.output)
  | some .any, _ | some .all, _ => .error .reservedArithmeticInput
  | _, some .each => .error .eachOutput
  | _, some _ => .error (.reservedArithmeticOutput e.output)

/-- The decider of an expression. -/
def ofComparison (e : Expr) : Except OperandFault Combinator :=
  let right := Value.ofOperand e.right
  match reserved? e.left, Reserved.ofName? e.output with
  | some .each, some .each => .ok (deciderEach e.op right e.asOne)
  | some .each, none => .ok (deciderSum e.op right e.output e.asOne)
  | some .each, some _ => .error .eachDeciderOutput
  | _, some .each => .error .eachOutput
  | _, some .any => .error (.anyDeciderOutput e.output)
  | left, output =>
    -- Only `any` and `all` are left as reserved names, and only `all` as a reserved output.
    let condition := match left with
      | some .any => Condition.any
      | some .all => .all
      | _ => .value (.ofOperand e.left)
    let target := match output with
      | some _ => Target.all
      | none => .signal e.output
    .ok (decider e.op condition right target e.asOne)

/-- The combinator of an expression, which the reserved names in it decide. -/
def ofExpr (e : Expr) : Except OperandFault Combinator :=
  match e.right with
  | .signal name =>
    if isReserved name then .error (.reservedRight name)
    else if e.op.isComparison then ofComparison e else ofArithmetic e
  | .literal _ => if e.op.isComparison then ofComparison e else ofArithmetic e

/-! ### Ticks -/

/-- What a combinator writes in a tick, given the sum of its input wires. -/
def output (input : SignalSet) : Combinator → SignalSet
  | constant values => values
  | toggle values active | pulse values active => if active then values else ∅
  | arithmetic op left right output =>
    .single output (op.apply (left.resolve input) (right.resolve input))
  | arithmeticSum op right output =>
    .single output (total (input.toList.map fun e => op.apply e.2 (right.resolve input)))
  | arithmeticEach op right => input.filterMap fun v => some (op.apply v (right.resolve input))
  | decider op left right target asOne =>
    if left.holds op (right.resolve input) input then
      match target with
      | .all => if asOne then input.filterMap fun _ => some 1 else input
      | .signal name => .single name (if asOne then 1 else input.get name)
    else ∅
  | deciderSum op right output asOne =>
    .single output
      (total ((input.toList.filter fun e => op.test e.2 (right.resolve input)).map fun e =>
        if asOne then 1 else e.2))
  | deciderEach op right asOne =>
    input.filterMap fun v =>
      if op.test v (right.resolve input) then some (if asOne then 1 else v) else none
  | display _ _ | label _ _ => ∅

/-- A combinator after a tick: a pulse is off and a display shows its signal. -/
def next (input : SignalSet) : Combinator → Combinator
  | pulse values _ => pulse values false
  | display signal _ => display signal (input.get signal)
  | c => c

/-- Whether a button is on; nothing for any other combinator. -/
def active? : Combinator → Option Bool
  | toggle _ active | pulse _ active => some active
  | _ => none

/-- A combinator with its switch set, if it is a button. -/
def setActive (active : Bool) : Combinator → Combinator
  | toggle values _ => toggle values active
  | pulse values _ => pulse values active
  | c => c

/-! ### Text -/

/-- The name of the sort of a combinator. -/
def kind : Combinator → String
  | constant _ => "constant"
  | toggle _ _ => "toggle"
  | pulse _ _ => "pulse"
  | arithmetic _ _ _ _ | arithmeticSum _ _ _ | arithmeticEach _ _ => "arithmetic"
  | decider _ _ _ _ _ | deciderSum _ _ _ _ | deciderEach _ _ _ => "decider"
  | display _ _ => "display"
  | label _ _ => "label"

/-- The words between the test of a decider and its output. -/
def thenText (asOne : Bool) : String := if asOne then "then 1 as" else "then"

/-- The written form of a combinator. -/
def text : Combinator → String
  | constant values => values.text
  | toggle values _ => "toggle " ++ values.text
  | pulse values _ => "pulse " ++ values.text
  | arithmetic op left right output => s!"{left.text} {op.symbol} {right.text} as {output}"
  | arithmeticSum op right output => s!"each {op.symbol} {right.text} as {output}"
  | arithmeticEach op right => s!"each {op.symbol} {right.text} as each"
  | decider op left right target asOne =>
    s!"{left.text} {op.symbol} {right.text} {thenText asOne} {target.text}"
  | deciderSum op right output asOne =>
    s!"each {op.symbol} {right.text} {thenText asOne} {output}"
  | deciderEach op right asOne => s!"each {op.symbol} {right.text} {thenText asOne} each"
  | display signal _ => "display " ++ signal
  | label text level => String.ofList (List.replicate level '#') ++ " " ++ text

/-- The reading of a display: its signal and its value. -/
def reading? : Combinator → Option (String × Int)
  | display signal value => some (signal, value)
  | _ => none

end Combinator

end CombinatorNet
