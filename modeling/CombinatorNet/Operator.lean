import CombinatorNet.Signal.Value

/-!
# Operators

The ten arithmetic operators and six comparisons of combinators, with their symbols and their
values on signals.

## Main definitions

* `Operator.symbol`, `Operator.ofSymbol?` — the written form and its reading
* `Operator.value` — the exact integer that an operator denotes
* `Operator.apply` — the saturated value
* `Operator.test` — the operator as a condition

## Main results

* `Operator.ofSymbol?_symbol` — a symbol is read back as its operator
* `Operator.inRange_apply` — an operator yields a signal value
-/

namespace CombinatorNet

/-- An operator of an arithmetic or decider combinator. -/
inductive Operator
  | add | sub | mul | div | rem | and | or | xor | shr | shl
  | lt | le | eq | ne | ge | gt
deriving DecidableEq, Repr, Inhabited

namespace Operator

/-- The written form of an operator. -/
def symbol : Operator → String
  | add => "+"
  | sub => "-"
  | mul => "*"
  | div => "/"
  | rem => "%"
  | and => "&"
  | or => "|"
  | xor => "^"
  | shr => ">>"
  | shl => "<<"
  | lt => "<"
  | le => "<="
  | eq => "="
  | ne => "!="
  | ge => ">="
  | gt => ">"

/-- Every operator, arithmetic ones first. -/
def all : List Operator :=
  [add, sub, mul, div, rem, and, or, xor, shr, shl, lt, le, eq, ne, ge, gt]

/-- The operator with a given written form. -/
def ofSymbol? (s : String) : Option Operator := all.find? fun op => op.symbol == s

/-- A symbol is read back as its operator. -/
@[simp] theorem ofSymbol?_symbol (op : Operator) : ofSymbol? op.symbol = some op := by
  cases op <;> decide

theorem symbol_of_ofSymbol? {s : String} {op : Operator} (h : ofSymbol? s = some op) :
    op.symbol = s := by
  simpa using List.find?_some h

/-- Whether an operator compares its operands, so that it belongs to deciders. -/
def isComparison : Operator → Bool
  | lt | le | eq | ne | ge | gt => true
  | _ => false

/-- The shift distance of an operand: its lowest five bits. -/
def shiftDistance (b : Int) : Nat := (b % 32).toNat

/-- A bitwise operation on the two's complement forms of two operands. -/
def bitwise (f : BitVec 64 → BitVec 64 → BitVec 64) (a b : Int) : Int :=
  (f (BitVec.ofInt 64 a) (BitVec.ofInt 64 b)).toInt

/-- The integer that an operator denotes. Division rounds down and a remainder has the sign of the
dividend; both are 0 for the divisor 0. A comparison is 1 if it holds and else 0. -/
def value : Operator → Int → Int → Int
  | add, a, b => a + b
  | sub, a, b => a - b
  | mul, a, b => a * b
  | div, a, b => a.fdiv b
  | rem, a, b => if b = 0 then 0 else a.tmod b
  | and, a, b => bitwise (· &&& ·) a b
  | or, a, b => bitwise (· ||| ·) a b
  | xor, a, b => bitwise (· ^^^ ·) a b
  | shr, a, b => a >>> shiftDistance b
  | shl, a, b => a <<< shiftDistance b
  | lt, a, b => if a < b then 1 else 0
  | le, a, b => if a ≤ b then 1 else 0
  | eq, a, b => if a = b then 1 else 0
  | ne, a, b => if a ≠ b then 1 else 0
  | ge, a, b => if b ≤ a then 1 else 0
  | gt, a, b => if b < a then 1 else 0

/-- The saturated value of an operator. -/
def apply (op : Operator) (a b : Int) : Int := saturate (op.value a b)

/-- An operator as a condition: a comparison as it stands, an arithmetic operator if its value is
not 0. -/
def test (op : Operator) (a b : Int) : Bool :=
  match op with
  | lt => a < b
  | le => a ≤ b
  | eq => a = b
  | ne => a ≠ b
  | ge => b ≤ a
  | gt => b < a
  | op => op.apply a b != 0

/-- An operator yields a signal value, whatever its operands are. -/
theorem inRange_apply (op : Operator) (a b : Int) : InRange (op.apply a b) :=
  inRange_saturate _

/-- An operator holds as a condition exactly if its value is not 0. -/
theorem test_eq_apply_ne_zero (op : Operator) (a b : Int) : op.test a b = (op.apply a b != 0) := by
  cases op <;> simp only [test, apply, value] <;> split <;> simp_all

end Operator

end CombinatorNet
