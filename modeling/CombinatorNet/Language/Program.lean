import CombinatorNet.Operator
import CombinatorNet.Source.Span
import CombinatorNet.Wire

/-!
# Programs of the network language

A program is a list of network templates. The body of a template lists statements, each of which
makes a combinator, colors wires, or puts an instance of a template in its place.

## Main definitions

* `Reserved` — the signal names with a meaning of their own
* `Operand`, `Expr`, `Statement`, `Template`, `Program` — the parts of a program
* `Program.find?`, `Program.entryPoint?` — a template by name, and the one to start from
* `Program.unplaced` — the program without its places in the source text

## Main results

* `Program.entryPoint?_eq_none_iff` — only a program without templates has no entry
-/

namespace CombinatorNet

/-- The signal names that stand for the present signals: for each of them on its own, for any one
of them, or for all of them. -/
inductive Reserved
  | each | any | all
deriving DecidableEq, Repr, Inhabited

/-- The meaning of a reserved name; `any` and `all` have a second spelling. -/
def Reserved.ofName? (name : String) : Option Reserved :=
  if name = "each" then some .each
  else if name = "any" ∨ name = "anything" then some .any
  else if name = "all" ∨ name = "everything" then some .all
  else none

/-- Whether a name is reserved. -/
def isReserved (name : String) : Bool := (Reserved.ofName? name).isSome

/-- An operand of an expression. -/
inductive Operand
  | signal (name : String)
  | literal (value : Int)
deriving DecidableEq, Repr, Inhabited

/-- The written form of an operand. -/
def Operand.text : Operand → String
  | signal name => name
  | literal value => toString value

/-- The expression of a binary statement: an operator between two operands, and the output. -/
structure Expr where
  left : Operand
  op : Operator
  right : Operand
  /-- The signal written, or a reserved name. -/
  output : String
  /-- Whether a decider writes 1 instead of the values it lets through. -/
  asOne : Bool
  span : Span
deriving DecidableEq, Repr, Inhabited

/-- When the values of a constant statement are put on its wires: always, while a button is held,
or for one tick after a button was pressed. -/
inductive Drive
  | constant | toggle | pulse
deriving DecidableEq, Repr, Inhabited

/-- A parameter of an instance with the name that is passed for it. -/
structure Binding where
  formal : String
  actual : String
  span : Span
deriving DecidableEq, Repr, Inhabited

/-- What a statement asks for. -/
inductive Request
  /-- Put values on wires. -/
  | constant (drive : Drive) (values : List (String × Int)) (outputs : List String)
  /-- Compute an expression from wires to wires. -/
  | binary (inputs : List String) (expr : Expr) (outputs : List String)
  /-- Show a signal. -/
  | display (inputs : List String) (signal : String)
  /-- Put an instance of a template in this place. -/
  | instantiate (name : String) (bindings : List Binding)
  /-- Give wires a color. -/
  | paint (color : Color) (wires : List String)
  /-- Show a heading. -/
  | label (text : String) (level : Nat)
deriving DecidableEq, Repr, Inhabited

/-- A request at its place in the source text. -/
structure Statement where
  request : Request
  span : Span
deriving DecidableEq, Repr, Inhabited

/-- A named network with parameters. -/
structure Template where
  name : String
  params : List String
  body : List Statement
  /-- The place of the name and the parameters. -/
  span : Span
deriving DecidableEq, Repr, Inhabited

/-- A list of network templates. -/
structure Program where
  templates : List Template
deriving DecidableEq, Repr, Inhabited

namespace Program

/-- The name of the template to start from, if there is one. -/
def mainName : String := "Main"

/-- The first template with a given name. -/
def find? (p : Program) (name : String) : Option Template :=
  p.templates.find? fun t => t.name = name

/-- The template to start from: the main one, or else the first one. -/
def entryPoint? (p : Program) : Option Template :=
  match p.find? mainName with
  | some t => some t
  | none => p.templates.head?

/-- Only a program without templates has no entry. -/
theorem entryPoint?_eq_none_iff {p : Program} : p.entryPoint? = none ↔ p.templates = [] := by
  rw [entryPoint?]
  constructor
  · intro h
    split at h
    · exact nomatch h
    · exact List.head?_eq_none_iff.1 h
  · intro h
    simp [find?, h]

end Program

/-! ### Places

Two programs are the same up to their places in the source text if they have the same form without
them. -/

/-- An expression without its place. -/
def Expr.unplaced (e : Expr) : Expr := { e with span := .nowhere }

/-- A binding without its place. -/
def Binding.unplaced (b : Binding) : Binding := { b with span := .nowhere }

/-- A request without the places in it. -/
def Request.unplaced : Request → Request
  | binary inputs expr outputs => binary inputs expr.unplaced outputs
  | instantiate name bindings => instantiate name (bindings.map Binding.unplaced)
  | r => r

/-- A statement without its places. -/
def Statement.unplaced (s : Statement) : Statement := ⟨s.request.unplaced, .nowhere⟩

/-- A template without its places. -/
def Template.unplaced (t : Template) : Template :=
  { t with body := t.body.map Statement.unplaced, span := .nowhere }

/-- A program without its places. -/
def Program.unplaced (p : Program) : Program := ⟨p.templates.map Template.unplaced⟩

end CombinatorNet
