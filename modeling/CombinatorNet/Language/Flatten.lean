import CombinatorNet.Error
import CombinatorNet.Language.Program
import CombinatorNet.NameMap

/-!
# Flattening programs

A program is flattened by putting the body of its template in place of each instance, starting from
the entry. The instances of one template are counted from 1 in the order in which they are met. A
parameter that an instance binds stands for the name that is passed; any other wire `w` of the
`n`-th instance of `T` becomes `T.n.w`. Signals other than parameters keep their names, and so do
the reserved names.

## Main definitions

* `Scope` — what the names in one instance stand for
* `Template.bind` — the bindings of an instance, checked against the parameters
* `Program.flatten` — the statements of a program without instances

## Main results

* `Scope.wire_root`, `Scope.signal_root` — at the top level every name stands for itself
-/

namespace CombinatorNet

/-- What a parameter stands for, as a wire and as a signal of the whole network. -/
structure Bound where
  wire : String
  signal : String
deriving DecidableEq, Repr, Inhabited

/-- What the names in one instance of a template stand for. -/
structure Scope where
  /-- The name of the instance, or nothing at the top level. -/
  owner : Option String
  /-- The parameters that are bound. -/
  bindings : NameMap Bound

namespace Scope

/-- The scope of the top level. -/
def root : Scope := ⟨none, ∅⟩

/-- The wire of the network that a wire name stands for. -/
def wire (s : Scope) (name : String) : String :=
  match s.bindings.get? name, s.owner with
  | some bound, _ => bound.wire
  | none, some owner => owner ++ "." ++ name
  | none, none => name

/-- The signal that a signal name stands for. -/
def signal (s : Scope) (name : String) : String :=
  if isReserved name then name
  else
    match s.bindings.get? name with
    | some bound => bound.signal
    | none => name

/-- The operand that an operand stands for. -/
def operand (s : Scope) : Operand → Operand
  | .signal name => .signal (s.signal name)
  | .literal v => .literal v

/-- The expression that an expression stands for. -/
def expr (s : Scope) (e : Expr) : Expr :=
  { e with left := s.operand e.left, right := s.operand e.right, output := s.signal e.output }

/-- The request that a request other than an instance stands for. -/
def request (s : Scope) : Request → Request
  | .constant drive values outputs =>
    .constant drive (values.map fun e => (s.signal e.1, e.2)) (outputs.map s.wire)
  | .binary inputs expr outputs => .binary (inputs.map s.wire) (s.expr expr) (outputs.map s.wire)
  | .display inputs signal => .display (inputs.map s.wire) (s.signal signal)
  | .instantiate name bindings => .instantiate name bindings
  | .paint color wires => .paint color (wires.map s.wire)
  | .label text level => .label text level

@[simp] theorem wire_root (name : String) : root.wire name = name := rfl

@[simp] theorem signal_root (name : String) : root.signal name = name := by
  rw [signal]; split <;> rfl

end Scope

/-- What the bindings of an instance make of the parameters, each passed name being looked up in
the scope of the caller. -/
def Template.bind (t : Template) (caller : Scope) (bindings : List Binding) (bound : NameMap Bound) :
    Except NetworkError (NameMap Bound) :=
  match bindings with
  | [] => .ok bound
  | b :: rest =>
    if b.formal ∉ t.params then .error (.unknownParameter t.name b.formal b.span)
    else if bound.contains b.formal then .error (.duplicateBinding t.name b.formal b.span)
    else
      t.bind caller rest (bound.insert b.formal ⟨caller.wire b.actual, caller.signal b.actual⟩)

/-- How many instances each template has had so far. -/
abbrev InstanceCounts := NameMap Nat

/-- Puts the body of a template in place of an instance. -/
abbrev Instantiation :=
  String → List Binding → Span → Scope → InstanceCounts →
    Except NetworkError (List Statement × InstanceCounts)

/-- Flatten a body in its scope, with a given way to put an instance in place. -/
def flattenBody (enter : Instantiation) (scope : Scope) :
    List Statement → InstanceCounts → Except NetworkError (List Statement × InstanceCounts)
  | [], counts => .ok ([], counts)
  | s :: rest, counts =>
    match s.request with
    | .instantiate name bindings => do
      let (inner, counts) ← enter name bindings s.span scope counts
      let (others, counts) ← flattenBody enter scope rest counts
      return (inner ++ others, counts)
    | request => do
      let (others, counts) ← flattenBody enter scope rest counts
      return (⟨scope.request request, s.span⟩ :: others, counts)

namespace Program

/-- Put an instance in place where `room` more levels of instances are allowed, out of `limit`. -/
def instantiate (p : Program) (limit : Nat) : Nat → Instantiation
  | room, name, bindings, span, caller, counts =>
    match p.find? name with
    | none => .error (.unknownTemplate name span)
    | some t =>
      -- The nesting is checked before the bindings, and the bindings before the instance counts.
      match room with
      | 0 => .error (.tooDeep name limit span)
      | room + 1 => do
        let bound ← t.bind caller bindings ∅
        let n := (counts.get? name).getD 0 + 1
        flattenBody (instantiate p limit room) ⟨some (name ++ "." ++ toString n), bound⟩ t.body
          (counts.insert name n)

/-- The statements of a program without instances, which may be nested up to `limit` levels deep. -/
def flatten (p : Program) (limit : Nat) : Except NetworkError (List Statement) :=
  match p.entryPoint? with
  | none => .error (.badSource ⟨.noEntry, .nowhere⟩)
  | some entry => (flattenBody (p.instantiate limit limit) .root entry.body ∅).map (·.1)

end Program

end CombinatorNet
