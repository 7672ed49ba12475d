import CombinatorNet.Coloring.Constraints
import CombinatorNet.Combinator.Basic
import CombinatorNet.Layout.Placement

/-!
# Networks

A network is a list of combinators that share wires by name, with the signals on the wires, the
color constraints of the wires, and the layout if it has been computed since the last change.

## Main definitions

* `Node`, `Network` — a combinator with its wires, and a network
* `Network.add`, `Network.paint` — append a combinator, give a wire a color
* `Network.step`, `Network.run` — simulate ticks
* `Network.setActive`, `Network.toggleActive` — switch a button
* `Network.colors`, `Network.finalize` — the colors and the layout
* `Network.ofStatements` — the network of a list of statements

## Main results

* `Network.tick_run`, `Network.run_add` — ticks are counted, and can be run in portions
* `Network.nodes_step` — a tick changes the state of each combinator on its own

`Network.add` and `Network.paint` yield the network also when they are refused.
-/

namespace CombinatorNet

/-- The signals on each wire that was written in a tick. -/
abbrev WireState := NameMap SignalSet

/-- A combinator of a network with its wires. -/
structure Node where
  combinator : Combinator
  /-- The wires on its input side. -/
  inputs : List String
  /-- The wires on its output side. -/
  outputs : List String
  /-- The statement it comes from. -/
  span : Span
  /-- What it wrote in the latest tick. -/
  lastOutput : SignalSet
deriving DecidableEq

namespace Node

/-- The connections of a combinator, inputs first. -/
def connections (n : Node) : List Connection :=
  n.inputs.map (⟨·, .input⟩) ++ n.outputs.map (⟨·, .output⟩)

/-- The sum of the input wires of a combinator; a wire that nothing writes to is empty. -/
def input (state : WireState) (n : Node) : SignalSet :=
  .mergeAll (n.inputs.filterMap state.get?)

/-- A combinator after a tick in which its wires had the given signals. -/
def step (state : WireState) (n : Node) : Node :=
  { n with
    combinator := n.combinator.next (n.input state)
    lastOutput := n.combinator.output (n.input state) }

@[simp] theorem inputs_step (state : WireState) (n : Node) : (n.step state).inputs = n.inputs := rfl

@[simp] theorem outputs_step (state : WireState) (n : Node) :
    (n.step state).outputs = n.outputs := rfl

@[simp] theorem connections_step (state : WireState) (n : Node) :
    (n.step state).connections = n.connections := rfl

/-- Add what a combinator wrote to its output wires. -/
def write (state : WireState) (n : Node) : WireState :=
  n.outputs.foldl
    (fun state wire => state.insert wire (((state.get? wire).getD ∅).merge n.lastOutput)) state

end Node

/-- A network of combinators. -/
structure Network where
  /-- The combinators in the order in which they were added. -/
  nodes : List Node
  /-- The signals after the latest tick. -/
  state : WireState
  /-- How many ticks were run. -/
  tick : Nat
  /-- The color constraints of the wires. -/
  coloring : ColorClasses
  settings : LayoutSettings
  /-- The layout of the network as it is now, if it was computed. -/
  layout : Option Layout

namespace Network

/-- The network without combinators. -/
def empty (settings : LayoutSettings) : Network :=
  { nodes := [], state := ∅, tick := 0, coloring := .start, settings, layout := none }

/-- A network and the answer to a request that may be refused. -/
abbrev Reply (α : Type) := Except NetworkError α × Network

/-! ### Building -/

/-- Append a combinator and yield its index. If its wires cannot be colored, the constraints of all
its wires are taken back. -/
def add (n : Network) (c : Combinator) (inputs outputs : List String) (span : Span) : Reply Nat :=
  match n.coloring.attachAll [inputs, outputs] with
  | (.error fault, coloring) => (.error (.coloring fault (some span)), { n with coloring })
  | (.ok (), coloring) =>
    (.ok n.nodes.length,
      { n with
        nodes := n.nodes ++ [⟨c, inputs, outputs, span, ∅⟩]
        coloring
        layout := none })

/-- Give a wire a color. -/
def paint (n : Network) (wire : String) (color : Color) (span : Span) : Reply Unit :=
  match n.coloring.paint wire color with
  | (.error fault, coloring) => (.error (.coloring fault (some span)), { n with coloring })
  | (.ok (), coloring) => (.ok (), { n with coloring, layout := none })

/-- Append a combinator or stop. -/
def append (n : Network) (c : Combinator) (inputs outputs : List String) (span : Span) :
    Except NetworkError Network :=
  match n.add c inputs outputs span with
  | (.ok _, n) => .ok n
  | (.error e, _) => .error e

/-- Give several wires a color or stop. -/
def paintEach (n : Network) (color : Color) (span : Span) :
    List String → Except NetworkError Network
  | [] => .ok n
  | wire :: wires =>
    match n.paint wire color span with
    | (.ok (), n) => n.paintEach color span wires
    | (.error e, _) => .error e

/-- Do what a statement asks for. -/
def perform (n : Network) (s : Statement) : Except NetworkError Network :=
  match s.request with
  | .constant drive values outputs => n.append (.ofValues drive values) [] outputs s.span
  | .binary inputs expr outputs =>
    match Combinator.ofExpr expr with
    | .ok c => n.append c inputs outputs s.span
    | .error fault => .error (.invalidOperand fault expr.span)
  | .display inputs signal => n.append (.ofSignal signal) inputs [] s.span
  | .label text level => n.append (.ofHeading text level) [] [] s.span
  | .paint color wires => n.paintEach color s.span wires
  | .instantiate name _ => .error (.badSource ⟨.notFlattened name, s.span⟩)

/-- Do what several statements ask for, one after the other. -/
def performEach (n : Network) : List Statement → Except NetworkError Network
  | [] => .ok n
  | s :: rest => do (← n.perform s).performEach rest

/-- The network of a list of statements. -/
def ofStatements (statements : List Statement) (settings : LayoutSettings) :
    Except NetworkError Network :=
  (empty settings).performEach statements

/-! ### Simulating -/

/-- One tick: every combinator reads the wires as they were, and what all of them write makes up the
wires as they are then. -/
def step (n : Network) : Network :=
  let nodes := n.nodes.map (Node.step n.state)
  -- Nothing stays on a wire from the tick before.
  { n with nodes, state := nodes.foldl Node.write ∅, tick := n.tick + 1 }

@[simp] theorem tick_step (n : Network) : n.step.tick = n.tick + 1 := rfl

@[simp] theorem coloring_step (n : Network) : n.step.coloring = n.coloring := rfl

@[simp] theorem settings_step (n : Network) : n.step.settings = n.settings := rfl

@[simp] theorem layout_step (n : Network) : n.step.layout = n.layout := rfl

/-- A tick changes the state of each combinator on its own. -/
@[simp] theorem nodes_step (n : Network) : n.step.nodes = n.nodes.map (Node.step n.state) := rfl

/-- A number of ticks. -/
def run (n : Network) : Nat → Network
  | 0 => n
  | ticks + 1 => n.step.run ticks

@[simp] theorem run_zero (n : Network) : n.run 0 = n := rfl

@[simp] theorem run_succ (n : Network) (ticks : Nat) : n.run (ticks + 1) = n.step.run ticks := rfl

/-- Ticks can be run in portions. -/
theorem run_add (n : Network) (k l : Nat) : n.run (k + l) = (n.run k).run l := by
  induction k generalizing n with
  | zero => rw [Nat.zero_add, run_zero]
  | succ k ih => rw [Nat.succ_add, run_succ, run_succ, ih]

@[simp] theorem tick_run (n : Network) (ticks : Nat) : (n.run ticks).tick = n.tick + ticks := by
  induction ticks generalizing n with
  | zero => rfl
  | succ ticks ih => rw [run_succ, ih, tick_step]; omega

/-- The signals on a wire; none if nothing was written to it. -/
def wire (n : Network) (name : String) : SignalSet := (n.state.get? name).getD ∅

/-! ### Buttons -/

/-- Switch a button on or off. -/
def setActive (n : Network) (index : Nat) (active : Bool) : Except NetworkError Network :=
  match n.nodes[index]? with
  | none => .error (.noCombinator index)
  | some node =>
    if node.combinator.active?.isSome then
      .ok { n with
            nodes := n.nodes.set index { node with combinator := node.combinator.setActive active } }
    else .error (.notButton index)

/-- Switch a button to its other state, and yield that state. -/
def toggleActive (n : Network) (index : Nat) : Except NetworkError (Bool × Network) :=
  match n.nodes[index]? with
  | none => .error (.noCombinator index)
  | some node =>
    match node.combinator.active? with
    | none => .error (.notButton index)
    | some active => do return (!active, ← n.setActive index !active)

/-! ### Displays -/

/-- The signal and value that a combinator shows, if it is a display. -/
def reading? (n : Network) (index : Nat) : Option (String × Int) :=
  n.nodes[index]?.bind fun node => node.combinator.reading?

/-- The displays with their indices, signals and values. -/
def readings (n : Network) : List (Nat × String × Int) :=
  n.nodes.zipIdx.filterMap fun e => e.1.combinator.reading?.map (e.2, ·)

/-! ### Colors and layout -/

/-- The colors of the wires. -/
def colors (n : Network) : NameMap Color := n.coloring.colors

/-- What the layout of a network is made of, with given colors. -/
def site (n : Network) (settings : LayoutSettings) (colors : NameMap Color) : Site :=
  .ofConnections settings (n.nodes.map Node.connections) colors

/-- The layout of a network, which is computed anew only after a change. -/
def finalize (n : Network) : Except NetworkError (Layout × Network) :=
  match n.layout with
  | some layout => .ok (layout, n)
  | none =>
    match (n.site n.settings n.colors).layout with
    | .ok layout => .ok (layout, { n with layout := some layout })
    | .error fault => .error (.layout fault)

end Network

end CombinatorNet
