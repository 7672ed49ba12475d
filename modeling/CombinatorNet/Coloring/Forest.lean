import CombinatorNet.NameMap
import CombinatorNet.Wire

/-!
# Color classes

Wires that must have the same color form a class, and each class has an opposite class of the wires
that must have the other color. The classes are the trees of a forest: a node points at its parent,
and a root knows how many wires its class has and which node stands for the opposite class. A wire
starts with a class of its own and an opposite class without wires, so it brings two nodes.

Looking up a root shortens the way to it for the next time. While a batch of constraints may still
be taken back, the forest keeps a log of the nodes it overwrites.

## Main definitions

* `ColorClasses` — the forest, the names of its wires and the log
* `ColorClasses.register` — the node of a wire, made if the wire is new
* `ColorClasses.root`, `ColorClasses.find` — the root of a node, without and with shortening
* `ColorClasses.join` — make two classes one
* `ColorClasses.oppose` — make two roots opposite to each other
* `ColorClasses.rollBack` — undo what the log says
-/

namespace CombinatorNet

/-- A node of the forest. The size and the opposite count at roots only. -/
structure ClassNode where
  /-- The next node on the way to the root; a root is its own parent. -/
  parent : Nat
  /-- The number of wires in the class. -/
  size : Nat
  /-- A node of the opposite class. -/
  opposite : Nat
deriving DecidableEq, Repr, Inhabited

/-- The classes of wires that must have the same color, each with its opposite class. -/
structure ColorClasses where
  /-- The nodes of the forest. -/
  nodes : Array ClassNode
  /-- The node of each wire. -/
  index : NameMap Nat
  /-- The wires in the order in which they were met. -/
  order : Array String
  /-- The nodes that were overwritten, as they were, latest first, while a log is kept. -/
  log : Option (List (Nat × ClassNode))

namespace ColorClasses

/-- The node at an index; a missing index is a root on its own. -/
def node (s : ColorClasses) (i : Nat) : ClassNode := s.nodes.getD i ⟨i, 0, i⟩

/-- Change the node at an index. -/
def modifyNode (s : ColorClasses) (i : Nat) (f : ClassNode → ClassNode) : ColorClasses :=
  { s with nodes := s.nodes.modify i f }

/-- Write the node at an index into the log, if one is kept. -/
def save (s : ColorClasses) (i : Nat) : ColorClasses :=
  match s.log with
  | none => s
  | some log => { s with log := some ((i, s.node i) :: log) }

/-- The node reached from `x` in at most the given number of steps. -/
def climb (s : ColorClasses) : Nat → Nat → Nat
  | 0, x => x
  | steps + 1, x => if (s.node x).parent = x then x else climb s steps (s.node x).parent

/-- The root of a node. A way to the root is shorter than the number of nodes. -/
def root (s : ColorClasses) (x : Nat) : Nat := s.climb s.nodes.size x

/-- Let the nodes on the way from `x` point at the root directly. -/
def shorten (s : ColorClasses) (root : Nat) : Nat → Nat → ColorClasses
  | 0, _ => s
  | steps + 1, x =>
    let parent := (s.node x).parent
    if parent = root then s
    else shorten ((s.save x).modifyNode x fun n => { n with parent := root }) root steps parent

/-- The root of a node, and the forest with the way to it shortened. -/
def find (s : ColorClasses) (x : Nat) : Nat × ColorClasses :=
  (s.root x, s.shorten (s.root x) s.nodes.size x)

/-- The node of a wire. A new wire gets a class of its own and an opposite class without wires. -/
def register (s : ColorClasses) (wire : String) : Nat × ColorClasses :=
  match s.index.get? wire with
  | some i => (i, s)
  | none =>
    -- The node behind the new one is the opposite class, which holds no wire yet.
    let i := s.nodes.size
    (i, { s with
          nodes := (s.nodes.push ⟨i, 1, i + 1⟩).push ⟨i + 1, 0, i⟩
          index := s.index.insert wire i
          order := s.order.push wire })

/-- Make the classes of two roots one, the smaller one below the larger one, and yield its root.
Opposite classes cannot be joined. -/
def join (s : ColorClasses) (a b : Nat) : Option Nat × ColorClasses :=
  if a = b then (some a, s)
  else
    let (other, s) := s.find (s.node a).opposite
    if other = b then (none, s)
    else
      -- The size counts wires, so a class without wires goes below any other.
      let (large, small) := if (s.node a).size < (s.node b).size then (b, a) else (a, b)
      let s := (s.save small).save large
      let size := (s.node small).size
      let s := s.modifyNode small fun n => { n with parent := large }
      (some large, s.modifyNode large fun n => { n with size := n.size + size })

/-- Make two roots opposite to each other. -/
def oppose (s : ColorClasses) (a b : Nat) : ColorClasses :=
  let s := (s.save a).save b
  (s.modifyNode a fun n => { n with opposite := b }).modifyNode b fun n => { n with opposite := a }

/-- The forest with a fresh log. -/
def startLog (s : ColorClasses) : ColorClasses := { s with log := some [] }

/-- The forest without a log. -/
def dropLog (s : ColorClasses) : ColorClasses := { s with log := none }

/-- The forest that had the given numbers of nodes and wires when the log was started. -/
def rollBack (s : ColorClasses) (nodes wires : Nat) : ColorClasses :=
  -- The latest entry comes first, so the oldest one of a node is what stays.
  let restored := (s.log.getD []).foldl
    (fun (all : Array ClassNode) e => if e.1 < nodes then all.setIfInBounds e.1 e.2 else all) s.nodes
  { nodes := restored.take nodes
    index := (s.order.toList.drop wires).foldl (fun m wire => m.erase wire) s.index
    order := s.order.take wires
    log := none }

end ColorClasses

end CombinatorNet
