import CombinatorNet.NameMap
import CombinatorNet.Wire

/-!
# Layouts on the grid

A layout fills the cells of a grid row by row with combinators, in their order, and with relay
poles. A wire runs from contact to contact in straight segments.

## Main definitions

* `GridPosition`, `GridPosition.ofSlot` — a cell, and the cell of the n-th slot
* `Cell`, `Contact`, `Segment`, `Pole` — what stands in a cell, where a segment ends, segments and
  poles
* `LayoutSettings` — the width of the grid and the number of poles that may take more wires
* `Layout`, `Layout.position?`, `Layout.rows`, `Layout.rowDistance?` — a finished layout
-/

namespace CombinatorNet

/-- A cell of the grid. -/
structure GridPosition where
  /-- The column, counted from 0. -/
  x : Nat
  /-- The row, counted from 0. -/
  y : Nat
deriving DecidableEq, Repr, Inhabited

namespace GridPosition

/-- The cell of the n-th slot in rows of the given width. -/
def ofSlot (slot width : Nat) : GridPosition := ⟨slot % width, slot / width⟩

/-- The coordinates in parentheses. -/
def text (p : GridPosition) : String := s!"({p.x}, {p.y})"

end GridPosition

/-- The name of the combinator with a given index. -/
def combinatorName (id : Nat) : String := s!"C{id}"

/-- The name of the pole with a given index. -/
def poleName (index : Nat) : String := s!"P{index}"

/-- What stands in a cell of the grid. -/
inductive Cell
  | combinator (id : Nat)
  | pole (index : Nat)
deriving DecidableEq, Repr, Inhabited

/-- The name of what stands in a cell. -/
def Cell.text : Cell → String
  | combinator id => combinatorName id
  | pole index => poleName index

/-- Where a segment ends: at a side of a combinator, or at a pole. -/
inductive Contact
  | combinator (id : Nat) (side : Side)
  | pole (index : Nat)
deriving DecidableEq, Repr, Inhabited

namespace Contact

/-- What stands in the cell of a contact. -/
def cell : Contact → Cell
  | combinator id _ => .combinator id
  | pole index => .pole index

/-- The written form of a contact. -/
def text : Contact → String
  | combinator id side => s!"{combinatorName id}.{side.text}"
  | pole index => poleName index

end Contact

/-- A relay, which only passes wires on. -/
structure Pole where
  index : Nat
  slot : Nat
  position : GridPosition
  /-- The wires on the pole, in the order in which they came. -/
  wires : List String
deriving DecidableEq, Repr, Inhabited

/-- How many wires a pole can hold. -/
def poleCapacity : Nat := 4

/-- How many wires of one color a pole can hold. -/
def poleColorCapacity : Nat := 2

/-- A direct connection between two contacts of a wire. -/
structure Segment where
  wire : String
  color : Color
  source : Contact
  target : Contact
deriving DecidableEq, Repr, Inhabited

/-- The written form of a segment. -/
def Segment.text (s : Segment) : String :=
  s!"{s.wire} [{s.color.text}]: {s.source.text} -> {s.target.text}"

/-- The settings of a layout. -/
structure LayoutSettings where
  /-- The width of the grid; a segment spans fewer rows than that. Nothing keeps the width so small
  that what the pass computes from it fits in words; `Site.Fits` says when it does. -/
  cliqueSize : Nat := 5
  /-- How many of the latest poles may take further wires. -/
  recentPoles : Nat := 5
deriving DecidableEq, Repr, Inhabited

namespace LayoutSettings

/-- The settings with another width; less than 2 would leave no room for relays. -/
def withCliqueSize (s : LayoutSettings) (n : Nat) : LayoutSettings := { s with cliqueSize := max n 2 }

/-- The settings with another number of poles, at least 1. -/
def withRecentPoles (s : LayoutSettings) (n : Nat) : LayoutSettings :=
  { s with recentPoles := max n 1 }

end LayoutSettings

/-- A finished layout. -/
structure Layout where
  cliqueSize : Nat
  /-- The colors of the wires. -/
  colors : NameMap Color
  /-- What stands in the cells, in the order of the slots. -/
  slots : Array Cell
  /-- The cell of each combinator. -/
  positions : Array GridPosition
  poles : Array Pole
  /-- The segments in the order in which they were drawn. -/
  segments : Array Segment
deriving DecidableEq

namespace Layout

/-- The cell of a combinator or pole. -/
def position? (l : Layout) : Cell → Option GridPosition
  | .combinator id => l.positions[id]?
  | .pole index => l.poles[index]?.map (·.position)

/-- A list cut into rows of the given width; with width 0 there is one cell to a row. -/
def rowsOf (width : Nat) (cells : List Cell) : List (List Cell) :=
  match cells with
  | [] => []
  | c :: rest => (c :: rest.take (width - 1)) :: rowsOf width (rest.drop (width - 1))
termination_by cells.length
decreasing_by simp only [List.length_drop, List.length_cons]; omega

/-- The rows of the grid from top to bottom. -/
def rows (l : Layout) : List (List Cell) := rowsOf l.cliqueSize l.slots.toList

/-- How many rows lie between the ends of a segment. -/
def rowDistance? (l : Layout) (s : Segment) : Option Nat :=
  match l.position? s.source.cell, l.position? s.target.cell with
  | some p, some q => some (max p.y q.y - min p.y q.y)
  | _, _ => none

end Layout

end CombinatorNet
