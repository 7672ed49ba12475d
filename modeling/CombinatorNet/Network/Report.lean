import CombinatorNet.Network.Basic
import CombinatorNet.Text.Json

/-!
# Reports on networks

The signals, displays and layout of a network, as a document or as lines of text.

## Main definitions

* `Network.snapshot` — the tick, the signals on the wires and the displays, as record fields
* `Layout.document` — a layout as a document
* `Network.stateLines`, `Layout.lines` — the same as lines of text
-/

namespace CombinatorNet

/-! ### Documents -/

/-- The signals of a set as a record. -/
def SignalSet.document (s : SignalSet) : Json := .ofEntries .number s.toList

/-- A cell position as a record. -/
def GridPosition.document (p : GridPosition) : Json :=
  .record [("x", .natural p.x), ("y", .natural p.y)]

/-- What stands in a cell, as a record. -/
def Cell.document : Cell → Json
  | combinator id => .record [("type", .text "combinator"), ("index", .natural id)]
  | pole index => .record [("type", .text "pole"), ("index", .natural index)]

/-- The name of a side in a document. -/
def Side.word : Side → String
  | input => "input"
  | output => "output"

/-- The end of a segment as a record. -/
def Contact.document : Contact → Json
  | combinator id side =>
    .record [("type", .text "combinator"), ("id", .natural id), ("side", .text side.word)]
  | pole index => .record [("type", .text "pole"), ("index", .natural index)]

/-- A pole as a record. -/
def Pole.document (p : Pole) : Json :=
  .record [("index", .natural p.index), ("slot", .natural p.slot),
    ("position", p.position.document), ("wires", .list (p.wires.map .text))]

/-- A segment as a record. -/
def Segment.document (s : Segment) : Json :=
  .record [("wire", .text s.wire), ("color", .text s.color.text), ("from", s.source.document),
    ("to", s.target.document)]

/-- A layout as a record. -/
def Layout.document (l : Layout) : Json :=
  .record [("clique_size", .natural l.cliqueSize),
    ("colors", .ofEntries (fun c => .text c.text) l.colors.toList),
    ("slots", .list (l.slots.toList.map Cell.document)),
    ("positions", .list (l.positions.toList.map GridPosition.document)),
    ("poles", .list (l.poles.toList.map Pole.document)),
    ("segments", .list (l.segments.toList.map Segment.document))]

/-- The reading of a display as a record. -/
def readingDocument (signal : String) (value : Int) : Json :=
  .record [("signal", .text signal), ("value", .number value), ("readout", .text (compact value))]

/-- The fields of a record of the tick, the signals on the wires and the displays. -/
def Network.snapshot (n : Network) : List (String × Json) :=
  [("tick", .natural n.tick),
   ("state", .ofEntries SignalSet.document n.state.toList),
   ("displays", .record (n.readings.map fun r => (toString r.1, readingDocument r.2.1 r.2.2)))]

/-! ### Lines -/

/-- A text with blanks behind it up to the given number of characters. -/
def padTo (width : Nat) (s : String) : String :=
  s ++ String.ofList (List.replicate (width - s.length) ' ')

/-- The most bytes that a name takes. -/
def widest (names : List String) : Nat := names.foldl (fun w name => max w name.utf8ByteSize) 0

/-- The lines of the tick, the signals on the wires and the displays. The names of the wires are
padded to the number of bytes of the longest one. -/
def Network.stateLines (n : Network) : List String :=
  s!"tick {n.tick}" ::
    ((n.state.toList.map fun e => s!"  {padTo (widest n.state.names) e.1}  {e.2.text}") ++
      n.nodes.zipIdx.filterMap fun e =>
        e.1.combinator.reading?.map fun r =>
          s!"  {combinatorName e.2} {e.1.combinator.text}: {compact r.2}")

/-- The lines of a layout: colors, grid, poles and segments. -/
def Layout.lines (l : Layout) : List String :=
  "colors" :: (l.colors.toList.map fun e => s!"  {e.1} {e.2.text}") ++
    "grid" :: (l.rows.map fun row => "  " ++ " ".intercalate (row.map Cell.text)) ++
    s!"poles {l.poles.size}" :: (l.poles.toList.map fun p =>
      s!"  {poleName p.index} at {p.position.text}: " ++ ", ".intercalate p.wires) ++
    s!"segments {l.segments.size}" :: (l.segments.toList.map fun s => s!"  {s.text}")

end CombinatorNet
