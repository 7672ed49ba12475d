import CombinatorNet.Coloring.Forest
import CombinatorNet.Error

/-!
# Color constraints

Constraints on the colors of wires are taken one at a time, and refused as soon as no coloring can
satisfy all of them. The two channels are wires of the forest too, so that giving a wire a color is
demanding that it differs from the other channel.

## Main definitions

* `ColorClasses.start` — no constraint but that the channels differ
* `ColorClasses.differ`, `ColorClasses.agree`, `ColorClasses.paint` — a constraint on two wires, or
  on one
* `ColorClasses.attach`, `ColorClasses.attachAll` — the wires of one side of a combinator, or of
  several sides at once
* `ColorClasses.colors` — the coloring

Every operation yields the forest also when it is refused: the wires that were named stay known,
except that `attachAll` takes everything back.
-/

namespace CombinatorNet

/-- The wire that stands for the red channel. -/
def redChannel : String := ".red"

/-- The wire that stands for the green channel. -/
def greenChannel : String := ".green"

/-- The wire that stands for a channel. -/
def Color.channel : Color → String
  | red => redChannel
  | green => greenChannel

namespace ColorClasses

/-- The forest without nodes. -/
def empty : ColorClasses := ⟨#[], ∅, #[], none⟩

/-- The forest of the two channels, which differ. -/
def start : ColorClasses :=
  let (red, s) := empty.register redChannel
  let (green, s) := s.register greenChannel
  s.oppose red green

/-- Demand that two wires have different colors. -/
def differ (s : ColorClasses) (a b : String) : Except ColorFault Unit × ColorClasses :=
  let (ia, s) := s.register a
  let (ib, s) := s.register b
  let (ra, s) := s.find ia
  let (rb, s) := s.find ib
  if ra = rb then (.error (.conflict a b), s)
  else
    -- Each wire now has the color that the other one cannot have.
    let (oa, s) := s.find (s.node ra).opposite
    let (ob, s) := s.find (s.node rb).opposite
    match s.join ra ob with
    | (none, s) => (.error (.conflict a b), s)
    | (some na, s) =>
      match s.join rb oa with
      | (none, s) => (.error (.conflict a b), s)
      | (some nb, s) => (.ok (), s.oppose na nb)

/-- Demand that two wires have the same color. -/
def agree (s : ColorClasses) (a b : String) : Except ColorFault Unit × ColorClasses :=
  let (ia, s) := s.register a
  let (ib, s) := s.register b
  let (ra, s) := s.find ia
  let (rb, s) := s.find ib
  if ra = rb then (.ok (), s)
  else
    -- What differs from one wire now differs from the other one too.
    let (oa, s) := s.find (s.node ra).opposite
    let (ob, s) := s.find (s.node rb).opposite
    match s.join ra rb with
    | (none, s) => (.error (.conflict a b), s)
    | (some same, s) =>
      match s.join oa ob with
      | (none, s) => (.error (.conflict a b), s)
      | (some opposite, s) => (.ok (), s.oppose same opposite)

/-- Demand that a wire has a color. -/
def paint (s : ColorClasses) (wire : String) (color : Color) :
    Except ColorFault Unit × ColorClasses :=
  s.differ wire color.other.channel

/-- Attach wires to one side of a combinator: at most two, which differ. -/
def attach (s : ColorClasses) : List String → Except ColorFault Unit × ColorClasses
  | [] => (.ok (), s)
  | [wire] => (.ok (), (s.register wire).2)
  | [a, b] => s.differ a b
  | wires => (.error (.tooManyWires wires.length), s)

/-- Attach wires to sides one after the other, up to the first that is refused. -/
def attachEach (s : ColorClasses) : List (List String) → Except ColorFault Unit × ColorClasses
  | [] => (.ok (), s)
  | side :: sides =>
    match s.attach side with
    | (.error e, s) => (.error e, s)
    | (.ok (), s) => s.attachEach sides

/-- Attach wires to several sides, or to none of them. -/
def attachAll (s : ColorClasses) (sides : List (List String)) :
    Except ColorFault Unit × ColorClasses :=
  match s.startLog.attachEach sides with
  | (.ok (), s') => (.ok (), s'.dropLog)
  | (.error e, s') => (.error e, s'.rollBack s.nodes.size s.order.size)

/-- The wires in the order in which they were met, each with its color. A class that no earlier
wire decides is red. -/
def colorList (s : ColorClasses) : List (String × Color) :=
  go [] s.order.toList
where
  /-- Color the wires of a list, given the colors of classes decided before. -/
  go (decided : List (Nat × Color)) : List String → List (String × Color)
    | [] => []
    | wire :: wires =>
      let root := s.root ((s.index.get? wire).getD 0)
      match decided.lookup root with
      | some color => (wire, color) :: go decided wires
      | none =>
        let opposite := s.root (s.node root).opposite
        (wire, .red) :: go ((opposite, .green) :: (root, .red) :: decided) wires

/-- The color of every wire; the channels are left out. -/
def colors (s : ColorClasses) : NameMap Color :=
  .ofList (s.colorList.filter fun e => e.1 ≠ redChannel ∧ e.1 ≠ greenChannel)

end ColorClasses

end CombinatorNet
