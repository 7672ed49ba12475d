/-!
# Wires: colors and contacts

Each side of a combinator has one red and one green contact, so it carries at most one wire of each
color.

## Main definitions

* `Color` — the two channels, and `Color.other`
* `Side` — the input and the output side of a combinator
* `Connection` — a wire at a side of a combinator
-/

namespace CombinatorNet

/-- The channel that a wire uses. -/
inductive Color
  | red | green
deriving DecidableEq, Repr, Inhabited

namespace Color

/-- The other channel. -/
def other : Color → Color
  | red => green
  | green => red

@[simp] theorem other_other (c : Color) : c.other.other = c := by cases c <;> rfl

@[simp] theorem other_ne (c : Color) : c.other ≠ c := by cases c <;> decide

/-- Two colors differ exactly if one is the other one. -/
theorem ne_iff_eq_other {c d : Color} : c ≠ d ↔ c = d.other := by
  cases c <;> cases d <;> decide

/-- The name of a color. -/
def text : Color → String
  | red => "red"
  | green => "green"

end Color

/-- A side of a combinator. -/
inductive Side
  | input | output
deriving DecidableEq, Repr, Inhabited

/-- The name of a side. -/
def Side.text : Side → String
  | .input => "in"
  | .output => "out"

/-- A wire attached to a side of a combinator. -/
structure Connection where
  /-- The name of the wire. -/
  wire : String
  /-- The side it is attached to. -/
  side : Side
deriving DecidableEq, Repr, Inhabited

end CombinatorNet
