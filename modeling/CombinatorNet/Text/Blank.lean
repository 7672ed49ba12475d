import CombinatorNet.Text.CharRanges

/-!
# Blank characters

The characters with the Unicode property White_Space, and the removal of blanks at both ends of a
text.

## Main definitions

* `blankRanges`, `isBlank` — the table of the property and membership
* `trimBlanks` — a text without the blanks at its ends

## Main results

* `blankRanges_ascending` — the table is in order
* `isBlank_of_isWhitespace` — the ASCII spaces are blank
-/

namespace CombinatorNet

/-- The code points with the property White_Space. -/
def blankRanges : CharRanges :=
  [(0x9, 0xD), (0x20, 0x20), (0x85, 0x85), (0xA0, 0xA0), (0x1680, 0x1680), (0x2000, 0x200A),
   (0x2028, 0x2029), (0x202F, 0x202F), (0x205F, 0x205F), (0x3000, 0x3000)]

theorem blankRanges_ascending : blankRanges.Ascending := by decide

/-- Whether a character has the property White_Space. -/
def isBlank (c : Char) : Bool := blankRanges.holds c.toNat

/-- The ASCII spaces are blank. -/
theorem isBlank_of_isWhitespace {c : Char} (h : c.isWhitespace = true) : isBlank c = true := by
  simp only [Char.isWhitespace, Bool.or_eq_true, decide_eq_true_eq] at h
  rcases h with ((rfl | rfl) | rfl) | rfl <;> decide

/-- A text without the blank characters at its start and at its end. -/
def trimBlanks (cs : List Char) : List Char :=
  ((cs.dropWhile isBlank).reverse.dropWhile isBlank).reverse

@[simp] theorem trimBlanks_nil : trimBlanks [] = [] := rfl

end CombinatorNet
