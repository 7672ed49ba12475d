/-!
# Positions and spans in a source text

A position counts UTF-8 bytes from 0, and lines and columns from 1; a column is a character. Only a
line feed starts a new line.

## Main definitions

* `Position`, `Position.next`, `Position.after` — a place in a text and how characters move it
* `Span` — the text between two positions
* `Span.text` — how a span is shown to the reader

## Main results

* `Position.after_append` — reading two texts in turn is reading their concatenation
* `Position.offset_after` — the offset grows by the bytes read
-/

namespace CombinatorNet

/-- A place between two characters of a text. -/
structure Position where
  /-- The bytes before the place. -/
  offset : Nat
  /-- The line, counted from 1. -/
  line : Nat
  /-- The column in the line, counted from 1 in characters. -/
  column : Nat
deriving DecidableEq, Repr, Inhabited

namespace Position

/-- The place before the first character. -/
def origin : Position := ⟨0, 1, 1⟩

/-- The place after one more character. -/
def next (p : Position) (c : Char) : Position :=
  if c = '\n' then ⟨p.offset + c.utf8Size, p.line + 1, 1⟩
  else ⟨p.offset + c.utf8Size, p.line, p.column + 1⟩

/-- The place after a run of characters. -/
def after (p : Position) (cs : List Char) : Position := cs.foldl next p

@[simp] theorem after_nil (p : Position) : p.after [] = p := rfl

@[simp] theorem after_cons (p : Position) (c : Char) (cs : List Char) :
    p.after (c :: cs) = (p.next c).after cs := rfl

theorem after_append (p : Position) (cs ds : List Char) :
    p.after (cs ++ ds) = (p.after cs).after ds :=
  List.foldl_append

@[simp] theorem offset_next (p : Position) (c : Char) :
    (p.next c).offset = p.offset + c.utf8Size := by
  rw [next]; split <;> rfl

/-- The offset grows by the number of bytes read. -/
theorem offset_after (p : Position) (cs : List Char) :
    (p.after cs).offset = p.offset + (cs.map Char.utf8Size).foldr (· + ·) 0 := by
  induction cs generalizing p with
  | nil => simp
  | cons c cs ih => simp [ih, Nat.add_assoc]

end Position

/-- The text between two positions. -/
structure Span where
  /-- The place before its first character. -/
  start : Position
  /-- The place after its last character. -/
  stop : Position
deriving DecidableEq, Repr, Inhabited

namespace Span

/-- The span of a fault that no text is to blame for. -/
def nowhere : Span := ⟨⟨0, 0, 0⟩, ⟨0, 0, 0⟩⟩

/-- The span from the start of one span to the end of another. -/
def upTo (s t : Span) : Span := ⟨s.start, t.stop⟩

@[simp] theorem start_upTo (s t : Span) : (s.upTo t).start = s.start := rfl

@[simp] theorem stop_upTo (s t : Span) : (s.upTo t).stop = t.stop := rfl

/-- Where a span starts, in words. -/
def text (s : Span) : String := s!"line {s.start.line}, column {s.start.column}"

end Span

end CombinatorNet
