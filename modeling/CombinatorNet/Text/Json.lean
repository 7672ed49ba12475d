/-!
# JSON text

The documents that reports are made of, and their indented text: two spaces a level, one entry a
line, and nothing between the brackets of an empty list or record.

## Main definitions

* `Json` — numbers, texts, lists and records
* `Json.quoted` — a text between quotes, with the escapes that it needs
* `Json.pretty` — the indented text of a document
-/

namespace CombinatorNet

/-- A document. The fields of a record keep their order. -/
inductive Json
  | number (value : Int)
  | text (value : String)
  | list (items : List Json)
  | record (fields : List (String × Json))

namespace Json

/-- The escaped form of a character in a quoted text. -/
def escape (c : Char) : List Char :=
  if c = '"' then ['\\', '"']
  else if c = '\\' then ['\\', '\\']
  else if c = '\n' then ['\\', 'n']
  else if c = '\r' then ['\\', 'r']
  else if c = '\t' then ['\\', 't']
  else if c = '\x08' then ['\\', 'b']
  else if c = '\x0c' then ['\\', 'f']
  else if c.toNat < 32 then
    ['\\', 'u', '0', '0', Nat.digitChar (c.toNat / 16), Nat.digitChar (c.toNat % 16)]
  else [c]

/-- A text between quotes. -/
def quoted (s : String) : String := "\"" ++ String.ofList (s.toList.flatMap escape) ++ "\""

/-- A line break and the indentation of a level. -/
def newLine (level : Nat) : String := "\n" ++ String.ofList (List.replicate (2 * level) ' ')

/-- Entries between brackets, each on a line of its own. -/
def bracketed (opening closing : String) (level : Nat) (entries : List String) : String :=
  match entries with
  | [] => opening ++ closing
  | _ =>
    opening ++ newLine (level + 1) ++ ("," ++ newLine (level + 1)).intercalate entries ++
      newLine level ++ closing

mutual

/-- The indented text of a document that stands at a level. -/
def prettyAt (level : Nat) : Json → String
  | number v => toString v
  | text s => quoted s
  | list items => bracketed "[" "]" level (prettyItems (level + 1) items)
  | record fields => bracketed "\x7b" "\x7d" level (prettyFields (level + 1) fields)

/-- The indented texts of the items of a list. -/
def prettyItems (level : Nat) : List Json → List String
  | [] => []
  | item :: rest => prettyAt level item :: prettyItems level rest

/-- The indented texts of the fields of a record. -/
def prettyFields (level : Nat) : List (String × Json) → List String
  | [] => []
  | (name, value) :: rest =>
    (quoted name ++ ": " ++ prettyAt level value) :: prettyFields level rest

end

/-- The indented text of a document. -/
def pretty (j : Json) : String := prettyAt 0 j

/-- A natural number as a document. -/
def natural (n : Nat) : Json := number n

/-- A map from names as a record. -/
def ofEntries {α : Type} (f : α → Json) (entries : List (String × α)) : Json :=
  record (entries.map fun e => (e.1, f e.2))

end Json

end CombinatorNet
