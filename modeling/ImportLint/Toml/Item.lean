import ImportLint.Decimal.Notation

/-!
TOML documents as trees.  Every item keeps the stretch of the text that it was written in, if there is
one: tables that only come about through the keys of others have none.
-/

namespace ImportLint.Toml

/-- A stretch of a text, by the offsets of its first character and of the first one behind it. -/
structure Span where
  start : Nat
  stop : Nat
  deriving DecidableEq, Repr

/-- A key and where it is written. -/
structure Key where
  name : String
  span : Span
  deriving DecidableEq, Repr

/-- A value that holds no others. -/
inductive Scalar where
  | text (value : String)
  | integer (value : Int)
  | floating (value : Decimal.Floating)
  | boolean (value : Bool)
  /-- A date, a time of day, or both. -/
  | moment
  deriving DecidableEq, Repr

/-- How a table came about, which decides how it can be added to. -/
inductive Form where
  /-- By a header of its own. -/
  | header
  /-- By the header of a table in it. -/
  | implied
  /-- By a dotted key. -/
  | dotted
  /-- In braces. -/
  | inline
  deriving DecidableEq, Repr

/-- A part of a document. -/
inductive Item where
  | scalar (span : Span) (value : Scalar)
  | array (span : Span) (items : List Item)
  /-- A table with its entries in order. -/
  | table (span : Option Span) (form : Form) (entries : List (Key × Item))
  /-- The tables of repeated headers in double brackets. -/
  | tables (items : List Item)
  deriving Repr

/-- A key with its item. -/
abbrev Entry := Key × Item

/-- The stretch that a table was written in. -/
def Item.tableSpan? : Item → Option Span
  | .table span _ _ => span
  | _ => none

/-- The stretch that an item was written in. -/
def Item.span? : Item → Option Span
  | .scalar span _ => some span
  | .array span _ => some span
  | .table span _ _ => span
  | .tables items =>
    match items.head?.bind Item.tableSpan?, items.getLast?.bind Item.tableSpan? with
    | some first, some last => some ⟨first.start, last.stop⟩
    | _, _ => none

/-- The entry of a key. -/
def entryOf? (name : String) (entries : List Entry) : Option Entry :=
  entries.find? fun entry => entry.1.name = name

/-- Puts an item in the place of that of a key. -/
def replaceEntry (name : String) (item : Item) (entries : List Entry) : List Entry :=
  entries.map fun entry => if entry.1.name = name then (entry.1, item) else entry

end ImportLint.Toml
