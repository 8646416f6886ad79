import ImportLint.Toml.Scanner

/-!
Whole TOML documents.  A document is read line by line into a tree of tables; the rules about which
tables can still be added to decide whether it is one at all.
-/

namespace ImportLint.Toml

open Scanner

namespace Item

/-- Whether a table can be added to by a dotted key. -/
def isOpen : Form → Bool
  | .implied => true
  | .dotted => true
  | _ => false

/-- Walks down from a table along keys, making the tables that are not there, and changes the table
at the end.  `dotted` tells whether the keys are those of a dotted key or those of a header.  A
repeated header stands for its last table. -/
def descend (dotted : Bool) (change : Item → Option (Item × α)) :
    List Key → Item → Option (Item × α)
  | [], item => change item
  | key :: keys, .table span form entries =>
    match entryOf? key.name entries with
    | none => do
      let made : Item := .table none (if dotted then .dotted else .implied) []
      let (item, result) ← descend dotted change keys made
      return (.table span form (entries ++ [(key, item)]), result)
    | some (_, .table inner innerForm innerEntries) =>
      if innerForm = .inline ∨ (dotted ∧ !isOpen innerForm) then none
      else do
        let (item, result) ← descend dotted change keys (.table inner innerForm innerEntries)
        return (.table span form (replaceEntry key.name item entries), result)
    | some (_, .tables items) =>
      match items.getLast? with
      | none => none
      | some last => do
        let (item, result) ← descend dotted change keys last
        let tables : Item := .tables (items.dropLast ++ [item])
        return (.table span form (replaceEntry key.name tables entries), result)
    | some _ => none
  | _ :: _, _ => none

/-- Adds an entry to a table.  A table that a dotted key leads to has to have come about by dotted
keys, and no key can be given twice. -/
def addEntry (path : List Key) (key : Key) (value : Item) : Item → Option (Item × Unit)
  | .table span form entries =>
    if (form = .dotted) = (path = []) then none
    else if (entryOf? key.name entries).isSome then none
    else some (.table span form (entries ++ [(key, value)]), ())
  | _ => none

/-- Sets the value of a key, which may be dotted. -/
def set (item : Item) (path : List Key) (key : Key) (value : Item) : Option Item :=
  (descend true (addEntry path key value) path item).map (·.1)

/-- Takes the table of a header out of the table around it.  One that came about by the headers of
tables in it is taken over. -/
def takeTable (key : Key) : Item → Option (Item × List Entry)
  | .table span form entries =>
    match entryOf? key.name entries with
    | none => some (.table span form entries, [])
    | some (_, .table _ .implied inner) =>
      some (.table span form (entries.filter fun entry => entry.1.name ≠ key.name), inner)
    | some _ => none
  | _ => none

/-- Puts the table of a header into the table around it. -/
def putTable (key : Key) (table : Item) : Item → Option (Item × Unit)
  | .table span form entries =>
    match entryOf? key.name entries with
    | none => some (.table span form (entries ++ [(key, table)]), ())
    | some (_, .table _ .implied _) =>
      some (.table span form (replaceEntry key.name table entries), ())
    | some _ => none
  | _ => none

/-- Makes room for the tables of a repeated header. -/
def openTables (key : Key) : Item → Option (Item × Unit)
  | .table span form entries =>
    match entryOf? key.name entries with
    | none => some (.table span form (entries ++ [(key, .tables [])]), ())
    | some (_, .tables _) => some (.table span form entries, ())
    | some _ => none
  | _ => none

/-- Adds a table to those of a repeated header. -/
def pushTable (key : Key) (table : Item) : Item → Option (Item × Unit)
  | .table span form entries =>
    match entryOf? key.name entries with
    | none => some (.table span form (entries ++ [(key, .tables [table])]), ())
    | some (_, .tables items) =>
      some (.table span form (replaceEntry key.name (.tables (items ++ [table])) entries), ())
    | some _ => none
  | _ => none

/-- Extends the stretch of a table to the end of a value in it. -/
def extendTo (item value : Item) : Item :=
  match item, value.span? with
  | .table (some span) form entries, some inner =>
    .table (some ⟨span.start, inner.stop⟩) form entries
  | _, _ => item

end Item

/-- Adds the entries of a table in braces one after the other. -/
def inlineTable (span : Span) : List (List Key × Key × Item) → Item → Option Item
  | [], .table _ _ entries => some (.table (some span) .inline entries)
  | [], _ => none
  | (path, key, value) :: rest, table => do
    inlineTable span rest (← table.set path key value)

/-- Reads a rule as often as it goes on after a comma. -/
def commaSeparated (item : Scanner α) (after : Scanner Unit) : (fuel : Nat) → Scanner (List α)
  | 0 => refuse
  | fuel + 1 => do
    let first ← item
    after
    if (← peek?) == some ',' then
      skip 1
      let rest ← commaSeparated item after fuel
      return first :: rest
    else return [first]

/-- Reads the items of an array behind its bracket, with a comma allowed behind the last one. -/
def arrayItems (item : Scanner Item) : (fuel : Nat) → Scanner (List Item)
  | 0 => refuse
  | fuel + 1 => do
    gaps
    if (← peek?) == some ']' then
      skip 1
      return []
    else
      let first ← item
      gaps
      match ← next with
      | ',' => return first :: (← arrayItems item fuel)
      | ']' => return [first]
      | _ => refuse

/-- Reads a key and its value. -/
def keyValue (value : Scanner Item) : Scanner (List Key × Key × Item) := do
  let (path, key) ← key
  expect '='
  blanks
  return (path, key, ← value)

/-- Reads a value in which arrays and tables are nested less deep than `depth`. -/
def value : (depth : Nat) → Scanner Item
  | 0 => do
    let (value, span) ← spanned scalar
    return .scalar span value
  | depth + 1 => do
    match ← peek? with
    | some '[' =>
      let (items, span) ← spanned <| do
        skip 1
        arrayItems (value depth) ((← rest).length + 1)
      return .array span items
    | some '{' =>
      let (entries, span) ← spanned <| do
        skip 1
        blanks
        if (← peek?) == some '}' then
          skip 1
          return []
        else
          let entries ← commaSeparated (keyValue (value depth)) blanks ((← rest).length + 1)
          expect '}'
          return entries
      match inlineTable span entries (.table none .header []) with
      | some table => return table
      | none => refuse
    | _ =>
      let (value, span) ← spanned scalar
      return .scalar span value

/-- What has been read of a document. -/
structure Draft where
  /-- The tables that are complete. -/
  root : Item
  /-- The table that is being read. -/
  current : Item
  /-- The keys of its header. -/
  path : List Key
  /-- Whether its header can be repeated. -/
  repeated : Bool

namespace Draft

/-- A document of which nothing has been read. -/
def empty : Draft := ⟨.table none .header [], .table none .header [], [], false⟩

/-- Puts the table that is being read to those that are complete. -/
def close (draft : Draft) : Option Item :=
  match draft.path.reverse with
  | [] => some draft.current
  | key :: above =>
    let put := if draft.repeated then Item.pushTable else Item.putTable
    (draft.root.descend false (put key draft.current) above.reverse).map (·.1)

/-- Begins the table of a header. -/
def begin (draft : Draft) (path : List Key) (key : Key) (span : Span) (repeated : Bool) :
    Option Draft := do
  let root ← draft.close
  if repeated then
    let (root, _) ← root.descend false (Item.openTables key) path
    return ⟨root, .table (some span) .header [], path ++ [key], true⟩
  else
    let (root, entries) ← root.descend false (Item.takeTable key) path
    return ⟨root, .table (some span) .header entries, path ++ [key], false⟩

/-- Adds an entry to the table that is being read. -/
def set (draft : Draft) (path : List Key) (key : Key) (value : Item) : Option Draft := do
  return { draft with current := ← (draft.current.extendTo value).set path key value }

end Draft

/-- Reads a header. -/
def header (draft : Draft) : Scanner Draft := do
  let ((path, key, repeated), span) ← spanned <| do
    expect '['
    let repeated := (← peek?) == some '['
    if repeated then skip 1
    let (path, key) ← key
    expect ']'
    if repeated then expect ']'
    return (path, key, repeated)
  lineRest
  match draft.begin path key span repeated with
  | some draft => return draft
  | none => refuse

/-- Reads a line, and the lines that its value goes on to. -/
def line (draft : Draft) : Scanner Draft := do
  blanks
  match ← peek? with
  | none => return draft
  | some '\n' => lineEnd; return draft
  | some '\r' => lineEnd; return draft
  | some '#' => lineRest; return draft
  | some '[' => header draft
  | some _ =>
    let (path, key, value) ← keyValue (value (depthEnd - 1))
    lineRest
    match draft.set path key value with
    | some draft => return draft
    | none => refuse

/-- Reads lines up to the end of the text. -/
def lines : (fuel : Nat) → Draft → Scanner Draft
  | 0, _ => refuse
  | fuel + 1, draft => do
    if (← rest).isEmpty then return draft
    else lines fuel (← line draft)

/-- The number of characters of a mark at the front that tells the order of bytes. -/
def byteOrderMark (text : List Char) : Nat :=
  if text.head? = some (Char.ofNat 0xFEFF) then 1 else 0

/-- The tree of a document, unless the text is none. -/
def parse (text : String) : Option Item :=
  let chars := text.toList
  let mark := byteOrderMark chars
  match lines (chars.length + 1) .empty ⟨mark, chars.drop mark⟩ with
  | some (draft, _) => draft.close
  | none => none

end ImportLint.Toml
