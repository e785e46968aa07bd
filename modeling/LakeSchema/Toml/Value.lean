/-!
# TOML tables

A document is a table whose entries are values and further tables. How a table came to be decides
what may still be added to it: every table is opened once, and the tables that dotted keys make
take further dotted keys only. `define?`, `openTable?` and `openRow?` keep to this.
-/

namespace LakeSchema.Toml

/-- How a table came to be. -/
inductive Origin where
  /-- Opened by a header of its own; the whole document counts as one. -/
  | header
  /-- Named on the way to a table that a header opens. -/
  | implied
  /-- Named in front of the last dot of a key. -/
  | dotted
  /-- Written between braces. -/
  | inline
deriving DecidableEq

/-- A value. Numbers with a point and moments keep no more than their kind, since no setting is
either of them. -/
inductive Value where
  | string (text : String)
  | boolean (b : Bool)
  | integer (n : Int)
  | real
  | moment
  | array (items : List Value)
  | table (origin : Origin) (entries : List (String × Value))
  /-- The tables opened one after the other by doubled headers of one name. -/
  | rows (tables : List (List (String × Value)))

/-- The entries of a table, no two of one name, in the order in which they were written. -/
abbrev Entries := List (String × Value)

namespace Entries

def get? (name : String) (entries : Entries) : Option Value :=
  entries.lookup name

/-- Replaces the value of a name, or adds it at the end. -/
def set (name : String) (value : Value) : Entries → Entries
  | [] => [(name, value)]
  | (other, old) :: rest =>
    if other == name then (name, value) :: rest else (other, old) :: set name value rest

end Entries

/-- What leads to a table: the path in a header, or the dots of a key. -/
inductive Way where
  | header
  | dots

/-- The kind of table that a way makes where there is none. -/
def Way.created : Way → Origin
  | header => .implied
  | dots => .dotted

/-- Whether a way leads through a table. Dots do not reach into a table with a header. -/
def Way.passes : Way → Origin → Bool
  | header, origin => origin != .inline
  | dots, origin => origin == .implied || origin == .dotted

/-- A change of a table of some origin; none where the change is not allowed. -/
abbrev Change := Origin → Entries → Option Entries

/-- Changes the table at the end of a path, making those that are missing. Of an array of tables
the last one is meant. -/
def descend? (way : Way) (change : Change) : (path : List String) → Change
  | [], origin, entries => change origin entries
  | name :: path, _, entries =>
    match entries.get? name with
    | none => do
      let child ← descend? way change path way.created []
      some (entries.set name (.table way.created child))
    | some (.table origin child) =>
      if way.passes origin then do
        let child ← descend? way change path origin child
        some (entries.set name (.table origin child))
      else none
    | some (.rows tables) => do
      let row ← tables.getLast?
      let row ← descend? way change path .header row
      some (entries.set name (.rows (tables.dropLast ++ [row])))
    | some _ => none

def define? (path : List String) (name : String) (value : Value) : Change :=
  descend? .dots (fun origin entries =>
    if (origin == .dotted) == path.isEmpty || (entries.get? name).isSome then none
    else some (entries.set name value)) path

/-- Opens a table, which so far may only have been implied. -/
def openTable? (path : List String) (name : String) : Change :=
  descend? .header (fun _ entries =>
    match entries.get? name with
    | none => some (entries.set name (.table .header []))
    | some (.table .implied child) => some (entries.set name (.table .header child))
    | some _ => none) path

def openRow? (path : List String) (name : String) : Change :=
  descend? .header (fun _ entries =>
    match entries.get? name with
    | none => some (entries.set name (.rows [[]]))
    | some (.rows tables) => some (entries.set name (.rows (tables ++ [[]])))
    | some _ => none) path

end LakeSchema.Toml
