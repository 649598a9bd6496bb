/-!
# TOML values

Values of the TOML format and the tables they are put together in. A table remembers how it came into
being, which decides what may still be added to it.

## Main definitions

- `Toml` — values
- `Toml.assign` — put a value under a dotted key
- `Toml.openTable`, `Toml.openItem` — what table headers do
- `Toml.within` — go to the table a header names

## Design notes

Tables are lists of entries in the order in which they are made; a key is entered at most once.
-/

namespace RobotPuzzle

/-- How a table came into being. -/
inductive TableOrigin
  /-- By a header of its own. Nothing is put into it by dotted keys from outside. -/
  | header
  /-- On the way to the table of a longer header. It may still get a header of its own. -/
  | implied
  /-- On the way along a dotted key. -/
  | dotted
deriving DecidableEq, Repr

/-- A TOML value. -/
inductive Toml
  | string (cs : List Char)
  | integer (i : Int)
  /-- A floating-point number, whatever its value. -/
  | float
  | boolean (b : Bool)
  /-- A date, a time, or both, whatever its value. -/
  | moment
  | array (items : List Toml)
  /-- A table on one line. It is complete as it stands. -/
  | inline (entries : List (String × Toml))
  | table (origin : TableOrigin) (entries : List (String × Toml))
  /-- The tables of a repeated header, latest first. -/
  | tables (items : List (List (String × Toml)))
deriving Repr

namespace Toml

instance : Inhabited Toml := ⟨float⟩

/-- Entries of a table. -/
abbrev Entries := List (String × Toml)

/-- The value of a key. -/
def lookup? (key : String) (entries : Entries) : Option Toml :=
  (entries.find? (·.1 == key)).map (·.2)

/-- The entries with another value for a key. -/
def replace (key : String) (value : Toml) (entries : Entries) : Entries :=
  entries.map fun (k, v) => if k = key then (k, value) else (k, v)

/-- Put a value under a dotted key. There is no result if the key has a value already, or if a part of
it names something other than a table that may be extended by dotted keys. -/
def assign : List String → Toml → Entries → Option Entries
  | [], _, _ => none
  | [key], value, entries =>
    match lookup? key entries with
    | some _ => none
    | none => some (entries ++ [(key, value)])
  | key :: next :: rest, value, entries =>
    match lookup? key entries with
    | none => do
      let inner ← assign (next :: rest) value []
      some (entries ++ [(key, .table .dotted inner)])
    | some (.table .dotted inner) => do
      let inner ← assign (next :: rest) value inner
      some (replace key (.table .dotted inner) entries)
    | some (.table .implied inner) =>
      -- only a table made by dotted keys takes further values from outside
      if rest = [] then none
      else do
        let inner ← assign (next :: rest) value inner
        some (replace key (.table .implied inner) entries)
    | some (.tables (latest :: earlier)) =>
      -- nor does the latest table of a repeated header, but the tables in it may
      if rest = [] then none
      else do
        let latest ← assign (next :: rest) value latest
        some (replace key (.tables (latest :: earlier)) entries)
    | some _ => none

/-- Change the entries of the table that a list of keys leads to. Tables that are not there yet are
made on the way, and a repeated header leads to its latest table. -/
def within (f : Entries → Option Entries) : List String → Entries → Option Entries
  | [], entries => f entries
  | key :: rest, entries =>
    match lookup? key entries with
    | none => do
      let inner ← within f rest []
      some (entries ++ [(key, .table .implied inner)])
    | some (.table origin inner) => do
      let inner ← within f rest inner
      some (replace key (.table origin inner) entries)
    | some (.tables (latest :: earlier)) => do
      let latest ← within f rest latest
      some (replace key (.tables (latest :: earlier)) entries)
    | some _ => none

/-- Begin the table of a key. There is no result if it has been begun before. -/
def beginTable (key : String) (entries : Entries) : Option Entries :=
  match lookup? key entries with
  | none => some (entries ++ [(key, .table .header [])])
  | some (.table .implied inner) => some (replace key (.table .header inner) entries)
  | some _ => none

/-- Begin one more table of a repeated header. There is no result if the key has another value. -/
def beginItem (key : String) (entries : Entries) : Option Entries :=
  match lookup? key entries with
  | none => some (entries ++ [(key, .tables [[]])])
  | some (.tables items) => some (replace key (.tables ([] :: items)) entries)
  | some _ => none

/-- Apply a function to the last of some keys, within the table the others lead to. -/
def atLast (f : String → Entries → Option Entries) (keys : List String) (root : Entries) :
    Option Entries := do
  let key ← keys.getLast?
  within (f key) keys.dropLast root

/-- What a table header does. -/
def openTable (keys : List String) (root : Entries) : Option Entries := atLast beginTable keys root

/-- What a repeated header does. -/
def openItem (keys : List String) (root : Entries) : Option Entries := atLast beginItem keys root

end Toml

end RobotPuzzle
