/-!
TOML values and the rules by which keys and headers build tables. Only values that a setting can
have are kept: texts, whole numbers, arrays and tables.
-/

namespace SnippetLint

/-- How a table came about, which decides who may add to it. -/
inductive TableOrigin where
  /-- As part of a longer header. -/
  | implied
  | header
  | dottedKey
  | inline
  deriving DecidableEq, Inhabited

inductive TomlValue where
  | string (text : String)
  | integer (value : Int)
  | array (items : List TomlValue)
  | table (origin : TableOrigin) (entries : List (String × TomlValue))
  deriving Inhabited

namespace TomlValue

abbrev Entries := List (String × TomlValue)

/-- The entries with another value for a key that is there. -/
def replace (entries : Entries) (key : String) (value : TomlValue) : Entries :=
  entries.map fun entry => if entry.1 == key then (key, value) else entry

/-- Adds a key, which must not be there yet. -/
def insert (entries : Entries) (key : String) (value : TomlValue) : Option Entries :=
  if (entries.lookup key).isSome then none else some (entries ++ [(key, value)])

/-- Adds a key with the tables before it. The last of these must come from dotted keys too, and
none may have a header or be complete. -/
def insertDotted : List String → String → TomlValue → Entries → Option Entries
  | [], key, value, entries => insert entries key value
  | first :: path, key, value, entries =>
    match entries.lookup first with
    | none => do
      let inner ← insertDotted path key value []
      return entries ++ [(first, .table .dottedKey inner)]
    | some (.table .dottedKey inner) => do
      let inner ← insertDotted path key value inner
      return replace entries first (.table .dottedKey inner)
    | some (.table .implied inner) =>
      if path.isEmpty then none
      else do
        let inner ← insertDotted path key value inner
        return replace entries first (.table .implied inner)
    | some _ => none

/-- Adds a dotted key to the table with a header. -/
def insertUnder : List String → List String → String → TomlValue → Entries → Option Entries
  | [], path, key, value, entries => insertDotted path key value entries
  | first :: header, path, key, value, entries =>
    match entries.lookup first with
    | some (.table origin inner) => do
      let inner ← insertUnder header path key value inner
      return replace entries first (.table origin inner)
    | _ => none

/-- Opens the table of a header. It must not be there yet, unless it was only implied. -/
def openHeader : List String → Entries → Option Entries
  | [], entries => some entries
  | [key], entries =>
    match entries.lookup key with
    | none => some (entries ++ [(key, .table .header [])])
    | some (.table .implied inner) => some (replace entries key (.table .header inner))
    | some _ => none
  | first :: path, entries =>
    match entries.lookup first with
    | none => do
      let inner ← openHeader path []
      return entries ++ [(first, .table .implied inner)]
    | some (.table .inline _) => none
    | some (.table origin inner) => do
      let inner ← openHeader path inner
      return replace entries first (.table origin inner)
    | some _ => none

end TomlValue

end SnippetLint
