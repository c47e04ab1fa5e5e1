import ChangeRelay.Decimal.Binary64
/-!
# TOML values

A document is a table. A table remembers how it came to be, for that decides where more entries may
still be added to it: an inline table is complete, a table under a header takes what follows the
header, and a table that only came along on the way to another one may still get a header of its
own.
-/

namespace ChangeRelay

/-- How a table came to be. -/
inductive TableKind
  /-- Written between braces. -/
  | inline
  /-- Under its own header, or the document itself. -/
  | headed
  /-- Named on the way to a table under a header. -/
  | implied
  /-- Named by a key with dots. -/
  | dotted
deriving DecidableEq, Repr, Inhabited

/-- A TOML value. -/
inductive Toml
  | text (s : String)
  | int (n : Int)
  | float (x : Binary64)
  | flag (b : Bool)
  /-- A date, a time or both, by their text. -/
  | instant (text : String)
  | array (items : List Toml)
  | table (kind : TableKind) (entries : List (String × Toml))
  /-- The tables under headers in double brackets. -/
  | tables (elements : List Toml)
deriving Repr, Inhabited

namespace Toml

/-- Gives a key its value, in the place of the one it has or after all others. -/
def store (key : String) (value : Toml) : List (String × Toml) → List (String × Toml)
  | [] => [(key, value)]
  | (k, v) :: rest => if k = key then (key, value) :: rest else (k, v) :: store key value rest

/-- A table under a header that has no entries yet. -/
def opened : Toml :=
  .table .headed []

/-- Changes the table that an entry leads to; an entry that is not there becomes a table. A key
with dots leads into no table under a header, and nothing leads into an inline table. -/
def enter (dotted : Bool) (change : Toml → Option Toml) : Option Toml → Option Toml
  | none => change (.table (if dotted then .dotted else .implied) [])
  | some (.table kind entries) =>
    if kind = .inline || dotted && kind = .headed then none else change (.table kind entries)
  | some (.tables elements) => do
    let last ← elements.getLast?
    let changed ← change last
    some (.tables (elements.dropLast ++ [changed]))
  | some _ => none

/-- Changes the table that keys lead to from a table, one after the other. -/
def within (dotted : Bool) (change : Toml → Option Toml) : List String → Toml → Option Toml
  | [], t => change t
  | key :: path, .table kind entries => do
    let entered ← enter dotted (within dotted change path) (entries.lookup key)
    some (.table kind (store key entered entries))
  | _ :: _, _ => none

/-- Adds an entry to the table that a path of a key leads to. The key must be new there. A path
that is not empty must end in a table that keys with dots have made. -/
def define (path : List String) (key : String) (value : Toml) : Toml → Option Toml :=
  within true (fun
    | .table kind entries =>
      if (kind == .dotted) == path.isEmpty || (entries.lookup key).isSome then none
      else some (.table kind (entries ++ [(key, value)]))
    | _ => none) path

/-- Puts a table under a header into another table. Only a table that came along on the way may
be there already. -/
def openTable (key : String) : Toml → Option Toml
  | .table kind entries =>
    match entries.lookup key with
    | none => some (.table kind (store key opened entries))
    | some (.table .implied inner) => some (.table kind (store key (.table .headed inner) entries))
    | some _ => none
  | _ => none

/-- Puts one more table under a header in double brackets. -/
def openElement (key : String) : Toml → Option Toml
  | .table kind entries =>
    match entries.lookup key with
    | none => some (.table kind (store key (.tables [opened]) entries))
    | some (.tables elements) =>
      some (.table kind (store key (.tables (elements ++ [opened])) entries))
    | some _ => none
  | _ => none

end Toml

end ChangeRelay
