import ChangeRelay.Decimal.Binary64
/-!
# JSON values

A number is an integer as long as it is written as one and fits 64 bits, signed or unsigned; every
other number is a binary64. The members of an object keep the order they are listed in;
`Json.object` lists them by name, one value per name.
-/

namespace ChangeRelay

/-- A JSON number. -/
inductive Number
  | int (n : Int)
  | float (x : Binary64)
deriving DecidableEq, Repr

/-- A JSON value. -/
inductive Json
  | null
  | bool (b : Bool)
  | num (n : Number)
  | str (s : String)
  | arr (items : List Json)
  | obj (members : List (String × Json))
deriving Repr, Inhabited

namespace Json

/-- Puts a member at its place in a list ordered by name; a member of that name is replaced. -/
def insertMember (name : String) (value : α) : List (String × α) → List (String × α)
  | [] => [(name, value)]
  | (n, v) :: rest =>
    if name < n then (name, value) :: (n, v) :: rest
    else if name = n then (name, value) :: rest
    else (n, v) :: insertMember name value rest

/-- The object with the given members, ordered by name; the last value of a name counts. -/
def object (members : List (String × Json)) : Json :=
  .obj (members.foldl (fun sorted (n, v) => insertMember n v sorted) [])

/-- The value of a name. -/
def member? (name : String) : Json → Option Json
  | .obj members => members.lookup name
  | _ => none

/-- The value of a name, null when there is none. -/
def member (v : Json) (name : String) : Json :=
  (v.member? name).getD .null

/-- The number of a natural number. -/
def ofNat (n : Nat) : Json :=
  .num (.int n)

/-- The number of an integer. -/
def ofInt (n : Int) : Json :=
  .num (.int n)

/-- Null for `none`. -/
def ofOption (f : α → Json) : Option α → Json
  | none => .null
  | some a => f a

end Json

end ChangeRelay
