import ChangeRelay.Decimal.Shortest
import ChangeRelay.Json.Printer
import ChangeRelay.Text.Quoted
/-!
# Mismatches

A document that does not have the shape it is read in: what was found, and what was expected in
its place.
-/

namespace ChangeRelay

/-- A value without parts. -/
inductive Scalar
  | null
  | flag (b : Bool)
  | number (n : Number)
  | text (s : String)
deriving DecidableEq, Repr

/-- What stands in a document. -/
inductive Found
  | scalar (s : Scalar)
  | sequence
  | map
deriving DecidableEq, Repr

/-- A document that does not have the expected shape. -/
inductive Mismatch
  | invalidType (found : Found) (expected : String)
  | invalidValue (found : Found) (expected : String)
  | invalidLength (length : Nat) (expected : String)
  | missingField (name : String)
  | duplicateField (name : String)
  | unknownVariant (name : String) (known : List String)
  | custom (text : String)
deriving DecidableEq, Repr

/-- How the scalars that have no spelling of their own are named in messages. -/
structure Wording where
  null : String
  float : Binary64 → String

/-- The words for JSON documents. -/
def Wording.json : Wording where
  null := "null"
  float x := String.ofList (Json.numberChars (.float x))

/-- The words for settings. -/
def Wording.setting : Wording where
  null := "unit value"
  float := Decimal.positionalWithPoint

/-- The words for a value of a document. -/
def Found.describe (w : Wording) : Found → String
  | .scalar .null => w.null
  | .scalar (.flag b) => s!"boolean `{b}`"
  | .scalar (.number (.int n)) => s!"integer `{n}`"
  | .scalar (.number (.float x)) => s!"floating point `{w.float x}`"
  | .scalar (.text s) => s!"string {Quoted.encode s}"
  | .sequence => "sequence"
  | .map => "map"

/-- The text of an alternative. -/
def alternatives : List String → String
  | [] => "there are no variants"
  | [a] => s!"expected `{a}`"
  | [a, b] => s!"expected `{a}` or `{b}`"
  | names => "expected one of " ++ ", ".intercalate (names.map fun n => s!"`{n}`")

/-- The text of a mismatch. -/
def Mismatch.message (w : Wording) : Mismatch → String
  | .invalidType found expected => s!"invalid type: {found.describe w}, expected {expected}"
  | .invalidValue found expected => s!"invalid value: {found.describe w}, expected {expected}"
  | .invalidLength length expected => s!"invalid length {length}, expected {expected}"
  | .missingField name => s!"missing field `{name}`"
  | .duplicateField name => s!"duplicate field `{name}`"
  | .unknownVariant name known => s!"unknown variant `{name}`, {alternatives known}"
  | .custom text => text

end ChangeRelay
