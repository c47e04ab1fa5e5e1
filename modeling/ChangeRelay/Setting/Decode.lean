import ChangeRelay.Setting.Basic
import ChangeRelay.Shape.Basic
/-!
# Reading by shape from settings

Settings are lenient: numbers, flags and texts stand for one another where that makes sense, and the
names of an enumeration are compared without regard to case. A scalar that does not fit is reported
with its place in the tree and with its origin.
-/

namespace ChangeRelay

namespace Setting

/-- What does not fit where a scalar was expected. -/
inductive Unfit
  | negative (n : Int)
  | tooLarge (n : Nat)
  | found (f : Found)
deriving DecidableEq, Repr

/-- The words for what does not fit. -/
def Unfit.describe : Unfit → String
  | .negative n => s!"64-bit integer `{n}`"
  | .tooLarge n => s!"64-bit unsigned integer `{n}`"
  | .found f => f.describe .setting

/-- Why settings do not have a shape. -/
inductive Fault
  | mismatch (m : Mismatch)
  /-- A setting of the wrong type, the text of its place as far as it is known, and its origin. -/
  | wrongType (unfit : Unfit) (expected : String) (place : String) (origin : Option String)
  | unknownName (title name : String)
  | notAName (title : String)
deriving DecidableEq, Repr

namespace Fault

/-- The text of a fault. -/
def message : Fault → String
  | .mismatch m => m.message .setting
  | .wrongType unfit expected place origin =>
    s!"invalid type: {unfit.describe}, expected {expected}"
      ++ (if place.isEmpty then "" else s!" for key `{place}`")
      ++ (origin.elim "" fun o => s!" in {o}")
  | .unknownName title name => s!"enum {title} does not have variant constructor {name}"
  | .notAName title =>
    s!"value of enum {title} should be represented by either string or table with exactly one key"

/-- The fault as it is seen from above, where the setting's place starts with `step`. -/
def under (step : String) : Fault → Fault
  | .wrongType unfit expected place origin =>
    let joint := if place.isEmpty || place.front = '[' then "" else "."
    .wrongType unfit expected (step ++ joint ++ place) origin
  | f => f

end Fault

/-- What stands where another setting was expected. -/
def found : Setting → Found
  | .scalar _ s => .scalar s
  | .list _ _ => .sequence
  | .table _ _ => .map

/-- Where a setting came from. -/
def origin : Setting → Option String
  | .scalar origin _ => origin
  | .list origin _ => origin
  | .table origin _ => origin

/-- The setting does not fit. -/
def refuse (s : Setting) (expected : String) : Except Fault α :=
  .error (.wrongType (.found s.found) expected "" s.origin)

/-! ## Scalars -/

/-- The texts that stand for a yes, and those for a no. -/
def isYes (s : String) : Bool :=
  s = "true" || s = "on" || s = "yes"

@[inherit_doc isYes]
def isNo (s : String) : Bool :=
  s = "false" || s = "off" || s = "no"

/-- The setting as a text. -/
def toText (s : Setting) : Except Fault String :=
  match s with
  | .scalar _ (.text t) => .ok t
  | .scalar _ (.flag b) => .ok (toString b)
  | .scalar _ (.number (.int n)) => .ok (toString n)
  | .scalar _ (.number (.float x)) => .ok (Decimal.positional x)
  | s => s.refuse "a string"

/-- The setting as a flag. -/
def toFlag (s : Setting) : Except Fault Bool :=
  match s with
  | .scalar _ (.flag b) => .ok b
  | .scalar _ (.number (.int n)) => .ok (n != 0)
  | .scalar _ (.number (.float x)) => .ok !x.isZero
  | .scalar origin (.text t) =>
    let t := lowercase t
    if t = "1" || isYes t then .ok true
    else if t = "0" || isNo t then .ok false
    else .error (.wrongType (.found (.scalar (.text t))) "a boolean" "" origin)
  | s => s.refuse "a boolean"

/-- The number that decimal digits stand for, after a plus sign or none. -/
def unsigned? (s : String) : Option Nat :=
  let cs := s.toList
  let digits := if cs.head? = some '+' then cs.drop 1 else cs
  let n := digits.foldl (fun n c => 10 * n + (c.toNat - '0'.toNat)) 0
  if digits.isEmpty || !digits.all Char.isDigit || UInt64.size ≤ n then none else some n

/-- The number of 64 bits nearest to a number. -/
def saturated (x : Binary64) : Nat :=
  if x.isNaN || x.isNegative then 0
  else if !x.isFinite then UInt64.size - 1
  else min x.roundedMagnitude (UInt64.size - 1)

/-- The setting as a number of 64 bits. -/
def toWord (s : Setting) : Except Fault Nat :=
  match s with
  | .scalar origin (.number (.int n)) =>
    if 0 ≤ n then .ok n.toNat
    else .error (.wrongType (.negative n) "an unsigned 64 bit or less integer" "" origin)
  | .scalar _ (.text t) =>
    if isYes (lowercase t) then .ok 1
    else if isNo (lowercase t) then .ok 0
    else (unsigned? t).elim (s.refuse "an integer") .ok
  | .scalar _ (.flag b) => .ok b.toNat
  | .scalar _ (.number (.float x)) => .ok (saturated x)
  | s => s.refuse "an integer"

/-- The setting as a number of 32 bits. -/
def toHalfWord (s : Setting) : Except Fault Nat := do
  let n ← s.toWord
  if n < UInt32.size then .ok n
  else .error (.wrongType (.tooLarge n) "an unsigned 32 bit integer" "" none)

end Setting

/-- The value a leaf has in a setting. Leaves that settings have no words for are as strict as in
any other document. -/
def Leaf.ofSetting (l : Leaf α) (s : Setting) : Except Setting.Fault α :=
  match l with
  | .text => s.toText
  | .path => s.toText
  | .flag => s.toFlag
  | .word _ => s.toWord.map Nat.toUInt64
  | .halfWord => s.toHalfWord.map Nat.toUInt32
  | l =>
    match s with
    | .scalar _ v => (l.accept v).mapError .mismatch
    | s => s.refuse l.expected

/-! ## Composite settings -/

/-- The value of a name, the case of letters aside. -/
def Enumeration.ofSettingName (e : Enumeration α) (name : String) : Except Setting.Fault α :=
  match e.values.find? fun (known, _) => lowercase known = lowercase name with
  | some (_, a) => .ok a
  | none => .error (.unknownName e.title name)

/-- An enumeration's value by its name, or as the only name in a table. -/
def Enumeration.ofSetting (e : Enumeration α) : Setting → Except Setting.Fault α
  | .scalar _ (.text name) => e.ofSettingName name
  | .table _ [(name, _)] => e.ofSettingName name
  | _ => .error (.notAName e.title)

/-- The settings as a JSON value. -/
def Scalar.toJson : Scalar → Json
  | .null => .null
  | .flag b => .bool b
  | .number n => .num n
  | .text s => .str s

mutual

/-- The setting as a JSON value. -/
def Setting.toJson : Setting → Json
  | .scalar _ s => s.toJson
  | .list _ items => .arr (Setting.itemsToJson items)
  | .table _ entries => .obj (Setting.entriesToJson entries)

@[inherit_doc Setting.toJson]
def Setting.itemsToJson : List Setting → List Json
  | [] => []
  | s :: rest => s.toJson :: Setting.itemsToJson rest

@[inherit_doc Setting.toJson]
def Setting.entriesToJson : List (String × Setting) → List (String × Json)
  | [] => []
  | (name, s) :: rest => (name, s.toJson) :: Setting.entriesToJson rest

end

/-- Reads the items of a list, the first of them item number `index`. -/
def Setting.readItems (read : Setting → Except Setting.Fault α) :
    (index : Nat) → List Setting → Except Setting.Fault (List α)
  | _, [] => .ok []
  | index, s :: rest => do
    let a ← (read s).mapError (·.under s!"[{index}]")
    let as ← Setting.readItems read (index + 1) rest
    .ok (a :: as)

mutual

/-- The value that settings of the shape give. -/
def Shape.ofSetting : {α : Type} → Shape α → Setting → Except Setting.Fault α
  | _, .leaf l, s => l.ofSetting s
  | _, .json, s => .ok s.toJson
  | _, .enumeration e, s => e.ofSetting s
  | _, .optional _, .scalar _ .null => .ok none
  | _, .optional shape, s => (shape.ofSetting s).map some
  | _, .list shape, .list _ items => Setting.readItems shape.ofSetting 0 items
  | _, .list _, s => .error (.mismatch (.invalidType s.found "a sequence"))
  | _, .table shape, .table _ entries =>
    entries.foldlM (fun values (name, s) => do
      let a ← (shape.ofSetting s).mapError (·.under name)
      .ok (Json.insertMember name a values)) []
  | _, .table _, s => .error (.mismatch (.invalidType s.found "a map"))
  | _, .record title fields build _, .list _ items =>
    (fields.ofSettingItems (recordTitle title fields.size) 0 items).map build
  | _, .record _ fields build _, .table _ entries => do
    let slots ← entries.foldlM (fun slots (name, s) => fields.setSetting name s slots) fields.empty
    ((fields.collect slots).map build).mapError .mismatch
  | _, .record title _ _ _, s => .error (.mismatch (.invalidType s.found s!"struct {title}"))

/-- The fields at the start of a list, the first of them item number `index`; what follows them
does not count. -/
def Fields.ofSettingItems : {β : Type} → Fields β → (title : String) → (index : Nat) →
    List Setting → Except Setting.Fault β
  | _, .nil, _, _, _ => .ok ()
  | _, .cons _ shape absent rest, title, index, items => do
    let a ← match items, absent with
      | s :: _, _ => (shape.ofSetting s).mapError (·.under s!"[{index}]")
      | [], some a => .ok a
      | [], none => .error (.mismatch (.invalidLength index title))
    let b ← rest.ofSettingItems title (index + 1) (items.drop 1)
    .ok (a, b)

/-- Fills the field of a name; other names are ignored. -/
def Fields.setSetting : {β : Type} → (fs : Fields β) → (name : String) → Setting → fs.Slots →
    Except Setting.Fault fs.Slots
  | _, .nil, _, _, slots => .ok slots
  | _, .cons (α := α) field shape _ rest, name, s, slots =>
    let slots : Option α × rest.Slots := slots
    if name = field then
      ((shape.ofSetting s).mapError (·.under name)).map fun a => (some a, slots.2)
    else (rest.setSetting name s slots.2).map fun more => (slots.1, more)

end

end ChangeRelay
