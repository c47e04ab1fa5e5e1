import ChangeRelay.Checkpoint.Basic
import ChangeRelay.Error.Basic
import ChangeRelay.Storage.FileTree
/-!
# The checkpoint file

A checkpoint is saved in four steps: a file beside the checkpoint is created, the text is written
to it, it is brought to the disk, and it takes the checkpoint's path. Until the last step the old
checkpoint stays where it is.

Each step can fail on the disk. The bytes are written behind the back of the one who saves, so the
disk may also lose some of them and nobody is told: bringing the file to the disk waits for them and
does not say what has become of them.
-/

namespace ChangeRelay

/-- What the disk does to the calls on a checkpoint: the calls that fail, and how many bytes it
takes of those that are written. -/
structure Disk where
  create : Option StorageError := none
  write : Option StorageError := none
  /-- `none` takes all bytes. -/
  takes : Option Nat := none
  sync : Option StorageError := none
  rename : Option StorageError := none
  remove : Option StorageError := none
deriving DecidableEq, Repr, Inhabited

namespace Disk

/-- A disk on which nothing fails. -/
def sound : Disk := {}

/-- The bytes that it takes. -/
def taken (disk : Disk) (bytes : List UInt8) : List UInt8 :=
  match disk.takes with
  | none => bytes
  | some k => bytes.take k

/-- What a call gives, unless the disk fails at it. -/
def attempt {α : Type} (fault : Option StorageError) (result : Except StorageError α) :
    Except StorageError α :=
  match fault with
  | none => result
  | some e => .error e

end Disk

/-- How far a checkpoint has been saved; an opened file is known by its number. -/
inductive SavePhase
  | start
  | created (file : Nat)
  | written (file : Nat)
  | synced
  | done
deriving DecidableEq, Repr, Inhabited

/-- A checkpoint that is being saved. -/
structure Saving where
  path : String
  bytes : List UInt8
  phase : SavePhase := .start
deriving DecidableEq, Repr, Inhabited

namespace Saving

/-- The saving of a checkpoint to a path. -/
def start (path : String) (c : Checkpoint) : Saving where
  path
  bytes := c.text.toUTF8.toList

/-- The file beside the checkpoint. -/
def sidePath (s : Saving) : String :=
  String.ofList (Path.withExtension s.path.toList "tmp".toList)

/-- The next step on a disk, and the tree after it. A write leaves what the disk has taken of it,
whether it fails or not. -/
def step (s : Saving) (disk : Disk) (t : FileTree) : Except StorageError Saving × FileTree :=
  match s.phase with
  | .start =>
    match Disk.attempt disk.create (t.create s.sidePath) with
    | .ok (n, t) => (.ok { s with phase := .created n }, t)
    | .error e => (.error e, t)
  | .created n =>
    (Disk.attempt disk.write (.ok { s with phase := .written n }),
      t.write n (disk.taken s.bytes))
  | .written _ => (Disk.attempt disk.sync (.ok { s with phase := .synced }), t)
  | .synced =>
    match Disk.attempt disk.rename (t.rename s.sidePath s.path) with
    | .ok t => (.ok { s with phase := .done }, t)
    | .error e => (.error e, t)
  | .done => (.ok s, t)

/-- All steps, at most `fuel` of them. A step that fails is the last one. -/
def run : (fuel : Nat) → Saving → Disk → FileTree → Except StorageError Unit × FileTree
  | 0, _, _, t => (.ok (), t)
  | fuel + 1, s, disk, t =>
    match s.step disk t with
    | (.error e, t) => (.error e, t)
    | (.ok s, t) => run fuel s disk t

end Saving

namespace Checkpoint

/-- Saves a checkpoint to a path. -/
def save (t : FileTree) (path : String) (c : Checkpoint) (disk : Disk := .sound) :
    Except Error Unit × FileTree :=
  let (result, t) := Saving.run 4 (Saving.start path c) disk t
  (result.mapError .storage, t)

/-- The checkpoint of a text. -/
def ofText (text : List Char) : Except Error Checkpoint :=
  (shape.ofText (String.ofList text)).mapError fun fault =>
    .config s!"Invalid checkpoint file: {fault.message}"

/-- The checkpoint at a path, if there is one. -/
def load (t : FileTree) (path : String) : Except Error (Option Checkpoint) :=
  if t.exists? path then do
    let text ← (t.readText path).mapError .storage
    (ofText text).map some
  else .ok none

/-- Takes the checkpoint at a path away. -/
def delete (t : FileTree) (path : String) (disk : Disk := .sound) : Except Error FileTree :=
  if t.exists? path then (Disk.attempt disk.remove (t.remove path)).mapError .storage
  else .ok t

end Checkpoint

end ChangeRelay
