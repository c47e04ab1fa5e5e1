import ChangeRelay.Shape.Basic
/-!
# Log positions

Where an event stands in the replication log. Positions are ordered by the name of the log file,
then by the offset in it.
-/

namespace ChangeRelay

/-- A place in the replication log. -/
structure Position where
  file : String
  offset : UInt64
deriving DecidableEq, Repr, Inhabited

namespace Position

/-- The order of two positions. -/
def order (p q : Position) : Ordering :=
  (compare p.file q.file).then (compare p.offset q.offset)

/-- Whether `p` stands at `q` or before it. -/
def atOrBefore (p q : Position) : Bool :=
  p.order q != .gt

/-- File and offset. -/
def shown (p : Position) : String :=
  s!"{p.file}:{p.offset}"

/-- Positions in log order. -/
def sorted (ps : List Position) : List Position :=
  ps.mergeSort atOrBefore

/-- A position as a record of a file name and an offset. -/
def shape : Shape Position :=
  .record "Position"
    (.cons "file" (.leaf .text) none <|
      .cons "offset" (.leaf (.word "u64")) none .nil)
    (fun (file, offset, ()) => ⟨file, offset⟩)
    (fun p => (p.file, p.offset, ()))

end Position

end ChangeRelay
