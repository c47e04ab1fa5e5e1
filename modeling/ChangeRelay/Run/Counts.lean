/-!
# Delivery counts
-/

namespace ChangeRelay

/-- How many records were delivered and how many were not. -/
structure Counts where
  produced : UInt64 := 0
  failed : UInt64 := 0
deriving DecidableEq, Repr, Inhabited

namespace Counts

/-- A record was delivered. -/
def success (c : Counts) : Counts :=
  { c with produced := c.produced + 1 }

/-- A record was not delivered. -/
def failure (c : Counts) : Counts :=
  { c with failed := c.failed + 1 }

end Counts

end ChangeRelay
