import ChangeRelay.Time.Timestamp
/-!
# Seconds since 1970

The calendar fields of a point of time that is counted in seconds. Years are counted from March, so
that a leap day is the last day of its year, and in eras of 400 years, which all have the same
number of days.
-/

namespace ChangeRelay.Timestamp

/-- The days of 400 years. -/
def eraDays : Int :=
  146097

/-- The days from 1 March of the year 0 to 1 January 1970. -/
def epochDays : Int :=
  719468

/-- The date that lies `days` days after 1 January 1970. -/
def dateOfDays (days : Int) : Int × Nat × Nat :=
  let shifted := days + epochDays
  let era := shifted / eraDays
  let inEra := (shifted % eraDays).toNat
  let year := (inEra - inEra / 1460 + inEra / 36524 - inEra / 146096) / 365
  let inYear := inEra - (365 * year + year / 4 - year / 100)
  let fromMarch := (5 * inYear + 2) / 153
  let day := inYear - (153 * fromMarch + 2) / 5 + 1
  let month := if fromMarch < 10 then fromMarch + 3 else fromMarch - 9
  (year + 400 * era + (if month ≤ 2 then 1 else 0), month, day)

/-- The point of time that lies so many seconds after the start of 1970. -/
def ofUnix (seconds : Int) (nanos : Nat) : Timestamp :=
  let (year, month, day) := dateOfDays (seconds / 86400)
  let inDay := (seconds % 86400).toNat
  ⟨year, month, day, inDay / 3600, inDay / 60 % 60, inDay % 60, nanos⟩

end ChangeRelay.Timestamp
