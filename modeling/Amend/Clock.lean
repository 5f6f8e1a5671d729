/-
The time that telemetry lines bear, from a count of seconds.
-/
import Amend.Tree

namespace Amend.Clock

/-- The day that comes `n` days after the first of January 1970. Years are counted from March, so
that a leap day is the last of its year, and in cycles of 400 years. -/
def dayOf (n : Nat) : Date :=
  let shifted := n + 719468
  let cycle := shifted / 146097
  let inCycle := shifted % 146097
  let year := (inCycle - inCycle / 1460 + inCycle / 36524 - inCycle / 146096) / 365
  let inYear := inCycle - (365 * year + year / 4 - year / 100)
  let month := (5 * inYear + 2) / 153
  let day := inYear - (153 * month + 2) / 5 + 1
  let early := month < 10
  ⟨year + 400 * cycle + (if early then 0 else 1), if early then month + 3 else month - 9, day⟩

/-- The moment so many seconds and microseconds after the start of 1970, in universal time. -/
def momentOf (seconds micro : Nat) : Moment :=
  ⟨dayOf (seconds / 86400), seconds / 3600 % 24, seconds / 60 % 60, seconds % 60, micro, some 0⟩

/-- A moment as telemetry lines have it. -/
def stamp (m : Moment) : String :=
  m.textWith "T"

end Amend.Clock
