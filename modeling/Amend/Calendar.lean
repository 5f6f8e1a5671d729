/-
Days and moments: their texts, what is wrong with those that the calendar does not have, and when
two moments are the same.
-/
namespace Amend

/-- A day of the calendar. -/
structure Date where
  year : Nat
  month : Nat
  day : Nat
  deriving DecidableEq, Repr

/-- A day and a time, with its distance from universal time in minutes if that is known. -/
structure Moment where
  date : Date
  hour : Nat
  minute : Nat
  second : Nat
  micro : Nat
  offset : Option Int
  deriving DecidableEq, Repr

/-! ## Texts -/

/-- A number with zeros before it. -/
def padded (width n : Nat) : String :=
  let digits := toString n
  String.ofList (List.replicate (width - digits.length) '0') ++ digits

/-- A day as year, month and day. -/
def Date.text (d : Date) : String :=
  padded 4 d.year ++ "-" ++ padded 2 d.month ++ "-" ++ padded 2 d.day

/-- The distance from universal time. -/
def offsetText (minutes : Int) : String :=
  (if minutes < 0 then "-" else "+") ++ padded 2 (minutes.natAbs / 60) ++ ":"
    ++ padded 2 (minutes.natAbs % 60)

/-- A day and a time with something between them. -/
def Moment.textWith (m : Moment) (between : String) : String :=
  m.date.text ++ between ++ padded 2 m.hour ++ ":" ++ padded 2 m.minute ++ ":" ++ padded 2 m.second
    ++ (if m.micro = 0 then "" else "." ++ padded 6 m.micro) ++ m.offset.elim "" offsetText

/-- A day and a time. -/
def Moment.text (m : Moment) : String :=
  m.textWith " "

/-- A day as a literal. -/
def Date.literal (d : Date) : String :=
  s!"datetime.date({d.year}, {d.month}, {d.day})"

/-- A stretch of time other than none, as a literal: whole days, and the seconds beyond them. -/
def stretchLiteral (minutes : Int) : String :=
  let days := Int.fdiv minutes 1440
  let seconds := Int.fmod minutes 1440 * 60
  let parts := (if days = 0 then [] else [s!"days={days}"])
    ++ (if seconds = 0 then [] else [s!"seconds={seconds}"])
  "datetime.timedelta(" ++ ", ".intercalate parts ++ ")"

/-- A distance from universal time as a literal. -/
def offsetLiteral (minutes : Int) : String :=
  if minutes = 0 then "datetime.timezone.utc"
  else "datetime.timezone(" ++ stretchLiteral minutes ++ ")"

/-- A day and a time as a literal. -/
def Moment.literal (m : Moment) : String :=
  let time := if m.micro ≠ 0 then s!", {m.second}, {m.micro}"
    else if m.second ≠ 0 then s!", {m.second}" else ""
  let zone := m.offset.elim "" fun minutes => ", tzinfo=" ++ offsetLiteral minutes
  s!"datetime.datetime({m.date.year}, {m.date.month}, {m.date.day}, {m.hour}, {m.minute}{time}{zone})"

/-! ## What the calendar has -/

/-- The number of days of a month. -/
def daysOf (year month : Nat) : Nat :=
  if month = 2 then
    if year % 4 = 0 && (year % 100 ≠ 0 || year % 400 = 0) then 29 else 28
  else if [4, 6, 9, 11].contains month then 30
  else 31

/-- What is wrong with a day, if anything is. -/
def Date.fault? (d : Date) : Option String :=
  if d.year = 0 then some "year 0 is out of range"
  else if d.month < 1 || 12 < d.month then some "month must be in 1..12"
  else if d.day < 1 || daysOf d.year d.month < d.day then some "day is out of range for month"
  else none

/-- What is wrong with a distance from universal time, if anything is: it is less than a day. -/
def offsetFault? (minutes : Int) : Option String :=
  if minutes.natAbs < 1440 then none
  else some ("offset must be a timedelta strictly between -timedelta(hours=24) and "
    ++ s!"timedelta(hours=24), not {stretchLiteral minutes}.")

/-- What is wrong with a moment, if anything is: its zone is looked at first, then its day. -/
def Moment.fault? (m : Moment) : Option String :=
  match (m.offset.bind offsetFault?).or (Date.fault? m.date) with
  | some message => some message
  | none =>
    if m.hour > 23 then some "hour must be in 0..23"
    else if m.minute > 59 then some "minute must be in 0..59"
    else if m.second > 59 then some "second must be in 0..59"
    else none

/-! ## The same moment -/

/-- The days of a year before a month. -/
def daysBefore (year : Nat) : Nat → Nat
  | 0 => 0
  | month + 1 => daysBefore year month + if month = 0 then 0 else daysOf year month

/-- The number of a day, counted from the start of the calendar. -/
def Date.ordinal (d : Date) : Nat :=
  let years := d.year - 1
  years * 365 + years / 4 - years / 100 + years / 400 + daysBefore d.year d.month + d.day

/-- The seconds of a moment since the start of the calendar, its zone being left out. -/
def Moment.seconds (m : Moment) : Int :=
  ((m.date.ordinal * 24 + m.hour) * 60 + m.minute) * 60 + m.second

/-- Are two moments the same? With zones they are if they are one instant; without, if they read the
same. A moment with a zone differs from every one without. -/
def Moment.sameInstant (m n : Moment) : Bool :=
  match m.offset, n.offset with
  | some a, some b => m.seconds - a * 60 = n.seconds - b * 60 && m.micro = n.micro
  | none, none => m = n
  | _, _ => false

end Amend
