/-
The journal of a run: everything it says and does, in the order in which it happens. The log, the
outcome events, the queries and the writes are read off it.
-/
import Amend.Failure
import Amend.Telemetry

namespace Amend

/-- How much a note matters. -/
inductive Level where
  | debug
  | info
  | warning
  | error
  deriving DecidableEq, Repr

namespace Level

/-- The name of a level. -/
def name : Level → String
  | .debug => "DEBUG"
  | .info => "INFO"
  | .warning => "WARNING"
  | .error => "ERROR"

/-- The levels in ascending order. -/
def rank : Level → Nat
  | .debug => 10
  | .info => 20
  | .warning => 30
  | .error => 40

/-- The level of a name. -/
def ofName? (s : String) : Option Level :=
  [debug, info, warning, error].find? (·.name = s)

end Level

/-- Who speaks. -/
inductive Channel where
  | run
  | report
  | selection
  | listing
  | files
  | telemetry
  deriving DecidableEq, Repr

/-- The name of a channel in the log. -/
def Channel.name : Channel → String
  | .run => "batchfix.orchestrator"
  | .report => "batchfix.backends.ruff"
  | .selection => "batchfix.selector"
  | .listing => "batchfix.listing"
  | .files => "batchfix.files"
  | .telemetry => "batchfix.telemetry"

/-- One thing that happens. -/
inductive Entry where
  | note (level : Level) (channel : Channel) (text : String)
  | outcome (event : Event)
  | telemetry (name : String) (fields : Telemetry.Fields)
  | query (diagnostic : Diagnostic)
  /-- The writer is called, and this is what comes of it. -/
  | write (path content : String) (result : Except Failure Unit)
  deriving Repr

/-- What happens, in order. -/
abbrev Journal := List Entry

/-- A call of the writer: the file, the text it was to get, and what came of it. -/
structure WriterCall where
  path : String
  content : String
  result : Except Failure Unit
  deriving Repr

namespace Entry

/-- The event of an entry that is one. -/
def event? : Entry → Option Event
  | .outcome event => some event
  | _ => none

/-- The finding of an entry that is a query. -/
def query? : Entry → Option Diagnostic
  | .query d => some d
  | _ => none

/-- The call of an entry that is one of the writer. -/
def call? : Entry → Option WriterCall
  | .write path content result => some ⟨path, content, result⟩
  | _ => none

end Entry

/-- A line of the log. -/
structure LogLine where
  level : Level
  channel : Channel
  text : String
  deriving DecidableEq, Repr

/-- The entry that leaves a line in the log and nothing else. -/
def LogLine.entry (line : LogLine) : Entry :=
  .note line.level line.channel line.text

namespace Journal

/-- The outcome events. -/
def events (journal : Journal) : List Event :=
  journal.filterMap Entry.event?

/-- The findings that were asked about. -/
def queries (journal : Journal) : List Diagnostic :=
  journal.filterMap Entry.query?

/-- The calls of the writer. -/
def calls (journal : Journal) : List WriterCall :=
  journal.filterMap Entry.call?

/-- The line that an entry leaves in the log. `echo` tells whether outcome events are logged as
telemetry, and `time` is the time that telemetry lines bear. -/
def logLine? (time : String) (echo : Bool) : Entry → Option LogLine
  | .note level channel text => some ⟨level, channel, text⟩
  | .telemetry name fields => some ⟨.info, .telemetry, Telemetry.line time name fields⟩
  | .outcome event =>
    if echo then some ⟨.info, .telemetry, Telemetry.line time "outcome" (Telemetry.ofEvent event)⟩
    else none
  | .query _ => none
  | .write .. => none

/-- The log. -/
def log (time : String) (echo : Bool) (journal : Journal) : List LogLine :=
  journal.filterMap (logLine? time echo)

end Journal

end Amend
