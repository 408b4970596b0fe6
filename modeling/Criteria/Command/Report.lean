/-
What the command reports: an exit code, the text on standard output, and on standard error a log
of events followed by a complaint. Which events are logged depends on the verbosity alone, and
only events that tell of a failure are logged always.

The events and the complaint are the command's. How an event is written down is the business of the
logging library: it stamps the event with the time and puts the record in a format of its own. Clock
and format are therefore parameters of what stands on standard error (`Report.written`,
`Stderr.text`).
-/
import Criteria.Error

set_option autoImplicit false

namespace Criteria.Command

/-! ## Events -/

/-- The level of an event. -/
inductive Level where
  | error
  | info
  | debug
  deriving DecidableEq, Repr

namespace Level

/-- The name of a level in the log. -/
def name : Level → String
  | .error => "ERROR"
  | .info => "INFO"
  | .debug => "DEBUG"

/-- The least verbosity at which events of a level are logged. -/
def threshold : Level → Nat
  | .error => 0
  | .info => 1
  | .debug => 2

end Level

/-- Something that the log tells of. -/
inductive Event where
  /-- The criterion was divided into tokens. -/
  | tokenized (ts : List Token)
  /-- The criterion was converted to JSON text of so many bytes. -/
  | converted (bytes : Nat)
  /-- The criterion was not converted. -/
  | failed (e : Error) (criterion : String)
  /-- The line that was read is not text. -/
  | unreadable
  deriving DecidableEq

namespace Event

/-- The level of an event. -/
def level : Event → Level
  | .tokenized _ => .debug
  | .converted _ => .info
  | .failed _ _ => .error
  | .unreadable => .error

/-- The reason given when the bytes of a line are not text. -/
def invalidText : String := "stream did not contain valid UTF-8"

/-- The text of an event. -/
def text : Event → String
  | .tokenized ts =>
    "tokenized tokens=" ++ " | ".intercalate (ts.map fun t => String.ofList t.text)
  | .converted bytes => "converted bytes=" ++ toString bytes
  | .failed e criterion =>
    "conversion failed error=" ++ e.message ++ " criteria=" ++ criterion
  | .unreadable => "failed to read criteria from stdin error=" ++ invalidText

/-- The line of an event without what the logging library adds to it: no time of day, no colours and
no padding of the level. -/
def line (e : Event) : String := e.level.name ++ " csl2jl: " ++ e.text ++ "\n"

/-- The events that are logged at a verbosity. -/
def logged (verbosity : Nat) (es : List Event) : List Event :=
  es.filter fun e => e.level.threshold ≤ verbosity

end Event

/-! ## Standard error -/

/-- An event in the log, with the stamp that it was given when it was logged. -/
structure Record (σ : Type) where
  stamp : σ
  event : Event

/-- What stands on standard error: the records of the log, and after them the complaint. -/
structure Stderr (σ : Type) where
  records : List (Record σ)
  complaint : String

/-- The text on standard error when records are written in a format. -/
def Stderr.text {σ : Type} (format : Record σ → String) (e : Stderr σ) : String :=
  String.join (e.records.map format) ++ e.complaint

/-! ## Reports -/

/-- What a run of the command leaves behind. -/
structure Report where
  /-- The exit code. -/
  code : UInt32 := 0
  /-- The text on standard output. -/
  stdout : String := ""
  /-- The events that are logged. -/
  log : List Event := []
  /-- What is complained of on standard error, after the log. -/
  complaint : String := ""
  deriving DecidableEq

namespace Report

/-- What is written to standard error while a clock runs: the event with index `i` in the log is
stamped with `clock i`. -/
def written {σ : Type} (clock : Nat → σ) (r : Report) : Stderr σ where
  records := r.log.mapIdx fun i e => ⟨clock i, e⟩
  complaint := r.complaint

/-- The text on standard error when no record is stamped. -/
def stderr (r : Report) : String := (r.written fun _ => ()).text fun record => record.event.line

/-- The report with more text in front of its output. -/
def after (s : String) (r : Report) : Report := { r with stdout := s ++ r.stdout }

end Report

end Criteria.Command
