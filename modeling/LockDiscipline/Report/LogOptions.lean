import LockDiscipline.Text.Pieces

/-!
How the log of a run is written: its format and how much of it there is.
-/

namespace LockDiscipline

/-- How an entry of the log is written. -/
inductive LogFormat where
  | auto
  | text
  | json
  deriving DecidableEq, Repr

namespace LogFormat

/-- The format as it is printed. -/
def render : LogFormat → String
  | .auto => "auto"
  | .text => "text"
  | .json => "json"

/-- The format of a word, in any ASCII case. -/
def ofWord? (word : String) : Option LogFormat :=
  match Text.lower word with
  | "auto" => some .auto
  | "text" | "plain" => some .text
  | "json" => some .json
  | _ => none

end LogFormat

/-- How much is logged. -/
inductive LogLevel where
  | error
  | warn
  | info
  | debug
  | trace
  deriving DecidableEq, Repr

namespace LogLevel

/-- The level as it is printed. -/
def render : LogLevel → String
  | .error => "error"
  | .warn => "warn"
  | .info => "info"
  | .debug => "debug"
  | .trace => "trace"

/-- The level as it is named in the entries of a log: in capitals. -/
def eventLevel (l : LogLevel) : String := Text.upper l.render

/-- How much is logged at the level: a wordier level has a larger number. -/
def verbosity : LogLevel → Nat
  | .error => 0
  | .warn => 1
  | .info => 2
  | .debug => 3
  | .trace => 4

/-- The level of a word, in any ASCII case. -/
def ofWord? (word : String) : Option LogLevel :=
  match Text.lower word with
  | "error" | "err" => some .error
  | "warn" | "warning" => some .warn
  | "info" => some .info
  | "debug" => some .debug
  | "trace" | "verbose" => some .trace
  | _ => none

end LogLevel

/-- The options of a log. -/
structure LogOptions where
  format : LogFormat := .auto
  level : LogLevel := .warn
  deriving DecidableEq, Repr

namespace LogOptions

/-- The options with those changed that the two words, where given, name. -/
def override (o : LogOptions) (format level : Option String) : LogOptions :=
  { format := (format.bind LogFormat.ofWord?).getD o.format
    level := (level.bind LogLevel.ofWord?).getD o.level }

/-- The options with the format chosen: text, unless another one was asked for. -/
def resolved (o : LogOptions) : LogOptions :=
  match o.format with
  | .auto => { o with format := .text }
  | _ => o

end LogOptions

end LockDiscipline
