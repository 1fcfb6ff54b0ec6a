import Colloquy.Number.Numeral
/-!
# Log entries and diagnostics

What is reported beside results is logged, with a level of importance. Compiling does not stop at the
first fault. Every faulty line leaves a diagnostic, and a fatal one keeps the script from giving a
graph.
-/

namespace Colloquy

/-- The importance of a log entry. -/
inductive Level where
  | debug
  | info
  | warning
  | error
  deriving DecidableEq

/-- The name of a level. -/
def Level.name : Level → String
  | .debug => "DEBUG"
  | .info => "INFO"
  | .warning => "WARNING"
  | .error => "ERROR"

/-- A log entry. -/
structure LogEntry where
  level : Level
  message : String
  deriving DecidableEq

/-! ### Diagnostics -/

/-- How bad a fault is. -/
inductive Severity where
  | warning
  | error
  deriving DecidableEq

/-- A fault of a script and the line it was found on. -/
structure Diagnostic where
  line : Int
  severity : Severity
  message : String
  fatal : Bool := false
  deriving DecidableEq

/-- The name of a severity. -/
def Severity.name : Severity → String
  | .warning => "warning"
  | .error => "error"

/-- The name of a severity at the start of a sentence. -/
def Severity.title : Severity → String
  | .warning => "Warning"
  | .error => "Error"

/-- The level at which a fault is logged. -/
def Severity.level : Severity → Level
  | .warning => .warning
  | .error => .error

namespace Diagnostic

/-- A warning. -/
def warn (line : Int) (message : String) : Diagnostic :=
  ⟨line, .warning, message, false⟩

/-- An error that does not keep the script from giving a graph. -/
def complain (line : Int) (message : String) : Diagnostic :=
  ⟨line, .error, message, false⟩

/-- An error that does. -/
def refuse (line : Int) (message : String) : Diagnostic :=
  ⟨line, .error, message, true⟩

/-- Whether a diagnostic is an error. -/
def isError (d : Diagnostic) : Bool :=
  d.severity = .error

/-- A diagnostic of a script as a sentence. -/
def format (d : Diagnostic) (script : String) : String :=
  d.severity.title ++ " in " ++ script ++ " line " ++ Number.intText d.line ++ ": " ++ d.message

/-- A diagnostic as it is logged. -/
def logEntry (d : Diagnostic) (script : String) : LogEntry :=
  ⟨d.severity.level, d.format script⟩

end Diagnostic

end Colloquy
