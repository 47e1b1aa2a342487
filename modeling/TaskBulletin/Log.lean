import TaskBulletin.Value

/-!
# Log entries

A log entry is a level, a fixed event and the fields that go with it.
-/

namespace TaskBulletin

inductive LogLevel where
  | debug
  | warning
  | error
  deriving Repr, DecidableEq

def LogLevel.name : LogLevel → String
  | .debug => "debug"
  | .warning => "warning"
  | .error => "error"

def LogLevel.number : LogLevel → Nat
  | .debug => 10
  | .warning => 30
  | .error => 40

structure LogEntry where
  level : LogLevel
  event : String
  fields : List (String × Value)

end TaskBulletin
