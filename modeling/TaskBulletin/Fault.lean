import TaskBulletin.Text.Basic

/-!
# Faults

What a collaborator outside the program may raise: a kind, and a message.
-/

namespace TaskBulletin

inductive FaultKind where
  | runtime
  | value
  | refused
  | timeout
  | client
  | connection
  | payload
  /-- A timeout that the HTTP client itself reports. -/
  | serverTimeout
  deriving Repr, DecidableEq

namespace FaultKind

def isTimeout : FaultKind → Bool
  | timeout => true
  | serverTimeout => true
  | _ => false

/-- Is this one of the HTTP client's own failures? -/
def isClient : FaultKind → Bool
  | client => true
  | connection => true
  | payload => true
  | serverTimeout => true
  | _ => false

end FaultKind

structure Fault where
  kind : FaultKind
  message : Text
  deriving Repr, DecidableEq

end TaskBulletin
