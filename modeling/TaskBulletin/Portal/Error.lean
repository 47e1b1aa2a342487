import TaskBulletin.Fault
import TaskBulletin.Value

/-!
# How a portal call fails

A call times out, does not reach the portal, is answered by something other than
a JSON object, or is refused by the portal with a code. A fault of another kind
passes through unchanged, and two answers of the wrong shape have an error of
their own.
-/

namespace TaskBulletin.Portal

inductive CallError where
  | timedOut (method : Text)
  | network (method reason : Text)
  | httpStatus (method : Text) (status : Int)
  | rejected (method : Text) (status : Int) (code description : Text)
  | malformedFile (id : Text)
  | fault (f : Fault)
  /-- The timing of an answer is not an object. -/
  | timingKind (kind : String)
  /-- The id of a file is an infinite number. -/
  | infiniteId
  deriving Repr, DecidableEq

def fileMethod : Text := "disk.file.get".toList

namespace CallError

def message : CallError → Text
  | timedOut method => "Bitrix call ".toList ++ method ++ " timed out".toList
  | network method reason => "Network error calling ".toList ++ method ++ ": ".toList ++ reason
  | httpStatus method status =>
    "Bitrix call ".toList ++ method ++ " failed with HTTP ".toList ++ Text.ofInt status
  | rejected method _ code description =>
    Text.trim ("Bitrix call ".toList ++ method ++ " failed: ".toList ++ code ++ ' ' :: description)
  | malformedFile id => "Malformed disk.file.get result for file ".toList ++ id
  | fault f => f.message
  | timingKind kind => ("'" ++ kind ++ "' object has no attribute 'get'").toList
  | infiniteId => "cannot convert float infinity to integer".toList

/-- The status, method and code of an error that the portal or the way to it gave
rise to. -/
def details? : CallError → Option (Int × Text × Text)
  | network method _ => some (0, method, [])
  | httpStatus method status => some (status, method, [])
  | rejected method status code _ => some (status, method, code)
  | malformedFile _ => some (0, fileMethod, [])
  | _ => none

/-- The codes by which the portal says that a file does not exist. -/
def absenceCodes : List Text := ["ERROR_NOT_FOUND", "NOT_FOUND"].map String.toList

def meansAbsent : CallError → Bool
  | rejected _ _ code _ => absenceCodes.contains code
  | _ => false

end CallError

end TaskBulletin.Portal
