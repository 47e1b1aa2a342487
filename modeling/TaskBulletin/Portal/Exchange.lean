import TaskBulletin.Log
import TaskBulletin.Portal.Error

/-!
# One exchange with the portal

An exchange ends in a fault or in a response, whose body can be read or not. What
a call makes of it, and what it logs on the way, depends on nothing else.
-/

namespace TaskBulletin.Portal

/-- The outcome of reading a response's body. A number in it that is too long is not
read, so every number of a body can be written. -/
inductive Reading where
  | body (v : Value) (h : v.writable = true)
  | unreadable (f : Fault)

/-- The outcome of sending a request. The status of a response is a short number. -/
inductive Exchange where
  | raised (f : Fault)
  | answered (status : Int) (h : Numeral.writable status = true) (reading : Reading)

/-- The fields of a JSON object. -/
abbrev Body := List (Text × Value)

/-- What a call logs. -/
inductive Event where
  | requested (method : Text)
  | timedOut (method : Text)
  | unreachable (method reason : Text)
  | badResponse (method : Text) (status : Int)
  | rejected (method : Text) (status : Int) (code : Text) (description : Value)
  | answered (method : Text) (status : Int) (duration processing : Value)

def Event.entry : Event → LogEntry
  | requested method => ⟨.debug, "Bitrix request", [("method", .text method)]⟩
  | timedOut method => ⟨.error, "Bitrix request timed out", [("method", .text method)]⟩
  | unreachable method reason =>
    ⟨.error, "Bitrix network error", [("method", .text method), ("error", .text reason)]⟩
  | badResponse method status =>
    ⟨.error, "Bitrix error response", [("method", .text method), ("status", .int status)]⟩
  | rejected method status code description =>
    ⟨.error, "Bitrix returned an error",
      [("method", .text method), ("status", .int status), ("code", .text code),
        ("description", description)]⟩
  | answered method status duration processing =>
    ⟨.debug, "Bitrix response",
      [("method", .text method), ("status", .int status), ("duration", duration),
        ("processing", processing)]⟩

/-- The result of an exchange and what is logged about it. -/
abbrev Settled := Except CallError Body × List Event

/-- A fault: being too late goes before being unreachable. -/
def settleFault (method : Text) (f : Fault) : Settled :=
  if f.kind.isTimeout then (.error (.timedOut method), [.timedOut method])
  else if f.kind.isClient then
    (.error (.network method f.message), [.unreachable method f.message])
  else (.error (.fault f), [])

/-- The timing that comes with an answer: nothing if it is missing or empty. -/
def timing (body : Body) : Except CallError Body :=
  match (Value.lookup "time" body).filter Value.holds with
  | none => .ok []
  | some (.object fields) => .ok fields
  | some v => .error (.timingKind v.kind)

/-- An answer that is an object: an error, or the result of the call. -/
def settleObject (method : Text) (status : Int) (body : Body) : Settled :=
  match Value.lookup "error" body with
  | some error =>
    let code := error.print
    let description := (Value.lookup "error_description" body).getD (.text [])
    (.error (.rejected method status code description.print),
      [.rejected method status code description])
  | none =>
    match timing body with
    | .error e => (.error e, [])
    | .ok time =>
      (.ok body, [.answered method status ((Value.lookup "duration" time).getD .null)
        ((Value.lookup "processing" time).getD .null)])

/-- A response: it counts when its status is below 500 and its body is an object. -/
def settleBody (method : Text) (status : Int) (v : Value) : Settled :=
  let bad := (.error (.httpStatus method status), [.badResponse method status])
  if 500 ≤ status then bad
  else
    match v with
    | .object body => settleObject method status body
    | _ => bad

/-- What an exchange comes to. A body that is no JSON is no object either. -/
def settle (method : Text) : Exchange → Settled
  | .raised f => settleFault method f
  | .answered status _ (.body v _) => settleBody method status v
  | .answered status _ (.unreadable f) =>
    if f.kind = .value then settleBody method status .null else settleFault method f

end TaskBulletin.Portal
