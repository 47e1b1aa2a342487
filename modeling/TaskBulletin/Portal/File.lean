import TaskBulletin.Bracket.Lookup
import TaskBulletin.Number.Whole
import TaskBulletin.Portal.Exchange

/-!
# Disk files of the portal

A file that the portal does not know is no error; an answer that does not describe
a file is one. That error names the file, so it cannot be raised for an id that is
too long to be written.
-/

namespace TaskBulletin.Portal

open TaskBulletin.Bracket (DiskFile)

/-- Read a file's id: a whole number, a truth value, a number without regard to its
fraction, or a numeral. `none` if it is none of them. -/
def readId (v : Value) : Except CallError (Option Int) :=
  match v with
  | .int n => .ok (some n)
  | .bool b => .ok (some (if b then 1 else 0))
  | .text t => .ok (Numeral.readInt? t)
  | .float x =>
    match Binary64.parts x with
    | .infinite _ => .error .infiniteId
    | parts => .ok parts.truncate?
  | _ => .ok none

/-- Read a file from the result of a call. `none` if a field is missing or its id
cannot be read. -/
def readFile (v : Value) : Except CallError (Option DiskFile) :=
  match v with
  | .object fields =>
    match Value.lookup "ID" fields with
    | none => .ok none
    | some idValue => do
      let id ← readId idValue
      return do
        let id ← id
        let name ← Value.lookup "NAME" fields
        let url ← Value.lookup "DOWNLOAD_URL" fields
        return ⟨id, name.print, url.print⟩
  | _ => .ok none

/-- The failure of a call for a file that its result does not describe. -/
def malformed (id : Int) : CallError :=
  match Numeral.write id with
  | .ok written => .malformedFile written
  | .error f => .fault f

/-- The file that a call for it came back with. -/
def fileOfCall (id : Int) : Except CallError Body → Except CallError (Option DiskFile)
  | .error e => if e.meansAbsent then .ok none else .error e
  | .ok body =>
    match (Value.lookup "result" body).filter Value.holds with
    | none => .ok none
    | some v => do
      match ← readFile v with
      | some file => return some file
      | none => throw (malformed id)

end TaskBulletin.Portal
