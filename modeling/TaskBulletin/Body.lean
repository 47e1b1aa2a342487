import TaskBulletin.Bracket.Conversion
import TaskBulletin.Html.Excerpt
import TaskBulletin.Portal.Connection
import TaskBulletin.Task.Label

/-!
# Rendering a body

A body is converted and cut to its budget; a dash stands for one of which nothing
is left. Files are looked up at the portal and users in a directory, as far as
there are any, and all that happens on the way goes to one log.
-/

namespace TaskBulletin

open TaskBulletin.Bracket (Services)

def dash : Text := ['—']

/-- Convert a body and cut it to a budget of visible characters. -/
def renderBody {σ : Type} (sv : Services σ) (budget : Int) (source : Text) (s : σ) :
    Except (OverlongNumeral × σ) (Text × σ) := do
  let (html, s) ← Bracket.convert sv source s
  let kept := Html.excerpt budget html
  return (if kept.isEmpty then dash else kept, s)

/-- The users among whom mentions are looked up, and the portal they belong to. -/
structure People where
  domain : Option Text
  find : Int → Except Fault (Option User)

/-- The connection that files are fetched through, and the log so far. -/
structure Desk where
  connection : Option Portal.Connection
  log : List LogEntry

namespace Desk

def empty : Desk := ⟨none, []⟩

def write (s : Desk) (entries : List LogEntry) : Desk := { s with log := s.log ++ entries }

/-- Fetch a file; without a connection none is found. -/
def file (network : Portal.Network) (id : Int) (s : Desk) :
    Except Text (Option Bracket.DiskFile) × Desk :=
  match s.connection with
  | none => (Bracket.findNothing id, s)
  | some c =>
    let (result, events, c) := c.file network id
    (result.mapError Portal.CallError.message,
      { connection := some c, log := s.log ++ events.map Portal.Event.entry })

def directory (people : People) : Task.Directory Desk where
  findUser id s := (people.find id, s)
  findTask _ s := (.ok none, s)
  note n s := s.write [n.entry]

/-- Link to a user; without a directory nobody is known. -/
def user (people : Option People) (id : Int) (s : Desk) : Except Text Text × Desk :=
  match people with
  | none => (Bracket.knowNobody id, s)
  | some people =>
    let (label, s) := Task.userLabel (directory people) people.domain id s
    (label.mapError Fault.message, s)

def services (network : Portal.Network) (people : Option People) : Services Desk where
  file := file network
  user := user people
  report p s := s.write [p.entry]

end Desk

end TaskBulletin
