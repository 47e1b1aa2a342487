import TaskBulletin.Configuration.Basic
import TaskBulletin.Portal.File

/-!
# Connections to the portal

A connection sends every request through an HTTP session: the one it was given,
or one that it opens when it first needs it and closes itself. A closed
connection opens another session when it is used again. The network is known by
how the first request fares on it, the second, and so on.
-/

namespace TaskBulletin.Portal

/-- How each request fares, counted from zero over the life of a connection. -/
abbrev Network := Nat → Exchange

/-- An HTTP session: the requests sent through it, and whether it is closed. -/
structure Session where
  posts : List (Text × Value) := []
  closed : Bool := false

structure Connection where
  baseUrl : Text
  timeout : Float
  /-- Does the connection open and close its sessions itself? -/
  ownsSessions : Bool
  /-- Every session used so far, oldest first. -/
  sessions : List Session
  /-- The place of the session in use. -/
  current : Option Nat
  /-- How many requests were sent. -/
  sent : Nat

namespace Connection

/-- What a configuration without a complete webhook is told. -/
def missingWebhook : Text :=
  "BX24_DOMAIN, BX24_INCOMING_USER and BX24_INCOMING_TOKEN are required".toList

/-- A connection for a configuration with a complete webhook, through a session
that is handed over or through its own. -/
def open? (c : Configuration) (handedOver : Bool) : Option Connection :=
  c.webhookUrl?.map fun url =>
    { baseUrl := url
      timeout := c.timeout
      ownsSessions := !handedOver
      sessions := if handedOver then [{}] else []
      current := if handedOver then some 0 else none
      sent := 0 }

/-- Make sure that a session is in use, and say which. -/
def useSession (c : Connection) : Nat × Connection :=
  match c.current with
  | some k => (k, c)
  | none =>
    let k := c.sessions.length
    (k, { c with sessions := c.sessions ++ [{}], current := some k })

/-- Close the session in use, if the connection opened it. -/
def close (c : Connection) : Connection :=
  match c.ownsSessions, c.current with
  | true, some k =>
    { c with
      sessions := c.sessions.modify k fun s => { s with closed := true }
      current := none }
  | _, _ => c

/-- Send a request through the session in use, and see how it fares. -/
def post (network : Network) (c : Connection) (url : Text) (body : Value) :
    Exchange × Connection :=
  let (k, c) := c.useSession
  let sessions := c.sessions.modify k fun s => { s with posts := s.posts ++ [(url, body)] }
  (network c.sent, { c with sessions, sent := c.sent + 1 })

/-- Call a method of the portal: its answer, what is logged, and the connection
afterwards. Parameters that are missing or empty are sent as an empty object. -/
def call (network : Network) (c : Connection) (method : Text) (params : Value) :
    Except CallError Body × List Event × Connection :=
  let body := if params.holds then params else .object []
  let (exchange, c) := c.post network (c.baseUrl ++ method) body
  let (result, events) := settle method exchange
  (result, .requested method :: events, c)

/-- Fetch a disk file, or nothing if there is none. -/
def file (network : Network) (c : Connection) (id : Int) :
    Except CallError (Option Bracket.DiskFile) × List Event × Connection :=
  let (result, events, c) := c.call network fileMethod (.object [("id".toList, .int id)])
  (fileOfCall id result, events, c)

/-! ## Using a connection -/

/-- What is done with a connection; to leave the block that it was opened for is to
close it. -/
inductive Action where
  | call (method : Text) (params : Value)
  | file (id : Int)
  | close

inductive Reply where
  | body (b : Body)
  | file (f : Option Bracket.DiskFile)
  | closed
  | failed (e : CallError)

def act (network : Network) (c : Connection) : Action → Reply × List Event × Connection
  | .call method params =>
    let (result, events, c) := c.call network method params
    (match result with
      | .ok b => .body b
      | .error e => .failed e, events, c)
  | .file id =>
    let (result, events, c) := c.file network id
    (match result with
      | .ok f => .file f
      | .error e => .failed e, events, c)
  | .close => (.closed, [], c.close)

/-- Take some actions one after another: the replies, what is logged about each, and
the connection afterwards. -/
def run (network : Network) : List Action → Connection → List (Reply × List Event) × Connection
  | [], c => ([], c)
  | a :: as, c =>
    let (reply, events, c) := c.act network a
    let (rest, c) := run network as c
    ((reply, events) :: rest, c)

end Connection

end TaskBulletin.Portal
