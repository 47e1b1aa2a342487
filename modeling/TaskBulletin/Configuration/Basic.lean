import TaskBulletin.Configuration.Field

/-!
# The configuration

The portal's address and the webhook that gives access to it, the patience and
the length budget of the program, and how it logs. Every setting is read on its
own, so all refusals are known at once, in the order of the settings.
-/

namespace TaskBulletin

/-- The least severe entries that are logged. -/
inductive LogThreshold where
  | debug
  | info
  | warning
  | error
  | critical
  deriving Repr, DecidableEq

namespace LogThreshold

def name : LogThreshold → String
  | debug => "DEBUG"
  | info => "INFO"
  | warning => "WARNING"
  | error => "ERROR"
  | critical => "CRITICAL"

def number : LogThreshold → Nat
  | debug => 10
  | info => 20
  | warning => 30
  | error => 40
  | critical => 50

def all : List LogThreshold := [debug, info, warning, error, critical]

/-- The capital of a letter that can occur in a name: of an ASCII letter, or of the
dotless I. -/
def capital (c : Char) : Char := if c == '\u0131' then 'I' else c.toUpper

/-- The threshold of a name, in any case. -/
def ofName? (t : Text) : Option LogThreshold :=
  all.find? fun level => level.name.toList == t.map capital

end LogThreshold

structure Configuration where
  /-- The portal's address, without a slash at its end. -/
  domain : Option Text
  /-- The user who owns the webhook. -/
  webhookUser : Option Text
  token : Option Text
  /-- Seconds that a call to the portal may take. -/
  timeout : Float
  /-- Visible characters kept of a body. -/
  bodyLength : Int
  logLevel : LogThreshold
  debug : Bool

namespace Configuration

/-- The settings, in the order in which they are read. -/
inductive Setting where
  | domain
  | webhookUser
  | token
  | timeout
  | bodyLength
  | logLevel
  | debug
  deriving Repr, DecidableEq

def Setting.name : Setting → String
  | domain => "bx24_domain"
  | webhookUser => "bx24_incoming_user"
  | token => "bx24_incoming_token"
  | timeout => "bitrix_timeout_seconds"
  | bodyLength => "description_max_length"
  | logLevel => "log_level"
  | debug => "debug"

def defaultBodyLength : Int := 300

def defaultTimeout : Float := 8

/-- The normal form of an address: no blanks around it, no slashes at its end, and
a web scheme. Nothing is left of an address of blanks and slashes. -/
def domainNormalForm (t : Text) : Except FieldError (Option Text) :=
  let domain := ((Text.trim t).reverse.dropWhile (· == '/')).reverse
  if domain.isEmpty then .ok none
  else if "http://".toList.isPrefixOf domain || "https://".toList.isPrefixOf domain then
    .ok (some domain)
  else .error (.domainScheme domain)

def readDomain : Value → Except FieldError (Option Text)
  | .text t => domainNormalForm t
  | v => readOptionalText v

def readTimeout (v : Value) : Except FieldError Float := do
  let x ← readNumber v
  if 0 < x then return x else throw .notPositive

def readBodyLength (v : Value) : Except FieldError Int := do
  let n ← readWhole v
  if 1 ≤ n then return n else throw .belowOne

def readLogLevel (v : Value) : Except FieldError LogThreshold := do
  let t ← readText v
  match LogThreshold.ofName? t with
  | some level => return level
  | none => throw .unknownLogLevel

/-- A setting as read: its default when it is not given. -/
def readOr {α : Type} (given : Option Value) (default : α) (read : Value → Except FieldError α) :
    Except FieldError α :=
  given.elim (.ok default) read

/-- The refusal of a setting, if it was refused. -/
def refusal {α : Type} (s : Setting) : Except FieldError α → List (Setting × FieldError)
  | .ok _ => []
  | .error e => [(s, e)]

/-- How the values given for the settings other than the address are read. -/
structure Readers where
  webhookUser : Value → Except FieldError (Option Text) := readOptionalText
  token : Value → Except FieldError (Option Text) := readOptionalText
  timeout : Value → Except FieldError Float := readTimeout
  bodyLength : Value → Except FieldError Int := readBodyLength
  logLevel : Value → Except FieldError LogThreshold := readLogLevel
  debug : Value → Except FieldError Bool := readFlag

/-- Read a configuration from the values given for its settings. -/
def readWith (read : Readers) (given : Setting → Option Value) :
    Except (List (Setting × FieldError)) Configuration :=
  let domain := readOr (given .domain) none readDomain
  let webhookUser := readOr (given .webhookUser) none read.webhookUser
  let token := readOr (given .token) none read.token
  let timeout := readOr (given .timeout) defaultTimeout read.timeout
  let bodyLength := readOr (given .bodyLength) defaultBodyLength read.bodyLength
  let logLevel := readOr (given .logLevel) .info read.logLevel
  let debug := readOr (given .debug) false read.debug
  match domain, webhookUser, token, timeout, bodyLength, logLevel, debug with
  | .ok domain, .ok webhookUser, .ok token, .ok timeout, .ok bodyLength, .ok logLevel, .ok debug =>
    .ok ⟨domain, webhookUser, token, timeout, bodyLength, logLevel, debug⟩
  | _, _, _, _, _, _, _ =>
    .error (refusal .domain domain ++ refusal .webhookUser webhookUser ++ refusal .token token ++
      refusal .timeout timeout ++ refusal .bodyLength bodyLength ++ refusal .logLevel logLevel ++
      refusal .debug debug)

/-- Read a configuration as the program does. -/
def ofGiven (given : Setting → Option Value) :
    Except (List (Setting × FieldError)) Configuration :=
  readWith {} given

/-- A text that is there and not empty. -/
def nonempty? : Option Text → Option Text
  | some [] => none
  | t => t

/-- The token, unless it is empty. -/
def token? (c : Configuration) : Option Text := nonempty? c.token

/-- The address that calls are sent to, with a slash at its end, when the webhook
is configured completely. -/
def webhookUrl? (c : Configuration) : Option Text := do
  let domain ← nonempty? c.domain
  let user ← nonempty? c.webhookUser
  let token ← c.token?
  return domain ++ "/rest/".toList ++ user ++ ['/'] ++ token ++ ['/']

def hasWebhook (c : Configuration) : Bool := c.webhookUrl?.isSome

end Configuration

end TaskBulletin
