import TaskBulletin.Body
import TaskBulletin.CommandLine.Options
import TaskBulletin.Configuration.Environment

/-!
# What a command line does

A command line either ends at once, because it asks for help or the version or
because it or the configuration is refused, or it asks for a job: to read a body,
to render it and to print it.
-/

namespace TaskBulletin.CommandLine

inductive Renderer where
  | console
  | json
  deriving Repr, DecidableEq

/-- How logging is set up: from which severity on, and in which form. -/
structure LogMode where
  threshold : LogThreshold
  renderer : Renderer
  deriving Repr, DecidableEq

/-- Debugging logs everything, in a form for people. -/
def LogMode.of (debug : Bool) (threshold : LogThreshold) : LogMode :=
  if debug then ⟨.debug, .console⟩ else ⟨threshold, .json⟩

/-- Is an entry severe enough to be logged? -/
def LogMode.admits (m : LogMode) (e : LogEntry) : Bool := m.threshold.number ≤ e.level.number

/-- What a run leaves behind. -/
structure Outcome where
  exit : Nat
  stdout : Text := []
  stderr : Text := []
  logging : List LogMode := []
  log : List LogEntry := []

structure Job where
  options : Options
  configuration : Configuration
  logging : LogMode
  /-- What was said while the configuration was read. -/
  complaints : Text := []

inductive Plan where
  | ended (o : Outcome)
  | job (j : Job)

def usage : String :=
  "usage: taskgram [-h] [--version] [--debug] [--offline]\n" ++
  "                [--max-length MAX_LENGTH]\n" ++
  "                [file]\n"

def helpText : String :=
  usage ++ "\nRender Bitrix24 BBCode as Telegram HTML\n\n" ++
  "positional arguments:\n" ++
  "  file                  BBCode file to read (default: stdin)\n\n" ++
  "options:\n" ++
  "  -h, --help            show this help message and exit\n" ++
  "  --version             show program's version number and exit\n" ++
  "  --debug               Enable debug logging\n" ++
  "  --offline             Do not call Bitrix24; disk files render as not found\n" ++
  "  --max-length MAX_LENGTH\n" ++
  "                        Visible characters to keep (default:\n" ++
  "                        DESCRIPTION_MAX_LENGTH)\n"

def versionLine : String := "Taskgram 1.0.0\n"

def Ending.outcome : Ending → Outcome
  | .help => { exit := 0, stdout := helpText.toList }
  | .version => { exit := 0, stdout := versionLine.toList }
  | .refused e =>
    { exit := 2
      stderr := usage.toList ++ "taskgram: error: ".toList ++ e.message ++ ['\n'] }

/-- The entry for a configuration that was refused. -/
def configurationError : LogEntry := ⟨.error, "Configuration error", []⟩

/-- Find out what a command line asks for. -/
def plan (args : List Text) (sources : Configuration.Sources) : Plan :=
  match readOptions args with
  | .error ending => .ended ending.outcome
  | .ok options =>
    match Configuration.load sources with
    | .error _ =>
      .ended
        { exit := 1
          stderr := sources.complaints
          logging := [.of options.debug .info]
          log := [configurationError] }
    | .ok c =>
      .job ⟨options, c, .of (options.debug || c.debug) c.logLevel, sources.complaints⟩

/-- Why a job fails. -/
inductive JobError where
  | overlong (e : OverlongNumeral)
  /-- There is a text to cut, and no number of characters to cut it to. -/
  | noNumber
  deriving Repr, DecidableEq

namespace Job

/-- The limit of the command line, or else of the configuration. -/
def limit (j : Job) : LengthLimit :=
  j.options.maxLength.getD (.characters j.configuration.bodyLength)

/-- The desk of a job: it has a connection unless the job is to stay offline or the
webhook is not configured. -/
def desk (j : Job) : Desk :=
  ⟨if j.options.offline then none else Portal.Connection.open? j.configuration false, []⟩

/-- Render a body under a limit. One that is no number does for a body of which nothing
is left, because that is not cut. -/
def render {σ : Type} (sv : Bracket.Services σ) (limit : LengthLimit) (source : Text) (s : σ) :
    Except (JobError × σ) (Text × σ) :=
  match limit with
  | .characters n => (renderBody sv n source s).mapError fun (e, s) => (.overlong e, s)
  | .dropped =>
    match Bracket.convert sv source s with
    | .error (e, s) => .error (.overlong e, s)
    | .ok (html, s) => if html.isEmpty then .ok (dash, s) else .error (.noNumber, s)

/-- Render the text that was read, whatever its line ends are. -/
def run (j : Job) (network : Portal.Network) (input : Text) :
    Except (JobError × Desk) Outcome := do
  let (html, desk) ←
    render (Desk.services network none) j.limit (Text.unifyLineEnds input) j.desk
  return { exit := 0, stdout := html ++ ['\n'], stderr := j.complaints, logging := [j.logging],
           log := desk.log }

end Job

/-- The text that some bytes encode, if they are UTF-8. -/
def decode? (bytes : ByteArray) : Option Text := (String.fromUTF8? bytes).map String.toList

end TaskBulletin.CommandLine
