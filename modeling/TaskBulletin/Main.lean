import TaskBulletin.CommandLine.Job

/-!
# The program

Reads a body from a file or from standard input and prints it as HTML. There is no
HTTP transport here: every request finds the portal unreachable, and files are
shown as not loaded.
-/

namespace TaskBulletin.CommandLine

/-- A network on which no request arrives. -/
def unreachable : Portal.Network := fun _ =>
  .raised ⟨.connection, "Cannot connect to host".toList⟩

def logLine (e : LogEntry) : String :=
  let fields := e.fields.map fun (name, v) => " " ++ name ++ "=" ++ String.ofList v.print
  "[" ++ e.level.name ++ "] " ++ e.event ++ String.join fields

def settingNames : List String :=
  [Configuration.Setting.domain, .webhookUser, .token, .timeout, .bodyLength, .logLevel, .debug].map
    fun s => s.name

/-- The variables of the environment that may hold settings, in capital or small
letters. -/
def environment : IO Configuration.Environment := do
  let names := settingNames.map String.toUpper ++ settingNames
  let found ← names.filterMapM fun name => do
    return (← IO.getEnv name).map fun v => (name.toList, v.toList)
  return Assignments.ofList found

def settingsFile : IO Configuration.SettingsFile := do
  try
    return .read (← IO.FS.readFile ".env").toList
  catch _ => return {}

def readInput (file : Option Text) : IO Text := do
  let bytes ← match file with
    | some path => IO.FS.readBinFile (String.ofList path)
    | none => (← IO.getStdin).readBinToEnd
  match decode? bytes with
  | some t => return t
  | none => throw (IO.userError "the input is not UTF-8")

def failure : JobError → Text
  | .overlong e => e.message
  | .noNumber => "the length limit is not a number".toList

def showLog (modes : List LogMode) (log : List LogEntry) : IO Unit :=
  (log.filter fun e => modes.any fun m => m.admits e).forM fun e => IO.eprintln (logLine e)

def report (o : Outcome) : IO UInt32 := do
  IO.eprint (String.ofList o.stderr)
  showLog o.logging o.log
  IO.print (String.ofList o.stdout)
  return UInt32.ofNat o.exit

end TaskBulletin.CommandLine

open TaskBulletin.CommandLine in
/-- Plan what the arguments ask for, read the input if there is work, and report. -/
def main (args : List String) : IO UInt32 := do
  let sources := { environment := ← environment, file := ← settingsFile }
  match plan (args.map String.toList) sources with
  | .ended o => report o
  | .job j =>
    match j.run unreachable (← readInput j.options.file) with
    | .ok o => report o
    | .error (e, desk) =>
      IO.eprint (String.ofList j.complaints)
      showLog [j.logging] desk.log
      throw (IO.userError (String.ofList (failure e)))
