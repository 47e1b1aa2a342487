import TaskBulletin.Configuration.Basic
import TaskBulletin.Configuration.Interpolation
import TaskBulletin.Configuration.SettingsFile

/-!
# Where settings come from

Values given directly win over environment variables, and these over the variables
of a settings file. Variable names are read without regard to case; of several
spellings of one name the last wins, even if it has no value, and unknown names are
ignored.
-/

namespace TaskBulletin.Configuration

/-- A variable's name in small letters; the Kelvin sign is a K. -/
def foldName (name : Text) : Text :=
  name.map fun c => if c == '\u212a' then 'k' else c.toLower

/-- What is assigned to the last name that is a setting's, in any case. -/
def lastNamed? {α : Type} (as : Assignments α) (s : Setting) : Option α :=
  (as.reverse.find? fun (name, _) => foldName name == s.name.toList).map Prod.snd

structure Sources where
  direct : List (String × Value) := []
  environment : Environment := []
  file : SettingsFile := {}

namespace Sources

/-- The text that the variables give for a setting. -/
def spelled? (sources : Sources) (s : Setting) : Option Text :=
  (lastNamed? sources.environment s).or
    (lastNamed? (resolve sources.environment sources.file.assignments) s).join

def given (sources : Sources) (s : Setting) : Option Value :=
  ((sources.direct.find? fun (name, _) => name == s.name).map Prod.snd).or
    ((sources.spelled? s).map .text)

/-- What is said about the settings file while it is read, a line for each complaint. -/
def complaints (sources : Sources) : Text :=
  sources.file.unreadable.flatMap fun line => SettingsFile.complaint line ++ ['\n']

end Sources

def load (sources : Sources) : Except (List (Setting × FieldError)) Configuration :=
  ofGiven sources.given

end TaskBulletin.Configuration
