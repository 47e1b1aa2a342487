import TaskBulletin.Assignment
import TaskBulletin.Text.Pattern

/-!
# References to variables

A value of a settings file may refer to a variable by its name in braces after a
dollar sign, perhaps with a default after a colon and a hyphen. The variables of the
file that stand before it are looked at first, then those of the environment. A
variable without a value is empty; the default is for one that is not there at all.
-/

namespace TaskBulletin.Configuration

open Pattern

/-- Variables in order, each name once. -/
abbrev Environment := Assignments Text

/-- Do these characters between braces name a variable? A colon has to start a
default. -/
def isReferenceBody (body : Text) : Bool :=
  match body.dropWhile (· != ':') with
  | [] => true
  | _ :: '-' :: _ => true
  | _ => false

def reference : Pattern (Span Text Text) :=
  (between (exact ['$', '\x7b']) (· != '\x7d') (exact ['\x7d'])).filter
    fun r => isReferenceBody r.content

def referenceName (body : Text) : Text := body.takeWhile (· != ':')

def referenceDefault (body : Text) : Text := (body.dropWhile (· != ':')).drop 2

/-- Replace every reference by what it refers to; `find` tells whether there is a
variable of a name, and whether it has a value. -/
def expand (find : Text → Option (Option Text)) (t : Text) : Text :=
  reference.rewrite
    (fun r =>
      match find (referenceName r.content) with
      | some value => value.getD []
      | none => referenceDefault r.content) t

/-- The variable of a name: the file's own, or else the environment's. -/
def findVariable (env : Environment) (known : Assignments (Option Text)) (name : Text) :
    Option (Option Text) :=
  (known.value? name).or ((env.value? name).map some)

/-- The variables that some assignments leave behind, made one after another. -/
def resolve (env : Environment) (written : List (Text × Option Text)) :
    Assignments (Option Text) :=
  written.foldl
    (fun known (name, value) => known.assign name (value.map (expand (findVariable env known)))) []

end TaskBulletin.Configuration
