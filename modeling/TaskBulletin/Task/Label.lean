import TaskBulletin.Configuration.Basic
import TaskBulletin.Fault
import TaskBulletin.Html.Escape
import TaskBulletin.Log
import TaskBulletin.Task.Deadline

/-!
# The parts of a task notification

Users and tasks are looked up in a directory and shown as links into the portal,
or by their bare ids when no link can be made. An id that is too long to be written
fails its label. The directory's state, through which its lookups are called one
after another, also takes the notices.
-/

namespace TaskBulletin

structure User where
  id : Int
  name : Text
  deriving Repr, DecidableEq

structure Task where
  id : Int
  title : Text
  creator : Int
  responsible : List Int
  deriving Repr, DecidableEq

namespace Task

/-- What goes to the log while parts are shown. -/
inductive Notice where
  | noDomain
  | unknownUser (id : Int)
  | unknownTask (id : Int)
  | titleFailed (id : Int)
  | noExecutors
  | noDeadline
  | unreadableDeadline (text : Text)
  deriving Repr, DecidableEq

def Notice.entry : Notice → LogEntry
  | noDomain => ⟨.warning, "BX24_DOMAIN is not configured", []⟩
  | unknownUser id => ⟨.warning, "User not found", [("bitrix_id", .int id)]⟩
  | unknownTask id => ⟨.warning, "Task not found", [("bitrix_id", .int id)]⟩
  | titleFailed id =>
    ⟨.error, "Failed to format task title", [("bitrix_id", .int id), ("exc_info", .bool true)]⟩
  | noExecutors => ⟨.warning, "Task has no responsible users", []⟩
  | noDeadline => ⟨.warning, "Task has no deadline", []⟩
  | unreadableDeadline text => ⟨.warning, "Could not parse deadline", [("deadline", .text text)]⟩

structure Directory (σ : Type) where
  findUser : Int → σ → Except Fault (Option User) × σ
  findTask : Int → σ → Except Fault (Option Task) × σ
  note : Notice → σ → σ

/-- The users and tasks asked for and the notices taken, in order. -/
structure Transcript where
  users : List Int := []
  tasks : List Int := []
  notices : List Notice := []
  deriving Repr, DecidableEq

/-- A directory that answers from two functions and writes a transcript. -/
def Directory.recording (user : Int → Except Fault (Option User))
    (task : Int → Except Fault (Option Task)) : Directory Transcript where
  findUser id s := (user id, { s with users := s.users ++ [id] })
  findTask id s := (task id, { s with tasks := s.tasks ++ [id] })
  note n s := { s with notices := s.notices ++ [n] }

variable {σ : Type} (dir : Directory σ) (domain : Option Text)

def profileUrl (domain : Text) (id : Int) : Except Fault Text :=
  (Numeral.write id).map (domain ++ "/company/personal/user/".toList ++ ·)

/-- The address of a task, as its first responsible user sees it, or its creator if
there is none. -/
def taskUrl (domain : Text) (task : Task) : Except Fault Text := do
  let profile ← profileUrl domain (task.responsible.headD task.creator)
  let id ← Numeral.write task.id
  return profile ++ "/tasks/task/view/".toList ++ id

def noteDomain (s : σ) : σ :=
  if (Configuration.nonempty? domain).isNone then dir.note .noDomain s else s

/-- A link to a user's profile, or the bare id. A failed lookup fails the label. -/
def userLabel (id : Int) (s : σ) : Except Fault Text × σ :=
  match dir.findUser id s with
  | (.error f, s) => (.error f, s)
  | (.ok none, s) => (Numeral.write id, dir.note (.unknownUser id) (noteDomain dir domain s))
  | (.ok (some user), s) =>
    let label := match Configuration.nonempty? domain with
      | some domain => (profileUrl domain user.id).map (Html.anchor · user.name)
      | none => Numeral.write id
    (label, noteDomain dir domain s)

/-- A bold link to a task, or the bare id. -/
def taskLabel (id : Int) (s : σ) : Except Fault Text × σ :=
  match dir.findTask id s with
  | (.error f, s) => (.error f, s)
  | (.ok found, s) =>
    match Configuration.nonempty? domain, found with
    | none, _ => (Numeral.write id, noteDomain dir domain s)
    | some _, none => (Numeral.write id, dir.note (.unknownTask id) s)
    | some domain, some task =>
      ((taskUrl domain task).map fun url => Html.element ['b'] (Html.anchor url task.title), s)

/-- The label of a task, and the bare id when anything about it fails. -/
def titleLabel (id : Int) (s : σ) : Except Fault Text × σ :=
  match taskLabel dir domain id s with
  | (.error _, s) => (Numeral.write id, dir.note (.titleFailed id) s)
  | label => label

/-- The labels of some users, in order, and the first failure among them. -/
def userLabels : List Int → σ → Except Fault (List Text) × σ
  | [], s => (.ok [], s)
  | id :: ids, s =>
    let (label, s) := userLabel dir domain id s
    let (labels, s) := userLabels ids s
    (label.bind fun label => labels.map (label :: ·), s)

def nobody : Text := "Not assigned".toList

/-- The labels of the users who carry a task out, each once. -/
def executorsLabel (ids : List Int) (s : σ) : Except Fault Text × σ :=
  match ids.eraseDups with
  | [] => (.ok nobody, dir.note .noExecutors s)
  | ids =>
    let (labels, s) := userLabels dir domain ids s
    (labels.map (List.intercalate ", ".toList), s)

def deadlineLabel (deadline : Deadline) (s : σ) : Text × σ :=
  match deadline with
  | .missing => (Deadline.noDate, dir.note .noDeadline s)
  | .moment m => (Deadline.showMoment m, s)
  | .text [] => (Deadline.noDate, dir.note .noDeadline s)
  | .text t =>
    match Deadline.readText t with
    | some m => (Deadline.showMoment m, s)
    | none => (Deadline.unreadable, dir.note (.unreadableDeadline t) s)

end Task

end TaskBulletin
