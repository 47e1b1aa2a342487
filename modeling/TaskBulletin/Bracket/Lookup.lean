import TaskBulletin.Html.Escape
import TaskBulletin.Log

/-!
# Looking references up

A lookup answers an id, and may fail; every answer is sorted into one of three
outcomes, so a failure is text in the result and a report, never an error of the
conversion. Ids were read from digits, so all of them can be written. The services
that answer and take the reports share a state of any type, through which they are
called one after another.
-/

namespace TaskBulletin.Bracket

/-- A disk file as needed for an anchor. -/
structure DiskFile where
  id : Int
  name : Text
  url : Text
  deriving Repr, DecidableEq

inductive FileOutcome where
  | found (file : DiskFile)
  | missing (id : Int)
  | failed (id : Int) (reason : Text)
  deriving Repr, DecidableEq

inductive UserOutcome where
  | linked (id : Int) (link : Text)
  | unknown (id : Int)
  | failed (id : Int) (reason : Text)
  deriving Repr, DecidableEq

/-- A recoverable problem met during a conversion. -/
inductive Problem where
  | unnumberedFile (tag : Text)
  | missingFile (id : Int)
  | failedFile (id : Int) (reason : Text)
  | invalidMention (idPart : Text)
  | failedUser (id : Int) (reason : Text)
  deriving Repr, DecidableEq

def Problem.entry : Problem → LogEntry
  | .unnumberedFile tag =>
    ⟨.warning, "Disk file tag has no numeric id, leaving it unchanged", [("tag", .text tag)]⟩
  | .missingFile id => ⟨.warning, "Disk file not found", [("file_id", .int id)]⟩
  | .failedFile id reason =>
    ⟨.error, "Failed to load disk file", [("file_id", .int id), ("error", .text reason)]⟩
  | .invalidMention idPart =>
    ⟨.warning, "User mention has an invalid id, using its label", [("user_id", .text idPart)]⟩
  | .failedUser id reason =>
    ⟨.error, "Failed to resolve user mention", [("user_id", .int id), ("error", .text reason)]⟩

/-- Sort the answer of a file lookup. -/
def FileOutcome.ofAnswer (id : Int) : Except Text (Option DiskFile) → FileOutcome
  | .ok (some file) => .found file
  | .ok none => .missing id
  | .error reason => .failed id reason

/-- Sort the answer of a user lookup: no text, or the bare id, means that the user
is not known. -/
def UserOutcome.ofAnswer (id : Int) : Except Text Text → UserOutcome
  | .ok link => if link.isEmpty || link == Text.ofInt id then .unknown id else .linked id link
  | .error reason => .failed id reason

/-- The fragment that stands for a file. -/
def FileOutcome.html : FileOutcome → Text
  | .found file => Html.anchor file.url file.name
  | .missing id => "[File ".toList ++ Text.ofInt id ++ " not found]".toList
  | .failed id _ => "[Error loading file ".toList ++ Text.ofInt id ++ "]".toList

def FileOutcome.problem? : FileOutcome → Option Problem
  | .found _ => none
  | .missing id => some (.missingFile id)
  | .failed id reason => some (.failedFile id reason)

/-- The fragment that stands for a mention. A label that is not blank is preferred
to a bare id. -/
def UserOutcome.html (label : Text) : UserOutcome → Text
  | .linked _ link => link
  | .unknown id => if Text.blank label then Text.ofInt id else Html.escape label
  | .failed id _ =>
    if Text.blank label then "[Error loading user ".toList ++ Text.ofInt id ++ "]".toList
    else Html.escape label

def UserOutcome.problem? : UserOutcome → Option Problem
  | .linked _ _ => none
  | .unknown _ => none
  | .failed id reason => some (.failedUser id reason)

/-- The services of a conversion, over the state they share. -/
structure Services (σ : Type) where
  file : Int → σ → Except Text (Option DiskFile) × σ
  user : Int → σ → Except Text Text × σ
  report : Problem → σ → σ

namespace Services

variable {σ : Type}

def fileOutcome (sv : Services σ) (id : Int) (s : σ) : FileOutcome × σ :=
  let (answer, s) := sv.file id s
  (.ofAnswer id answer, s)

def userOutcome (sv : Services σ) (id : Int) (s : σ) : UserOutcome × σ :=
  let (answer, s) := sv.user id s
  (.ofAnswer id answer, s)

def reportAll (sv : Services σ) (problems : List Problem) (s : σ) : σ :=
  problems.foldl (fun s p => sv.report p s) s

end Services

/-- Answer the things that have an id, in order. -/
def askEach {σ α β : Type} (ask : Int → σ → β × σ) :
    List (α × Option Nat) → σ → List (α × Option β) × σ
  | [], s => ([], s)
  | (a, none) :: rest, s =>
    let (answers, s) := askEach ask rest s
    ((a, none) :: answers, s)
  | (a, some id) :: rest, s =>
    let (b, s) := ask id s
    let (answers, s) := askEach ask rest s
    ((a, some b) :: answers, s)

end TaskBulletin.Bracket
