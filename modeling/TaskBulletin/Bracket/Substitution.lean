import TaskBulletin.Bracket.Lookup
import TaskBulletin.Bracket.Reference

/-!
# Resolving references

Every distinct reference is read, then every one with an id is looked up, and
only then is the text changed: what is asked cannot depend on what was answered.
Each reference is replaced by a token of the fragment that its outcome gives. An
id that is too long to be read ends the pass, with the state that the reports of
the references before it left.
-/

namespace TaskBulletin.Bracket

variable {σ : Type}

def unnumbered? : FileTag × Option Nat → Option Problem
  | (tag, none) => some (.unnumberedFile (fileTag.spelling tag))
  | (_, some _) => none

/-- The fragment for a file tag that was looked up; others stay as they are. -/
def fileFragment? : FileTag × Option FileOutcome → Option (Text × Text)
  | (tag, some outcome) => some (fileTag.spelling tag, outcome.html)
  | (_, none) => none

/-- Replace every file tag that has an id by the token of its fragment. -/
def substituteFiles (sv : Services σ) (fragments : Stash) (t : Text) (s : σ) :
    Except (OverlongNumeral × σ) (Text × Stash × σ) := do
  let tags ← (fileTags t).mapError fun (e, read) =>
    (e, sv.reportAll (read.filterMap unnumbered?) s)
  let s := sv.reportAll (tags.filterMap unnumbered?) s
  let (outcomes, s) := askEach sv.fileOutcome tags s
  let s := sv.reportAll (outcomes.filterMap fun (_, o) => o.bind FileOutcome.problem?) s
  let (t, fragments) := fragments.exchange (outcomes.filterMap fileFragment?) t
  return (t, fragments, s)

/-- The problem of a mention whose id is not valid. -/
def invalid? : Mention × Option Nat → Option Problem
  | (m, none) => some (.invalidMention m.opener.content)
  | (_, some _) => none

/-- The fragment for a mention: its label if its id is not valid. -/
def mentionFragment : Mention × Option UserOutcome → Text × Text
  | (m, none) => (mention.spelling m, Html.escape m.content)
  | (m, some outcome) => (mention.spelling m, outcome.html m.content)

/-- Replace every mention by the token of its fragment. -/
def substituteMentions (sv : Services σ) (fragments : Stash) (t : Text) (s : σ) :
    Except (OverlongNumeral × σ) (Text × Stash × σ) := do
  let found ← (mentions t).mapError fun (e, read) =>
    (e, sv.reportAll (read.filterMap invalid?) s)
  let s := sv.reportAll (found.filterMap invalid?) s
  let (outcomes, s) := askEach sv.userOutcome found s
  let s := sv.reportAll (outcomes.filterMap fun (_, o) => o.bind UserOutcome.problem?) s
  let (t, fragments) := fragments.exchange (outcomes.map mentionFragment) t
  return (t, fragments, s)

end TaskBulletin.Bracket
