import TaskBulletin.Bracket.Substitution
import TaskBulletin.Bracket.Block
import TaskBulletin.Bracket.Inline
import TaskBulletin.Text.Spacing

/-!
# From bracket markup to chat HTML

Tags are stashed, file tags and mentions are resolved into fragments, and only
then is the text escaped, so that neither the fragments nor the tags are escaped
by accident. With both back in their places, blocks become lines, inline tags
become elements, unsupported tags are unwrapped and the spacing is put in order.
The only failure is a numeral in a reference that is too long to be read; what was
asked and reported until then is not lost.
-/

namespace TaskBulletin.Bracket

variable {σ : Type}

def emptyTags : Stash := .empty "TAG".toList

def emptyFragments : Stash := .empty "HTML".toList

/-- The passes after the text is escaped and whole again. -/
def finish (t : Text) : Text :=
  Text.normalizeSpacing (unwrapUnsupported (renderInline (flattenBlocks t)))

/-- All rules of the markup, before the spacing is put in order. -/
def applyRules (t : Text) : Text := unwrapUnsupported (renderInline (flattenBlocks t))

theorem finish_eq (t : Text) : finish t = Text.normalizeSpacing (applyRules t) := rfl

/-- Convert a body, looking its references up through the services. -/
def convert (sv : Services σ) (source : Text) (s : σ) :
    Except (OverlongNumeral × σ) (Text × σ) := do
  let (t, tags) := stashTags emptyTags source
  let (t, fragments, s) ← substituteFiles sv emptyFragments t s
  let (t, fragments, s) ← substituteMentions sv fragments t s
  return (finish (unstashTags tags (escapeAround fragments t)), s)

/-! ## Services that only answer -/

/-- What a conversion asked and reported, in order. -/
structure Transcript where
  files : List Int
  users : List Int
  problems : List Problem
  deriving Repr, DecidableEq

def Transcript.empty : Transcript := ⟨[], [], []⟩

/-- Services that answer from two functions and write a transcript. -/
def Services.recording (file : Int → Except Text (Option DiskFile))
    (user : Int → Except Text Text) : Services Transcript where
  file id s := (file id, { s with files := s.files ++ [id] })
  user id s := (user id, { s with users := s.users ++ [id] })
  report p s := { s with problems := s.problems ++ [p] }

/-- A file lookup that finds nothing. -/
def findNothing : Int → Except Text (Option DiskFile) := fun _ => .ok none

/-- A user lookup that knows nobody. -/
def knowNobody : Int → Except Text Text := fun id => (Numeral.write id).mapError Fault.message

theorem knowNobody_of_writable {id : Int} (h : Numeral.writable id = true) :
    knowNobody id = .ok (Text.ofInt id) := by
  rw [knowNobody, Numeral.write_of_writable h]
  rfl

theorem eq_ofInt_of_knowNobody {id : Int} {link : Text} (h : knowNobody id = .ok link) :
    link = Text.ofInt id := by
  cases hid : Numeral.writable id with
  | true =>
    rw [knowNobody_of_writable hid] at h
    exact (Except.ok.inj h).symm
  | false =>
    rw [knowNobody, Numeral.write_of_not_writable hid] at h
    cases h

theorem eq_tooLong_of_knowNobody {id : Int} {reason : Text} (h : knowNobody id = .error reason) :
    reason = Numeral.tooLong.message := by
  cases hid : Numeral.writable id with
  | true =>
    rw [knowNobody_of_writable hid] at h
    cases h
  | false =>
    rw [knowNobody, Numeral.write_of_not_writable hid] at h
    exact (Except.error.inj h).symm

end TaskBulletin.Bracket
