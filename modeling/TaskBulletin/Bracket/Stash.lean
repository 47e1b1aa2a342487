import TaskBulletin.Text.Pattern

/-!
# Stashed fragments

While a pass rewrites a text, the parts that it must not touch are kept in a
stash, and a token stands in the text for each of them. A token is the stash's
label and the number of fragments recorded before, between two NUL characters;
escaping leaves it alone.
-/

namespace TaskBulletin

/-- The fragments recorded so far, oldest first. -/
structure Stash where
  label : Text
  fragments : List Text
  deriving Repr, DecidableEq

namespace Stash

def empty (label : Text) : Stash := ⟨label, []⟩

def size (s : Stash) : Nat := s.fragments.length

/-- The token of the fragment with a given number. -/
def token (s : Stash) (k : Nat) : Text := '\x00' :: s.label ++ Text.ofNat k ++ ['\x00']

/-- The token that the next fragment gets. -/
def nextToken (s : Stash) : Text := s.token s.size

def add (s : Stash) (fragment : Text) : Stash :=
  { s with fragments := s.fragments ++ [fragment] }

/-- Every token with its fragment, oldest first. -/
def entries (s : Stash) : List (Text × Text) :=
  s.fragments.zipIdx.map fun (fragment, k) => (s.token k, fragment)

def contains (s : Stash) (t : Text) : Bool := s.entries.any fun (token, _) => token == t

/-- Write pieces back with a token in place of every match that is not skipped. -/
def stowPieces {α : Type} (spelling : α → Text) (skip : Text → Bool) :
    List (Piece α) → Stash → Text × Stash
  | [], s => ([], s)
  | .plain c :: ps, s =>
    let (text, s) := stowPieces spelling skip ps s
    (c :: text, s)
  | .hit a :: ps, s =>
    if skip (spelling a) then
      let (text, s) := stowPieces spelling skip ps s
      (spelling a ++ text, s)
    else
      let (text, s') := stowPieces spelling skip ps (s.add (spelling a))
      (s.nextToken ++ text, s')

/-- Replace the matches of a pattern by tokens, except those that `skip` names. -/
def stow {α : Type} (s : Stash) (p : Pattern α) (skip : Text → Bool) (t : Text) :
    Text × Stash :=
  stowPieces p.spelling skip (p.pieces t) s

/-- Put every fragment, as `f` writes it, back for each of its tokens. A fragment
may hold tokens recorded before it, so the newest one goes back first. -/
def putBack (s : Stash) (f : Text → Text) (t : Text) : Text :=
  s.entries.foldr (fun (token, fragment) t => Text.replace token (f fragment) t) t

/-- Record a fragment for each of some spellings, in order, and put its token
wherever the spelling occurs. -/
def exchange (s : Stash) : List (Text × Text) → Text → Text × Stash
  | [], t => (t, s)
  | (spelled, fragment) :: rest, t =>
    (s.add fragment).exchange rest (Text.replace spelled s.nextToken t)

@[simp] theorem size_empty (label : Text) : (empty label).size = 0 := rfl

@[simp] theorem label_add (s : Stash) (fragment : Text) : (s.add fragment).label = s.label := rfl

@[simp] theorem size_add (s : Stash) (fragment : Text) : (s.add fragment).size = s.size + 1 := by
  simp [add, size]

end Stash

end TaskBulletin
