import TaskBulletin.Text.Basic

/-!
# Letters read without regard to case

Tag names are written in capitals here and read in either case. Four characters
outside ASCII fold onto ASCII letters and are read as them: both Turkish forms
of I, the long S and the Kelvin sign.
-/

namespace TaskBulletin.Text

/-- The non-ASCII characters that fold onto a capital ASCII letter. -/
def foldsOnto : Char → List Char
  | 'I' => ['\u0130', '\u0131']
  | 'K' => ['\u212a']
  | 'S' => ['\u017f']
  | _ => []

/-- Does `c` spell the capital (or caseless) character `capital`? -/
def spells (capital c : Char) : Bool :=
  c == capital || c == capital.toLower || (foldsOnto capital).contains c

def isTagLetter (c : Char) : Bool :=
  c.isAlpha || c == '\u0130' || c == '\u0131' || c == '\u017f' || c == '\u212a'

/-- Read `word` at the front of a text: its spelling there, and what follows. -/
def readWord : Text → Text → Option (Text × Text)
  | [], t => some ([], t)
  | _ :: _, [] => none
  | w :: ws, c :: cs =>
    if spells w c then (readWord ws cs).map fun (spelled, rest) => (c :: spelled, rest)
    else none

theorem readWord_eq_append {word t spelled rest : Text}
    (h : readWord word t = some (spelled, rest)) :
    t = spelled ++ rest ∧ spelled.length = word.length := by
  induction word generalizing t spelled rest with
  | nil => simp_all [readWord]
  | cons w ws ih =>
    cases t with
    | nil => simp [readWord] at h
    | cons c cs =>
      simp only [readWord] at h
      split at h
      · obtain ⟨⟨s, r⟩, hr, he⟩ := Option.map_eq_some_iff.1 h
        obtain ⟨rfl, rfl⟩ := Prod.mk.inj he
        have := ih hr
        simp [this.1, this.2]
      · simp at h

end TaskBulletin.Text
