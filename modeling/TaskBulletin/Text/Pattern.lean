import TaskBulletin.Text.Fold

/-!
# Patterns and the pieces they cut a text into

A pattern recognises one kind of thing at the front of a text and says how that
thing was spelled there. Reading a text from left to right, taking the thing
wherever the pattern recognises one and a single character otherwise, cuts the
text into pieces. Every rewriting pass is a map over those pieces, and nothing
of the text is lost by cutting it: the spellings concatenate to the text.
-/

namespace TaskBulletin

/-- A recogniser of one kind of thing, which always takes at least a character. -/
structure Pattern (α : Type) where
  read : Text → Option (α × Text)
  spelling : α → Text
  read_eq : ∀ {t a rest}, read t = some (a, rest) → t = spelling a ++ rest
  spelling_ne_nil : ∀ {t a rest}, read t = some (a, rest) → spelling a ≠ []

/-- A character that no match covers, or a match. -/
inductive Piece (α : Type) where
  | plain (c : Char)
  | hit (a : α)
  deriving Repr, DecidableEq

/-- Two things with a stretch between them. -/
structure Span (α β : Type) where
  opener : α
  content : Text
  closer : β
  deriving Repr, DecidableEq

namespace Pattern

variable {α β : Type}

theorem length_lt_of_read (p : Pattern α) {t : Text} {a : α} {rest : Text}
    (h : p.read t = some (a, rest)) : rest.length < t.length := by
  have hne := List.length_pos_iff.2 (p.spelling_ne_nil h)
  rw [p.read_eq h, List.length_append]
  omega

/-- Cut a text into matches, leftmost first, and the characters between them. -/
def pieces (p : Pattern α) (t : Text) : List (Piece α) :=
  match t with
  | [] => []
  | c :: cs =>
    match h : p.read (c :: cs) with
    | some (a, rest) =>
      have := p.length_lt_of_read h
      .hit a :: p.pieces rest
    | none => .plain c :: p.pieces cs
termination_by t.length
decreasing_by
  · assumption
  · exact Nat.lt_succ_self cs.length

/-- The matches of a text, leftmost first. -/
def hits (p : Pattern α) (t : Text) : List α :=
  (p.pieces t).filterMap fun
    | .plain _ => none
    | .hit a => some a

/-- Write pieces back, each match as `f` writes it. -/
def writeWith (f : α → Text) : List (Piece α) → Text
  | [] => []
  | .plain c :: ps => c :: writeWith f ps
  | .hit a :: ps => f a ++ writeWith f ps

/-- Replace every match by what `f` makes of it. -/
def rewrite (p : Pattern α) (f : α → Text) (t : Text) : Text :=
  writeWith f (p.pieces t)

@[simp] theorem pieces_nil (p : Pattern α) : p.pieces [] = [] := by
  rw [pieces]

theorem pieces_of_read (p : Pattern α) {t : Text} {a : α} {rest : Text}
    (h : p.read t = some (a, rest)) : p.pieces t = .hit a :: p.pieces rest := by
  cases t with
  | nil => simpa using p.length_lt_of_read h
  | cons c cs => rw [pieces]; split <;> simp_all

theorem pieces_of_not_read (p : Pattern α) {c : Char} {cs : Text}
    (h : p.read (c :: cs) = none) : p.pieces (c :: cs) = .plain c :: p.pieces cs := by
  rw [pieces]; split <;> simp_all

/-- Writing every match as it was spelled gives the text back. -/
theorem writeWith_spelling_pieces (p : Pattern α) (t : Text) :
    writeWith p.spelling (p.pieces t) = t := by
  fun_induction pieces p t with
  | case1 => rfl
  | case2 c cs a rest h _ ih => simp [writeWith, ih, ← p.read_eq h]
  | case3 c cs h ih => simp [writeWith, ih]

theorem writeWith_append (f : α → Text) (ps qs : List (Piece α)) :
    writeWith f (ps ++ qs) = writeWith f ps ++ writeWith f qs := by
  induction ps with
  | nil => rfl
  | cons p ps ih => cases p <;> simp [writeWith, ih]

/-- The runs of plain characters around the matches, one more than there are
matches. -/
def runsOf : List (Piece α) → List Text
  | [] => [[]]
  | .hit _ :: ps => [] :: runsOf ps
  | .plain c :: ps =>
    match runsOf ps with
    | [] => [[c]]
    | run :: runs => (c :: run) :: runs

/-- Split a text at every match, dropping the matches. -/
def split (p : Pattern α) (t : Text) : List Text := runsOf (p.pieces t)

/-! ## Building patterns -/

/-- A word in any case. An empty word is never found. -/
def word (w : Text) : Pattern Text where
  read t := if w.isEmpty then none else Text.readWord w t
  spelling := id
  read_eq h := by
    split at h
    · simp at h
    · exact (Text.readWord_eq_append h).1
  spelling_ne_nil h := by
    split at h
    · simp at h
    · rename_i a _ hw
      have hl := (Text.readWord_eq_append h).2
      intro he
      rw [show a = [] from he, List.length_nil] at hl
      exact hw (List.isEmpty_iff_length_eq_zero.2 hl.symm)

/-- What follows `needle` when a text starts with it. -/
def afterExact : Text → Text → Option Text
  | [], t => some t
  | _ :: _, [] => none
  | n :: ns, c :: cs => if n = c then afterExact ns cs else none

theorem afterExact_eq_some_iff {needle t rest : Text} :
    afterExact needle t = some rest ↔ t = needle ++ rest := by
  induction needle generalizing t with
  | nil => simp [afterExact]
  | cons n ns ih =>
    cases t with
    | nil => simp [afterExact]
    | cons c cs =>
      simp only [afterExact]
      split
      · simp_all
      · simp_all [eq_comm]

/-- A text exactly as written. An empty one is never found. -/
def exact (needle : Text) : Pattern Text where
  read t :=
    if needle.isEmpty then none else (afterExact needle t).map fun rest => (needle, rest)
  spelling := id
  read_eq h := by
    split at h
    · simp at h
    · obtain ⟨r, hr, he⟩ := Option.map_eq_some_iff.1 h
      obtain ⟨rfl, rfl⟩ := Prod.mk.inj he
      exact afterExact_eq_some_iff.1 hr
  spelling_ne_nil h := by
    split at h
    · simp at h
    · obtain ⟨r, hr, he⟩ := Option.map_eq_some_iff.1 h
      obtain ⟨rfl, rfl⟩ := Prod.mk.inj he
      simp_all

/-- The longest run, of at least one character, of one kind. -/
def run (kind : Char → Bool) : Pattern Text where
  read t :=
    match t.takeWhile kind with
    | [] => none
    | c :: cs => some (c :: cs, t.dropWhile kind)
  spelling := id
  read_eq {t _ _} h := by
    split at h
    · simp at h
    · rename_i c cs hw
      obtain ⟨rfl, rfl⟩ := Prod.mk.inj (Option.some.inj h)
      simp [← hw]
  spelling_ne_nil h := by
    split at h
    · simp at h
    · obtain ⟨rfl, _⟩ := Prod.mk.inj (Option.some.inj h)
      simp

/-- The shortest stretch of `allowed` characters up to where `closer` reads. -/
def readTo (allowed : Char → Bool) (closer : Pattern β) : Text → Option (Text × β × Text)
  | [] => none
  | c :: cs =>
    match closer.read (c :: cs) with
    | some (b, rest) => some ([], b, rest)
    | none =>
      if allowed c then
        (readTo allowed closer cs).map fun (content, b, rest) => (c :: content, b, rest)
      else none

theorem readTo_eq_append {allowed : Char → Bool} {closer : Pattern β} {t content rest : Text}
    {b : β} (h : readTo allowed closer t = some (content, b, rest)) :
    t = content ++ closer.spelling b ++ rest := by
  induction t generalizing content with
  | nil => simp [readTo] at h
  | cons c cs ih =>
    simp only [readTo] at h
    split at h
    · rename_i hr
      simp only [Option.some.injEq, Prod.mk.injEq] at h
      obtain ⟨rfl, rfl, rfl⟩ := h
      simpa using closer.read_eq hr
    · split at h
      · obtain ⟨⟨k, b', r⟩, hr, he⟩ := Option.map_eq_some_iff.1 h
        simp only [Prod.mk.injEq] at he
        obtain ⟨rfl, rfl, rfl⟩ := he
        simpa using ih hr
      · simp at h

/-- An opener, the shortest stretch of `allowed` characters, and a closer. -/
def between (opener : Pattern α) (allowed : Char → Bool) (closer : Pattern β) :
    Pattern (Span α β) where
  read t :=
    (opener.read t).bind fun (a, rest) =>
      (readTo allowed closer rest).map fun (content, b, rest) => (⟨a, content, b⟩, rest)
  spelling s := opener.spelling s.opener ++ s.content ++ closer.spelling s.closer
  read_eq {t _ _} h := by
    obtain ⟨⟨a, r⟩, ha, h⟩ := Option.bind_eq_some_iff.1 h
    obtain ⟨⟨k, b, r'⟩, hb, he⟩ := Option.map_eq_some_iff.1 h
    obtain ⟨rfl, rfl⟩ := Prod.mk.inj he
    rw [opener.read_eq ha, readTo_eq_append hb]
    simp
  spelling_ne_nil h := by
    obtain ⟨⟨a, r⟩, ha, h⟩ := Option.bind_eq_some_iff.1 h
    obtain ⟨⟨k, b, r'⟩, hb, he⟩ := Option.map_eq_some_iff.1 h
    obtain ⟨rfl, rfl⟩ := Prod.mk.inj he
    simp [opener.spelling_ne_nil ha]

/-- The things a pattern recognises of which a condition holds. -/
def filter (p : Pattern α) (holds : α → Bool) : Pattern α where
  read t :=
    match p.read t with
    | some (a, rest) => if holds a then some (a, rest) else none
    | none => none
  spelling := p.spelling
  read_eq h := by
    split at h
    · rename_i hr
      split at h
      · obtain ⟨rfl, rfl⟩ := Prod.mk.inj (Option.some.inj h)
        exact p.read_eq hr
      · simp at h
    · simp at h
  spelling_ne_nil h := by
    split at h
    · rename_i hr
      split at h
      · obtain ⟨rfl, rfl⟩ := Prod.mk.inj (Option.some.inj h)
        exact p.spelling_ne_nil hr
      · simp at h
    · simp at h

/-- Is a text one thing that the pattern recognises, and nothing more? -/
def covers (p : Pattern α) (t : Text) : Bool :=
  match p.read t with
  | some (_, []) => true
  | _ => false

end Pattern

/-- Replace every occurrence of `needle`, leftmost first and without overlap. -/
def Text.replace (needle new t : Text) : Text :=
  (Pattern.exact needle).rewrite (fun _ => new) t

end TaskBulletin
