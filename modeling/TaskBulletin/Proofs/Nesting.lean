import TaskBulletin.Proofs.Visible
import Mathlib.Data.List.TakeWhile

/-!
# Open elements and nesting

The tags of a text open and close elements, in the discipline of the excerpts: a closing
tag that does not name the innermost open element leaves the open elements alone. A text
is well nested if there is no such closing tag and nothing is left open. Closing tags
for the open elements, innermost first, leave nothing open.
-/

namespace TaskBulletin.Html

open Pattern

def rolesOf (ps : List (Piece (Span Text Text))) : List TagRole :=
  ps.filterMap fun
    | .plain _ => none
    | .hit s => some (tagRole s.content)

def tagRoles (t : Text) : List TagRole := rolesOf (tag.pieces t)

/-- The open elements, innermost first, after some tags. -/
def openAfterAll (opened : List Text) (roles : List TagRole) : List Text :=
  roles.foldl openAfter opened

/-- The elements that a text leaves open, innermost first. -/
def openElements (t : Text) : List Text := openAfterAll [] (tagRoles t)

/-- A closing tag names the innermost open element. -/
def Fits (opened : List Text) : TagRole → Prop
  | .closes name => opened.head? = some name
  | .opens _ => True
  | .neutral => True

/-- Every closing tag names the innermost element that is open before it. -/
def Matched : (opened : List Text) → List TagRole → Prop
  | _, [] => True
  | opened, role :: roles => Fits opened role ∧ Matched (openAfter opened role) roles

/-- Every closing tag matches the innermost open element, and nothing is left open. -/
structure WellNested (t : Text) : Prop where
  matched : Matched [] (tagRoles t)
  closed : openElements t = []

instance decidableFits (opened : List Text) : (role : TagRole) → Decidable (Fits opened role)
  | .closes name => inferInstanceAs (Decidable (opened.head? = some name))
  | .opens _ => inferInstanceAs (Decidable True)
  | .neutral => inferInstanceAs (Decidable True)

instance decidableMatched : (opened : List Text) → (roles : List TagRole) →
    Decidable (Matched opened roles)
  | _, [] => inferInstanceAs (Decidable True)
  | opened, role :: roles =>
    have := decidableMatched (openAfter opened role) roles
    inferInstanceAs (Decidable (Fits opened role ∧ Matched (openAfter opened role) roles))

instance decidableWellNested (t : Text) : Decidable (WellNested t) :=
  decidable_of_iff (Matched [] (tagRoles t) ∧ openElements t = [])
    ⟨fun h => ⟨h.1, h.2⟩, fun h => ⟨h.matched, h.closed⟩⟩

@[simp] theorem rolesOf_nil : rolesOf [] = [] := rfl

@[simp] theorem rolesOf_plain (c : Char) (ps : List (Piece (Span Text Text))) :
    rolesOf (.plain c :: ps) = rolesOf ps := rfl

@[simp] theorem rolesOf_hit (s : Span Text Text) (ps : List (Piece (Span Text Text))) :
    rolesOf (.hit s :: ps) = tagRole s.content :: rolesOf ps := rfl

@[simp] theorem rolesOf_append (ps qs : List (Piece (Span Text Text))) :
    rolesOf (ps ++ qs) = rolesOf ps ++ rolesOf qs := List.filterMap_append ..

@[simp] theorem rolesOf_map_plain (t : Text) : rolesOf (t.map .plain) = [] := by
  induction t with
  | nil => rfl
  | cons c t ih => exact ih

@[simp] theorem openAfterAll_nil (opened : List Text) : openAfterAll opened [] = opened := rfl

@[simp] theorem openAfterAll_cons (opened : List Text) (role : TagRole) (roles : List TagRole) :
    openAfterAll opened (role :: roles) = openAfterAll (openAfter opened role) roles := rfl

@[simp] theorem openAfterAll_append (opened : List Text) (roles more : List TagRole) :
    openAfterAll opened (roles ++ more) = openAfterAll (openAfterAll opened roles) more :=
  List.foldl_append

theorem matched_append {opened : List Text} {roles more : List TagRole} :
    Matched opened (roles ++ more) ↔
      Matched opened roles ∧ Matched (openAfterAll opened roles) more := by
  induction roles generalizing opened with
  | nil => simp [Matched]
  | cons role roles ih =>
    rw [List.cons_append, Matched, ih, Matched, openAfterAll_cons, and_assoc]

/-! ## Names of elements -/

/-- ASCII letters in lower case and digits, as the name of an element. -/
structure IsName (name : Text) : Prop where
  ne_nil : name ≠ []
  alphanum : ∀ c ∈ name, c.isAlphanum = true
  lower : Text.lowerAscii name = name

theorem IsName.angle_notMem {name : Text} (h : IsName name) : '>' ∉ name := fun hm =>
  absurd (h.alphanum _ hm) (by decide)

theorem toLower_of_isAlphanum {c : Char} (h : c.isAlphanum = true) :
    c.toLower.isAlphanum = true ∧ c.toLower.toLower = c.toLower := by
  have hall : ∀ n < 123, (Char.ofNat n).isAlphanum = true →
      (Char.ofNat n).toLower.isAlphanum = true ∧
        (Char.ofNat n).toLower.toLower = (Char.ofNat n).toLower := by
    decide +kernel
  have hn : c.toNat < 123 := by
    rw [isAlphanum_iff] at h
    omega
  have hc := hall c.toNat hn
  rw [Char.ofNat_toNat] at hc
  exact hc h

theorem not_isBlank_of_isAlphanum {c : Char} (h : c.isAlphanum = true) : Text.isBlank c = false :=
  not_isBlank_of_isEntityCharacter (by rw [isEntityCharacter, h]; rfl)

def nameOf (body : Text) : Text :=
  Text.lowerAscii ((Text.trimStart body).takeWhile Char.isAlphanum)

theorem tagRole_slash (body : Text) :
    tagRole ('/' :: body) = if (nameOf body).isEmpty then .neutral else .closes (nameOf body) := rfl

theorem tagRole_of_head {inside : Text} (h : inside.head? ≠ some '/') :
    tagRole inside =
      if (nameOf inside).isEmpty then .neutral
      else if inside.getLast? == some '/' || voidElements.contains (nameOf inside) then .neutral
      else .opens (nameOf inside) := by
  unfold tagRole
  split
  rename_i closing body hm
  split at hm
  · simp at h
  · obtain ⟨rfl, rfl⟩ := Prod.mk.inj hm
    rfl

theorem isName_nameOf {body : Text} (h : (nameOf body).isEmpty = false) : IsName (nameOf body) where
  ne_nil := by simpa using h
  alphanum := by
    intro c hc
    obtain ⟨d, hd, rfl⟩ := List.mem_map.mp hc
    exact (toLower_of_isAlphanum (List.mem_takeWhile_imp hd)).1
  lower := by
    rw [nameOf, Text.lowerAscii, Text.lowerAscii, List.map_map]
    refine List.map_congr_left fun d hd => ?_
    exact (toLower_of_isAlphanum (List.mem_takeWhile_imp hd)).2

theorem isName_of_tagRole {inside name : Text} (h : tagRole inside = .opens name) :
    IsName name := by
  by_cases hs : inside.head? = some '/'
  · obtain ⟨body, rfl⟩ := List.head?_eq_some_iff.mp hs
    rw [tagRole_slash] at h
    split at h <;> cases h
  · rw [tagRole_of_head hs] at h
    split at h
    · cases h
    · rename_i hne
      split at h
      · cases h
      · cases h
        exact isName_nameOf (by simpa using hne)

theorem mem_openAfter {opened : List Text} {role : TagRole} {name : Text}
    (h : name ∈ openAfter opened role) : name ∈ opened ∨ role = .opens name := by
  cases role with
  | opens n =>
    rcases List.mem_cons.mp h with rfl | h
    · exact .inr rfl
    · exact .inl h
  | closes n =>
    cases opened with
    | nil => cases h
    | cons inner outer =>
      rw [openAfter] at h
      split at h
      · exact .inl (List.mem_cons_of_mem _ h)
      · exact .inl h
  | neutral => exact .inl h

theorem isName_of_mem_open {ps : List (Piece (Span Text Text))} {opened : List Text}
    (ho : ∀ name ∈ opened, IsName name) :
    ∀ name ∈ openAfterAll opened (rolesOf ps), IsName name := by
  induction ps generalizing opened with
  | nil => exact ho
  | cons piece ps ih =>
    cases piece with
    | plain c => exact ih ho
    | hit s =>
      refine ih fun name hn => ?_
      rcases mem_openAfter hn with hn | hn
      · exact ho name hn
      · exact isName_of_tagRole hn

/-! ## Closing tags -/

theorem tagRole_closingTag {name : Text} (h : IsName name) :
    tagRole ('/' :: name) = .closes name := by
  have hstart : Text.trimStart name = name := by
    cases hn : name with
    | nil => exact absurd hn h.ne_nil
    | cons c cs =>
      have hc := not_isBlank_of_isAlphanum (h.alphanum c (by rw [hn]; exact List.mem_cons_self ..))
      rw [Text.trimStart, List.dropWhile_cons_of_neg (by simp [hc])]
  have hwhole : name.takeWhile Char.isAlphanum = name := List.takeWhile_eq_self_iff.mpr h.alphanum
  have hname : nameOf name = name := by rw [nameOf, hstart, hwhole, h.lower]
  rw [tagRole_slash, hname, if_neg (by simpa using h.ne_nil)]

def closingSpan (name : Text) : Span Text Text := ⟨['<'], '/' :: name, ['>']⟩

theorem read_closingTag {name : Text} (h : IsName name) (rest : Text) :
    tag.read (closingTag name ++ rest) = some (closingSpan name, rest) := by
  refine read_tag_eq_some_iff.mpr
    ⟨rfl, rfl, by simp [closingSpan], fun c hc => ?_, by simp [closingTag, closingSpan]⟩
  rw [bne_iff_ne]
  rintro rfl
  rcases List.mem_cons.mp hc with hc | hc
  · exact absurd hc (by decide)
  · exact h.angle_notMem hc

theorem pieces_closingTags {names : List Text} (h : ∀ name ∈ names, IsName name) :
    tag.pieces (names.map closingTag).flatten = names.map fun name => .hit (closingSpan name) := by
  induction names with
  | nil => simp
  | cons name names ih =>
    rw [List.map_cons, List.flatten_cons,
      pieces_of_read _ (read_closingTag (h name (List.mem_cons_self ..)) _),
      ih fun n hn => h n (List.mem_cons_of_mem _ hn)]
    rfl

theorem rolesOf_closingTags {names : List Text} (h : ∀ name ∈ names, IsName name) :
    rolesOf (names.map fun name => .hit (closingSpan name)) = names.map .closes := by
  induction names with
  | nil => rfl
  | cons name names ih =>
    rw [List.map_cons, rolesOf_hit, ih fun n hn => h n (List.mem_cons_of_mem _ hn), closingSpan,
      tagRole_closingTag (h name (List.mem_cons_self ..)), List.map_cons]

theorem openAfterAll_closes (names : List Text) : openAfterAll names (names.map .closes) = [] := by
  induction names with
  | nil => rfl
  | cons name names ih =>
    rw [List.map_cons, openAfterAll_cons, openAfter, if_pos rfl, ih]

theorem matched_closes (names : List Text) : Matched names (names.map .closes) := by
  induction names with
  | nil => exact trivial
  | cons name names ih =>
    refine ⟨rfl, ?_⟩
    rw [openAfter, if_pos rfl]
    exact ih

/-! ## Balanced tags -/

/-- Whatever is open before them, these tags close what they open and nothing else. -/
def Balanced (roles : List TagRole) : Prop :=
  ∀ opened, Matched opened roles ∧ openAfterAll opened roles = opened

theorem balanced_nil : Balanced [] := fun _ => ⟨trivial, rfl⟩

theorem Balanced.append {roles more : List TagRole} (h : Balanced roles) (h' : Balanced more) :
    Balanced (roles ++ more) := by
  intro opened
  obtain ⟨hm, ho⟩ := h opened
  obtain ⟨hm', ho'⟩ := h' opened
  rw [matched_append, openAfterAll_append, ho]
  exact ⟨⟨hm, hm'⟩, ho'⟩

theorem Balanced.element {roles : List TagRole} (h : Balanced roles) (name : Text) :
    Balanced (.opens name :: (roles ++ [.closes name])) := by
  intro opened
  obtain ⟨hm, ho⟩ := h (name :: opened)
  rw [Matched, matched_append, openAfterAll_cons, openAfterAll_append, openAfter, ho]
  refine ⟨⟨trivial, hm, rfl, trivial⟩, ?_⟩
  rw [openAfterAll_cons, openAfter, if_pos rfl, openAfterAll_nil]

theorem wellNested_of_balanced {t : Text} (h : Balanced (tagRoles t)) : WellNested t where
  matched := (h []).1
  closed := (h []).2

end TaskBulletin.Html
