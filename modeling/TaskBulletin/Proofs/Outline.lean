import TaskBulletin.Proofs.Meaning

/-!
# Outlines

An outline is a well-formed body as a tree of text, elements and bulleted lists, in which
a tag may occur inside itself. From left to right it is a row of characters and marks: the
tags of its elements, and the tags and item marks of its lists. As its tags are stashed
and come back where they stood, it is converted to what the passes after the escaping
make of that row.
-/

namespace TaskBulletin

namespace Bracket

open Pattern

/-- A body of text, elements and lists. Only inside a list are there marks of items. -/
inductive Outline : (inList : Bool) → Type where
  | nil {inList : Bool} : Outline inList
  | text {inList : Bool} (run : Run) (rest : Outline inList) : Outline inList
  | element {inList : Bool} (tag : Tag) (opener closer : Spelled tag.name)
      (body rest : Outline inList) : Outline inList
  | list {inList : Bool} (opener closer : Spelled "LIST".toList) (body : Outline true)
      (rest : Outline inList) : Outline inList
  | item (rest : Outline true) : Outline true

/-! ## Spellings -/

theorem toUpper_of_mem_capitals {c : Char} (h : c ∈ Text.capitals) :
    c.toUpper = c ∧ c.toLower.toUpper = c := by
  have hall : ∀ c ∈ Text.capitals, c.toUpper = c ∧ c.toLower.toUpper = c := by decide
  exact hall c h

def Spelled.inCapitals {name : Text} (h : ∀ c ∈ name, c ∈ Text.capitals) : Spelled name where
  text := name
  upper := by
    refine Eq.trans (List.map_congr_left fun c hc => ?_) (List.map_id name)
    exact (toUpper_of_mem_capitals (h c hc)).1

def Spelled.inLowerCase {name : Text} (h : ∀ c ∈ name, c ∈ Text.capitals) : Spelled name where
  text := name.map Char.toLower
  upper := by
    rw [List.map_map]
    refine Eq.trans (List.map_congr_left fun c hc => ?_) (List.map_id name)
    exact (toUpper_of_mem_capitals (h c hc)).2

/-! ## Marks -/

inductive Edge where
  | opening (tag : Tag) (spelled : Spelled tag.name)
  | closing (tag : Tag) (spelled : Spelled tag.name)

inductive ListMark where
  | opening (spelled : Spelled "LIST".toList)
  | closing (spelled : Spelled "LIST".toList)
  | item

def Edge.tag : Edge → Tag
  | opening tag _ => tag
  | closing tag _ => tag

inductive Mark where
  | edge (e : Edge)
  | list (m : ListMark)

def Edge.text : Edge → Text
  | opening tag s => openingTag s.text (Html.escape tag.valuePart)
  | closing _ s => closingTag s.text

def ListMark.text : ListMark → Text
  | opening s => openingTag s.text []
  | closing s => closingTag s.text
  | item => "[*]".toList

def Mark.text : Mark → Text
  | edge e => e.text
  | list m => m.text

abbrev Row := List (Piece Mark)

def written (row : Row) : Text := writeWith Mark.text row

def edges (row : Row) : List Edge :=
  row.filterMap fun
    | .hit (.edge e) => some e
    | _ => none

def listMarks (row : Row) : List ListMark :=
  row.filterMap fun
    | .hit (.list m) => some m
    | _ => none

/-- No character of the row begins a tag of the markup or of HTML. -/
def Clean (row : Row) : Prop := ∀ c, .plain c ∈ row → c ≠ '[' ∧ c ≠ '<'

section

variable (c : Char) (e : Edge) (m : ListMark) (row more : Row) (t : Text)

@[simp] theorem written_nil : written [] = [] := rfl

@[simp] theorem written_plain : written (.plain c :: row) = c :: written row := rfl

@[simp] theorem written_edge : written (.hit (.edge e) :: row) = e.text ++ written row := rfl

@[simp] theorem written_list : written (.hit (.list m) :: row) = m.text ++ written row := rfl

@[simp] theorem written_append : written (row ++ more) = written row ++ written more :=
  writeWith_append ..

@[simp] theorem written_map_plain : written (t.map .plain) = t := writeWith_map_plain ..

@[simp] theorem edges_nil : edges [] = [] := rfl

@[simp] theorem edges_plain : edges (.plain c :: row) = edges row := rfl

@[simp] theorem edges_edge : edges (.hit (.edge e) :: row) = e :: edges row := rfl

@[simp] theorem edges_list : edges (.hit (.list m) :: row) = edges row := rfl

@[simp] theorem edges_append : edges (row ++ more) = edges row ++ edges more :=
  List.filterMap_append ..

@[simp] theorem edges_map_plain : edges (t.map .plain) = [] := by
  induction t with
  | nil => rfl
  | cons c t ih => exact ih

@[simp] theorem listMarks_nil : listMarks [] = [] := rfl

@[simp] theorem listMarks_plain : listMarks (.plain c :: row) = listMarks row := rfl

@[simp] theorem listMarks_edge : listMarks (.hit (.edge e) :: row) = listMarks row := rfl

@[simp] theorem listMarks_list : listMarks (.hit (.list m) :: row) = m :: listMarks row := rfl

@[simp] theorem listMarks_append : listMarks (row ++ more) = listMarks row ++ listMarks more :=
  List.filterMap_append ..

@[simp] theorem listMarks_map_plain : listMarks (t.map .plain) = [] := by
  induction t with
  | nil => rfl
  | cons c t ih => exact ih

end

section

variable {row more : Row} {t : Text}

theorem mem_edges {e : Edge} : e ∈ edges row ↔ .hit (.edge e) ∈ row := by
  induction row with
  | nil => simp
  | cons piece row ih =>
    cases piece with
    | plain c => simp [ih]
    | hit m => cases m <;> simp [ih]

theorem mem_listMarks {m : ListMark} : m ∈ listMarks row ↔ .hit (.list m) ∈ row := by
  induction row with
  | nil => simp
  | cons piece row ih =>
    cases piece with
    | plain c => simp [ih]
    | hit m => cases m <;> simp [ih]

/-- A row with a mark of some kind falls into what is before the first and what is after it. -/
theorem exists_first_mark {p : Mark → Bool} (h : ∃ m, .hit m ∈ row ∧ p m = true) :
    ∃ front m rest, row = front ++ .hit m :: rest ∧ p m = true ∧
      ∀ m', .hit m' ∈ front → p m' = false := by
  obtain ⟨m, hm, hp⟩ := h
  induction row with
  | nil => cases hm
  | cons piece row ih =>
    have hlater (hm : .hit m ∈ row) (hfirst : ∀ m', piece = .hit m' → p m' = false) :
        ∃ front m rest, piece :: row = front ++ .hit m :: rest ∧ p m = true ∧
          ∀ m', .hit m' ∈ front → p m' = false := by
      obtain ⟨front, m', rest, rfl, hp', hfront⟩ := ih hm
      refine ⟨piece :: front, m', rest, rfl, hp', fun n hn => ?_⟩
      rcases List.mem_cons.mp hn with hn | hn
      · exact hfirst n hn.symm
      · exact hfront n hn
    cases piece with
    | plain c => exact hlater (by simpa using hm) fun _ h => by cases h
    | hit first =>
      cases hfirst : p first with
      | true => exact ⟨[], first, row, rfl, hfirst, fun _ h => absurd h List.not_mem_nil⟩
      | false =>
        rcases List.mem_cons.mp hm with hm | hm
        · obtain rfl := Piece.hit.inj hm
          rw [hp] at hfirst
          cases hfirst
        · refine hlater hm fun m' h => ?_
          obtain rfl := Piece.hit.inj h
          exact hfirst

theorem Clean.append (h : Clean row) (h' : Clean more) : Clean (row ++ more) := by
  intro c hc
  rcases List.mem_append.mp hc with hc | hc
  · exact h c hc
  · exact h' c hc

theorem Clean.of_subset (h : Clean row) (hs : more ⊆ row) : Clean more := fun c hc => h c (hs hc)

theorem Clean.tail {piece : Piece Mark} (h : Clean (piece :: row)) : Clean row :=
  h.of_subset (List.subset_cons_self ..)

theorem Clean.cons_hit {m : Mark} (h : Clean row) : Clean (.hit m :: row) := by
  intro c hc
  rcases List.mem_cons.mp hc with hc | hc
  · cases hc
  · exact h c hc

theorem clean_map_plain (h : ∀ c ∈ t, c ≠ '[' ∧ c ≠ '<') : Clean (t.map .plain) := by
  intro c hc
  obtain ⟨d, hd, he⟩ := List.mem_map.mp hc
  obtain rfl := Piece.plain.inj he
  exact h d hd

end

/-! ## Tags of outlines -/

def renderedNames : List Text := ["B", "I", "U", "S", "CODE", "QUOTE", "URL"].map String.toList

def tagNames : List Text := renderedNames ++ ["IMG", "COLOR", "SIZE", "LIST"].map String.toList

/-- A tag of outlines, or the mark of an item, as it is written. -/
inductive IsMarkup : Text → Prop
  | opening {name s v : Text} (hname : name ∈ tagNames) (hs : s.map Char.toUpper = name)
      (hv : v = [] ∨ ∃ w, v = '=' :: w ∧ ']' ∉ w) : IsMarkup (openingTag s v)
  | closing {name s : Text} (hname : name ∈ tagNames) (hs : s.map Char.toUpper = name) :
      IsMarkup (closingTag s)
  | item : IsMarkup "[*]".toList

/-- Somewhere in the text stands a tag of outlines. -/
def HoldsMarkup (t : Text) : Prop := ∃ x, IsMarkup x ∧ x <:+: t

theorem isTagName_of_mem {name : Text} (h : name ∈ tagNames) : IsTagName name := by
  have hall : ∀ name ∈ tagNames, (∀ c ∈ name, c ∈ Text.capitals) ∧ name ≠ [] ∧
      ¬ "USER".toList <+: name := by decide
  obtain ⟨hc, hne, hu⟩ := hall name h
  exact ⟨hc, hne, hu⟩

theorem Tag.name_mem (tag : Tag) : tag.name ∈ tagNames := by
  cases tag with
  | style s => cases s <;> decide
  | link v => exact (by decide : "URL".toList ∈ tagNames)
  | image => exact (by decide : "IMG".toList ∈ tagNames)
  | color v => exact (by decide : "COLOR".toList ∈ tagNames)
  | size v => exact (by decide : "SIZE".toList ∈ tagNames)

theorem list_mem_tagNames : "LIST".toList ∈ tagNames := by decide

theorem list_capitals : ∀ c ∈ "LIST".toList, c ∈ Text.capitals :=
  (isTagName_of_mem list_mem_tagNames).capitals

theorem Tag.name_ne_list (tag : Tag) : tag.name ≠ "LIST".toList := by
  rw [← tag.name_rule]
  cases tag.rule with
  | style s => cases s <;> decide
  | _ => decide

/-- The mark of an item is read by no word that goes on otherwise after the bracket. -/
theorem silent_item {c : Char} {w : Text} (hc : Text.spells c '*' = false) :
    (word ('[' :: c :: w)).Silent "[*]".toList := by
  change (word ('[' :: c :: w)).Silent ['[', '*', ']']
  apply Begins.silent_cons (begins_word _) (by decide)
  intro rest
  rw [read_word_bracket]
  simp [Text.readWord, hc]

theorem silent_name_item {n : Text} (hn : ∀ c ∈ n, c ∈ Text.capitals) (hne : n ≠ []) (w : Text) :
    (word ('[' :: n ++ w)).Silent "[*]".toList := by
  have hstar : ∀ c ∈ Text.capitals, Text.spells c '*' = false := by decide
  cases n with
  | nil => exact absurd rfl hne
  | cons c n => exact silent_item (hstar c (hn c (List.mem_cons_self ..)))

namespace Ignores

variable {α : Type} {p : Pattern α}

theorem silent_edge {e : Edge} (h : Ignores p e.tag.name) : p.Silent e.text := by
  cases e with
  | opening tag s =>
    obtain ⟨tail, htail, hb⟩ := tag.exists_mark
    have hopen := h.opener s.upper tag.rule.mark_eq hb
    rwa [Edge.text, openingTag, htail]
  | closing tag s => exact h.closer s.upper

theorem silent_listMark (h : Ignores p "LIST".toList) (hi : p.Silent "[*]".toList)
    (m : ListMark) : p.Silent m.text := by
  cases m with
  | opening s => exact h.opener s.upper (.inl rfl) List.not_mem_nil
  | closing s => exact h.closer s.upper
  | item => exact hi

end Ignores

namespace Outline

variable {inList : Bool}

def pieces {inList : Bool} : Outline inList → List (Piece Text)
  | nil => []
  | text run rest => run.text.map .plain ++ rest.pieces
  | element tag opener closer body rest =>
    .hit (openingTag opener.text tag.valuePart) :: body.pieces ++
      .hit (closingTag closer.text) :: rest.pieces
  | list opener closer body rest =>
    .hit (openingTag opener.text []) :: body.pieces ++ .hit (closingTag closer.text) :: rest.pieces
  | item rest => .hit "[*]".toList :: rest.pieces

def source (d : Outline inList) : Text := writeWith id d.pieces

def innerRuns (d : Outline inList) : List Text := (runsOf d.pieces).tail.dropLast

theorem ne_token_of_head (d : Outline inList) (h : ∀ run ∈ d.innerRuns, run.head? ≠ some 'T') :
    ∀ run ∈ d.innerRuns, ∀ k, run ≠ "TAG".toList ++ Text.ofNat k := by
  intro run hrun k he
  refine h run hrun ?_
  rw [he]
  rfl

def names {inList : Bool} : Outline inList → List Text
  | nil => []
  | text _ rest => rest.names
  | element tag _ _ body rest => tag.name :: body.names ++ rest.names
  | list _ _ body rest => "LIST".toList :: body.names ++ rest.names
  | item rest => rest.names

/-- No tag of one of these names occurs inside an element or a list of its own name. -/
def Apart {inList : Bool} (among : List Text) : Outline inList → Prop
  | nil => True
  | text _ rest => rest.Apart among
  | element tag _ _ body rest =>
    (tag.name ∈ among → tag.name ∉ body.names) ∧ body.Apart among ∧ rest.Apart among
  | list _ _ body rest =>
    ("LIST".toList ∈ among → "LIST".toList ∉ body.names) ∧ body.Apart among ∧ rest.Apart among
  | item rest => rest.Apart among

instance decidableApart {inList : Bool} (among : List Text) :
    (d : Outline inList) → Decidable (d.Apart among)
  | nil => inferInstanceAs (Decidable True)
  | text _ rest => decidableApart among rest
  | element tag _ _ body rest =>
    have := decidableApart among body
    have := decidableApart among rest
    inferInstanceAs (Decidable ((tag.name ∈ among → tag.name ∉ body.names) ∧
      body.Apart among ∧ rest.Apart among))
  | list _ _ body rest =>
    have := decidableApart among body
    have := decidableApart among rest
    inferInstanceAs (Decidable (("LIST".toList ∈ among → "LIST".toList ∉ body.names) ∧
      body.Apart among ∧ rest.Apart among))
  | item rest => decidableApart among rest

def row {inList : Bool} : Outline inList → Row
  | nil => []
  | text run rest => (Html.escape run.text).map .plain ++ rest.row
  | element tag opener closer body rest =>
    .hit (.edge (.opening tag opener)) :: body.row ++ .hit (.edge (.closing tag closer)) :: rest.row
  | list opener closer body rest =>
    .hit (.list (.opening opener)) :: body.row ++ .hit (.list (.closing closer)) :: rest.row
  | item rest => .hit (.list .item) :: rest.row

theorem mem_escape_run {run : Run} {c : Char} (h : c ∈ Html.escape run.text) :
    c ≠ '[' ∧ c ≠ '<' := by
  refine ⟨?_, (Html.ne_angle_of_mem_escape h).1⟩
  rintro rfl
  exact bracket_notMem_escape run.bracket_notMem h

theorem clean_row (d : Outline inList) : Clean d.row := by
  induction d with
  | nil => exact fun c hc => by cases hc
  | text run rest ih => exact (clean_map_plain fun c hc => mem_escape_run hc).append ih
  | element tag opener closer body rest ihb ihr => exact (ihb.cons_hit).append ihr.cons_hit
  | list opener closer body rest ihb ihr => exact (ihb.cons_hit).append ihr.cons_hit
  | item rest ih => exact ih.cons_hit

theorem written_row (d : Outline inList) : written d.row = Html.escape d.source := by
  induction d with
  | nil => rfl
  | text run rest ih =>
    rw [row, written_append, written_map_plain, ih, source, source, pieces, writeWith_append,
      writeWith_map_plain, Html.escape_append]
  | element tag opener closer body rest ihb ihr =>
    have hs : (element tag opener closer body rest).source =
        openingTag opener.text tag.valuePart ++ body.source ++ closingTag closer.text ++
          rest.source := by
      simp [source, pieces, writeWith, writeWith_append]
    rw [hs, Html.escape_append, Html.escape_append, Html.escape_append,
      Document.escape_openingTag tag.name_capitals opener.upper,
      Document.escape_closingTag tag.name_capitals closer.upper, ← ihb, ← ihr]
    simp [row, Edge.text]
  | list opener closer body rest ihb ihr =>
    have hs : (list opener closer body rest).source =
        openingTag opener.text [] ++ body.source ++ closingTag closer.text ++ rest.source := by
      simp [source, pieces, writeWith, writeWith_append]
    rw [hs, Html.escape_append, Html.escape_append, Html.escape_append,
      Document.escape_openingTag list_capitals opener.upper,
      Document.escape_closingTag list_capitals closer.upper, ← ihb, ← ihr]
    simp [row, ListMark.text]
  | item rest ih =>
    have hs : (item rest).source = "[*]".toList ++ rest.source := rfl
    have hitem : Html.escape "[*]".toList = "[*]".toList := by decide
    rw [hs, Html.escape_append, hitem, ← ih]
    rfl

/-! ## From a source to a row -/

theorem hit_cases {d : Outline inList} {x : Text} (h : .hit x ∈ d.pieces) :
    x = "[*]".toList ∨ ∃ name ∈ tagNames,
      (∃ s v, s.map Char.toUpper = name ∧ (v = [] ∨ ∃ run : Run, v = '=' :: run.text) ∧
        x = openingTag s v) ∨
      ∃ s, s.map Char.toUpper = name ∧ x = closingTag s := by
  induction d with
  | nil => cases h
  | text run rest ih =>
    rcases List.mem_append.mp h with h | h
    · obtain ⟨c, -, hc⟩ := List.mem_map.mp h
      cases hc
    · exact ih h
  | element tag opener closer body rest ihb ihr =>
    simp only [pieces, List.cons_append, List.mem_cons, List.mem_append, Piece.hit.injEq] at h
    rcases h with rfl | h | rfl | h
    · exact .inr ⟨_, tag.name_mem, .inl ⟨_, _, opener.upper, Document.valuePart_cases tag, rfl⟩⟩
    · exact ihb h
    · exact .inr ⟨_, tag.name_mem, .inr ⟨_, closer.upper, rfl⟩⟩
    · exact ihr h
  | list opener closer body rest ihb ihr =>
    simp only [pieces, List.cons_append, List.mem_cons, List.mem_append, Piece.hit.injEq] at h
    rcases h with rfl | h | rfl | h
    · exact .inr ⟨_, list_mem_tagNames, .inl ⟨_, _, opener.upper, .inl rfl, rfl⟩⟩
    · exact ihb h
    · exact .inr ⟨_, list_mem_tagNames, .inr ⟨_, closer.upper, rfl⟩⟩
    · exact ihr h
  | item rest ih =>
    simp only [pieces, List.mem_cons, Piece.hit.injEq] at h
    rcases h with rfl | h
    · exact .inl rfl
    · exact ih h

theorem plain_cases {d : Outline inList} {c : Char} (h : .plain c ∈ d.pieces) :
    c ≠ '[' ∧ c ≠ '\x00' := by
  induction d with
  | nil => cases h
  | text run rest ih =>
    rcases List.mem_append.mp h with h | h
    · obtain ⟨d, hd, he⟩ := List.mem_map.mp h
      obtain rfl := Piece.plain.inj he
      exact (run.plain d hd).imp_right And.right
    · exact ih h
  | element tag opener closer body rest ihb ihr =>
    simp only [pieces, List.cons_append, List.mem_cons, List.mem_append, reduceCtorEq,
      false_or] at h
    exact h.elim ihb ihr
  | list opener closer body rest ihb ihr =>
    simp only [pieces, List.cons_append, List.mem_cons, List.mem_append, reduceCtorEq,
      false_or] at h
    exact h.elim ihb ihr
  | item rest ih =>
    simp only [pieces, List.mem_cons, reduceCtorEq, false_or] at h
    exact ih h

theorem isTag_of_hit {d : Outline inList} {x : Text} (h : .hit x ∈ d.pieces) : IsTag x := by
  rcases hit_cases h with rfl | ⟨name, hname, ⟨s, v, hs, hv, rfl⟩ | ⟨s, hs, rfl⟩⟩
  · exact ⟨['*'], rfl, by decide, by decide, by decide, by decide⟩
  · exact isTag_openingTag (isTagName_of_mem hname) hs hv
  · exact isTag_closingTag (isTagName_of_mem hname) hs

/-- A word whose name is no tag of outlines is read nowhere in a stowed source. -/
theorem silent_stowed (d : Outline inList) {x : Char} {n : Text} (hn : ∀ c ∈ n, c ∈ Text.capitals)
    (hne : n ≠ []) (hx : x ∈ Text.marks) (hnot : n ∉ tagNames) (more : Text) (skip : Text → Bool)
    (s : Stash) (hl : '[' ∉ s.label) :
    (word ('[' :: n ++ x :: more)).Silent (Stash.stowPieces id skip d.pieces s).1 := by
  refine silent_stowPieces (begins_word _) (fun c hc => (plain_cases hc).1)
    (fun y hy => ?_) skip s hl
  rcases hit_cases hy with rfl | ⟨name, hname, hy⟩
  · exact silent_name_item hn hne _
  · have hignores : Ignores (word ('[' :: n ++ x :: more)) name := by
      refine ignores_word_of_ne hn hne hx (isTagName_of_mem hname).capitals ?_ more
      rintro rfl
      exact hnot hname
    rcases hy with ⟨t, v, ht, hv, rfl⟩ | ⟨t, ht, rfl⟩
    · exact hignores.silent_openingTag ht hv
    · exact hignores.closer ht

/-- What an outline is converted to is what the last passes make of its row. -/
theorem convert_source_eq {σ : Type} (sv : Services σ) (s : σ) {d : Outline inList}
    (hruns : ∀ run ∈ d.innerRuns, ∀ k, run ≠ "TAG".toList ++ Text.ofNat k) :
    convert sv d.source s = .ok (finish (written d.row), s) := by
  have hstow : stashTags emptyTags d.source =
      Stash.stowPieces id (fun x => !anyTag.covers x) d.pieces emptyTags :=
    stashTags_writeWith (fun _ hc => plain_cases hc) fun _ hx => isTag_of_hit hx
  have hfile : fileTag.Silent (stashTags emptyTags d.source).1 := by
    have hword : (word ('[' :: "DISK".toList ++ ' ' :: "FILE ID=".toList)).Silent
        (Stash.stowPieces id (fun x => !anyTag.covers x) d.pieces emptyTags).1 :=
      d.silent_stowed (by decide) (by decide) (by decide) (by decide) _ _ _ (by decide)
    rw [hstow]
    exact (hword.between _ _).filter _
  have hmention : mention.Silent (stashTags emptyTags d.source).1 := by
    have hword : (word ('[' :: "USER".toList ++ ['='])).Silent
        (Stash.stowPieces id (fun x => !anyTag.covers x) d.pieces emptyTags).1 :=
      d.silent_stowed (by decide) (by decide) (by decide) (by decide) _ _ _ (by decide)
    rw [hstow]
    exact (hword.between _ _).between _ _
  have hunstash : unstashTags (stashTags emptyTags d.source).2
      (Html.escape (stashTags emptyTags d.source).1) = Html.escape d.source :=
    unstash_writeWith (fun _ hc => plain_cases hc) (fun _ hx => isTag_of_hit hx) hruns
  rw [written_row, ← hunstash]
  exact convert_of_silent sv hfile hmention s

end Outline

end Bracket

end TaskBulletin
