import TaskBulletin.Proofs.Bullets
import TaskBulletin.Proofs.Segment
import Mathlib.Data.List.DropRight

/-!
# The lines of blocks

A text of blocks is made of text, paragraphs, and lists of both kinds, with text and
paragraphs in their items. The three passes over blocks go over the whole text one after
another, and each takes its own blocks only: the lists of both kinds have the same closing
tag, but no list is in a list, so the next closing tag is always the list's own.
-/

namespace TaskBulletin

namespace Pattern

theorem rewrite_flatMap {α ι : Type} {p : Pattern α} {f : α → Text} {source target : ι → Text}
    {xs : List ι}
    (h : ∀ x ∈ xs, ∀ rest, p.rewrite f (source x ++ rest) = target x ++ p.rewrite f rest) :
    p.rewrite f (xs.flatMap source) = xs.flatMap target := by
  induction xs with
  | nil => exact rewrite_nil p f
  | cons x xs ih =>
    rw [List.flatMap_cons, List.flatMap_cons, h x (List.mem_cons_self ..),
      ih fun y hy => h y (List.mem_cons_of_mem _ hy)]

end Pattern

namespace Text

theorem notMem_intercalate {sep : Text} {ts : List Text} {c : Char} (hs : c ∉ sep)
    (h : ∀ t ∈ ts, c ∉ t) : c ∉ List.intercalate sep ts := by
  induction ts with
  | nil => exact List.not_mem_nil
  | cons t ts ih =>
    have ih := ih fun u hu => h u (List.mem_cons_of_mem _ hu)
    have ht := h t (List.mem_cons_self ..)
    cases ts with
    | nil => rwa [List.intercalate_singleton]
    | cons u ts => simp [List.intercalate_cons_cons, ht, hs, ih]

end Text

namespace Bracket

open Pattern

/-! ## Blocks -/

/-- Text without an opening bracket. -/
structure Unbracketed where
  text : Text
  bracket_notMem : '[' ∉ text

structure Paragraph where
  opener : Spelled "P".toList
  closer : Spelled "P".toList
  body : Unbracketed

inductive ListPart where
  | mark
  | text (t : Unbracketed)
  | paragraph (p : Paragraph)

inductive ListKind where
  | numbered
  | bulleted
  deriving DecidableEq

inductive Block where
  | text (t : Unbracketed)
  | paragraph (p : Paragraph)
  | list (kind : ListKind) (opener closer : Spelled "LIST".toList) (parts : List ListPart)

def Paragraph.source (p : Paragraph) : Text :=
  openingTag p.opener.text [] ++ p.body.text ++ closingTag p.closer.text

namespace ListPart

def source : ListPart → Text
  | mark => "[*]".toList
  | text t => t.text
  | paragraph p => p.source

def isMark : ListPart → Bool
  | mark => true
  | _ => false

/-- Its characters and its paragraph. A mark has neither. -/
def pieces : ListPart → List (Piece Paragraph)
  | mark => []
  | text t => t.text.map .plain
  | paragraph p => [.hit p]

end ListPart

namespace ListKind

def value : ListKind → Text
  | numbered => "=1".toList
  | bulleted => []

/-- What stands in front of the item with a given number. -/
def label : ListKind → Nat → Text
  | numbered, k => Text.ofNat k ++ ". ".toList
  | bulleted, _ => "• ".toList

end ListKind

def listSource (kind : ListKind) (opener closer : Spelled "LIST".toList) (parts : List ListPart) :
    Text :=
  openingTag opener.text kind.value ++ parts.flatMap ListPart.source ++ closingTag closer.text

def Block.source : Block → Text
  | text t => t.text
  | paragraph p => p.source
  | list kind opener closer parts => listSource kind opener closer parts

/-! ## What blocks mean -/

def isBlankPiece : Piece Paragraph → Bool
  | .plain c => Text.isBlank c
  | .hit _ => false

/-- Characters and paragraphs without the blanks around them. -/
def strip (row : List (Piece Paragraph)) : List (Piece Paragraph) :=
  (row.dropWhile isBlankPiece).rdropWhile isBlankPiece

/-- The items of a list: what stands between its marks, if it is not blank. -/
def items (parts : List ListPart) : List Text :=
  (((parts.splitOnP ListPart.isMark).map (List.flatMap ListPart.pieces)).filter
    fun row => !row.all isBlankPiece).map fun row => writeWith (fun p => p.body.text) (strip row)

/-- The lines of a list: its items with their labels, counted from one. -/
def listLines (kind : ListKind) (parts : List ListPart) : Text :=
  List.intercalate ['\n'] (((items parts).zipIdx 1).map fun x => kind.label x.2 ++ x.1)

/-- What a block means. -/
def Block.lines : Block → Text
  | text t => t.text
  | paragraph p => p.body.text ++ ['\n']
  | list kind _ _ parts => listLines kind parts

/-! ## Tags of paragraphs -/

theorem isTagName_paragraph : IsTagName "P".toList := ⟨by decide, by decide, by decide⟩

namespace Paragraph

variable {α : Type} {p : Pattern α}

theorem silent (hp : p.Begins '[') (h : Ignores p "P".toList) (x : Paragraph) : p.Silent x.source :=
  ((h.opener x.opener.upper (.inl rfl) List.not_mem_nil).append
    (hp.silent x.body.bracket_notMem)).append (h.closer x.closer.upper)

theorem read (x : Paragraph) (rest : Text) : Bracket.paragraph.read (x.source ++ rest) =
      some (⟨openingTag x.opener.text [], x.body.text, closingTag x.closer.text⟩, rest) :=
  Rule.read_paired isTagName_paragraph.capitals x.opener.upper x.closer.upper
    ((begins_word _).silent x.body.bracket_notMem) rest

theorem silent_itemMark (x : Paragraph) : itemMark.Silent x.source := by
  obtain ⟨inner, hi, hb, hs⟩ :=
    exists_inner_openingTag isTagName_paragraph x.opener.upper (v := []) List.not_mem_nil
  obtain ⟨inner', hi', hb', hs'⟩ := exists_inner_closingTag isTagName_paragraph x.closer.upper
  rw [source, hi, hi']
  exact ((silent_itemMark_bracketed hb hs).append
    ((begins_exact '[' _).silent x.body.bracket_notMem)).append (silent_itemMark_bracketed hb' hs')

theorem source_eq (x : Paragraph) : ∃ inner, x.source = '[' :: (inner ++ [']']) :=
  ⟨x.opener.text ++ [']'] ++ x.body.text ++ '[' :: '/' :: x.closer.text,
    by simp [source, openingTag, closingTag]⟩

end Paragraph

/-! ## The items of a list -/

section

variable {row : List (Piece Paragraph)}

theorem blank_source (row : List (Piece Paragraph)) :
    Text.blank (writeWith Paragraph.source row) = row.all isBlankPiece := by
  induction row with
  | nil => rfl
  | cons piece row ih =>
    rw [Text.blank] at ih
    cases piece with
    | plain c => rw [writeWith, Text.blank, List.all_cons, ih]; rfl
    | hit p =>
      obtain ⟨inner, hp⟩ := p.source_eq
      have hbracket : Text.isBlank '[' = false := by decide
      rw [writeWith, hp, Text.blank]
      simp [isBlankPiece, hbracket]

theorem trimStart_source (row : List (Piece Paragraph)) :
    Text.trimStart (writeWith Paragraph.source row) =
      writeWith Paragraph.source (row.dropWhile isBlankPiece) := by
  induction row with
  | nil => rfl
  | cons piece row ih =>
    rw [Text.trimStart] at ih ⊢
    cases piece with
    | plain c =>
      rw [writeWith, List.dropWhile_cons, List.dropWhile_cons, ih]
      change _ = writeWith Paragraph.source (if Text.isBlank c = true then _ else _)
      split <;> rfl
    | hit p =>
      obtain ⟨inner, hp⟩ := p.source_eq
      have hbracket : Text.isBlank '[' = false := by decide
      rw [List.dropWhile_cons_of_neg (by simp [isBlankPiece]), writeWith, hp, List.cons_append,
        List.dropWhile_cons_of_neg (by simp [hbracket])]

theorem trimEnd_source (row : List (Piece Paragraph)) :
    Text.trimEnd (writeWith Paragraph.source row) =
      writeWith Paragraph.source (row.rdropWhile isBlankPiece) := by
  induction row using List.reverseRecOn with
  | nil => rfl
  | append_singleton row piece ih =>
    rw [Text.trimEnd] at ih ⊢
    rw [writeWith_append]
    cases piece with
    | plain c =>
      cases hc : Text.isBlank c with
      | true =>
        have hpiece : isBlankPiece (.plain c) = true := hc
        rw [List.rdropWhile_concat_pos _ _ _ hpiece, ← ih]
        exact List.rdropWhile_concat_pos _ _ _ hc
      | false =>
        rw [List.rdropWhile_concat_neg _ _ _ (by simpa [isBlankPiece] using hc), writeWith_append]
        exact Text.trimEnd_append_of_not_isBlank (by simp [writeWith])
          (by simpa [writeWith] using hc)
    | hit p =>
      obtain ⟨inner, hp⟩ := p.source_eq
      rw [List.rdropWhile_concat_neg _ _ _ (by simp [isBlankPiece]), writeWith_append]
      have hlast : writeWith Paragraph.source [.hit p] = '[' :: inner ++ [']'] := by
        simp [writeWith, hp]
      rw [hlast, ← List.append_assoc]
      exact Text.trimEnd_append_of_not_isBlank (by simp) (by decide)

theorem trim_source (row : List (Piece Paragraph)) :
    Text.trim (writeWith Paragraph.source row) = writeWith Paragraph.source (strip row) := by
  rw [Text.trim, trimStart_source, trimEnd_source, strip]

theorem rewrite_paragraph_source (hrow : .plain '[' ∉ row) :
    paragraph.rewrite Span.content (writeWith Paragraph.source row) =
      writeWith (fun p => p.body.text) row := by
  induction row with
  | nil => exact rewrite_nil ..
  | cons piece row ih =>
    have ih := ih fun h => hrow (List.mem_cons_of_mem _ h)
    cases piece with
    | plain c =>
      have hsilent : paragraph.Silent [c] := by
        refine (begins_between (begins_word _) _ _).silent fun hc => hrow ?_
        rw [List.mem_singleton.mp hc]
        exact List.mem_cons_self ..
      rw [writeWith, writeWith, ← List.singleton_append, rewrite_append_of_silent hsilent, ih]
      rfl
    | hit p => rw [writeWith, writeWith, rewrite_of_read (p.read _), ih]

end

theorem ListPart.writeWith_pieces {x : ListPart} (hx : x.isMark = false) :
    writeWith Paragraph.source x.pieces = x.source := by
  cases x with
  | mark => cases hx
  | text t => exact writeWith_map_plain ..
  | paragraph p => exact List.append_nil _

theorem ListPart.silent_itemMark {x : ListPart} (hx : x.isMark = false) :
    itemMark.Silent x.source := by
  cases x with
  | mark => cases hx
  | text t => exact (begins_exact '[' _).silent t.bracket_notMem
  | paragraph p => exact p.silent_itemMark

theorem ListPart.bracket_notMem_pieces (x : ListPart) : .plain '[' ∉ x.pieces := by
  cases x with
  | mark => exact List.not_mem_nil
  | text t => simpa [pieces] using t.bracket_notMem
  | paragraph p => simp [pieces]

theorem split_parts (parts : List ListPart) :
    itemMark.split (parts.flatMap ListPart.source) = (parts.splitOnP ListPart.isMark).map fun ps =>
      writeWith Paragraph.source (ps.flatMap ListPart.pieces) := by
  induction parts with
  | nil =>
    rw [List.flatMap_nil, Pattern.split, pieces_nil]
    rfl
  | cons x parts ih =>
    rw [Pattern.split] at ih ⊢
    rw [List.flatMap_cons, List.splitOnP_cons_eq_if_modifyHead]
    cases hx : x.isMark with
    | true =>
      obtain rfl : x = .mark := by cases x <;> first | rfl | cases hx
      rw [if_pos rfl, ListPart.source, pieces_of_read _ (read_itemMark _), runsOf, ih]
      rfl
    | false =>
      rw [if_neg (by simp), pieces_append_of_silent (x.silent_itemMark hx),
        runsOf_map_plain_append, ih]
      cases h : parts.splitOnP ListPart.isMark with
      | nil => exact absurd h (List.splitOnP_ne_nil _ _)
      | cons ps rest => simp [writeWith_append, x.writeWith_pieces hx]

theorem bracket_notMem_row (ps : List ListPart) : .plain '[' ∉ ps.flatMap ListPart.pieces := by
  intro hm
  obtain ⟨x, -, hx⟩ := List.mem_flatMap.mp hm
  exact x.bracket_notMem_pieces hx

theorem mem_of_mem_strip {piece : Piece Paragraph} {row : List (Piece Paragraph)}
    (h : piece ∈ strip row) : piece ∈ row :=
  (List.dropWhile_suffix _).subset ((List.rdropWhile_prefix _ _).subset h)

theorem listItems_parts (parts : List ListPart) :
    listItems (parts.flatMap ListPart.source) = items parts := by
  have hblank : ((fun item => !Text.blank item) ∘ writeWith Paragraph.source) =
      fun row => !row.all isBlankPiece := by
    funext row
    rw [Function.comp_apply, blank_source]
  have hsplit : itemMark.split (parts.flatMap ListPart.source) =
      ((parts.splitOnP ListPart.isMark).map (List.flatMap ListPart.pieces)).map
        (writeWith Paragraph.source) := by
    rw [split_parts, List.map_map]
    rfl
  rw [listItems, hsplit, List.filter_map, hblank, List.map_map, items]
  refine List.map_congr_left fun row hrow => ?_
  obtain ⟨ps, -, rfl⟩ := List.mem_map.mp (List.mem_filter.mp hrow).1
  rw [Function.comp_apply, trim_source]
  exact rewrite_paragraph_source fun h => bracket_notMem_row ps (mem_of_mem_strip h)

theorem bracket_notMem_items {parts : List ListPart} : ∀ item ∈ items parts, '[' ∉ item := by
  intro item hitem hm
  obtain ⟨row, hrow, rfl⟩ := List.mem_map.mp hitem
  obtain ⟨ps, -, rfl⟩ := List.mem_map.mp (List.mem_filter.mp hrow).1
  rcases mem_writeWith.mp hm with h | ⟨p, -, h⟩
  · exact bracket_notMem_row ps (mem_of_mem_strip h)
  · exact p.body.bracket_notMem h

/-! ## Passes over lists -/

theorem numberFrom_eq (n : Nat) (ts : List Text) :
    numberFrom n ts = (ts.zipIdx n).map fun x => ListKind.numbered.label x.2 ++ x.1 := by
  induction ts generalizing n with
  | nil => rfl
  | cons t ts ih => rw [numberFrom, ih, List.zipIdx_cons, List.map_cons]; rfl

theorem map_bullet_eq (n : Nat) (ts : List Text) :
    ts.map (fun t => "• ".toList ++ t) =
      (ts.zipIdx n).map fun x => ListKind.bulleted.label x.2 ++ x.1 := by
  induction ts generalizing n with
  | nil => rfl
  | cons t ts ih => rw [List.map_cons, ih (n + 1), List.zipIdx_cons, List.map_cons]; rfl

/-- A pattern that reads no mark of an item and no tag of a paragraph reads nothing in a list. -/
theorem silent_parts {α : Type} {p : Pattern α} (hp : p.Begins '[')
    (hignores : Ignores p "P".toList) (hmark : p.Silent "[*]".toList) (parts : List ListPart) :
    p.Silent (parts.flatMap ListPart.source) := by
  refine silent_flatMap fun x _ => ?_
  cases x with
  | mark => exact hmark
  | text t => exact hp.silent t.bracket_notMem
  | paragraph x => exact x.silent hp hignores

namespace ListKind

def opener (kind : ListKind) : Pattern Text := word ('[' :: "LIST".toList ++ kind.value ++ [']'])

def pattern (kind : ListKind) : Pattern (Span Text Text) :=
  between kind.opener (fun _ => true) (word ('[' :: '/' :: "LIST".toList ++ [']']))

/-- What the pass over the lists of a kind writes for the content of a list. -/
def linesOf : ListKind → Text → Text
  | numbered => numberedLines
  | bulleted => bulletLines

variable (kind : ListKind)

theorem linesOf_parts (parts : List ListPart) :
    kind.linesOf (parts.flatMap ListPart.source) = listLines kind parts := by
  cases kind with
  | numbered =>
    rw [linesOf, numberedLines, listItems_parts, numberFrom_eq, listLines]
  | bulleted =>
    rw [linesOf, bulletLines, listItems_parts, map_bullet_eq 1, listLines]

def after : ListKind → Char
  | numbered => '='
  | bulleted => ']'

def more : ListKind → Text
  | numbered => "1]".toList
  | bulleted => []

theorem value_append : kind.value ++ [']'] = kind.after :: kind.more := by
  cases kind <;> rfl

theorem opener_eq : kind.opener = word ('[' :: "LIST".toList ++ kind.after :: kind.more) := by
  rw [opener, List.append_assoc, value_append]

theorem openingTag_eq (s : Text) :
    openingTag s kind.value = '[' :: s ++ kind.after :: kind.more := by
  rw [openingTag, value_append]

theorem after_mem : kind.after ∈ Text.marks := by
  cases kind <;> decide

theorem after_inj {kind kind' : ListKind} (h : kind.after = kind'.after) : kind = kind' := by
  cases kind <;> cases kind' <;> first | rfl | exact absurd h (by decide)

theorem bracket_notMem_more : '[' ∉ kind.more := by
  cases kind <;> decide

theorem readWord_more (rest : Text) :
    Text.readWord kind.more (kind.more ++ rest) = some (kind.more, rest) := by
  cases kind with
  | numbered =>
    have hone : Text.spells '1' '1' = true := by decide
    have hclose : Text.spells ']' ']' = true := by decide
    simp [more, Text.readWord, hone, hclose]
  | bulleted => rfl

theorem read_opener (s : Spelled "LIST".toList) (rest : Text) :
    kind.opener.read (openingTag s.text kind.value ++ rest) =
      some (openingTag s.text kind.value, rest) := by
  have hs := Text.toUpper_mem_capitals list_capitals s.upper
  have hread := Text.readWord_name list_capitals hs kind.after_mem kind.after_mem kind.more
    (kind.more ++ rest)
  rw [if_pos ⟨s.upper.symm, rfl⟩, readWord_more] at hread
  rw [opener_eq, openingTag_eq, List.cons_append, List.cons_append, List.cons_append,
    List.append_assoc, List.cons_append, read_word_bracket, hread]
  rfl

/-- A list is read whole: no closing tag of a list is in its content. -/
theorem read_source (o c : Spelled "LIST".toList) (parts : List ListPart) (rest : Text) :
    kind.pattern.read (listSource kind o c parts ++ rest) =
      some (⟨openingTag o.text kind.value, parts.flatMap ListPart.source, closingTag c.text⟩,
        rest) := by
  have hparts : (word ('[' :: '/' :: "LIST".toList ++ [']'])).Silent
      (parts.flatMap ListPart.source) :=
    silent_parts (begins_word _)
      (Rule.ignores_closer list_capitals isTagName_paragraph.capitals (by decide))
      (silent_item (by decide)) parts
  have hclose := read_closer list_capitals c.upper rest
  refine read_between_eq_some_iff.mpr
    ⟨parts.flatMap ListPart.source ++ ('[' :: '/' :: c.text ++ ']' :: rest), ?_, ?_⟩
  · rw [listSource, List.append_assoc, List.append_assoc, kind.read_opener]
    simp [closingTag]
  · rw [readTo_append_of_silent hparts (fun _ _ => rfl), readTo_of_read hclose]
    simp [closingTag]

theorem begins_pattern : kind.pattern.Begins '[' := begins_between (begins_word _) _ _

theorem ignores_opener : Ignores kind.opener "P".toList := by
  rw [opener_eq]
  exact ignores_word_of_ne list_capitals (by decide) kind.after_mem isTagName_paragraph.capitals
    (by decide) _

theorem silent_pattern_paragraph (x : Paragraph) : kind.pattern.Silent x.source :=
  (x.silent (begins_word _) kind.ignores_opener).between _ _

/-- The pass over lists of one kind goes by the lists of the other kind. -/
theorem silent_pattern_list {kind kind' : ListKind} (h : kind ≠ kind') (o c : Spelled "LIST".toList)
    (parts : List ListPart) : kind.pattern.Silent (listSource kind' o c parts) := by
  refine Silent.between ?_ _ _
  have hopens : kind.opener.Silent (openingTag o.text kind'.value) := by
    rw [opener_eq, openingTag_eq]
    exact silent_tag list_capitals (Text.toUpper_mem_capitals list_capitals o.upper) kind.after_mem
      kind'.after_mem (fun he => h (after_inj he.2)) _ kind'.bracket_notMem_more
  have hmark : kind.opener.Silent "[*]".toList := by
    rw [opener_eq]
    exact silent_name_item list_capitals (by decide) _
  have hparts : kind.opener.Silent (parts.flatMap ListPart.source) :=
    silent_parts (begins_word _) kind.ignores_opener hmark parts
  have hcloses : kind.opener.Silent (closingTag c.text) := by
    rw [opener_eq]
    exact Rule.silent_word_closer list_capitals (by decide) kind.after_mem _
      (Text.toUpper_mem_capitals list_capitals c.upper)
  exact (hopens.append hparts).append hcloses

theorem bracket_notMem_label (k : Nat) : '[' ∉ kind.label k := by
  cases kind with
  | numbered =>
    have hk := notMem_ofNat (c := '[') (by decide) k
    simpa [label] using hk
  | bulleted => exact (by decide : '[' ∉ "• ".toList)

end ListKind

theorem bracket_notMem_listLines (kind : ListKind) (parts : List ListPart) :
    '[' ∉ listLines kind parts := by
  have hline : ∀ line ∈ ((items parts).zipIdx 1).map (fun x => kind.label x.2 ++ x.1),
      '[' ∉ line := by
    intro line hline hm
    obtain ⟨x, hx, rfl⟩ := List.mem_map.mp hline
    rcases List.mem_append.mp hm with hm | hm
    · exact kind.bracket_notMem_label x.2 hm
    · exact bracket_notMem_items x.1 (List.fst_mem_of_mem_zipIdx hx) hm
  exact Text.notMem_intercalate (by decide) hline

/-- A block when the lists of some kinds are lines already. -/
def Block.flattened (done : List ListKind) : Block → Text
  | list kind opener closer parts =>
    if kind ∈ done then listLines kind parts else listSource kind opener closer parts
  | block => block.source

/-- The pass over the lists of one kind, with the others done or not. -/
theorem rewrite_flattened (kind : ListKind) (done : List ListKind) (blocks : List Block) :
    kind.pattern.rewrite (fun list => kind.linesOf list.content)
      (blocks.flatMap (Block.flattened done)) =
      blocks.flatMap (Block.flattened (kind :: done)) := by
  refine rewrite_flatMap fun block _ rest => ?_
  cases block with
  | text t => exact rewrite_append_of_silent (kind.begins_pattern.silent t.bracket_notMem) _ rest
  | paragraph p => exact rewrite_append_of_silent (kind.silent_pattern_paragraph p) _ rest
  | list kind' opener closer parts =>
    rw [Block.flattened, Block.flattened]
    by_cases hd : kind' ∈ done
    · rw [if_pos hd, if_pos (List.mem_cons_of_mem _ hd)]
      exact rewrite_append_of_silent (kind.begins_pattern.silent (bracket_notMem_listLines _ _))
        _ rest
    · rw [if_neg hd]
      by_cases he : kind = kind'
      · subst he
        rw [if_pos (List.mem_cons_self ..), rewrite_of_read (kind.read_source ..),
          kind.linesOf_parts]
      · have hnot : kind' ∉ kind :: done :=
          fun h => (List.mem_cons.mp h).elim (fun h => he h.symm) hd
        rw [if_neg hnot]
        exact rewrite_append_of_silent (ListKind.silent_pattern_list he ..) _ rest

/-- Lists and paragraphs become lines, each by itself. -/
theorem flattenBlocks_source (blocks : List Block) :
    flattenBlocks (blocks.flatMap Block.source) = blocks.flatMap Block.lines := by
  have hsource : blocks.flatMap Block.source = blocks.flatMap (Block.flattened []) := by
    refine List.flatMap_congr fun block _ => ?_
    cases block <;> rfl
  have hnumbered := rewrite_flattened .numbered [] blocks
  have hbulleted := rewrite_flattened .bulleted [.numbered] blocks
  have hparagraph : paragraph.rewrite (fun p => p.content ++ ['\n'])
      (blocks.flatMap (Block.flattened [.bulleted, .numbered])) = blocks.flatMap Block.lines := by
    refine rewrite_flatMap fun block _ rest => ?_
    cases block with
    | text t =>
      exact rewrite_append_of_silent ((begins_between (begins_word _) _ _).silent t.bracket_notMem)
        _ rest
    | paragraph p => exact rewrite_of_read (p.read rest) _
    | list kind opener closer parts =>
      have hdone : kind ∈ [ListKind.bulleted, .numbered] := by cases kind <;> decide
      rw [Block.flattened, if_pos hdone]
      exact rewrite_append_of_silent
        ((begins_between (begins_word _) _ _).silent (bracket_notMem_listLines _ _)) _ rest
  rw [flattenBlocks, hsource]
  change paragraph.rewrite _
    (ListKind.bulleted.pattern.rewrite (fun list => ListKind.bulleted.linesOf list.content)
      (ListKind.numbered.pattern.rewrite (fun list => ListKind.numbered.linesOf list.content) _)) =
        _
  rw [hnumbered, hbulleted, hparagraph]

example :
    flattenBlocks "[list=1]a[*] [*][P] b [/p] c[/LIST];[LIST][*][P][/P][/LIST][P]d[/P]".toList =
      "1. a\n2.  b  c;• d\n".toList := by decide +kernel

end Bracket

end TaskBulletin
