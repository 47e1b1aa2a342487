import TaskBulletin.Proofs.Pairing

/-!
# What becomes of the lists of a row

The pass over lists pairs the opening tag of a list with the next closing tag and turns
what stands between into lines. It drops the tags of the pair, the item marks between
them, and blanks at the ends of items. The tags of elements stay in their order, whatever
lists they stand in, and so do the marks of lists that are in no pair.
-/

namespace TaskBulletin

namespace Bracket

open Pattern

/-! ## Marks as texts -/

theorem exists_inner_openingTag {name s v : Text} (hn : IsTagName name)
    (hs : s.map Char.toUpper = name) (hv : '[' ∉ v) :
    ∃ inner, openingTag s v = '[' :: (inner ++ [']']) ∧ '[' ∉ inner ∧ inner.head? ≠ some '*' := by
  have hu := Text.toUpper_mem_capitals hn.capitals hs
  refine ⟨s ++ v, by simp [openingTag], ?_, ?_⟩
  · rw [List.mem_append, not_or]
    exact ⟨notMem_of_toUpper_mem hu (by decide), hv⟩
  · cases s with
    | nil => exact absurd hs.symm hn.ne_nil
    | cons c s =>
      intro hc
      obtain rfl := Option.some.inj hc
      exact absurd (hu '*' (List.mem_cons_self ..)) (by decide)

theorem exists_inner_closingTag {name s : Text} (hn : IsTagName name)
    (hs : s.map Char.toUpper = name) :
    ∃ inner, closingTag s = '[' :: (inner ++ [']']) ∧ '[' ∉ inner ∧ inner.head? ≠ some '*' := by
  have hu := Text.toUpper_mem_capitals hn.capitals hs
  refine ⟨'/' :: s, rfl, ?_, by simp⟩
  rw [List.mem_cons, not_or]
  exact ⟨by decide, notMem_of_toUpper_mem hu (by decide)⟩

/-- A mark stands in square brackets, and only the mark of an item begins with a star. -/
theorem Mark.exists_inner (m : Mark) : ∃ inner, m.text = '[' :: (inner ++ [']']) ∧ '[' ∉ inner ∧
    (inner.head? = some '*' → m = .list .item) := by
  have hlist : IsTagName "LIST".toList := isTagName_of_mem list_mem_tagNames
  cases m with
  | edge e =>
    cases e with
    | opening tag s =>
      obtain ⟨inner, hi, hbracket, hstar⟩ := exists_inner_openingTag
        (isTagName_of_mem tag.name_mem) s.upper tag.bracket_notMem_valuePart
      exact ⟨inner, hi, hbracket, fun h => absurd h hstar⟩
    | closing tag s =>
      obtain ⟨inner, hi, hbracket, hstar⟩ :=
        exists_inner_closingTag (isTagName_of_mem tag.name_mem) s.upper
      exact ⟨inner, hi, hbracket, fun h => absurd h hstar⟩
  | list m =>
    cases m with
    | opening s =>
      obtain ⟨inner, hi, hbracket, hstar⟩ := exists_inner_openingTag hlist s.upper List.not_mem_nil
      exact ⟨inner, hi, hbracket, fun h => absurd h hstar⟩
    | closing s =>
      obtain ⟨inner, hi, hbracket, hstar⟩ := exists_inner_closingTag hlist s.upper
      exact ⟨inner, hi, hbracket, fun h => absurd h hstar⟩
    | item => exact ⟨['*'], rfl, by decide, fun _ => rfl⟩

/-- The mark of an item is read in no text in brackets that begins with another character. -/
theorem silent_itemMark_bracketed {inner : Text} (hb : '[' ∉ inner) (hs : inner.head? ≠ some '*') :
    itemMark.Silent ('[' :: (inner ++ [']'])) := by
  have hnot : '[' ∉ inner ++ [']'] := by
    rw [List.mem_append, not_or]
    exact ⟨hb, by decide⟩
  refine Begins.silent_cons (begins_exact '[' _) hnot fun rest => read_exact_eq_none fun rest' he =>
    ?_
  change '[' :: (inner ++ [']'] ++ rest) = '[' :: '*' :: ']' :: rest' at he
  cases inner with
  | nil => exact absurd (List.cons.inj (List.cons.inj he).2).1 (by decide)
  | cons c inner =>
    obtain ⟨rfl, -⟩ := List.cons.inj (List.cons.inj he).2
    exact hs rfl

theorem silent_itemMark {m : Mark} (h : m ≠ .list .item) : itemMark.Silent m.text := by
  obtain ⟨inner, hi, hbracket, hstar⟩ := m.exists_inner
  rw [hi]
  exact silent_itemMark_bracketed hbracket fun hs => h (hstar hs)

theorem read_itemMark (rest : Text) :
    itemMark.read ("[*]".toList ++ rest) = some ("[*]".toList, rest) :=
  (read_exact_eq_some_iff (by decide)).mpr ⟨rfl, rfl⟩

/-! ## Words of blocks -/

theorem silent_listWord_edge {x : Char} (hx : x ∈ Text.marks) (more : Text) (e : Edge) :
    (word ('[' :: "LIST".toList ++ x :: more)).Silent e.text :=
  (ignores_word_of_ne list_capitals (by decide) hx e.tag.name_capitals e.tag.name_ne_list.symm
    more).silent_edge

/-- Only an opening tag is read as one, and only with its own mark. -/
theorem silent_listWord_listMark {x : Char} (hx : x ∈ Text.marks) (more : Text) {m : ListMark}
    (h : ∀ s, m = .opening s → x ≠ ']') :
    (word ('[' :: "LIST".toList ++ x :: more)).Silent m.text := by
  cases m with
  | opening s =>
    exact silent_tag list_capitals (Text.toUpper_mem_capitals list_capitals s.upper) hx (by decide)
      (fun hm => h s rfl hm.2) more List.not_mem_nil
  | closing s =>
    exact Rule.silent_word_closer list_capitals (by decide) hx more
      (Text.toUpper_mem_capitals list_capitals s.upper)
  | item => exact silent_name_item list_capitals (by decide) _

theorem silent_listCloser_edge (e : Edge) :
    (word ('[' :: '/' :: "LIST".toList ++ [']'])).Silent e.text :=
  (Rule.ignores_closer list_capitals e.tag.name_capitals e.tag.name_ne_list.symm).silent_edge

theorem silent_listCloser_listMark {m : ListMark} (h : ∀ s, m ≠ .closing s) :
    (word ('[' :: '/' :: "LIST".toList ++ [']'])).Silent m.text := by
  cases m with
  | opening s =>
    exact Rule.silent_closer_opener _ list_capitals s.upper (.inl rfl) List.not_mem_nil
  | closing s => exact absurd rfl (h s)
  | item => exact silent_item (by decide)

theorem silent_paragraph {row : Row} (hc : Clean row) : paragraph.Silent (written row) := by
  have hnot : "P".toList ∉ tagNames := by decide
  have hignores {name : Text} (hname : name ∈ tagNames) :
      Ignores (word ('[' :: "P".toList ++ [']'])) name :=
    ignores_word_of_ne (by decide) (by decide) (by decide) (isTagName_of_mem hname).capitals
      (ne_of_mem_of_not_mem hname hnot).symm []
  have hword : (word ('[' :: "P".toList ++ [']'])).Silent (written row) :=
    silent_written (begins_word _) hc (fun e _ => (hignores e.tag.name_mem).silent_edge)
      fun m _ => (hignores list_mem_tagNames).silent_listMark
        (silent_name_item (by decide) (by decide) _) m
  exact hword.between _ _

theorem silent_numberedList {row : Row} (hc : Clean row) : numberedList.Silent (written row) := by
  have hword : (word ('[' :: "LIST".toList ++ '=' :: "1]".toList)).Silent (written row) :=
    silent_written (begins_word _) hc (fun e _ => silent_listWord_edge (by decide) _ e)
      fun m _ => silent_listWord_listMark (by decide) _ fun _ _ => by decide
  exact hword.between _ _

/-! ## Texts made of rows -/

/-- A text that is a clean row with these tags of elements and these marks of lists. -/
def Carries (es : List Edge) (ms : List ListMark) (t : Text) : Prop :=
  ∃ row, Clean row ∧ edges row = es ∧ listMarks row = ms ∧ written row = t

namespace Carries

variable {es fs : List Edge} {ms ns : List ListMark} {t u : Text}

theorem of_row {row : Row} (h : Clean row) : Carries (edges row) (listMarks row) (written row) :=
  ⟨row, h, rfl, rfl, rfl⟩

theorem append (h : Carries es ms t) (h' : Carries fs ns u) :
    Carries (es ++ fs) (ms ++ ns) (t ++ u) := by
  obtain ⟨row, hc, rfl, rfl, rfl⟩ := h
  obtain ⟨row', hc', rfl, rfl, rfl⟩ := h'
  exact ⟨row ++ row', hc.append hc', by simp, by simp, by simp⟩

theorem of_plain (h : ∀ c ∈ t, c ≠ '[' ∧ c ≠ '<') : Carries [] [] t :=
  ⟨t.map .plain, clean_map_plain h, by simp, by simp, by simp⟩

theorem nil : Carries [] [] [] := of_plain (by simp)

theorem of_edge (e : Edge) : Carries [e] [] e.text :=
  ⟨[.hit (.edge e)], fun c hc => by simp at hc, rfl, rfl, by simp⟩

theorem of_listMark (m : ListMark) : Carries [] [m] m.text :=
  ⟨[.hit (.list m)], fun c hc => by simp at hc, rfl, rfl, by simp⟩

theorem silent_paragraph (h : Carries es ms t) : paragraph.Silent t := by
  obtain ⟨row, hc, -, -, rfl⟩ := h
  exact Bracket.silent_paragraph hc

theorem trim {row : Row} (h : Clean row) :
    Carries (edges row) (listMarks row) (Text.trim (written row)) := by
  have hfirst (m : Mark) : ∃ c u, m.text = c :: u ∧ Text.isBlank c = false := by
    obtain ⟨inner, hi, -, -⟩ := m.exists_inner
    exact ⟨'[', _, hi, by decide⟩
  have hlast (m : Mark) : ∃ u c, m.text = u ++ [c] ∧ Text.isBlank c = false := by
    obtain ⟨inner, hi, -, -⟩ := m.exists_inner
    exact ⟨'[' :: inner, ']', hi, by decide⟩
  obtain ⟨blanks, back, rfl, -, hstart⟩ := exists_trimStart_writeWith row fun m _ => hfirst m
  obtain ⟨front, blanks', rfl, -, hend⟩ := exists_trimEnd_writeWith back fun m _ => hlast m
  have hfront : Clean front :=
    h.of_subset fun piece hp => List.mem_append_right _ (List.mem_append_left _ hp)
  have htrim : Text.trim (written (blanks.map .plain ++ (front ++ blanks'.map .plain))) =
      written front := by
    rw [written, Text.trim, hstart, hend]
    rfl
  rw [htrim]
  simpa using of_row hfront

end Carries

theorem eq_nil_of_blank {row : Row} (h : Text.blank (written row) = true) :
    edges row = [] ∧ listMarks row = [] := by
  have hall := List.all_eq_true.mp h
  have hnone (m : Mark) : .hit m ∉ row := by
    intro hm
    obtain ⟨inner, hi, -, -⟩ := m.exists_inner
    have hb := hall '[' (mem_writeWith.mpr (.inr ⟨m, hm, by rw [hi]; exact List.mem_cons_self ..⟩))
    exact absurd hb (by decide)
  constructor
  · exact List.eq_nil_iff_forall_not_mem.mpr fun e he => hnone _ (mem_edges.mp he)
  · exact List.eq_nil_iff_forall_not_mem.mpr fun m hm => hnone _ (mem_listMarks.mp hm)

/-! ## The items of a list -/

def ListMark.isItem : ListMark → Bool
  | item => true
  | _ => false

def isItemMark : Piece Mark → Bool
  | .hit (.list m) => m.isItem
  | _ => false

theorem map_written_modifyHead (piece : Piece Mark) (rows : List Row) :
    (rows.modifyHead (piece :: ·)).map written =
      (rows.map written).modifyHead (written [piece] ++ ·) := by
  cases rows with
  | nil => rfl
  | cons row rows =>
    have h : written (piece :: row) = written [piece] ++ written row := written_append [piece] row
    simp [h]

theorem split_written {row : Row} (hc : Clean row) :
    itemMark.split (written row) = (row.splitOnP isItemMark).map written := by
  induction row with
  | nil =>
    rw [written_nil, Pattern.split, pieces_nil]
    rfl
  | cons piece row ih =>
    have ih := ih hc.tail
    rw [Pattern.split] at ih
    rw [List.splitOnP_cons_eq_if_modifyHead, Pattern.split]
    cases hi : isItemMark piece with
    | true =>
      obtain rfl : piece = .hit (.list .item) := by
        cases piece with
        | plain c => cases hi
        | hit m =>
          cases m with
          | edge e => cases hi
          | list m => cases m <;> first | rfl | cases hi
      have hitem : written (.hit (.list .item) :: row) = "[*]".toList ++ written row := rfl
      rw [if_pos rfl, hitem, pieces_of_read _ (read_itemMark _), runsOf, ih,
        List.map_cons, written_nil]
    | false =>
      have hsilent : itemMark.Silent (written [piece]) := by
        cases piece with
        | plain c =>
          have hne := (hc c (List.mem_cons_self ..)).1
          exact (begins_exact '[' _).silent fun hm => hne (List.mem_singleton.mp hm).symm
        | hit m =>
          have hm : m ≠ .list .item := by
            rintro rfl
            cases hi
          change itemMark.Silent (m.text ++ [])
          rw [List.append_nil]
          exact silent_itemMark hm
      have hsplit : written (piece :: row) = written [piece] ++ written row :=
        written_append [piece] row
      rw [if_neg (by simp), hsplit, pieces_append_of_silent hsilent, runsOf_map_plain_append, ih,
        map_written_modifyHead]

theorem flatten_splitOnP {α : Type} (p : α → Bool) (l : List α) :
    (l.splitOnP p).flatten = l.filter fun x => !p x := by
  induction l with
  | nil => rfl
  | cons x l ih =>
    rw [List.splitOnP_cons_eq_if_modifyHead, List.filter_cons]
    cases p x with
    | true => simpa using ih
    | false =>
      cases hl : l.splitOnP p with
      | nil => exact absurd hl (List.splitOnP_ne_nil p l)
      | cons y ys =>
        rw [hl] at ih
        simp [← ih]

theorem edges_filter_items (row : Row) :
    edges (row.filter fun piece => !isItemMark piece) = edges row := by
  induction row with
  | nil => rfl
  | cons piece row ih =>
    cases piece with
    | plain c => simpa [isItemMark] using ih
    | hit m =>
      cases m with
      | edge e => simpa [isItemMark] using ih
      | list m => cases m <;> simpa [isItemMark, ListMark.isItem] using ih

theorem listMarks_filter_items (row : Row) :
    listMarks (row.filter fun piece => !isItemMark piece) =
      (listMarks row).filter fun m => !m.isItem := by
  induction row with
  | nil => rfl
  | cons piece row ih =>
    cases piece with
    | plain c => simpa [isItemMark] using ih
    | hit m =>
      cases m with
      | edge e => simpa [isItemMark] using ih
      | list m => cases m <;> simpa [isItemMark, ListMark.isItem] using ih

def bulletLine (item : Text) : Text :=
  "• ".toList ++ paragraph.rewrite Span.content (Text.trim item)

theorem bulletLines_eq (content : Text) :
    bulletLines content =
      List.intercalate ['\n']
        (((itemMark.split content).filter fun item => !Text.blank item).map bulletLine) := by
  rw [bulletLines, listItems, List.map_map]
  rfl

theorem carries_bulletLine {row : Row} (hc : Clean row) :
    Carries (edges row) (listMarks row) (bulletLine (written row)) := by
  have hbullet : Carries [] [] "• ".toList := .of_plain (by decide)
  have htrim := Carries.trim hc
  rw [bulletLine, rewrite_of_silent htrim.silent_paragraph]
  exact hbullet.append htrim

theorem carries_intercalate {rows : List Row} (hc : ∀ row ∈ rows, Clean row) :
    Carries (edges rows.flatten) (listMarks rows.flatten)
      (List.intercalate ['\n']
        (((rows.map written).filter fun item => !Text.blank item).map bulletLine)) := by
  induction rows with
  | nil => exact .nil
  | cons row rows ih =>
    have ih := ih fun r hr => hc r (List.mem_cons_of_mem _ hr)
    rw [List.flatten_cons, edges_append, listMarks_append, List.map_cons, List.filter_cons]
    cases hb : Text.blank (written row) with
    | true =>
      obtain ⟨he, hm⟩ := eq_nil_of_blank hb
      simpa [he, hm] using ih
    | false =>
      have hline := carries_bulletLine (hc row (List.mem_cons_self ..))
      have hfeed : Carries [] [] ['\n'] := .of_plain (by decide)
      rw [Bool.not_false, if_pos rfl, List.map_cons]
      cases hlines : ((rows.map written).filter fun item => !Text.blank item).map bulletLine with
      | nil =>
        rw [hlines] at ih
        simpa using hline.append ih
      | cons line lines =>
        rw [hlines] at ih
        rw [List.intercalate_cons_cons]
        simpa using (hline.append hfeed).append ih

theorem carries_bulletLines {row : Row} (hc : Clean row) :
    Carries (edges row) ((listMarks row).filter fun m => !m.isItem)
      (bulletLines (written row)) := by
  have hflat := flatten_splitOnP isItemMark row
  have hrows : ∀ part ∈ row.splitOnP isItemMark, Clean part := by
    intro part hpart
    refine hc.of_subset fun piece hp => ?_
    have hmem := List.mem_flatten_of_mem hpart hp
    rw [hflat] at hmem
    exact List.mem_of_mem_filter hmem
  have h := carries_intercalate hrows
  rw [hflat, edges_filter_items, listMarks_filter_items] at h
  rwa [bulletLines_eq, split_written hc]

/-! ## The pass over lists -/

/-- The marks in no pair of an opening tag and the next closing tag, and in no such list. -/
def unpaired : (inside : Bool) → List ListMark → List ListMark
  | _, [] => []
  | false, .opening _ :: ms => unpaired true ms
  | true, .closing _ :: ms => unpaired false ms
  | true, .item :: ms => unpaired true ms
  | inside, m :: ms => m :: unpaired inside ms

/-- After every opening tag there is a closing tag. -/
def ListsClosed : List ListMark → Prop
  | [] => True
  | .opening _ :: ms => (∃ s, .closing s ∈ ms) ∧ ListsClosed ms
  | _ :: ms => ListsClosed ms

theorem ListsClosed.tail {m : ListMark} {ms : List ListMark} (h : ListsClosed (m :: ms)) :
    ListsClosed ms := by
  cases m with
  | opening s => exact h.2
  | closing s => exact h
  | item => exact h

theorem ListsClosed.of_append {ms ns : List ListMark} (h : ListsClosed (ms ++ ns)) :
    ListsClosed ns := by
  induction ms with
  | nil => exact h
  | cons m ms ih => exact ih h.tail

theorem unpaired_true_append {ms : List ListMark} (h : ∀ s, .closing s ∉ ms)
    (s : Spelled "LIST".toList) (ns : List ListMark) :
    unpaired true (ms ++ .closing s :: ns) =
      (ms.filter fun m => !m.isItem) ++ unpaired false ns := by
  induction ms with
  | nil => rfl
  | cons m ms ih =>
    have ih := ih fun s hs => h s (List.mem_cons_of_mem _ hs)
    cases m with
    | opening s' => simp [unpaired, ListMark.isItem, ih]
    | closing s' => exact absurd (List.mem_cons_self ..) (h s')
    | item => simp [unpaired, ListMark.isItem, ih]

def Mark.closesList : Mark → Bool
  | list (.closing _) => true
  | _ => false

/-- A row with a closing tag of a list falls into what is before the first and what is after it. -/
theorem exists_first_listCloser {row : Row} (h : ∃ s, .closing s ∈ listMarks row) :
    ∃ body s rest, row = body ++ .hit (.list (.closing s)) :: rest ∧
      ∀ s, .closing s ∉ listMarks body := by
  obtain ⟨s, hs⟩ := h
  obtain ⟨body, m, rest, hrow, hm, hbody⟩ :=
    exists_first_mark (p := Mark.closesList) ⟨_, mem_listMarks.mp hs, rfl⟩
  cases m with
  | edge e => cases hm
  | list m =>
    cases m with
    | opening s => cases hm
    | closing s =>
      refine ⟨body, s, rest, hrow, fun s' hs' => ?_⟩
      cases hbody _ (mem_listMarks.mp hs')
    | item => cases hm

theorem rewrite_bulletList_pair {body : Row} (hc : Clean body)
    (hbody : ∀ s, .closing s ∉ listMarks body) (s s' : Spelled "LIST".toList) (rest : Row) :
    bulletList.rewrite (fun list => bulletLines list.content)
        (written (.hit (.list (.opening s)) :: (body ++ .hit (.list (.closing s')) :: rest))) =
      bulletLines (written body) ++
        bulletList.rewrite (fun list => bulletLines list.content) (written rest) := by
  have hsilent : (word ('[' :: '/' :: "LIST".toList ++ [']'])).Silent (written body) :=
    silent_written (begins_word _) hc (fun e _ => silent_listCloser_edge e)
      fun m hm => silent_listCloser_listMark fun s hs => hbody s (hs ▸ hm)
  have hread : bulletList.read (openingTag s.text [] ++ written body ++ closingTag s'.text ++
      written rest) =
        some (⟨openingTag s.text [], written body, closingTag s'.text⟩, written rest) :=
    Rule.read_paired list_capitals s.upper s'.upper hsilent (written rest)
  have hwritten :
      written (.hit (.list (.opening s)) :: (body ++ .hit (.list (.closing s')) :: rest)) =
      openingTag s.text [] ++ written body ++ closingTag s'.text ++ written rest := by
    simp [ListMark.text]
  rw [hwritten, rewrite_of_read hread]

/-- An opening tag is paired with the next closing tag, and the pass goes on after it. -/
theorem exists_listPair (s : Spelled "LIST".toList) {row : Row} (hc : Clean row)
    (hclosed : ListsClosed (.opening s :: listMarks row)) :
    ∃ body s' rest, row = body ++ .hit (.list (.closing s')) :: rest ∧ Clean body ∧ Clean rest ∧
      ListsClosed (listMarks rest) ∧
      bulletList.rewrite (fun list => bulletLines list.content)
          (written (.hit (.list (.opening s)) :: row)) =
        bulletLines (written body) ++
          bulletList.rewrite (fun list => bulletLines list.content) (written rest) ∧
      unpaired false (.opening s :: listMarks row) =
        ((listMarks body).filter fun m => !m.isItem) ++ unpaired false (listMarks rest) := by
  obtain ⟨body, s', rest, rfl, hbody⟩ := exists_first_listCloser hclosed.1
  have hmarks : listMarks (body ++ .hit (.list (.closing s')) :: rest) =
      listMarks body ++ .closing s' :: listMarks rest := by simp
  rw [hmarks] at hclosed ⊢
  have hcbody : Clean body := hc.of_subset (List.subset_append_left ..)
  have hcrest : Clean (.hit (.list (.closing s')) :: rest) :=
    hc.of_subset (List.subset_append_right ..)
  exact ⟨body, s', rest, rfl, hcbody, hcrest.tail, hclosed.tail.of_append.tail,
    rewrite_bulletList_pair hcbody hbody s s' rest, unpaired_true_append hbody s' _⟩

theorem unpaired_false_cons {m : ListMark} (h : ∀ s, m ≠ .opening s) (ms : List ListMark) :
    unpaired false (m :: ms) = m :: unpaired false ms := by
  cases m with
  | opening s => exact absurd rfl (h s)
  | closing s => rfl
  | item => rfl

/-- The pass over lists keeps the tags of elements, and the marks of lists in no pair. -/
theorem carries_bulletList {row : Row} (hc : Clean row) (hclosed : ListsClosed (listMarks row)) :
    Carries (edges row) (unpaired false (listMarks row))
      (bulletList.rewrite (fun list => bulletLines list.content) (written row)) := by
  have hword (x : Text) (h : (word ('[' :: "LIST".toList ++ [']'])).Silent x) :
      bulletList.Silent x :=
    h.between _ _
  -- The pass goes on behind a whole list, so the induction is on the length of the row.
  induction hn : row.length using Nat.strong_induction_on generalizing row with
  | _ n ih =>
    subst hn
    cases row with
    | nil =>
      rw [written_nil, rewrite_nil]
      exact .nil
    | cons piece row =>
      have hlength : row.length < (piece :: row).length := Nat.lt_succ_self _
      cases piece with
      | plain c =>
        have hplain := hc c (List.mem_cons_self ..)
        have hsilent : bulletList.Silent [c] :=
          hword _ ((begins_word _).silent fun hm => hplain.1 (List.mem_singleton.mp hm).symm)
        have hstep : Carries [] [] [c] := .of_plain (by simpa using hplain)
        have hrest := hstep.append (ih _ hlength hc.tail hclosed rfl)
        rwa [← rewrite_append_of_silent hsilent] at hrest
      | hit m =>
        cases m with
        | edge e =>
          rw [written_edge,
            rewrite_append_of_silent (hword _ (silent_listWord_edge (by decide) [] e))]
          exact (Carries.of_edge e).append (ih _ hlength hc.tail hclosed rfl)
        | list m =>
          by_cases hopens : ∃ s, m = .opening s
          · obtain ⟨s, rfl⟩ := hopens
            obtain ⟨body, s', rest, rfl, hcbody, hcrest, hclosed, hrewrite, hunpaired⟩ :=
              exists_listPair s hc.tail hclosed
            have hrest : rest.length < (body ++ .hit (.list (.closing s')) :: rest).length + 1 := by
              rw [List.length_append, List.length_cons]
              omega
            rw [hrewrite, listMarks_list, hunpaired, edges_list, edges_append, edges_list]
            exact (carries_bulletLines hcbody).append (ih _ hrest hcrest hclosed rfl)
          · have hother : ∀ s, m ≠ .opening s := fun s hs => hopens ⟨s, hs⟩
            have hsilent : bulletList.Silent m.text :=
              hword _ (silent_listWord_listMark (by decide) [] fun s hs => absurd hs (hother s))
            rw [written_list, rewrite_append_of_silent hsilent, listMarks_list,
              unpaired_false_cons hother]
            exact (Carries.of_listMark m).append (ih _ hlength hc.tail hclosed.tail rfl)

/-- Lists and paragraphs of a row become lines with the same tags of elements. -/
theorem carries_flattenBlocks {row : Row} (hc : Clean row) (hclosed : ListsClosed (listMarks row)) :
    Carries (edges row) (unpaired false (listMarks row)) (flattenBlocks (written row)) := by
  have hbullets := carries_bulletList hc hclosed
  rw [flattenBlocks, rewrite_of_silent (silent_numberedList hc),
    rewrite_of_silent hbullets.silent_paragraph]
  exact hbullets

end Bracket

end TaskBulletin
