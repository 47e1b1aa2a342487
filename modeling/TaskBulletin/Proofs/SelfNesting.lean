import TaskBulletin.Proofs.Bullets
import TaskBulletin.Proofs.Crossing

/-!
# Tags inside themselves

If no tag of an outline occurs inside itself, every tag is in a pair, the elements of the
result stand where those of the outline stand, and no tag is left over. If one does, the
first closing tag inside closes the outer element, whose own closing tag is left over. It
has no blanks, so it outlasts the spacing too.
-/

namespace TaskBulletin

namespace Bracket

/-! ## Tags that are taken -/

/-- Of some tags, with some kinds open before them, all of one sort are in pairs. -/
def TakenAmong (sort : Edge → Prop) : (inside : Finset Rule) → List Edge → Prop
  | _, [] => True
  | inside, e :: es => (sort e → e.Taken inside) ∧ TakenAmong sort (e.next inside) es

theorem takenAmong_append {sort : Edge → Prop} {inside : Finset Rule} {es fs : List Edge} :
    TakenAmong sort inside (es ++ fs) ↔
      TakenAmong sort inside es ∧ TakenAmong sort (insideAfter inside es) fs := by
  induction es generalizing inside with
  | nil => simp [TakenAmong]
  | cons e es ih => rw [List.cons_append, TakenAmong, ih, TakenAmong, insideAfter_cons, and_assoc]

theorem TakenAmong.of_imp {sort sort' : Edge → Prop} {inside : Finset Rule} {es : List Edge}
    (h : TakenAmong sort inside es) (himp : ∀ e, sort' e → sort e) :
    TakenAmong sort' inside es := by
  induction es generalizing inside with
  | nil => trivial
  | cons e es ih => exact ⟨fun he => h.1 (himp e he), ih h.2⟩

def ListMark.next (inside : Bool) : ListMark → Bool
  | opening _ => true
  | closing _ => false
  | item => inside

def listAfter (inside : Bool) (ms : List ListMark) : Bool := ms.foldl ListMark.next inside

theorem listAfter_cons (inside : Bool) (m : ListMark) (ms : List ListMark) :
    listAfter inside (m :: ms) = listAfter (m.next inside) ms := rfl

theorem listAfter_append (inside : Bool) (ms ns : List ListMark) :
    listAfter inside (ms ++ ns) = listAfter (listAfter inside ms) ns := List.foldl_append

theorem unpaired_append (inside : Bool) (ms ns : List ListMark) :
    unpaired inside (ms ++ ns) = unpaired inside ms ++ unpaired (listAfter inside ms) ns := by
  induction ms generalizing inside with
  | nil => cases inside <;> rfl
  | cons m ms ih => cases inside <;> cases m <;> simp [unpaired, listAfter_cons, ListMark.next, ih]

/-- No closing tag of a list is in no pair. -/
def ListsPaired (inside : Bool) (ms : List ListMark) : Prop := ∀ s, .closing s ∉ unpaired inside ms

namespace ListsPaired

variable {inside : Bool} {ms ns : List ListMark} {s : Spelled "LIST".toList}

theorem of_append (h : ListsPaired inside (ms ++ ns)) :
    ListsPaired inside ms ∧ ListsPaired (listAfter inside ms) ns := by
  refine ⟨fun s hs => h s ?_, fun s hs => h s ?_⟩
  · rw [unpaired_append]
    exact List.mem_append_left _ hs
  · rw [unpaired_append]
    exact List.mem_append_right _ hs

theorem of_opening (h : ListsPaired inside (.opening s :: ms)) : ListsPaired true ms := by
  intro s' hs
  refine h s' ?_
  cases inside with
  | false => exact hs
  | true => exact List.mem_cons_of_mem _ hs

theorem of_closing (h : ListsPaired inside (.closing s :: ms)) :
    inside = true ∧ ListsPaired false ms := by
  cases inside with
  | false => exact absurd (List.mem_cons_self ..) (h s)
  | true => exact ⟨rfl, h⟩

theorem of_item (h : ListsPaired inside (.item :: ms)) : ListsPaired inside ms := by
  intro s hs
  refine h s ?_
  cases inside with
  | false => exact List.mem_cons_of_mem _ hs
  | true => exact hs

end ListsPaired

def Edge.IsClosing : Edge → Prop
  | opening _ _ => False
  | closing _ _ => True

/-! ## Edges and marks of an outline -/

namespace Outline

section

variable {inList : Bool} (tag : Tag) (opener closer : Spelled tag.name)
  (listOpener listCloser : Spelled "LIST".toList) (body rest : Outline inList)
  (items : Outline true)

theorem edges_row_element : edges (element tag opener closer body rest).row =
    .opening tag opener :: (edges body.row ++ .closing tag closer :: edges rest.row) := by
  simp [row]

theorem edges_row_list : edges (list listOpener listCloser items rest).row =
    edges items.row ++ edges rest.row := by
  simp [row]

theorem listMarks_row_element : listMarks (element tag opener closer body rest).row =
    listMarks body.row ++ listMarks rest.row := by
  simp [row]

theorem listMarks_row_list : listMarks (list listOpener listCloser items rest).row =
    .opening listOpener :: (listMarks items.row ++ .closing listCloser :: listMarks rest.row) := by
  simp [row]

end

variable {inList : Bool} {d : Outline inList}

theorem closed_edges {es : List Edge} (h : Closed es) : Closed (edges d.row ++ es) := by
  induction d generalizing es with
  | nil => exact h
  | text run rest ih => simpa [row] using ih h
  | element tag opener closer body rest ihb ihr =>
    rw [edges_row_element, List.cons_append, List.append_assoc, List.cons_append]
    exact ⟨⟨.closing tag closer, by simp, by simp [Edge.closes]⟩, ihb (ihr h)⟩
  | list opener closer body rest ihb ihr =>
    rw [edges_row_list, List.append_assoc]
    exact ihb (ihr h)
  | item rest ih => exact ih h

theorem listsClosed_listMarks {ms : List ListMark} (h : ListsClosed ms) :
    ListsClosed (listMarks d.row ++ ms) := by
  induction d generalizing ms with
  | nil => exact h
  | text run rest ih => simpa [row] using ih h
  | element tag opener closer body rest ihb ihr =>
    rw [listMarks_row_element, List.append_assoc]
    exact ihb (ihr h)
  | list opener closer body rest ihb ihr =>
    rw [listMarks_row_list, List.cons_append, List.append_assoc, List.cons_append]
    exact ⟨⟨closer, by simp⟩, ihb (ihr h)⟩
  | item rest ih => exact ih h

/-- After an outline those kinds are open that were open before and do not occur in it. -/
theorem mem_insideAfter {inside : Finset Rule} {tag : Tag} :
    tag.rule ∈ insideAfter inside (edges d.row) ↔ tag.rule ∈ inside ∧ tag.name ∉ d.names := by
  induction d generalizing inside with
  | nil => simp [row, names]
  | text run rest ih => simpa [row, names] using ih
  | element tag' opener closer body rest ihb ihr =>
    have hsame : tag.rule = tag'.rule ↔ tag.name = tag'.name :=
      ⟨Tag.name_eq_of_rule_eq, Tag.rule_eq_of_name_eq⟩
    -- The closing tag takes the element's own kind away, whatever its body has done.
    simp only [edges_row_element, names, List.cons_append, insideAfter_cons,
      insideAfter_append, ihr,
      Edge.next, Finset.mem_erase, ihb, Finset.mem_insert, List.mem_cons, List.mem_append, not_or,
      ne_eq, hsame]
    tauto
  | list opener closer body rest ihb ihr =>
    have hlist := tag.name_ne_list
    simp only [edges_row_list, names, List.cons_append, insideAfter_append, ihr, ihb, List.mem_cons,
      List.mem_append, not_or, hlist, not_false_eq_true, true_and, and_assoc]
  | item rest ih => exact ih

/-- After an outline a list is open if one was open before and none occurs in it. -/
theorem listAfter_eq_true_iff {inside : Bool} :
    listAfter inside (listMarks d.row) = true ↔ inside = true ∧ "LIST".toList ∉ d.names := by
  induction d generalizing inside with
  | nil => simp [row, names, listAfter]
  | text run rest ih => simpa [row, names] using ih
  | element tag opener closer body rest ihb ihr =>
    have hlist := tag.name_ne_list.symm
    simp only [listMarks_row_element, names, List.cons_append, listAfter_append, ihr, ihb,
      List.mem_cons, List.mem_append, not_or, hlist, not_false_eq_true, true_and, and_assoc]
  | list opener closer body rest ihb ihr =>
    simp [listMarks_row_list, names, listAfter_append, listAfter_cons, ihr, ListMark.next]
  | item rest ih => exact ih

/-! ## Outlines without self-nesting -/

/-- If no tag of some names occurs inside itself, every tag of these names is taken. -/
theorem takenAmong_of_apart {among : List Text} (h : d.Apart among) {inside : Finset Rule}
    (hi : ∀ tag : Tag, tag.name ∈ among → tag.rule ∈ inside → tag.name ∉ d.names) :
    TakenAmong (fun e => e.tag.name ∈ among) inside (edges d.row) := by
  induction d generalizing inside with
  | nil => trivial
  | text run rest ih => simpa [row] using ih h hi
  | element tag opener closer body rest ihb ihr =>
    obtain ⟨hname, hbody, hrest⟩ := h
    have hnames {tag' : Tag} (hn : tag'.name ∈ among) (hr : tag'.rule ∈ inside) :
        tag'.name ≠ tag.name ∧ tag'.name ∉ body.names ∧ tag'.name ∉ rest.names := by
      have hnot := hi tag' hn hr
      simp only [names, List.cons_append, List.mem_cons, List.mem_append, not_or] at hnot
      exact hnot
    rw [edges_row_element]
    refine ⟨fun hn hr => (hnames hn hr).1 rfl,
      takenAmong_append.mpr ⟨ihb hbody ?_, fun hn => ?_, ?_⟩⟩
    · intro tag' hn hr
      rcases Finset.mem_insert.mp hr with hr | hr
      · rw [Tag.name_eq_of_rule_eq hr] at hn ⊢
        exact hname hn
      · exact (hnames hn hr).2.1
    · exact mem_insideAfter.mpr ⟨Finset.mem_insert_self .., hname hn⟩
    · refine ihr hrest fun tag' hn hr => ?_
      obtain ⟨hne, hr⟩ := Finset.mem_erase.mp hr
      obtain ⟨hr, -⟩ := mem_insideAfter.mp hr
      exact (hnames hn ((Finset.mem_insert.mp hr).resolve_left hne)).2.2
  | list opener closer body rest ihb ihr =>
    obtain ⟨-, hbody, hrest⟩ := h
    have hnames {tag' : Tag} (hn : tag'.name ∈ among) (hr : tag'.rule ∈ inside) :
        tag'.name ∉ body.names ∧ tag'.name ∉ rest.names := by
      have hnot := hi tag' hn hr
      simp only [names, List.cons_append, List.mem_cons, List.mem_append, not_or] at hnot
      exact hnot.2
    rw [edges_row_list]
    refine takenAmong_append.mpr ⟨ihb hbody fun tag' hn hr => (hnames hn hr).1, ?_⟩
    exact ihr hrest fun tag' hn hr => (hnames hn (mem_insideAfter.mp hr).1).2
  | item rest ih => exact ih h hi

/-- If no list occurs inside a list, every tag of a list and every item mark is in a pair. -/
theorem unpaired_of_apart {among : List Text} (hlist : "LIST".toList ∈ among) (h : d.Apart among)
    (hi : inList = true → "LIST".toList ∉ d.names) (ms : List ListMark) :
    unpaired inList (listMarks d.row ++ ms) = unpaired inList ms := by
  induction d generalizing ms with
  | nil => rfl
  | text run rest ih => simpa [row] using ih h hi ms
  | @element inList tag opener closer body rest ihb ihr =>
    obtain ⟨-, hbody, hrest⟩ := h
    have hnames : inList = true → "LIST".toList ∉ body.names ∧ "LIST".toList ∉ rest.names := by
      intro hl
      have hnot := hi hl
      simp only [names, List.cons_append, List.mem_cons, List.mem_append, not_or] at hnot
      exact hnot.2
    rw [listMarks_row_element, List.append_assoc, ihb hbody (fun hl => (hnames hl).1),
      ihr hrest fun hl => (hnames hl).2]
  | @list inList opener closer body rest ihb ihr =>
    obtain ⟨hname, hbody, hrest⟩ := h
    cases inList with
    | true => exact absurd (List.mem_append_left _ (List.mem_cons_self ..)) (hi rfl)
    | false =>
      rw [listMarks_row_list, List.cons_append, List.append_assoc, List.cons_append, unpaired,
        ihb hbody (fun _ => hname hlist), unpaired, ihr hrest fun hl => absurd hl (by decide)]
  | item rest ih => exact ih h hi ms

/-! ## Outlines with self-nesting -/

/-- If every closing tag is taken and none of a list is left, no tag occurs inside itself. -/
theorem apart_of_closings {inside : Finset Rule} {insideList : Bool}
    (he : TakenAmong Edge.IsClosing inside (edges d.row))
    (hm : ListsPaired insideList (listMarks d.row)) (among : List Text) : d.Apart among := by
  induction d generalizing inside insideList with
  | nil => trivial
  | text run rest ih =>
    rw [row, edges_append, edges_map_plain, List.nil_append] at he
    rw [row, listMarks_append, listMarks_map_plain, List.nil_append] at hm
    exact ih he hm
  | element tag opener closer body rest ihb ihr =>
    rw [edges_row_element] at he
    rw [listMarks_row_element] at hm
    obtain ⟨-, he⟩ := he
    obtain ⟨hbody, hclosing, hrest⟩ := takenAmong_append.mp he
    obtain ⟨hbodyMarks, hrestMarks⟩ := hm.of_append
    -- The closing tag is taken, so the kind is still open behind the body.
    exact ⟨fun _ => (mem_insideAfter.mp (hclosing trivial)).2, ihb hbody hbodyMarks,
      ihr hrest hrestMarks⟩
  | list opener closer body rest ihb ihr =>
    rw [edges_row_list] at he
    rw [listMarks_row_list] at hm
    obtain ⟨hbody, hrest⟩ := takenAmong_append.mp he
    obtain ⟨hbodyMarks, hclosing⟩ := hm.of_opening.of_append
    obtain ⟨hopen, hrestMarks⟩ := hclosing.of_closing
    exact ⟨fun _ => (listAfter_eq_true_iff.mp hopen).2, ihb hbody hbodyMarks, ihr hrest hrestMarks⟩
  | item rest ih => exact ih he hm.of_item

end Outline

/-! ## What is left over -/

section

variable {done : List Rule} {row : Row} {inside : Finset Rule}

theorem bracket_notMem_settle (hall : ∀ r, r ∈ done) (hc : Clean row)
    (he : TakenAmong (fun _ => True) inside (edges row)) (hm : listMarks row = []) :
    '[' ∉ settle done inside row := by
  induction row generalizing inside with
  | nil => exact List.not_mem_nil
  | cons piece row ih =>
    have ih {inside} := @ih inside hc.tail
    cases piece with
    | plain c =>
      rw [settle, List.mem_cons, not_or]
      exact ⟨(hc c (List.mem_cons_self ..)).1.symm, ih he hm⟩
    | hit m =>
      cases m with
      | edge e =>
        obtain ⟨htaken, he⟩ := he
        rw [settle, Edge.settled_of_taken (hall _) (htaken trivial), List.mem_append, not_or]
        exact ⟨e.bracket_notMem_html, ih he hm⟩
      | list m => cases hm

theorem closer_infix_settle (h : ¬ TakenAmong Edge.IsClosing inside (edges row)) :
    ∃ tag, ∃ s : Spelled (Tag.name tag), closingTag s.text <:+: settle done inside row := by
  induction row generalizing inside with
  | nil => exact absurd trivial h
  | cons piece row ih =>
    cases piece with
    | plain c =>
      obtain ⟨tag, s, hi⟩ := ih h
      exact ⟨tag, s, List.infix_cons hi⟩
    | hit m =>
      cases m with
      | list m =>
        obtain ⟨tag, s, hi⟩ := ih h
        exact ⟨tag, s, hi.trans (List.suffix_append ..).isInfix⟩
      | edge e =>
        by_cases hrest : TakenAmong Edge.IsClosing (e.next inside) (edges row)
        · have hleft : ¬ (e.IsClosing → e.Taken inside) := fun he => h ⟨he, hrest⟩
          rw [Classical.not_imp] at hleft
          obtain ⟨hclosing, hnot⟩ := hleft
          cases e with
          | opening tag s => exact hclosing.elim
          | closing tag s =>
            refine ⟨tag, s, ?_⟩
            rw [settle, Edge.settled_of_not_taken hnot]
            exact (List.prefix_append ..).isInfix
        · obtain ⟨tag, s, hi⟩ := ih hrest
          exact ⟨tag, s, hi.trans (List.suffix_append ..).isInfix⟩

theorem listCloser_infix_settle {s : Spelled "LIST".toList} (h : .closing s ∈ listMarks row) :
    closingTag s.text <:+: settle done inside row := by
  induction row generalizing inside with
  | nil => cases h
  | cons piece row ih =>
    cases piece with
    | plain c => exact List.infix_cons (ih h)
    | hit m =>
      cases m with
      | edge e => exact (ih h).trans (List.suffix_append ..).isInfix
      | list m =>
        rcases List.mem_cons.mp h with rfl | h
        · exact (List.prefix_append ..).isInfix
        · exact (ih h).trans (List.suffix_append ..).isInfix

end

theorem not_isBlank_of_toUpper_mem {c : Char} (h : c.toUpper ∈ Text.capitals) :
    Text.isBlank c = false := by
  have hall : ∀ v ∈ Text.capitals, Text.isBlank v = false ∧ Text.isBlank v.toLower = false := by
    decide
  obtain ⟨hu, hl⟩ := hall _ h
  rcases Text.eq_toUpper_or_eq_toLower c with hc | hc
  · rwa [hc]
  · rwa [hc]

theorem holdsMarkup_of_closer {name s t : Text} (hname : name ∈ tagNames)
    (hs : s.map Char.toUpper = name) (hi : closingTag s <:+: t) :
    HoldsMarkup (Text.normalizeSpacing t) := by
  refine ⟨closingTag s, .closing hname hs, Text.infix_normalizeSpacing (fun c hc => ?_) hi⟩
  have hu := Text.toUpper_mem_capitals (isTagName_of_mem hname).capitals hs
  simp only [closingTag, List.cons_append, List.mem_cons, List.mem_append, List.not_mem_nil,
    or_false] at hc
  rcases hc with rfl | rfl | hc | rfl
  · decide
  · decide
  · exact not_isBlank_of_toUpper_mem (hu c hc)
  · decide

theorem not_holdsMarkup {t : Text} (h : '[' ∉ t) : ¬ HoldsMarkup t := by
  rintro ⟨x, hx, hi⟩
  refine h (hi.subset ?_)
  cases hx with
  | opening => exact List.mem_cons_self ..
  | closing => exact List.mem_cons_self ..
  | item => decide

namespace Outline

theorem balanced_rolesAlong {inList : Bool} {d : Outline inList} {inside : Finset Rule}
    (h : TakenAmong (fun e => e.tag.name ∈ renderedNames) inside (edges d.row)) :
    Html.Balanced (rolesAlong inside (edges d.row)) := by
  induction d generalizing inside with
  | nil => exact Html.balanced_nil
  | text run rest ih =>
    rw [row, edges_append, edges_map_plain, List.nil_append] at h ⊢
    exact ih h
  | element tag opener closer body rest ihb ihr =>
    rw [edges_row_element] at h ⊢
    obtain ⟨hopening, h⟩ := h
    obtain ⟨hbody, hclosing, hrest⟩ := takenAmong_append.mp h
    rw [rolesAlong, rolesAlong_append, rolesAlong]
    cases hname : tag.elementName? with
    | none =>
      rw [Edge.rolesAt_of_none (e := .opening tag opener) hname,
        Edge.rolesAt_of_none (e := .closing tag closer) hname]
      exact (ihb hbody).append (ihr hrest)
    | some name =>
      have hmem := tag.name_mem_renderedNames hname
      rw [Edge.rolesAt_of_taken (hopening hmem), Edge.rolesAt_of_taken (hclosing hmem)]
      simpa [Edge.roles, hname] using ((ihb hbody).element name).append (ihr hrest)
  | list opener closer body rest ihb ihr =>
    rw [edges_row_list] at h ⊢
    obtain ⟨hbody, hrest⟩ := takenAmong_append.mp h
    rw [rolesAlong_append]
    exact (ihb hbody).append (ihr hrest)
  | item rest ih => exact ih h

section

variable {d : Outline false} {row : Row}

theorem mem_order_reverse (r : Rule) : r ∈ Rule.order.reverse := List.mem_reverse.mpr r.mem_order

/-- The result is a settled row with the tags of the outline, but for its spacing. -/
theorem exists_settled (d : Outline false) : ∃ row, Clean row ∧ edges row = edges d.row ∧
    listMarks row = unpaired false (listMarks d.row) ∧
    finish (written d.row) = Text.normalizeSpacing (settle Rule.order.reverse ∅ row) := by
  have hlists : ListsClosed (listMarks d.row ++ []) := listsClosed_listMarks trivial
  rw [List.append_nil] at hlists
  obtain ⟨row, hclean, hedges, hmarks, hrow⟩ := carries_flattenBlocks d.clean_row hlists
  have hclosed : Closed (edges d.row ++ []) := closed_edges trivial
  rw [List.append_nil, ← hedges] at hclosed
  refine ⟨row, hclean, hedges, hmarks, ?_⟩
  rw [finish, ← hrow, unwrapUnsupported_renderInline_written hclean hclosed]

theorem wellNested_iff_not_crossing (hclean : Clean row) (hedges : edges row = edges d.row) :
    Html.WellNested (settle Rule.order.reverse ∅ row) ↔ ¬ Crossing (edges d.row) := by
  have hend (tag : Tag) : tag.rule ∉ insideAfter ∅ (edges row) := by
    rw [hedges, mem_insideAfter]
    exact fun h => absurd h.1 (Finset.notMem_empty _)
  rw [wellNested_settle_iff mem_order_reverse hclean hend, hedges]

theorem wellNested_of_apart (hclean : Clean row) (hedges : edges row = edges d.row)
    (hd : d.Apart renderedNames) : Html.WellNested (settle Rule.order.reverse ∅ row) := by
  refine Html.wellNested_of_balanced ?_
  rw [tagRoles_settle mem_order_reverse hclean, hedges]
  exact balanced_rolesAlong (takenAmong_of_apart hd fun _ _ h => absurd h (Finset.notMem_empty _))

theorem apart_of_not_holdsMarkup (hedges : edges row = edges d.row)
    (hmarks : listMarks row = unpaired false (listMarks d.row))
    (hnone : ¬ HoldsMarkup (Text.normalizeSpacing (settle Rule.order.reverse ∅ row))) :
    d.Apart tagNames := by
  have htaken : TakenAmong Edge.IsClosing ∅ (edges d.row) := by
    by_contra hnot
    rw [← hedges] at hnot
    obtain ⟨tag, spelled, hinfix⟩ : ∃ tag, ∃ spelled : Spelled (Tag.name tag),
        closingTag spelled.text <:+: settle Rule.order.reverse ∅ row := closer_infix_settle hnot
    exact hnone (holdsMarkup_of_closer tag.name_mem spelled.upper hinfix)
  have hpaired : ListsPaired false (listMarks d.row) := by
    intro spelled hmem
    rw [← hmarks] at hmem
    exact hnone
      (holdsMarkup_of_closer list_mem_tagNames spelled.upper (listCloser_infix_settle hmem))
  exact apart_of_closings htaken hpaired tagNames

theorem not_holdsMarkup_of_apart (hclean : Clean row) (hedges : edges row = edges d.row)
    (hmarks : listMarks row = unpaired false (listMarks d.row)) (hd : d.Apart tagNames) :
    ¬ HoldsMarkup (Text.normalizeSpacing (settle Rule.order.reverse ∅ row)) := by
  have hnamed : TakenAmong (fun e => e.tag.name ∈ tagNames) ∅ (edges d.row) :=
    takenAmong_of_apart hd fun _ _ h => absurd h (Finset.notMem_empty _)
  have htaken : TakenAmong (fun _ => True) ∅ (edges row) := by
    rw [hedges]
    exact hnamed.of_imp fun e _ => e.tag.name_mem
  have hnone : listMarks row = [] := by
    have hpaired := unpaired_of_apart list_mem_tagNames hd (fun h => absurd h (by decide)) []
    rw [List.append_nil] at hpaired
    rw [hmarks, hpaired]
    rfl
  have hbracket : '[' ∉ settle Rule.order.reverse ∅ row :=
    bracket_notMem_settle mem_order_reverse hclean htaken hnone
  refine not_holdsMarkup fun hmem => hbracket ?_
  exact (Text.mem_iff_of_only_eq (List.mem_singleton_self _)
    (Text.only_normalizeSpacing (by decide) _)).mp hmem

end

/-- An outline is converted. The result is well nested exactly if no pairs of tags cross, and
none cross if no tag that becomes HTML occurs inside itself. No bracket tag is left in the
result exactly if no tag at all occurs inside itself. -/
theorem convert_source_tags {σ : Type} (sv : Services σ) (s : σ) {d : Outline false}
    (hruns : ∀ run ∈ d.innerRuns, ∀ k, run ≠ "TAG".toList ++ Text.ofNat k) :
    ∃ html, convert sv d.source s = .ok (html, s) ∧
      (Html.WellNested html ↔ ¬ Crossing (edges d.row)) ∧
      (d.Apart renderedNames → Html.WellNested html) ∧
      (¬ HoldsMarkup html ↔ d.Apart tagNames) := by
  obtain ⟨row, hclean, hedges, hmarks, hhtml⟩ := d.exists_settled
  refine ⟨_, convert_source_eq sv s hruns, ?_, fun hd => ?_, fun hnone => ?_, fun hd => ?_⟩
  · rw [hhtml, Html.wellNested_normalizeSpacing, wellNested_iff_not_crossing hclean hedges]
  · rw [hhtml, Html.wellNested_normalizeSpacing]
    exact wellNested_of_apart hclean hedges hd
  · rw [hhtml] at hnone
    exact apart_of_not_holdsMarkup hedges hmarks hnone
  · rw [hhtml]
    exact not_holdsMarkup_of_apart hclean hedges hmarks hd

def quotedList : Outline false :=
  .element (.style .quote) (.inCapitals (Tag.name_capitals _)) (.inLowerCase (Tag.name_capitals _))
    (.list (.inLowerCase list_capitals) (.inCapitals list_capitals)
      (.item (.element (.link ⟨"x?y&\"z".toList, by decide⟩) (.inCapitals (Tag.name_capitals _))
        (.inCapitals (Tag.name_capitals _)) (.text ⟨"see < here".toList, by decide⟩ .nil)
        (.item (.element (.style .bold) (.inCapitals (Tag.name_capitals _))
          (.inLowerCase (Tag.name_capitals _))
          (.element (.color ⟨"red".toList, by decide⟩) (.inCapitals (Tag.name_capitals _))
            (.inCapitals (Tag.name_capitals _)) (.text ⟨"done".toList, by decide⟩ .nil) .nil)
              .nil))))
      .nil)
    (.text ⟨"end".toList, by decide⟩ .nil)

theorem convert_quotedList :
    (∀ run ∈ quotedList.innerRuns, ∀ k, run ≠ "TAG".toList ++ Text.ofNat k) ∧
      quotedList.Apart tagNames ∧ quotedList.Apart renderedNames ∧
      ∃ html, convert (.recording findNothing knowNobody) quotedList.source .empty =
        .ok (html, .empty) ∧ Html.WellNested html ∧ ¬ HoldsMarkup html := by
  have hruns := ne_token_of_head quotedList (by decide)
  have hall : quotedList.Apart tagNames := by decide
  have hrendered : quotedList.Apart renderedNames := by decide
  obtain ⟨html, hconvert, -, hnested, hleft⟩ :=
    convert_source_tags (.recording findNothing knowNobody) .empty hruns
  exact ⟨hruns, hall, hrendered, html, hconvert, hnested hrendered, hleft.mpr hall⟩

def boldInItalicInBold : Outline false :=
  .element (.style .bold) (.inCapitals (Tag.name_capitals _)) (.inCapitals (Tag.name_capitals _))
    (.text ⟨['a'], by decide⟩
      (.element (.style .italic) (.inCapitals (Tag.name_capitals _))
        (.inCapitals (Tag.name_capitals _)) (.text ⟨['b'], by decide⟩
          (.element (.style .bold) (.inCapitals (Tag.name_capitals _))
            (.inCapitals (Tag.name_capitals _)) (.text ⟨['c'], by decide⟩ .nil)
            (.text ⟨['d'], by decide⟩ .nil)))
        (.text ⟨['e'], by decide⟩ .nil)))
    .nil

/-- The outer bold text is closed by the inner closing tag, inside the italic text. -/
theorem convert_boldInItalicInBold :
    (∀ run ∈ boldInItalicInBold.innerRuns, ∀ k, run ≠ "TAG".toList ++ Text.ofNat k) ∧
      ∃ html, convert (.recording findNothing knowNobody) boldInItalicInBold.source .empty =
        .ok (html, .empty) ∧ ¬ Html.WellNested html ∧ HoldsMarkup html := by
  refine ⟨ne_token_of_head _ (by decide), "<b>a<i>b[B]c</b>d</i>e[/B]".toList, by decide +kernel,
    by decide +kernel, ?_⟩
  have hname : ['B'] ∈ tagNames := by decide
  exact ⟨_, .closing (s := ['B']) hname rfl, "<b>a<i>b[B]c</b>d</i>e".toList, [], rfl⟩

end Outline

end Bracket

end TaskBulletin
