import TaskBulletin.Proofs.Outline
import Mathlib.Data.Finset.Insert
import Mathlib.Data.Finset.Erase

/-!
# What the rules make of a row

A rule pairs an opening tag with the next closing tag of its kind, whatever stands
between. So from left to right it is enough to know which kinds are open: an opening tag
is taken unless its kind is open already, a closing tag if its kind is open, and the other
tags stay as they are. Each rule moves a row on by its own kind.
-/

namespace TaskBulletin

namespace Bracket

open Pattern

namespace Edge

def closes (r : Rule) : Edge → Bool
  | opening _ _ => false
  | closing tag _ => tag.rule = r

def next (inside : Finset Rule) : Edge → Finset Rule
  | opening tag _ => insert tag.rule inside
  | closing tag _ => inside.erase tag.rule

/-- A tag that is paired, with these kinds open before it. -/
def Taken (inside : Finset Rule) : Edge → Prop
  | opening tag _ => tag.rule ∉ inside
  | closing tag _ => tag.rule ∈ inside

instance (inside : Finset Rule) : (e : Edge) → Decidable (e.Taken inside)
  | opening tag _ => inferInstanceAs (Decidable (tag.rule ∉ inside))
  | closing tag _ => inferInstanceAs (Decidable (tag.rule ∈ inside))

def html : Edge → Text
  | opening tag _ => tag.before
  | closing tag _ => tag.after

def settled (done : List Rule) (inside : Finset Rule) (e : Edge) : Text :=
  if e.tag.rule ∈ done ∧ e.Taken inside then e.html else e.text

theorem bracket_notMem_html (e : Edge) : '[' ∉ e.html := by
  cases e with
  | opening tag s => exact tag.bracket_notMem_before
  | closing tag s => exact tag.bracket_notMem_after

section

variable {r : Rule} {done : List Rule} {inside : Finset Rule} {e : Edge}

theorem settled_of_notMem (h : e.tag.rule ∉ done) : e.settled done inside = e.text :=
  if_neg fun hd => h hd.1

theorem settled_of_not_taken (h : ¬ e.Taken inside) : e.settled done inside = e.text :=
  if_neg fun hd => h hd.2

theorem settled_of_taken (hd : e.tag.rule ∈ done) (h : e.Taken inside) :
    e.settled done inside = e.html :=
  if_pos ⟨hd, h⟩

theorem settled_cons (h : e.tag.rule ≠ r) :
    e.settled (r :: done) inside = e.settled done inside := by
  simp [settled, h]

/-- While its kind is open, a rule does nothing before the next closing tag of its kind. -/
theorem settled_cons_of_inside (hi : r ∈ inside) (he : e.closes r = false) :
    e.settled (r :: done) inside = e.settled done inside ∧ r ∈ e.next inside := by
  cases e with
  | opening tag s =>
    refine ⟨?_, Finset.mem_insert_of_mem hi⟩
    by_cases hr : tag.rule = r
    · have hnot : ¬ (opening tag s).Taken inside := fun h => h (hr ▸ hi)
      rw [settled_of_not_taken hnot, settled_of_not_taken hnot]
    · exact settled_cons hr
  | closing tag s =>
    have hr : tag.rule ≠ r := of_decide_eq_false he
    exact ⟨settled_cons hr, Finset.mem_erase.mpr ⟨Ne.symm hr, hi⟩⟩

/-- While its kind is not open, a rule does nothing before the next opening tag of its kind. -/
theorem settled_cons_of_outside (hi : r ∉ inside)
    (he : ∀ tag s, e = .opening tag s → tag.rule ≠ r) :
    e.settled (r :: done) inside = e.settled done inside ∧ r ∉ e.next inside := by
  cases e with
  | opening tag s =>
    have hne := he tag s rfl
    exact ⟨settled_cons hne, by simp [next, hne.symm, hi]⟩
  | closing tag s =>
    refine ⟨?_, by simp [next, hi]⟩
    by_cases hr : tag.rule = r
    · have hnot : ¬ (closing tag s).Taken inside := fun h => hi (hr ▸ h)
      rw [settled_of_not_taken hnot, settled_of_not_taken hnot]
    · exact settled_cons hr

theorem silent_settled {α : Type} {p : Pattern α} (hp : p.Begins '[') (h : p.Silent e.text) :
    p.Silent (e.settled done inside) := by
  unfold settled
  split
  · exact hp.silent e.bracket_notMem_html
  · exact h

end

end Edge

def insideAfter (inside : Finset Rule) (es : List Edge) : Finset Rule := es.foldl Edge.next inside

/-- A row after some of the rules, with some kinds open before it. -/
def settle (done : List Rule) : (inside : Finset Rule) → Row → Text
  | _, [] => []
  | inside, .plain c :: row => c :: settle done inside row
  | inside, .hit (.edge e) :: row => e.settled done inside ++ settle done (e.next inside) row
  | inside, .hit (.list m) :: row => m.text ++ settle done inside row

def Mark.closes (r : Rule) : Mark → Bool
  | edge e => e.closes r
  | list _ => false

/-- After every opening tag there is a closing tag of its kind. -/
def Closed : List Edge → Prop
  | [] => True
  | .opening tag _ :: es => (∃ e ∈ es, e.closes tag.rule = true) ∧ Closed es
  | .closing _ _ :: es => Closed es

@[simp] theorem insideAfter_nil (inside : Finset Rule) : insideAfter inside [] = inside := rfl

@[simp] theorem insideAfter_cons (inside : Finset Rule) (e : Edge) (es : List Edge) :
    insideAfter inside (e :: es) = insideAfter (e.next inside) es := rfl

@[simp] theorem insideAfter_append (inside : Finset Rule) (es fs : List Edge) :
    insideAfter inside (es ++ fs) = insideAfter (insideAfter inside es) fs := List.foldl_append

theorem Closed.tail {e : Edge} {es : List Edge} (h : Closed (e :: es)) : Closed es := by
  cases e with
  | opening tag s => exact h.2
  | closing tag s => exact h

theorem Closed.of_append {es fs : List Edge} (h : Closed (es ++ fs)) : Closed fs := by
  induction es with
  | nil => exact h
  | cons e es ih => exact ih h.tail

section

variable {done : List Rule} {row : Row}

theorem settle_nil (inside : Finset Rule) (row : Row) : settle [] inside row = written row := by
  induction row generalizing inside with
  | nil => rfl
  | cons piece row ih =>
    cases piece with
    | plain c => rw [settle, ih, written_plain]
    | hit m =>
      cases m with
      | edge e => rw [settle, ih, Edge.settled_of_notMem List.not_mem_nil, written_edge]
      | list m => rw [settle, ih, written_list]

theorem settle_append (done : List Rule) (inside : Finset Rule) (row more : Row) :
    settle done inside (row ++ more) =
      settle done inside row ++ settle done (insideAfter inside (edges row)) more := by
  induction row generalizing inside with
  | nil => rfl
  | cons piece row ih =>
    cases piece with
    | plain c => rw [List.cons_append, settle, ih, settle, edges_plain, List.cons_append]
    | hit m =>
      cases m with
      | edge e =>
        rw [List.cons_append, settle, ih, settle, edges_edge, insideAfter_cons, List.append_assoc]
      | list m => rw [List.cons_append, settle, ih, settle, edges_list, List.append_assoc]

/-- A pattern that reads in no mark of a row reads nowhere in it after some of the rules. -/
theorem silent_settle {α : Type} {p : Pattern α} (hp : p.Begins '[') (inside : Finset Rule)
    (hc : Clean row) (he : ∀ e ∈ edges row, p.Silent e.text)
    (hm : ∀ m ∈ listMarks row, p.Silent m.text) : p.Silent (settle done inside row) := by
  induction row generalizing inside with
  | nil => trivial
  | cons piece row ih =>
    have ih := fun inside => ih inside hc.tail
    cases piece with
    | plain c =>
      exact ⟨fun rest => hp c _ (hc c (List.mem_cons_self ..)).1, ih inside he hm⟩
    | hit m =>
      cases m with
      | edge e =>
        exact (Edge.silent_settled hp (he e (List.mem_cons_self ..))).append
          (ih _ (fun f hf => he f (List.mem_cons_of_mem _ hf)) hm)
      | list m =>
        exact (hm m (List.mem_cons_self ..)).append
          (ih _ he fun f hf => hm f (List.mem_cons_of_mem _ hf))

theorem silent_written {α : Type} {p : Pattern α} (hp : p.Begins '[') (hc : Clean row)
    (he : ∀ e ∈ edges row, p.Silent e.text) (hm : ∀ m ∈ listMarks row, p.Silent m.text) :
    p.Silent (written row) := by
  rw [← settle_nil ∅]
  exact silent_settle hp ∅ hc he hm

/-- A rule whose kind is open changes nothing before the next closing tag of its kind. -/
theorem settle_cons_of_inside {r : Rule} {inside : Finset Rule} (hi : r ∈ inside)
    (hnone : ∀ e ∈ edges row, e.closes r = false) :
    settle (r :: done) inside row = settle done inside row ∧
      r ∈ insideAfter inside (edges row) := by
  induction row generalizing inside with
  | nil => exact ⟨rfl, hi⟩
  | cons piece row ih =>
    cases piece with
    | plain c =>
      obtain ⟨heq, hmem⟩ := ih hi hnone
      exact ⟨by rw [settle, heq, settle], hmem⟩
    | hit m =>
      cases m with
      | list m =>
        obtain ⟨heq, hmem⟩ := ih hi hnone
        exact ⟨by rw [settle, heq, settle], hmem⟩
      | edge e =>
        obtain ⟨hsame, hopen⟩ := Edge.settled_cons_of_inside hi (hnone e (List.mem_cons_self ..))
        obtain ⟨heq, hmem⟩ := ih hopen fun f hf => hnone f (List.mem_cons_of_mem _ hf)
        exact ⟨by rw [settle, heq, hsame, settle], hmem⟩

/-- A row with a closing tag of a kind falls into what is before the first and what is after it. -/
theorem exists_first_closing {r : Rule} (h : ∃ e ∈ edges row, e.closes r = true) :
    ∃ body tag s rest, row = body ++ .hit (.edge (.closing tag s)) :: rest ∧ tag.rule = r ∧
      ∀ e ∈ edges body, e.closes r = false := by
  obtain ⟨e, he, hcloses⟩ := h
  obtain ⟨body, m, rest, hrow, hm, hbody⟩ :=
    exists_first_mark (p := Mark.closes r) ⟨.edge e, mem_edges.mp he, hcloses⟩
  cases m with
  | list m => cases hm
  | edge f =>
    cases f with
    | opening tag s => cases hm
    | closing tag s =>
      exact ⟨body, tag, s, rest, hrow, of_decide_eq_true hm,
        fun g hg => hbody (.edge g) (mem_edges.mp hg)⟩

end

/-! ## One rule -/

theorem Tag.rule_ne_bare (tag : Tag) : tag.rule ≠ .bare := by
  cases tag <;> simp [Tag.rule]

theorem Tag.rule_eq_of_name_eq {tag tag' : Tag} (h : tag.name = tag'.name) :
    tag.rule = tag'.rule := by
  have hnodup : ((Rule.order.filter (· ≠ .bare)).map Rule.name).Nodup := by decide
  have hmem (tag : Tag) : tag.rule ∈ Rule.order.filter (· ≠ .bare) :=
    List.mem_filter.mpr ⟨tag.rule.mem_order, by simpa using tag.rule_ne_bare⟩
  refine List.inj_on_of_nodup_map hnodup (hmem tag) (hmem tag') ?_
  rw [tag.name_rule, tag'.name_rule, h]

theorem Tag.name_eq_of_rule_eq {tag tag' : Tag} (h : tag.rule = tag'.rule) :
    tag.name = tag'.name := by
  rw [← tag.name_rule, h, tag'.name_rule]

theorem Tag.after_eq_of_rule_eq {tag tag' : Tag} (h : tag.rule = tag'.rule) :
    tag.after = tag'.after := by
  cases tag <;> cases tag' <;> cases h <;> rfl

namespace Rule

theorem name_ne_list (r : Rule) : r.name ≠ "LIST".toList := by
  cases r with
  | style s => cases s <;> decide
  | _ => decide

theorem ignores_openWord_list (r : Rule) : Ignores (word r.openWord) "LIST".toList :=
  ignores_word_of_ne r.name_capitals r.name_ne_nil r.mark_mem (by decide) r.name_ne_list []

theorem ignores_closeWord_list (r : Rule) : Ignores (word r.closeWord) "LIST".toList :=
  ignores_closeWord (by decide) r.name_ne_list

theorem silent_openWord_listMark (r : Rule) (m : ListMark) : (word r.openWord).Silent m.text :=
  r.ignores_openWord_list.silent_listMark (silent_name_item r.name_capitals r.name_ne_nil _) m

theorem silent_closeWord_listMark (r : Rule) (m : ListMark) : (word r.closeWord).Silent m.text :=
  r.ignores_closeWord_list.silent_listMark (silent_item (by decide)) m

/-- The opening word is read in no tag of another kind and in no closing tag. -/
theorem silent_openWord_edge {r : Rule} {e : Edge}
    (h : ∀ tag s, e = .opening tag s → tag.rule ≠ r) : (word r.openWord).Silent e.text := by
  cases e with
  | opening tag s => exact silent_openWord_tag (h tag s rfl).symm s
  | closing tag s =>
    exact r.silent_openWord_closer (Text.toUpper_mem_capitals tag.name_capitals s.upper)

/-- The closing word is read in no opening tag and in no closing tag of another kind. -/
theorem silent_closeWord_edge {tag : Tag} {e : Edge} (h : e.closes tag.rule = false) :
    (word tag.rule.closeWord).Silent e.text := by
  cases e with
  | opening tag' s =>
    obtain ⟨tail, htail, hb⟩ := tag'.exists_mark
    rw [Edge.text, openingTag, htail]
    exact silent_closer_opener _ tag'.name_capitals s.upper tag'.rule.mark_eq hb
  | closing tag' s =>
    have hne : tag'.rule ≠ tag.rule := of_decide_eq_false h
    refine (ignores_closeWord tag'.name_capitals fun hn => hne ?_).closer s.upper
    exact Tag.rule_eq_of_name_eq (hn.symm.trans tag.name_rule)

end Rule

/-- A rule takes an opening tag and the next closing tag of its kind for an element, and
goes on after it. -/
theorem exists_paired {tag : Tag} (s : Spelled tag.name) {done : List Rule} (hr : tag.rule ∉ done)
    {row : Row} (hc : Clean row) (hclosing : ∃ e ∈ edges row, e.closes tag.rule = true)
    {inside : Finset Rule} (hi : tag.rule ∉ inside) :
    ∃ front rest inside' element, row = front ++ rest ∧ tag.rule ∉ inside' ∧
      tag.rule.apply (settle done inside (.hit (.edge (.opening tag s)) :: row)) =
        element ++ tag.rule.apply (settle done inside' rest) ∧
      settle (tag.rule :: done) inside (.hit (.edge (.opening tag s)) :: row) =
        element ++ settle (tag.rule :: done) inside' rest := by
  obtain ⟨body, tag', s', rest, rfl, hrule, hbody⟩ := exists_first_closing hclosing
  have hopened : tag.rule ∈ insert tag.rule inside := Finset.mem_insert_self ..
  obtain ⟨hsame, hopen⟩ : settle (tag.rule :: done) (insert tag.rule inside) body =
      settle done (insert tag.rule inside) body ∧
        tag.rule ∈ insideAfter (insert tag.rule inside) (edges body) :=
    settle_cons_of_inside hopened hbody
  have hcloser : s'.text.map Char.toUpper = tag.name :=
    s'.upper.trans (Tag.name_eq_of_rule_eq hrule)
  have hclean : Clean body := hc.of_subset (List.subset_append_left ..)
  have hsilent : (word tag.rule.closeWord).Silent (settle done (insert tag.rule inside) body) :=
    silent_settle (begins_word _) _ hclean (fun e he => Rule.silent_closeWord_edge (hbody e he))
      fun m _ => tag.rule.silent_closeWord_listMark m
  refine ⟨body ++ [.hit (.edge (.closing tag' s'))], rest,
    (insideAfter (insert tag.rule inside) (edges body)).erase tag.rule,
    tag.html (settle done (insert tag.rule inside) body), by simp, Finset.notMem_erase _ _, ?_, ?_⟩
  -- Inside the pair the rule's kind is open, so the body is the same before and after.
  · have happly := Rule.apply_element tag s ⟨s'.text, hcloser⟩ hsilent
      (settle done ((insideAfter (insert tag.rule inside) (edges body)).erase tag.rule) rest)
    rw [← happly, settle, settle_append, settle, Edge.settled_of_notMem hr,
      Edge.settled_of_notMem (e := .closing tag' s') (by rwa [Edge.tag, hrule])]
    simp [Edge.text, Edge.next, hrule]
  · have hfirst : (Edge.opening tag s).settled (tag.rule :: done) inside = tag.before :=
      if_pos ⟨List.mem_cons_self .., hi⟩
    have hlast : (Edge.closing tag' s').settled (tag.rule :: done)
        (insideAfter (insert tag.rule inside) (edges body)) = tag.after := by
      rw [Tag.after_eq_of_rule_eq hrule.symm]
      exact if_pos ⟨hrule ▸ List.mem_cons_self .., hrule ▸ hopen⟩
    rw [settle, settle_append, settle, hfirst, Edge.next, hlast, Tag.html_eq, ← hsame,
      Edge.next, hrule]
    simp

theorem apply_settle {r : Rule} {done : List Rule} (hr : r ∉ done) {row : Row} (hc : Clean row)
    (hclosed : Closed (edges row)) {inside : Finset Rule} (hi : r ∉ inside) :
    r.apply (settle done inside row) = settle (r :: done) inside row := by
  -- The rule goes on behind the closing tag, so the induction is on the length of the row.
  induction hn : row.length using Nat.strong_induction_on generalizing row inside with
  | _ n ih =>
    subst hn
    cases row with
    | nil => exact r.apply_nil
    | cons piece row =>
      have hlength : row.length < (piece :: row).length := Nat.lt_succ_self _
      cases piece with
      | plain c =>
        have hsilent : (word r.openWord).Silent [c] :=
          (begins_word _).silent fun hm =>
            (hc c (List.mem_cons_self ..)).1 (List.mem_singleton.mp hm).symm
        rw [settle, settle, ← List.singleton_append, Rule.apply_append hsilent,
          ih _ hlength hc.tail hclosed hi rfl]
        rfl
      | hit m =>
        cases m with
        | list m =>
          rw [settle, settle, Rule.apply_append (r.silent_openWord_listMark m),
            ih _ hlength hc.tail hclosed hi rfl]
        | edge e =>
          by_cases hopens : ∃ tag s, e = .opening tag s ∧ tag.rule = r
          · obtain ⟨tag, s, rfl, rfl⟩ := hopens
            obtain ⟨front, rest, inside', element, rfl, hi', happly, hsettle⟩ :=
              exists_paired s hr hc.tail hclosed.1 hi
            have hrest : rest.length < (front ++ rest).length + 1 := by
              rw [List.length_append]
              omega
            have hclosed' : Closed (edges front ++ edges rest) := by
              rw [← edges_append]
              exact hclosed.2
            rw [happly, hsettle, ih _ hrest (hc.tail.of_subset (List.subset_append_right ..))
              hclosed'.of_append hi' rfl]
          · have hother : ∀ tag s, e = .opening tag s → tag.rule ≠ r :=
              fun tag s he hr => hopens ⟨tag, s, he, hr⟩
            obtain ⟨hsame, houtside⟩ : e.settled (r :: done) inside = e.settled done inside ∧
                r ∉ e.next inside := Edge.settled_cons_of_outside hi hother
            have hsilent : (word r.openWord).Silent (e.settled done inside) :=
              Edge.silent_settled (begins_word _) (Rule.silent_openWord_edge hother)
            rw [settle, settle, Rule.apply_append hsilent, hsame,
              ih _ hlength hc.tail hclosed.tail houtside rfl]

/-! ## All rules -/

theorem foldl_apply_settle {row : Row} (hc : Clean row) (hclosed : Closed (edges row))
    {rules done : List Rule} (hrules : rules.Nodup) (hdone : ∀ r ∈ rules, r ∉ done) :
    rules.foldl (fun t r => r.apply t) (settle done ∅ row) =
      settle (rules.reverse ++ done) ∅ row := by
  induction rules generalizing done with
  | nil => rfl
  | cons r rules ih =>
    obtain ⟨hr, hrules⟩ := List.nodup_cons.mp hrules
    rw [List.foldl_cons,
      apply_settle (hdone r (List.mem_cons_self ..)) hc hclosed (Finset.notMem_empty r),
      ih hrules, List.reverse_cons, List.append_assoc, List.singleton_append]
    intro q hq hm
    rcases List.mem_cons.mp hm with rfl | hm
    · exact hr hq
    · exact hdone q (List.mem_cons_of_mem _ hq) hm

/-- The passes for inline elements take the tags that find their partners. -/
theorem unwrapUnsupported_renderInline_written {row : Row} (hc : Clean row)
    (hclosed : Closed (edges row)) :
    unwrapUnsupported (renderInline (written row)) = settle Rule.order.reverse ∅ row := by
  have hrules (t : Text) : unwrapUnsupported (renderInline t) =
      Rule.order.foldl (fun t r => r.apply t) t := rfl
  rw [hrules, ← settle_nil ∅, foldl_apply_settle hc hclosed (by decide) fun _ _ => List.not_mem_nil,
    List.append_nil]

end Bracket

end TaskBulletin
