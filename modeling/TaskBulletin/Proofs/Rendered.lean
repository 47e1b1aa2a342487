import TaskBulletin.Proofs.Pairing
import TaskBulletin.Proofs.Respaced

/-!
# HTML elements of a row

A tag in a pair opens or closes an HTML element, or becomes nothing, and a tag in no pair
is text. As neither the characters nor the other tags of a row hold angle brackets, the
HTML tags of the settled row are those of its pairs, in order.
-/

namespace TaskBulletin

namespace Bracket

theorem Style.isName_elementName (s : Style) : Html.IsName s.elementName := by
  cases s <;> exact ⟨by decide, by decide, by decide⟩

theorem Style.tagRole_elementName (s : Style) :
    Html.tagRole s.elementName = .opens s.elementName := by
  cases s <;> decide +kernel

theorem tagRole_anchor (v : Text) :
    Html.tagRole ("a href=\"".toList ++ v ++ ['"']) = .opens ['a'] := by
  have hlist : "a href=\"".toList ++ v ++ ['"'] = 'a' :: ' ' :: ("href=\"".toList ++ v ++ ['"']) :=
    rfl
  have hlast : ("a href=\"".toList ++ v ++ ['"']).getLast? = some '"' := List.getLast?_concat
  have hname : Html.nameOf ("a href=\"".toList ++ v ++ ['"']) = ['a'] := by
    rw [hlist]
    rfl
  have hhead : ("a href=\"".toList ++ v ++ ['"']).head? ≠ some '/' := by
    rw [hlist]
    exact fun h => absurd (Option.some.inj h) (by decide)
  rw [Html.tagRole_of_head hhead, hname, hlast]
  rfl

theorem tagRoles_anchor {v : Text} (hv : '>' ∉ v) (t : Text) :
    Html.tagRoles ("<a href=\"".toList ++ v ++ "\">".toList ++ t) =
      .opens ['a'] :: Html.tagRoles t := by
  have hend : '>' ∉ "a href=\"".toList ++ v ++ ['"'] := by
    have hstart : '>' ∉ "a href=\"".toList := by decide
    have hquote : '>' ∉ ['"'] := by decide
    rw [List.mem_append, List.mem_append, not_or, not_or]
    exact ⟨⟨hstart, hv⟩, hquote⟩
  have htext : "<a href=\"".toList ++ v ++ "\">".toList ++ t =
      '<' :: (("a href=\"".toList ++ v ++ ['"']) ++ '>' :: t) := by
    simp
  rw [htext, Html.tagRoles_tag (by simp) hend, tagRole_anchor]

def Tag.elementName? : Tag → Option Text
  | style s => some s.elementName
  | link _ => some ['a']
  | image => none
  | color _ => none
  | size _ => none

theorem Tag.name_mem_renderedNames {tag : Tag} {name : Text} (h : tag.elementName? = some name) :
    tag.name ∈ renderedNames := by
  cases tag with
  | style s => cases s <;> decide
  | link v => exact (by decide : "URL".toList ∈ renderedNames)
  | image => cases h
  | color v => cases h
  | size v => cases h

theorem Tag.rule_eq_of_elementName? {tag tag' : Tag} {n : Text} (h : tag.elementName? = some n)
    (h' : tag'.elementName? = some n) : tag.rule = tag'.rule := by
  have hstyle {s s' : Style} (he : s.elementName = s'.elementName) : s = s' := by
    revert he
    cases s <;> cases s' <;> decide
  have hanchor (s : Style) : s.elementName ≠ ['a'] := by cases s <;> decide
  cases tag with
  | style s =>
    cases tag' with
    | style s' => rw [hstyle (Option.some.inj (h.trans h'.symm))]
    | link v => exact absurd (Option.some.inj (h.trans h'.symm)) (hanchor s)
    | image => cases h'
    | color v => cases h'
    | size v => cases h'
  | link v =>
    cases tag' with
    | style s' => exact absurd (Option.some.inj (h'.trans h.symm)) (hanchor s')
    | link v' => rfl
    | image => cases h'
    | color v => cases h'
    | size v => cases h'
  | image => cases h
  | color v => cases h
  | size v => cases h

theorem Tag.elementName?_eq_of_rule_eq {tag tag' : Tag} (h : tag.rule = tag'.rule) :
    tag.elementName? = tag'.elementName? := by
  cases tag <;> cases tag' <;> cases h <;> rfl

theorem Tag.rule_ne_of_elementName? {tag tag' : Tag} {n : Text} (h : tag.elementName? = none)
    (h' : tag'.elementName? = some n) : tag'.rule ≠ tag.rule := by
  intro hr
  rw [Tag.elementName?_eq_of_rule_eq hr, h] at h'
  cases h'

theorem Tag.elementName?_eq_some_iff {tag tag' : Tag} {n : Text} (h : tag.elementName? = some n) :
    tag'.elementName? = some n ↔ tag'.rule = tag.rule :=
  ⟨fun h' => Tag.rule_eq_of_elementName? h' h, fun h' =>
    (Tag.elementName?_eq_of_rule_eq h').trans h⟩

namespace Edge

/-- What a tag that is taken does to the open elements of the result. -/
def roles : Edge → List Html.TagRole
  | opening tag _ => (tag.elementName?.map .opens).toList
  | closing tag _ => (tag.elementName?.map .closes).toList

theorem tagRoles_html (e : Edge) (t : Text) :
    Html.tagRoles (e.html ++ t) = e.roles ++ Html.tagRoles t := by
  cases e with
  | opening tag s =>
    cases tag with
    | style st =>
      have hname := st.isName_elementName
      have hbefore : (opening (.style st) s).html = '<' :: (st.elementName ++ ['>']) := rfl
      have hhtml : (opening (.style st) s).html ++ t = '<' :: (st.elementName ++ '>' :: t) := by
        simp [hbefore]
      rw [hhtml, Html.tagRoles_tag hname.ne_nil hname.angle_notMem, st.tagRole_elementName]
      rfl
    | link v =>
      have hvalue : '>' ∉ Html.escapeValue v.text :=
        fun h => (Html.ne_angle_of_mem_escapeValue h).2 rfl
      exact tagRoles_anchor hvalue t
    | image => rfl
    | color v => rfl
    | size v => rfl
  | closing tag s =>
    cases tag with
    | style st =>
      have hname := st.isName_elementName
      have hend : '>' ∉ '/' :: st.elementName := by
        rw [List.mem_cons, not_or]
        exact ⟨by decide, hname.angle_notMem⟩
      have hafter : (closing (.style st) s).html = '<' :: '/' :: (st.elementName ++ ['>']) := rfl
      have hhtml : (closing (.style st) s).html ++ t =
          '<' :: (('/' :: st.elementName) ++ '>' :: t) := by
        simp [hafter]
      rw [hhtml, Html.tagRoles_tag (by simp) hend, Html.tagRole_closingTag hname]
      rfl
    | link v =>
      have hhtml : (closing (.link v) s).html ++ t = '<' :: ("/a".toList ++ '>' :: t) := rfl
      rw [hhtml, Html.tagRoles_tag (by decide) (by decide)]
      rfl
    | image => rfl
    | color v => rfl
    | size v => rfl

end Edge

theorem angle_notMem_openingTag {name s v : Text} (hn : IsTagName name)
    (hs : s.map Char.toUpper = name) (hv : '<' ∉ v) : '<' ∉ openingTag s v := by
  have hu := Text.toUpper_mem_capitals hn.capitals hs
  have hs : '<' ∉ s := notMem_of_toUpper_mem hu (by decide)
  simp [openingTag, hs, hv]

theorem angle_notMem_closingTag {name s : Text} (hn : IsTagName name)
    (hs : s.map Char.toUpper = name) : '<' ∉ closingTag s := by
  have hu := Text.toUpper_mem_capitals hn.capitals hs
  have hs : '<' ∉ s := notMem_of_toUpper_mem hu (by decide)
  simp [closingTag, hs]

theorem Mark.angle_notMem_text (m : Mark) : '<' ∉ m.text := by
  have hlist : IsTagName "LIST".toList := isTagName_of_mem list_mem_tagNames
  cases m with
  | edge e =>
    cases e with
    | opening tag s =>
      exact angle_notMem_openingTag (isTagName_of_mem tag.name_mem) s.upper fun h =>
        (Html.ne_angle_of_mem_escape h).1 rfl
    | closing tag s => exact angle_notMem_closingTag (isTagName_of_mem tag.name_mem) s.upper
  | list m =>
    cases m with
    | opening s => exact angle_notMem_openingTag hlist s.upper List.not_mem_nil
    | closing s => exact angle_notMem_closingTag hlist s.upper
    | item => decide

/-- What a tag of a row does to the open elements of the result. -/
def Edge.rolesAt (inside : Finset Rule) (e : Edge) : List Html.TagRole :=
  if e.Taken inside then e.roles else []

theorem Edge.rolesAt_of_taken {inside : Finset Rule} {e : Edge} (h : e.Taken inside) :
    e.rolesAt inside = e.roles :=
  if_pos h

theorem Edge.rolesAt_of_none {inside : Finset Rule} {e : Edge} (h : e.tag.elementName? = none) :
    e.rolesAt inside = [] := by
  have hroles : e.roles = [] := by
    cases e with
    | opening tag s => rw [roles, show tag.elementName? = none from h]; rfl
    | closing tag s => rw [roles, show tag.elementName? = none from h]; rfl
  rw [rolesAt, hroles, ite_self]

def rolesAlong : (inside : Finset Rule) → List Edge → List Html.TagRole
  | _, [] => []
  | inside, e :: es => e.rolesAt inside ++ rolesAlong (e.next inside) es

theorem rolesAlong_append (inside : Finset Rule) (es fs : List Edge) :
    rolesAlong inside (es ++ fs) =
      rolesAlong inside es ++ rolesAlong (insideAfter inside es) fs := by
  induction es generalizing inside with
  | nil => rfl
  | cons e es ih =>
    rw [List.cons_append, rolesAlong, ih, rolesAlong, insideAfter_cons, List.append_assoc]

theorem tagRoles_settle {done : List Rule} (hall : ∀ r, r ∈ done) {row : Row} (hc : Clean row)
    (inside : Finset Rule) :
    Html.tagRoles (settle done inside row) = rolesAlong inside (edges row) := by
  induction row generalizing inside with
  | nil => exact Html.tagRoles_nil
  | cons piece row ih =>
    have ih := fun inside => ih hc.tail inside
    cases piece with
    | plain c =>
      rw [settle, Html.tagRoles_cons_of_ne (hc c (List.mem_cons_self ..)).2, ih, edges_plain]
    | hit m =>
      cases m with
      | list m =>
        have hangle : '<' ∉ m.text := (Mark.list m).angle_notMem_text
        rw [settle, Html.tagRoles_append_of_notMem hangle, ih, edges_list]
      | edge e =>
        rw [settle, edges_edge, rolesAlong, Edge.rolesAt]
        split
        · rename_i htaken
          rw [Edge.settled_of_taken (hall _) htaken, e.tagRoles_html, ih]
        · rename_i hnot
          have hangle : '<' ∉ e.text := (Mark.edge e).angle_notMem_text
          rw [Edge.settled_of_not_taken hnot, Html.tagRoles_append_of_notMem hangle,
            ih, List.nil_append]

end Bracket

end TaskBulletin
