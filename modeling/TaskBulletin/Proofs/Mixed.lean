import TaskBulletin.Proofs.Document
import TaskBulletin.Proofs.Stowing
import TaskBulletin.Proofs.TagName
import Mathlib.Data.List.Nodup

/-!
# Documents after some of the rules

Each rule of the conversion turns the elements of one kind into HTML and goes over
the rest. So after some of the rules a document is mixed: elements of the kinds that
are done are HTML, the others are still markup. One lemma says that a rule moves a
mixed document on by its own kind; the rules in their order then give the HTML.
-/

namespace TaskBulletin

namespace Bracket

open Pattern

/-! ## Tags -/

/-- The pattern reads nowhere in the tags of this name. -/
structure Ignores {α : Type} (p : Pattern α) (name : Text) : Prop where
  opener : ∀ {s y tail}, s.map Char.toUpper = name → (y = ']' ∨ y = '=') → '[' ∉ tail →
    p.Silent ('[' :: s ++ y :: tail)
  closer : ∀ {s}, s.map Char.toUpper = name → p.Silent ('[' :: '/' :: s ++ [']'])

inductive Rule where
  | style (s : Style)
  | targeted
  | bare
  | image
  | color
  | size
  deriving DecidableEq

namespace Rule

def name : Rule → Text
  | style s => s.tagName
  | targeted => "URL".toList
  | bare => "URL".toList
  | image => "IMG".toList
  | color => "COLOR".toList
  | size => "SIZE".toList

def mark : Rule → Char
  | style _ => ']'
  | targeted => '='
  | bare => ']'
  | image => ']'
  | color => '='
  | size => '='

def apply : Rule → Text → Text
  | style s => s.render
  | targeted => targetedLink.rewrite fun e =>
      Html.anchorRaw (Html.escapeDoubleQuotes e.opener.content) e.content
  | bare => plainLink.rewrite fun e =>
      Html.anchorRaw (Html.escapeDoubleQuotes e.content) e.content
  | image => (paired "IMG".toList).rewrite Span.content
  | color => (pairedWithValue "COLOR".toList).rewrite Span.content
  | size => (pairedWithValue "SIZE".toList).rewrite Span.content

def openWord (r : Rule) : Text := '[' :: r.name ++ [r.mark]

def closeWord (r : Rule) : Text := '[' :: '/' :: r.name ++ [']']

def order : List Rule :=
  [style .bold, style .italic, style .underline, style .strike, targeted, bare, style .code,
    style .quote, image, color, size]

end Rule

theorem Rule.name_capitals (r : Rule) : ∀ c ∈ r.name, c ∈ Text.capitals := by
  cases r with
  | style s => cases s <;> decide
  | _ => decide

theorem Rule.mark_eq (r : Rule) : r.mark = ']' ∨ r.mark = '=' := by
  cases r with
  | style s => exact .inl rfl
  | bare => exact .inl rfl
  | image => exact .inl rfl
  | _ => exact .inr rfl

theorem Rule.mark_mem (r : Rule) : r.mark ∈ Text.marks := by
  rcases r.mark_eq with h | h <;>
    · rw [h]
      decide

theorem Rule.mem_order (r : Rule) : r ∈ Rule.order := by
  cases r with
  | style s => cases s <;> decide
  | _ => decide

theorem Rule.eq_of_name_mark {r q : Rule} (hn : r.name = q.name) (hm : r.mark = q.mark) :
    r = q := by
  have hnodup : (Rule.order.map fun r => (r.name, r.mark)).Nodup := by decide
  exact List.inj_on_of_nodup_map hnodup r.mem_order q.mem_order (Prod.ext hn hm)

def Tag.rule : Tag → Rule
  | style s => .style s
  | link _ => .targeted
  | image => .image
  | color _ => .color
  | size _ => .size

theorem Tag.name_rule (tag : Tag) : tag.rule.name = tag.name := by
  cases tag <;> rfl

theorem Tag.name_capitals (tag : Tag) : ∀ c ∈ tag.name, c ∈ Text.capitals := by
  rw [← tag.name_rule]
  exact tag.rule.name_capitals

def Tag.before : Tag → Text
  | style s => '<' :: s.elementName ++ ['>']
  | link v => "<a href=\"".toList ++ Html.escapeValue v.text ++ "\">".toList
  | image => []
  | color _ => []
  | size _ => []

def Tag.after : Tag → Text
  | style s => '<' :: '/' :: s.elementName ++ ['>']
  | link _ => "</a>".toList
  | image => []
  | color _ => []
  | size _ => []

theorem Tag.html_eq (tag : Tag) (body : Text) :
    tag.html body = tag.before ++ body ++ tag.after := by
  cases tag with
  | style s =>
    change Html.element s.elementName body =
      ('<' :: s.elementName ++ ['>']) ++ body ++ ('<' :: '/' :: s.elementName ++ ['>'])
    simp [Html.element]
  | link v => rfl
  | image => exact (List.append_nil body).symm
  | color v => exact (List.append_nil body).symm
  | size v => exact (List.append_nil body).symm

theorem bracket_notMem_escape {t : Text} (ht : '[' ∉ t) : '[' ∉ Html.escape t := by
  intro hm
  rcases Html.mem_escape hm with hm | hm
  · exact ht hm
  · revert hm
    decide

theorem Run.bracket_notMem (run : Run) : '[' ∉ run.text := fun hm => (run.plain _ hm).1 rfl

theorem bracket_notMem_escapeValue (run : Run) : '[' ∉ Html.escapeValue run.text := by
  intro hm
  rcases Html.mem_escapeDoubleQuotes hm with hm | hm
  · exact bracket_notMem_escape run.bracket_notMem hm
  · revert hm
    decide

theorem bracket_notMem_anchorRaw {target body : Text} (ht : '[' ∉ target) (hb : '[' ∉ body) :
    '[' ∉ Html.anchorRaw target body := by
  have h1 : '[' ∉ "<a href=\"".toList := by decide
  have h2 : '[' ∉ "\">".toList := by decide
  have h3 : '[' ∉ "</a>".toList := by decide
  unfold Html.anchorRaw
  simp only [List.mem_append, not_or]
  exact ⟨⟨⟨⟨h1, ht⟩, h2⟩, hb⟩, h3⟩

theorem Tag.bracket_notMem_before (tag : Tag) : '[' ∉ tag.before := by
  cases tag with
  | style s => cases s <;> decide
  | link v =>
    have h1 : '[' ∉ "<a href=\"".toList := by decide
    have h2 : '[' ∉ "\">".toList := by decide
    change '[' ∉ "<a href=\"".toList ++ Html.escapeValue v.text ++ "\">".toList
    simp only [List.mem_append, not_or]
    exact ⟨⟨h1, bracket_notMem_escapeValue v⟩, h2⟩
  | image => exact List.not_mem_nil
  | color v => exact List.not_mem_nil
  | size v => exact List.not_mem_nil

theorem Tag.bracket_notMem_after (tag : Tag) : '[' ∉ tag.after := by
  have h : '[' ∉ "</a>".toList := by decide
  cases tag with
  | style s => cases s <;> decide
  | link v => exact h
  | image => exact List.not_mem_nil
  | color v => exact List.not_mem_nil
  | size v => exact List.not_mem_nil

theorem bracket_notMem_anchor (run : Run) : '[' ∉ Html.anchor run.text run.text :=
  bracket_notMem_anchorRaw (bracket_notMem_escapeValue run)
    (bracket_notMem_escape run.bracket_notMem)

theorem Tag.bracket_notMem_valuePart (tag : Tag) : '[' ∉ Html.escape tag.valuePart := by
  have hv (v : Run) : '[' ∉ '=' :: v.text := by
    rw [List.mem_cons, not_or]
    exact ⟨by decide, v.bracket_notMem⟩
  refine bracket_notMem_escape ?_
  cases tag with
  | style s => exact List.not_mem_nil
  | link v => exact hv v
  | image => exact List.not_mem_nil
  | color v => exact hv v
  | size v => exact hv v

/-- The value part of an opening tag, with the bracket after it, begins with a mark. -/
theorem Tag.exists_mark (tag : Tag) :
    ∃ tail, Html.escape tag.valuePart ++ [']'] = tag.rule.mark :: tail ∧
      '[' ∉ tail := by
  have hv (v : Run) : '[' ∉ Html.escape v.text ++ [']'] := by
    intro hm
    rcases List.mem_append.mp hm with hm | hm
    · exact bracket_notMem_escape v.bracket_notMem hm
    · exact absurd (List.mem_singleton.mp hm) (by decide)
  cases tag with
  | style s => exact ⟨[], rfl, by simp⟩
  | link v => exact ⟨Html.escape v.text ++ [']'], rfl, hv v⟩
  | image => exact ⟨[], rfl, by simp⟩
  | color v => exact ⟨Html.escape v.text ++ [']'], rfl, hv v⟩
  | size v => exact ⟨Html.escape v.text ++ [']'], rfl, hv v⟩

/-! ## Mixed documents -/

namespace Document

/-- A document of which the elements of some kinds are HTML and the rest is escaped markup. -/
def mixed (done : List Rule) : Document → Text
  | nil => []
  | text run rest => Html.escape run.text ++ rest.mixed done
  | bareLink opener closer target rest =>
    (if .bare ∈ done then Html.anchor target.text target.text
      else openingTag opener.text [] ++ Html.escape target.text ++ closingTag closer.text) ++
        rest.mixed done
  | element tag opener closer body rest =>
    (if tag.rule ∈ done then tag.html (body.mixed done)
      else openingTag opener.text (Html.escape tag.valuePart) ++ body.mixed done ++
        closingTag closer.text) ++ rest.mixed done

section

variable {α : Type} {p : Pattern α}

/-- A pattern that ignores the tags of a document reads nowhere in it. -/
theorem silent_mixed (hp : p.Begins '[') (done : List Rule) (d : Document)
    (h : ∀ name ∈ d.names, Ignores p name) : p.Silent (d.mixed done) := by
  induction d with
  | nil => trivial
  | text run rest ih =>
    exact (hp.silent (bracket_notMem_escape run.bracket_notMem)).append (ih h)
  | bareLink opener closer target rest ih =>
    have hname := h _ (List.mem_cons_self ..)
    refine Silent.append ?_ (ih fun n hn => h n (List.mem_cons_of_mem _ hn))
    split
    · exact hp.silent (bracket_notMem_anchor target)
    · have hopen := hname.opener opener.upper (.inl rfl) List.not_mem_nil
      have htarget := hp.silent (bracket_notMem_escape target.bracket_notMem)
      exact (hopen.append htarget).append (hname.closer closer.upper)
  | element tag opener closer body rest ihb ihr =>
    have hname := h _ (List.mem_cons_self ..)
    have hbody := ihb fun n hn => h n (List.mem_cons_of_mem _ (List.mem_append_left _ hn))
    refine Silent.append ?_
      (ihr fun n hn => h n (List.mem_cons_of_mem _ (List.mem_append_right _ hn)))
    split
    · rw [tag.html_eq]
      exact ((hp.silent tag.bracket_notMem_before).append hbody).append
        (hp.silent tag.bracket_notMem_after)
    · obtain ⟨tail, htail, hb⟩ := tag.exists_mark
      have hopen := hname.opener opener.upper tag.rule.mark_eq hb
      rw [openingTag, htail]
      exact (hopen.append hbody).append (hname.closer closer.upper)

end

theorem exists_rule_of_mem_names {d : Document} {name : Text} (h : name ∈ d.names) :
    ∃ r : Rule, name = r.name := by
  induction d with
  | nil => cases h
  | text run rest ih => exact ih h
  | bareLink opener closer target rest ih =>
    rcases List.mem_cons.mp h with rfl | h
    · exact ⟨.bare, rfl⟩
    · exact ih h
  | element tag opener closer body rest ihb ihr =>
    rcases List.mem_append.mp h with h | h
    · rcases List.mem_cons.mp h with rfl | h
      · exact ⟨tag.rule, tag.name_rule.symm⟩
      · exact ihb h
    · exact ihr h

theorem mixed_cons_of_notMem {r : Rule} {d : Document} (h : r.name ∉ d.names) (done : List Rule) :
    d.mixed (r :: done) = d.mixed done := by
  induction d with
  | nil => rfl
  | text run rest ih => rw [mixed, ih h, mixed]
  | bareLink opener closer target rest ih =>
    rw [names, List.mem_cons, not_or] at h
    have hr : Rule.bare ≠ r := by
      rintro rfl
      exact h.1 rfl
    rw [mixed, ih h.2, mixed]
    simp [hr]
  | element tag opener closer body rest ihb ihr =>
    rw [names, List.mem_append, List.mem_cons, not_or, not_or] at h
    have hr : tag.rule ≠ r := by
      rintro rfl
      exact h.1.1 tag.name_rule
    rw [mixed, ihb h.1.2, ihr h.2, mixed]
    simp [hr]

end Document

/-! ## One rule -/

namespace Rule

variable {r : Rule}

theorem silent_openWord_of_bracket_notMem (r : Rule) {t : Text} (ht : '[' ∉ t) :
    (word r.openWord).Silent t := (begins_word _).silent ht

/-- A rule goes over a text in which its opening word is read nowhere. -/
theorem apply_append {t : Text} (ht : (word r.openWord).Silent t) (rest : Text) :
    r.apply (t ++ rest) = t ++ r.apply rest := by
  cases r with
  | style s => exact rewrite_append_of_silent (ht.between _ _) _ rest
  | targeted => exact rewrite_append_of_silent ((ht.between _ _).between _ _) _ rest
  | bare => exact rewrite_append_of_silent (ht.between _ _) _ rest
  | image => exact rewrite_append_of_silent (ht.between _ _) _ rest
  | color => exact rewrite_append_of_silent ((ht.between _ _).between _ _) _ rest
  | size => exact rewrite_append_of_silent ((ht.between _ _).between _ _) _ rest

theorem apply_nil (r : Rule) : r.apply [] = [] := by
  cases r <;> exact rewrite_nil ..

theorem silent_word_closer {n s : Text} {x : Char} (hn : ∀ c ∈ n, c ∈ Text.capitals) (hne : n ≠ [])
    (hx : x ∈ Text.marks) (more : Text) (hs : ∀ c ∈ s, c.toUpper ∈ Text.capitals) :
    (word ('[' :: n ++ x :: more)).Silent (closingTag s) := by
  have ht : '[' ∉ s ++ [']'] := by
    intro hm
    rcases List.mem_append.mp hm with hm | hm
    · exact absurd (hs _ hm) (by decide)
    · exact absurd (List.mem_singleton.mp hm) (by decide)
  exact silent_tag (s := []) hn (by simp) hx (by decide) (fun h => hne h.1) more ht

theorem name_ne_nil (r : Rule) : r.name ≠ [] := by
  cases r with
  | style st => cases st <;> decide
  | _ => decide

theorem silent_openWord_closer (r : Rule) {s : Text} (hs : ∀ c ∈ s, c.toUpper ∈ Text.capitals) :
    (word r.openWord).Silent (closingTag s) :=
  silent_word_closer r.name_capitals r.name_ne_nil r.mark_mem [] hs

theorem silent_closer_opener (n : Text) {name s tail : Text} {y : Char}
    (hn : ∀ c ∈ name, c ∈ Text.capitals) (hs : s.map Char.toUpper = name) (hy : y = ']' ∨ y = '=')
    (ht : '[' ∉ tail) : (word ('[' :: '/' :: n ++ [']'])).Silent ('[' :: s ++ y :: tail) := by
  have hmark : y ∈ Text.marks := by
    rcases hy with rfl | rfl <;> decide
  have hslash : '/' ≠ y := by
    rcases hy with rfl | rfl <;> decide
  change (word ('[' :: [] ++ '/' :: (n ++ [']']))).Silent _
  exact silent_tag (by simp) (Text.toUpper_mem_capitals hn hs) (by decide) hmark
    (fun h => hslash h.2) _ ht

theorem ignores_closer {n name : Text} (hn : ∀ c ∈ n, c ∈ Text.capitals)
    (hname : ∀ c ∈ name, c ∈ Text.capitals) (hne : n ≠ name) :
    Ignores (word ('[' :: '/' :: n ++ [']'])) name where
  opener hs hy ht := silent_closer_opener n hname hs hy ht
  closer hs := silent_closer hn (Text.toUpper_mem_capitals hname hs) fun h => hne (h.trans hs)

theorem ignores_closeWord {name : Text} (hn : ∀ c ∈ name, c ∈ Text.capitals) (hne : r.name ≠ name) :
    Ignores (word r.closeWord) name :=
  ignores_closer r.name_capitals hn hne

theorem read_paired {name o c body : Text} (hn : ∀ c ∈ name, c ∈ Text.capitals)
    (ho : o.map Char.toUpper = name) (hc : c.map Char.toUpper = name)
    (hbody : (word ('[' :: '/' :: name ++ [']'])).Silent body) (rest : Text) :
    (paired name).read (openingTag o [] ++ body ++ closingTag c ++ rest) =
      some (⟨openingTag o [], body, closingTag c⟩, rest) := by
  have hclose := read_closer hn hc rest
  have hopen := read_tag hn ho (x := ']') (by decide)
    (body ++ ('[' :: '/' :: c ++ ']' :: rest))
  refine read_between_eq_some_iff.mpr ⟨body ++ ('[' :: '/' :: c ++ ']' :: rest), ?_, ?_⟩
  · simpa [openingTag, closingTag] using hopen
  · rw [readTo_append_of_silent hbody (fun _ _ => rfl), readTo_of_read hclose]
    simp [closingTag]

theorem read_pairedWithValue {name o v c body : Text} (hn : ∀ c ∈ name, c ∈ Text.capitals)
    (ho : o.map Char.toUpper = name) (hv : ']' ∉ v) (hc : c.map Char.toUpper = name)
    (hbody : (word ('[' :: '/' :: name ++ [']'])).Silent body) (rest : Text) :
    (pairedWithValue name).read
        (openingTag o ('=' :: v) ++ body ++ closingTag c ++ rest) =
      some (⟨⟨'[' :: o ++ ['='], v, [']']⟩, body, closingTag c⟩, rest) := by
  have hclose := read_closer hn hc rest
  have hopen := read_tag hn ho (x := '=') (by decide)
    (v ++ ']' :: body ++ ('[' :: '/' :: c ++ ']' :: rest))
  have hend : (exact [']']).read (']' :: (body ++ ('[' :: '/' :: c ++ ']' :: rest))) =
      some ([']'], body ++ ('[' :: '/' :: c ++ ']' :: rest)) :=
    (read_exact_eq_some_iff (by simp)).mpr ⟨rfl, rfl⟩
  have hnot : ∀ d ∈ v, notBracket d = true := by
    intro d hd
    rw [notBracket, bne_iff_ne]
    rintro rfl
    exact hv hd
  have hsilent : (exact [']']).Silent v := (begins_exact ']' []).silent hv
  refine read_between_eq_some_iff.mpr ⟨body ++ ('[' :: '/' :: c ++ ']' :: rest), ?_, ?_⟩
  · refine read_between_eq_some_iff.mpr
      ⟨v ++ ']' :: (body ++ ('[' :: '/' :: c ++ ']' :: rest)), ?_, ?_⟩
    · simpa [openingTag, closingTag] using hopen
    · rw [readTo_append_of_silent hsilent hnot, readTo_of_read hend]
      simp
  · rw [readTo_append_of_silent hbody (fun _ _ => rfl), readTo_of_read hclose]
    simp [closingTag]

theorem bracketEnd_notMem_escape {t : Text} (ht : ']' ∉ t) : ']' ∉ Html.escape t := by
  intro hm
  rcases Html.mem_escape hm with hm | hm
  · exact ht hm
  · revert hm
    decide

theorem apply_element (tag : Tag) (opener closer : Spelled tag.name) {body : Text}
    (hbody : (word tag.rule.closeWord).Silent body) (rest : Text) :
    tag.rule.apply (openingTag opener.text (Html.escape tag.valuePart) ++ body ++
        closingTag closer.text ++ rest) =
      tag.html body ++ tag.rule.apply rest := by
  have hn := tag.rule.name_capitals
  have hv (v : Run) : ']' ∉ Html.escape v.text :=
    bracketEnd_notMem_escape fun hm => (v.plain _ hm).2.1 rfl
  cases tag with
  | style s => exact rewrite_of_read (read_paired hn opener.upper closer.upper hbody rest) _
  | link v =>
    exact rewrite_of_read
      (read_pairedWithValue hn opener.upper (hv v) closer.upper hbody rest) _
  | image => exact rewrite_of_read (read_paired hn opener.upper closer.upper hbody rest) _
  | color v =>
    exact rewrite_of_read
      (read_pairedWithValue hn opener.upper (hv v) closer.upper hbody rest) _
  | size v =>
    exact rewrite_of_read
      (read_pairedWithValue hn opener.upper (hv v) closer.upper hbody rest) _

theorem apply_bareLink (opener closer : Spelled "URL".toList) (target : Run) (rest : Text) :
    Rule.bare.apply (openingTag opener.text [] ++ Html.escape target.text ++
        closingTag closer.text ++ rest) =
      Html.anchor target.text target.text ++ Rule.bare.apply rest := by
  have hbody : (word Rule.bare.closeWord).Silent (Html.escape target.text) :=
    (begins_word _).silent (bracket_notMem_escape target.bracket_notMem)
  exact rewrite_of_read
    (read_paired Rule.bare.name_capitals opener.upper closer.upper hbody rest) _

theorem silent_openWord_opener {r q : Rule} (hne : r ≠ q) {s v tail : Text}
    (hs : s.map Char.toUpper = q.name) (hv : v ++ [']'] = q.mark :: tail) (ht : '[' ∉ tail) :
    (word r.openWord).Silent (openingTag s v) := by
  rw [openingTag, hv]
  refine silent_tag r.name_capitals (Text.toUpper_mem_capitals q.name_capitals hs) r.mark_mem
    q.mark_mem ?_ [] ht
  rintro ⟨hname, hmark⟩
  rw [hs] at hname
  exact hne (eq_of_name_mark hname hmark)

theorem silent_openWord_tag {r : Rule} {tag : Tag} (hne : r ≠ tag.rule)
    (opener : Spelled tag.name) :
    (word r.openWord).Silent (openingTag opener.text (Html.escape tag.valuePart)) := by
  obtain ⟨tail, htail, hb⟩ := tag.exists_mark
  exact silent_openWord_opener hne (opener.upper.trans tag.name_rule.symm) htail hb

theorem silent_openWord_bareLink {r : Rule} (hne : r ≠ bare) (opener closer : Spelled "URL".toList)
    (target : Run) : (word r.openWord).Silent (openingTag opener.text [] ++
      Html.escape target.text ++ closingTag closer.text) := by
  have hopen : (word r.openWord).Silent (openingTag opener.text []) :=
    silent_openWord_opener hne opener.upper rfl List.not_mem_nil
  have htarget := r.silent_openWord_of_bracket_notMem (bracket_notMem_escape target.bracket_notMem)
  have hclose :=
    r.silent_openWord_closer (Text.toUpper_mem_capitals bare.name_capitals closer.upper)
  exact (hopen.append htarget).append hclose

end Rule

namespace Document

theorem silent_closeWord_mixed {tag : Tag} {body : Document} (hname : tag.name ∉ body.names)
    (done : List Rule) : (word tag.rule.closeWord).Silent (body.mixed done) := by
  apply silent_mixed (begins_word _) done body
  intro name hn
  obtain ⟨q, rfl⟩ := exists_rule_of_mem_names hn
  refine Rule.ignores_closeWord q.name_capitals fun he => hname ?_
  rw [← tag.name_rule, he]
  exact hn

/-- A rule moves a mixed document on by its own kind. -/
theorem apply_mixed {r : Rule} {done : List Rule} (hr : r ∉ done) {d : Document}
    (hd : d.NoSelfNesting) (rest : Text) :
    r.apply (d.mixed done ++ rest) = d.mixed (r :: done) ++ r.apply rest := by
  induction d generalizing rest with
  | nil => rfl
  | text run next ih =>
    have hs := r.silent_openWord_of_bracket_notMem (bracket_notMem_escape run.bracket_notMem)
    rw [mixed, List.append_assoc, Rule.apply_append hs, ih hd, mixed, List.append_assoc]
  | bareLink opener closer target next ih =>
    have hanchor := r.silent_openWord_of_bracket_notMem (bracket_notMem_anchor target)
    rw [mixed, mixed, List.append_assoc _ (next.mixed done) rest]
    by_cases hb : Rule.bare ∈ done
    · rw [if_pos hb, if_pos (List.mem_cons_of_mem _ hb), Rule.apply_append hanchor, ih hd,
        List.append_assoc]
    · rw [if_neg hb]
      by_cases hrb : r = Rule.bare
      · subst hrb
        rw [Rule.apply_bareLink, ih hd, if_pos (List.mem_cons_self ..), List.append_assoc]
      · have hnot : Rule.bare ∉ r :: done := by
          rw [List.mem_cons, not_or]
          exact ⟨Ne.symm hrb, hb⟩
        rw [if_neg hnot, Rule.apply_append (Rule.silent_openWord_bareLink hrb opener closer target),
          ih hd, List.append_assoc _ (next.mixed (r :: done))]
  | element tag opener closer body next ihb ihr =>
    obtain ⟨hname, hbody, hnext⟩ := hd
    rw [mixed, mixed]
    by_cases ht : tag.rule ∈ done
    · have hbefore := r.silent_openWord_of_bracket_notMem tag.bracket_notMem_before
      have hafter := r.silent_openWord_of_bracket_notMem tag.bracket_notMem_after
      rw [if_pos ht, if_pos (List.mem_cons_of_mem _ ht), tag.html_eq, tag.html_eq]
      simp only [List.append_assoc]
      rw [Rule.apply_append hbefore, ihb hbody, Rule.apply_append hafter, ihr hnext]
    · rw [if_neg ht]
      by_cases hrt : r = tag.rule
      · subst hrt
        have hsilent := silent_closeWord_mixed hname done
        rw [tag.name_rule.symm] at hname
        rw [List.append_assoc, Rule.apply_element tag opener closer hsilent, ihr hnext,
          if_pos (List.mem_cons_self ..), mixed_cons_of_notMem hname, List.append_assoc]
      · have hopen := Rule.silent_openWord_tag hrt opener
        have hclose := r.silent_openWord_closer
          (Text.toUpper_mem_capitals tag.name_capitals closer.upper)
        have hnot : tag.rule ∉ r :: done := by
          rw [List.mem_cons, not_or]
          exact ⟨Ne.symm hrt, ht⟩
        rw [if_neg hnot]
        simp only [List.append_assoc]
        rw [Rule.apply_append hopen, ihb hbody, Rule.apply_append hclose, ihr hnext]

/-- The rules, one after the other, make HTML of the elements of their kinds. -/
theorem foldl_apply_mixed {d : Document} (hd : d.NoSelfNesting) {rules done : List Rule}
    (hrules : rules.Nodup) (hdone : ∀ r ∈ rules, r ∉ done) :
    rules.foldl (fun t r => r.apply t) (d.mixed done) = d.mixed (rules.reverse ++ done) := by
  induction rules generalizing done with
  | nil => rfl
  | cons r rules ih =>
    obtain ⟨hr, hrules⟩ := List.nodup_cons.mp hrules
    have hstep := apply_mixed (hdone r (List.mem_cons_self ..)) hd []
    rw [List.append_nil, r.apply_nil, List.append_nil] at hstep
    rw [List.foldl_cons, hstep, ih hrules, List.reverse_cons, List.append_assoc,
      List.singleton_append]
    intro q hq hm
    rcases List.mem_cons.mp hm with rfl | hm
    · exact hr hq
    · exact hdone q (List.mem_cons_of_mem _ hq) hm

theorem mixed_all {done : List Rule} (h : ∀ r, r ∈ done) (d : Document) :
    d.mixed done = d.html := by
  induction d with
  | nil => rfl
  | text run rest ih => rw [mixed, ih, html]
  | bareLink opener closer target rest ih => rw [mixed, if_pos (h _), ih, html]
  | element tag opener closer body rest ihb ihr =>
    rw [mixed, if_pos (h _), ihb, ihr, html]

theorem escape_spelled {name s : Text} (hn : ∀ c ∈ name, c ∈ Text.capitals)
    (hs : s.map Char.toUpper = name) : Html.escape s = s := by
  have hnot {c : Char} (hc : c.toUpper ∉ Text.capitals) : c ∉ s :=
    fun hm => hc (Text.toUpper_mem_capitals hn hs c hm)
  exact escape_eq_self (hnot (by decide)) (hnot (by decide)) (hnot (by decide))

theorem escape_openingTag {name s : Text} (hn : ∀ c ∈ name, c ∈ Text.capitals)
    (hs : s.map Char.toUpper = name) (v : Text) :
    Html.escape (openingTag s v) = openingTag s (Html.escape v) := by
  have hb : Html.escapeChar '[' = ['['] := by decide
  have he : Html.escape [']'] = [']'] := by decide
  rw [openingTag, Html.escape_append, Html.escape_append, Html.escape_cons, hb, he,
    escape_spelled hn hs, openingTag]
  rfl

theorem escape_closingTag {name s : Text} (hn : ∀ c ∈ name, c ∈ Text.capitals)
    (hs : s.map Char.toUpper = name) : Html.escape (closingTag s) = closingTag s := by
  have hb : Html.escapeChar '[' = ['['] := by decide
  have hc : Html.escapeChar '/' = ['/'] := by decide
  have he : Html.escape [']'] = [']'] := by decide
  rw [closingTag, Html.escape_append, Html.escape_cons, Html.escape_cons, hb, hc, he,
    escape_spelled hn hs]
  rfl

theorem mixed_nil (d : Document) : d.mixed [] = Html.escape d.source := by
  have hurl : ∀ c ∈ "URL".toList, c ∈ Text.capitals := Rule.bare.name_capitals
  induction d with
  | nil => rfl
  | text run rest ih =>
    rw [mixed, ih, source, source, pieces, writeWith_append, writeWith_map_plain,
      Html.escape_append]
  | bareLink opener closer target rest ih =>
    have hs : (bareLink opener closer target rest).source =
        openingTag opener.text [] ++ target.text ++ closingTag closer.text ++ rest.source := by
      simp [source, pieces, writeWith, writeWith_append, writeWith_map_plain]
    rw [mixed, if_neg List.not_mem_nil, ih, hs, Html.escape_append, Html.escape_append,
      Html.escape_append, escape_openingTag hurl opener.upper, escape_closingTag hurl closer.upper]
    rfl
  | element tag opener closer body rest ihb ihr =>
    have hs : (element tag opener closer body rest).source =
        openingTag opener.text tag.valuePart ++ body.source ++ closingTag closer.text ++
          rest.source := by
      simp [source, pieces, writeWith, writeWith_append]
    rw [mixed, if_neg List.not_mem_nil, ihb, ihr, hs, Html.escape_append, Html.escape_append,
      Html.escape_append, escape_openingTag tag.name_capitals opener.upper,
      escape_closingTag tag.name_capitals closer.upper]

end Document

end Bracket

end TaskBulletin
