import TaskBulletin.Html.Escape
import TaskBulletin.Proofs.Kept
import TaskBulletin.Proofs.Parts

/-!
# Text, tags and link targets

Converted text is a concatenation of escaped text and of tags: tags without
attributes, and tags that open a link and hold its target. Of the latter a pass can
write into the target, or drop one end with a value; what is always left is text,
tags without attributes, and halves of tags that open links. Such a text has whole
tags exactly if a reader who follows the angle brackets and the double quotes comes
back to text.
-/

namespace TaskBulletin.Html

open Text

def entities : List Text :=
  ["&amp;".toList, "&lt;".toList, "&gt;".toList, "&quot;".toList]

def simpleTags : List Text :=
  ["<b>".toList, "<i>".toList, "<u>".toList, "<s>".toList, "<code>".toList,
    "<blockquote>".toList, "</b>".toList, "</i>".toList, "</u>".toList, "</s>".toList,
    "</code>".toList, "</blockquote>".toList, "</a>".toList]

/-- What stands before and after the target in a tag that opens a link. -/
def linkStart : Text := "<a href=\"".toList

def linkEnd : Text := "\">".toList

/-- A character that needs no escaping, or a longer part. -/
inductive Part (Longer : Text → Prop) : Text → Prop
  | char {c : Char} (h : c ≠ '<' ∧ c ≠ '>' ∧ c ≠ '&') : Part Longer [c]
  | longer {w : Text} (h : Longer w) : Part Longer w

/-- Escaped text: characters that need no escaping, and entities. -/
def Escaped (t : Text) : Prop := MadeOf (Part (· ∈ entities)) t

/-- The longer parts of a converted text: entities, and tags with whole targets. -/
inductive IsGenerated : Text → Prop
  | entity {w : Text} (h : w ∈ entities) : IsGenerated w
  | tag {w : Text} (h : w ∈ simpleTags) : IsGenerated w
  | link {v : Text} (h : ∀ c ∈ v, c ≠ '<' ∧ c ≠ '>' ∧ c ≠ '"') :
    IsGenerated (linkStart ++ v ++ linkEnd)

def Generated (t : Text) : Prop := MadeOf (Part IsGenerated) t

/-- Entities, tags without attributes, and the halves of a tag that opens a link, also
with their double quotes escaped. -/
def tornParts : List Text :=
  entities ++ simpleTags ++
    [linkStart, linkEnd, escapeDoubleQuotes linkStart, escapeDoubleQuotes linkEnd]

/-- Generated text whose link tags may be torn. -/
def Torn (t : Text) : Prop := MadeOf (Part (· ∈ tornParts)) t

/-- The longer parts of a text with tags still in brackets: entities, and anchors of
files, whose targets hold no token. -/
inductive IsAnchored : Text → Prop
  | entity {w : Text} (h : w ∈ entities) : IsAnchored w
  | anchorEnd : IsAnchored "</a>".toList
  | link {v : Text} (h : Escaped v) (hq : '"' ∉ v) (hn : '\x00' ∉ v) :
    IsAnchored (linkStart ++ v ++ linkEnd)

def Anchored (t : Text) : Prop := MadeOf (Part IsAnchored) t

/-! ## Seams -/

section

variable {Longer : Text → Prop} {c : Char}

theorem seam_part (hc : c ≠ '<' ∧ c ≠ '>' ∧ c ≠ '&') (h : ∀ w, Longer w → c ∉ w) :
    Seam (Part Longer) c where
  part := .char hc
  eq_of_mem w hw hm := by
    cases hw with
    | char _ => rw [List.mem_singleton.mp hm]
    | longer hw => exact absurd hm (h w hw)

theorem seam_torn (hc : c ≠ '<' ∧ c ≠ '>' ∧ c ≠ '&') (h : c ∉ tornParts.flatten) :
    Seam (Part (· ∈ tornParts)) c :=
  seam_part hc fun _ hw hm => h (List.mem_flatten_of_mem hw hm)

theorem seam_torn_open : Seam (Part (· ∈ tornParts)) '[' := seam_torn (by decide) (by decide)

theorem seam_torn_close : Seam (Part (· ∈ tornParts)) ']' := seam_torn (by decide) (by decide)

/-- The longer parts of a torn text begin and end with few characters. -/
theorem loose_torn (hc : c ∉ "&;<>\"".toList) : Loose (Part (· ∈ tornParts)) c := by
  have hends : ∀ w ∈ tornParts, ∀ d, w.head? = some d ∨ w.getLast? = some d →
      d ∈ "&;<>\"".toList := by
    have h : ∀ w ∈ tornParts, (∀ d ∈ w.head?.toList, d ∈ "&;<>\"".toList) ∧
        ∀ d ∈ w.getLast?.toList, d ∈ "&;<>\"".toList := by
      decide
    intro w hw d hd
    obtain ⟨hhead, hlast⟩ := h w hw
    exact hd.elim (fun hd => hhead d (Option.mem_toList.mpr hd))
      fun hd => hlast d (Option.mem_toList.mpr hd)
  intro w hw hd
  cases hw with
  | @char d _ =>
    rcases hd with hd | hd
    · rw [Option.some.inj hd]
    · rw [List.getLast?_singleton] at hd
      rw [Option.some.inj hd]
  | longer hw => exact absurd (hends w hw c hd) hc

theorem loose_torn_of_isBlank (hc : isBlank c = true) : Loose (Part (· ∈ tornParts)) c := by
  apply loose_torn
  intro hm
  have h : ∀ d ∈ "&;<>\"".toList, isBlank d = false := by decide
  rw [h c hm] at hc
  cases hc

end

/-! ## Following the markup -/

/-- Where a reader of markup stands: in text, in a tag, in the target of a link, after
that target's closing quote, or nowhere. -/
inductive Place where
  | text
  | tag
  | target
  | closed
  | lost
  deriving Repr, DecidableEq

namespace Place

def next : Place → Char → Place
  | text, '<' => tag
  | text, '>' => lost
  | tag, '<' => lost
  | tag, '>' => text
  | tag, '"' => target
  | tag, '&' => lost
  | target, '<' => lost
  | target, '>' => lost
  | target, '"' => closed
  | closed, '<' => lost
  | closed, '>' => text
  | closed, '"' => lost
  | closed, '&' => lost
  | s, _ => s

def run (s : Place) (t : Text) : Place := t.foldl next s

@[simp] theorem run_nil (s : Place) : s.run [] = s := rfl

@[simp] theorem run_cons (s : Place) (c : Char) (t : Text) : s.run (c :: t) =
    (s.next c).run t := rfl

@[simp] theorem run_append (s : Place) (t u : Text) : s.run (t ++ u) = (s.run t).run u :=
  List.foldl_append

/-- Angle brackets, double quotes, and the ampersand, which stands in no tag. -/
def markup : Text := "<>\"&".toList

theorem next_of_notMem {c : Char} (hc : c ∉ markup) (s : Place) : s.next c = s := by
  have hne : ∀ d ∈ markup, c ≠ d := by
    rintro d hd rfl
    exact hc hd
  have hl : c ≠ '<' := hne _ (by decide)
  have hg : c ≠ '>' := hne _ (by decide)
  have hq : c ≠ '"' := hne _ (by decide)
  have ha : c ≠ '&' := hne _ (by decide)
  unfold next
  split <;> first | rfl | contradiction

@[simp] theorem next_lost (c : Char) : lost.next c = lost := by
  unfold next
  split <;> first | rfl | contradiction

@[simp] theorem run_lost (t : Text) : lost.run t = lost := by
  induction t with
  | nil => rfl
  | cons c t ih => rw [run_cons, next_lost, ih]

theorem run_only (s : Place) (t : Text) : s.run (only markup t) = s.run t := by
  induction t generalizing s with
  | nil => rfl
  | cons c t ih =>
    by_cases hc : c ∈ markup
    · rw [run_cons, ← ih, only_cons, if_pos (List.contains_iff_mem.mpr hc), run_cons]
    · rw [run_cons, ← ih, only_cons_of_notMem hc, next_of_notMem hc]

theorem run_congr {t u : Text} (h : only markup t = only markup u) (s : Place) :
    s.run t = s.run u := by
  rw [← run_only, h, run_only]

theorem run_text {t : Text} (h : ∀ c ∈ t, c ≠ '<' ∧ c ≠ '>') : text.run t = text := by
  induction t with
  | nil => rfl
  | cons c t ih =>
    have hc := h c (List.mem_cons_self ..)
    have hn : text.next c = text := by
      unfold next
      split <;> simp_all
    rw [run_cons, hn]
    exact ih fun d hd => h d (List.mem_cons_of_mem _ hd)

theorem next_target {c : Char} (hl : c ≠ '<') (hg : c ≠ '>') (hq : c ≠ '"') :
    target.next c = target := by
  unfold next
  split <;> first | rfl | contradiction

/-- A target without double quotes is read through unless it holds an angle bracket. -/
theorem run_target {t : Text} (hq : '"' ∉ t) :
    target.run t = if '<' ∈ t ∨ '>' ∈ t then lost else target := by
  induction t with
  | nil => rfl
  | cons c t ih =>
    rw [List.mem_cons, not_or] at hq
    by_cases hl : c = '<'
    · subst hl
      rw [if_pos (.inl (List.mem_cons_self ..))]
      exact run_lost t
    · by_cases hg : c = '>'
      · subst hg
        rw [if_pos (.inr (List.mem_cons_self ..))]
        exact run_lost t
      · rw [run_cons, next_target hl hg (Ne.symm hq.1), ih hq.2]
        simp [Ne.symm hl, Ne.symm hg]

/-! ## Parts and places -/

theorem run_entity {w : Text} (hw : w ∈ entities) {s : Place} (ht : s ≠ tag) (hc : s ≠ closed) :
    s.run w = s := by
  have h : ∀ w ∈ entities, ∀ s ∈ [text, target, lost], run s w = s := by decide
  refine h w hw s ?_
  cases s <;> simp_all

theorem plain_of_mem_entity {w : Text} (hw : w ∈ entities) :
    ∀ c ∈ w, c ≠ '<' ∧ c ≠ '>' ∧ c ≠ '"' := by
  revert w
  decide

theorem run_simpleTag {w : Text} (hw : w ∈ simpleTags) : text.run w = text := by
  revert w
  decide

theorem run_simpleTag_of_ne {w : Text} (hw : w ∈ simpleTags) {s : Place} (hs : s ≠ text) :
    s.run w = lost := by
  have h : ∀ w ∈ simpleTags, ∀ s ∈ [tag, target, closed, lost], run s w = lost := by decide
  refine h w hw s ?_
  cases s <;> simp_all

theorem run_linkStart_of_ne {s : Place} (hs : s ≠ text) : s.run linkStart = lost := by
  cases s <;> first | exact absurd rfl hs | rfl

theorem run_part_text {Longer : Text → Prop} (hlonger : ∀ w, Longer w → text.run w = text)
    {w : Text} (h : Part Longer w) : text.run w = text := by
  cases h with
  | char hc =>
    apply run_text
    intro d hd
    obtain rfl := List.mem_singleton.mp hd
    exact ⟨hc.1, hc.2.1⟩
  | longer hw => exact hlonger _ hw

theorem run_madeOf {Longer : Text → Prop} (hlonger : ∀ w, Longer w → text.run w = text)
    {t : Text} (h : MadeOf (Part Longer) t) : text.run t = text := by
  induction h with
  | nil => rfl
  | append hw _ ih => rw [run_append, run_part_text hlonger hw, ih]

theorem run_link {v : Text} (h : ∀ c ∈ v, c ≠ '<' ∧ c ≠ '>' ∧ c ≠ '"') :
    text.run (linkStart ++ v ++ linkEnd) = text := by
  have hl : '<' ∉ v := fun hm => (h _ hm).1 rfl
  have hg : '>' ∉ v := fun hm => (h _ hm).2.1 rfl
  have hq : '"' ∉ v := fun hm => (h _ hm).2.2 rfl
  have hstart : text.run linkStart = target := rfl
  rw [run_append, run_append, hstart, run_target hq, if_neg (by simp [hl, hg])]
  rfl

theorem run_generated {t : Text} (h : Generated t) : text.run t = text := by
  refine run_madeOf (fun w hw => ?_) h
  cases hw with
  | entity hw => exact run_entity hw (by decide) (by decide)
  | tag hw => exact run_simpleTag hw
  | link hv => exact run_link hv

/-- A torn text that follows a closing quote never gets back to text. -/
theorem run_closed_torn {t : Text} (h : Torn t) : closed.run t ≠ text := by
  have hlonger : ∀ w ∈ tornParts, closed.run w = closed ∨ closed.run w = lost := by decide
  induction h with
  | nil => decide
  | @append w t hw ht ih =>
    rw [run_append]
    have hstep : closed.run w = closed ∨ closed.run w = lost := by
      cases hw with
      | @char c hc =>
        by_cases hq : c = '"'
        · subst hq
          exact .inr rfl
        · exact .inl (next_of_notMem (by simp [markup, hc, hq]) closed)
      | longer hw => exact hlonger w hw
    rcases hstep with hstep | hstep
    · rw [hstep]
      exact ih
    · rw [hstep, run_lost]
      decide

/-- A text that gets from a link's target back to text: a clean target, and then text in
which only generated tags are markup. -/
def EndsTarget (t : Text) : Prop :=
  ∃ v rest, t = v ++ linkEnd ++ rest ∧ (∀ c ∈ v, c ≠ '<' ∧ c ≠ '>' ∧ c ≠ '"') ∧ Generated rest

theorem EndsTarget.append {w t : Text} (hw : ∀ c ∈ w, c ≠ '<' ∧ c ≠ '>' ∧ c ≠ '"')
    (h : EndsTarget t) :
    EndsTarget (w ++ t) := by
  obtain ⟨v, rest, rfl, hv, hrest⟩ := h
  refine ⟨w ++ v, rest, by simp, fun c hc => ?_, hrest⟩
  rcases List.mem_append.mp hc with hc | hc
  · exact hw c hc
  · exact hv c hc

theorem EndsTarget.generated {t : Text} (h : EndsTarget t) : Generated (linkStart ++ t) := by
  obtain ⟨v, rest, rfl, hv, hrest⟩ := h
  have hlink : Generated (linkStart ++ v ++ linkEnd ++ rest) := .append (.longer (.link hv)) hrest
  simpa using hlink

/-- A torn text that gets back to text has whole tags, and a clean target in front if it
began in one. -/
theorem generated_and_endsTarget {t : Text} (h : Torn t) :
    (text.run t = text → Generated t) ∧ (target.run t = text → EndsTarget t) := by
  induction h with
  | nil => exact ⟨fun _ => .nil, fun h => by cases h⟩
  | @append w t hw ht ih =>
    obtain ⟨iht, ihv⟩ := ih
    simp only [run_append]
    cases hw with
    | @char c hc =>
      have htext : text.run [c] = text := run_generated (.of_part (.char hc))
      rw [htext]
      refine ⟨fun hr => .append (.char hc) (iht hr), fun hr => ?_⟩
      by_cases hq : c = '"'
      · subst hq
        exact absurd hr (run_closed_torn ht)
      · rw [run_cons, run_nil, next_target hc.1 hc.2.1 hq] at hr
        apply EndsTarget.append _ (ihv hr)
        intro d hd
        obtain rfl := List.mem_singleton.mp hd
        exact ⟨hc.1, hc.2.1, hq⟩
    | longer hw =>
      simp only [tornParts, List.mem_append, List.mem_cons, List.not_mem_nil, or_false] at hw
      rcases hw with (hw | hw) | rfl | rfl | rfl | rfl
      · rw [run_entity hw (by decide) (by decide), run_entity hw (by decide) (by decide)]
        exact ⟨fun hr => .append (.longer (.entity hw)) (iht hr),
          fun hr => (ihv hr).append (plain_of_mem_entity hw)⟩
      · rw [run_simpleTag hw, run_simpleTag_of_ne hw (by decide), run_lost]
        exact ⟨fun hr => .append (.longer (.tag hw)) (iht hr), fun hr => by cases hr⟩
      · rw [run_linkStart_of_ne (s := target) (by decide), run_lost]
        exact ⟨fun hr => (ihv hr).generated, fun hr => by cases hr⟩
      · have hlost : text.run linkEnd = lost := rfl
        rw [hlost, run_lost]
        refine ⟨fun hr => ?_, fun hr => ⟨[], t, rfl, by simp, iht hr⟩⟩
        cases hr
      · have htext : text.run (escapeDoubleQuotes linkStart) = lost := by decide
        have htarget : target.run (escapeDoubleQuotes linkStart) = lost := by decide
        rw [htext, htarget, run_lost]
        exact ⟨fun hr => absurd hr (by decide), fun hr => absurd hr (by decide)⟩
      · have htext : text.run (escapeDoubleQuotes linkEnd) = lost := by decide
        have htarget : target.run (escapeDoubleQuotes linkEnd) = lost := by decide
        rw [htext, htarget, run_lost]
        exact ⟨fun hr => absurd hr (by decide), fun hr => absurd hr (by decide)⟩

/-- Only generated tags are markup in a torn text exactly if a reader gets back to text. -/
theorem generated_iff_run {t : Text} (h : Torn t) : Generated t ↔ text.run t = text :=
  ⟨run_generated, (generated_and_endsTarget h).1⟩

end Place

end TaskBulletin.Html
