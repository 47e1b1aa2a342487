import TaskBulletin.Proofs.Parts
import TaskBulletin.Proofs.ReadBack

/-!
# Text that stands in the open

A character stands in the open if it is in no tag, neither one in square nor one in angle
brackets. In a text whose square brackets come as tags, and in which no angle bracket opens
on nothing, a pass drops tags and blanks, and what it writes leaves no angle bracket open
that was not open before. So what stands in the open stays there, in its order: first of all
for a text and what any such change makes of it, then for each pass.
-/

namespace TaskBulletin

open Pattern

namespace Text

/-! ## Behind an opening character -/

/-- Whether a reader is behind an opening character that is not closed, given whether it is when
it begins. -/
def inside (opening closing : Char) (b : Bool) (t : Text) : Bool :=
  t.foldl (fun b c => if c = opening then true else if c = closing then false else b) b

section

variable {o c : Char} {b : Bool} {t u : Text}

@[simp] theorem inside_nil (o c : Char) (b : Bool) : inside o c b [] = b := rfl

theorem inside_cons (o c : Char) (b : Bool) (d : Char) (t : Text) :
    inside o c b (d :: t) = inside o c (if d = o then true else if d = c then false else b) t := rfl

@[simp] theorem inside_append (o c : Char) (b : Bool) (t u : Text) :
    inside o c b (t ++ u) = inside o c (inside o c b t) u :=
  List.foldl_append

theorem inside_of_notMem (ho : o ∉ t) (hc : c ∉ t) : inside o c b t = b := by
  induction t with
  | nil => rfl
  | cons d t ih =>
    simp only [List.mem_cons, not_or] at ho hc
    rw [inside_cons, if_neg (Ne.symm ho.1), if_neg (Ne.symm hc.1), ih ho.2 hc.2]

theorem inside_of_false (h : inside o c false t = true) : inside o c b t = true := by
  cases b with
  | false => exact h
  | true =>
    induction t with
    | nil => cases h
    | cons d t ih =>
      rw [inside_cons] at h ⊢
      by_cases ho : d = o
      · rwa [if_pos ho] at h ⊢
      · rw [if_neg ho] at h ⊢
        by_cases hc : d = c
        · rwa [if_pos hc] at h ⊢
        · rw [if_neg hc] at h ⊢
          exact ih h

theorem inside_concat_closing (hne : o ≠ c) : inside o c b (t ++ [c]) = false := by
  rw [inside_append, inside_cons, if_neg (Ne.symm hne), if_pos rfl]
  rfl

/-- A reader that comes out of an opening character has read a closing one. -/
theorem closing_mem_of_inside (h : inside o c true t = false) : c ∈ t := by
  by_contra hc
  have hstays : inside o c true t = true := by
    induction t with
    | nil => cases h
    | cons d t ih =>
      simp only [List.mem_cons, not_or] at hc
      have hstart : (if d = o then true else if d = c then false else true) = true := by
        rw [if_neg (Ne.symm hc.1)]
        split <;> rfl
      rw [inside_cons, hstart] at h ⊢
      exact ih h hc.2
  rw [hstays] at h
  cases h

/-- Between an opening character and the next closing one a reader is inside. -/
theorem inside_of_delimited {d : Char} {m : Text} (hm : c ∉ m) (ho : d ≠ o) (hc : d ≠ c)
    (h : o :: (m ++ [c]) = t ++ d :: u) : inside o c b t = true := by
  cases t with
  | nil => exact absurd (List.cons.inj h).1.symm ho
  | cons e t =>
    rw [List.cons_append] at h
    obtain ⟨rfl, htail⟩ := List.cons.inj h
    have ht : c ∉ t := by
      intro hmem
      rcases List.append_eq_append_iff.mp htail with ⟨x, -, hx⟩ | ⟨x, hx, -⟩
      · cases x with
        | nil => exact hc (List.cons.inj hx).1.symm
        | cons e x => simp at hx
      · rw [hx] at hm
        exact hm (List.mem_append_left _ hmem)
    by_contra hinside
    rw [inside_cons, if_pos rfl, Bool.not_eq_true] at hinside
    exact ht (closing_mem_of_inside hinside)

end

/-! ## Atoms -/

/-- A character that is neither blank nor a bracket. -/
structure Solid (c : Char) : Prop where
  not_blank : isBlank c = false
  not_bracket : c ∉ "[]<>".toList

instance decidableSolid (c : Char) : Decidable (Solid c) :=
  decidable_of_iff (isBlank c = false ∧ c ∉ "[]<>".toList)
    ⟨fun h => ⟨h.1, h.2⟩, fun h => ⟨h.1, h.2⟩⟩

/-- Characters, tags in square brackets, and angle brackets that open on a character. -/
inductive Atom : Text → Prop
  | char {c : Char} : c ≠ '[' → c ≠ '<' → Atom [c]
  | tag {body : Text} : (∀ d ∈ body, d ∉ "[]<>".toList) → Atom ('[' :: (body ++ [']']))
  | angle {d : Char} : Solid d → Atom ['<', d]

theorem Solid.ne {c d : Char} (h : Solid c) (hd : d ∈ "[]<>".toList) : c ≠ d := by
  rintro rfl
  exact h.not_bracket hd

theorem Solid.atom {c : Char} (h : Solid c) : Atom [c] :=
  .char (h.ne (by decide)) (h.ne (by decide))

theorem Atom.inside_brackets {w : Text} (h : Atom w) : inside '[' ']' false w = false := by
  cases h with
  | char hbracket _ =>
    rw [inside_cons, if_neg hbracket]
    split <;> rfl
  | @tag body _ => exact @inside_concat_closing '[' ']' false ('[' :: body) (by decide)
  | @angle d hd =>
    have hopen : d ≠ '[' := hd.ne (by decide)
    have hclose : d ≠ ']' := hd.ne (by decide)
    exact inside_of_notMem (by simp [Ne.symm hopen]) (by simp [Ne.symm hclose])

theorem MadeOf.inside_brackets {t : Text} (h : MadeOf Atom t) : inside '[' ']' false t = false := by
  induction h with
  | nil => rfl
  | append hw _ ih => rw [inside_append, hw.inside_brackets, ih]

theorem Atom.bracket_notMem_tail {w : Text} (h : Atom w) : '[' ∉ w.tail := by
  cases h with
  | char _ _ => exact List.not_mem_nil
  | tag hbody =>
    intro hm
    rcases List.mem_append.mp hm with hm | hm
    · exact hbody _ hm (by decide)
    · exact absurd hm (by decide)
  | angle hd => exact fun hm => hd.ne (by decide) (List.mem_singleton.mp hm).symm

/-- A square bracket opens a tag, so the text falls into two in front of it. -/
theorem MadeOf.cut_bracket {u v : Text} (h : MadeOf Atom (u ++ '[' :: v)) :
    MadeOf Atom u ∧ MadeOf Atom ('[' :: v) := by
  obtain ⟨w, t, htag, rfl, hu, ht⟩ := h.cut_head fun _ hw => hw.bracket_notMem_tail
  exact ⟨hu, .append htag ht⟩

/-- A text of atoms that begins with a square bracket begins with a tag. -/
theorem MadeOf.exists_tag {v : Text} (h : MadeOf Atom ('[' :: v)) :
    ∃ body rest, v = body ++ ']' :: rest ∧ (∀ d ∈ body, d ∉ "[]<>".toList) ∧ MadeOf Atom rest := by
  obtain ⟨w, t, htag, rfl, -, ht⟩ := h.cut_head (u := []) fun _ hw => hw.bracket_notMem_tail
  cases htag with
  | char hbracket _ => exact absurd rfl hbracket
  | @tag body hbody => exact ⟨body, t, by simp, hbody, ht⟩

theorem MadeOf.cut_tag {u m v : Text} (hm : ']' ∉ m)
    (h : MadeOf Atom (u ++ ('[' :: (m ++ [']']) ++ v))) :
    MadeOf Atom u ∧ (∀ d ∈ m, d ∉ "[]<>".toList) ∧ MadeOf Atom v := by
  rw [List.cons_append, List.append_assoc, List.singleton_append] at h
  obtain ⟨hu, h⟩ := h.cut_bracket
  obtain ⟨body, rest, hbody, hclean, hrest⟩ := h.exists_tag
  have hclosing : ']' ∉ body := fun hb => hclean _ hb (by decide)
  obtain ⟨rfl, rfl⟩ := Html.cut_at_first hm hclosing hbody
  exact ⟨hu, hclean, hrest⟩

/-! ## What stays in the open -/

/-- One text retains what stands in the open in another: each solid character in no tag in square
brackets stays, in no tag in square brackets, and behind an open angle bracket at most if it was
behind one before. -/
structure Retains (t t' : Text) : Prop where
  before : MadeOf Atom t
  after : MadeOf Atom t'
  angles : ∀ b, inside '<' '>' b t' = true → inside '<' '>' b t = true
  stays : ∀ u c v, t = u ++ c :: v → Solid c → inside '[' ']' false u = false →
    ∃ u' v', t' = u' ++ c :: v' ∧ inside '[' ']' false u' = false ∧
      ∀ b, inside '<' '>' b u' = true → inside '<' '>' b u = true

namespace Retains

variable {t t' u u' w : Text}

theorem refl (h : MadeOf Atom t) : Retains t t :=
  ⟨h, h, fun _ => id, fun u _ v ht _ hu => ⟨u, v, ht, hu, fun _ => id⟩⟩

theorem trans (h : Retains t u) (h' : Retains u w) : Retains t w where
  before := h.before
  after := h'.after
  angles b hb := h.angles b (h'.angles b hb)
  stays x c y ht hc hx := by
    obtain ⟨x', y', hu, hx', hle⟩ := h.stays x c y ht hc hx
    obtain ⟨x'', y'', hw, hx'', hle'⟩ := h'.stays x' c y' hu hc hx'
    exact ⟨x'', y'', hw, hx'', fun b hb => hle b (hle' b hb)⟩

theorem angles_append (h : ∀ b, inside '<' '>' b t' = true → inside '<' '>' b t = true)
    (h' : ∀ b, inside '<' '>' b u' = true → inside '<' '>' b u = true) (b : Bool)
    (hb : inside '<' '>' b (t' ++ u') = true) : inside '<' '>' b (t ++ u) = true := by
  rw [inside_append] at hb ⊢
  have hu := h' _ hb
  cases hstart : inside '<' '>' b t' with
  | false =>
    rw [hstart] at hu
    exact inside_of_false hu
  | true =>
    rw [hstart] at hu
    rw [h b hstart]
    exact hu

theorem append (h : Retains t t') (h' : Retains u u') : Retains (t ++ u) (t' ++ u') where
  before := h.before.concat h'.before
  after := h.after.concat h'.after
  angles := angles_append h.angles h'.angles
  stays x c y hxy hc hx := by
    rcases List.append_eq_append_iff.mp hxy with ⟨z, hz, hu⟩ | ⟨z, ht, hz⟩
    · -- The character stands in the second text.
      rw [hz, inside_append, h.before.inside_brackets] at hx
      obtain ⟨x', y', hu', hx', hle⟩ := h'.stays z c y hu hc hx
      refine ⟨t' ++ x', y', by rw [hu', List.append_assoc], ?_, ?_⟩
      · rw [inside_append, h.after.inside_brackets, hx']
      · rw [hz]
        exact angles_append h.angles hle
    · cases z with
      | nil =>
        obtain ⟨x', y', hu', hx', hle⟩ := h'.stays [] c y hz.symm hc rfl
        rw [List.append_nil] at ht
        refine ⟨t' ++ x', y', by rw [hu', List.append_assoc], ?_, ?_⟩
        · rw [inside_append, h.after.inside_brackets, hx']
        · intro b hb
          rw [← List.append_nil x, ← ht]
          exact angles_append h.angles hle b hb
      | cons d z =>
        obtain ⟨rfl, -⟩ := List.cons.inj hz
        obtain ⟨x', y', ht', hx', hle⟩ := h.stays x c z ht hc hx
        exact ⟨x', y' ++ u', by rw [ht']; simp, hx', hle⟩

theorem drop (h : MadeOf Atom w)
    (hw : ∀ u c v, w = u ++ c :: v → Solid c → inside '[' ']' false u = true)
    (hangles : ∀ b, b = true → inside '<' '>' b w = true) : Retains w [] where
  before := h
  after := .nil
  angles b hb := hangles b hb
  stays u c v huv hc hu := by
    rw [hw u c v huv hc] at hu
    cases hu

theorem drop_tag {m : Text} (h : ∀ d ∈ m, d ∉ "[]<>".toList) :
    Retains ('[' :: (m ++ [']'])) [] := by
  have hmissing (d : Char) (hd : d ∈ "[]<>".toList) : d ∉ m := fun hm => h d hm hd
  refine drop (.of_part (.tag h)) (fun u c v huv hc => ?_) fun b hb => ?_
  · exact inside_of_delimited (hmissing ']' (by decide)) (hc.ne (by decide)) (hc.ne (by decide)) huv
  · have hopen : '<' ∉ '[' :: (m ++ [']']) := by simp [hmissing]
    have hclose : '>' ∉ '[' :: (m ++ [']']) := by simp [hmissing]
    rw [inside_of_notMem hopen hclose]
    exact hb

theorem drop_blanks (h : ∀ c ∈ w, isBlank c = true) : Retains w [] := by
  have hne (d : Char) (hd : isBlank d = false) : d ∉ w := fun hm => by
    rw [h d hm] at hd
    cases hd
  refine drop (.of_forall fun c hc => .char ?_ ?_) (fun u c v huv hc => ?_) fun b hb => ?_
  · rintro rfl
    exact hne _ (by decide) hc
  · rintro rfl
    exact hne _ (by decide) hc
  · refine absurd hc.not_blank ?_
    rw [h c (by simp [huv])]
    decide
  · rw [inside_of_notMem (hne _ (by decide)) (hne _ (by decide))]
    exact hb

/-- Text that leaves no angle bracket open can be written anywhere. -/
theorem insert (h : MadeOf Atom w) (hw : ∀ b, inside '<' '>' b w = true → b = true) :
    Retains [] w where
  before := .nil
  after := h
  angles := hw
  stays u c v huv := by simp at huv

theorem wrap {l r : Text} (h : Retains t t') (hl : Retains [] l) (hr : Retains [] r) :
    Retains t (l ++ t' ++ r) := by
  have hwhole := (hl.append h).append hr
  rwa [List.nil_append, List.append_nil] at hwhole

end Retains

end Text

end TaskBulletin
