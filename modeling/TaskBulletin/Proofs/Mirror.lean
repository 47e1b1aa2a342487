import TaskBulletin.Proofs.Recoding

/-!
# Patterns that read a recoded text alike

Two patterns mirror each other under a recoding when the second reads in every
recoded text what the first reads in the text, at the same places. Then the pieces
of the recoded text are the recoded pieces, and a pass whose replacements are
recoded as well gives the recoded result.
-/

namespace TaskBulletin.Pattern

variable {α β γ δ : Type} {R : Recoding}

/-- The pattern `q` reads in a recoded text the images of what `p` reads in the text. -/
structure Mirrors (p : Pattern α) (q : Pattern β) (R : Recoding) (image : α → β) : Prop where
  read_recode : ∀ {t}, R.Knows t →
    q.read (R.recode t) = (p.read t).map fun (a, rest) => (image a, R.recode rest)
  read_tail : ∀ e ∈ codeTail, ∀ t, q.read (e :: t) = none

theorem code_eq_cons {c : Char} (hc : R.known c) :
    ∃ d w, R.code c = d :: w ∧ ∀ e ∈ w, e ∈ codeTail := by
  rcases R.same_or_quiet hc with h | ⟨_, d, w, h, _, hw⟩
  · exact ⟨c, [], h, by simp⟩
  · exact ⟨d, w, h, hw⟩

theorem knows_of_read {p : Pattern α} {t : Text} {a : α} {rest : Text}
    (h : p.read t = some (a, rest)) (ht : R.Knows t) :
    R.Knows (p.spelling a) ∧ R.Knows rest := by
  rw [p.read_eq h, R.knows_append] at ht
  exact ht

namespace Mirrors

variable {p : Pattern α} {q : Pattern β} {image : α → β}

theorem silent_tail (h : Mirrors p q R image) {w : Text} (hw : ∀ e ∈ w, e ∈ codeTail) :
    q.Silent w := by
  induction w with
  | nil => exact trivial
  | cons e w ih =>
    exact ⟨fun rest => h.read_tail e (hw e (List.mem_cons_self ..)) _,
      ih fun d hd => hw d (List.mem_cons_of_mem _ hd)⟩

/-- What is read in the recoded text is spelled as the recoding of what was read. -/
theorem spelling_image (h : Mirrors p q R image) {t : Text} {a : α} {rest : Text}
    (hr : p.read t = some (a, rest)) (ht : R.Knows t) :
    q.spelling (image a) = R.recode (p.spelling a) := by
  have hq : q.read (R.recode t) = some (image a, R.recode rest) := by
    rw [h.read_recode ht, hr]
    rfl
  have heq := q.read_eq hq
  rw [p.read_eq hr, R.recode_append] at heq
  exact (List.append_cancel_right heq).symm

def recodePiece (R : Recoding) (image : α → β) : Piece α → List (Piece β)
  | .plain c => (R.code c).map .plain
  | .hit a => [.hit (image a)]

theorem pieces_recode (h : Mirrors p q R image) {t : Text} (ht : R.Knows t) :
    q.pieces (R.recode t) = (p.pieces t).flatMap (recodePiece R image) := by
  fun_induction pieces p t with
  | case1 => simp
  | case2 c cs a rest hr _ ih =>
    have hq : q.read (R.recode (c :: cs)) = some (image a, R.recode rest) := by
      rw [h.read_recode ht, hr]
      rfl
    rw [pieces_of_read q hq, ih (knows_of_read hr ht).2]
    rfl
  | case3 c cs hr ih =>
    obtain ⟨hc, hcs⟩ := R.knows_cons.mp ht
    obtain ⟨d, w, hd, hw⟩ := code_eq_cons hc
    have hq : q.read (R.recode (c :: cs)) = none := by
      rw [h.read_recode ht, hr]
      rfl
    rw [R.recode_cons, hd, List.cons_append] at hq ⊢
    rw [pieces_of_not_read q hq, pieces_append_of_silent (h.silent_tail hw), ih hcs]
    simp [recodePiece, hd]

theorem hits_recode (h : Mirrors p q R image) {t : Text} (ht : R.Knows t) :
    q.hits (R.recode t) = (p.hits t).map image := by
  rw [hits, h.pieces_recode ht, hits]
  induction p.pieces t with
  | nil => rfl
  | cons a as ih =>
    rw [List.flatMap_cons, List.filterMap_append, ih]
    cases a <;> simp [recodePiece]

theorem writeWith_recode {f : α → Text} {g : β → Text} (ps : List (Piece α))
    (hfg : ∀ a, .hit a ∈ ps → g (image a) = R.recode (f a)) :
    writeWith g (ps.flatMap (recodePiece R image)) = R.recode (writeWith f ps) := by
  induction ps with
  | nil => rfl
  | cons a as ih =>
    have ih := ih fun b hb => hfg b (List.mem_cons_of_mem _ hb)
    rw [List.flatMap_cons, writeWith_append, ih]
    cases a with
    | plain c => simp [recodePiece, writeWith_map_plain, writeWith]
    | hit a => simp [recodePiece, writeWith, hfg a (List.mem_cons_self ..)]

/-- A pass over a recoded text gives the recoding of the pass over the text. -/
theorem rewrite_recode (h : Mirrors p q R image) {f : α → Text} {g : β → Text} {t : Text}
    (ht : R.Knows t) (hfg : ∀ a, .hit a ∈ p.pieces t → g (image a) = R.recode (f a)) :
    q.rewrite g (R.recode t) = R.recode (p.rewrite f t) := by
  rw [rewrite, h.pieces_recode ht, writeWith_recode _ hfg, rewrite]

theorem split_recode (h : Mirrors p q R image) {t : Text} (ht : R.Knows t) :
    q.split (R.recode t) = (p.split t).map R.recode := by
  rw [split, h.pieces_recode ht, split]
  induction p.pieces t with
  | nil => rfl
  | cons a as ih =>
    rw [List.flatMap_cons]
    cases a with
    | plain c =>
      rw [recodePiece, runsOf_map_plain_append, ih, runsOf]
      cases hr : runsOf as with
      | nil => exact absurd hr (runsOf_ne_nil as)
      | cons run runs => simp
    | hit a => simp [recodePiece, runsOf, ih]

end Mirrors

/-! ## Mirrored patterns -/

theorem readWord_recode {w : Text} (hw : ∀ x ∈ w, isLoud x = true) {t : Text} (ht : R.Knows t) :
    Text.readWord w (R.recode t) =
      (Text.readWord w t).map fun (spelled, rest) => (spelled, R.recode rest) := by
  induction w generalizing t with
  | nil => simp [Text.readWord]
  | cons x w ih =>
    have hx := hw x (List.mem_cons_self ..)
    have ih := @ih fun y hy => hw y (List.mem_cons_of_mem _ hy)
    cases t with
    | nil => simp [Text.readWord]
    | cons c t =>
      obtain ⟨hc, ht⟩ := R.knows_cons.mp ht
      rcases R.same_or_quiet hc with h | ⟨hq, d, v, h, hd, _⟩
      · rw [R.recode_cons, h]
        simp only [List.cons_append, List.nil_append, Text.readWord]
        split
        · simp [ih ht, Function.comp_def]
        · rfl
      · rw [R.recode_cons, h]
        simp [Text.readWord, spells_of_isQuiet hx hq, spells_of_isQuiet hx hd]

theorem mirrors_word {x : Char} {w : Text} (hw : ∀ y ∈ x :: w, isLoud y = true)
    (hx : ∀ e ∈ codeTail, Text.spells x e = false) :
    Mirrors (word (x :: w)) (word (x :: w)) R id where
  read_recode ht := by simpa [word] using readWord_recode hw ht
  read_tail e he t := by simp [word, Text.readWord, hx e he]

theorem afterExact_recode {w : Text} (hw : ∀ x ∈ w, isQuiet x = false) {t : Text}
    (ht : R.Knows t) : afterExact w (R.recode t) = (afterExact w t).map R.recode := by
  induction w generalizing t with
  | nil => simp [afterExact]
  | cons x w ih =>
    have hx := hw x (List.mem_cons_self ..)
    have ih := @ih fun y hy => hw y (List.mem_cons_of_mem _ hy)
    cases t with
    | nil => simp [afterExact]
    | cons c t =>
      obtain ⟨hc, ht⟩ := R.knows_cons.mp ht
      have hne {d : Char} (hd : isQuiet d = true) : x ≠ d := by
        rintro rfl
        rw [hd] at hx
        cases hx
      rcases R.same_or_quiet hc with h | ⟨hq, d, v, h, hd, _⟩
      · rw [R.recode_cons, h]
        simp only [List.cons_append, List.nil_append, afterExact]
        split
        · exact ih ht
        · rfl
      · rw [R.recode_cons, h]
        simp [afterExact, hne hq, hne hd]

theorem mirrors_exact {x : Char} {w : Text} (hw : ∀ y ∈ x :: w, isQuiet y = false)
    (hx : x ∉ codeTail) : Mirrors (exact (x :: w)) (exact (x :: w)) R id where
  read_recode ht := by simp [exact, afterExact_recode hw ht, Function.comp_def]
  read_tail e he t := begins_exact x w e t (by rintro rfl; exact hx he)

/-- A class of characters that a recoding keeps: a code is in the class as a whole exactly if
the character is in it. -/
def Keeps (R : Recoding) (kind : Char → Bool) : Prop :=
  ∀ c, R.known c → (R.code c).all kind = kind c

theorem keeps_of_mem {kind : Char → Bool} (h : ∀ c, R.known c → ∀ e ∈ R.code c, kind e = kind c) :
    Keeps R kind := by
  intro c hc
  have hall := h c hc
  obtain ⟨d, w, hd, -⟩ := code_eq_cons hc
  rw [hd] at hall ⊢
  cases hk : kind c with
  | false => rw [List.all_cons, hall d (List.mem_cons_self ..), hk, Bool.false_and]
  | true => exact List.all_eq_true.mpr fun e he => (hall e he).trans hk

theorem readTo_recode {p : Pattern α} {q : Pattern β} {image : α → β} (h : Mirrors p q R image)
    {allowed : Char → Bool} (hk : Keeps R allowed) {t : Text} (ht : R.Knows t) :
    readTo allowed q (R.recode t) =
      (readTo allowed p t).map fun (content, a, rest) =>
        (R.recode content, image a, R.recode rest) := by
  induction t with
  | nil => simp [readTo]
  | cons c t ih =>
    obtain ⟨hc, htt⟩ := R.knows_cons.mp ht
    obtain ⟨d, w, hd, hw⟩ := code_eq_cons hc
    have hkc := hk c hc
    have hq := h.read_recode ht
    rw [R.recode_cons, hd, List.cons_append] at hq ⊢
    rw [readTo, readTo, hq]
    rw [hd, List.all_cons] at hkc
    cases p.read (c :: t) with
    | some r => rfl
    | none =>
      simp only [Option.map_none, ← hkc, Bool.and_eq_true]
      cases hkd : allowed d with
      | false => simp
      | true =>
        rw [if_pos rfl, readTo_append_all (h.silent_tail hw), ih htt]
        cases hkw : w.all allowed <;> simp [Function.comp_def, hd]

/-- The image of a span whose opener and closer have images of their own. -/
def recodeSpan (R : Recoding) (f : α → β) (g : γ → δ) (s : Span α γ) : Span β δ :=
  ⟨f s.opener, R.recode s.content, g s.closer⟩

theorem Mirrors.between {p : Pattern α} {q : Pattern β} {f : α → β} {p' : Pattern γ}
    {q' : Pattern δ} {g : γ → δ} (ho : Mirrors p q R f) (hc : Mirrors p' q' R g)
    {allowed : Char → Bool} (hk : Keeps R allowed) :
    Mirrors (p.between allowed p') (q.between allowed q') R (recodeSpan R f g) where
  read_recode {t} ht := by
    simp only [Pattern.between]
    rw [ho.read_recode ht]
    cases hr : p.read t with
    | none => rfl
    | some r =>
      obtain ⟨a, rest⟩ := r
      have hrest := (knows_of_read hr ht).2
      simp [readTo_recode hc hk hrest, Function.comp_def, recodeSpan]
  read_tail e he t := by simp [Pattern.between, ho.read_tail e he t]

theorem Mirrors.filter {p : Pattern α} {q : Pattern β} {image : α → β} (h : Mirrors p q R image)
    {holds : α → Bool} {holds' : β → Bool}
    (hh : ∀ a, R.Knows (p.spelling a) → holds' (image a) = holds a) :
    Mirrors (p.filter holds) (q.filter holds') R image where
  read_recode {t} ht := by
    simp only [Pattern.filter]
    rw [h.read_recode ht]
    cases hr : p.read t with
    | none => rfl
    | some r =>
      obtain ⟨a, rest⟩ := r
      have hs := (knows_of_read hr ht).1
      simp only [Option.map_some, hh a hs]
      split <;> rfl
  read_tail e he t := by simp [Pattern.filter, h.read_tail e he t]

end TaskBulletin.Pattern
