import TaskBulletin.Bracket.Tag
import Mathlib.Tactic.IntervalCases

/-!
# Where a pattern reads

A pass over a text is settled by the places where its pattern reads. A text is
silent for a pattern when the pattern reads nowhere in it, whatever follows; a
silent text goes through a pass unchanged, and the search for a closer runs over
it. Silence is closed under concatenation, so it is checked tag by tag.
-/

namespace TaskBulletin.Pattern

variable {α β : Type}

/-- The pattern reads nowhere in the text, whatever follows the text. -/
def Silent (p : Pattern α) : Text → Prop
  | [] => True
  | c :: t => (∀ rest, p.read (c :: (t ++ rest)) = none) ∧ p.Silent t

/-- Whatever the pattern reads begins with `c`. -/
def Begins (p : Pattern α) (c : Char) : Prop :=
  ∀ d t, d ≠ c → p.read (d :: t) = none

@[simp] theorem silent_nil (p : Pattern α) : p.Silent [] := trivial

theorem silent_cons {p : Pattern α} {c : Char} {t : Text} :
    p.Silent (c :: t) ↔ (∀ rest, p.read (c :: (t ++ rest)) = none) ∧ p.Silent t := Iff.rfl

theorem Silent.append {p : Pattern α} {t u : Text} (ht : p.Silent t) (hu : p.Silent u) :
    p.Silent (t ++ u) := by
  induction t with
  | nil => exact hu
  | cons c t ih =>
    refine ⟨fun rest => ?_, ih ht.2⟩
    simpa using ht.1 (u ++ rest)

theorem Begins.silent {p : Pattern α} {c : Char} (hp : p.Begins c) {t : Text} (ht : c ∉ t) :
    p.Silent t := by
  induction t with
  | nil => exact trivial
  | cons d t ih =>
    obtain ⟨hd, ht⟩ := not_or.mp (fun h => ht (List.mem_cons.mpr h))
    exact ⟨fun rest => hp d _ (Ne.symm hd), ih ht⟩

theorem Begins.silent_cons {p : Pattern α} {c : Char} (hp : p.Begins c) {t : Text} (ht : c ∉ t)
    (h : ∀ rest, p.read (c :: (t ++ rest)) = none) : p.Silent (c :: t) :=
  ⟨h, hp.silent ht⟩

/-! ## Passes over silent texts -/

theorem pieces_append_of_silent {p : Pattern α} {t : Text} (ht : p.Silent t) (rest : Text) :
    p.pieces (t ++ rest) = t.map .plain ++ p.pieces rest := by
  induction t with
  | nil => rfl
  | cons c t ih => rw [List.cons_append, pieces_of_not_read p (ht.1 rest), ih ht.2]; rfl

theorem writeWith_map_plain (f : α → Text) (t : Text) :
    writeWith f (t.map .plain) = t := by
  induction t with
  | nil => rfl
  | cons c t ih => simp [writeWith, ih]

theorem rewrite_append_of_silent {p : Pattern α} {t : Text} (ht : p.Silent t) (f : α → Text)
    (rest : Text) : p.rewrite f (t ++ rest) = t ++ p.rewrite f rest := by
  rw [rewrite, pieces_append_of_silent ht, writeWith_append, writeWith_map_plain, rewrite]

@[simp] theorem rewrite_nil (p : Pattern α) (f : α → Text) : p.rewrite f [] = [] := by
  simp [rewrite, writeWith]

theorem rewrite_of_silent {p : Pattern α} {t : Text} (ht : p.Silent t) (f : α → Text) :
    p.rewrite f t = t := by
  simpa using rewrite_append_of_silent ht f []

theorem rewrite_of_read {p : Pattern α} {t : Text} {a : α} {rest : Text}
    (h : p.read t = some (a, rest)) (f : α → Text) :
    p.rewrite f t = f a ++ p.rewrite f rest := by
  rw [rewrite, pieces_of_read p h]
  rfl

theorem rewrite_of_not_read {p : Pattern α} {c : Char} {t : Text} (h : p.read (c :: t) = none)
    (f : α → Text) : p.rewrite f (c :: t) = c :: p.rewrite f t := by
  rw [rewrite, pieces_of_not_read p h]
  rfl

theorem hits_append_of_silent {p : Pattern α} {t : Text} (ht : p.Silent t) (rest : Text) :
    p.hits (t ++ rest) = p.hits rest := by
  rw [hits, pieces_append_of_silent ht, List.filterMap_append, List.filterMap_map]
  simp [hits]

@[simp] theorem hits_nil (p : Pattern α) : p.hits [] = [] := by
  simp [hits]

theorem hits_of_silent {p : Pattern α} {t : Text} (ht : p.Silent t) : p.hits t = [] := by
  simpa using hits_append_of_silent ht []

theorem rewrite_of_hits_eq_nil {p : Pattern α} {t : Text} (h : p.hits t = []) (f : α → Text) :
    p.rewrite f t = t := by
  conv_rhs => rw [← p.writeWith_spelling_pieces t]
  rw [rewrite]
  rw [hits] at h
  generalize p.pieces t = ps at h ⊢
  induction ps with
  | nil => rfl
  | cons piece ps ih =>
    cases piece with
    | plain c => rw [writeWith, writeWith, ih h]
    | hit a => cases h

/-- The search for a closer runs over a silent text exactly if all of it is allowed. -/
theorem readTo_append_all {closer : Pattern β} {allowed : Char → Bool} {t : Text}
    (ht : closer.Silent t) (rest : Text) :
    readTo allowed closer (t ++ rest) =
      if t.all allowed then
        (readTo allowed closer rest).map fun (content, b, r) => (t ++ content, b, r)
      else none := by
  induction t with
  | nil => simp
  | cons c t ih =>
    rw [List.cons_append, readTo, ht.1 rest, ih ht.2, List.all_cons]
    cases allowed c with
    | false => simp
    | true => cases t.all allowed <;> simp [Function.comp_def]

theorem readTo_append_of_silent {closer : Pattern β} {allowed : Char → Bool} {t : Text}
    (ht : closer.Silent t) (ha : ∀ c ∈ t, allowed c = true) (rest : Text) :
    readTo allowed closer (t ++ rest) =
      (readTo allowed closer rest).map fun (content, b, r) => (t ++ content, b, r) := by
  rw [readTo_append_all ht, if_pos (List.all_eq_true.mpr ha)]

theorem readTo_of_read {closer : Pattern β} {allowed : Char → Bool} {t : Text} {b : β}
    {rest : Text} (h : closer.read t = some (b, rest)) :
    readTo allowed closer t = some ([], b, rest) := by
  cases t with
  | nil => simpa using closer.length_lt_of_read h
  | cons c t => rw [readTo, h]

theorem readTo_allowed {closer : Pattern β} {allowed : Char → Bool} {t content rest : Text} {b : β}
    (h : readTo allowed closer t = some (content, b, rest)) : ∀ c ∈ content, allowed c = true := by
  induction t generalizing content with
  | nil => simp [readTo] at h
  | cons c t ih =>
    simp only [readTo] at h
    split at h
    · simp only [Option.some.injEq, Prod.mk.injEq] at h
      obtain ⟨rfl, -, -⟩ := h
      simp
    · split at h
      · rename_i hc
        obtain ⟨⟨k, b', r⟩, hr, he⟩ := Option.map_eq_some_iff.1 h
        simp only [Prod.mk.injEq] at he
        obtain ⟨rfl, rfl, rfl⟩ := he
        simpa [hc] using ih hr
      · cases h

theorem exists_read_of_readTo {closer : Pattern β} {allowed : Char → Bool}
    {t content rest : Text} {b : β} (h : readTo allowed closer t = some (content, b, rest)) :
    ∃ u, u <:+ t ∧ closer.read u = some (b, rest) := by
  induction t generalizing content with
  | nil => simp [readTo] at h
  | cons c t ih =>
    simp only [readTo] at h
    split at h
    · rename_i hr
      simp only [Option.some.injEq, Prod.mk.injEq] at h
      obtain ⟨-, rfl, rfl⟩ := h
      exact ⟨c :: t, List.suffix_rfl, hr⟩
    · split at h
      · obtain ⟨⟨k, b', r⟩, hr, he⟩ := Option.map_eq_some_iff.1 h
        simp only [Prod.mk.injEq] at he
        obtain ⟨-, rfl, rfl⟩ := he
        obtain ⟨u, hu, hb⟩ := ih hr
        exact ⟨u, hu.trans (List.suffix_cons ..), hb⟩
      · cases h

theorem read_between_eq_some_iff {opener : Pattern α} {allowed : Char → Bool} {closer : Pattern β}
    {t : Text} {s : Span α β} {rest : Text} :
    (between opener allowed closer).read t = some (s, rest) ↔
      ∃ u, opener.read t = some (s.opener, u) ∧
        readTo allowed closer u = some (s.content, s.closer, rest) := by
  obtain ⟨a, content, b⟩ := s
  simp only [between, Option.bind_eq_some_iff, Option.map_eq_some_iff, Prod.exists, Prod.mk.injEq,
    Span.mk.injEq]
  constructor
  · rintro ⟨a', u, ha, content', b', rest', hu, ⟨rfl, rfl, rfl⟩, rfl⟩
    exact ⟨u, ha, hu⟩
  · rintro ⟨u, ha, hu⟩
    exact ⟨a, u, ha, content, b, rest, hu, ⟨rfl, rfl, rfl⟩, rfl⟩

theorem read_filter_of_read {p : Pattern α} {t : Text} {a : α} {rest : Text}
    (h : p.read t = some (a, rest)) (holds : α → Bool) :
    (p.filter holds).read t = if holds a then some (a, rest) else none := by
  simp only [filter, h]

theorem read_filter_eq_some_iff {p : Pattern α} {holds : α → Bool} {t : Text} {a : α}
    {rest : Text} :
    (p.filter holds).read t = some (a, rest) ↔ p.read t = some (a, rest) ∧ holds a = true := by
  simp only [filter]
  cases hr : p.read t with
  | none => simp
  | some r =>
    obtain ⟨b, u⟩ := r
    simp only [Option.ite_none_right_eq_some, Option.some.injEq, Prod.mk.injEq]
    constructor
    · rintro ⟨hb, rfl, rfl⟩
      exact ⟨⟨rfl, rfl⟩, hb⟩
    · rintro ⟨⟨rfl, rfl⟩, hb⟩
      exact ⟨hb, rfl, rfl⟩

theorem mem_hits_iff {p : Pattern α} {t : Text} {a : α} : a ∈ p.hits t ↔ .hit a ∈ p.pieces t := by
  rw [hits, List.mem_filterMap]
  constructor
  · rintro ⟨piece, hp, he⟩
    cases piece with
    | plain c => cases he
    | hit b =>
      obtain rfl := Option.some.inj he
      exact hp
  · exact fun h => ⟨.hit a, h, rfl⟩

theorem exists_read_of_mem_hits {p : Pattern α} {t : Text} {a : α} (h : a ∈ p.hits t) :
    ∃ u rest, u <:+ t ∧ p.read u = some (a, rest) := by
  rw [mem_hits_iff] at h
  fun_induction pieces p t with
  | case1 => cases h
  | case2 c cs b rest hr _ ih =>
    rcases List.mem_cons.mp h with h | h
    · obtain rfl := Piece.hit.inj h
      exact ⟨c :: cs, rest, List.suffix_rfl, hr⟩
    · obtain ⟨u, rest', hu, hr'⟩ := ih h
      refine ⟨u, rest', hu.trans ?_, hr'⟩
      rw [p.read_eq hr]
      exact List.suffix_append ..
  | case3 c cs _ ih =>
    rcases List.mem_cons.mp h with h | h
    · cases h
    · obtain ⟨u, rest, hu, hr⟩ := ih h
      exact ⟨u, rest, hu.trans (List.suffix_cons ..), hr⟩

/-! ## Things that a pattern reads -/

/-- The pattern reads this at the front of some text. -/
def Reads (p : Pattern α) (a : α) : Prop := ∃ t rest, p.read t = some (a, rest)

theorem reads_of_mem_hits {p : Pattern α} {t : Text} {a : α} (h : a ∈ p.hits t) : p.Reads a := by
  obtain ⟨u, rest, -, hr⟩ := exists_read_of_mem_hits h
  exact ⟨u, rest, hr⟩

theorem reads_of_mem_pieces {p : Pattern α} {t : Text} {a : α} (h : .hit a ∈ p.pieces t) :
    p.Reads a :=
  reads_of_mem_hits (mem_hits_iff.mpr h)

theorem Reads.between {opener : Pattern α} {allowed : Char → Bool} {closer : Pattern β}
    {s : Span α β} (h : (between opener allowed closer).Reads s) :
    opener.Reads s.opener ∧ (∀ c ∈ s.content, allowed c = true) ∧ closer.Reads s.closer := by
  obtain ⟨t, rest, h⟩ := h
  obtain ⟨u, ho, hc⟩ := read_between_eq_some_iff.mp h
  obtain ⟨v, -, hb⟩ := exists_read_of_readTo hc
  exact ⟨⟨t, u, ho⟩, readTo_allowed hc, ⟨v, rest, hb⟩⟩

theorem Reads.filter {p : Pattern α} {holds : α → Bool} {a : α} (h : (p.filter holds).Reads a) :
    p.Reads a ∧ holds a = true := by
  obtain ⟨t, rest, h⟩ := h
  obtain ⟨hr, ha⟩ := read_filter_eq_some_iff.mp h
  exact ⟨⟨t, rest, hr⟩, ha⟩

theorem spelling_between (opener : Pattern α) (allowed : Char → Bool) (closer : Pattern β)
    (s : Span α β) : (between opener allowed closer).spelling s =
      opener.spelling s.opener ++ s.content ++ closer.spelling s.closer := rfl

/-! ## Characters of a text and of its matches -/

theorem mem_writeWith {f : α → Text} {ps : List (Piece α)} {c : Char} :
    c ∈ writeWith f ps ↔ .plain c ∈ ps ∨ ∃ a, .hit a ∈ ps ∧ c ∈ f a := by
  induction ps with
  | nil => simp [writeWith]
  | cons piece ps ih =>
    cases piece with
    | plain d =>
      rw [writeWith, List.mem_cons, ih]
      simp [or_assoc]
    | hit a =>
      rw [writeWith, List.mem_append, ih]
      simp only [List.mem_cons, reduceCtorEq, false_or, Piece.hit.injEq, or_and_right, exists_or,
        exists_eq_left]
      exact or_left_comm

/-- A text holds the characters between the matches, and those of the matches. -/
theorem mem_iff_mem_pieces {p : Pattern α} {t : Text} {c : Char} :
    c ∈ t ↔ .plain c ∈ p.pieces t ∨ ∃ a, .hit a ∈ p.pieces t ∧ c ∈ p.spelling a := by
  rw [← mem_writeWith, writeWith_spelling_pieces]

theorem mem_of_mem_spelling {p : Pattern α} {t : Text} {a : α} (h : a ∈ p.hits t) :
    ∀ c ∈ p.spelling a, c ∈ t :=
  fun _ hc => mem_iff_mem_pieces.mpr (.inr ⟨a, mem_hits_iff.mp h, hc⟩)

/-- A rewritten text holds characters of the text and of the replacements. -/
theorem mem_rewrite {p : Pattern α} {f : α → Text} {t : Text} {c : Char}
    (h : c ∈ p.rewrite f t) : c ∈ t ∨ ∃ a ∈ p.hits t, c ∈ f a := by
  rcases mem_writeWith.mp h with h | ⟨a, ha, h⟩
  · exact .inl (mem_iff_mem_pieces.mpr (.inl h))
  · exact .inr ⟨a, mem_hits_iff.mpr ha, h⟩

/-! ## Runs between the matches -/

theorem runsOf_ne_nil (ps : List (Piece α)) : runsOf ps ≠ [] := by
  cases ps with
  | nil => simp [runsOf]
  | cons a as =>
    cases a with
    | hit a => simp [runsOf]
    | plain c => rw [runsOf]; split <;> simp

theorem runsOf_map_plain_append (t : Text) (ps : List (Piece α)) :
    runsOf (t.map .plain ++ ps) = (runsOf ps).modifyHead (t ++ ·) := by
  induction t with
  | nil => cases h : runsOf ps <;> simp [h]
  | cons c t ih =>
    rw [List.map_cons, List.cons_append, runsOf, ih]
    cases h : runsOf ps with
    | nil => exact absurd h (runsOf_ne_nil ps)
    | cons run runs => simp

/-! ## Exact texts -/

theorem read_exact_eq_some_iff {w : Text} (hw : w ≠ []) {t a rest : Text} :
    (exact w).read t = some (a, rest) ↔ a = w ∧ t = w ++ rest := by
  simp only [exact, List.isEmpty_iff, hw, if_false, Option.map_eq_some_iff,
    afterExact_eq_some_iff, Prod.mk.injEq]
  constructor
  · rintro ⟨r, h, rfl, rfl⟩
    exact ⟨rfl, h⟩
  · rintro ⟨rfl, h⟩
    exact ⟨rest, h, rfl, rfl⟩

theorem read_exact_eq_none {w t : Text} (h : ∀ rest, t ≠ w ++ rest) : (exact w).read t = none := by
  have hr : afterExact w t = none := by
    rw [Option.eq_none_iff_forall_not_mem]
    exact fun rest hrest => h rest (afterExact_eq_some_iff.mp hrest)
  simp [exact, hr]

end Pattern

@[simp] theorem Text.replace_nil (w new : Text) : Text.replace w new [] = [] :=
  Pattern.rewrite_nil ..

theorem Text.replace_append {w : Text} (hw : w ≠ []) (new rest : Text) :
    Text.replace w new (w ++ rest) = new ++ Text.replace w new rest :=
  Pattern.rewrite_of_read ((Pattern.read_exact_eq_some_iff hw).mpr ⟨rfl, rfl⟩) _

theorem Text.replace_cons {w : Text} {c : Char} {t : Text} (h : ∀ rest, c :: t ≠ w ++ rest)
    (new : Text) : Text.replace w new (c :: t) = c :: Text.replace w new t :=
  Pattern.rewrite_of_not_read (Pattern.read_exact_eq_none h) _

theorem Text.replace_singleton (c : Char) (new t : Text) :
    Text.replace [c] new t = t.flatMap fun d => if d = c then new else [d] := by
  induction t with
  | nil => simp
  | cons d t ih =>
    rw [List.flatMap_cons, ← ih]
    by_cases hd : d = c
    · subst hd
      rw [if_pos rfl]
      exact Text.replace_append (List.cons_ne_nil d []) new t
    · have hne (rest : Text) : d :: t ≠ [c] ++ rest := by
        intro h
        exact hd (List.cons.inj h).1
      rw [if_neg hd, Text.replace_cons hne]
      rfl

namespace Pattern

/-! ## First characters -/

theorem begins_exact (c : Char) (w : Text) : (exact (c :: w)).Begins c := by
  intro d t hd
  simp [exact, afterExact, Ne.symm hd]

theorem begins_between {opener : Pattern α} {c : Char} (h : opener.Begins c)
    (allowed : Char → Bool) (closer : Pattern β) : (between opener allowed closer).Begins c := by
  intro d t hd
  simp [between, h d t hd]

theorem begins_filter {p : Pattern α} {c : Char} (h : p.Begins c) (holds : α → Bool) :
    (p.filter holds).Begins c := by
  intro d t hd
  simp [filter, h d t hd]

end TaskBulletin.Pattern
