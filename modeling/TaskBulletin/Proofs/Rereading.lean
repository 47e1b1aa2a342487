import TaskBulletin.Proofs.Reading

/-!
# Reading a part of a text again

A pattern is self-delimiting if a match is read as it is spelled, whatever follows it.
Such a pattern cuts the front of a text as it cut the text, and with another ending it
still does, unless a match begins in the front and goes on into the ending.
-/

namespace TaskBulletin.Pattern

variable {α : Type} {p : Pattern α}

/-- What the pattern reads depends only on how that is spelled. -/
def SelfDelimiting (p : Pattern α) : Prop :=
  ∀ {t a rest}, p.read t = some (a, rest) → ∀ u, p.read (p.spelling a ++ u) = some (a, u)

/-! ## The first piece -/

theorem pieces_eq_plain_cons {t : Text} {c : Char} {ps : List (Piece α)}
    (h : p.pieces t = .plain c :: ps) :
    ∃ cs, t = c :: cs ∧ p.read (c :: cs) = none ∧ p.pieces cs = ps := by
  cases t with
  | nil => simp at h
  | cons d cs =>
    cases hr : p.read (d :: cs) with
    | none =>
      rw [pieces_of_not_read p hr] at h
      obtain ⟨hd, rfl⟩ := List.cons.inj h
      obtain rfl := Piece.plain.inj hd
      exact ⟨cs, rfl, hr, rfl⟩
    | some r =>
      rw [pieces_of_read p hr] at h
      cases (List.cons.inj h).1

theorem pieces_eq_hit_cons {t : Text} {a : α} {ps : List (Piece α)}
    (h : p.pieces t = .hit a :: ps) :
    ∃ rest, p.read t = some (a, rest) ∧ p.pieces rest = ps := by
  cases t with
  | nil => simp at h
  | cons d cs =>
    cases hr : p.read (d :: cs) with
    | none =>
      rw [pieces_of_not_read p hr] at h
      cases (List.cons.inj h).1
    | some r =>
      obtain ⟨b, rest⟩ := r
      rw [pieces_of_read p hr] at h
      obtain ⟨hb, rfl⟩ := List.cons.inj h
      obtain rfl := Piece.hit.inj hb
      exact ⟨rest, rfl, rfl⟩

theorem pieces_suffix {t : Text} {ps qs : List (Piece α)} (h : p.pieces t = ps ++ qs) :
    p.pieces (writeWith p.spelling qs) = qs := by
  induction ps generalizing t with
  | nil =>
    have ht := p.writeWith_spelling_pieces t
    rw [h] at ht
    rwa [List.nil_append, ← ht] at h
  | cons piece ps ih =>
    cases piece with
    | plain c =>
      obtain ⟨cs, -, -, hcs⟩ := pieces_eq_plain_cons h
      exact ih hcs
    | hit a =>
      obtain ⟨rest, -, hrest⟩ := pieces_eq_hit_cons h
      exact ih hrest

/-! ## The front of a text -/

/-- A match that begins at a plain character of a front, with the pieces before and after
that character and the text that the match leaves. -/
structure Straddle (α : Type) where
  earlier : List (Piece α)
  first : Char
  later : List (Piece α)
  found : α
  rest : Text

/-- The match goes on into the ending, so that the front is read differently from the
plain character on. -/
structure Straddle.Across (s : Straddle α) (p : Pattern α) (front : List (Piece α))
    (ending : Text) : Prop where
  front_eq : front = s.earlier ++ .plain s.first :: s.later
  read_eq : p.read (s.first :: (writeWith p.spelling s.later ++ ending)) = some (s.found, s.rest)
  length_lt : (s.first :: writeWith p.spelling s.later).length < (p.spelling s.found).length
  pieces_eq :
    p.pieces (writeWith p.spelling front ++ ending) = s.earlier ++ .hit s.found :: p.pieces s.rest

/-- What holds of a front holds with a piece before it that is read as before. -/
theorem append_or_straddle_cons {piece : Piece α} {ps : List (Piece α)} {u : Text}
    (hstep : p.pieces (writeWith p.spelling (piece :: ps) ++ u) =
      piece :: p.pieces (writeWith p.spelling ps ++ u))
    (h : p.pieces (writeWith p.spelling ps ++ u) = ps ++ p.pieces u ∨
      ∃ s : Straddle α, s.Across p ps u) :
    p.pieces (writeWith p.spelling (piece :: ps) ++ u) = piece :: ps ++ p.pieces u ∨
      ∃ s : Straddle α, s.Across p (piece :: ps) u := by
  rcases h with h | ⟨s, hs⟩
  · exact .inl (by rw [hstep, h]; rfl)
  · refine .inr ⟨{ s with earlier := piece :: s.earlier }, ?_, hs.read_eq, hs.length_lt, ?_⟩
    · exact congrArg (piece :: ·) hs.front_eq
    · rw [hstep, hs.pieces_eq]
      rfl

/-- With another ending a front is read as before, or a match straddles its end. -/
theorem pieces_append_or_straddle (hp : p.SelfDelimiting) {t : Text} {ps qs : List (Piece α)}
    (h : p.pieces t = ps ++ qs) (u : Text) :
    p.pieces (writeWith p.spelling ps ++ u) = ps ++ p.pieces u ∨ ∃ s :
      Straddle α, s.Across p ps u := by
  induction ps generalizing t with
  | nil => exact .inl rfl
  | cons piece ps ih =>
    cases piece with
    | plain c =>
      obtain ⟨cs, -, hnone, hcs⟩ := pieces_eq_plain_cons h
      cases hr : p.read (c :: (writeWith p.spelling ps ++ u)) with
      | none => exact append_or_straddle_cons (pieces_of_not_read p hr) (ih hcs)
      | some r =>
        obtain ⟨a, rest⟩ := r
        refine .inr ⟨⟨[], c, ps, a, rest⟩, rfl, hr, ?_, pieces_of_read p hr⟩
        -- A match inside the front would have been read in the text as well.
        by_contra hle
        have hfront : p.spelling a ++ rest = (c :: writeWith p.spelling ps) ++ u :=
          (p.read_eq hr).symm
        obtain ⟨w, hw⟩ : p.spelling a <+: c :: writeWith p.spelling ps :=
          List.prefix_of_prefix_length_le ⟨rest, hfront⟩ ⟨u, rfl⟩ (Nat.not_lt.mp hle)
        have hcs' : writeWith p.spelling (ps ++ qs) = cs := by
          rw [← p.writeWith_spelling_pieces cs, hcs]
          rfl
        rw [writeWith_append] at hcs'
        have hread := hp hr (w ++ writeWith p.spelling qs)
        rw [← List.append_assoc, hw, List.cons_append, hcs', hnone] at hread
        cases hread
    | hit a =>
      obtain ⟨rest, hr, hrest⟩ := pieces_eq_hit_cons h
      have htext : writeWith p.spelling (.hit a :: ps) ++ u =
          p.spelling a ++ (writeWith p.spelling ps ++ u) := by
        rw [writeWith, List.append_assoc]
      refine append_or_straddle_cons ?_ (ih hrest)
      rw [htext, pieces_of_read p (hp hr _)]

theorem pieces_prefix (hp : p.SelfDelimiting) {t : Text} {ps qs : List (Piece α)}
    (h : p.pieces t = ps ++ qs) : p.pieces (writeWith p.spelling ps) = ps := by
  rcases pieces_append_or_straddle hp h [] with hcut | ⟨s, hs⟩
  · simpa using hcut
  · have hle := congrArg List.length (p.read_eq hs.read_eq)
    rw [List.append_nil, List.length_append] at hle
    have hlt := hs.length_lt
    omega

/-! ## Delimiters of one character -/

/-- A character, a stretch with content of allowed ones, and a character that is not allowed. -/
def delimited (o : Char) (allowed : Char → Bool) (c : Char) : Pattern (Span Text Text) :=
  (between (exact [o]) allowed (exact [c])).filter fun s => !s.content.isEmpty

section

variable {o c : Char} {allowed : Char → Bool}

theorem readTo_exact_eq_some_iff (hc : allowed c = false) {t content b rest : Text} :
    readTo allowed (exact [c]) t = some (content, b, rest) ↔
      b = [c] ∧ (∀ d ∈ content, allowed d = true) ∧ t = content ++ c :: rest := by
  constructor
  · intro h
    obtain ⟨v, -, hv⟩ := exists_read_of_readTo h
    obtain ⟨rfl, -⟩ := (read_exact_eq_some_iff (by simp)).mp hv
    refine ⟨rfl, readTo_allowed h, ?_⟩
    rw [readTo_eq_append h, List.append_assoc]
    rfl
  · rintro ⟨rfl, ha, rfl⟩
    have hsilent : (exact [c]).Silent content := by
      apply (begins_exact c []).silent
      intro hm
      rw [ha c hm] at hc
      cases hc
    have hend : (exact [c]).read (c :: rest) = some ([c], rest) :=
      (read_exact_eq_some_iff (by simp)).mpr ⟨rfl, rfl⟩
    rw [readTo_append_of_silent hsilent ha, readTo_of_read hend]
    simp

theorem read_delimited_eq_some_iff (hc : allowed c = false) {t rest : Text} {s : Span Text Text} :
    (delimited o allowed c).read t = some (s, rest) ↔
      s.opener = [o] ∧ s.closer = [c] ∧ s.content ≠ [] ∧ (∀ d ∈ s.content, allowed d = true) ∧
        t = o :: (s.content ++ c :: rest) := by
  rw [delimited, read_filter_eq_some_iff, read_between_eq_some_iff]
  constructor
  · rintro ⟨⟨u, hopen, hu⟩, hne⟩
    obtain ⟨ho, rfl⟩ := (read_exact_eq_some_iff (by simp)).mp hopen
    obtain ⟨hb, ha, rfl⟩ := (readTo_exact_eq_some_iff hc).mp hu
    exact ⟨ho, hb, by simpa using hne, ha, rfl⟩
  · rintro ⟨ho, hb, hne, ha, rfl⟩
    have hopen : (exact [o]).read (o :: (s.content ++ c :: rest)) =
        some (s.opener, s.content ++ c :: rest) :=
      (read_exact_eq_some_iff (by simp)).mpr ⟨ho, rfl⟩
    exact ⟨⟨_, hopen, (readTo_exact_eq_some_iff hc).mpr ⟨hb, ha, rfl⟩⟩, by simpa using hne⟩

theorem spelling_delimited {s : Span Text Text} (ho : s.opener = [o]) (hb : s.closer = [c]) :
    (delimited o allowed c).spelling s = o :: (s.content ++ [c]) := by
  change s.opener ++ s.content ++ s.closer = _
  rw [ho, hb]
  simp

theorem selfDelimiting_delimited (hc : allowed c = false) :
    (delimited o allowed c).SelfDelimiting := by
  intro t s rest h u
  obtain ⟨ho, hb, hne, ha, -⟩ := (read_delimited_eq_some_iff hc).mp h
  rw [spelling_delimited ho hb, read_delimited_eq_some_iff hc]
  exact ⟨ho, hb, hne, ha, by simp⟩

/-- A match that straddles the end of a front takes a stretch of the ending and its closer. -/
theorem Straddle.Across.exists_ending (hc : allowed c = false) {s : Straddle (Span Text Text)}
    {front : List (Piece (Span Text Text))} {u : Text}
    (h : s.Across (delimited o allowed c) front u) :
    s.first = o ∧
      ∃ w, (∀ d ∈ writeWith (delimited o allowed c).spelling s.later ++ w, allowed d = true) ∧
      u = w ++ c :: s.rest := by
  obtain ⟨ho, hb, -, ha, ht⟩ := (read_delimited_eq_some_iff hc).mp h.read_eq
  obtain ⟨hfirst, ht⟩ := List.cons.inj ht
  have hlt := h.length_lt
  rw [spelling_delimited ho hb, List.length_cons, List.length_cons, List.length_append,
    List.length_singleton] at hlt
  obtain ⟨w, hw⟩ : writeWith (delimited o allowed c).spelling s.later <+: s.found.content :=
    List.prefix_of_prefix_length_le ⟨u, ht⟩ ⟨c :: s.rest, rfl⟩ (by omega)
  refine ⟨hfirst, w, by rwa [hw], ?_⟩
  rw [← hw, List.append_assoc] at ht
  exact List.append_cancel_left ht

theorem begins_delimited (o : Char) (allowed : Char → Bool) (c : Char) :
    (delimited o allowed c).Begins o :=
  begins_filter (begins_between (begins_exact o []) _ _) _

end

end TaskBulletin.Pattern
