import TaskBulletin.Proofs.Nesting

/-!
# Where an excerpt is cut

A cut falls between two pieces of a text, so in no tag, and between two tokens of a run
of text, so in no entity. A text that shows more than the budget is cut behind as many
tokens as the budget counts, run by run, and in front of a further token, so that the
tags behind the last token are kept. The excerpt is what stands before the cut, without
its blanks at the end, then the ellipsis, then closing tags for the open elements.
-/

namespace TaskBulletin

namespace Pattern

variable {α : Type}

/-- The run of plain characters in front of the first match. -/
def firstRun (ps : List (Piece α)) : Text := (runsOf ps).headD []

def lastRun (ps : List (Piece α)) : Text := (runsOf ps).getLastD []

theorem runsOf_map_plain (t : Text) : runsOf (t.map .plain : List (Piece α)) = [t] := by
  simpa [runsOf] using @runsOf_map_plain_append α t []

theorem runsOf_map_plain_hit (t : Text) (a : α) (ps : List (Piece α)) :
    runsOf (t.map .plain ++ .hit a :: ps) = t :: runsOf ps := by
  simp [runsOf_map_plain_append, runsOf]

@[simp] theorem firstRun_nil : firstRun ([] : List (Piece α)) = [] := rfl

@[simp] theorem firstRun_hit (a : α) (ps : List (Piece α)) : firstRun (.hit a :: ps) = [] := rfl

theorem firstRun_map_plain_append (t : Text) (ps : List (Piece α)) :
    firstRun (t.map .plain ++ ps) = t ++ firstRun ps := by
  rw [firstRun, runsOf_map_plain_append, firstRun]
  cases h : runsOf ps with
  | nil => exact absurd h (runsOf_ne_nil ps)
  | cons run runs => rfl

theorem lastRun_map_plain (t : Text) : lastRun (t.map .plain : List (Piece α)) = t := by
  rw [lastRun, runsOf_map_plain]
  rfl

theorem lastRun_map_plain_hit (t : Text) (a : α) (ps : List (Piece α)) :
    lastRun (t.map .plain ++ .hit a :: ps) = lastRun ps := by
  rw [lastRun, runsOf_map_plain_hit, lastRun]
  cases h : runsOf ps with
  | nil => exact absurd h (runsOf_ne_nil ps)
  | cons run runs => rfl

end Pattern

namespace Html

open Pattern

/-- The tokens in the runs of text between tags, counted run by run. -/
def sizeByRun (ps : List (Piece (Span Text Text))) : Nat :=
  ((runsOf ps).map fun run => (tokens run).length).sum

/-- The place between these pieces lies in no entity of the run of text around it. -/
def OutsideEntities (before after : List (Piece (Span Text Text))) : Prop :=
  ∃ us vs, entity.pieces (lastRun before ++ firstRun after) = us ++ vs ∧
    writeWith entity.spelling us = lastRun before ∧ writeWith entity.spelling vs = firstRun after

/-- A place in a text that lies in no tag and in no entity. -/
structure Cut (t : Text) where
  before : List (Piece (Span Text Text))
  after : List (Piece (Span Text Text))
  pieces_eq : tag.pieces t = before ++ after
  outsideEntities : OutsideEntities before after

namespace Cut

variable {t : Text} (cut : Cut t)

def kept : Text := writeWith tag.spelling cut.before

def dropped : Text := writeWith tag.spelling cut.after

def size : Nat := sizeByRun cut.before

/-- The elements that are open at the cut, innermost first. -/
def opened : List Text := openAfterAll [] (rolesOf cut.before)

/-- The ellipsis, and closing tags for the open elements. -/
def ending : Text := ellipsis :: (cut.opened.map closingTag).flatten

theorem kept_append_dropped : cut.kept ++ cut.dropped = t := by
  rw [kept, dropped, ← writeWith_append, ← cut.pieces_eq, writeWith_spelling_pieces]

theorem isName_opened : ∀ name ∈ cut.opened, IsName name :=
  isName_of_mem_open fun _ h => absurd h List.not_mem_nil

end Cut

/-! ## Counting run by run -/

theorem sizeByRun_map_plain (t : Text) : sizeByRun (t.map .plain) = (tokens t).length := by
  rw [sizeByRun, runsOf_map_plain]
  simp

theorem sizeByRun_map_plain_hit (t : Text) (s : Span Text Text)
    (ps : List (Piece (Span Text Text))) :
    sizeByRun (t.map .plain ++ .hit s :: ps) = (tokens t).length + sizeByRun ps := by
  rw [sizeByRun, runsOf_map_plain_hit]
  simp [sizeByRun]

/-- Counting run by run finds at least the tokens of the runs together. -/
theorem length_tokens_plainText_le (ps : List (Piece (Span Text Text))) :
    (tokens (plainText ps)).length ≤ sizeByRun ps := by
  rw [← flatten_runsOf]
  exact length_tokens_flatten_le _

theorem visibleSize_le_sizeByRun (t : Text) : visibleSize t ≤ sizeByRun (tag.pieces t) :=
  length_tokens_plainText_le (tag.pieces t)

/-! ## Items -/

namespace Item

def text : Item → Text
  | tag spelled _ => spelled
  | token spelled => spelled

def role? : Item → Option TagRole
  | tag _ role => some role
  | token _ => none

def isToken : Item → Bool
  | tag _ _ => false
  | token _ => true

end Item

/-- The first token that a budget does not reach, with the items around it. -/
theorem keep_cases (budget : Nat) (opened : List Text) (is : List Item) :
    (∃ front s back, is = front ++ .token s :: back ∧ front.countP Item.isToken = budget ∧
      keep budget opened is =
        ⟨front.flatMap Item.text, some (openAfterAll opened (front.filterMap Item.role?))⟩) ∨
    is.countP Item.isToken ≤ budget := by
  induction is generalizing budget opened with
  | nil => exact .inr (Nat.zero_le _)
  | cons item is ih =>
    cases item with
    | tag spelled role =>
      rcases ih budget (openAfter opened role) with ⟨front, s, back, rfl, hcount, hkeep⟩ | h
      · refine .inl ⟨.tag spelled role :: front, s, back, rfl, hcount, ?_⟩
        rw [keep, hkeep]
        rfl
      · exact .inr h
    | token spelled =>
      cases budget with
      | zero => exact .inl ⟨[], spelled, is, rfl, rfl, rfl⟩
      | succ budget =>
        rcases ih budget opened with ⟨front, s, back, rfl, hcount, hkeep⟩ | h
        · refine .inl ⟨.token spelled :: front, s, back, rfl, ?_, ?_⟩
          · rw [List.countP_cons_of_pos rfl, hcount]
          · rw [keep, hkeep]
            rfl
        · refine .inr ?_
          rw [List.countP_cons_of_pos rfl]
          exact Nat.succ_le_succ h

theorem countP_map_token (ts : List Text) :
    (ts.map Item.token).countP Item.isToken = ts.length := by
  induction ts with
  | nil => rfl
  | cons t ts ih => rw [List.map_cons, List.countP_cons_of_pos rfl, ih, List.length_cons]

theorem flatMap_map_token (ts : List Text) :
    (ts.map Item.token).flatMap Item.text = ts.flatten := by
  induction ts with
  | nil => rfl
  | cons t ts ih =>
    rw [List.map_cons, List.flatMap_cons, ih]
    rfl

theorem filterMap_map_token (ts : List Text) : (ts.map Item.token).filterMap Item.role? = [] := by
  induction ts with
  | nil => rfl
  | cons t ts ih => exact ih

theorem countP_itemsFrom (run : Text) (ps : List (Piece (Span Text Text))) :
    (itemsFrom run ps).countP Item.isToken = sizeByRun (run.map .plain ++ ps) := by
  induction ps generalizing run with
  | nil => rw [itemsFrom, countP_map_token, List.append_nil, sizeByRun_map_plain]
  | cons piece ps ih =>
    cases piece with
    | plain c => rw [itemsFrom, ih, List.map_append, List.append_assoc]; rfl
    | hit s =>
      have htag : Item.isToken (.tag (tag.spelling s) (tagRole s.content)) = false := rfl
      rw [itemsFrom, List.countP_append, countP_map_token, List.countP_cons_of_neg (by simp [htag]),
        ih, sizeByRun_map_plain_hit]
      rfl

/-! ## From items to pieces -/

/-- A cut of pieces with what stands before it, and text behind it. -/
structure CutsAt (ps before after : List (Piece (Span Text Text))) (front : List Item) : Prop where
  pieces_eq : ps = before ++ after
  outsideEntities : OutsideEntities before after
  text_eq : writeWith tag.spelling before = front.flatMap Item.text
  size_eq : sizeByRun before = front.countP Item.isToken
  roles_eq : rolesOf before = front.filterMap Item.role?
  text_follows : firstRun after ≠ []

theorem cutsAt_of_tokens {run : Text} {ts us : List Text} (h : tokens run = ts ++ us)
    (hne : us ≠ []) {ps : List (Piece (Span Text Text))} (hps : firstRun ps = []) :
    CutsAt (run.map .plain ++ ps) (ts.flatten.map .plain) (us.flatten.map .plain ++ ps)
      (ts.map .token) := by
  obtain ⟨es, fs, hp, hes, hfs, hts, hus⟩ := exists_pieces_of_tokens h
  have hrun : ts.flatten ++ us.flatten = run := by
    rw [← List.flatten_append, ← h, flatten_tokens]
  have hfirst : firstRun (us.flatten.map .plain ++ ps) = us.flatten := by
    rw [firstRun_map_plain_append, hps, List.append_nil]
  refine ⟨?_, ⟨es, fs, ?_, ?_, ?_⟩, ?_, ?_, ?_, ?_⟩
  · rw [← hrun, List.map_append, List.append_assoc]
  · rw [lastRun_map_plain, hfirst, hrun, hp]
  · rw [lastRun_map_plain, hes]
  · rw [hfirst, hfs]
  · rw [writeWith_map_plain, flatMap_map_token]
  · rw [sizeByRun_map_plain, hts, countP_map_token]
  · rw [rolesOf_map_plain, filterMap_map_token]
  · rw [hfirst]
    intro hnil
    rw [hnil, tokens_nil] at hus
    exact hne hus.symm

theorem CutsAt.cons {ps before after : List (Piece (Span Text Text))} {front : List Item}
    (h : CutsAt ps before after front) (run : Text) (s : Span Text Text) :
    CutsAt (run.map .plain ++ .hit s :: ps) (run.map .plain ++ .hit s :: before) after
      ((tokens run).map .token ++ .tag (tag.spelling s) (tagRole s.content) :: front) := by
  have htag : Item.isToken (.tag (tag.spelling s) (tagRole s.content)) = false := rfl
  refine ⟨?_, ?_, ?_, ?_, ?_, h.text_follows⟩
  · rw [h.pieces_eq, List.append_assoc]
    rfl
  · obtain ⟨us, vs, hp, hus, hvs⟩ := h.outsideEntities
    exact ⟨us, vs, by rw [lastRun_map_plain_hit, hp], by rw [lastRun_map_plain_hit, hus], hvs⟩
  · rw [writeWith_append, writeWith_map_plain, writeWith, h.text_eq, List.flatMap_append,
      flatMap_map_token, flatten_tokens]
    rfl
  · rw [sizeByRun_map_plain_hit, h.size_eq, List.countP_append, countP_map_token,
      List.countP_cons_of_neg (by simp [htag])]
  · rw [rolesOf_append, rolesOf_map_plain, rolesOf_hit, h.roles_eq, List.filterMap_append,
      filterMap_map_token]
    rfl

theorem exists_cutsAt_of_run {run : Text} {front more : List Item} {s : Text}
    (h : (tokens run).map .token = front ++ .token s :: more) {ps : List (Piece (Span Text Text))}
    (hps : firstRun ps = []) :
    ∃ before after, CutsAt (run.map .plain ++ ps) before after front := by
  obtain ⟨ts, us, ht, rfl, hus⟩ := List.map_eq_append_iff.mp h
  have hne : us ≠ [] := by
    rintro rfl
    cases hus
  exact ⟨_, _, cutsAt_of_tokens ht hne hps⟩

theorem exists_cutsAt {run : Text} {ps : List (Piece (Span Text Text))} {front : List Item}
    {s : Text} {back : List Item} (h : itemsFrom run ps = front ++ .token s :: back) :
    ∃ before after, CutsAt (run.map .plain ++ ps) before after front := by
  induction ps generalizing run front with
  | nil => exact exists_cutsAt_of_run h firstRun_nil
  | cons piece ps ih =>
    cases piece with
    | plain c =>
      have hrun : (run ++ [c]).map .plain ++ ps = run.map .plain ++ .plain c :: ps := by simp
      rw [← hrun]
      exact ih h
    | hit a =>
      rw [itemsFrom] at h
      -- The token stands behind the tag, or in the run before it.
      rcases List.append_eq_append_iff.mp h with ⟨x, rfl, hx⟩ | ⟨x, hrun, hx⟩
      · cases x with
        | nil => cases (List.cons.inj hx).1
        | cons item x =>
          obtain ⟨rfl, hrest⟩ := List.cons.inj hx
          obtain ⟨before, after, hcut⟩ := ih hrest
          exact ⟨_, _, hcut.cons run a⟩
      · cases x with
        | nil => cases (List.cons.inj hx).1
        | cons item x =>
          obtain ⟨rfl, -⟩ := List.cons.inj hx
          exact exists_cutsAt_of_run hrun (firstRun_hit a ps)

/-- A text with more tokens than the budget counts, run by run, is cut behind as many. -/
theorem exists_cut_of_lt {t : Text} {budget : Nat} (h : budget < sizeByRun (tag.pieces t)) :
    ∃ cut : Cut t, cut.size = budget ∧ firstRun cut.after ≠ [] ∧
      keep budget [] (items t) = ⟨cut.kept, some cut.opened⟩ := by
  rcases keep_cases budget [] (items t) with ⟨front, s, back, his, hcount, hkeep⟩ | hle
  · obtain ⟨before, after, hcut⟩ := exists_cutsAt his
    refine ⟨⟨before, after, hcut.pieces_eq, hcut.outsideEntities⟩, ?_, hcut.text_follows, ?_⟩
    · exact hcut.size_eq.trans hcount
    · rw [hkeep, Cut.kept, Cut.opened, hcut.text_eq, hcut.roles_eq]
  · have hsize : (items t).countP Item.isToken = sizeByRun (tag.pieces t) := countP_itemsFrom [] _
    omega

theorem exists_excerpt_eq {n : Int} {t : Text} (hn : 1 ≤ n) (hlong : n < visibleSize t) :
    ∃ cut : Cut t, cut.size = n ∧ firstRun cut.after ≠ [] ∧
      keep n.toNat [] (items t) = ⟨cut.kept, some cut.opened⟩ ∧
      excerpt n t = Text.trimEnd cut.kept ++ cut.ending := by
  have hsize : n.toNat < sizeByRun (tag.pieces t) := by
    have := visibleSize_le_sizeByRun t
    omega
  obtain ⟨cut, hcount, hnext, hkeep⟩ := exists_cut_of_lt hsize
  refine ⟨cut, by omega, hnext, hkeep, ?_⟩
  rw [excerpt, if_neg (by omega), if_neg (by omega)]
  simp only [hkeep, Cut.ending]

/-- An excerpt of a text that shows more than the budget is what stands before a cut, the
ellipsis, and closing tags for the elements open at the cut, innermost first. The cut lies
in no tag and in no entity, behind as many tokens as the budget counts run by run, and in
front of a further token of text. -/
theorem excerpt_eq_cut {n : Int} {t : Text} (hn : 1 ≤ n) (hlong : n < visibleSize t) :
    ∃ cut : Cut t,
      t = cut.kept ++ cut.dropped ∧ cut.size = n ∧ firstRun cut.after ≠ [] ∧
        keep n.toNat [] (items t) = ⟨cut.kept, some cut.opened⟩ ∧
        excerpt n t =
          Text.trimEnd cut.kept ++ ellipsis :: (cut.opened.map closingTag).flatten := by
  obtain ⟨cut, hsize, hnext, hkeep, he⟩ := exists_excerpt_eq hn hlong
  exact ⟨cut, cut.kept_append_dropped.symm, hsize, hnext, hkeep, he⟩

theorem excerpt_eq_cut_tagAfterToken :
    (1 : Int) ≤ 2 ∧ (2 : Int) < visibleSize "<B>a&amp;</i> <br>c".toList ∧
      ∃ cut : Cut "<B>a&amp;</i> <br>c".toList,
        "<B>a&amp;</i> <br>c".toList = cut.kept ++ cut.dropped ∧ cut.size = (2 : Int) ∧
          firstRun cut.after ≠ [] ∧
          keep (2 : Int).toNat [] (items "<B>a&amp;</i> <br>c".toList) =
            ⟨cut.kept, some cut.opened⟩ ∧
          excerpt 2 "<B>a&amp;</i> <br>c".toList =
            Text.trimEnd cut.kept ++ ellipsis :: (cut.opened.map closingTag).flatten := by
  have hlong : (2 : Int) < visibleSize "<B>a&amp;</i> <br>c".toList := by decide +kernel
  exact ⟨by decide, hlong, excerpt_eq_cut (by decide) hlong⟩

example : excerpt 2 "<B>a&amp;</i> <br>c".toList = "<B>a&amp;</i>…</b>".toList := by decide +kernel

end Html

end TaskBulletin
