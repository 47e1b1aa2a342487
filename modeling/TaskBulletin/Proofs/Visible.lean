import TaskBulletin.Html.Excerpt
import TaskBulletin.Proofs.Rereading
import Mathlib.Algebra.Order.BigOperators.Group.List

/-!
# Visible tokens of concatenations

Tags and entities are delimited by a character on each side. A text that is cut between
two tokens has the tokens of its parts; in general a concatenation has no more tokens
than its parts together, as an entity may come about where two of them meet, but no
token is lost. No entity reaches over a character that may not stand in one.
-/

namespace TaskBulletin

namespace Pattern

variable {α : Type}

def plainText (ps : List (Piece α)) : Text := writeWith (fun _ => []) ps

@[simp] theorem plainText_nil : plainText ([] : List (Piece α)) = [] := rfl

@[simp] theorem plainText_plain (c : Char) (ps : List (Piece α)) :
    plainText (.plain c :: ps) = c :: plainText ps := rfl

@[simp] theorem plainText_hit (a : α) (ps : List (Piece α)) :
    plainText (.hit a :: ps) = plainText ps := rfl

@[simp] theorem plainText_append (ps qs : List (Piece α)) :
    plainText (ps ++ qs) = plainText ps ++ plainText qs := writeWith_append ..

@[simp] theorem plainText_map_plain (t : Text) :
    plainText (t.map .plain : List (Piece α)) = t := writeWith_map_plain ..

theorem plainText_map_hit {β : Type} (bs : List β) (f : β → α) :
    plainText (bs.map fun b => .hit (f b)) = [] := by
  induction bs with
  | nil => rfl
  | cons b bs ih => exact ih

theorem flatten_runsOf (ps : List (Piece α)) : (runsOf ps).flatten = plainText ps := by
  induction ps with
  | nil => rfl
  | cons piece ps ih =>
    cases piece with
    | hit a =>
      rw [runsOf, List.flatten_cons, ih]
      rfl
    | plain c =>
      rw [plainText_plain, ← ih, runsOf]
      cases hr : runsOf ps with
      | nil => exact absurd hr (runsOf_ne_nil ps)
      | cons run runs => rfl

end Pattern

namespace Html

open Pattern

/-! ## Tags and entities -/

section

variable {t u rest : Text} {s : Span Text Text} {ps : List (Piece (Span Text Text))}
  {across : Straddle (Span Text Text)}

theorem begins_tag : tag.Begins '<' := begins_delimited '<' (· != '>') '>'

theorem selfDelimiting_tag : tag.SelfDelimiting :=
  @selfDelimiting_delimited '<' '>' (· != '>') rfl

theorem read_tag_eq_some_iff : tag.read t = some (s, rest) ↔
    s.opener = ['<'] ∧ s.closer = ['>'] ∧ s.content ≠ [] ∧ (∀ d ∈ s.content, (d != '>') = true) ∧
      t = '<' :: (s.content ++ '>' :: rest) :=
  @read_delimited_eq_some_iff '<' '>' (· != '>') rfl t rest s

theorem exists_tag_ending (h : across.Across tag ps u) :
    across.first = '<' ∧ ∃ w, (∀ d ∈ writeWith tag.spelling across.later ++ w, (d != '>') = true) ∧
      u = w ++ '>' :: across.rest :=
  @Straddle.Across.exists_ending '<' '>' (· != '>') rfl across ps u h

theorem begins_entity : entity.Begins '&' := begins_delimited '&' isEntityCharacter ';'

theorem selfDelimiting_entity : entity.SelfDelimiting :=
  @selfDelimiting_delimited '&' ';' isEntityCharacter rfl

theorem exists_entity_ending (h : across.Across entity ps u) :
    ∃ w, (∀ d ∈ writeWith entity.spelling across.later ++ w, isEntityCharacter d = true) ∧
      u = w ++ ';' :: across.rest :=
  (@Straddle.Across.exists_ending '&' ';' isEntityCharacter rfl across ps u h).2

end

/-! ## Cutting between tokens -/

theorem length_tokens (t : Text) : (tokens t).length = (entity.pieces t).length :=
    List.length_map ..

@[simp] theorem tokens_nil : tokens [] = [] := by
  rw [tokens, pieces_nil]
  rfl

theorem flatten_tokens (t : Text) : (tokens t).flatten = t := by
  conv_rhs => rw [← entity.writeWith_spelling_pieces t]
  rw [tokens]
  induction entity.pieces t with
  | nil => rfl
  | cons piece ps ih =>
    cases piece <;>
      · rw [List.map_cons, List.flatten_cons, ih]
        rfl

/-- Between two tokens a text falls into two, each with its own tokens. -/
theorem exists_pieces_of_tokens {t : Text} {ts us : List Text} (h : tokens t = ts ++ us) :
    ∃ ps qs, entity.pieces t = ps ++ qs ∧ writeWith entity.spelling ps = ts.flatten ∧
      writeWith entity.spelling qs = us.flatten ∧ tokens ts.flatten = ts ∧
        tokens us.flatten = us := by
  obtain ⟨ps, qs, hp, hts, hus⟩ := List.map_eq_append_iff.mp h
  have hfront : tokens (writeWith entity.spelling ps) = ts := by
    rw [tokens, pieces_prefix selfDelimiting_entity hp, hts]
  have hback : tokens (writeWith entity.spelling qs) = us := by
    rw [tokens, pieces_suffix hp, hus]
  have hts' : writeWith entity.spelling ps = ts.flatten := by rw [← hfront, flatten_tokens]
  have hus' : writeWith entity.spelling qs = us.flatten := by rw [← hback, flatten_tokens]
  exact ⟨ps, qs, hp, hts', hus', hts' ▸ hfront, hus' ▸ hback⟩

/-! ## Concatenation -/

theorem length_tokens_append_le (t u : Text) :
    (tokens (t ++ u)).length ≤ (tokens t).length + (tokens u).length := by
  have ht := entity.writeWith_spelling_pieces t
  have hwhole : entity.pieces t = entity.pieces t ++ [] := (List.append_nil _).symm
  simp only [length_tokens]
  rcases pieces_append_or_straddle selfDelimiting_entity hwhole u with h | ⟨s, h⟩
  · rw [ht] at h
    rw [h, List.length_append]
  · -- The characters of the second text that the straddling entity takes were tokens.
    obtain ⟨w, hw, hu⟩ := exists_entity_ending h
    have hamp : '&' ∉ w ++ [';'] := by
      rw [List.mem_append, not_or]
      refine ⟨fun hm => ?_, by decide⟩
      have := hw '&' (List.mem_append_right _ hm)
      revert this
      decide
    have hlast : entity.pieces u = (w ++ [';']).map .plain ++ entity.pieces s.rest := by
      rw [← pieces_append_of_silent (begins_entity.silent hamp), hu, List.append_assoc]
      rfl
    have hpieces := h.pieces_eq
    rw [ht] at hpieces
    rw [hpieces, hlast]
    conv_rhs => rw [h.front_eq]
    simp only [List.length_append, List.length_cons, List.length_map]
    omega

theorem length_tokens_flatten_le (ts : List Text) :
    (tokens ts.flatten).length ≤ (ts.map fun t => (tokens t).length).sum := by
  induction ts with
  | nil => simp
  | cons t ts ih =>
    calc (tokens (t :: ts).flatten).length
        ≤ (tokens t).length + (tokens ts.flatten).length := length_tokens_append_le ..
      _ ≤ (tokens t).length + (ts.map fun t => (tokens t).length).sum := Nat.add_le_add_left ih _

/-- A character that no entity has after its ampersand. -/
structure Breaks (c : Char) : Prop where
  name : isEntityCharacter c = false
  stop : c ≠ ';'

theorem isAlphanum_iff {c : Char} : c.isAlphanum = true ↔
    ((65 ≤ c.toNat ∧ c.toNat ≤ 90) ∨ (97 ≤ c.toNat ∧ c.toNat ≤ 122)) ∨
      (48 ≤ c.toNat ∧ c.toNat ≤ 57) := by
  change ((decide (65 ≤ c.val ∧ c.val ≤ 90) || (decide (97 ≤ c.val) && decide (c.val ≤ 122))) ||
    (decide (48 ≤ c.val) && decide (c.val ≤ 57))) = true ↔ _
  simp only [Bool.or_eq_true, Bool.and_eq_true, decide_eq_true_eq, UInt32.le_iff_toNat_le]
  exact Iff.rfl

theorem not_isBlank_of_isEntityCharacter {c : Char} (h : isEntityCharacter c = true) :
    Text.isBlank c = false := by
  have hn : 33 ≤ c.toNat ∧ c.toNat ≤ 122 := by
    rw [isEntityCharacter, Bool.or_eq_true, isAlphanum_iff, beq_iff_eq] at h
    rcases h with h | rfl
    · omega
    · decide
  simp only [Text.isBlank, Bool.or_eq_false_iff, Bool.and_eq_false_iff, decide_eq_false_iff_not,
    beq_eq_false_iff_ne]
  omega

theorem breaks_of_isBlank {c : Char} (h : Text.isBlank c = true) : Breaks c where
  name := by
    cases hc : isEntityCharacter c with
    | false => rfl
    | true =>
      rw [not_isBlank_of_isEntityCharacter hc] at h
      cases h
  stop := by
    rintro rfl
    revert h
    decide

/-- The tokens before such a character are the tokens of the text before it. -/
theorem tokens_append_of_breaks {c : Char} (hc : Breaks c) (t u : Text) :
    tokens (t ++ c :: u) = tokens t ++ tokens (c :: u) := by
  have ht := entity.writeWith_spelling_pieces t
  have hwhole : entity.pieces t = entity.pieces t ++ [] := (List.append_nil _).symm
  rcases pieces_append_or_straddle selfDelimiting_entity hwhole (c :: u) with h | ⟨s, h⟩
  · rw [ht] at h
    rw [tokens, h, List.map_append]
    rfl
  · obtain ⟨w, hw, hu⟩ := exists_entity_ending h
    cases w with
    | nil => exact absurd (List.cons.inj hu).1 hc.stop
    | cons d w =>
      obtain ⟨rfl, -⟩ := List.cons.inj hu
      have := hw c (List.mem_append_right _ (List.mem_cons_self ..))
      rw [hc.name] at this
      cases this

theorem length_tokens_le_of_breaks {c : Char} (hc : Breaks c) (t u : Text) :
    (tokens t).length ≤ (tokens (t ++ c :: u)).length := by
  rw [tokens_append_of_breaks hc, List.length_append]
  exact Nat.le_add_right ..

theorem tokens_singleton {c : Char} (hc : c ≠ '&') : tokens [c] = [[c]] := by
  rw [tokens, pieces_of_not_read _ (begins_entity c [] hc), pieces_nil]
  rfl

end Html

end TaskBulletin
