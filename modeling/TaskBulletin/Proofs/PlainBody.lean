import TaskBulletin.Body
import TaskBulletin.Proofs.Cut
import TaskBulletin.Proofs.Meaning
import TaskBulletin.Proofs.RecodedPasses
import TaskBulletin.Proofs.ReferenceMeaning

/-!
# Bodies without markup

Without an opening bracket there is nothing to look up and nothing to rewrite. Escaping
keeps blanks and line ends, so a plain body is converted to its text in normal spacing,
escaped; and a character is one visible token of the escaped text, also where the text
looks like an entity or a tag. So a cut after some tokens is a cut after as many
characters of the text.
-/

namespace TaskBulletin

open Pattern Recoding

namespace Html

theorem escape_eq_nil_iff {t : Text} : escape t = [] ↔ t = [] := by
  cases t with
  | nil => simp
  | cons c t =>
    rcases escapeChar_cases c with ⟨-, h⟩ | ⟨-, _, -, h⟩ <;> simp [escape_cons, h]

/-! ## Escaping as a recoding -/

/-- Escaping writes an entity for each of three characters. -/
def escapeCode : Recoding where
  code := escapeChar
  known _ := True
  known_of_not_quiet _ := trivial
  same_or_quiet {c} _ := by
    rcases escapeChar_cases c with ⟨-, h⟩ | ⟨hc, name, hn, h⟩
    · exact .inl h
    · have hquiet : ∀ c ∈ ['&', '<', '>'], isQuiet c = true := by decide
      have htail : ∀ name ∈ entityNames, ∀ e ∈ name ++ [';'], e ∈ codeTail := by decide
      exact .inr ⟨hquiet c hc, '&', name ++ [';'], h, rfl, htail name hn⟩
  isBlank_code {c} _ d hd := by
    rcases escapeChar_cases c with ⟨-, h⟩ | ⟨hc, name, hn, h⟩
    · rw [h, List.mem_singleton] at hd
      rw [hd]
    · have hblank : ∀ c ∈ ['&', '<', '>'], Text.isBlank c = false := by decide
      have hname : ∀ name ∈ entityNames, ∀ d ∈ '&' :: (name ++ [';']), Text.isBlank d = false := by
        decide
      rw [h] at hd
      rw [hblank c hc, hname name hn d hd]

theorem sparesLineEnds_escapeCode : escapeCode.SparesLineEnds where
  known _ := trivial
  code_lineEnd := by decide
  notMem_code x hx c hc := by
    change x ∉ escapeChar c
    rcases escapeChar_cases c with ⟨-, h⟩ | ⟨-, name, hn, h⟩
    · rw [h, List.mem_singleton]
      exact Ne.symm hc
    · have hname : ∀ name ∈ entityNames, ∀ x ∈ ['\r', '\n'], x ∉ '&' :: (name ++ [';']) := by decide
      rw [h]
      exact hname name hn x hx

theorem trimEnd_escape (t : Text) : Text.trimEnd (escape t) = escape (Text.trimEnd t) :=
  Text.trimEnd_recode (R := escapeCode) fun _ _ => trivial

theorem normalizeSpacing_escape (t : Text) :
    Text.normalizeSpacing (escape t) = escape (Text.normalizeSpacing t) :=
  Text.normalizeSpacing_recode sparesLineEnds_escapeCode t

/-! ## The tokens of an escaped text -/

theorem tokens_escapeChar_append (c : Char) (t : Text) :
    tokens (escapeChar c ++ t) = escapeChar c :: tokens t := by
  rcases escapeChar_cases c with ⟨hc, h⟩ | ⟨-, name, hn, h⟩
  · have hne : c ≠ '&' := by
      rintro rfl
      exact hc (by decide)
    rw [h, tokens, List.singleton_append, pieces_of_not_read _ (begins_entity c t hne)]
    rfl
  · have hname : ∀ name ∈ entityNames, name ≠ [] ∧ ∀ d ∈ name, isEntityCharacter d = true := by
      decide
    have hread : entity.read ('&' :: (name ++ ';' :: t)) = some (⟨['&'], name, [';']⟩, t) :=
      (read_delimited_eq_some_iff rfl).mpr ⟨rfl, rfl, (hname name hn).1, (hname name hn).2, rfl⟩
    have htext : escapeChar c ++ t = '&' :: (name ++ ';' :: t) := by
      rw [h]
      simp
    rw [htext, tokens, pieces_of_read _ hread, h]
    rfl

theorem tokens_escape (t : Text) : tokens (escape t) = t.map escapeChar := by
  induction t with
  | nil => rw [escape_nil, tokens_nil, List.map_nil]
  | cons c t ih => rw [escape_cons, tokens_escapeChar_append, ih, List.map_cons]

/-! ## Excerpts of texts without tags -/

theorem keep_map_token (budget : Nat) (opened : List Text) (ts : List Text) :
    keep budget opened (ts.map .token) =
      ⟨(ts.take budget).flatten, if ts.length ≤ budget then none else some opened⟩ := by
  induction ts generalizing budget with
  | nil => simp [keep]
  | cons t ts ih =>
    cases budget with
    | zero => rfl
    | succ budget =>
      rw [List.map_cons, keep, ih]
      simp

theorem itemsFrom_map_plain (run t : Text) :
    itemsFrom run (t.map .plain) = (tokens (run ++ t)).map .token := by
  induction t generalizing run with
  | nil => simp [itemsFrom]
  | cons c t ih => rw [List.map_cons, itemsFrom, ih, List.append_assoc, List.singleton_append]

theorem excerpt_of_notMem {t : Text} (ht : '<' ∉ t) {n : Nat} (hn : 1 ≤ n) :
    excerpt n t = if (tokens t).length ≤ n then t
      else Text.trimEnd ((tokens t).take n).flatten ++ [ellipsis] := by
  have hsilent : tag.Silent t := begins_tag.silent ht
  have hsize : visibleSize t = (tokens t).length := by
    rw [visibleSize, stripTags, rewrite_of_silent hsilent]
  have hitems : items t = (tokens t).map .token := by
    have hpieces := pieces_append_of_silent hsilent []
    rw [List.append_nil, pieces_nil, List.append_nil] at hpieces
    rw [items, hpieces, itemsFrom_map_plain, List.nil_append]
  have hpos : ¬ (n : Int) ≤ 0 := by omega
  rw [excerpt, if_neg hpos, hsize]
  by_cases hfits : (tokens t).length ≤ n
  · rw [if_pos hfits, if_pos (by exact_mod_cast hfits)]
  · rw [if_neg hfits, if_neg (by exact_mod_cast hfits), hitems, Int.toNat_natCast, keep_map_token,
      if_neg hfits]
    rfl

theorem excerpt_escape (t : Text) {n : Nat} (hn : 1 ≤ n) :
    excerpt n (escape t) = if t.length ≤ n then escape t
      else escape (Text.trimEnd (t.take n)) ++ [ellipsis] := by
  have hangle : '<' ∉ escape t := fun hm => (ne_angle_of_mem_escape hm).1 rfl
  have htake : ((t.map escapeChar).take n).flatten = escape (t.take n) := by
    rw [← List.map_take]
    rfl
  rw [excerpt_of_notMem hangle hn, tokens_escape, List.length_map, htake, trimEnd_escape]

end Html

namespace Bracket

/-- A body without an opening bracket is only escaped, and nothing is asked or reported. -/
theorem convert_of_notMem {σ : Type} (sv : Services σ) {source : Text} (hs : '[' ∉ source) (s : σ) :
    convert sv source s = .ok (Html.escape (Text.normalizeSpacing source), s) := by
  have hstash : stashTags emptyTags source = (source, emptyTags) := by
    apply Stash.stow_of_forall_skip
    rw [hits_of_silent (begins_anyTag.silent hs)]
    simp
  have hfile : fileTag.Silent (stashTags emptyTags source).1 := by
    rw [hstash]
    exact begins_fileTag.silent hs
  have hmention : mention.Silent (stashTags emptyTags source).1 := by
    rw [hstash]
    exact begins_mention.silent hs
  have hrules : applyRules (Html.escape source) = Html.escape source :=
    (withoutElements_of_silent fun _ _ _ =>
      (begins_word _).silent (bracket_notMem_escape hs)).applyRules_eq
  have hfinish : finish (Html.escape source) = Html.escape (Text.normalizeSpacing source) := by
    rw [finish_eq, hrules, Html.normalizeSpacing_escape]
  rw [convert_of_silent sv hfile hmention, hstash, ← hfinish]
  rfl

end Bracket

/-- How a text without markup is shown: a dash, all of it, or as much as the budget allows. -/
def shownPlain (n : Nat) (t : Text) : Text :=
  if t = [] then dash
  else if t.length ≤ n then Html.escape t
  else Html.escape (Text.trimEnd (t.take n)) ++ [Html.ellipsis]

/-- A body without an opening bracket is shown as its text in normal spacing, cut to as many
characters as the budget allows and escaped; nothing is asked or reported. -/
theorem renderBody_plain {σ : Type} (sv : Bracket.Services σ) {n : Nat} (hn : 1 ≤ n) {source : Text}
    (hs : '[' ∉ source) (s : σ) :
    renderBody sv n source s = .ok (shownPlain n (Text.normalizeSpacing source), s) := by
  simp only [renderBody, bind, Except.bind, pure, Except.pure, Bracket.convert_of_notMem sv hs]
  rw [Html.excerpt_escape _ hn, shownPlain]
  generalize Text.normalizeSpacing source = t
  by_cases ht : t = []
  · subst ht
    rfl
  · rw [if_neg ht]
    by_cases hfits : t.length ≤ n
    · have hne : Html.escape t ≠ [] := fun h => ht (Html.escape_eq_nil_iff.mp h)
      rw [if_pos hfits, if_neg (by simpa using hne)]
    · rw [if_neg hfits, if_neg (by simp)]

/-- A text that looks like an entity and a tag, cut after the blank in front of its last word. -/
theorem renderBody_plain_lookalikes :
    1 ≤ 9 ∧ '[' ∉ "\r&amp;<b> ]x".toList ∧
      renderBody (.recording Bracket.findNothing Bracket.knowNobody)
        (9 : Nat) "\r&amp;<b> ]x".toList .empty =
        .ok (shownPlain 9 (Text.normalizeSpacing "\r&amp;<b> ]x".toList), .empty) ∧
      shownPlain 9 (Text.normalizeSpacing "\r&amp;<b> ]x".toList) =
        "&amp;amp;&lt;b&gt;…".toList := by
  have hs : '[' ∉ "\r&amp;<b> ]x".toList := by decide
  exact ⟨by decide, hs, renderBody_plain _ (by decide) hs _, by decide +kernel⟩

end TaskBulletin
