import TaskBulletin.Proofs.Numerals
import TaskBulletin.Proofs.Trimming

/-!
# The digits of a body

A conversion reads its references in texts that hold tokens already. A token is closed off
by NULs, and no tag begins in it, so the id of a reference is written in the body as it is
read. Hence a body without more than 4300 digits in a row is always converted.
-/

namespace TaskBulletin

namespace Bracket

open Pattern

/-! ## Stretches of a text with tokens -/

/-- The second text is the first with tokens for some stretches of it. -/
inductive Tokened : Text → Text → Prop
  | nil : Tokened [] []
  | plain (c : Char) {t u : Text} : Tokened t u → Tokened (c :: t) (c :: u)
  | token (w : Text) {name t u : Text} :
    '[' ∉ name → Tokened t u → Tokened (w ++ t) ('\x00' :: name ++ '\x00' :: u)

namespace Tokened

variable {t u v : Text}

theorem append_left (h : Tokened t u) (w : Text) : Tokened (w ++ t) (w ++ u) := by
  induction w with
  | nil => exact h
  | cons c w ih => exact .plain c ih

theorem isPrefix (h : Tokened t u) (hv : v <+: u) (hn : '\x00' ∉ v) : v <+: t := by
  induction h generalizing v with
  | nil => exact hv
  | plain c _ ih =>
    cases v with
    | nil => exact List.nil_prefix
    | cons d v =>
      obtain ⟨rfl, hrest⟩ := List.cons_prefix_cons.mp hv
      exact List.cons_prefix_cons.mpr ⟨rfl, ih hrest fun hm => hn (List.mem_cons_of_mem _ hm)⟩
  | token w _ _ _ =>
    cases v with
    | nil => exact List.nil_prefix
    | cons d v =>
      obtain ⟨rfl, -⟩ := List.cons_prefix_cons.mp hv
      exact absurd (List.mem_cons_self ..) hn

/-- A stretch without NULs and with a bracket does not begin inside a token. -/
theorem isInfix_of_token {name : Text} (hname : '[' ∉ name) (hv : v <:+: name ++ '\x00' :: u)
    (hn : '\x00' ∉ v) (hb : '[' ∈ v) : v <:+: u := by
  induction name with
  | nil =>
    rcases List.infix_cons_iff.mp hv with hv | hv
    · cases v with
      | nil => cases hb
      | cons d v =>
        obtain ⟨rfl, -⟩ := List.cons_prefix_cons.mp hv
        exact absurd (List.mem_cons_self ..) hn
    · exact hv
  | cons c name ih =>
    rcases List.infix_cons_iff.mp hv with hv | hv
    · have htoken : c :: name ++ ['\x00'] <+: c :: name ++ '\x00' :: u := by simp
      rcases List.prefix_or_prefix_of_prefix hv htoken with hle | hle
      · refine absurd (hle.mem hb) ?_
        rw [List.mem_append, not_or]
        exact ⟨hname, by decide⟩
      · exact absurd (hle.mem (by simp)) hn
    · exact ih (fun hm => hname (List.mem_cons_of_mem _ hm)) hv

/-- A stretch without NULs and with a bracket was there before the tokens. -/
theorem isInfix (h : Tokened t u) (hv : v <:+: u) (hn : '\x00' ∉ v) (hb : '[' ∈ v) : v <:+: t := by
  induction h with
  | nil => exact hv
  | plain c h ih =>
    rcases List.infix_cons_iff.mp hv with hv | hv
    · exact ((h.plain c).isPrefix hv hn).isInfix
    · exact List.infix_cons (ih hv)
  | @token w name _ _ hname _ ih =>
    have hfirst : '[' ∉ '\x00' :: name := by
      rw [List.mem_cons, not_or]
      exact ⟨by decide, hname⟩
    exact (ih (isInfix_of_token hfirst hv hn hb)).trans (List.suffix_append ..).isInfix

theorem stow {α : Type} {p : Pattern α} {skip : Text → Bool} {s : Stash} (hl : '[' ∉ s.label)
    (t : Text) : Tokened t (s.stow p skip t).1 := by
  have ht := p.writeWith_spelling_pieces t
  rw [Stash.stow]
  generalize p.pieces t = ps at ht
  subst ht
  induction ps generalizing s with
  | nil => exact .nil
  | cons piece ps ih =>
    cases piece with
    | plain c => exact .plain c (ih hl)
    | hit a =>
      cases hs : skip (p.spelling a) with
      | true =>
        rw [Stash.stowPieces_hit_of_skip hs]
        exact (ih hl).append_left _
      | false =>
        have hname : '[' ∉ tokenName s.label s.size := notMem_tokenName hl (by decide) _
        have htoken := Tokened.token (p.spelling a) hname (ih (s := s.add (p.spelling a)) hl)
        rw [Stash.stowPieces_hit hs, Stash.nextToken, Stash.token_eq]
        simpa [writeWith] using htoken

theorem replace {label : Text} (hl : '[' ∉ label) (w : Text) (k : Nat) (t : Text) :
    Tokened t (Text.replace w ((Stash.empty label).token k) t) := by
  have hname : '[' ∉ tokenName label k := notMem_tokenName hl (by decide) k
  have ht := (exact w).writeWith_spelling_pieces t
  rw [Text.replace, rewrite]
  generalize (exact w).pieces t = ps at ht
  subst ht
  induction ps with
  | nil => exact .nil
  | cons piece ps ih =>
    cases piece with
    | plain c => exact .plain c ih
    | hit a =>
      have htoken := Tokened.token ((exact w).spelling a) hname ih
      have hspelled : (Stash.empty label).token k = '\x00' :: tokenName label k ++ ['\x00'] :=
        Stash.token_eq ..
      rw [writeWith, writeWith, hspelled, List.append_assoc]
      rwa [hspelled] at htoken

end Tokened

/-- What a text with tokens holds without NULs and with a bracket was there before. -/
theorem isInfix_of_tokensFor {label : Text} (hl : '[' ∉ label) {n : Nat} {ws : List Text}
    {t v : Text} (hv : v <:+: Stash.tokensFor label n ws t) (hn : '\x00' ∉ v) (hb : '[' ∈ v) :
    v <:+: t := by
  induction ws generalizing n t with
  | nil => exact hv
  | cons w ws ih => exact (Tokened.replace hl w n t).isInfix (ih hv) hn hb

theorem isInfix_of_stashTags {source v : Text} (hv : v <:+: (stashTags emptyTags source).1)
    (hn : '\x00' ∉ v) (hb : '[' ∈ v) : v <:+: source :=
  (Tokened.stow (by decide) source).isInfix hv hn hb

/-! ## Numerals of references -/

theorem isInfix_of_fileNumeral? {part digits : Text} (h : fileNumeral? part = some digits) :
    digits <:+: part := by
  obtain ⟨u, rest, hu, hread⟩ := exists_read_of_mem_hits (List.mem_of_mem_head? h)
  obtain ⟨before, rfl⟩ := hu
  have hspelled : u = digits ++ rest := digitRun.read_eq hread
  exact ⟨before, rest, by rw [hspelled, List.append_assoc]⟩

/-- An id part with a numeral is that numeral, with blanks and a sign around it. -/
theorem isInfix_of_userNumeral? {part digits : Text} (h : userNumeral? part = some digits) :
    digits <:+: part ∧ '\x00' ∉ part := by
  obtain ⟨hdigits, sign, hsign, htrim⟩ := exists_sign_of_userNumeral? h
  obtain ⟨before, after, hpart, hbefore, hafter⟩ := Text.exists_append_trim part
  have hnul : ∀ sign ∈ Numeral.signs, '\x00' ∉ sign := by decide
  rw [htrim] at hpart
  refine ⟨⟨before ++ sign, after, by rw [hpart]; simp⟩, ?_⟩
  rw [hpart]
  simp only [List.mem_append, not_or]
  refine ⟨⟨fun hm => ?_, fun hm => ?_, fun hm => ?_⟩, fun hm => ?_⟩
  · exact absurd (hbefore _ hm) (by decide)
  · exact hnul sign hsign hm
  · exact absurd (hdigits.2 _ hm) (by decide)
  · exact absurd (hafter _ hm) (by decide)

theorem isInfix_of_fileTag {source : Text} {tag : FileTag}
    (h : tag ∈ fileTag.hits (stashTags emptyTags source).1) : tag.content <:+: source := by
  obtain ⟨u, rest, hu, hread⟩ := exists_read_of_mem_hits h
  let mark : FileMark := ⟨tag, ⟨u, rest, hread⟩⟩
  have hnul : '\x00' ∉ mark.source := mark.notMem_source (by decide)
  have hbracket : '[' ∈ mark.source := by
    rw [mark.source_eq_cons]
    exact List.mem_cons_self ..
  have hfront : mark.source <+: u := ⟨rest, (fileTag.read_eq hread).symm⟩
  have hpart : tag.content <:+: mark.source := ⟨tag.opener, tag.closer, rfl⟩
  exact hpart.trans (isInfix_of_stashTags (hfront.isInfix.trans hu.isInfix) hnul hbracket)

theorem isInfix_of_mention {source : Text} {m : Mention}
    (h : m ∈ mention.hits (withFileTokens (stashTags emptyTags source).1))
    (hnul : '\x00' ∉ m.opener.content) : m.opener.content <:+: source := by
  obtain ⟨u, rest, hu, hread⟩ := exists_read_of_mem_hits h
  obtain ⟨v, hopen, -⟩ := read_between_eq_some_iff.mp hread
  let opener := (valued "USER=".toList).spelling m.opener
  have hfront : opener <+: u := ⟨v, ((valued "USER=".toList).read_eq hopen).symm⟩
  obtain ⟨hword, -, hclose⟩ := Reads.between ⟨u, v, hopen⟩
  have hbracket : '[' ∈ opener := by
    obtain ⟨w, hw⟩ := (begins_word _).exists_spelling hword
    exact List.mem_append_left _ (List.mem_append_left _ (by rw [hw]; exact List.mem_cons_self ..))
  have hopener : '\x00' ∉ opener := by
    have hclosed : m.opener.closer = [']'] := hclose.exact
    have hspelled : '\x00' ∉ m.opener.opener := lacks_word (by decide) _ hword
    change '\x00' ∉ m.opener.opener ++ m.opener.content ++ m.opener.closer
    rw [hclosed, List.mem_append, List.mem_append, not_or, not_or]
    exact ⟨⟨hspelled, hnul⟩, by decide⟩
  have hid : m.opener.content <:+: opener := ⟨m.opener.opener, m.opener.closer, rfl⟩
  have htokens :=
    isInfix_of_tokensFor (by decide) (hfront.isInfix.trans hu.isInfix) hopener hbracket
  exact hid.trans (isInfix_of_stashTags htokens hopener hbracket)

/-- No more than 4300 digits follow each other. -/
def ShortDigitRuns (t : Text) : Prop :=
  ∀ digits, digits <:+: t → (∀ c ∈ digits, Text.isDigit c = true) → digits.length ≤ numeralLimit

/-- In a body without longer runs of digits every numeral can be read. -/
theorem readableIds_of_shortDigitRuns {source : Text} (h : ShortDigitRuns source) :
    ReadableIds source := by
  constructor
  · intro tag htag digits hdigits
    have hwritten := (isInfix_of_fileNumeral? hdigits).trans (isInfix_of_fileTag htag)
    exact h digits hwritten (isDigit_of_fileNumeral? hdigits)
  · intro m hm digits hdigits
    obtain ⟨hpart, hnul⟩ := isInfix_of_userNumeral? hdigits
    exact h digits (hpart.trans (isInfix_of_mention hm hnul))
      (exists_sign_of_userNumeral? hdigits).1.2

end Bracket

end TaskBulletin
