import TaskBulletin.Bracket.Lookup
import TaskBulletin.Proofs.Torn
import Mathlib.Data.List.Basic

/-!
# Anchors can be read back

Escaping is a chain of replacements on the whole text that begins with the ampersand, so no
later one meets an entity that an earlier one wrote, and each character is written on its own.
A reader who goes once from left to right and puts the meant character for each entity
therefore gets the plain text again, also where that text looks like an entity, a tag or the
end of a value. A target holds no double quote once it is escaped, so the anchor shows where
its target ends, and two anchors with different parts differ.
-/

namespace TaskBulletin.Html

/-! ## Escaping as a chain of replacements -/

theorem escapeDoubleQuotes_eq_replace (t : Text) :
    escapeDoubleQuotes t = Text.replace ['"'] "&quot;".toList t := by
  rw [Text.replace_singleton]
  apply List.flatMap_congr
  intro c _
  by_cases hc : c = '"'
  · subst hc
    rfl
  · rw [escapeQuote_of_ne hc, if_neg hc]

/-- The ampersand has to go first: what the other replacements write begins with one. -/
theorem escape_eq_replace (t : Text) :
    escape t = Text.replace ['>'] "&gt;".toList
      (Text.replace ['<'] "&lt;".toList (Text.replace ['&'] "&amp;".toList t)) := by
  simp only [Text.replace_singleton, List.flatMap_assoc]
  apply List.flatMap_congr
  intro c _
  by_cases hamp : c = '&'
  · subst hamp
    decide
  by_cases hlt : c = '<'
  · subst hlt
    decide
  by_cases hgt : c = '>'
  · subst hgt
    decide
  · simp [escapeChar_of_ne hamp hlt hgt, hamp, hlt, hgt]

/-! ## Decoding -/

def textEntities : List (Text × Char) :=
  [("&amp;".toList, '&'), ("&lt;".toList, '<'), ("&gt;".toList, '>')]

def valueEntities : List (Text × Char) := textEntities ++ [("&quot;".toList, '"')]

def namedIn (table : List (Text × Char)) : Pattern (Text × Char) where
  read t := table.findSome? fun (w, c) =>
    ((Pattern.exact w).read t).map fun (w, rest) => ((w, c), rest)
  spelling := Prod.fst
  read_eq h := by
    obtain ⟨e, -, he⟩ := List.exists_of_findSome?_eq_some h
    obtain ⟨_, hread, hsame⟩ := Option.map_eq_some_iff.mp he
    obtain ⟨rfl, rfl⟩ := Prod.mk.inj hsame
    exact (Pattern.exact e.1).read_eq hread
  spelling_ne_nil h := by
    obtain ⟨e, -, he⟩ := List.exists_of_findSome?_eq_some h
    obtain ⟨_, hread, hsame⟩ := Option.map_eq_some_iff.mp he
    obtain ⟨rfl, rfl⟩ := Prod.mk.inj hsame
    exact (Pattern.exact e.1).spelling_ne_nil hread

/-- Put the meant character for each entity of a table, in one pass from left to right. -/
def decode (table : List (Text × Char)) (t : Text) : Text :=
  (namedIn table).rewrite (fun e => [e.2]) t

section

variable {more : List (Text × Char)}

theorem read_textEntity {e : Text × Char} (he : e ∈ textEntities) (t : Text) :
    (namedIn (textEntities ++ more)).read (e.1 ++ t) = some (e, t) := by
  simp only [textEntities, List.mem_cons, List.not_mem_nil, or_false] at he
  rcases he with rfl | rfl | rfl <;> rfl

variable (hmore : ∀ e ∈ more, ∃ name, e.1 = '&' :: name)
include hmore

theorem begins_namedIn : (namedIn (textEntities ++ more)).Begins '&' := by
  intro c t hc
  refine List.findSome?_eq_none_iff.mpr fun (w, meant) he => ?_
  have htext : ∀ e ∈ textEntities, e.1 = '&' :: e.1.tail := by decide
  obtain ⟨name, rfl⟩ : ∃ name, w = '&' :: name :=
    (List.mem_append.mp he).elim (fun he => ⟨_, htext _ he⟩) (hmore _)
  dsimp only
  rw [Pattern.begins_exact '&' name c t hc]
  rfl

theorem decode_cons {c : Char} (hc : c ≠ '&') (t : Text) :
    decode (textEntities ++ more) (c :: t) = c :: decode (textEntities ++ more) t :=
  Pattern.rewrite_of_not_read (begins_namedIn hmore c t hc) _

theorem decode_escapeChar_append (c : Char) (t : Text) :
    decode (textEntities ++ more) (escapeChar c ++ t) = c :: decode (textEntities ++ more) t := by
  unfold escapeChar
  split
  · exact Pattern.rewrite_of_read (read_textEntity (e := ("&amp;".toList, '&')) (by decide) t) _
  · exact Pattern.rewrite_of_read (read_textEntity (e := ("&lt;".toList, '<')) (by decide) t) _
  · exact Pattern.rewrite_of_read (read_textEntity (e := ("&gt;".toList, '>')) (by decide) t) _
  · rename_i hamp _ _
    exact decode_cons hmore hamp t

theorem decode_escape (t : Text) : decode (textEntities ++ more) (escape t) = t := by
  induction t with
  | nil => exact Pattern.rewrite_nil _ _
  | cons c t ih => rw [escape_cons, decode_escapeChar_append hmore, ih]

end

theorem quoteEntity : ∀ e ∈ [("&quot;".toList, '"')], ∃ name, e.1 = '&' :: name := by
  intro e he
  rw [List.mem_singleton.mp he]
  exact ⟨_, rfl⟩

/-- No entity of escaped text holds a double quote, so escaping those as well is no obstacle. -/
theorem decode_escapeValueChar_append (c : Char) (t : Text) :
    decode valueEntities (escapeDoubleQuotes (escapeChar c) ++ t) =
      c :: decode valueEntities t := by
  rcases escapeChar_cases c with ⟨hc, h⟩ | ⟨-, name, hname, h⟩
  · by_cases hq : c = '"'
    · subst hq
      have hread : (namedIn valueEntities).read ("&quot;".toList ++ t) =
          some (("&quot;".toList, '"'), t) := rfl
      exact Pattern.rewrite_of_read hread _
    · have hamp : c ≠ '&' := by
        intro he
        exact hc (by simp [he])
      rw [h, escapeDoubleQuotes_cons, escapeQuote_of_ne hq]
      exact decode_cons quoteEntity hamp t
  · have hquote : '"' ∉ escapeChar c := by
      have hnames : ∀ name ∈ entityNames, '"' ∉ '&' :: (name ++ [';']) := by decide
      rw [h]
      exact hnames name hname
    rw [escapeDoubleQuotes_of_notMem hquote]
    exact decode_escapeChar_append quoteEntity c t

theorem decode_escapeValue (t : Text) : decode valueEntities (escapeValue t) = t := by
  induction t with
  | nil => exact Pattern.rewrite_nil _ _
  | cons c t ih =>
    unfold escapeValue at ih ⊢
    rw [escape_cons, escapeDoubleQuotes_append, decode_escapeValueChar_append, ih]

/-! ## Ampersands of escaped text -/

theorem Escaped.entity_of_ampersand {u v : Text} (h : Escaped (u ++ '&' :: v)) :
    ∃ e ∈ entities, e <+: '&' :: v := by
  generalize ht : u ++ '&' :: v = t at h
  induction h generalizing u with
  | nil => simp at ht
  | @append w t hw _ ih =>
    rcases List.append_eq_append_iff.mp ht with ⟨x, hwx, hx⟩ | ⟨x, hux, hx⟩
    · cases x with
      | nil => exact ih (u := []) (by simpa using hx)
      | cons d x =>
        obtain ⟨rfl, hv⟩ := List.cons.inj hx
        -- The ampersand stands in this part: only as the first character of an entity.
        cases hw with
        | @char c hc =>
          have hmem : '&' ∈ [c] := by
            rw [hwx]
            simp
          exact absurd (List.mem_singleton.mp hmem).symm hc.2.2
        | longer he =>
          have hfirst : ∀ e ∈ entities, '&' ∉ e.tail := by decide
          cases u with
          | nil =>
            rw [List.nil_append] at hwx
            exact ⟨w, he, by simp [hwx, hv]⟩
          | cons b u =>
            refine absurd ?_ (hfirst w he)
            simp [hwx]
    · exact ih hx.symm

/-- Written text that is read back as `t`: it holds no angle bracket, every ampersand of it begins
an entity, and it is decoded to `t`. -/
structure Encodes (w t : Text) : Prop where
  ne_angle : ∀ c ∈ w, c ≠ '<' ∧ c ≠ '>'
  ampersand : ∀ u v, w = u ++ '&' :: v → ∃ e ∈ entities, e <+: '&' :: v
  decode_eq : decode valueEntities w = t

theorem encodes_escape (t : Text) : Encodes (escape t) t where
  ne_angle _ hc := ne_angle_of_mem_escape hc
  ampersand u v h := by
    have hescaped := escaped_escape t
    rw [h] at hescaped
    exact hescaped.entity_of_ampersand
  decode_eq := decode_escape quoteEntity t

theorem encodes_escapeValue (t : Text) : Encodes (escapeValue t) t where
  ne_angle _ hc := ne_angle_of_mem_escapeValue hc
  ampersand u v h := by
    have hescaped := (escaped_escape t).escapeDoubleQuotes
    rw [← escapeValue, h] at hescaped
    exact hescaped.entity_of_ampersand
  decode_eq := decode_escapeValue t

/-! ## Anchors -/

theorem cut_at_first {c : Char} {u v s t : Text} (hu : c ∉ u) (hv : c ∉ v)
    (h : u ++ c :: s = v ++ c :: t) : u = v ∧ s = t := by
  rcases List.append_eq_append_iff.mp h with ⟨x, hx, hrest⟩ | ⟨x, hx, hrest⟩
  · cases x with
    | nil => simp_all
    | cons d x =>
      obtain ⟨rfl, -⟩ := List.cons.inj hrest
      exact absurd (by simp [hx]) hv
  · cases x with
    | nil => simp_all
    | cons d x =>
      obtain ⟨rfl, -⟩ := List.cons.inj hrest
      exact absurd (by simp [hx]) hu

/-- The first double quote after the beginning of a target ends the target. -/
theorem anchorRaw_inj {target target' body body' : Text} (h : '"' ∉ target) (h' : '"' ∉ target')
    (heq : anchorRaw target body = anchorRaw target' body') : target = target' ∧ body = body' := by
  unfold anchorRaw at heq
  simp only [List.append_assoc] at heq
  obtain ⟨htarget, hrest⟩ := cut_at_first h h' (List.append_cancel_left heq)
  exact ⟨htarget, List.append_cancel_right (List.cons.inj hrest).2⟩

/-- An anchor, also that of a file that was found, is a target between double quotes and a body
between tags, from which the plain target and the plain body are read back. Anchors that differ in
either are different. -/
theorem anchor_reads_back (target body : Text) :
    (∃ H T, anchor target body = "<a href=\"".toList ++ H ++ "\">".toList ++ T ++ "</a>".toList ∧
        '"' ∉ H ∧ Encodes H target ∧ Encodes T body) ∧
      (∀ id, (Bracket.FileOutcome.found ⟨id, body, target⟩).html = anchor target body) ∧
      ∀ target' body',
        anchor target' body' = anchor target body ↔ target' = target ∧ body' = body := by
  refine ⟨⟨escapeValue target, escape body, rfl, quote_notMem_escapeDoubleQuotes _,
    encodes_escapeValue target, encodes_escape body⟩, fun _ => rfl, ?_⟩
  intro target' body'
  refine ⟨fun h => ?_, by rintro ⟨rfl, rfl⟩; rfl⟩
  obtain ⟨htarget, hbody⟩ := anchorRaw_inj (quote_notMem_escapeDoubleQuotes _)
    (quote_notMem_escapeDoubleQuotes _) h
  constructor
  · rw [← decode_escapeValue target', ← decode_escapeValue target]
    exact congrArg (decode valueEntities) htarget
  · rw [← decode_escape quoteEntity body', ← decode_escape quoteEntity body]
    exact congrArg (decode (textEntities ++ _)) hbody

end TaskBulletin.Html
