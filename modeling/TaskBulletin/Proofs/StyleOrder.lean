import TaskBulletin.Proofs.FileMark
import Mathlib.Data.List.Perm.Basic

/-!
# The order of the styles

A style takes an opening tag of its name if a closing one follows, then the next closing
tag, and so on: it goes over the text with one bit of state, and writes an HTML tag for each
tag that it takes. The tags of two styles never overlap, and an HTML tag is no part of a
bracket tag. So one style finds the same tags before and after another one, and the styles
may come in any order.
-/

namespace TaskBulletin

namespace Text

def styleLetters : Text := "/]BCDEIOQSTU".toList

theorem eq_of_spells {x y c : Char} (hx : x ∈ styleLetters) (hy : y ∈ styleLetters)
    (hxc : spells x c = true) (hyc : spells y c = true) : x = y := by
  have hall : ∀ x ∈ styleLetters, ∀ c ∈ x :: x.toLower :: foldsOnto x, ∀ y ∈ styleLetters,
      spells y c = true → x = y := by decide +kernel
  refine hall x hx c ?_ y hy hyc
  simpa [spells, or_assoc] using hxc

theorem prefix_or_prefix_of_readWord {v w t : Text} (hv : ∀ x ∈ v, x ∈ styleLetters)
    (hw : ∀ y ∈ w, y ∈ styleLetters) (hrv : (readWord v t).isSome) (hrw : (readWord w t).isSome) :
    v <+: w ∨ w <+: v := by
  induction v generalizing w t with
  | nil => exact .inl List.nil_prefix
  | cons x v ih =>
    cases w with
    | nil => exact .inr List.nil_prefix
    | cons y w =>
      cases t with
      | nil => cases hrv
      | cons c t =>
        simp only [readWord, Option.isSome_iff_ne_none, ne_eq, ite_eq_right_iff,
          Option.map_eq_none_iff, Classical.not_imp] at hrv hrw
        obtain rfl : x = y :=
          eq_of_spells (hv x (List.mem_cons_self ..)) (hw y (List.mem_cons_self ..)) hrv.1 hrw.1
        simp only [List.cons_prefix_cons, true_and]
        exact ih (fun z hz => hv z (List.mem_cons_of_mem _ hz))
          (fun z hz => hw z (List.mem_cons_of_mem _ hz))
          (Option.isSome_iff_ne_none.mpr hrv.2) (Option.isSome_iff_ne_none.mpr hrw.2)

end Text

namespace Bracket

open Pattern

namespace Style

/-- A tag of a style after its opening bracket: the closing tag inside an element, else the opening
one. -/
def edgeName (s : Style) : (inside : Bool) → Text
  | false => s.tagName ++ [']']
  | true => '/' :: s.tagName ++ [']']

def edge (s : Style) (inside : Bool) : Pattern Text := word ('[' :: s.edgeName inside)

def edgeHtml (s : Style) : (inside : Bool) → Text
  | false => '<' :: s.elementName ++ ['>']
  | true => '<' :: '/' :: s.elementName ++ ['>']

def closes (s : Style) (t : Text) : Bool := (readTo (fun _ => true) (s.edge true) t).isSome

/-- What follows the tag that a style takes at the front of a text, if it takes one there. -/
def after? (s : Style) (inside : Bool) (t : Text) : Option Text :=
  match (s.edge inside).read t with
  | some (_, rest) => if inside || s.closes rest then some rest else none
  | none => none

variable {s q : Style} {inside k : Bool} {t rest : Text}

theorem read_edge_of_after? (h : s.after? inside t = some rest) :
    ∃ w, (s.edge inside).read t = some (w, rest) := by
  rw [after?] at h
  split at h
  · rename_i w u hread
    split at h
    · obtain rfl := Option.some.inj h
      exact ⟨w, hread⟩
    · cases h
  · cases h

theorem length_lt_of_after? (h : s.after? inside t = some rest) : rest.length < t.length := by
  obtain ⟨w, hread⟩ := read_edge_of_after? h
  exact (s.edge inside).length_lt_of_read hread

/-- A style as a machine with one bit of state: is it inside an element? -/
def scan (s : Style) (inside : Bool) (t : Text) : Text :=
  match t with
  | [] => []
  | c :: t =>
    match h : s.after? inside (c :: t) with
    | some rest =>
      have := length_lt_of_after? h
      s.edgeHtml inside ++ s.scan (!inside) rest
    | none => c :: s.scan inside t
termination_by t.length
decreasing_by
  · assumption
  · exact Nat.lt_succ_self t.length

@[simp] theorem scan_nil (s : Style) (inside : Bool) : s.scan inside [] = [] := by
  rw [scan]

theorem scan_of_after? (h : s.after? inside t = some rest) :
    s.scan inside t = s.edgeHtml inside ++ s.scan (!inside) rest := by
  cases t with
  | nil => simpa using length_lt_of_after? h
  | cons c t => rw [scan]; split <;> simp_all

theorem scan_of_not_after? {c : Char} (h : s.after? inside (c :: t) = none) :
    s.scan inside (c :: t) = c :: s.scan inside t := by
  rw [scan]; split <;> simp_all

theorem begins_edge (s : Style) (inside : Bool) : (s.edge inside).Begins '[' := begins_word _

theorem after?_of_ne {c : Char} (hc : c ≠ '[') (t : Text) : s.after? inside (c :: t) = none := by
  rw [after?, s.begins_edge inside c t hc]

theorem scan_append {u : Text} (hu : '[' ∉ u) (t : Text) :
    s.scan inside (u ++ t) = u ++ s.scan inside t := by
  induction u with
  | nil => rfl
  | cons c u ih =>
    obtain ⟨hc, hu⟩ := not_or.mp (fun h => hu (List.mem_cons.mpr h))
    rw [List.cons_append, scan_of_not_after? (after?_of_ne (Ne.symm hc) _), ih hu, List.cons_append]

theorem bracket_notMem_edgeHtml (s : Style) (inside : Bool) : '[' ∉ s.edgeHtml inside := by
  cases s <;> cases inside <;> decide

theorem exists_edgeHtml (s : Style) (inside : Bool) : ∃ u, s.edgeHtml inside = '<' :: u := by
  cases inside <;> exact ⟨_, rfl⟩

/-! ## Reading after another style -/

def all : List Style := [bold, italic, underline, strike, code, quote]

theorem mem_all (s : Style) : s ∈ all := by
  cases s <;> decide

theorem edgeName_letters (s : Style) (inside : Bool) :
    ∀ x ∈ s.edgeName inside, x ∈ Text.styleLetters := by
  cases s <;> cases inside <;> decide

theorem spells_edgeName (s : Style) (inside : Bool) :
    ∀ x ∈ s.edgeName inside, Text.spells x '[' = false ∧ Text.spells x '<' = false := by
  have hall : ∀ x ∈ Text.styleLetters, Text.spells x '[' = false ∧ Text.spells x '<' = false := by
    decide
  exact fun x hx => hall x (s.edgeName_letters inside x hx)

theorem eq_of_edgeName_begins {s q : Style} {inside k : Bool}
    (h : s.edgeName inside <+: q.edgeName k) : s = q := by
  have hall : ∀ s ∈ all, ∀ q ∈ all, ∀ inside k, s.edgeName inside <+: q.edgeName k → s = q := by
    decide +kernel
  exact hall s s.mem_all q q.mem_all inside k h

theorem read_edge_eq_none (h : q ≠ s) {r : Text × Text} (hs : (s.edge inside).read t = some r) :
    (q.edge k).read t = none := by
  cases t with
  | nil => rfl
  | cons c t =>
    by_cases hc : c = '['
    · subst hc
      rw [edge, read_word_bracket] at hs ⊢
      obtain ⟨u, hu, -⟩ := Option.map_eq_some_iff.mp hs
      cases hq : Text.readWord (q.edgeName k) t with
      | none => rfl
      | some v =>
        rcases Text.prefix_or_prefix_of_readWord (q.edgeName_letters k) (s.edgeName_letters inside)
          (Option.isSome_of_eq_some hq) (Option.isSome_of_eq_some hu) with hp | hp
        · exact absurd (eq_of_edgeName_begins hp) h
        · exact absurd (eq_of_edgeName_begins hp).symm h
    · exact q.begins_edge k c t hc

theorem exists_scan_bracket (s : Style) (inside : Bool) (t : Text) :
    ∃ d u, s.scan inside ('[' :: t) = d :: u ∧ (d = '[' ∨ d = '<') := by
  cases ha : s.after? inside ('[' :: t) with
  | none => exact ⟨'[', _, scan_of_not_after? ha, .inl rfl⟩
  | some rest =>
    obtain ⟨u, hu⟩ := s.exists_edgeHtml inside
    exact ⟨'<', u ++ _, by rw [scan_of_after? ha, hu, List.cons_append], .inr rfl⟩

/-- A word without brackets is read alike before and after a style. -/
theorem readWord_scan (s : Style) (inside : Bool) {w : Text}
    (hw : ∀ x ∈ w, Text.spells x '[' = false ∧ Text.spells x '<' = false) (t : Text) :
    Text.readWord w (s.scan inside t) = (Text.readWord w t).map fun r =>
      (r.1, s.scan inside r.2) := by
  induction w generalizing t with
  | nil => rfl
  | cons x w ih =>
    obtain ⟨hbracket, hangle⟩ := hw x (List.mem_cons_self ..)
    cases t with
    | nil =>
      rw [scan_nil]
      rfl
    | cons c t =>
      by_cases hc : c = '['
      · subst hc
        obtain ⟨d, u, hu, rfl | rfl⟩ := s.exists_scan_bracket inside t
        · simp [hu, Text.readWord, hbracket]
        · simp [hu, Text.readWord, hbracket, hangle]
      · rw [scan_of_not_after? (after?_of_ne hc t), Text.readWord, Text.readWord,
          ih fun y hy => hw y (List.mem_cons_of_mem _ hy)]
        cases Text.spells x c <;> simp [Function.comp_def]

/-- A style reads its tags at the same places before and after another style. -/
theorem read_edge_scan (h : q ≠ s) (k inside : Bool) (t : Text) :
    (q.edge k).read (s.scan inside t) = ((q.edge k).read t).map fun r =>
      (r.1, s.scan inside r.2) := by
  cases t with
  | nil =>
    rw [scan_nil]
    rfl
  | cons c t =>
    by_cases hc : c = '['
    · subst hc
      cases ha : s.after? inside ('[' :: t) with
      | none =>
        rw [scan_of_not_after? ha, edge, read_word_bracket, read_word_bracket,
          readWord_scan s inside (q.spells_edgeName k)]
        simp [Function.comp_def]
      | some rest =>
        obtain ⟨w, hread⟩ := read_edge_of_after? ha
        obtain ⟨u, hu⟩ := s.exists_edgeHtml inside
        rw [scan_of_after? ha, hu, List.cons_append, q.begins_edge k '<' _ (by decide),
          read_edge_eq_none h hread]
        rfl
    · rw [scan_of_not_after? (after?_of_ne hc t), q.begins_edge k c _ hc, q.begins_edge k c t hc]
      rfl

/-- A tag of another style is no tag of this one, whatever follows. -/
theorem silent_edge_of_read (h : q ≠ s) {w : Text} (hs : (s.edge inside).read t = some (w, rest)) :
    (q.edge k).Silent w := by
  obtain ⟨u, rfl⟩ : ∃ u, w = '[' :: u := (s.begins_edge inside).exists_spelling ⟨t, rest, hs⟩
  have hletters := (List.forall₂_cons.mp (Reads.word ⟨t, rest, hs⟩)).2
  have hu : '[' ∉ u := notMem_of_forall₂ hletters fun x hx => (s.spells_edgeName inside x hx).1
  have halways : ∀ more, (s.edge inside).read ('[' :: (u ++ more)) = some ('[' :: u, more) :=
    selfDelimiting_word _ hs
  exact (q.begins_edge k).silent_cons hu fun more => read_edge_eq_none h (halways more)

/-- A style finds a closing tag before another style exactly if it finds one after it. -/
theorem closes_scan (h : q ≠ s) (inside : Bool) (t : Text) :
    q.closes (s.scan inside t) = q.closes t := by
  fun_induction scan s inside t with
  | case1 => rfl
  | case2 inside c t rest ha _ ih =>
    obtain ⟨w, hread⟩ := read_edge_of_after? ha
    have hhtml : (q.edge true).Silent (s.edgeHtml inside) :=
      (q.begins_edge true).silent (s.bracket_notMem_edgeHtml inside)
    have htext : c :: t = w ++ rest := (s.edge inside).read_eq hread
    rw [closes, closes] at ih ⊢
    rw [htext, readTo_append_of_silent (silent_edge_of_read h hread) fun _ _ => rfl,
      readTo_append_of_silent hhtml fun _ _ => rfl, Option.isSome_map, Option.isSome_map, ih]
  | case3 inside c t ha ih =>
    have hread := read_edge_scan h true inside (c :: t)
    rw [scan_of_not_after? ha] at hread
    rw [closes, closes] at ih ⊢
    rw [readTo, readTo, hread]
    cases (q.edge true).read (c :: t) with
    | some r => rfl
    | none => simp [ih]

theorem after?_scan (h : q ≠ s) (k inside : Bool) (t : Text) :
    q.after? k (s.scan inside t) = (q.after? k t).map (s.scan inside) := by
  rw [after?, after?, read_edge_scan h]
  cases (q.edge k).read t with
  | none => rfl
  | some r =>
    simp only [Option.map_some, closes_scan h]
    split <;> rfl

/-! ## Two styles -/

theorem scan_scan_of_after? (h : q ≠ s) (k : Bool) (ha : s.after? inside t = some rest) :
    q.scan k (s.scan inside t) = s.edgeHtml inside ++ q.scan k (s.scan (!inside) rest) ∧
      s.scan inside (q.scan k t) = s.edgeHtml inside ++ s.scan (!inside) (q.scan k rest) := by
  constructor
  · rw [scan_of_after? ha, scan_append (s.bracket_notMem_edgeHtml inside)]
  · refine scan_of_after? ?_
    rw [after?_scan h.symm, ha, Option.map_some]

/-- Two styles give the same text in either order, whatever either is inside of. -/
theorem scan_scan (h : q ≠ s) (k inside : Bool) (t : Text) :
    q.scan k (s.scan inside t) = s.scan inside (q.scan k t) := by
  induction hn : t.length using Nat.strong_induction_on generalizing t k inside with
  | _ n ih =>
    subst hn
    cases t with
    | nil => rw [scan_nil, scan_nil, scan_nil]
    | cons c t =>
      cases hs : s.after? inside (c :: t) with
      | some rest =>
        obtain ⟨hleft, hright⟩ := scan_scan_of_after? h k hs
        rw [hleft, hright, ih _ (length_lt_of_after? hs) _ _ _ rfl]
      | none =>
        cases hq : q.after? k (c :: t) with
        | some rest =>
          obtain ⟨hleft, hright⟩ := scan_scan_of_after? h.symm inside hq
          rw [hleft, hright, ih _ (length_lt_of_after? hq) _ _ _ rfl]
        | none =>
          -- Neither style takes a tag here, and so neither does after the other one.
          have hsq := after?_scan h.symm inside k (c :: t)
          have hqs := after?_scan h k inside (c :: t)
          rw [scan_of_not_after? hq, hs] at hsq
          rw [scan_of_not_after? hs, hq] at hqs
          rw [scan_of_not_after? hs, scan_of_not_after? hq, scan_of_not_after? hsq,
            scan_of_not_after? hqs, ih _ (Nat.lt_succ_self t.length) _ _ _ rfl]

/-! ## All styles -/

/-- A style takes an opening tag only where its pattern reads an element. -/
theorem exists_read_of_after? (h : s.after? false t = some rest) :
    ∃ r, s.pattern.read t = some r := by
  rw [after?] at h
  split at h
  · rename_i w u hopen
    split at h
    · rename_i hcloses
      obtain ⟨⟨content, closer, more⟩, hclose⟩ := Option.isSome_iff_exists.mp hcloses
      exact ⟨(⟨w, content, closer⟩, more), read_between_eq_some_iff.mpr ⟨u, hopen, hclose⟩⟩
    · cases h
  · cases h

theorem scan_of_readTo {content b : Text}
    (h : readTo (fun _ => true) (s.edge true) t = some (content, b, rest)) :
    s.scan true t = content ++ s.edgeHtml true ++ s.scan false rest := by
  induction t generalizing content with
  | nil => cases h
  | cons c t ih =>
    rw [readTo] at h
    cases hread : (s.edge true).read (c :: t) with
    | some r =>
      have ha : s.after? true (c :: t) = some r.2 := by simp [after?, hread]
      rw [hread] at h
      obtain ⟨rfl, he⟩ : content = [] ∧ r = (b, rest) := by simpa using h
      rw [scan_of_after? ha, List.nil_append, he]
      rfl
    | none =>
      have ha : s.after? true (c :: t) = none := by simp [after?, hread]
      rw [hread] at h
      obtain ⟨⟨more, b', rest'⟩, hmore, he⟩ := Option.map_eq_some_iff.mp h
      simp only [Prod.mk.injEq] at he
      obtain ⟨rfl, rfl, rfl⟩ := he
      rw [scan_of_not_after? ha, ih hmore]
      rfl

theorem render_eq_scan (s : Style) (t : Text) : s.render t = s.scan false t := by
  rw [render, rewrite]
  fun_induction pieces s.pattern t with
  | case1 => rw [scan_nil]; rfl
  | case2 c t e rest hread _ ih =>
    obtain ⟨u, hopen, hclose⟩ := read_between_eq_some_iff.mp hread
    have hopen : (s.edge false).read (c :: t) = some (e.opener, u) := hopen
    have hcloses : s.closes u = true := by
      rw [closes]
      exact Option.isSome_of_eq_some hclose
    have ha : s.after? false (c :: t) = some u := by simp [after?, hopen, hcloses]
    rw [writeWith, ih, scan_of_after? ha, Bool.not_false, scan_of_readTo hclose]
    simp [Html.element, edgeHtml]
  | case3 c t hread ih =>
    have ha : s.after? false (c :: t) = none := by
      cases ha : s.after? false (c :: t) with
      | none => rfl
      | some rest =>
        obtain ⟨r, hr⟩ := exists_read_of_after? ha
        rw [hread] at hr
        cases hr
    rw [writeWith, ih, scan_of_not_after? ha]

instance : RightCommutative fun (t : Text) (s : Style) => s.render t where
  right_comm t s q := by
    by_cases h : q = s
    · rw [h]
    · rw [render_eq_scan, render_eq_scan, render_eq_scan, render_eq_scan, scan_scan h]

/-- The six styles give the same text in any order. -/
theorem foldl_render_perm {styles : List Style}
    (h : styles.Perm [bold, italic, underline, strike, code, quote]) (t : Text) :
    styles.foldl (fun t s => s.render t) t =
      [bold, italic, underline, strike, code, quote].foldl (fun t s => s.render t) t :=
  h.foldl_eq t

/-- Crossing and open elements come out alike from the reversed order. -/
theorem foldl_render_reversed :
    [quote, code, strike, underline, italic, bold].Perm
        [bold, italic, underline, strike, code, quote] ∧
      [quote, code, strike, underline, italic, bold].foldl (fun t s => s.render t)
          "[B]a[i]b[/b][CODE]c[/I][QUOTE]d[s]".toList =
        "<b>a<i>b</b>[CODE]c</i>[QUOTE]d[s]".toList :=
  ⟨by decide, (foldl_render_perm (by decide) _).trans (by decide +kernel)⟩

end Style

end Bracket

end TaskBulletin
