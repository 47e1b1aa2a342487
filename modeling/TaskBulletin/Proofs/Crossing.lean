import TaskBulletin.Proofs.Rendered

/-!
# Crossing elements

Two pairs of tags cross if the second is opened inside the first and the first is closed
while the second is open. The HTML elements of a settled row are nested exactly if no two
of them cross: from left to right the open elements are kept, the one opened last in front,
and each closing tag of a pair has to be that of the one in front.
-/

namespace TaskBulletin

namespace Bracket

/-- Of these tags two pairs that become HTML elements cross. -/
inductive Crossing : List Edge → Prop
  | intro {front since after rest : List Edge} {outer inner closer : Tag} {n m : Text}
      {s : Spelled outer.name} {s' : Spelled inner.name} {s'' : Spelled closer.name}
      (houter : outer.elementName? = some n) (hinner : inner.elementName? = some m)
      (hopens : outer.rule ∉ insideAfter ∅ front)
      (hopens' : inner.rule ∉ insideAfter ∅ (front ++ .opening outer s :: since))
      (hopen : ∀ e ∈ since ++ after, e.closes outer.rule = false)
      (hopen' : ∀ e ∈ after, e.closes inner.rule = false) (hcloses : closer.rule = outer.rule) :
      Crossing (front ++ .opening outer s :: since ++ .opening inner s' :: after ++
        .closing closer s'' :: rest)

/-! ## Open elements -/

/-- The elements that are open after a tag, the one opened last in front. -/
def Edge.nextOpened (opened : List Text) : Edge → List Text
  | opening tag _ => tag.elementName?.elim opened fun n => opened.insert n
  | closing tag _ => tag.elementName?.elim opened fun n => opened.erase n

def openedAfter (opened : List Text) (es : List Edge) : List Text := es.foldl Edge.nextOpened opened

theorem Edge.nextOpened_of_none {e : Edge} (h : e.tag.elementName? = none) (opened : List Text) :
    e.nextOpened opened = opened := by
  cases e with
  | opening tag s => rw [nextOpened, show tag.elementName? = none from h, Option.elim_none]
  | closing tag s => rw [nextOpened, show tag.elementName? = none from h, Option.elim_none]

theorem Edge.nextOpened_opening {tag : Tag} {n : Text} (h : tag.elementName? = some n)
    (s : Spelled tag.name) (opened : List Text) :
    (opening tag s).nextOpened opened = opened.insert n := by
  rw [nextOpened, h, Option.elim_some]

theorem Edge.nextOpened_closing {tag : Tag} {n : Text} (h : tag.elementName? = some n)
    (s : Spelled tag.name) (opened : List Text) :
    (closing tag s).nextOpened opened = opened.erase n := by
  rw [nextOpened, h, Option.elim_some]

theorem openedAfter_cons (opened : List Text) (e : Edge) (es : List Edge) :
    openedAfter opened (e :: es) = openedAfter (e.nextOpened opened) es := rfl

theorem openedAfter_append (opened : List Text) (es fs : List Edge) :
    openedAfter opened (es ++ fs) = openedAfter (openedAfter opened es) fs := List.foldl_append

/-- The open elements are those of the open kinds that become elements. -/
structure Agrees (inside : Finset Rule) (opened : List Text) : Prop where
  nodup : opened.Nodup
  named : ∀ n ∈ opened, ∃ tag : Tag, tag.elementName? = some n
  mem_iff : ∀ (tag : Tag) (n : Text), tag.elementName? = some n → (n ∈ opened ↔ tag.rule ∈ inside)

namespace Agrees

variable {inside : Finset Rule} {opened : List Text}

theorem empty : Agrees ∅ [] where
  nodup := List.nodup_nil
  named := fun _ h => absurd h List.not_mem_nil
  mem_iff := fun _ _ _ => iff_of_false List.not_mem_nil (Finset.notMem_empty _)

theorem opening (h : Agrees inside opened) (tag : Tag) (s : Spelled tag.name) :
    Agrees (insert tag.rule inside) ((Edge.opening tag s).nextOpened opened) := by
  cases hn : tag.elementName? with
  | none =>
    rw [Edge.nextOpened_of_none (e := .opening tag s) hn]
    refine ⟨h.nodup, h.named, fun tag' n hn' => ?_⟩
    rw [h.mem_iff tag' n hn', Finset.mem_insert, or_iff_right (Tag.rule_ne_of_elementName? hn hn')]
  | some k =>
    rw [Edge.nextOpened_opening hn]
    refine ⟨h.nodup.insert, fun n hm => ?_, fun tag' n hn' => ?_⟩
    · rcases List.mem_insert_iff.mp hm with rfl | hm
      · exact ⟨tag, hn⟩
      · exact h.named n hm
    · have hsame : n = k ↔ tag'.rule = tag.rule := by
        rw [← Tag.elementName?_eq_some_iff hn, hn', Option.some.injEq]
      rw [List.mem_insert_iff, Finset.mem_insert, hsame, h.mem_iff tag' n hn']

theorem closing (h : Agrees inside opened) (tag : Tag) (s : Spelled tag.name) :
    Agrees (inside.erase tag.rule) ((Edge.closing tag s).nextOpened opened) := by
  cases hn : tag.elementName? with
  | none =>
    rw [Edge.nextOpened_of_none (e := .closing tag s) hn]
    refine ⟨h.nodup, h.named, fun tag' n hn' => ?_⟩
    rw [h.mem_iff tag' n hn', Finset.mem_erase, and_iff_right (Tag.rule_ne_of_elementName? hn hn')]
  | some k =>
    rw [Edge.nextOpened_closing hn]
    refine ⟨h.nodup.erase k, fun n hm => h.named n (List.mem_of_mem_erase hm), fun tag' n hn' => ?_⟩
    have hsame : n = k ↔ tag'.rule = tag.rule := by
      rw [← Tag.elementName?_eq_some_iff hn, hn', Option.some.injEq]
    rw [h.nodup.mem_erase_iff, Finset.mem_erase, Ne, Ne, hsame, h.mem_iff tag' n hn']

theorem next (h : Agrees inside opened) (e : Edge) :
    Agrees (e.next inside) (e.nextOpened opened) := by
  cases e with
  | opening tag s => exact h.opening tag s
  | closing tag s => exact h.closing tag s

theorem after (h : Agrees inside opened) (es : List Edge) :
    Agrees (insideAfter inside es) (openedAfter opened es) := by
  induction es generalizing inside opened with
  | nil => exact h
  | cons e es ih => exact ih (h.next e)

end Agrees

theorem agrees_openedAfter (es : List Edge) : Agrees (insideAfter ∅ es) (openedAfter [] es) :=
  Agrees.empty.after es

/-! ## Nesting -/

/-- If a tag closes an open element, it is the one opened last. -/
def Edge.ClosesLast (opened : List Text) : Edge → Prop
  | opening _ _ => True
  | closing tag _ => ∀ n, tag.elementName? = some n → n ∈ opened → opened.head? = some n

section

variable {inside : Finset Rule} {opened : List Text}

theorem Agrees.matched_rolesAt (h : Agrees inside opened) (e : Edge) :
    Html.Matched opened (e.rolesAt inside) ↔ e.ClosesLast opened := by
  cases e with
  | opening tag s =>
    refine iff_of_true ?_ trivial
    cases hn : tag.elementName? with
    | none =>
      rw [Edge.rolesAt_of_none (e := .opening tag s) hn]
      trivial
    | some n =>
      rw [Edge.rolesAt, Edge.roles, hn]
      split
      · exact ⟨trivial, trivial⟩
      · trivial
  | closing tag s =>
    cases hn : tag.elementName? with
    | none =>
      rw [Edge.rolesAt_of_none (e := .closing tag s) hn]
      refine iff_of_true trivial fun n hn' => ?_
      rw [hn] at hn'
      cases hn'
    | some n =>
      have htaken : (Edge.closing tag s).Taken inside ↔ n ∈ opened := (h.mem_iff tag n hn).symm
      by_cases hm : n ∈ opened
      · rw [Edge.rolesAt, if_pos (htaken.mpr hm), Edge.roles, hn, Edge.ClosesLast, hn]
        simp [Html.Matched, Html.Fits, hm]
      · rw [Edge.rolesAt, if_neg fun ht => hm (htaken.mp ht), Edge.ClosesLast, hn]
        simp [Html.Matched, hm]

theorem Agrees.openAfterAll_rolesAt (h : Agrees inside opened) {e : Edge}
    (hl : e.ClosesLast opened) :
    Html.openAfterAll opened (e.rolesAt inside) = e.nextOpened opened := by
  cases hn : e.tag.elementName? with
  | none => rw [Edge.rolesAt_of_none hn, Edge.nextOpened_of_none hn, Html.openAfterAll_nil]
  | some n =>
    cases e with
    | opening tag s =>
      have hn : tag.elementName? = some n := hn
      have htaken : (Edge.opening tag s).Taken inside ↔ n ∉ opened := (h.mem_iff tag n hn).not.symm
      rw [Edge.nextOpened_opening hn, Edge.rolesAt, Edge.roles, hn]
      by_cases hm : n ∈ opened
      · rw [if_neg fun ht => htaken.mp ht hm, List.insert_of_mem hm]
        rfl
      · rw [if_pos (htaken.mpr hm), List.insert_of_not_mem hm]
        rfl
    | closing tag s =>
      have hn : tag.elementName? = some n := hn
      have htaken : (Edge.closing tag s).Taken inside ↔ n ∈ opened := (h.mem_iff tag n hn).symm
      rw [Edge.nextOpened_closing hn, Edge.rolesAt, Edge.roles, hn]
      by_cases hm : n ∈ opened
      · obtain ⟨outer, rfl⟩ := List.head?_eq_some_iff.mp (hl n hn hm)
        rw [if_pos (htaken.mpr hm), List.erase_cons_head]
        exact if_pos rfl
      · rw [if_neg fun ht => hm (htaken.mp ht), List.erase_of_not_mem hm]
        rfl

theorem Agrees.matched_rolesAlong (h : Agrees inside opened) (es : List Edge) :
    Html.Matched opened (rolesAlong inside es) ↔
      ∀ front e rest, es = front ++ e :: rest → e.ClosesLast (openedAfter opened front) := by
  induction es generalizing inside opened with
  | nil => exact iff_of_true trivial fun front e rest he => by simp at he
  | cons e es ih =>
    rw [rolesAlong, Html.matched_append, h.matched_rolesAt]
    constructor
    · rintro ⟨hl, hm⟩ front e' rest he
      rw [h.openAfterAll_rolesAt hl, ih (h.next e)] at hm
      cases front with
      | nil =>
        obtain ⟨rfl, -⟩ := List.cons.inj he
        exact hl
      | cons f front =>
        obtain ⟨rfl, hes⟩ := List.cons.inj he
        exact hm front e' rest hes
    · intro hall
      have hl := hall [] e es rfl
      refine ⟨hl, ?_⟩
      rw [h.openAfterAll_rolesAt hl, ih (h.next e)]
      intro front e' rest he
      exact hall (e :: front) e' rest (by rw [he, List.cons_append])

theorem Agrees.openAfterAll_rolesAlong (h : Agrees inside opened) {es : List Edge}
    (hm : Html.Matched opened (rolesAlong inside es)) :
    Html.openAfterAll opened (rolesAlong inside es) = openedAfter opened es := by
  induction es generalizing inside opened with
  | nil => rfl
  | cons e es ih =>
    rw [rolesAlong, Html.matched_append, h.matched_rolesAt] at hm
    obtain ⟨hl, hm⟩ := hm
    rw [h.openAfterAll_rolesAt hl] at hm
    rw [rolesAlong, Html.openAfterAll_append, h.openAfterAll_rolesAt hl, ih (h.next e) hm,
      openedAfter_cons]

end

/-! ## What tags do to some of the open elements -/

/-- A tag closes none of these elements. -/
def Edge.Spares (l : List Text) (e : Edge) : Prop :=
  ∀ (tag : Tag) (n : Text), tag.elementName? = some n → n ∈ l → e.closes tag.rule = false

section

variable {opened l : List Text} {e : Edge}

/-- Elements that are open after a tag have been open before, or the first is opened by it. -/
theorem sublist_nextOpened_cases (hnodup : opened.Nodup) (h : l.Sublist (e.nextOpened opened)) :
    l.Sublist opened ∧ e.Spares l ∨
      ∃ n l' tag s, l = n :: l' ∧ l'.Sublist opened ∧ e = .opening tag s ∧
        tag.elementName? = some n ∧ n ∉ opened := by
  cases hn : e.tag.elementName? with
  | none =>
    rw [Edge.nextOpened_of_none hn] at h
    refine .inl ⟨h, fun tag n hn' _ => ?_⟩
    cases e with
    | opening tag' s => rfl
    | closing tag' s => exact decide_eq_false (Tag.rule_ne_of_elementName? hn hn').symm
  | some k =>
    cases e with
    | opening tag s =>
      have hn : tag.elementName? = some k := hn
      rw [Edge.nextOpened_opening hn] at h
      by_cases hk : k ∈ opened
      · rw [List.insert_of_mem hk] at h
        exact .inl ⟨h, fun _ _ _ _ => rfl⟩
      · rw [List.insert_of_not_mem hk] at h
        rcases List.sublist_cons_iff.mp h with h | ⟨l', rfl, hl'⟩
        · exact .inl ⟨h, fun _ _ _ _ => rfl⟩
        · exact .inr ⟨k, l', tag, s, rfl, hl', rfl, hn, hk⟩
    | closing tag s =>
      have hn : tag.elementName? = some k := hn
      rw [Edge.nextOpened_closing hn] at h
      refine .inl ⟨h.trans (List.erase_sublist ..), fun tag' n hn' hm =>
        decide_eq_false fun hr => ?_⟩
      rw [(Tag.elementName?_eq_some_iff hn').mpr hr] at hn
      obtain rfl := Option.some.inj hn
      exact hnodup.not_mem_erase (h.subset hm)

theorem sublist_nextOpened (h : l.Sublist opened) (hs : e.Spares l) :
    l.Sublist (e.nextOpened opened) := by
  cases hn : e.tag.elementName? with
  | none => rwa [Edge.nextOpened_of_none hn]
  | some k =>
    cases e with
    | opening tag s =>
      have hn : tag.elementName? = some k := hn
      rw [Edge.nextOpened_opening hn]
      by_cases hk : k ∈ opened
      · rwa [List.insert_of_mem hk]
      · rw [List.insert_of_not_mem hk]
        exact List.sublist_cons_of_sublist k h
    | closing tag s =>
      have hn : tag.elementName? = some k := hn
      have hk : k ∉ l := fun hk => absurd (hs tag k hn hk) (by simp [Edge.closes])
      rw [Edge.nextOpened_closing hn, ← List.erase_of_not_mem hk]
      exact h.erase k

theorem sublist_openedAfter {es : List Edge} (h : l.Sublist opened) (hs : ∀ e ∈ es, e.Spares l) :
    l.Sublist (openedAfter opened es) := by
  induction es generalizing opened with
  | nil => exact h
  | cons e es ih =>
    exact ih (sublist_nextOpened h (hs e (List.mem_cons_self ..))) fun f hf =>
      hs f (List.mem_cons_of_mem _ hf)

end

/-! ## Crossing pairs -/

theorem notMem_openedAfter {es : List Edge} {tag : Tag} {n : Text}
    (hn : tag.elementName? = some n) : n ∉ openedAfter [] es ↔ tag.rule ∉ insideAfter ∅ es :=
  ((agrees_openedAfter es).mem_iff tag n hn).not

/-- An open element has been opened by a tag of a pair and not closed since. -/
theorem exists_opening {es : List Edge} {n : Text} (h : n ∈ openedAfter [] es) :
    ∃ front tag, ∃ s : Spelled (Tag.name tag), ∃ since, es = front ++ .opening tag s :: since ∧
      tag.elementName? = some n ∧ tag.rule ∉ insideAfter ∅ front ∧
      ∀ e ∈ since, e.closes tag.rule = false := by
  -- From the end: the last tag has opened the element, or it has been open before.
  induction es using List.reverseRecOn with
  | nil => exact absurd h List.not_mem_nil
  | append_singleton es e ih =>
    rw [openedAfter_append] at h
    rcases sublist_nextOpened_cases (agrees_openedAfter es).nodup
      (List.singleton_sublist.mpr h) with
      ⟨hl, hs⟩ | ⟨k, l, tag, s, hl, -, rfl, hn, hk⟩
    · obtain ⟨front, tag, s, since, rfl, hn, hfront, hsince⟩ := ih (List.singleton_sublist.mp hl)
      refine ⟨front, tag, s, since ++ [e], by simp, hn, hfront, fun f hf => ?_⟩
      rcases List.mem_append.mp hf with hf | hf
      · exact hsince f hf
      · rw [List.mem_singleton.mp hf]
        exact hs tag n hn (List.mem_singleton_self n)
    · obtain ⟨rfl, -⟩ := List.cons.inj hl
      exact ⟨es, tag, s, [], rfl, hn, (notMem_openedAfter hn).mp hk,
        fun _ h => absurd h List.not_mem_nil⟩

/-- Of two open elements the one in front has been opened inside the other. -/
theorem exists_opening_inside {es : List Edge} {n m : Text}
    (h : [m, n].Sublist (openedAfter [] es)) :
    ∃ front outer, ∃ s : Spelled (Tag.name outer), ∃ since inner, ∃ s' : Spelled (Tag.name inner),
      ∃ after, es = front ++ .opening outer s :: since ++ .opening inner s' :: after ∧
      outer.elementName? = some n ∧ inner.elementName? = some m ∧
      outer.rule ∉ insideAfter ∅ front ∧
      inner.rule ∉ insideAfter ∅ (front ++ .opening outer s :: since) ∧
      (∀ e ∈ since ++ after, e.closes outer.rule = false) ∧
      ∀ e ∈ after, e.closes inner.rule = false := by
  induction es using List.reverseRecOn with
  | nil => cases h
  | append_singleton es e ih =>
    rw [openedAfter_append] at h
    rcases sublist_nextOpened_cases (agrees_openedAfter es).nodup h with
      ⟨hl, hs⟩ | ⟨k, l, inner, s', hl, hsub, rfl, hn', hk⟩
    · obtain ⟨front, outer, s, since, inner, s', after, rfl, hn, hm, hfront, hinner,
        hopen, hopen'⟩ := ih hl
      refine ⟨front, outer, s, since, inner, s', after ++ [e], by simp, hn, hm, hfront, hinner,
        fun f hf => ?_, fun f hf => ?_⟩
      · rw [← List.append_assoc] at hf
        rcases List.mem_append.mp hf with hf | hf
        · exact hopen f hf
        · rw [List.mem_singleton.mp hf]
          exact hs outer n hn (by simp)
      · rcases List.mem_append.mp hf with hf | hf
        · exact hopen' f hf
        · rw [List.mem_singleton.mp hf]
          exact hs inner m hm (by simp)
    · obtain ⟨rfl, rfl⟩ := List.cons.inj hl
      obtain ⟨front, outer, s, since, rfl, hn, hfront, hsince⟩ :=
        exists_opening (List.singleton_sublist.mp hsub)
      refine ⟨front, outer, s, since, inner, s', [], rfl, hn, hn', hfront,
        (notMem_openedAfter hn').mp hk, ?_, fun _ h => absurd h List.not_mem_nil⟩
      rwa [List.append_nil]

theorem sublist_of_opening_inside {front since after : List Edge} {outer inner : Tag} {n m : Text}
    {s : Spelled outer.name} {s' : Spelled inner.name} (houter : outer.elementName? = some n)
    (hinner : inner.elementName? = some m) (hopens : outer.rule ∉ insideAfter ∅ front)
    (hopens' : inner.rule ∉ insideAfter ∅ (front ++ .opening outer s :: since))
    (hopen : ∀ e ∈ since ++ after, e.closes outer.rule = false)
    (hopen' : ∀ e ∈ after, e.closes inner.rule = false) :
    [m, n].Sublist
      (openedAfter [] (front ++ .opening outer s :: since ++ .opening inner s' :: after)) := by
  have hspares {e : Edge} (he : e ∈ since ++ after) : e.Spares [n] := by
    intro tag k hk hm
    obtain rfl := List.mem_singleton.mp hm
    rw [(Tag.elementName?_eq_some_iff houter).mp hk]
    exact hopen e he
  have hfirst : [n].Sublist (openedAfter [] (front ++ .opening outer s :: since)) := by
    rw [openedAfter_append, openedAfter_cons, Edge.nextOpened_opening houter,
      List.insert_of_not_mem ((notMem_openedAfter houter).mpr hopens)]
    refine sublist_openedAfter ?_ fun e he => hspares (List.mem_append_left _ he)
    exact List.singleton_sublist.mpr (List.mem_cons_self ..)
  rw [openedAfter_append, openedAfter_cons, Edge.nextOpened_opening hinner,
    List.insert_of_not_mem ((notMem_openedAfter hinner).mpr hopens')]
  refine sublist_openedAfter (hfirst.cons_cons m) fun e he tag k hk hm => ?_
  rcases List.mem_cons.mp hm with rfl | hm
  · rw [(Tag.elementName?_eq_some_iff hinner).mp hk]
    exact hopen' e he
  · exact hspares (List.mem_append_right _ he) tag k hk hm

/-- Each closing tag of a pair closes the element opened last exactly if no pairs cross. -/
theorem closesLast_iff_not_crossing (es : List Edge) :
    (∀ front e rest, es = front ++ e :: rest → e.ClosesLast (openedAfter [] front)) ↔
      ¬ Crossing es := by
  constructor
  · rintro hlast ⟨houter, hinner, hopens, hopens', hopen, hopen', hcloses⟩
    rename_i front since after rest outer inner closer n m s s' s''
    have hsub : [m, n].Sublist
        (openedAfter [] (front ++ .opening outer s :: since ++ .opening inner s' :: after)) :=
      sublist_of_opening_inside houter hinner hopens hopens' hopen hopen'
    have hcloser : closer.elementName? = some n := (Tag.elementName?_eq_some_iff houter).mpr hcloses
    -- At the closing tag the outer element is in front, and behind the inner one as well.
    have hhead := hlast _ (.closing closer s'') _ rfl n hcloser (hsub.subset (by simp))
    obtain ⟨opened, ho⟩ := List.head?_eq_some_iff.mp hhead
    have hnodup :=
      (agrees_openedAfter (front ++ .opening outer s :: since ++ .opening inner s' :: after)).nodup
    rw [ho] at hsub hnodup
    have hnot : n ∉ opened := (List.nodup_cons.mp hnodup).1
    rcases List.sublist_cons_iff.mp hsub with hsub | ⟨l, hl, hsub⟩
    · exact hnot (hsub.subset (by simp))
    · obtain ⟨rfl, rfl⟩ := List.cons.inj hl
      exact hnot (hsub.subset (by simp))
  · rintro hnone front e rest rfl
    cases e with
    | opening tag s => trivial
    | closing closer s'' =>
      intro n hn hm
      by_contra hhead
      have hpair : ∃ m, [m, n].Sublist (openedAfter [] front) := by
        cases ho : openedAfter [] front with
        | nil => simp [ho] at hm
        | cons m opened =>
          rw [ho] at hm hhead
          have hne : n ≠ m := fun h => hhead (by rw [h]; rfl)
          have hmem : n ∈ opened := (List.mem_cons.mp hm).resolve_left hne
          exact ⟨m, (List.singleton_sublist.mpr hmem).cons_cons m⟩
      obtain ⟨m, hsub⟩ := hpair
      obtain ⟨front, outer, s, since, inner, s', after, rfl, houter, hinner, hopens, hopens', hopen,
        hopen'⟩ := exists_opening_inside hsub
      exact hnone (.intro houter hinner hopens hopens' hopen hopen'
        ((Tag.elementName?_eq_some_iff houter).mp hn))

/-- If no element is left open, the settled row is well nested exactly if no pairs cross. -/
theorem wellNested_settle_iff {done : List Rule} (hall : ∀ r, r ∈ done) {row : Row} (hc : Clean row)
    (hend : ∀ tag : Tag, tag.rule ∉ insideAfter ∅ (edges row)) :
    Html.WellNested (settle done ∅ row) ↔ ¬ Crossing (edges row) := by
  have hroles := tagRoles_settle hall hc ∅
  have hmatched := Agrees.empty.matched_rolesAlong (edges row)
  rw [← closesLast_iff_not_crossing, ← hmatched, ← hroles]
  refine ⟨fun h => h.matched, fun h => ⟨h, ?_⟩⟩
  rw [hroles] at h
  rw [Html.openElements, hroles, Agrees.empty.openAfterAll_rolesAlong h,
    List.eq_nil_iff_forall_not_mem]
  intro n hn
  obtain ⟨tag, htag⟩ := (agrees_openedAfter (edges row)).named n hn
  exact hend tag (((agrees_openedAfter (edges row)).mem_iff tag n htag).mp hn)

end Bracket

end TaskBulletin
