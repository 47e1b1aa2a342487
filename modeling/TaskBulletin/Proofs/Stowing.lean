import TaskBulletin.Bracket.Conversion
import TaskBulletin.Proofs.Spelling
import TaskBulletin.Proofs.Token

/-!
# A text with its tags stashed

Stashing cuts a text into runs and tokens. If no run between two tokens spells a
token itself, putting the tags back escaped gives the escaped text.
-/

namespace TaskBulletin

open Pattern

/-! ## Escaped fields -/

theorem fields_escape (t : Text) :
    Text.fields (Html.escape t) =
      (Html.escape (Text.fields t).1, (Text.fields t).2.map Html.escape) := by
  induction t with
  | nil => rfl
  | cons c t ih =>
    by_cases hc : c = '\x00'
    · subst hc
      have he : Html.escapeChar '\x00' = ['\x00'] := by decide
      rw [Html.escape_cons, he, List.singleton_append, Text.fields_nul_cons,
        Text.fields_nul_cons, ih]
      rfl
    · have hn : '\x00' ∉ Html.escapeChar c := by
        intro hm
        have hm : '\x00' ∈ Html.escape [c] := by simpa [Html.escape] using hm
        rcases Html.mem_escape hm with hm | hm
        · exact hc (List.mem_singleton.mp hm).symm
        · revert hm
          decide
      rw [Html.escape_cons, Text.fields_append hn, ih, Text.fields_cons hc, Html.escape_cons]

theorem escape_of_amp_notMem {t : Text} (h : '&' ∉ Html.escape t) : Html.escape t = t := by
  induction t with
  | nil => rfl
  | cons c t ih =>
    rw [Html.escape_cons, List.mem_append, not_or] at h
    have hc : Html.escapeChar c = [c] := by
      rcases Html.escapeChar_cases c with ⟨-, hc⟩ | ⟨-, _, -, hc⟩
      · exact hc
      · rw [hc] at h
        exact absurd (List.mem_cons_self ..) h.1
    rw [Html.escape_cons, hc, ih h.2]
    rfl

theorem escape_eq_self {t : Text} (hamp : '&' ∉ t) (hlt : '<' ∉ t) (hgt : '>' ∉ t) :
    Html.escape t = t := by
  apply escape_of_amp_notMem
  intro hm
  obtain ⟨c, hc, he⟩ := List.mem_flatMap.mp hm
  have hne {d : Char} (hd : d ∉ t) : c ≠ d := fun h => hd (h ▸ hc)
  rw [Html.escapeChar_of_ne (hne hamp) (hne hlt) (hne hgt), List.mem_singleton] at he
  exact hne hamp he.symm

theorem escape_tokenName {label : Text} (hl : ∀ c ∈ "&<>".toList, c ∉ label) (k : Nat) :
    Html.escape (tokenName label k) = tokenName label k := by
  apply escape_eq_self
  · exact notMem_tokenName (hl _ (by decide)) (by decide) k
  · exact notMem_tokenName (hl _ (by decide)) (by decide) k
  · exact notMem_tokenName (hl _ (by decide)) (by decide) k

theorem escape_weave {label : Text} (hl : ∀ c ∈ "&<>".toList, c ∉ label)
    (ts : List (Nat × Text)) :
    (weave label ts).map Html.escape = weave label (ts.map fun x => (x.1, Html.escape x.2)) := by
  induction ts with
  | nil => rfl
  | cons t ts ih => simp only [weave, List.map_cons, escape_tokenName hl, ih]

theorem eq_of_escape_eq_tokenName {label : Text} (hl : '&' ∉ label) {t : Text} {k : Nat}
    (h : Html.escape t = tokenName label k) : t = tokenName label k := by
  rw [← h, escape_of_amp_notMem]
  rw [h]
  exact notMem_tokenName hl (by decide) k

namespace Stash

variable {α : Type} {p : Pattern α} {spelling : α → Text} {skip : Text → Bool}

/-! ## What a stash takes from a text -/

@[simp] theorem label_stowPieces (spelling : α → Text) (ps : List (Piece α)) (s : Stash) :
    (stowPieces spelling skip ps s).2.label = s.label := by
  fun_induction stowPieces spelling skip ps s <;> simp_all

theorem mem_fragments_stow {s : Stash} {t x : Text} (h : x ∈ (s.stow p skip t).2.fragments) :
    x ∈ s.fragments ∨ ∃ a ∈ p.hits t, x = p.spelling a ∧ skip x = false := by
  simp only [Pattern.mem_hits_iff]
  rw [stow] at h
  generalize p.pieces t = ps at h
  induction ps generalizing s with
  | nil => exact .inl h
  | cons piece ps ih =>
    cases piece with
    | plain c =>
      rcases ih h with h | ⟨a, ha, h⟩
      · exact .inl h
      · exact .inr ⟨a, List.mem_cons_of_mem _ ha, h⟩
    | hit b =>
      rw [stowPieces] at h
      cases hs : skip (p.spelling b) with
      | true =>
        rw [hs, if_pos rfl] at h
        rcases ih h with h | ⟨a, ha, h⟩
        · exact .inl h
        · exact .inr ⟨a, List.mem_cons_of_mem _ ha, h⟩
      | false =>
        rw [hs, if_neg (by simp)] at h
        rcases ih h with h | ⟨a, ha, h⟩
        · rcases List.mem_append.mp h with h | h
          · exact .inl h
          · rw [List.mem_singleton] at h
            exact .inr ⟨b, List.mem_cons_self .., h, by rw [h, hs]⟩
        · exact .inr ⟨a, List.mem_cons_of_mem _ ha, h⟩

theorem mem_stow {s : Stash} {t : Text} {c : Char} (h : c ∈ (s.stow p skip t).1) :
    c ∈ t ∨ ∃ k, c ∈ s.token k := by
  have ht := p.writeWith_spelling_pieces t
  rw [← ht]
  rw [stow] at h
  generalize p.pieces t = ps at h
  induction ps generalizing s with
  | nil => cases h
  | cons piece ps ih =>
    cases piece with
    | plain d =>
      rcases List.mem_cons.mp h with rfl | h
      · exact .inl (List.mem_cons_self ..)
      · exact (ih h).imp (List.mem_cons_of_mem _) id
    | hit b =>
      rw [stowPieces] at h
      cases hs : skip (p.spelling b) with
      | true =>
        rw [hs, if_pos rfl] at h
        rcases List.mem_append.mp h with h | h
        · exact .inl (List.mem_append_left _ h)
        · exact (ih h).imp (List.mem_append_right _) id
      | false =>
        rw [hs, if_neg (by simp)] at h
        rcases List.mem_append.mp h with h | h
        · exact .inr ⟨_, h⟩
        · exact (ih h).imp (List.mem_append_right _) id

/-! ## Runs and tokens -/

/-- The first run of a stowed text, and its tokens with the runs after them. -/
def stowed (spelling : α → Text) (skip : Text → Bool) :
    (n : Nat) → List (Piece α) → Text × List (Nat × Text)
  | _, [] => ([], [])
  | n, .plain c :: ps =>
    (c :: (stowed spelling skip n ps).1, (stowed spelling skip n ps).2)
  | n, .hit a :: ps =>
    if skip (spelling a) then
      (spelling a ++ (stowed spelling skip n ps).1, (stowed spelling skip n ps).2)
    else ([], (n, (stowed spelling skip (n + 1) ps).1) :: (stowed spelling skip (n + 1) ps).2)

theorem stowPieces_map_plain (spelling : α → Text) (skip : Text → Bool) (w : Text)
    (ps : List (Piece α)) (s : Stash) :
    stowPieces spelling skip (w.map .plain ++ ps) s =
      (w ++ (stowPieces spelling skip ps s).1, (stowPieces spelling skip ps s).2) := by
  induction w with
  | nil => rfl
  | cons c w ih => simp only [List.map_cons, List.cons_append, stowPieces, ih]

theorem stowPieces_hit_of_skip {a : α} (h : skip (spelling a) = true) (ps : List (Piece α))
    (s : Stash) : stowPieces spelling skip (.hit a :: ps) s =
      (spelling a ++ (stowPieces spelling skip ps s).1, (stowPieces spelling skip ps s).2) := by
  rw [stowPieces, if_pos h]

theorem stowPieces_hit {a : α} (h : skip (spelling a) = false) (ps : List (Piece α)) (s : Stash) :
    stowPieces spelling skip (.hit a :: ps) s =
      (s.nextToken ++ (stowPieces spelling skip ps (s.add (spelling a))).1,
        (stowPieces spelling skip ps (s.add (spelling a))).2) := by
  rw [stowPieces, if_neg (by simp [h])]

theorem fields_stowPieces {ps : List (Piece α)} (hps : '\x00' ∉ writeWith spelling ps) (s : Stash)
    (hl : '\x00' ∉ s.label) :
    Text.fields (stowPieces spelling skip ps s).1 =
      ((stowed spelling skip s.size ps).1, weave s.label (stowed spelling skip s.size ps).2) := by
  induction ps generalizing s with
  | nil => rfl
  | cons piece ps ih =>
    cases piece with
    | plain c =>
      rw [writeWith, List.mem_cons, not_or] at hps
      rw [stowPieces, Text.fields_cons (Ne.symm hps.1), ih hps.2 s hl]
      rfl
    | hit a =>
      rw [writeWith, List.mem_append, not_or] at hps
      cases h : skip (spelling a) with
      | true =>
        rw [stowPieces_hit_of_skip h, Text.fields_append hps.1, ih hps.2 s hl, stowed, if_pos h]
      | false =>
        have hr := ih hps.2 (s.add (spelling a)) hl
        rw [label_add, size_add] at hr
        rw [stowPieces_hit h, nextToken, token_eq, List.cons_append, List.cons_append,
          List.append_assoc, Text.fields_nul_cons,
          Text.fields_append (notMem_tokenName hl (by decide) s.size), List.singleton_append,
          Text.fields_nul_cons, hr, stowed, if_neg (by simp [h]), List.append_nil]
        rfl

theorem fragments_stowPieces (ps : List (Piece α)) (s : Stash) :
    ∃ more, (stowPieces spelling skip ps s).2.fragments = s.fragments ++ more := by
  induction ps generalizing s with
  | nil => exact ⟨[], by simp [stowPieces]⟩
  | cons piece ps ih =>
    cases piece with
    | plain c => exact ih s
    | hit a =>
      cases h : skip (spelling a) with
      | true =>
        rw [stowPieces_hit_of_skip h]
        exact ih s
      | false =>
        obtain ⟨more, hm⟩ := ih (s.add (spelling a))
        refine ⟨spelling a :: more, ?_⟩
        rw [stowPieces_hit h, hm]
        simp [add]

theorem filled_stowed (ps : List (Piece α)) (s : Stash) :
    filled ((stowPieces spelling skip ps s).2.meaning Html.escape)
        (Html.escape (stowed spelling skip s.size ps).1)
        ((stowed spelling skip s.size ps).2.map fun x => (x.1, Html.escape x.2)) =
      Html.escape (writeWith spelling ps) := by
  induction ps generalizing s with
  | nil => rfl
  | cons piece ps ih =>
    cases piece with
    | plain c =>
      have := ih s
      simp only [filled, stowed, writeWith, stowPieces, Html.escape_cons,
        List.append_assoc] at this ⊢
      rw [this]
    | hit a =>
      cases h : skip (spelling a) with
      | true =>
        have := ih s
        rw [stowPieces_hit_of_skip h, stowed, if_pos h, writeWith, Html.escape_append,
          Html.escape_append, ← this]
        simp [filled]
      | false =>
        have := ih (s.add (spelling a))
        rw [size_add] at this
        obtain ⟨more, hm⟩ := @fragments_stowPieces α spelling skip ps (s.add (spelling a))
        have hn : (stowPieces spelling skip ps (s.add (spelling a))).2.meaning Html.escape s.size =
            Html.escape (spelling a) := by
          rw [meaning, hm]
          simp [add, size]
        rw [stowPieces_hit h, stowed, if_neg (by simp [h]), writeWith, Html.escape_append, ← this]
        simp [filled, hn]

theorem size_stowPieces (ps : List (Piece α)) (s : Stash) :
    (stowPieces spelling skip ps s).2.size =
      s.size + (stowed spelling skip s.size ps).2.length := by
  induction ps generalizing s with
  | nil => rfl
  | cons piece ps ih =>
    cases piece with
    | plain c => exact ih s
    | hit a =>
      cases h : skip (spelling a) with
      | true =>
        rw [stowPieces_hit_of_skip h, stowed, if_pos h]
        exact ih s
      | false =>
        have := ih (s.add (spelling a))
        rw [size_add] at this
        rw [stowPieces_hit h, stowed, if_neg (by simp [h]), this, List.length_cons]
        omega

theorem lt_of_mem_stowed {n : Nat} {ps : List (Piece α)} :
    ∀ x ∈ (stowed spelling skip n ps).2, x.1 < n + (stowed spelling skip n ps).2.length := by
  induction ps generalizing n with
  | nil => simp [stowed]
  | cons piece ps ih =>
    cases piece with
    | plain c => exact ih
    | hit a =>
      rw [stowed]
      split
      · exact ih
      · intro x hx
        rw [List.length_cons]
        rcases List.mem_cons.mp hx with rfl | hx
        · exact Nat.lt_add_of_pos_right (Nat.succ_pos _)
        · have := ih x hx
          omega

/-- A run between two tokens is a run between two matches, unless a match that was
skipped stands in it. -/
theorem exists_runsOf_stowed {c : Char} (n : Nat) (ps : List (Piece α))
    (hskip : ∀ a, .hit a ∈ ps → skip (spelling a) = true → c ∈ spelling a) :
    ∃ first runs, runsOf ps = first :: runs ∧
      ((stowed spelling skip n ps).1 = first ∨ c ∈ (stowed spelling skip n ps).1) ∧
      ((stowed spelling skip n ps).2 ≠ [] → runs ≠ []) ∧
      ∀ run ∈ ((stowed spelling skip n ps).2.map Prod.snd).dropLast, run ∈ runs.dropLast ∨
        c ∈ run := by
  induction ps generalizing n with
  | nil => exact ⟨[], [], rfl, .inl rfl, fun h => absurd rfl h, by simp [stowed]⟩
  | cons piece ps ih =>
    have ih (n) := ih n fun a ha => hskip a (List.mem_cons_of_mem _ ha)
    cases piece with
    | plain d =>
      obtain ⟨first, runs, hr, hfirst, hne, hmem⟩ := ih n
      refine ⟨d :: first, runs, by rw [runsOf, hr], ?_, hne, hmem⟩
      exact hfirst.imp (congrArg (d :: ·)) (List.mem_cons_of_mem _)
    | hit a =>
      cases h : skip (spelling a) with
      | true =>
        obtain ⟨first, runs, hr, -, hne, hmem⟩ := ih n
        have hc := hskip a (List.mem_cons_self ..) h
        rw [stowed, if_pos h]
        refine ⟨[], first :: runs, by rw [runsOf, hr], .inr (List.mem_append_left _ hc), by simp,
          fun run hrun => (hmem run hrun).imp (fun hm => ?_) id⟩
        cases runs with
        | nil => cases hm
        | cons run' runs => exact List.mem_cons_of_mem _ hm
      | false =>
        obtain ⟨first, runs, hr, hfirst, hne, hmem⟩ := ih (n + 1)
        rw [stowed, if_neg (by simp [h])]
        refine ⟨[], first :: runs, by rw [runsOf, hr], .inl rfl, by simp, fun run hrun => ?_⟩
        rw [List.map_cons] at hrun
        cases hts : (stowed spelling skip (n + 1) ps).2 with
        | nil =>
          rw [hts] at hrun
          cases hrun
        | cons t ts =>
          have hruns : runs ≠ [] := hne (by simp [hts])
          rw [hts] at hrun hmem
          rw [List.dropLast_cons_of_ne_nil hruns]
          rcases List.mem_cons.mp hrun with rfl | hrun
          · exact hfirst.imp (fun he => by rw [he]; exact List.mem_cons_self ..) id
          · exact (hmem run hrun).imp (List.mem_cons_of_mem _) id

/-- Putting the tags back escaped gives the escaped text, if no run between two tags
spells a token. -/
theorem putBack_escape_stowPieces {ps : List (Piece α)} {s : Stash}
    (hps : '\x00' ∉ writeWith spelling ps) (hl : '\x00' ∉ s.label)
    (hlabel : ∀ c ∈ "&<>[".toList, c ∉ s.label)
    (hsafe : ∀ x ∈ (stowPieces spelling skip ps s).2.fragments, Opaque s.label (Html.escape x))
    (hskip : ∀ a, .hit a ∈ ps → skip (spelling a) = true → '[' ∈ spelling a)
    (hruns : ∀ run ∈ (runsOf ps).tail.dropLast, ∀ k, run ≠ tokenName s.label k) :
    (stowPieces spelling skip ps s).2.putBack Html.escape
        (Html.escape (stowPieces spelling skip ps s).1) =
      Html.escape (writeWith spelling ps) := by
  have htags : (stowPieces spelling skip ps s).2.label = s.label := label_stowPieces ..
  have hsize : (stowPieces spelling skip ps s).2.size =
      s.size + (stowed spelling skip s.size ps).2.length := size_stowPieces ..
  have hescaped : ∀ c ∈ "&<>".toList, c ∉ s.label :=
    fun c hc => hlabel c (List.mem_append_left ['['] hc)
  have hfields : Text.fields (Html.escape (stowPieces spelling skip ps s).1) =
      (Html.escape (stowed spelling skip s.size ps).1, weave s.label
        ((stowed spelling skip s.size ps).2.map fun x => (x.1, Html.escape x.2))) := by
    rw [fields_escape, fields_stowPieces hps s hl, escape_weave hescaped]
  have hclear : Clear s.label (stowPieces spelling skip ps s).2.size
      (stowPieces spelling skip ps s).2.size (Html.escape (stowed spelling skip s.size ps).1)
      ((stowed spelling skip s.size ps).2.map fun x => (x.1, Html.escape x.2)) := by
    obtain ⟨first, runs, hr, -, -, hmem⟩ := exists_runsOf_stowed s.size ps hskip
    rw [hr, List.tail_cons] at hruns
    refine clear_of_forall_ne (fun x hx => ?_) (fun m hm _ => hm.le) fun next hnext m he => ?_
    · obtain ⟨y, hy, rfl⟩ := List.mem_map.mp hx
      rw [hsize]
      exact lt_of_mem_stowed y hy
    · rw [List.map_map, ← List.map_dropLast] at hnext
      obtain ⟨y, hy, rfl⟩ := List.mem_map.mp hnext
      have he := eq_of_escape_eq_tokenName (hlabel _ (by decide)) he
      have hrun : y.2 ∈ ((stowed spelling skip s.size ps).2.map Prod.snd).dropLast := by
        rw [← List.map_dropLast]
        exact List.mem_map_of_mem hy
      rcases hmem y.2 hrun with hm | hm
      · exact hruns y.2 hm m he
      · rw [he] at hm
        exact absurd hm (notMem_tokenName (hlabel _ (by decide)) (by decide) m)
  rw [putBack_of_clear _ (by rwa [htags]) (by rwa [htags]) (by rw [htags, hfields])
    (by rw [htags]; exact hclear)]
  exact filled_stowed ps s

end Stash

namespace Bracket

theorem begins_anyTag : anyTag.Begins '[' :=
    begins_filter (begins_between (begins_exact '[' []) _ _) _

theorem begins_fileTag : fileTag.Begins '[' := begins_filter (begins_between (begins_word _) _ _) _

theorem begins_mention : mention.Begins '[' :=
  begins_between (begins_between (begins_word "USER=".toList) _ _) _ _

theorem bracket_mem_of_mem_hits {t : Text} {tag : Span Text Text} (h : tag ∈ anyTag.hits t) :
    '[' ∈ anyTag.spelling tag := by
  obtain ⟨m, hm⟩ := begins_anyTag.exists_spelling (reads_of_mem_hits h)
  rw [hm]
  exact List.mem_cons_self ..

theorem opaque_stashTags {source : Text} (hs : '\x00' ∉ source) :
    ∀ x ∈ (stashTags emptyTags source).2.fragments, Opaque emptyTags.label (Html.escape x) := by
  intro x hx
  rcases Stash.mem_fragments_stow hx with hx | ⟨tag, htag, rfl, -⟩
  · cases hx
  · refine Opaque.of_mem ?_ (Html.mem_escape_of_mem (bracket_mem_of_mem_hits htag) (by decide))
      (by decide) (by decide)
    intro hm
    rcases Html.mem_escape hm with hm | hm
    · exact hs (mem_of_mem_spelling htag _ hm)
    · revert hm
      decide

end Bracket

end TaskBulletin
