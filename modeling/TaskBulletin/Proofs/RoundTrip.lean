import TaskBulletin.Proofs.Stowing

/-!
# Stowing and putting back

The fragments of a stash go back newest first, and a text is stowed from left to right. So
the token that is put back is always the last one in the text, and behind it stands only
text that is back already. If no stretch between two tokens spells a token, the name of the
last token occurs nowhere else, and stowing and putting back replaces each match where it
stood, whatever is made of it.
-/

namespace TaskBulletin

open Pattern

/-! ## Replacing the last token -/

namespace Text

theorem fields_append_nul_cons (t u : Text) :
    fields (t ++ '\x00' :: u) = ((fields t).1, (fields t).2 ++ (fields u).1 :: (fields u).2) := by
  induction t with
  | nil => exact fields_nul_cons u
  | cons c t ih =>
    by_cases hc : c = '\x00'
    · subst hc
      rw [List.cons_append, fields_nul_cons, ih, fields_nul_cons]
      rfl
    · rw [List.cons_append, fields_cons hc, ih, fields_cons hc]

variable {name new : Text}

theorem replace_of_nul_notMem {t : Text} (ht : '\x00' ∉ t) : replace ('\x00' :: name) new t = t :=
  rewrite_of_silent ((begins_exact '\x00' name).silent ht) _

/-- A token is replaced where it stands last, if no field before it is its name. -/
theorem replace_last {t v : Text} (hname : '\x00' ∉ name) (hv : '\x00' ∉ v)
    (ht : ∀ field ∈ (fields t).2, field ≠ name) :
    replace ('\x00' :: name ++ ['\x00']) new (t ++ ('\x00' :: name ++ ['\x00']) ++ v) =
      t ++ new ++ v := by
  induction t with
  | nil =>
    rw [List.nil_append, replace_append (by simp), List.cons_append, replace_of_nul_notMem hv]
    rfl
  | cons c t ih =>
    have hne : ∀ rest, c :: (t ++ ('\x00' :: name ++ ['\x00']) ++ v) ≠
        ('\x00' :: name ++ ['\x00']) ++ rest := by
      intro rest h
      simp only [List.cons_append, List.append_assoc, List.cons.injEq] at h
      obtain ⟨rfl, h⟩ := h
      have hfirst := congrArg (fun u => (fields u).1) h
      simp only [fields_append_nul_cons, fields_append hname, fields_nul_cons, List.nil_append,
        List.append_nil] at hfirst
      rw [fields_nul_cons] at ht
      exact ht _ (List.mem_cons_self ..) hfirst
    have hlater : ∀ field ∈ (fields t).2, field ≠ name := by
      intro field hfield
      by_cases hc : c = '\x00'
      · subst hc
        rw [fields_nul_cons] at ht
        exact ht field (List.mem_cons_of_mem _ hfield)
      · rw [fields_cons hc] at ht
        exact ht field hfield
    exact (replace_cons hne new).trans (congrArg (c :: ·) (ih hlater))

end Text

/-! ## Matches that stay -/

namespace Pattern

variable {α : Type}

/-- The pieces of a text with the matches that `skip` names written out. -/
def writeOut (spelling : α → Text) (skip : Text → Bool) (ps : List (Piece α)) : List (Piece α) :=
  ps.flatMap fun
    | .plain c => [.plain c]
    | .hit a => if skip (spelling a) then (spelling a).map .plain else [.hit a]

/-- The stretches of a text between two matches that are not skipped. -/
def stretchesBetween (p : Pattern α) (skip : Text → Bool) (t : Text) : List Text :=
  (runsOf (writeOut p.spelling skip (p.pieces t))).tail.dropLast

def unlessSkipped (spelling : α → Text) (skip : Text → Bool) (f : Text → Text) (a : α) : Text :=
  if skip (spelling a) then spelling a else f (spelling a)

variable {spelling : α → Text} {skip : Text → Bool}

theorem writeOut_append (ps qs : List (Piece α)) :
    writeOut spelling skip (ps ++ qs) = writeOut spelling skip ps ++ writeOut spelling skip qs :=
  List.flatMap_append

theorem writeOut_plain (c : Char) : writeOut spelling skip [.plain c] = [c].map .plain := rfl

theorem writeOut_hit_of_skip {a : α} (h : skip (spelling a) = true) :
    writeOut spelling skip [.hit a] = (spelling a).map .plain := by
  simp [writeOut, h]

theorem writeOut_hit {a : α} (h : skip (spelling a) = false) :
    writeOut spelling skip [.hit a] = [.hit a] := by
  simp [writeOut, h]

theorem runsOf_append_hit (ps : List (Piece α)) (a : α) :
    runsOf (ps ++ [.hit a]) = runsOf ps ++ [[]] := by
  induction ps with
  | nil => rfl
  | cons piece ps ih =>
    cases piece with
    | hit b => rw [List.cons_append, runsOf, ih, runsOf, List.cons_append]
    | plain c =>
      rw [List.cons_append, runsOf, ih, runsOf]
      cases h : runsOf ps with
      | nil => exact absurd h (runsOf_ne_nil ps)
      | cons run runs => rfl

theorem dropLast_runsOf_append_map_plain (ps : List (Piece α)) (w : Text) :
    (runsOf (ps ++ w.map .plain)).dropLast = (runsOf ps).dropLast := by
  induction ps with
  | nil =>
    have hw := runsOf_map_plain_append w ([] : List (Piece α))
    rw [List.append_nil] at hw
    rw [List.nil_append, hw]
    rfl
  | cons piece ps ih =>
    have hw := runsOf_ne_nil (ps ++ w.map .plain)
    have hps := runsOf_ne_nil ps
    cases piece with
    | hit b =>
      rw [List.cons_append, runsOf, runsOf, List.dropLast_cons_of_ne_nil hw,
        List.dropLast_cons_of_ne_nil hps, ih]
    | plain c =>
      rw [List.cons_append, runsOf, runsOf]
      cases hruns : runsOf (ps ++ w.map .plain) with
      | nil => exact absurd hruns hw
      | cons run runs =>
        cases hruns' : runsOf ps with
        | nil => exact absurd hruns' hps
        | cons run' runs' =>
          rw [hruns, hruns'] at ih
          cases runs <;> cases runs' <;> simp_all

theorem stretches_append_map_plain (ps : List (Piece α)) (w : Text) :
    (runsOf (ps ++ w.map .plain)).tail.dropLast = (runsOf ps).tail.dropLast := by
  rw [← List.tail_dropLast, ← List.tail_dropLast, dropLast_runsOf_append_map_plain]

end Pattern

namespace Stash

variable {α : Type} {spelling : α → Text} {skip : Text → Bool}

theorem stowPieces_append (ps qs : List (Piece α)) (s : Stash) :
    stowPieces spelling skip (ps ++ qs) s =
      ((stowPieces spelling skip ps s).1 ++
        (stowPieces spelling skip qs (stowPieces spelling skip ps s).2).1,
        (stowPieces spelling skip qs (stowPieces spelling skip ps s).2).2) := by
  induction ps generalizing s with
  | nil => rfl
  | cons piece ps ih =>
    cases piece with
    | plain c => simp only [List.cons_append, stowPieces, ih]
    | hit a =>
      cases h : skip (spelling a) with
      | true =>
        rw [List.cons_append, stowPieces_hit_of_skip h, stowPieces_hit_of_skip h,
          ih, List.append_assoc]
      | false => rw [List.cons_append, stowPieces_hit h, stowPieces_hit h, ih, List.append_assoc]

/-- The runs around the tokens are those around the matches that are not skipped. -/
theorem runsOf_writeOut (n : Nat) (ps : List (Piece α)) :
    runsOf (writeOut spelling skip ps) =
      (stowed spelling skip n ps).1 :: (stowed spelling skip n ps).2.map Prod.snd := by
  induction ps generalizing n with
  | nil => rfl
  | cons piece ps ih =>
    rw [← List.singleton_append, writeOut_append]
    cases piece with
    | plain c => rw [writeOut_plain, runsOf_map_plain_append, ih n]; rfl
    | hit a =>
      cases h : skip (spelling a) with
      | true =>
        rw [writeOut_hit_of_skip h, runsOf_map_plain_append, ih n]
        simp [stowed, h]
      | false =>
        rw [writeOut_hit h, List.singleton_append, runsOf, ih (n + 1)]
        simp [stowed, h]

end Stash

theorem mem_weave {label field : Text} {ts : List (Nat × Text)} (h : field ∈ weave label ts) :
    ∃ x ∈ ts, field = tokenName label x.1 ∨ field = x.2 := by
  induction ts with
  | nil => cases h
  | cons x ts ih =>
    rcases List.mem_cons.mp h with h | h
    · exact ⟨x, List.mem_cons_self .., .inl h⟩
    · rcases List.mem_cons.mp h with h | h
      · exact ⟨x, List.mem_cons_self .., .inr h⟩
      · obtain ⟨y, hy, h⟩ := ih h
        exact ⟨y, List.mem_cons_of_mem _ hy, h⟩

namespace Stash

variable {α : Type} {spelling : α → Text} {skip : Text → Bool} {s : Stash} {f : Text → Text}

/-- The name of the next token is not in a stowed text, if no stretch after a token spells it. -/
theorem ne_tokenName_size {ps : List (Piece α)} (hl : '\x00' ∉ s.label)
    (hps : '\x00' ∉ writeWith spelling ps)
    (hruns : ∀ run ∈ (runsOf (writeOut spelling skip ps)).tail, ∀ k, run ≠ tokenName s.label k) :
    ∀ field ∈ (Text.fields (stowPieces spelling skip ps s).1).2,
      field ≠ tokenName s.label (stowPieces spelling skip ps s).2.size := by
  intro field hfield
  rw [fields_stowPieces hps s hl] at hfield
  obtain ⟨x, hx, rfl | rfl⟩ := mem_weave hfield
  · have hlt := lt_of_mem_stowed x hx
    rw [size_stowPieces, Ne, tokenName_inj]
    omega
  · refine hruns x.2 ?_ _
    rw [runsOf_writeOut s.size, List.tail_cons]
    exact List.mem_map_of_mem hx

theorem putBack_of_nul_notMem (s : Stash) {t : Text} (ht : '\x00' ∉ t) : s.putBack f t = t := by
  induction s using induction_add with
  | empty label => rfl
  | add s fragment ih =>
    rw [putBack_add, nextToken, token_eq, List.cons_append, Text.replace_of_nul_notMem ht, ih]

theorem putBack_stowPieces (hl : '\x00' ∉ s.label) (hf : ∀ x, '\x00' ∉ x → '\x00' ∉ f x)
    {ps : List (Piece α)} {v : Text} (hps : '\x00' ∉ writeWith spelling ps) (hv : '\x00' ∉ v)
    (hruns : ∀ run ∈ (runsOf (writeOut spelling skip ps)).tail.dropLast, ∀ k, run ≠
      tokenName s.label k) :
    (stowPieces spelling skip ps s).2.putBack f ((stowPieces spelling skip ps s).1 ++ v) =
      writeWith (unlessSkipped spelling skip f) ps ++ v := by
  -- From the right: what stands behind the token that goes back next is back already.
  induction ps using List.reverseRecOn generalizing v with
  | nil => exact s.putBack_of_nul_notMem hv
  | append_singleton ps piece ih =>
    rw [writeWith_append, List.mem_append, not_or] at hps
    obtain ⟨hps, hpiece⟩ := hps
    rw [writeOut_append] at hruns
    rw [stowPieces_append, writeWith_append, List.append_assoc, List.append_assoc]
    cases piece with
    | plain c =>
      rw [writeOut_plain, stretches_append_map_plain] at hruns
      refine ih hps (fun h => ?_) hruns
      exact (List.mem_append.mp h).elim hpiece hv
    | hit a =>
      rw [writeWith, writeWith, List.append_nil] at hpiece
      cases h : skip (spelling a) with
      | true =>
        rw [writeOut_hit_of_skip h, stretches_append_map_plain] at hruns
        rw [stowPieces_hit_of_skip h]
        simp only [stowPieces, writeWith, unlessSkipped, h, if_true, List.append_nil]
        refine ih hps (fun h => ?_) hruns
        exact (List.mem_append.mp h).elim hpiece hv
      | false =>
        rw [writeOut_hit h, runsOf_append_hit, List.tail_append_of_ne_nil (runsOf_ne_nil _),
          List.dropLast_concat] at hruns
        have hlast := ne_tokenName_size hl hps hruns
        have hlabel : (stowPieces spelling skip ps s).2.label = s.label := label_stowPieces ..
        have hname := notMem_tokenName hl (by decide) (stowPieces spelling skip ps s).2.size
        have hback : '\x00' ∉ f (spelling a) ++ v := fun hm =>
          (List.mem_append.mp hm).elim (hf _ hpiece) hv
        rw [stowPieces_hit h]
        simp only [stowPieces, writeWith, unlessSkipped, h, List.append_nil, Bool.false_eq_true,
          if_false]
        rw [putBack_add, nextToken, token_eq, hlabel, ← List.append_assoc,
          Text.replace_last hname hv hlast, List.append_assoc]
        exact ih hps hback fun run hrun => hruns run (List.dropLast_subset _ hrun)

/-- Stowing and putting back is the plain substitution: every match that is not skipped gives
what `f` makes of it, and without any change the text is the same again. -/
theorem putBack_stow (p : Pattern α) (skip : Text → Bool) (s : Stash) (hl : '\x00' ∉ s.label)
    {t : Text} (ht : '\x00' ∉ t)
    (hstretch : ∀ u ∈ p.stretchesBetween skip t, ∀ k, u ≠ s.label ++ Text.ofNat k) :
    (∀ f : Text → Text, (∀ x, '\x00' ∉ x → '\x00' ∉ f x) →
        (s.stow p skip t).2.putBack f (s.stow p skip t).1 =
          p.rewrite (unlessSkipped p.spelling skip f) t) ∧
      (s.stow p skip t).2.putBack id (s.stow p skip t).1 = t := by
  have hps : '\x00' ∉ writeWith p.spelling (p.pieces t) := by rwa [p.writeWith_spelling_pieces]
  have hback (f : Text → Text) (hf : ∀ x, '\x00' ∉ x → '\x00' ∉ f x) :
      (s.stow p skip t).2.putBack f (s.stow p skip t).1 =
        p.rewrite (unlessSkipped p.spelling skip f) t := by
    simpa [stow, rewrite] using putBack_stowPieces hl hf hps List.not_mem_nil hstretch
  refine ⟨hback, ?_⟩
  have hid : unlessSkipped p.spelling skip id = p.spelling := by
    funext a
    simp [unlessSkipped]
  rw [hback id (fun _ hx => hx), hid, rewrite, p.writeWith_spelling_pieces]

/-- With a fragment in the stash already, a link comes back escaped and a mention stays. -/
theorem putBack_stow_tags :
    (∀ u ∈ Bracket.anyTag.stretchesBetween Bracket.mentionTag.covers
        "[URL=a&b]TAG[USER=7]x[/URL][B]".toList, ∀ k, u ≠ "TAG".toList ++ Text.ofNat k) ∧
      (∀ x, '\x00' ∉ x → '\x00' ∉ Html.escape x) ∧
      ((Stash.mk "TAG".toList ["[old]".toList]).stow Bracket.anyTag Bracket.mentionTag.covers
          "[URL=a&b]TAG[USER=7]x[/URL][B]".toList).2.putBack Html.escape
        ((Stash.mk "TAG".toList ["[old]".toList]).stow Bracket.anyTag Bracket.mentionTag.covers
          "[URL=a&b]TAG[USER=7]x[/URL][B]".toList).1 =
            "[URL=a&amp;b]TAG[USER=7]x[/URL][B]".toList := by
  have hstretch : ∀ u ∈ Bracket.anyTag.stretchesBetween Bracket.mentionTag.covers
      "[URL=a&b]TAG[USER=7]x[/URL][B]".toList, ∀ k, u ≠ "TAG".toList ++ Text.ofNat k := by
    have hall : ∀ u ∈ Bracket.anyTag.stretchesBetween Bracket.mentionTag.covers
        "[URL=a&b]TAG[USER=7]x[/URL][B]".toList, u = [] ∨ 'x' ∈ u := by decide +kernel
    intro u hu k h
    rcases hall u hu with rfl | hx
    · cases h
    · rw [h] at hx
      exact notMem_tokenName (by decide) (by decide) k hx
  have hescape : ∀ x, '\x00' ∉ x → '\x00' ∉ Html.escape x := by
    intro x hx hm
    rcases Html.mem_escape hm with hm | hm
    · exact hx hm
    · revert hm
      decide
  refine ⟨hstretch, hescape, ?_⟩
  rw [(putBack_stow _ _ _ (by decide) (by decide) hstretch).1 Html.escape hescape]
  decide +kernel

end Stash

end TaskBulletin
