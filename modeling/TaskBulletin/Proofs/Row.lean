import TaskBulletin.Proofs.NestedToken
import TaskBulletin.Proofs.Segment

/-!
# Rows of characters and matches

A text with tokens for some matches is the text of a row of characters and matches. As a token
holds neither the spelling of a match nor a part of one, to replace a match in the text is to put
it into the row, wherever characters of the row spell it. A match that is in the row stays where
it is, and without NULs of its own the text tells what the row is.
-/

namespace TaskBulletin

namespace Pattern

variable {α : Type} (p : Pattern α)

/-- A match that is read wherever it is spelled, begins with a bracket and holds no NUL. -/
structure Replaceable (a : α) : Prop where
  always : p.Always a
  bracket : ∃ w, p.spelling a = '[' :: w
  nul_notMem : '\x00' ∉ p.spelling a

/-- Names of tokens, without NULs and brackets, that tell the found matches apart. -/
structure Names (name : α → Text) (found : List α) : Prop where
  nul_notMem : ∀ a, '\x00' ∉ name a
  bracket_notMem : ∀ a, '[' ∉ name a
  inj : ∀ a ∈ found, ∀ b, name a = name b → a = b

def tokenOf (name : α → Text) (a : α) : Text := '\x00' :: name a ++ ['\x00']

def replaceAll (name : α → Text) : List α → Text → Text
  | [], t => t
  | a :: later, t => replaceAll name later (Text.replace (p.spelling a) (tokenOf name a) t)

/-! ## Places of matches -/

/-- Where the matches of a row begin in its text, counted from `k`. -/
def places : Nat → List (Piece α) → List (Nat × α)
  | _, [] => []
  | k, .plain _ :: ps => places (k + 1) ps
  | k, .hit a :: ps => (k, a) :: places (k + (p.spelling a).length) ps

/-- The place is inside a match of the row. -/
def Inside (k place : Nat) (row : List (Piece α)) : Prop :=
  ∃ before b after, row = before ++ .hit b :: after ∧
    k + (writeWith p.spelling before).length < place ∧
    place < k + (writeWith p.spelling before).length + (p.spelling b).length

section

variable {p} {a : α} {name : α → Text} {k place : Nat}

theorem places_append (k : Nat) (ps qs : List (Piece α)) :
    p.places k (ps ++ qs) =
      p.places k ps ++ p.places (k + (writeWith p.spelling ps).length) qs := by
  induction ps generalizing k with
  | nil => rfl
  | cons piece ps ih =>
    cases piece with
    | plain c =>
      rw [List.cons_append, places, places, ih, writeWith, List.length_cons]
      congr 2
      omega
    | hit b =>
      rw [List.cons_append, places, places, ih, writeWith, List.length_append, Nat.add_assoc]
      rfl

theorem places_map_plain (k : Nat) (t : Text) : p.places k (t.map .plain) = [] := by
  induction t generalizing k with
  | nil => rfl
  | cons c t ih => exact ih (k + 1)

theorem le_of_mem_places {row : List (Piece α)} (h : (place, a) ∈ p.places k row) :
    k ≤ place ∧ place ≤ k + (writeWith p.spelling row).length := by
  induction row generalizing k with
  | nil => cases h
  | cons piece row ih =>
    cases piece with
    | plain c =>
      have := ih h
      rw [writeWith, List.length_cons]
      omega
    | hit b =>
      rw [writeWith, List.length_append]
      rcases List.mem_cons.mp h with h | h
      · obtain ⟨rfl, -⟩ := Prod.mk.inj h
        omega
      · have := ih h
        omega

theorem not_inside_of_mem_places {row : List (Piece α)} (h : (place, a) ∈ p.places k row) :
    ¬ p.Inside k place row := by
  rintro ⟨before, b, after, rfl, hlt, hgt⟩
  rw [places_append, List.mem_append, places, List.mem_cons] at h
  rcases h with h | h | h
  · have := le_of_mem_places h
    omega
  · obtain ⟨rfl, -⟩ := Prod.mk.inj h
    omega
  · have := le_of_mem_places h
    omega

theorem Inside.plain_cons {c : Char} {row : List (Piece α)} (h : p.Inside (k + 1) place row) :
    p.Inside k place (.plain c :: row) := by
  obtain ⟨before, b, after, rfl, hlt, hgt⟩ := h
  refine ⟨.plain c :: before, b, after, rfl, ?_, ?_⟩
  · rw [writeWith, List.length_cons]
    omega
  · rw [writeWith, List.length_cons]
    omega

theorem Inside.hit_cons {b : α} {row : List (Piece α)}
    (h : p.Inside (k + (p.spelling b).length) place row) : p.Inside k place (.hit b :: row) := by
  obtain ⟨before, d, after, rfl, hlt, hgt⟩ := h
  refine ⟨.hit b :: before, d, after, rfl, ?_, ?_⟩
  · rw [writeWith, List.length_append]
    omega
  · rw [writeWith, List.length_append]
    omega

/-! ## Texts with tokens and their rows -/

/-- A text without NULs stands at the front of a row's text exactly if its characters do. -/
theorem prefix_writeWith_iff (name : α → Text) {w : Text} (hw : '\x00' ∉ w) {row : List (Piece α)} :
    w <+: writeWith (tokenOf name) row ↔ w.map .plain <+: row := by
  induction w generalizing row with
  | nil => simp
  | cons c w ih =>
    rw [List.mem_cons, not_or] at hw
    cases row with
    | nil => simp [writeWith]
    | cons piece row =>
      cases piece with
      | plain d =>
        rw [writeWith, List.map_cons, List.cons_prefix_cons, List.cons_prefix_cons, ih hw.2,
          Piece.plain.injEq]
      | hit b =>
        rw [writeWith, tokenOf, List.cons_append, List.cons_append, List.map_cons,
          List.cons_prefix_cons, List.cons_prefix_cons]
        simp [Ne.symm hw.1]

/-- Where the spelling stands in a row, the pattern reads the match in its text. -/
theorem exists_read_of_spelled (ha : p.Replaceable a) {row : List (Piece α)}
    (h : (p.spelling a).map .plain <+: row) :
    ∃ rest, p.read (writeWith p.spelling row) = some (a, rest) := by
  obtain ⟨rest, rfl⟩ := h
  rw [writeWith_append, writeWith_map_plain]
  exact ⟨_, ha.always _⟩

theorem writeWith_tokenOf_inj {found : List α} (hname : Names name found)
    {row row' : List (Piece α)} (hplain : ∀ c, .plain c ∈ row → c ≠ '\x00')
    (hplain' : ∀ c, .plain c ∈ row' → c ≠ '\x00') (hhit : ∀ a, .hit a ∈ row → a ∈ found)
    (h : writeWith (tokenOf name) row = writeWith (tokenOf name) row') : row = row' := by
  induction row generalizing row' with
  | nil =>
    cases row' with
    | nil => rfl
    | cons piece row' => cases piece <;> simp [writeWith, tokenOf] at h
  | cons piece row ih =>
    cases row' with
    | nil => cases piece <;> simp [writeWith, tokenOf] at h
    | cons piece' row' =>
      have hrest : writeWith (tokenOf name) row = writeWith (tokenOf name) row' → row = row' :=
        ih (fun c hc => hplain c (List.mem_cons_of_mem _ hc))
          (fun c hc => hplain' c (List.mem_cons_of_mem _ hc)) fun a ha =>
            hhit a (List.mem_cons_of_mem _ ha)
      cases piece with
      | plain c =>
        have hc := hplain c (List.mem_cons_self ..)
        cases piece' with
        | plain d =>
          obtain ⟨rfl, htail⟩ := List.cons.inj h
          rw [hrest htail]
        | hit b => exact absurd (List.cons.inj h).1 hc
      | hit a =>
        cases piece' with
        | plain d => exact absurd (List.cons.inj h).1.symm (hplain' d (List.mem_cons_self ..))
        | hit b =>
          have htext : name a ++ '\x00' :: writeWith (tokenOf name) row =
              name b ++ '\x00' :: writeWith (tokenOf name) row' := by
            simpa [writeWith, tokenOf] using h
          have hab := append_nul_inj (hname.nul_notMem a) (hname.nul_notMem b) htext
          obtain rfl := hname.inj a (hhit a (List.mem_cons_self ..)) b hab
          rw [hrest (List.cons.inj (List.append_cancel_left htext)).2]

theorem tokensFor_eq_replaceAll {label : Text} {n : Nat} {found : List α}
    (h : ∀ i a, found[i]? = some a → name a = tokenName label (n + i)) (t : Text) :
    Stash.tokensFor label n (found.map p.spelling) t = p.replaceAll name found t := by
  induction found generalizing n t with
  | nil => rfl
  | cons a found ih =>
    have hfirst := h 0 a rfl
    have hrest : ∀ i b, found[i]? = some b → name b = tokenName label (n + 1 + i) := by
      intro i b hb
      rw [h (i + 1) b hb, Nat.add_assoc, Nat.add_comm i]
    rw [replaceAll, ← ih hrest, tokenOf, hfirst]
    rfl

end

variable [DecidableEq α]

/-! ## Putting a match into a row -/

/-- Put a match into a row wherever plain characters spell it, leftmost first. -/
def gather (a : α) : List (Piece α) → List (Piece α)
  | [] => []
  | .hit b :: ps => .hit b :: gather a ps
  | .plain c :: ps =>
    if (p.spelling a).map .plain <+: .plain c :: ps then
      .hit a :: gather a (ps.drop ((p.spelling a).length - 1))
    else .plain c :: gather a ps
termination_by row => row.length
decreasing_by
  · exact Nat.lt_succ_self ps.length
  · rw [List.length_drop, List.length_cons]
    omega
  · exact Nat.lt_succ_self ps.length

def gatherAll : List α → List (Piece α) → List (Piece α)
  | [], row => row
  | a :: later, row => gatherAll later (p.gather a row)

variable {p} {a : α} {name : α → Text} {k place : Nat}

theorem gather_spelling_append (ha : p.Replaceable a) (row : List (Piece α)) :
    p.gather a ((p.spelling a).map .plain ++ row) = .hit a :: p.gather a row := by
  obtain ⟨w, hw⟩ := ha.bracket
  have hrow : (p.spelling a).map .plain ++ row = .plain '[' :: (w.map .plain ++ row) := by
    rw [hw]; rfl
  have hdrop : (w.map Piece.plain ++ row).drop ((p.spelling a).length - 1) = row := by
    rw [hw, List.length_cons, Nat.add_sub_cancel, ← List.length_map (f := Piece.plain),
      List.drop_left]
  have hprefix : (p.spelling a).map .plain <+: .plain '[' :: (w.map .plain ++ row) :=
    hrow ▸ List.prefix_append ..
  rw [hrow, gather, if_pos hprefix, hdrop]

theorem gather_plain {c : Char} {row : List (Piece α)}
    (h : ¬ (p.spelling a).map .plain <+: .plain c :: row) :
    p.gather a (.plain c :: row) = .plain c :: p.gather a row := by
  rw [gather, if_neg h]

theorem gather_hit (b : α) (row : List (Piece α)) :
    p.gather a (.hit b :: row) = .hit b :: p.gather a row := by
  rw [gather]

/-- A row is gathered from its front: a match, a stretch that spells the match, or a character. -/
theorem induction_gather (ha : p.Replaceable a) {motive : List (Piece α) → Prop}
    (row : List (Piece α)) (nil : motive []) (hit : ∀ b row, motive row → motive (.hit b :: row))
    (spelled : ∀ row, motive row → motive ((p.spelling a).map .plain ++ row))
    (plain : ∀ c row, ¬ (p.spelling a).map .plain <+: .plain c :: row → motive row →
      motive (.plain c :: row)) : motive row := by
  induction hn : row.length using Nat.strong_induction_on generalizing row with
  | _ n ih =>
    subst hn
    cases row with
    | nil => exact nil
    | cons piece row =>
      have hrow := ih row.length (Nat.lt_succ_self _) row rfl
      cases piece with
      | hit b => exact hit b row hrow
      | plain c =>
        by_cases h : (p.spelling a).map .plain <+: .plain c :: row
        · obtain ⟨rest, hrest⟩ := h
          obtain ⟨w, hw⟩ := ha.bracket
          rw [← hrest]
          refine spelled rest (ih rest.length ?_ rest rfl)
          rw [← hrest, hw, List.length_append, List.length_map, List.length_cons]
          omega
        · exact plain c row h hrow

theorem writeWith_spelling_gather (ha : p.Replaceable a) (row : List (Piece α)) :
    writeWith p.spelling (p.gather a row) = writeWith p.spelling row := by
  induction row using induction_gather ha with
  | nil => rw [gather]
  | hit b row ih => rw [gather_hit, writeWith, writeWith, ih]
  | spelled row ih =>
    rw [gather_spelling_append ha, writeWith, writeWith_append, writeWith_map_plain, ih]
  | plain c row h ih => rw [gather_plain h, writeWith, writeWith, ih]

theorem places_subset_gather (ha : p.Replaceable a) (k : Nat) (row : List (Piece α)) :
    p.places k row ⊆ p.places k (p.gather a row) := by
  induction row using induction_gather ha generalizing k with
  | nil => rw [gather]; exact List.Subset.refl _
  | hit b row ih =>
    rw [gather_hit, places, places]
    exact List.cons_subset_cons _ (ih _)
  | spelled row ih =>
    rw [gather_spelling_append ha, places_append, places_map_plain, writeWith_map_plain,
      List.nil_append, places]
    exact List.subset_cons_of_subset _ (ih _)
  | plain c row h ih =>
    rw [gather_plain h, places, places]
    exact ih _

theorem mem_of_hit_mem_gather (ha : p.Replaceable a) {b : α} {row : List (Piece α)}
    (h : .hit b ∈ p.gather a row) : b = a ∨ .hit b ∈ row := by
  induction row using induction_gather ha with
  | nil => rw [gather] at h; cases h
  | hit d row ih =>
    rw [gather_hit] at h
    rcases List.mem_cons.mp h with h | h
    · exact .inr (h ▸ List.mem_cons_self ..)
    · exact (ih h).imp_right (List.mem_cons_of_mem _)
  | spelled row ih =>
    rw [gather_spelling_append ha] at h
    rcases List.mem_cons.mp h with h | h
    · exact .inl (Piece.hit.inj h)
    · exact (ih h).imp_right (List.mem_append_right _)
  | plain c row hc ih =>
    rw [gather_plain hc] at h
    rcases List.mem_cons.mp h with h | h
    · cases h
    · exact (ih h).imp_right (List.mem_cons_of_mem _)

/-- To replace a match in the text of a row is to put it into the row. -/
theorem replace_writeWith (ha : p.Replaceable a) (hname : ∀ b, '[' ∉ name b)
    (row : List (Piece α)) :
    Text.replace (p.spelling a) (tokenOf name a) (writeWith (tokenOf name) row) =
      writeWith (tokenOf name) (p.gather a row) := by
  obtain ⟨w, hw⟩ := ha.bracket
  induction row using induction_gather ha with
  | nil =>
    rw [gather]
    exact Text.replace_nil ..
  | hit b row ih =>
    -- The spelling begins with a bracket, and no bracket is in a token.
    have hsilent : (exact (p.spelling a)).Silent (tokenOf name b) := by
      rw [hw]
      refine (begins_exact '[' w).silent ?_
      simpa [tokenOf] using hname b
    rw [gather_hit, writeWith, writeWith, ← ih]
    exact rewrite_append_of_silent hsilent ..
  | spelled row ih =>
    rw [gather_spelling_append ha, writeWith_append, writeWith_map_plain, writeWith, ← ih]
    exact Text.replace_append (by simp [hw]) ..
  | plain c row h ih =>
    rw [gather_plain h, writeWith, writeWith, ← ih]
    refine Text.replace_cons (fun rest hrest => h ?_) _
    rw [← prefix_writeWith_iff name ha.nul_notMem, writeWith, hrest]
    exact List.prefix_append ..

/-- A stretch of characters that the spelling does not begin in stays. -/
theorem gather_map_plain_append {t : Text} {row : List (Piece α)}
    (h : ∀ v, v ≠ [] → v <:+ t → ¬ (p.spelling a).map .plain <+: v.map .plain ++ row) :
    p.gather a (t.map .plain ++ row) = t.map .plain ++ p.gather a row := by
  induction t with
  | nil => rfl
  | cons c t ih =>
    have hfirst := h (c :: t) (List.cons_ne_nil c t) List.suffix_rfl
    rw [List.map_cons, List.cons_append] at hfirst ⊢
    rw [gather_plain hfirst, ih fun v hv hs => h v hv (hs.trans (List.suffix_cons ..))]
    rfl

theorem exists_place_of_spelled (ha : p.Replaceable a) {t v : Text} {row : List (Piece α)}
    (hv : v ≠ []) (hs : v <:+ t) (h : (p.spelling a).map .plain <+: v.map .plain ++ row) (k : Nat) :
    ∃ place, (place, a) ∈ p.places k (p.gather a (t.map .plain ++ row)) ∧ place < k + t.length := by
  induction t generalizing k with
  | nil => exact absurd (List.suffix_nil.mp hs) hv
  | cons c t ih =>
    by_cases hfirst : (p.spelling a).map .plain <+: (c :: t).map .plain ++ row
    · obtain ⟨rest, hrest⟩ := hfirst
      rw [← hrest, gather_spelling_append ha, places]
      exact ⟨k, List.mem_cons_self .., Nat.lt_add_of_pos_right (Nat.succ_pos _)⟩
    · have hsuffix : v <:+ t := by
        rcases List.suffix_cons_iff.mp hs with rfl | hs
        · exact absurd h hfirst
        · exact hs
      obtain ⟨place, hplace, hlt⟩ := ih hsuffix (k + 1)
      rw [List.map_cons, List.cons_append] at hfirst ⊢
      rw [gather_plain hfirst, places]
      exact ⟨place, hplace, by rw [List.length_cons]; omega⟩

/-! ## Putting one match after another -/

theorem writeWith_spelling_gatherAll {later : List α} (hlater : ∀ a ∈ later, p.Replaceable a)
    (row : List (Piece α)) :
    writeWith p.spelling (p.gatherAll later row) = writeWith p.spelling row := by
  induction later generalizing row with
  | nil => rfl
  | cons a later ih =>
    obtain ⟨ha, hrest⟩ := List.forall_mem_cons.mp hlater
    rw [gatherAll, ih hrest, writeWith_spelling_gather ha]

theorem mem_of_hit_mem_gatherAll {later : List α} (hlater : ∀ a ∈ later, p.Replaceable a) {b : α}
    {row : List (Piece α)} (h : .hit b ∈ p.gatherAll later row) : b ∈ later ∨ .hit b ∈ row := by
  induction later generalizing row with
  | nil => exact .inr h
  | cons a later ih =>
    obtain ⟨ha, hrest⟩ := List.forall_mem_cons.mp hlater
    rcases ih hrest h with h | h
    · exact .inl (List.mem_cons_of_mem _ h)
    · refine (mem_of_hit_mem_gather ha h).imp_left ?_
      rintro rfl
      exact List.mem_cons_self ..

theorem places_subset_gatherAll {later : List α} (hlater : ∀ a ∈ later, p.Replaceable a) (k : Nat)
    (row : List (Piece α)) : p.places k row ⊆ p.places k (p.gatherAll later row) := by
  induction later generalizing row with
  | nil => exact List.Subset.refl _
  | cons a later ih =>
    obtain ⟨ha, hrest⟩ := List.forall_mem_cons.mp hlater
    exact List.Subset.trans (places_subset_gather ha k row) (ih hrest _)

/-- To replace one match after another is to put them into the row. -/
theorem replaceAll_writeWith {found : List α} (hfound : ∀ a ∈ found, p.Replaceable a)
    (hname : ∀ b, '[' ∉ name b) (row : List (Piece α)) :
    p.replaceAll name found (writeWith (tokenOf name) row) =
      writeWith (tokenOf name) (p.gatherAll found row) := by
  induction found generalizing row with
  | nil => rfl
  | cons a found ih =>
    obtain ⟨ha, hrest⟩ := List.forall_mem_cons.mp hfound
    rw [replaceAll, gatherAll, replace_writeWith ha hname, ih hrest]

end Pattern

end TaskBulletin
