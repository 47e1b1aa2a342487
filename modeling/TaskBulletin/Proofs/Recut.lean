import TaskBulletin.Proofs.Excerpt
import Mathlib.Data.List.Infix

/-!
# Cutting an excerpt again

The items of an excerpt are those in front of its cut, up to the blanks at their end, then
the ellipsis and closing tags. So a budget that ends in front of those blanks cuts the
excerpt where it cuts the document, and a larger one, up to that of the excerpt, leaves the
excerpt as it is and cuts the document to the same excerpt. A stray angle bracket in front
of the cut can only hide text, and an excerpt that shows no more than its budget is kept.
-/

namespace TaskBulletin

namespace Pattern

variable {α : Type} {p : Pattern α}

theorem exists_not_read_of_plain {t : Text} {c : Char} (h : .plain c ∈ p.pieces t) :
    ∃ u, c :: u <:+ t ∧ p.read (c :: u) = none := by
  fun_induction pieces p t with
  | case1 => cases h
  | case2 d cs a rest hr _ ih =>
    rcases List.mem_cons.mp h with h | h
    · cases h
    · obtain ⟨u, hu, hnone⟩ := ih h
      refine ⟨u, hu.trans ?_, hnone⟩
      rw [p.read_eq hr]
      exact List.suffix_append ..
  | case3 d cs hnone ih =>
    rcases List.mem_cons.mp h with h | h
    · obtain rfl := Piece.plain.inj h
      exact ⟨cs, List.suffix_rfl, hnone⟩
    · obtain ⟨u, hu, hnone⟩ := ih h
      exact ⟨u, hu.trans (List.suffix_cons ..), hnone⟩

theorem exists_mem_runsOf {ps : List (Piece α)} {c : Char} (h : .plain c ∈ ps) :
    ∃ run ∈ runsOf ps, c ∈ run := by
  have hc : c ∈ (runsOf ps).flatten := by
    rw [flatten_runsOf]
    exact mem_writeWith.mpr (.inl h)
  exact List.mem_flatten.mp hc

end Pattern

namespace Html

open Pattern

/-! ## The items in front of a place and behind it -/

theorem tokens_cons {c : Char} (hc : c ≠ '&') (t : Text) : tokens (c :: t) = [c] :: tokens t := by
  rw [tokens, pieces_of_not_read _ (begins_entity c t hc)]
  rfl

theorem OutsideEntities.tokens_eq {before after : List (Piece (Span Text Text))}
    (h : OutsideEntities before after) :
    tokens (lastRun before ++ firstRun after) =
      tokens (lastRun before) ++ tokens (firstRun after) := by
  obtain ⟨us, vs, hp, hus, hvs⟩ := h
  have hfront := pieces_prefix selfDelimiting_entity hp
  have hback := pieces_suffix hp
  rw [hus] at hfront
  rw [hvs] at hback
  rw [tokens, tokens, tokens, hp, hfront, hback, List.map_append]

theorem itemsFrom_append_run {r u : Text} {ps : List (Piece (Span Text Text))}
    (h : tokens (r ++ (u ++ firstRun ps)) = tokens r ++ tokens (u ++ firstRun ps)) :
    itemsFrom (r ++ u) ps = (tokens r).map .token ++ itemsFrom u ps := by
  induction ps generalizing u with
  | nil =>
    rw [firstRun_nil, List.append_nil] at h
    rw [itemsFrom, itemsFrom, h, List.map_append]
  | cons piece ps ih =>
    cases piece with
    | plain c =>
      have hrun : u ++ firstRun (.plain c :: ps) = u ++ [c] ++ firstRun ps := by
        have hfirst := firstRun_map_plain_append [c] ps
        rw [List.append_assoc]
        exact congrArg (u ++ ·) hfirst
      rw [hrun] at h
      rw [itemsFrom, itemsFrom, List.append_assoc, ih h]
    | hit s =>
      rw [firstRun_hit, List.append_nil] at h
      rw [itemsFrom, itemsFrom, h, List.map_append, List.append_assoc]

theorem itemsFrom_append (run : Text) {before after : List (Piece (Span Text Text))}
    (h : tokens (lastRun (run.map .plain ++ before) ++ firstRun after) =
      tokens (lastRun (run.map .plain ++ before)) ++ tokens (firstRun after)) :
    itemsFrom run (before ++ after) = itemsFrom run before ++ itemsFrom [] after := by
  induction before generalizing run with
  | nil =>
    rw [List.append_nil, lastRun_map_plain] at h
    have hrun := itemsFrom_append_run (u := []) h
    rwa [List.append_nil] at hrun
  | cons piece before ih =>
    cases piece with
    | plain c =>
      have hrun : run.map .plain ++ .plain c :: before = (run ++ [c]).map .plain ++ before := by
        simp
      rw [hrun] at h
      exact ih _ h
    | hit s =>
      rw [lastRun_map_plain_hit] at h
      have hrest := ih [] h
      rw [List.cons_append, itemsFrom, itemsFrom, hrest, List.append_assoc]
      rfl

theorem itemsFrom_append_plain {c : Char} (hc : Breaks c) (run : Text)
    (before after : List (Piece (Span Text Text))) :
    itemsFrom run (before ++ .plain c :: after) =
      itemsFrom run before ++ itemsFrom [] (.plain c :: after) := by
  apply itemsFrom_append
  have hfirst : firstRun (.plain c :: after) = c :: firstRun after :=
    firstRun_map_plain_append [c] after
  rw [hfirst, tokens_append_of_breaks hc]

theorem itemsFrom_plain_cons {c : Char} (hc : c ≠ '&') (ps : List (Piece (Span Text Text))) :
    itemsFrom [] (.plain c :: ps) = .token [c] :: itemsFrom [] ps := by
  have htokens : tokens ([c] ++ ([] ++ firstRun ps)) =
      tokens [c] ++ tokens ([] ++ firstRun ps) := by
    rw [tokens_singleton hc]
    exact tokens_cons hc _
  have hrun := itemsFrom_append_run htokens
  rw [tokens_singleton hc] at hrun
  exact hrun

def blankItems (blanks : Text) : List Item := blanks.map fun c => .token [c]

theorem itemsFrom_append_blanks {blanks : Text} (hb : ∀ c ∈ blanks, Text.isBlank c = true)
    (ps : List (Piece (Span Text Text))) :
    itemsFrom [] (ps ++ blanks.map .plain) = itemsFrom [] ps ++ blankItems blanks := by
  induction blanks generalizing ps with
  | nil => simp [blankItems]
  | cons c blanks ih =>
    have hc := hb c (List.mem_cons_self ..)
    have hne : c ≠ '&' := by
      rintro rfl
      revert hc
      decide
    have hrest := ih (fun d hd => hb d (List.mem_cons_of_mem _ hd)) []
    rw [List.nil_append, itemsFrom, tokens_nil] at hrest
    rw [List.map_cons, itemsFrom_append_plain (breaks_of_isBlank hc), itemsFrom_plain_cons hne,
      hrest]
    rfl

theorem itemsFrom_map_hit {ι : Type} (xs : List ι) (f : ι → Span Text Text) :
    itemsFrom [] (xs.map fun x => .hit (f x)) =
      xs.map fun x => .tag (tag.spelling (f x)) (tagRole (f x).content) := by
  induction xs with
  | nil => rw [List.map_nil, itemsFrom, tokens_nil]; rfl
  | cons x xs ih =>
    rw [List.map_cons, itemsFrom, tokens_nil, ih]
    rfl

theorem tokens_ne_nil {t : Text} (h : t ≠ []) : tokens t ≠ [] := by
  intro hnil
  have ht := flatten_tokens t
  rw [hnil] at ht
  exact h ht.symm

theorem exists_token_of_firstRun (run : Text) {ps : List (Piece (Span Text Text))}
    (h : run ++ firstRun ps ≠ []) : ∃ s back, itemsFrom run ps = .token s :: back := by
  induction ps generalizing run with
  | nil =>
    rw [firstRun_nil, List.append_nil] at h
    obtain ⟨s, more, hs⟩ := List.exists_cons_of_ne_nil (tokens_ne_nil h)
    exact ⟨s, _, by rw [itemsFrom, hs]; rfl⟩
  | cons piece ps ih =>
    cases piece with
    | plain c => exact ih _ (by simp)
    | hit a =>
      rw [firstRun_hit, List.append_nil] at h
      obtain ⟨s, more, hs⟩ := List.exists_cons_of_ne_nil (tokens_ne_nil h)
      exact ⟨s, _, by rw [itemsFrom, hs]; rfl⟩

theorem Cut.items_eq {t : Text} (cut : Cut t) :
    items t = itemsFrom [] cut.before ++ itemsFrom [] cut.after := by
  rw [items, cut.pieces_eq]
  exact itemsFrom_append [] cut.outsideEntities.tokens_eq

/-! ## An excerpt from the items in front of its cut -/

/-- What is made of the items in front of a cut: blanks at their end are dropped, and the
ellipsis and the closing tags are added. -/
def endAfter (front : List Item) : Text :=
  Text.trimEnd (front.flatMap Item.text) ++
    ellipsis :: ((openAfterAll [] (front.filterMap Item.role?)).map closingTag).flatten

theorem keep_append_token {budget : Nat} {opened : List Text} {front : List Item} {s : Text}
    {back : List Item} (h : front.countP Item.isToken = budget) :
    keep budget opened (front ++ .token s :: back) =
      ⟨front.flatMap Item.text, some (openAfterAll opened (front.filterMap Item.role?))⟩ := by
  induction front generalizing budget opened with
  | nil =>
    subst h
    rfl
  | cons item front ih =>
    cases item with
    | tag spelled role =>
      rw [List.cons_append, keep, ih h]
      rfl
    | token spelled =>
      rw [List.countP_cons_of_pos rfl] at h
      subst h
      rw [List.cons_append, keep, ih rfl]
      rfl

theorem excerpt_of_items {n : Int} {t : Text} {front : List Item} {s : Text} {back : List Item}
    (h : items t = front ++ .token s :: back) (hcount : front.countP Item.isToken = n) (hn : 1 ≤ n)
    (hlong : n < visibleSize t) : excerpt n t = endAfter front := by
  have hbudget : front.countP Item.isToken = n.toNat := by omega
  rw [excerpt, if_neg (by omega), if_neg (by omega), h]
  simp only [keep_append_token hbudget]
  rfl

theorem countP_blankItems (blanks : Text) :
    (blankItems blanks).countP Item.isToken = blanks.length := by
  have htokens : blankItems blanks = (blanks.map fun c => [c]).map .token := by
    rw [blankItems, List.map_map]
    rfl
  rw [htokens, countP_map_token, List.length_map]

theorem endAfter_append_blankItems {blanks : Text} (hb : ∀ c ∈ blanks, Text.isBlank c = true)
    (front : List Item) : endAfter (front ++ blankItems blanks) = endAfter front := by
  have htext : (blankItems blanks).flatMap Item.text = blanks := by
    rw [blankItems, List.flatMap_map]
    exact List.flatMap_singleton' blanks
  have hroles : (blankItems blanks).filterMap Item.role? = [] := by
    rw [blankItems, List.filterMap_map]
    exact List.filterMap_eq_nil_iff.mpr fun c _ => rfl
  rw [endAfter, List.flatMap_append, List.filterMap_append, htext, hroles,
    List.append_nil, endAfter, Text.trimEnd_append_of_isBlank hb]

/-! ## The items of an excerpt -/

/-- The items of a document around the cut of its excerpt. -/
structure Around (n : Int) (t : Text) where
  front : List Item
  blanks : Text
  next : Text
  back : List Item
  items_eq : items t = front ++ blankItems blanks ++ .token next :: back
  isBlank : ∀ c ∈ blanks, Text.isBlank c = true
  size_eq : (front.countP Item.isToken + blanks.length : Int) = n
  excerpt_eq : excerpt n t = endAfter front

/-- The items of the excerpt: those in front of the blanks, the ellipsis and tags. -/
def Around.Rereads {n : Int} {t : Text} (a : Around n t) : Prop :=
  ∃ closers : List (Text × TagRole), items (excerpt n t) =
    a.front ++ .token [ellipsis] :: closers.map fun x => .tag x.1 x.2

theorem exists_around {n : Int} {t : Text} (hn : 1 ≤ n) (hlong : n < visibleSize t) :
    ∃ a : Around n t, a.Rereads ∨ (visibleSize (excerpt n t) ≤ n ∧ .plain '<' ∈ tag.pieces t) := by
  obtain ⟨cut, hsize, hnext, -, he⟩ := exists_excerpt_eq hn hlong
  obtain ⟨front, blanks, hbefore, hb, htrim, rest, hpieces⟩ := cut.exists_front
  obtain ⟨next, back, hback⟩ := exists_token_of_firstRun [] hnext
  have hfront : itemsFrom [] cut.before = itemsFrom [] front ++ blankItems blanks := by
    rw [hbefore, itemsFrom_append_blanks hb]
  have hitems : items t = itemsFrom [] front ++ blankItems blanks ++ .token next :: back := by
    rw [cut.items_eq, hfront, hback]
  have hcount : ((itemsFrom [] front).countP Item.isToken + blanks.length : Int) = n := by
    have hbefore := countP_itemsFrom [] cut.before
    rw [hfront, List.countP_append, countP_blankItems] at hbefore
    rw [← hsize]
    exact_mod_cast hbefore
  have hexcerpt : excerpt n t = endAfter (itemsFrom [] front) := by
    rw [← endAfter_append_blankItems hb]
    refine excerpt_of_items hitems ?_ hn hlong
    rw [List.countP_append, countP_blankItems]
    exact_mod_cast hcount
  refine ⟨⟨_, blanks, next, back, hitems, hb, hcount, hexcerpt⟩, ?_⟩
  rw [htrim] at he
  rcases pieces_append_or_straddle selfDelimiting_tag hpieces cut.ending with h | ⟨s, h⟩
  · refine .inl ⟨cut.opened.map fun name =>
      (tag.spelling (closingSpan name), tagRole (closingSpan name).content), ?_⟩
    rw [he, items, h, cut.pieces_ending, itemsFrom_append_plain ⟨by decide, by decide⟩,
      itemsFrom_plain_cons (by decide), itemsFrom_map_hit, List.map_map]
    rfl
  · refine .inr ⟨?_, ?_⟩
    · rw [he, ← hsize]
      exact_mod_cast cut.visibleSize_le_of_straddle hbefore hb h
    · rw [hpieces, h.front_eq, (cut.pieces_rest_of_straddle h).1]
      simp

namespace Around

variable {n : Int} {t : Text} (a : Around n t)

/-- A larger budget, up to that of the excerpt, cuts the document to the same excerpt. -/
theorem excerpt_of_le {k : Int} (hk : 1 ≤ k) (hfront : a.front.countP Item.isToken ≤ k)
    (hkn : k ≤ n) (hlong : n < visibleSize t) : excerpt k t = excerpt n t := by
  have hsize := a.size_eq
  obtain ⟨j, hj⟩ : ∃ j : Nat, (a.front.countP Item.isToken + j : Int) = k :=
    ⟨(k - a.front.countP Item.isToken).toNat, by omega⟩
  have hle : j ≤ a.blanks.length := by omega
  have hcount : ((a.front ++ blankItems (a.blanks.take j)).countP Item.isToken : Int) = k := by
    rw [List.countP_append, countP_blankItems, List.length_take, Nat.min_eq_left hle]
    exact_mod_cast hj
  have hb : ∀ c ∈ a.blanks.take j, Text.isBlank c = true :=
    fun c hc => a.isBlank c (List.mem_of_mem_take hc)
  obtain ⟨s, back, hitems⟩ : ∃ s back,
      items t = a.front ++ blankItems (a.blanks.take j) ++ .token s :: back := by
    have hsplit : blankItems a.blanks =
        blankItems (a.blanks.take j) ++ blankItems (a.blanks.drop j) := by
      rw [blankItems, blankItems, blankItems, ← List.map_append, List.take_append_drop]
    rw [a.items_eq, hsplit]
    cases a.blanks.drop j with
    | nil => exact ⟨a.next, a.back, by simp [blankItems]⟩
    | cons c more => exact ⟨[c], blankItems more ++ .token a.next :: a.back, by simp [blankItems]⟩
  rw [a.excerpt_eq, ← endAfter_append_blankItems hb]
  exact excerpt_of_items hitems hcount hk (by omega)

theorem countP_items_excerpt (h : a.Rereads) :
    (items (excerpt n t)).countP Item.isToken = a.front.countP Item.isToken + 1 := by
  obtain ⟨closers, hitems⟩ := h
  have hclosers : (closers.map fun x => Item.tag x.1 x.2).countP Item.isToken = 0 := by
    rw [List.countP_map]
    exact List.countP_eq_zero.mpr fun x _ => Bool.false_ne_true
  rw [hitems, List.countP_append, List.countP_cons_of_pos rfl, hclosers]

theorem excerpt_excerpt_of_le {k : Int} (hk : 1 ≤ k) (hfront : a.front.countP Item.isToken ≤ k)
    (h : a.Rereads) : excerpt k (excerpt n t) = excerpt n t := by
  by_cases hfits : visibleSize (excerpt n t) ≤ k
  · rw [excerpt, if_neg (by omega), if_pos hfits]
  · have hsize := visibleSize_le_sizeByRun (excerpt n t)
    have hcount : (items (excerpt n t)).countP Item.isToken =
        sizeByRun (tag.pieces (excerpt n t)) :=
      countP_itemsFrom [] _
    rw [← hcount, a.countP_items_excerpt h] at hsize
    obtain ⟨closers, hitems⟩ := h
    conv_rhs => rw [a.excerpt_eq]
    exact excerpt_of_items hitems (by omega) hk (by omega)

/-- A budget that ends in front of the blanks cuts the document and the excerpt in front of the
same item. -/
theorem excerpt_excerpt_of_lt {k : Int} (hk : 1 ≤ k) (hfront : k < a.front.countP Item.isToken)
    (h : a.Rereads) (hlong : k < visibleSize t) (hshown : k < visibleSize (excerpt n t)) :
    excerpt k (excerpt n t) = excerpt k t := by
  obtain ⟨closers, hitems⟩ := h
  obtain ⟨front, s, back, hsplit, hcount, -⟩ :=
    (keep_cases k.toNat [] a.front).resolve_right (by omega)
  have hsize : (front.countP Item.isToken : Int) = k := by omega
  have hdocument : items t =
      front ++ .token s :: (back ++ blankItems a.blanks ++ .token a.next :: a.back) := by
    rw [a.items_eq, hsplit]
    simp
  have hagain : items (excerpt n t) = front ++ .token s ::
      (back ++ .token [ellipsis] :: closers.map fun x => .tag x.1 x.2) := by
    rw [hitems, hsplit]
    simp
  rw [excerpt_of_items hdocument hsize hk hlong, excerpt_of_items hagain hsize hk hshown]

end Around

/-- A text cut to a budget is not changed by cutting it to that budget again. -/
theorem excerpt_idem (n : Int) (t : Text) : excerpt n (excerpt n t) = excerpt n t := by
  by_cases hn : n ≤ 0
  · rw [excerpt, if_pos hn, excerpt, if_pos hn]
  by_cases hfits : visibleSize t ≤ n
  · have hkept : excerpt n t = t := by rw [excerpt, if_neg hn, if_pos hfits]
    rw [hkept, hkept]
  · obtain ⟨a, h | ⟨hsmall, -⟩⟩ := exists_around (by omega) (not_le.mp hfits)
    · exact a.excerpt_excerpt_of_le (by omega) (by have := a.size_eq; omega) h
    · rw [excerpt, if_neg hn, if_pos hsmall]

/-! ## Entities that end in their run -/

/-- Every ampersand of a run begins an entity reference that ends in the run. -/
def WholeEntities (run : Text) : Prop := ∀ u, '&' :: u <:+ run → (entity.read ('&' :: u)).isSome

instance decidableWholeEntities (run : Text) : Decidable (WholeEntities run) :=
  decidable_of_iff (∀ u ∈ run.tails, u.head? = some '&' → (entity.read u).isSome) (by
    simp only [List.mem_tails]
    constructor
    · exact fun h u hu => h _ hu rfl
    · intro h u hu hhead
      obtain ⟨v, rfl⟩ := List.head?_eq_some_iff.mp hhead
      exact h v hu)

theorem tokens_append_of_whole {r : Text} (h : ['&'] ∉ tokens r) (u : Text) :
    tokens (r ++ u) = tokens r ++ tokens u := by
  have ht := entity.writeWith_spelling_pieces r
  have hwhole : entity.pieces r = entity.pieces r ++ [] := (List.append_nil _).symm
  rcases pieces_append_or_straddle selfDelimiting_entity hwhole u with hcut | ⟨s, hs⟩
  · rw [ht] at hcut
    rw [tokens, hcut, List.map_append]
    rfl
  · -- A straddling entity would begin at an ampersand that is a token of its own.
    have hfirst : s.first = '&' :=
      (@Straddle.Across.exists_ending '&' ';' isEntityCharacter rfl _ _ _ hs).1
    refine absurd ?_ h
    rw [tokens, hs.front_eq, hfirst]
    simp

theorem length_tokens_plainText (run : Text) {ps : List (Piece (Span Text Text))}
    (h : .token ['&'] ∉ itemsFrom run ps) :
    (tokens (run ++ plainText ps)).length = (itemsFrom run ps).countP Item.isToken := by
  induction ps generalizing run with
  | nil => rw [plainText_nil, List.append_nil, itemsFrom, countP_map_token]
  | cons piece ps ih =>
    cases piece with
    | plain c =>
      have hrun := ih _ h
      rw [List.append_assoc] at hrun
      exact hrun
    | hit s =>
      rw [itemsFrom, List.mem_append, List.mem_cons, not_or, not_or] at h
      have hrun : ['&'] ∉ tokens run := fun hm => h.1 (List.mem_map_of_mem hm)
      have hrest := ih [] h.2.2
      rw [List.nil_append] at hrest
      rw [plainText_hit, tokens_append_of_whole hrun, List.length_append, hrest, itemsFrom,
        List.countP_append, countP_map_token, List.countP_cons_of_neg Bool.false_ne_true]

theorem visibleSize_eq_countP {t : Text} (h : .token ['&'] ∉ items t) :
    visibleSize t = (items t).countP Item.isToken :=
  length_tokens_plainText [] h

theorem exists_run_of_token {run s : Text} {ps : List (Piece (Span Text Text))}
    (h : .token s ∈ itemsFrom run ps) : ∃ r ∈ runsOf (run.map .plain ++ ps), s ∈ tokens r := by
  induction ps generalizing run with
  | nil =>
    rw [itemsFrom, List.mem_map] at h
    obtain ⟨s', hs, he⟩ := h
    obtain rfl := Item.token.inj he
    exact ⟨run, by simp [runsOf_map_plain], hs⟩
  | cons piece ps ih =>
    cases piece with
    | plain c =>
      have hrun : run.map .plain ++ .plain c :: ps = (run ++ [c]).map .plain ++ ps := by simp
      rw [hrun]
      exact ih h
    | hit a =>
      rw [runsOf_map_plain_hit]
      rw [itemsFrom, List.mem_append, List.mem_cons] at h
      rcases h with h | h | h
      · obtain ⟨s', hs, he⟩ := List.mem_map.mp h
        obtain rfl := Item.token.inj he
        exact ⟨run, List.mem_cons_self .., hs⟩
      · cases h
      · obtain ⟨r, hr, hs⟩ := ih h
        exact ⟨r, List.mem_cons_of_mem _ hr, hs⟩

theorem WholeEntities.notMem_tokens {run : Text} (h : WholeEntities run) : ['&'] ∉ tokens run := by
  intro hm
  obtain ⟨piece, hp, he⟩ := List.mem_map.mp hm
  cases piece with
  | plain c =>
    obtain rfl : c = '&' := List.singleton_injective he
    obtain ⟨u, hu, hnone⟩ := exists_not_read_of_plain hp
    have hread := h u hu
    rw [hnone] at hread
    cases hread
  | hit s =>
    obtain ⟨t, rest, hread⟩ := reads_of_mem_pieces hp
    obtain ⟨ho, hc, -⟩ := (@read_delimited_eq_some_iff '&' ';' isEntityCharacter rfl _ _ _).mp hread
    have hspelled : entity.spelling s = '&' :: (s.content ++ [';']) := spelling_delimited ho hc
    have he : entity.spelling s = ['&'] := he
    rw [hspelled] at he
    simp at he

theorem notMem_items_of_whole {t : Text} (h : ∀ run ∈ tag.split t, WholeEntities run) :
    .token ['&'] ∉ items t := by
  intro hm
  obtain ⟨r, hr, hs⟩ := exists_run_of_token hm
  exact (h r hr).notMem_tokens hs

theorem Around.visibleSize_excerpt {n : Int} {t : Text} (a : Around n t) (h : a.Rereads)
    (ht : .token ['&'] ∉ items t) :
    visibleSize (excerpt n t) = a.front.countP Item.isToken + 1 := by
  rw [← a.countP_items_excerpt h]
  apply visibleSize_eq_countP
  obtain ⟨closers, hitems⟩ := h
  rw [a.items_eq, List.append_assoc, List.mem_append, not_or] at ht
  rw [hitems, List.mem_append, List.mem_cons, List.mem_map, not_or, not_or]
  refine ⟨ht.1, fun he => ?_, fun ⟨x, _, he⟩ => by cases he⟩
  exact absurd (Item.token.inj he) (by decide)

/-- If no angle bracket opens outside the tags of a text, and every ampersand outside them begins
an entity, cutting it twice is cutting it once, to the smaller budget. -/
theorem excerpt_excerpt {m n : Int} {t : Text}
    (ht : ∀ run ∈ tag.split t, '<' ∉ run ∧ WholeEntities run) (hn : 1 ≤ n) (hnm : n ≤ m) :
    excerpt n (excerpt m t) = excerpt n t := by
  by_cases hfits : visibleSize t ≤ m
  · have hkept : excerpt m t = t := by rw [excerpt, if_neg (by omega), if_pos hfits]
    rw [hkept]
  obtain ⟨a, h⟩ := exists_around (n := m) (by omega) (not_le.mp hfits)
  have hreads : a.Rereads := by
    refine h.resolve_right fun hstray => ?_
    obtain ⟨run, hrun, hc⟩ := exists_mem_runsOf hstray.2
    exact (ht run hrun).1 hc
  by_cases hfront : a.front.countP Item.isToken ≤ n
  · rw [a.excerpt_excerpt_of_le hn hfront hreads, a.excerpt_of_le hn hfront hnm (by omega)]
  · have hwhole := notMem_items_of_whole fun run hrun => (ht run hrun).2
    have hshown := a.visibleSize_excerpt hreads hwhole
    exact a.excerpt_excerpt_of_lt hn (by omega) hreads (by omega) (by omega)

theorem excerpt_excerpt_nestedEntities :
    (∀ run ∈ tag.split "<b>a &lt;<i>b&amp;</i> \n c</b>d".toList, '<' ∉ run ∧ WholeEntities run) ∧
      (1 : Int) ≤ 3 ∧ (3 : Int) ≤ 6 ∧
      excerpt 3 (excerpt 6 "<b>a &lt;<i>b&amp;</i> \n c</b>d".toList) =
        excerpt 3 "<b>a &lt;<i>b&amp;</i> \n c</b>d".toList := by
  have ht : ∀ run ∈ tag.split "<b>a &lt;<i>b&amp;</i> \n c</b>d".toList,
      '<' ∉ run ∧ WholeEntities run := by
    decide +kernel
  exact ⟨ht, by decide, by decide, excerpt_excerpt ht (by decide) (by decide)⟩

example : excerpt 6 "<b>a &lt;<i>b&amp;</i> \n c</b>d".toList =
    "<b>a &lt;<i>b&amp;</i>…</b>".toList := by decide +kernel

end Html

end TaskBulletin
