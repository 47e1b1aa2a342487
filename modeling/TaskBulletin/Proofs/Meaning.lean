import TaskBulletin.Proofs.Mixed

/-!
# What a document is converted to

The tags of a document are stashed, each of them, and none of them is taken for the tag
of a file or of a mention. As the runs of text spell no token, the tags come back where
they stood, and the rules then make HTML of the document.
-/

namespace TaskBulletin

namespace Bracket

open Pattern

namespace Document

/-! ## The tags of a source -/

theorem valuePart_cases (tag : Tag) :
    tag.valuePart = [] ∨ ∃ run : Run, tag.valuePart = '=' :: run.text := by
  cases tag with
  | style s => exact .inl rfl
  | link v => exact .inr ⟨v, rfl⟩
  | image => exact .inl rfl
  | color v => exact .inr ⟨v, rfl⟩
  | size v => exact .inr ⟨v, rfl⟩

theorem hit_cases {d : Document} {x : Text} (h : .hit x ∈ d.pieces) :
    ∃ name ∈ d.names,
      (∃ s v, s.map Char.toUpper = name ∧ (v = [] ∨ ∃ run : Run, v = '=' :: run.text) ∧
        x = openingTag s v) ∨
      ∃ s, s.map Char.toUpper = name ∧ x = closingTag s := by
  induction d with
  | nil => cases h
  | text run rest ih =>
    rcases List.mem_append.mp h with h | h
    · obtain ⟨c, -, hc⟩ := List.mem_map.mp h
      cases hc
    · exact ih h
  | bareLink opener closer target rest ih =>
    simp only [pieces, List.cons_append, List.mem_cons, List.mem_append, List.mem_map,
      Piece.hit.injEq, reduceCtorEq, and_false, exists_false, false_or] at h
    rcases h with rfl | rfl | h
    · exact ⟨_, List.mem_cons_self .., .inl ⟨_, [], opener.upper, .inl rfl, rfl⟩⟩
    · exact ⟨_, List.mem_cons_self .., .inr ⟨_, closer.upper, rfl⟩⟩
    · obtain ⟨name, hn, hx⟩ := ih h
      exact ⟨name, List.mem_cons_of_mem _ hn, hx⟩
  | element tag opener closer body rest ihb ihr =>
    simp only [pieces, List.cons_append, List.mem_cons, List.mem_append, Piece.hit.injEq] at h
    rcases h with rfl | h | rfl | h
    · exact ⟨_, List.mem_cons_self .., .inl ⟨_, _, opener.upper, valuePart_cases tag, rfl⟩⟩
    · obtain ⟨name, hn, hx⟩ := ihb h
      exact ⟨name, List.mem_cons_of_mem _ (List.mem_append_left _ hn), hx⟩
    · exact ⟨_, List.mem_cons_self .., .inr ⟨_, closer.upper, rfl⟩⟩
    · obtain ⟨name, hn, hx⟩ := ihr h
      exact ⟨name, List.mem_cons_of_mem _ (List.mem_append_right _ hn), hx⟩

theorem plain_cases {d : Document} {c : Char} (h : .plain c ∈ d.pieces) :
    c ≠ '[' ∧ c ≠ ']' ∧ c ≠ '\x00' := by
  induction d with
  | nil => cases h
  | text run rest ih =>
    rcases List.mem_append.mp h with h | h
    · obtain ⟨d, hd, he⟩ := List.mem_map.mp h
      obtain rfl := Piece.plain.inj he
      exact run.plain d hd
    · exact ih h
  | bareLink opener closer target rest ih =>
    simp only [pieces, List.cons_append, List.mem_cons, List.mem_append, List.mem_map,
      Piece.plain.injEq, reduceCtorEq, false_or, exists_eq_right] at h
    rcases h with h | h
    · exact target.plain c h
    · exact ih h
  | element tag opener closer body rest ihb ihr =>
    simp only [pieces, List.cons_append, List.mem_cons, List.mem_append, reduceCtorEq,
      false_or] at h
    rcases h with h | h
    · exact ihb h
    · exact ihr h

end Document

/-! ## Stashing a source -/

/-- A text between square brackets that is not the tag of a mention. -/
def IsTag (x : Text) : Prop :=
  ∃ inner, x = '[' :: (inner ++ [']']) ∧ '[' ∉ inner ∧ ']' ∉ inner ∧ '\x00' ∉ inner ∧
    isMentionBody inner = false

theorem read_bracketed {inner : Text} (hi : ']' ∉ inner) (rest : Text) :
    bracketed.read ('[' :: (inner ++ ']' :: rest)) = some (⟨['['], inner, [']']⟩, rest) := by
  have hopen : (exact ['[']).read ('[' :: (inner ++ ']' :: rest)) =
      some (['['], inner ++ ']' :: rest) := (read_exact_eq_some_iff (by simp)).mpr ⟨rfl, rfl⟩
  have hend : (exact [']']).read (']' :: rest) = some ([']'], rest) :=
    (read_exact_eq_some_iff (by simp)).mpr ⟨rfl, rfl⟩
  have hsilent : (exact [']']).Silent inner := (begins_exact ']' []).silent hi
  have hnot : ∀ c ∈ inner, notBracket c = true := by
    intro c hc
    rw [notBracket, bne_iff_ne]
    rintro rfl
    exact hi hc
  refine read_between_eq_some_iff.mpr ⟨inner ++ ']' :: rest, hopen, ?_⟩
  rw [readTo_append_of_silent hsilent hnot, readTo_of_read hend]
  simp

theorem stowPieces_pieces {ps : List (Piece Text)} (hplain : ∀ c, .plain c ∈ ps → c ≠ '[')
    (hhit : ∀ x, .hit x ∈ ps → IsTag x) (s : Stash) :
    Stash.stowPieces anyTag.spelling mentionTag.covers (anyTag.pieces (writeWith id ps)) s =
      Stash.stowPieces id (fun x => !anyTag.covers x) ps s := by
  induction ps generalizing s with
  | nil => simp [writeWith, Stash.stowPieces]
  | cons piece ps ih =>
    have ih := ih (fun c hc => hplain c (List.mem_cons_of_mem _ hc))
      fun x hx => hhit x (List.mem_cons_of_mem _ hx)
    cases piece with
    | plain c =>
      have hc := hplain c (List.mem_cons_self ..)
      rw [writeWith, pieces_of_not_read _ (begins_anyTag c _ hc), Stash.stowPieces, ih,
        Stash.stowPieces]
    | hit x =>
      obtain ⟨inner, rfl, hb, he, -, hm⟩ := hhit x (List.mem_cons_self ..)
      have hread (rest : Text) := read_bracketed he rest
      have hbrackets : '[' ∉ inner ++ [']'] := by
        rw [List.mem_append, not_or]
        exact ⟨hb, by decide⟩
      have hmention : mentionTag.covers ('[' :: (inner ++ [']'])) = false := by
        rw [covers, mentionTag, read_filter_of_read (hread []), if_neg (by simp [hm])]
      cases ht : isTagBody inner with
      | true =>
        have hany (rest : Text) : anyTag.read ('[' :: (inner ++ ']' :: rest)) =
            some (⟨['['], inner, [']']⟩, rest) :=
          read_filter_eq_some_iff.mpr ⟨hread rest, ht⟩
        have hcovers : anyTag.covers ('[' :: (inner ++ [']'])) = true := by
          rw [covers, hany []]
        have hspell : anyTag.spelling ⟨['['], inner, [']']⟩ = '[' :: (inner ++ [']']) := rfl
        have htext : writeWith id (.hit ('[' :: (inner ++ [']'])) :: ps) =
            '[' :: (inner ++ ']' :: writeWith id ps) := by
          simp [writeWith]
        rw [htext, pieces_of_read _ (hany _), Stash.stowPieces_hit (by rw [hspell, hmention]),
          Stash.stowPieces_hit (by simp [hcovers]), hspell, ih, id]
      | false =>
        have hnone (rest : Text) : anyTag.read ('[' :: (inner ++ [']'] ++ rest)) = none := by
          rw [List.append_assoc, List.singleton_append, anyTag, read_filter_of_read (hread rest),
            if_neg (by simp [ht])]
        have hcovers : anyTag.covers ('[' :: (inner ++ [']'])) = false := by
          have := hnone []
          rw [List.append_nil] at this
          rw [covers, this]
        have hsilent : anyTag.Silent ('[' :: (inner ++ [']'])) :=
          begins_anyTag.silent_cons hbrackets hnone
        rw [writeWith, id, pieces_append_of_silent hsilent, Stash.stowPieces_map_plain, ih,
          Stash.stowPieces_hit_of_skip (by simp [hcovers])]
        rfl

theorem notMem_of_toUpper_mem {s : Text} (hs : ∀ c ∈ s, c.toUpper ∈ Text.capitals) {x : Char}
    (hx : x.toUpper ∉ Text.capitals) : x ∉ s := fun hm => hx (hs x hm)

theorem Ignores.silent_openingTag {α : Type} {p : Pattern α} {name s v : Text} (h : Ignores p name)
    (hs : s.map Char.toUpper = name) (hv : v = [] ∨ ∃ run : Run, v = '=' :: run.text) :
    p.Silent (openingTag s v) := by
  rcases hv with rfl | ⟨run, rfl⟩
  · exact h.opener hs (.inl rfl) List.not_mem_nil
  · have hrun : '[' ∉ run.text ++ [']'] := by
      rw [List.mem_append, not_or]
      exact ⟨run.bracket_notMem, by decide⟩
    exact h.opener hs (.inr rfl) hrun

/-- A name in capitals that is not the name of user mentions. -/
structure IsTagName (name : Text) : Prop where
  capitals : ∀ c ∈ name, c ∈ Text.capitals
  ne_nil : name ≠ []
  not_user : ¬ "USER".toList <+: name

theorem Rule.isTagName (r : Rule) : IsTagName r.name where
  capitals := r.name_capitals
  ne_nil := r.name_ne_nil
  not_user := by
    cases r with
    | style st => cases st <;> decide
    | _ => decide

section

variable {name s : Text} (hn : IsTagName name) (hs : s.map Char.toUpper = name)
include hn hs

theorem isMentionBody_eq_false {v : Text} (hv : ∀ y ∈ v.head?, y ∈ Text.marks) {body : Text}
    (hb : dropSlash body = s ++ v) : isMentionBody body = false := by
  have hnot := hn.not_user
  rw [← hs] at hnot
  rw [isMentionBody, hb, Text.readWord_eq_none_of_not_prefix (by decide)
    (Text.toUpper_mem_capitals hn.capitals hs) hv hnot]

theorem isTag_openingTag {v : Text} (hv : v = [] ∨ ∃ run : Run, v = '=' :: run.text) :
    IsTag (openingTag s v) := by
  have hu := Text.toUpper_mem_capitals hn.capitals hs
  have hplain : ∀ c ∈ v, c ≠ '[' ∧ c ≠ ']' ∧ c ≠ '\x00' := by
    rcases hv with rfl | ⟨run, rfl⟩
    · simp
    · intro c hc
      rcases List.mem_cons.mp hc with rfl | hc
      · decide
      · exact run.plain c hc
  have hnot {y : Char} (hy : y.toUpper ∉ Text.capitals) (hyv : y ∉ v) : y ∉ s ++ v := by
    rw [List.mem_append, not_or]
    exact ⟨notMem_of_toUpper_mem hu hy, hyv⟩
  have hslash : dropSlash (s ++ v) = s ++ v := by
    cases s with
    | nil => exact absurd hs.symm hn.ne_nil
    | cons c s =>
      refine dropSlash_cons ?_ _
      rintro rfl
      exact absurd (hu '/' (List.mem_cons_self ..)) (by decide)
  have hmarks : ∀ y ∈ v.head?, y ∈ Text.marks := by
    rcases hv with rfl | ⟨run, rfl⟩
    · simp
    · intro y hy
      obtain rfl := Option.some.inj hy
      decide
  refine ⟨s ++ v, ?_, hnot (by decide) fun hm => (hplain _ hm).1 rfl,
    hnot (by decide) fun hm => (hplain _ hm).2.1 rfl,
    hnot (by decide) fun hm => (hplain _ hm).2.2 rfl, isMentionBody_eq_false hn hs hmarks hslash⟩
  rw [openingTag, List.append_assoc]
  rfl

theorem isTag_closingTag : IsTag (closingTag s) := by
  have hu := Text.toUpper_mem_capitals hn.capitals hs
  have hnot {y : Char} (hy : y.toUpper ∉ Text.capitals) (hys : y ≠ '/') : y ∉ '/' :: s := by
    rw [List.mem_cons, not_or]
    exact ⟨hys, notMem_of_toUpper_mem hu hy⟩
  refine ⟨'/' :: s, rfl, hnot (by decide) (by decide), hnot (by decide) (by decide),
    hnot (by decide) (by decide), isMentionBody_eq_false hn hs (v := []) (by simp) ?_⟩
  rw [List.append_nil]
  rfl

end

theorem ignores_word_of_ne {n name : Text} {x : Char} (hn : ∀ c ∈ n, c ∈ Text.capitals)
    (hnil : n ≠ []) (hx : x ∈ Text.marks) (hname : ∀ c ∈ name, c ∈ Text.capitals) (hne : n ≠ name)
    (more : Text) : Ignores (word ('[' :: n ++ x :: more)) name := by
  constructor
  · intro s y tail hs hy ht
    have hmark : y ∈ Text.marks := by
      rcases hy with rfl | rfl <;> decide
    refine silent_tag hn (Text.toUpper_mem_capitals hname hs) hx hmark ?_ more ht
    rintro ⟨he, -⟩
    exact hne (he.trans hs)
  · intro s hs
    exact Rule.silent_word_closer hn hnil hx more (Text.toUpper_mem_capitals hname hs)

section

variable {ps : List (Piece Text)}

/-- A pattern that reads in no match of a text reads nowhere in the stowed text. -/
theorem silent_stowPieces {α : Type} {p : Pattern α} (hp : p.Begins '[')
    (hplain : ∀ c, .plain c ∈ ps → c ≠ '[') (hhit : ∀ x, .hit x ∈ ps → p.Silent x)
    (skip : Text → Bool) (s : Stash) (hl : '[' ∉ s.label) :
    p.Silent (Stash.stowPieces id skip ps s).1 := by
  induction ps generalizing s with
  | nil => trivial
  | cons piece ps ih =>
    have ih (s) (hl) := ih (fun c hc => hplain c (List.mem_cons_of_mem _ hc))
      (fun x hx => hhit x (List.mem_cons_of_mem _ hx)) s hl
    cases piece with
    | plain c => exact ⟨fun rest => hp c _ (hplain c (List.mem_cons_self ..)), ih s hl⟩
    | hit x =>
      cases hs : skip (id x) with
      | true =>
        rw [Stash.stowPieces_hit_of_skip hs]
        exact (hhit x (List.mem_cons_self ..)).append (ih s hl)
      | false =>
        rw [Stash.stowPieces_hit hs]
        exact (hp.silent (Stash.notMem_token (by decide) hl (by decide) _)).append
          (ih (s.add (id x)) hl)

variable (hplain : ∀ c, .plain c ∈ ps → c ≠ '[' ∧ c ≠ '\x00') (hhit : ∀ x, .hit x ∈ ps → IsTag x)
include hplain hhit

theorem stashTags_writeWith :
    stashTags emptyTags (writeWith id ps) =
      Stash.stowPieces id (fun x => !anyTag.covers x) ps emptyTags :=
  stowPieces_pieces (fun c hc => (hplain c hc).1) hhit emptyTags

theorem nul_notMem_writeWith : '\x00' ∉ writeWith id ps := by
  rw [mem_writeWith, not_or]
  refine ⟨fun hm => (hplain _ hm).2 rfl, ?_⟩
  rintro ⟨x, hx, hm⟩
  obtain ⟨inner, rfl, -, -, hnul, -⟩ := hhit x hx
  simp [hnul] at hm

/-- Tags come back where they stood, if no run between two of them spells a token. -/
theorem unstash_writeWith
    (hruns : ∀ run ∈ (runsOf ps).tail.dropLast, ∀ k, run ≠ "TAG".toList ++ Text.ofNat k) :
    unstashTags (stashTags emptyTags (writeWith id ps)).2
        (Html.escape (stashTags emptyTags (writeWith id ps)).1) =
      Html.escape (writeWith id ps) := by
  have hnul := nul_notMem_writeWith hplain hhit
  have hbracket {x : Text} (hx : .hit x ∈ ps) : '[' ∈ x := by
    obtain ⟨inner, rfl, -⟩ := hhit x hx
    exact List.mem_cons_self ..
  have hsafe := opaque_stashTags hnul
  rw [stashTags_writeWith hplain hhit] at hsafe ⊢
  exact Stash.putBack_escape_stowPieces hnul (by decide) (by decide) hsafe
    (fun x hx _ => hbracket hx) hruns

end

/-! ## Conversion without references -/

section

variable {σ : Type} (sv : Services σ)

theorem substituteFiles_of_silent {t : Text} (h : fileTag.Silent t) (fragments : Stash) (s : σ) :
    substituteFiles sv fragments t s = .ok (t, fragments, s) := by
  have hnone : fileTags t = .ok [] := by
    rw [fileTags, hits_of_silent h]
    rfl
  rw [substituteFiles, hnone]
  rfl

theorem substituteMentions_of_silent {t : Text} (h : mention.Silent t) (fragments : Stash) (s : σ) :
    substituteMentions sv fragments t s = .ok (t, fragments, s) := by
  have hnone : mentions t = .ok [] := by
    rw [mentions, hits_of_silent h]
    rfl
  rw [substituteMentions, hnone]
  rfl

/-- If no reference is left where the tags are stashed, nothing is asked, and only the passes after
the escaping change the text. -/
theorem convert_of_silent {source : Text} (hfile : fileTag.Silent (stashTags emptyTags source).1)
    (hmention : mention.Silent (stashTags emptyTags source).1) (s : σ) :
    convert sv source s = .ok (finish (unstashTags (stashTags emptyTags source).2
      (Html.escape (stashTags emptyTags source).1)), s) := by
  rw [convert]
  simp only [bind, Except.bind, substituteFiles_of_silent sv hfile,
    substituteMentions_of_silent sv hmention]
  rfl

end

namespace Document

theorem isTag_of_hit {d : Document} {x : Text} (h : .hit x ∈ d.pieces) : IsTag x := by
  obtain ⟨name, hname, hx⟩ := hit_cases h
  obtain ⟨r, rfl⟩ := exists_rule_of_mem_names hname
  rcases hx with ⟨s, v, hs, hv, rfl⟩ | ⟨s, hs, rfl⟩
  · exact isTag_openingTag r.isTagName hs hv
  · exact isTag_closingTag r.isTagName hs

/-- A pattern that ignores the tags of a document reads nowhere in its stowed source. -/
theorem silent_stowed {α : Type} {p : Pattern α} (hp : p.Begins '[') {d : Document}
    (h : ∀ name ∈ d.names, Ignores p name) (skip : Text → Bool) (s : Stash) (hl : '[' ∉ s.label) :
    p.Silent (Stash.stowPieces id skip d.pieces s).1 := by
  refine silent_stowPieces hp (fun c hc => (plain_cases hc).1) (fun x hx => ?_) skip s hl
  obtain ⟨name, hname, hx⟩ := hit_cases hx
  rcases hx with ⟨t, v, ht, hv, rfl⟩ | ⟨t, ht, rfl⟩
  · exact (h name hname).silent_openingTag ht hv
  · exact (h name hname).closer ht

theorem ignores_word {n : Text} {x : Char} (hn : ∀ c ∈ n, c ∈ Text.capitals) (hne : n ≠ [])
    (hx : x ∈ Text.marks) (hr : ∀ r : Rule, n ≠ r.name) (more : Text) {d : Document} {name : Text}
    (h : name ∈ d.names) : Ignores (word ('[' :: n ++ x :: more)) name := by
  obtain ⟨r, rfl⟩ := exists_rule_of_mem_names h
  exact ignores_word_of_ne hn hne hx r.name_capitals (hr r) more

theorem ne_name {n : Text} (h : n ∉ Rule.order.map Rule.name) (r : Rule) : n ≠ r.name := by
  rintro rfl
  exact h (List.mem_map_of_mem r.mem_order)

theorem flattenBlocks_mixed (d : Document) : flattenBlocks (d.mixed []) = d.mixed [] := by
  have hlist (x : Char) (hx : x ∈ Text.marks) (more : Text) :
      (word ('[' :: "LIST".toList ++ x :: more)).Silent (d.mixed []) :=
    silent_mixed (begins_word _) [] d fun _ h =>
      ignores_word (by decide) (by decide) hx (ne_name (by decide)) more h
  have hpara : (word ('[' :: "P".toList ++ [']'])).Silent (d.mixed []) :=
    silent_mixed (begins_word _) [] d fun _ h =>
      ignores_word (by decide) (by decide) (by decide) (ne_name (by decide)) [] h
  have hnumbered : numberedList.Silent (d.mixed []) :=
    (hlist '=' (by decide) "1]".toList).between _ _
  have hbullet : bulletList.Silent (d.mixed []) := (hlist ']' (by decide) []).between _ _
  have hparagraph : paragraph.Silent (d.mixed []) := hpara.between _ _
  rw [flattenBlocks, rewrite_of_silent hnumbered, rewrite_of_silent hbullet,
    rewrite_of_silent hparagraph]

/-- The passes after the escaping make the HTML of a document. -/
theorem finish_mixed {d : Document} (hd : d.NoSelfNesting) :
    finish (d.mixed []) = Text.normalizeSpacing d.html := by
  have hrules : unwrapUnsupported (renderInline (d.mixed [])) =
      Rule.order.foldl (fun t r => r.apply t) (d.mixed []) := rfl
  have hall (r : Rule) : r ∈ Rule.order.reverse ++ [] := by
    rw [List.append_nil, List.mem_reverse]
    exact r.mem_order
  rw [finish, flattenBlocks_mixed, hrules,
    foldl_apply_mixed hd (by decide) fun _ _ => List.not_mem_nil, mixed_all hall]

theorem stashTags_source (d : Document) :
    stashTags emptyTags d.source =
      Stash.stowPieces id (fun x => !anyTag.covers x) d.pieces emptyTags :=
  stashTags_writeWith (fun _ hc => (plain_cases hc).imp_right And.right) fun _ hx => isTag_of_hit hx

theorem unstash_source {d : Document}
    (hruns : ∀ run ∈ d.innerRuns, ∀ k, run ≠ "TAG".toList ++ Text.ofNat k) :
    unstashTags (stashTags emptyTags d.source).2 (Html.escape (stashTags emptyTags d.source).1) =
      Html.escape d.source :=
  unstash_writeWith (fun _ hc => (plain_cases hc).imp_right And.right)
    (fun _ hx => isTag_of_hit hx) hruns

/-- What a document is converted to is what it means. -/
theorem convert_source {σ : Type} (sv : Services σ) (s : σ) {d : Document} (hd : d.NoSelfNesting)
    (hruns : ∀ run ∈ d.innerRuns, ∀ k, run ≠ "TAG".toList ++ Text.ofNat k) :
    convert sv d.source s = .ok (Text.normalizeSpacing d.html, s) := by
  have hfile : fileTag.Silent (stashTags emptyTags d.source).1 := by
    rw [stashTags_source]
    have hword : (word ('[' :: "DISK".toList ++ ' ' :: "FILE ID=".toList)).Silent
        (Stash.stowPieces id (fun x => !anyTag.covers x) d.pieces emptyTags).1 :=
      silent_stowed (begins_word _) (fun _ h => ignores_word (by decide) (by decide) (by decide)
        (ne_name (by decide)) _ h) _ _ (by decide)
    exact (hword.between _ _).filter _
  have hmention : mention.Silent (stashTags emptyTags d.source).1 := by
    rw [stashTags_source]
    have hword : (word ('[' :: "USER".toList ++ ['='])).Silent
        (Stash.stowPieces id (fun x => !anyTag.covers x) d.pieces emptyTags).1 :=
      silent_stowed (begins_word _) (fun _ h => ignores_word (by decide) (by decide) (by decide)
        (ne_name (by decide)) _ h) _ _ (by decide)
    exact (hword.between _ _).between _ _
  have hunstash := unstash_source hruns
  rw [← mixed_nil] at hunstash
  rw [← finish_mixed hd, ← hunstash]
  exact convert_of_silent sv hfile hmention s

/-- Text in front that spells a token, and a link with a quoted target in bold text. -/
def boldLink : Document :=
  .text ⟨"TAG0".toList, by decide⟩
    (.element (.style .bold) ⟨['b'], by decide⟩ ⟨['B'], by decide⟩
      (.element (.link ⟨"a&\"b".toList, by decide⟩) ⟨"Url".toList, by decide⟩
        ⟨"URL".toList, by decide⟩ (.text ⟨"x<y".toList, by decide⟩ .nil)
        (.text ⟨"z".toList, by decide⟩ .nil))
      .nil)

theorem convert_boldLink :
    boldLink.NoSelfNesting ∧
      (∀ run ∈ boldLink.innerRuns, ∀ k, run ≠ "TAG".toList ++ Text.ofNat k) ∧
      convert (.recording findNothing knowNobody) boldLink.source .empty =
        .ok (Text.normalizeSpacing boldLink.html, .empty) := by
  have hd : boldLink.NoSelfNesting := ⟨by decide, ⟨by decide, trivial, trivial⟩, trivial⟩
  have hinner : boldLink.innerRuns = [[], "x<y".toList, "z".toList] := by decide
  have hruns : ∀ run ∈ boldLink.innerRuns, ∀ k, run ≠ "TAG".toList ++ Text.ofNat k := by
    have hhead : ∀ run ∈ boldLink.innerRuns, run.head? ≠ some 'T' := by
      rw [hinner]
      decide
    intro run hrun k he
    refine hhead run hrun ?_
    rw [he]
    rfl
  exact ⟨hd, hruns, convert_source _ _ hd hruns⟩

end Document

end Bracket

end TaskBulletin
