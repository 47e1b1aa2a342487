import TaskBulletin.Proofs.Cut
import TaskBulletin.Proofs.Fragment
import TaskBulletin.Proofs.Nesting
import TaskBulletin.Proofs.OpenText
import TaskBulletin.Proofs.Rendered
import TaskBulletin.Proofs.Trimming

/-!
# Every pass keeps what stands in the open

A match begins and ends with a tag in square brackets, and between them stands its content,
which every pass writes again, with HTML around it that leaves no angle bracket open. A list
is split at its marks, and its items lose blanks and tags only. So all rules together retain
what stands in the open, and so does the spacing, which drops blanks.
-/

namespace TaskBulletin

open Text

namespace Pattern

variable {α β : Type}

/-- What the pattern reads is a tag: it begins with an opening square bracket and goes on to the
next closing one. -/
def ReadsTags (p : Pattern α) : Prop :=
  ∀ a, p.Reads a → ∃ m, p.spelling a = '[' :: (m ++ [']']) ∧ ']' ∉ m

theorem ReadsTags.begins {p : Pattern α} (hp : p.ReadsTags) : p.Begins '[' := by
  intro d t hd
  cases hr : p.read (d :: t) with
  | none => rfl
  | some r =>
    obtain ⟨a, rest⟩ := r
    obtain ⟨m, hm, -⟩ := hp a ⟨_, _, hr⟩
    have ht := p.read_eq hr
    rw [hm] at ht
    exact absurd (List.cons.inj ht).1 hd

theorem readsTags_word {w : Text} (hw : ∀ x ∈ w, spells x ']' = false) :
    (word ('[' :: (w ++ [']']))).ReadsTags := by
  intro a h
  obtain ⟨m, hm⟩ := (begins_word (w ++ [']'])).exists_spelling h
  obtain ⟨n, hn⟩ := ends_word ('[' :: w) a h
  have hspelled := h.word
  change a = '[' :: m at hm
  change a = n ++ [']'] at hn
  cases n with
  | nil =>
    rw [hm] at hn
    exact absurd (List.cons.inj hn).1 (by decide)
  | cons d n =>
    rw [hm, List.cons_append] at hn
    obtain ⟨rfl, hmn⟩ := List.cons.inj hn
    rw [hmn] at hm
    refine ⟨n, hm, ?_⟩
    rw [hm] at hspelled
    obtain ⟨-, hrest⟩ := List.forall₂_cons.mp hspelled
    have hlength := hrest.length_eq
    rw [List.length_append, List.length_append] at hlength
    have hbody := List.forall₂_take w.length hrest
    rw [List.take_left, show w.length = n.length by omega, List.take_left] at hbody
    exact notMem_of_forall₂ hbody hw

theorem readsTags_valued {head : Text} (hw : ∀ x ∈ head, spells x ']' = false) :
    (Bracket.valued head).ReadsTags := by
  intro s h
  obtain ⟨hopen, hvalue, hclose⟩ := h.between
  obtain ⟨m, hm⟩ := (begins_word head).exists_spelling hopen
  have hnone : ']' ∉ m := by
    have hspelled := hopen.word
    rw [show s.opener = '[' :: m from hm] at hspelled
    exact notMem_of_forall₂ (List.forall₂_cons.mp hspelled).2 hw
  have hcloser : s.closer = [']'] := hclose.exact
  refine ⟨m ++ s.content, ?_, ?_⟩
  · rw [Bracket.valued, spelling_between, hm,
      show (exact [']']).spelling s.closer = s.closer from rfl, hcloser]
    simp
  · rw [List.mem_append, not_or]
    refine ⟨hnone, fun hc => ?_⟩
    have hbracket := hvalue _ hc
    revert hbracket
    decide

/-- A pass retains what stands in the open if it does so for each match, and what follows a match in
a text of atoms is one. -/
theorem retains_rewrite {p : Pattern α} {f : α → Text} (hp : p.Begins '[')
    (hf : ∀ a, p.Reads a → ∀ rest, MadeOf Atom (p.spelling a ++ rest) →
      Retains (p.spelling a) (f a) ∧ MadeOf Atom rest)
    {t : Text} (ht : MadeOf Atom t) : Retains t (p.rewrite f t) := by
  have hread : ∀ a, .hit a ∈ p.pieces t → p.Reads a := fun a ha => reads_of_mem_pieces ha
  rw [← p.writeWith_spelling_pieces t] at ht
  rw [rewrite]
  conv_lhs => rw [← p.writeWith_spelling_pieces t]
  generalize p.pieces t = ps at ht hread
  induction ps using pieces_induction with
  | run w =>
    rw [writeWith_map_plain] at ht
    rw [writeWith_map_plain, writeWith_map_plain]
    exact .refl ht
  | hit w a ps ih =>
    rw [writeWith_append, writeWith_map_plain, writeWith] at ht
    rw [writeWith_append, writeWith_map_plain, writeWith, writeWith_append, writeWith_map_plain,
      writeWith]
    have ha : p.Reads a := hread a (by simp)
    obtain ⟨m, hm⟩ := hp.exists_spelling ha
    have hcut := ht
    rw [hm, List.cons_append] at hcut
    obtain ⟨hw, hmatch⟩ := hcut.cut_bracket
    rw [← List.cons_append, ← hm] at hmatch
    obtain ⟨hretains, hrest⟩ := hf a ha _ hmatch
    have hps := ih hrest fun b hb => hread b (List.mem_append_right _ (List.mem_cons_of_mem _ hb))
    exact (Retains.refl hw).append (hretains.append hps)

/-- A pass over elements writes their content again, with the tags in square brackets dropped. -/
theorem retains_rewrite_between {opener : Pattern α} {allowed : Char → Bool} {closer : Pattern β}
    (ho : opener.ReadsTags) (hc : closer.ReadsTags) {f : Span α β → Text}
    (hf : ∀ s, (between opener allowed closer).Reads s →
      (∀ m, opener.spelling s.opener = '[' :: (m ++ [']']) → ∀ d ∈ m, d ∉ "[]<>".toList) →
      MadeOf Atom s.content → Retains s.content (f s))
    {t : Text} (ht : MadeOf Atom t) : Retains t ((between opener allowed closer).rewrite f t) := by
  refine retains_rewrite (begins_between ho.begins _ _) (fun s hs rest hrest => ?_) ht
  obtain ⟨hopen, -, hclose⟩ := hs.between
  obtain ⟨m, hm, hnone⟩ := ho _ hopen
  obtain ⟨n, hn, hnone'⟩ := hc _ hclose
  rw [spelling_between, hm, hn] at hrest ⊢
  have hfront :
      MadeOf Atom
      ([] ++ ('[' :: (m ++ [']']) ++ (s.content ++ ('[' :: (n ++ [']']) ++ rest)))) := by
    simpa using hrest
  obtain ⟨-, hbody, hback⟩ := hfront.cut_tag hnone
  obtain ⟨hcontent, hbody', hrest⟩ := hback.cut_tag hnone'
  have htag : ∀ m', opener.spelling s.opener = '[' :: (m' ++ [']']) →
      ∀ d ∈ m', d ∉ "[]<>".toList := by
    intro m' hm'
    rw [hm] at hm'
    rwa [← List.append_cancel_right (List.cons.inj hm').2]
  have hretains := hf s hs htag hcontent
  have hwhole := ((Retains.drop_tag hbody).append hretains).append (Retains.drop_tag hbody')
  rw [List.nil_append, List.append_nil] at hwhole
  exact ⟨hwhole, hrest⟩

/-- The runs between tags are texts of atoms, and together retain what stands in the open. -/
theorem retains_split {p : Pattern α} (hp : p.ReadsTags) {t : Text} (ht : MadeOf Atom t) :
    (∀ run ∈ p.split t, MadeOf Atom run) ∧ Retains t (p.split t).flatten := by
  have hdrop : ∀ a, p.Reads a → ∀ u rest, MadeOf Atom (u ++ (p.spelling a ++ rest)) →
      MadeOf Atom u ∧ Retains (p.spelling a) [] ∧ MadeOf Atom rest := by
    intro a ha u rest h
    obtain ⟨m, hm, hnone⟩ := hp a ha
    rw [hm] at h ⊢
    obtain ⟨hu, hbody, hrest⟩ := h.cut_tag hnone
    exact ⟨hu, .drop_tag hbody, hrest⟩
  constructor
  · have hread : ∀ a, .hit a ∈ p.pieces t → p.Reads a := fun a ha => reads_of_mem_pieces ha
    rw [← p.writeWith_spelling_pieces t] at ht
    rw [split]
    generalize p.pieces t = ps at ht hread
    induction ps using pieces_induction with
    | run w =>
      rw [writeWith_map_plain] at ht
      rw [runsOf_map_plain]
      simpa using ht
    | hit w a ps ih =>
      rw [writeWith_append, writeWith_map_plain, writeWith] at ht
      obtain ⟨hw, -, hrest⟩ := hdrop a (hread a (by simp)) w _ ht
      have hps := ih hrest fun b hb => hread b (List.mem_append_right _ (List.mem_cons_of_mem _ hb))
      rw [runsOf_map_plain_hit]
      exact List.forall_mem_cons.mpr ⟨hw, hps⟩
  · rw [split, flatten_runsOf]
    refine retains_rewrite hp.begins (fun a ha rest hrest => ?_) ht
    exact (hdrop a ha [] rest hrest).2

end Pattern

namespace Text

theorem Solid.of_isAlphanum {c : Char} (h : c.isAlphanum = true) : Solid c where
  not_blank := Html.not_isBlank_of_isAlphanum h
  not_bracket hc := by
    have hbrackets : ∀ d ∈ "[]<>".toList, d.isAlphanum = false := by decide
    rw [hbrackets c hc] at h
    cases h

namespace Retains

variable {t t' : Text}

theorem of_forall (h : ∀ c ∈ t, c ≠ '[' ∧ c ≠ '<' ∧ c ≠ '>') : Retains [] t := by
  refine insert (.of_forall fun c hc => .char (h c hc).1 (h c hc).2.1) fun b hb => ?_
  have hopen : '<' ∉ t := fun hm => (h _ hm).2.1 rfl
  have hclose : '>' ∉ t := fun hm => (h _ hm).2.2 rfl
  rwa [inside_of_notMem hopen hclose] at hb

theorem insert_tag {d : Char} {m : Text} (hd : Solid d) (hm : MadeOf Atom m) :
    Retains [] ('<' :: d :: (m ++ ['>'])) := by
  have hclose : Atom ['>'] := .char (by decide) (by decide)
  refine insert (.append (.angle hd) (hm.concat (.of_part hclose))) fun b hb => ?_
  rw [← List.cons_append, ← List.cons_append, inside_concat_closing (by decide)] at hb
  cases hb

theorem element {name : Text} (hn : Html.IsName name) (h : Retains t t') :
    Retains t (Html.element name t') := by
  have hsolid : ∀ c ∈ name, Solid c := fun c hc => .of_isAlphanum (hn.alphanum c hc)
  have hname : MadeOf Atom name := .of_forall fun c hc => (hsolid c hc).atom
  have hclose : Retains [] (Html.closingTag name) := insert_tag (by decide) hname
  obtain ⟨d, m, hdm⟩ := List.exists_cons_of_ne_nil hn.ne_nil
  have hopen : Retains [] ('<' :: (name ++ ['>'])) := by
    rw [hdm] at hsolid ⊢
    refine insert_tag (hsolid d (List.mem_cons_self ..)) (.of_forall fun c hc => ?_)
    exact (hsolid c (List.mem_cons_of_mem _ hc)).atom
  have hwhole := h.wrap hopen hclose
  have htext : Html.element name t' = '<' :: (name ++ ['>']) ++ t' ++ Html.closingTag name := by
    simp [Html.element, Html.closingTag]
  rwa [htext]

theorem anchorRaw {target : Text} (htarget : MadeOf Atom target) (h : Retains t t') :
    Retains t (Html.anchorRaw target t') := by
  have hchars (w : Text) (hw : ∀ c ∈ w, c ≠ '[' ∧ c ≠ '<') : MadeOf Atom w :=
    .of_forall fun c hc => .char (hw c hc).1 (hw c hc).2
  have hattribute : MadeOf Atom " href=\"".toList := hchars " href=\"".toList (by decide)
  have hquote : MadeOf Atom ['"'] := hchars ['"'] (by decide)
  have hopen : Retains [] ('<' :: 'a' :: (" href=\"".toList ++ target ++ ['"'] ++ ['>'])) :=
    insert_tag (by decide) ((hattribute.concat htarget).concat hquote)
  have hname : MadeOf Atom ['a'] := hchars ['a'] (by decide)
  have hclose : Retains [] ('<' :: '/' :: (['a'] ++ ['>'])) := insert_tag (by decide) hname
  have hwhole := h.wrap hopen hclose
  have htext : Html.anchorRaw target t' =
      '<' :: 'a' :: (" href=\"".toList ++ target ++ ['"'] ++ ['>']) ++ t' ++
        '<' :: '/' :: (['a'] ++ ['>']) := by
    have htag : "<a href=\"".toList ++ target ++ "\">".toList =
        '<' :: 'a' :: (" href=\"".toList ++ target ++ ['"'] ++ ['>']) := by
      have hstart : "<a href=\"".toList = '<' :: 'a' :: " href=\"".toList := rfl
      rw [hstart, List.append_assoc _ ['"']]
      rfl
    unfold Html.anchorRaw
    rw [htag]
    rfl
  rwa [htext]

theorem trim (h : MadeOf Atom t) : Retains t (Text.trim t) := by
  have hloose : ∀ c, isBlank c = true → Loose Atom c := by
    intro c hc w hw hends
    cases hw with
    | char _ _ =>
      rcases hends with he | he
      · rw [Option.some.inj he]
      · rw [List.getLast?_singleton] at he
        rw [Option.some.inj he]
    | @tag body _ =>
      have hlast : (('[' :: body) ++ [']']).getLast? = some ']' := List.getLast?_concat
      rcases hends with he | he
      · rw [← Option.some.inj he] at hc
        cases hc
      · rw [← List.cons_append, hlast] at he
        rw [← Option.some.inj he] at hc
        cases hc
    | @angle d hd =>
      rcases hends with he | he
      · rw [← Option.some.inj he] at hc
        cases hc
      · have hlast : d = c := Option.some.inj he
        rw [← hlast, hd.not_blank] at hc
        cases hc
  obtain ⟨before, after, ht, hbefore, hafter⟩ := exists_append_trim t
  have hkept := refl (h.trim hloose)
  have hwhole := ((drop_blanks hbefore).append hkept).append (drop_blanks hafter)
  rwa [List.nil_append, List.append_nil, ← ht] at hwhole

/-- Texts that are joined with a separator that stands for nothing. -/
theorem intercalate {sep : Text} (hs : Retains [] sep) {ts us : List Text}
    (h : List.Forall₂ Retains ts us) : Retains ts.flatten (List.intercalate sep us) := by
  induction h with
  | nil => exact refl .nil
  | @cons t u ts us hfirst hrest ih =>
    rw [List.flatten_cons]
    cases hrest with
    | nil =>
      rw [List.flatten_nil, List.append_nil, List.intercalate_singleton]
      exact hfirst
    | cons _ _ =>
      have hfront := hfirst.append hs
      rw [List.append_nil] at hfront
      rw [List.intercalate_cons_cons]
      exact hfront.append ih

theorem filter_blank {runs : List Text} (h : ∀ run ∈ runs, MadeOf Atom run) :
    Retains runs.flatten (runs.filter fun run => !blank run).flatten := by
  induction runs with
  | nil => exact refl .nil
  | cons run runs ih =>
    obtain ⟨hrun, hruns⟩ := List.forall_mem_cons.mp h
    rw [List.flatten_cons, List.filter_cons]
    cases hb : blank run with
    | false => exact (refl hrun).append (ih hruns)
    | true => exact (drop_blanks (List.all_eq_true.mp hb)).append (ih hruns)

end Retains

end Text

namespace Html

open Text

theorem madeOf_escapeDoubleQuotes {t : Text} (h : MadeOf Atom t) :
    MadeOf Atom (escapeDoubleQuotes t) := by
  have hchar : ∀ c, ∀ d ∈ escapeDoubleQuotes [c], d = c ∨ Solid d := by
    intro c d hd
    have hsolid : ∀ d ∈ "&quot;".toList, Solid d := by decide
    rcases mem_escapeDoubleQuotes hd with hd | hd
    · exact .inl (List.mem_singleton.mp hd)
    · exact .inr (hsolid d hd)
  induction h with
  | nil => exact .nil
  | @append w t hw _ ih =>
    rw [escapeDoubleQuotes_append]
    refine .concat ?_ ih
    cases hw with
    | @char c hopen hangle =>
      refine .of_forall fun d hd => ?_
      rcases hchar c d hd with rfl | hd
      · exact .char hopen hangle
      · exact hd.atom
    | @tag body hbody =>
      have htext : escapeDoubleQuotes ('[' :: (body ++ [']'])) =
          '[' :: (escapeDoubleQuotes body ++ [']']) := by
        rw [escapeDoubleQuotes_cons, escapeDoubleQuotes_append]
        rfl
      rw [htext]
      refine .of_part (.tag fun d hd => ?_)
      obtain ⟨c, hc, hd⟩ := List.mem_flatMap.mp hd
      have hd : d ∈ escapeDoubleQuotes [c] := by
        rw [escapeDoubleQuotes_cons]
        exact List.mem_append_left _ hd
      rcases hchar c d hd with rfl | hd
      · exact hbody d hc
      · exact hd.not_bracket
    | @angle d hd =>
      have htext : escapeDoubleQuotes ['<', d] = '<' :: escapeDoubleQuotes [d] := rfl
      rw [htext]
      by_cases hq : d = '"'
      · have hamp : Atom ['<', '&'] := .angle (by decide)
        have hrest : MadeOf Atom "quot;".toList :=
          .of_forall fun d hd => Solid.atom ((by decide : ∀ d ∈ "quot;".toList, Solid d) d hd)
        rw [hq]
        exact .append hamp hrest
      · rw [escapeDoubleQuotes_cons, escapeQuote_of_ne hq]
        exact .of_part (.angle hd)

end Html

namespace Bracket

open Text Pattern

variable {t : Text}

def passNames : List Text :=
  ["P", "LIST", "B", "I", "U", "S", "CODE", "QUOTE", "URL", "IMG", "COLOR", "SIZE"].map
    String.toList

theorem spells_of_mem_passNames {name : Text} (h : name ∈ passNames) :
    ∀ x ∈ '/' :: '=' :: name, spells x ']' = false := by
  have hnames : ∀ name ∈ passNames, ∀ x ∈ '/' :: '=' :: name, spells x ']' = false := by decide
  exact hnames name h

theorem readsTags_closing {name : Text} (h : name ∈ passNames) :
    (word ('[' :: '/' :: name ++ [']'])).ReadsTags := by
  refine readsTags_word (w := '/' :: name) fun x hx => spells_of_mem_passNames h x ?_
  rcases List.mem_cons.mp hx with rfl | hx
  · exact List.mem_cons_self ..
  · exact List.mem_cons_of_mem _ (List.mem_cons_of_mem _ hx)

theorem retains_paired (name : Text) (h : name ∈ passNames) {f : Span Text Text → Text}
    (hf : ∀ s, MadeOf Atom s.content → Retains s.content (f s)) (ht : MadeOf Atom t) :
    Retains t ((paired name).rewrite f t) := by
  have hopen : (word ('[' :: name ++ [']'])).ReadsTags :=
    readsTags_word fun x hx =>
      spells_of_mem_passNames h x (List.mem_cons_of_mem _ (List.mem_cons_of_mem _ hx))
  exact retains_rewrite_between hopen (readsTags_closing h) (fun s _ _ => hf s) ht

theorem retains_pairedWithValue (name : Text) (h : name ∈ passNames)
    {f : Span (Span Text Text) Text → Text}
    (hf : ∀ s, MadeOf Atom s.opener.content → MadeOf Atom s.content → Retains s.content (f s))
    (ht : MadeOf Atom t) : Retains t ((pairedWithValue name).rewrite f t) := by
  have hhead : ∀ x ∈ name ++ ['='], spells x ']' = false := by
    intro x hx
    refine spells_of_mem_passNames h x ?_
    simp only [List.mem_append, List.mem_singleton] at hx
    simp only [List.mem_cons]
    tauto
  refine retains_rewrite_between (readsTags_valued hhead) (readsTags_closing h)
    (fun s hs htag => hf s ?_) ht
  -- The value is a part of the opening tag.
  obtain ⟨hopen, -, -⟩ := hs.between
  obtain ⟨hword, -, hclose⟩ := hopen.between
  obtain ⟨m, hm⟩ := (begins_word (name ++ ['='])).exists_spelling hword
  have hspelled : (valued (name ++ ['='])).spelling s.opener =
      '[' :: (m ++ s.opener.content ++ [']']) := by
    rw [valued, spelling_between, hm,
      show (exact [']']).spelling s.opener.closer = s.opener.closer from rfl, hclose.exact]
    rfl
  refine .of_forall fun d hd => ?_
  have hclean := htag _ hspelled d (List.mem_append_right _ hd)
  exact .char (fun he => hclean (by simp [he])) fun he => hclean (by simp [he])

/-! ## Lists and paragraphs -/

theorem readsTags_itemMark : itemMark.ReadsTags := by
  intro a h
  refine ⟨['*'], ?_, by decide⟩
  rw [show itemMark.spelling a = a from rfl, h.exact]
  rfl

theorem retains_item {run : Text} (h : MadeOf Atom run) :
    Retains run (paragraph.rewrite Span.content (Text.trim run)) := by
  have htrim := Retains.trim h
  exact htrim.trans (retains_paired ['P'] (by decide) (fun s hs => .refl hs) htrim.after)

theorem forall₂_listItems {content : Text} (h : ∀ run ∈ itemMark.split content, MadeOf Atom run) :
    List.Forall₂ Retains ((itemMark.split content).filter fun run => !Text.blank run)
      (listItems content) := by
  rw [listItems, List.forall₂_map_right_iff, List.forall₂_same]
  intro run hrun
  exact retains_item (h run (List.mem_of_mem_filter hrun))

/-- Lines for the items of a list, each with text in front that stands for nothing. -/
theorem retains_lines {content : Text} {lines : List Text} (h : MadeOf Atom content)
    (hlines : List.Forall₂ Retains ((itemMark.split content).filter fun run => !Text.blank run)
      lines) : Retains content (List.intercalate ['\n'] lines) := by
  obtain ⟨hruns, hsplit⟩ := retains_split readsTags_itemMark h
  have hfeed : Retains [] ['\n'] := .of_forall (by decide)
  exact (hsplit.trans (.filter_blank hruns)).trans (.intercalate hfeed hlines)

theorem retains_number (n : Nat) : Retains [] (Text.ofNat n ++ ". ".toList) := by
  refine .of_forall fun c hc => ?_
  rcases List.mem_append.mp hc with hc | hc
  · have hdigit := isDigit_of_mem_ofNat hc
    refine ⟨?_, ?_, ?_⟩ <;> rintro rfl <;> cases hdigit
  · exact (by decide : ∀ c ∈ ". ".toList, c ≠ '[' ∧ c ≠ '<' ∧ c ≠ '>') c hc

theorem forall₂_numberFrom {runs items : List Text} (h : List.Forall₂ Retains runs items)
    (n : Nat) : List.Forall₂ Retains runs (numberFrom n items) := by
  induction h generalizing n with
  | nil => exact .nil
  | cons hfirst _ ih =>
    have hline := (retains_number n).append hfirst
    exact .cons hline (ih (n + 1))

theorem retains_numberedLines {content : Text} (h : MadeOf Atom content) :
    Retains content (numberedLines content) := by
  obtain ⟨hruns, -⟩ := retains_split readsTags_itemMark h
  exact retains_lines h (forall₂_numberFrom (forall₂_listItems hruns) 1)

theorem retains_bulletLines {content : Text} (h : MadeOf Atom content) :
    Retains content (bulletLines content) := by
  obtain ⟨hruns, -⟩ := retains_split readsTags_itemMark h
  have hbullet : Retains [] "• ".toList := .of_forall (by decide)
  refine retains_lines h ?_
  rw [List.forall₂_map_right_iff]
  exact (forall₂_listItems hruns).imp fun _ _ hitem => hbullet.append hitem

theorem retains_flattenBlocks (h : MadeOf Atom t) : Retains t (flattenBlocks t) := by
  have hnumbered : Retains t (numberedList.rewrite (fun list => numberedLines list.content) t) := by
    have hopen : (word "[LIST=1]".toList).ReadsTags :=
      readsTags_word (w := "LIST=1".toList) (by decide)
    have hlist : "LIST".toList ∈ passNames := by decide
    exact retains_rewrite_between hopen (readsTags_closing hlist)
      (fun s _ _ hs => retains_numberedLines hs) h
  have hbullets := retains_paired "LIST".toList (by decide)
    (fun s hs => retains_bulletLines hs) hnumbered.after
  have hparagraphs := retains_paired ['P'] (f := fun p => p.content ++ ['\n']) (by decide)
    (fun _ hs => (Retains.refl hs).wrap (.refl .nil) (.of_forall (by decide))) hbullets.after
  exact (hnumbered.trans hbullets).trans hparagraphs

/-! ## Inline elements -/

theorem Style.tagName_mem_passNames (style : Style) : style.tagName ∈ passNames := by
  cases style <;> decide

theorem retains_style (style : Style) (h : MadeOf Atom t) : Retains t (style.render t) :=
  retains_paired _ style.tagName_mem_passNames
    (fun _ hs => (Retains.refl hs).element style.isName_elementName) h

theorem retains_styles (styles : List Style) (h : MadeOf Atom t) :
    Retains t (styles.foldl (fun t style => style.render t) t) := by
  induction styles generalizing t with
  | nil => exact .refl h
  | cons style styles ih =>
    have hfirst := retains_style style h
    exact hfirst.trans (ih hfirst.after)

theorem retains_renderLinks (h : MadeOf Atom t) : Retains t (renderLinks t) := by
  have htargeted := retains_pairedWithValue "URL".toList
    (f := fun e => Html.anchorRaw (Html.escapeDoubleQuotes e.opener.content) e.content) (by decide)
    (fun s hvalue hs => (Retains.refl hs).anchorRaw (Html.madeOf_escapeDoubleQuotes hvalue)) h
  have hplain := retains_paired "URL".toList
    (f := fun e => Html.anchorRaw (Html.escapeDoubleQuotes e.content) e.content) (by decide)
    (fun s hs => (Retains.refl hs).anchorRaw (Html.madeOf_escapeDoubleQuotes hs)) htargeted.after
  exact htargeted.trans hplain

theorem retains_unwrapUnsupported (h : MadeOf Atom t) : Retains t (unwrapUnsupported t) := by
  have himages := retains_paired "IMG".toList (f := Span.content) (by decide)
    (fun s hs => .refl hs) h
  have hcolors := retains_pairedWithValue "COLOR".toList (f := Span.content) (by decide)
    (fun s _ hs => .refl hs) himages.after
  have hsizes := retains_pairedWithValue "SIZE".toList (f := Span.content) (by decide)
    (fun s _ hs => .refl hs) hcolors.after
  exact (himages.trans hcolors).trans hsizes

/-- All rules together retain what stands in the open. -/
theorem retains_applyRules (h : MadeOf Atom t) : Retains t (applyRules t) := by
  have hblocks := retains_flattenBlocks h
  have hstyles := retains_styles [.bold, .italic, .underline, .strike] hblocks.after
  have hlinks := retains_renderLinks hstyles.after
  have hquotes := retains_styles [.code, .quote] hlinks.after
  have hunwrapped := retains_unwrapUnsupported hquotes.after
  exact (((hblocks.trans hstyles).trans hlinks).trans hquotes).trans hunwrapped

end Bracket

end TaskBulletin
