import TaskBulletin.Proofs.RecodedReferences
import Mathlib.Data.List.Forall2

/-!
# The resolution of a recoded text

A recoding whose codes can be told apart at the front of every text tells the texts
apart. If it also keeps every line a line, then the references of a recoded text are
the recoded references, with the same ids, and what the recoded text resolves to is the
recoding of what the text resolves to. What the resolutions are restored to is recoded
as well, as long as the fragments that go back are.
-/

namespace TaskBulletin

open Pattern Recoding

/-- A map that tells the elements of a list apart commutes with keeping first occurrences. -/
theorem eraseDups_map_of_injOn {α β : Type} [BEq α] [LawfulBEq α] [BEq β] [LawfulBEq β] {f : α → β}
    (l : List α) (hl : ∀ a ∈ l, ∀ b ∈ l, f a = f b → a = b) :
    (l.map f).eraseDups = l.eraseDups.map f := by
  induction h : l.length using Nat.strong_induction_on generalizing l with
  | _ n ih =>
    subst h
    cases l with
    | nil => rfl
    | cons a l =>
      have hfilter : (l.map f).filter (fun b => !b == f a) = (l.filter fun b => !b == a).map f := by
        rw [List.filter_map]
        congr 1
        apply List.filter_congr
        intro b hb
        have hab : f b = f a ↔ b = a :=
          ⟨hl b (List.mem_cons_of_mem _ hb) a (List.mem_cons_self ..), congrArg f⟩
        rw [Function.comp_apply, Bool.not_eq_eq_eq_not, Bool.not_not, Bool.eq_iff_iff, beq_iff_eq,
          beq_iff_eq, hab]
      have hlen : (l.filter fun b => !b == a).length < (a :: l).length :=
        Nat.lt_succ_of_le (List.length_filter_le ..)
      have hrest : ∀ b ∈ l.filter fun b => !b == a, b ∈ a :: l :=
        fun b hb => List.mem_cons_of_mem _ (List.mem_filter.mp hb).1
      rw [List.map_cons, List.eraseDups_cons, List.eraseDups_cons, hfilter,
        ih _ hlen _ (fun b hb c hc => hl b (hrest b hb) c (hrest c hc)) rfl, List.map_cons]

theorem Bracket.readIds_map {α : Type} {read : α → Except OverlongNumeral (Option Nat)}
    (f : α → α) {l : List α} (h : ∀ a ∈ l, read (f a) = read a) :
    readIds read (l.map f) = ((readIds read l).map (List.map fun x => (f x.1, x.2))).mapError
      fun (e, found) => (e, found.map fun x => (f x.1, x.2)) := by
  induction l with
  | nil => rfl
  | cons a l ih =>
    have ih := ih fun b hb => h b (List.mem_cons_of_mem _ hb)
    have ha := h a (List.mem_cons_self ..)
    rw [List.map_cons]
    cases hid : read a with
    | error e =>
      rw [readIds_cons_of_error hid, readIds_cons_of_error (ha.trans hid)]
      rfl
    | ok id =>
      rw [readIds_cons_of_ok hid, readIds_cons_of_ok (ha.trans hid), ih]
      cases readIds read l <;> rfl

variable {R : Recoding}

/-! ## Recodings that tell texts apart -/

/-- The first character is read off a text that begins with its code. -/
def Recoding.Decodable (R : Recoding) : Prop :=
  ∀ {c d}, R.known c → R.known d → ∀ {u v}, R.code c ++ u = R.code d ++ v → c = d

namespace Recoding

/-- A recoded text at the front of another stood at the front of the text. -/
theorem Decodable.exists_append (hR : R.Decodable) {t w rest : Text} (ht : R.Knows t)
    (hw : R.Knows w) (h : R.recode t = R.recode w ++ rest) :
    ∃ u, t = w ++ u ∧ rest = R.recode u := by
  induction w generalizing t with
  | nil => exact ⟨t, rfl, h.symm⟩
  | cons d w ih =>
    obtain ⟨hd, hrest⟩ := R.knows_cons.mp hw
    cases t with
    | nil =>
      obtain ⟨x, v, hx, -⟩ := code_eq_cons hd
      rw [recode_cons, hx] at h
      cases h
    | cons c t =>
      obtain ⟨hc, ht⟩ := R.knows_cons.mp ht
      rw [recode_cons, recode_cons, List.append_assoc] at h
      obtain rfl := hR hc hd h
      obtain ⟨u, rfl, hu⟩ := ih ht hrest (List.append_cancel_left h)
      exact ⟨u, rfl, hu⟩

theorem Decodable.recode_inj (hR : R.Decodable) {t u : Text} (ht : R.Knows t) (hu : R.Knows u)
    (h : R.recode t = R.recode u) : t = u := by
  have hrest : R.recode t = R.recode u ++ [] := by rw [h, List.append_nil]
  obtain ⟨v, rfl, hv⟩ := hR.exists_append ht hu hrest
  rw [(recode_eq_nil_iff (R.knows_append.mp ht).2).mp hv.symm, List.append_nil]

theorem knows_of_not_quiet {t : Text} (ht : ∀ c ∈ t, isQuiet c = false) : R.Knows t :=
  fun c hc => R.known_of_not_quiet (ht c hc)

/-- A text that begins with a bracket is found in a recoded text where it stood in the text. -/
theorem Decodable.mirrors_exact (hR : R.Decodable) {w : Text} (hw : R.Knows ('[' :: w)) :
    Mirrors (exact ('[' :: w)) (exact (R.recode ('[' :: w))) R fun _ => R.recode ('[' :: w) where
  read_recode {t} ht := by
    have hne : R.recode ('[' :: w) ≠ [] := fun h => by simpa using (recode_eq_nil_iff hw).mp h
    cases hr : (exact ('[' :: w)).read t with
    | some r =>
      obtain ⟨a, rest⟩ := r
      obtain ⟨-, rfl⟩ := (read_exact_eq_some_iff (by simp)).mp hr
      exact (read_exact_eq_some_iff hne).mpr ⟨rfl, R.recode_append ..⟩
    | none =>
      apply read_exact_eq_none
      intro rest he
      obtain ⟨u, rfl, -⟩ := hR.exists_append ht hw he
      rw [(read_exact_eq_some_iff (by simp)).mpr ⟨rfl, rfl⟩] at hr
      cases hr
  read_tail e he t := by
    rw [recode_cons, code_of_not_quiet (by decide)]
    refine begins_exact '[' (R.recode w) e t ?_
    rintro rfl
    revert he
    decide

end Recoding

namespace Bracket

/-! ## Tokens for references -/

theorem replace_recode (hR : R.Decodable) {w new t : Text} (hw : R.Knows ('[' :: w))
    (ht : R.Knows t) (hnew : ∀ c ∈ new, isQuiet c = false) :
    Text.replace (R.recode ('[' :: w)) new (R.recode t) =
      R.recode (Text.replace ('[' :: w) new t) :=
  (hR.mirrors_exact hw).rewrite_recode ht fun _ _ => (recode_of_not_quiet hnew).symm

theorem knows_tokensFor {label : Text} (hl : ∀ c ∈ label, isQuiet c = false) {n : Nat}
    {ws : List Text} {t : Text} (ht : R.Knows t) : R.Knows (Stash.tokensFor label n ws t) := by
  intro c hc
  rcases Stash.mem_tokensFor hc with hc | ⟨k, hc⟩
  · exact ht c hc
  · exact knows_of_not_quiet (Stash.token_not_quiet (s := .empty label) hl k) c hc

theorem tokensFor_recode (hR : R.Decodable) {label : Text} (hl : ∀ c ∈ label, isQuiet c = false)
    {ws : List Text} (hws : ∀ w ∈ ws, R.Knows w ∧ w.head? = some '[') (n : Nat) {t : Text}
    (ht : R.Knows t) :
    Stash.tokensFor label n (ws.map R.recode) (R.recode t) =
      R.recode (Stash.tokensFor label n ws t) := by
  induction ws generalizing n t with
  | nil => rfl
  | cons w ws ih =>
    obtain ⟨hw, hhead⟩ := hws w (List.mem_cons_self ..)
    cases w with
    | nil => cases hhead
    | cons c w =>
      obtain rfl := Option.some.inj hhead
      have htoken : ∀ c ∈ '\x00' :: label ++ Text.ofNat n ++ ['\x00'], isQuiet c = false :=
        Stash.token_not_quiet (s := ⟨label, []⟩) hl n
      have hnext : R.Knows
          (Text.replace ('[' :: w) ('\x00' :: label ++ Text.ofNat n ++ ['\x00']) t) :=
        show R.Knows (Stash.tokensFor label n ['[' :: w] t) from knows_tokensFor hl ht
      rw [List.map_cons, Stash.tokensFor, replace_recode hR hw ht htoken,
        ih (fun v hv => hws v (List.mem_cons_of_mem _ hv)) (n + 1) hnext, Stash.tokensFor]

theorem knows_spelling {α : Type} {p : Pattern α} {t : Text} (ht : R.Knows t) {a : α}
    (ha : a ∈ p.hits t) : R.Knows (p.spelling a) :=
  fun c hc => ht c (mem_of_mem_spelling ha c hc)

theorem knows_stashTags {source : Text} (hs : R.Knows source) :
    R.Knows (stashTags emptyTags source).1 ∧
      ∀ fragment ∈ (stashTags emptyTags source).2.fragments, R.Knows fragment := by
  constructor
  · intro c hc
    rcases Stash.mem_stow hc with hc | ⟨k, hc⟩
    · exact hs c hc
    · exact knows_of_not_quiet (Stash.token_not_quiet (s := emptyTags) (by decide) k) c hc
  · intro fragment hf
    rcases Stash.mem_fragments_stow hf with hf | ⟨tag, htag, rfl, -⟩
    · cases hf
    · exact knows_spelling hs htag

theorem head_spelling_fileTag {t : Text} {tag : FileTag} (h : tag ∈ fileTag.hits t) :
    (fileTag.spelling tag).head? = some '[' := by
  obtain ⟨m, hm⟩ := begins_fileTag.exists_spelling (reads_of_mem_hits h)
  rw [hm]
  rfl

theorem head_spelling_mention {t : Text} {m : Mention} (h : m ∈ mention.hits t) :
    (mention.spelling m).head? = some '[' := by
  obtain ⟨w, hw⟩ := begins_mention.exists_spelling (reads_of_mem_hits h)
  rw [hw]
  rfl

theorem numberedSpellings_recode {t : Text} {files : List (FileTag × Option Nat)}
    (h : fileTags t = .ok files) :
    (numberedSpellings files).map R.recode = numberedSpellings files ∧
      ∀ w ∈ numberedSpellings files, R.Knows w ∧ w.head? = some '[' := by
  have hmem : ∀ w ∈ numberedSpellings files, ∃ tag ∈ fileTag.hits t, w = fileTag.spelling tag := by
    intro w hw
    obtain ⟨⟨tag, id⟩, hx, he⟩ := List.mem_filterMap.mp hw
    obtain ⟨_, -, rfl⟩ := Option.map_eq_some_iff.mp he
    exact ⟨tag, mem_hits_of_fileTags h hx, rfl⟩
  constructor
  · refine (List.map_congr_left fun w hw => ?_).trans (List.map_id _)
    obtain ⟨tag, htag, rfl⟩ := hmem w hw
    exact recode_of_not_quiet (not_quiet_of_mem_hits htag)
  · intro w hw
    obtain ⟨tag, htag, rfl⟩ := hmem w hw
    exact ⟨knows_of_not_quiet (not_quiet_of_mem_hits htag), head_spelling_fileTag htag⟩

/-! ## The mentions of a recoded text -/

/-- A mention with its label and its id part in the other code. -/
def recodeMention (R : Recoding) (m : Mention) : Mention :=
  recodeSpan R (recodeSpan R id id) id m

theorem mention_spelling (m : Mention) : mention.spelling m =
    m.opener.opener ++ m.opener.content ++ m.opener.closer ++ m.content ++ m.closer := rfl

theorem knows_contents {m : Mention} (hm : R.Knows (mention.spelling m)) :
    R.Knows m.content ∧ R.Knows m.opener.content := by
  rw [mention_spelling] at hm
  simp only [R.knows_append] at hm
  exact ⟨hm.1.2, hm.1.1.1.2⟩

theorem recodeMention_inj (hR : R.Decodable) {m m' : Mention} (hm : R.Knows (mention.spelling m))
    (hm' : R.Knows (mention.spelling m')) (h : recodeMention R m = recodeMention R m') :
    m = m' := by
  obtain ⟨⟨opener, part, bracket⟩, label, closer⟩ := m
  obtain ⟨⟨opener', part', bracket'⟩, label', closer'⟩ := m'
  obtain ⟨ho, hl, rfl⟩ := Span.mk.inj h
  obtain ⟨rfl, hp, rfl⟩ := Span.mk.inj ho
  obtain ⟨hl₁, hp₁⟩ := knows_contents hm
  obtain ⟨hl₂, hp₂⟩ := knows_contents hm'
  obtain rfl : label = label' := hR.recode_inj hl₁ hl₂ hl
  obtain rfl : part = part' := hR.recode_inj hp₁ hp₂ hp
  rfl

section

variable (hR : R.Decodable) (hline : Keeps R (· != '\n'))
include hline

theorem spelling_recodeMention {t : Text} (ht : R.Knows t) {m : Mention} (hm : m ∈ mention.hits t) :
    mention.spelling (recodeMention R m) = R.recode (mention.spelling m) := by
  obtain ⟨u, rest, hu, hr⟩ := exists_read_of_mem_hits hm
  exact (mirrors_mention hline).spelling_image hr (knows_suffix hu ht)

include hR

/-- The mentions of a recoded text are the recoded mentions, with the same ids. -/
theorem mentions_recode {t : Text} (ht : R.Knows t) :
    mentions (R.recode t) = ((mentions t).map
      (List.map fun x => (recodeMention R x.1, x.2))).mapError
        fun (e, found) => (e, found.map fun x => (recodeMention R x.1, x.2)) := by
  have hhits : mention.hits (R.recode t) = (mention.hits t).map (recodeMention R) :=
    (mirrors_mention hline).hits_recode ht
  rw [mentions, hhits, eraseDups_map_of_injOn _ fun m hm m' hm' =>
    recodeMention_inj hR (knows_spelling ht hm) (knows_spelling ht hm')]
  refine readIds_map (recodeMention R) fun m hm => ?_
  rw [List.mem_eraseDups] at hm
  exact userId_recode (knows_contents (knows_spelling ht hm)).2

end

/-! ## The resolution of a recoded text -/

/-- The resolution with everything of the text in the other code. -/
def Resolution.recode (R : Recoding) (r : Resolution) : Resolution where
  tags := r.tags.recode R
  files := r.files
  mentions := r.mentions.map fun x => (recodeMention R x.1, x.2)
  text := R.recode r.text

/-- What is found before an id that is too long, with the mentions in the other code. -/
def Interruption.recode (R : Recoding) (i : Interruption) : Interruption where
  numeral := i.numeral
  files := i.files
  mentions? := i.mentions?.map (List.map fun x => (recodeMention R x.1, x.2))

theorem resolve_recode (hR : R.Decodable) (hline : Keeps R (· != '\n')) {source : Text}
    (hs : R.Knows source) :
    resolve (R.recode source) =
      ((resolve source).map (Resolution.recode R)).mapError (Interruption.recode R) := by
  have ht := (knows_stashTags hs).1
  simp only [resolve, bind, Except.bind, pure, Except.pure]
  rw [stashTags_recode hs]
  generalize stashTags emptyTags source = stashed at ht
  obtain ⟨t, tags⟩ := stashed
  simp only [fileTags_recode ht]
  cases hf : fileTags t with
  | error e => rfl
  | ok files =>
    obtain ⟨hsame, hspelled⟩ := numberedSpellings_recode (R := R) hf
    have hl : ∀ c ∈ emptyFragments.label, isQuiet c = false := by decide
    have htokens := tokensFor_recode hR hl hspelled 0 ht
    rw [hsame] at htokens
    have ht' : R.Knows (Stash.tokensFor emptyFragments.label 0 (numberedSpellings files) t) :=
      knows_tokensFor hl ht
    simp only [Except.mapError, htokens]
    generalize Stash.tokensFor emptyFragments.label 0 (numberedSpellings files) t = u at ht'
    rw [mentions_recode hR hline ht']
    cases hm : mentions u with
    | error e => rfl
    | ok found =>
      have hmem (x) (hx : x ∈ found) := mem_hits_of_mentions hm hx
      have hspell : (found.map fun x => (recodeMention R x.1, x.2)).map
          (fun x => mention.spelling x.1) =
            (found.map fun x => mention.spelling x.1).map R.recode := by
        rw [List.map_map, List.map_map]
        exact List.map_congr_left fun x hx => spelling_recodeMention hline ht' (hmem x hx)
      have hws : ∀ w ∈ found.map fun x => mention.spelling x.1, R.Knows w ∧ w.head? = some '[' := by
        intro w hw
        obtain ⟨x, hx, rfl⟩ := List.mem_map.mp hw
        exact ⟨knows_spelling ht' (hmem x hx), head_spelling_mention (hmem x hx)⟩
      simp only [Except.map, Except.mapError, hspell, Resolution.recode]
      rw [tokensFor_recode hR hl hws _ ht']

theorem knows_resolve {source : Text} (hs : R.Knows source) {r : Resolution}
    (h : resolve source = .ok r) :
    R.Knows r.text ∧ (∀ fragment ∈ r.tags.fragments, R.Knows fragment) ∧
      ∀ x ∈ r.mentions, R.Knows (mention.spelling x.1) := by
  obtain ⟨htags, hf, hm, htext⟩ := resolve_eq_ok h
  obtain ⟨ht, hfragments⟩ := knows_stashTags hs
  have hl : ∀ c ∈ emptyFragments.label, isQuiet c = false := by decide
  have hw : R.Knows (withoutFiles source r.files) := knows_tokensFor hl ht
  refine ⟨?_, ?_, fun x hx => ?_⟩
  · rw [htext]
    exact knows_tokensFor hl hw
  · rw [htags]
    exact hfragments
  · exact knows_spelling hw (mem_hits_of_mentions hm hx)

end Bracket

/-! ## Putting fragments back into a recoded text -/

namespace Stash

variable (hR : ∀ t, R.Knows t)
include hR

theorem replace_token_recode {label : Text} (hl : ∀ c ∈ label, isQuiet c = false) (k : Nat)
    (new t : Text) :
    Text.replace ((empty label).token k) (R.recode new) (R.recode t) =
      R.recode (Text.replace ((empty label).token k) new t) := by
  have hm : Mirrors (exact ((empty label).token k)) (exact ((empty label).token k)) R id :=
    mirrors_exact (token_not_quiet hl k) (by decide)
  exact hm.rewrite_recode (hR t) fun _ _ => rfl

/-- Fragments of which one is the recoding of the other are put back alike. -/
theorem putBack_recode {label : Text} (hl : ∀ c ∈ label, isQuiet c = false) {f : Text → Text}
    {xs ys : List Text} (h : List.Forall₂ (fun x y => f x = R.recode (f y)) xs ys) (t : Text) :
    putBack ⟨label, xs⟩ f (R.recode t) = R.recode (putBack ⟨label, ys⟩ f t) := by
  simp only [putBack, entries, List.foldr_map]
  change List.foldr (fun x u => Text.replace ((empty label).token x.2) (f x.1) u) (R.recode t)
      (xs.zipIdx 0) =
    R.recode (List.foldr (fun x u => Text.replace ((empty label).token x.2) (f x.1) u) t
      (ys.zipIdx 0))
  generalize 0 = n
  induction h generalizing n with
  | nil => rfl
  | cons hxy _ ih =>
    rw [List.zipIdx_cons, List.zipIdx_cons, List.foldr_cons, List.foldr_cons, ih (n + 1), hxy]
    exact replace_token_recode hR hl n _ _

end Stash

namespace Bracket

section

variable (hR : R.SparesRules)
include hR

theorem fixes_escape {t : Text} (ht : R.Fixes t) : R.Fixes (Html.escape t) := by
  intro c hc
  rcases Html.mem_escape hc with hc | hc
  · exact ht c hc
  · exact fixes_literal hR (t := "&ampltg;".toList) (by decide) c hc

theorem fixes_escapeDoubleQuotes {t : Text} (ht : R.Fixes t) :
    R.Fixes (Html.escapeDoubleQuotes t) := by
  intro c hc
  rcases Html.mem_escapeDoubleQuotes hc with hc | hc
  · exact ht c hc
  · exact fixes_literal hR (t := "&quot;".toList) (by decide) c hc

theorem fixes_anchor {target body : Text} (ht : R.Fixes target) (hb : R.Fixes body) :
    R.Fixes (Html.anchor target body) := by
  unfold Html.anchor Html.anchorRaw Html.escapeValue
  simp only [fixes_append]
  exact ⟨⟨⟨⟨fixes_literal hR (by decide +kernel),
    fixes_escapeDoubleQuotes hR (fixes_escape hR ht)⟩, fixes_literal hR (by decide +kernel)⟩,
    fixes_escape hR hb⟩, fixes_literal hR (by decide +kernel)⟩

omit hR in
theorem fixes_ofInt (n : Int) : R.Fixes (Text.ofInt n) :=
  fixes_of_not_quiet fun _ hc => Text.isQuiet_of_mem_ofInt hc

theorem fixes_aboutId {before after : Text} (hb : ∀ c ∈ before, isWritten c = true)
    (ha : ∀ c ∈ after, isWritten c = true) (id : Int) :
    R.Fixes (before ++ Text.ofInt id ++ after) :=
  fixes_append.mpr ⟨fixes_append.mpr ⟨fixes_literal hR hb, fixes_ofInt id⟩, fixes_literal hR ha⟩

theorem FileOutcome.fixes_html {outcome : FileOutcome}
    (h : ∀ f, outcome = .found f → R.Fixes f.name ∧ R.Fixes f.url) : R.Fixes outcome.html := by
  cases outcome with
  | found f => exact fixes_anchor hR (h f rfl).2 (h f rfl).1
  | missing id => exact fixes_aboutId hR (by decide) (by decide) id
  | failed id reason => exact fixes_aboutId hR (by decide +kernel) (by decide) id

/-- The fragments of a mention in two codes, the second of which escapes to the first in `R`. -/
theorem mentionFragment_recode {A B : Recoding} {x : Mention × Option UserOutcome}
    (hA : A.Knows x.1.content) (hB : B.Knows x.1.content)
    (hAB : Html.escape (A.recode x.1.content) = R.recode (Html.escape (B.recode x.1.content)))
    (hlink : ∀ id link, x.2 = some (.linked id link) → R.Fixes link) :
    (mentionFragment (recodeMention A x.1, x.2)).2 =
      R.recode (mentionFragment (recodeMention B x.1, x.2)).2 := by
  have hblankA := Text.blank_recode hA
  have hblankB := Text.blank_recode hB
  obtain ⟨m, outcome⟩ := x
  cases outcome with
  | none => exact hAB
  | some outcome =>
    simp only [mentionFragment, recodeMention, recodeSpan]
    cases outcome with
    | linked id link => exact (hlink id link rfl).recode_eq.symm
    | unknown id =>
      simp only [UserOutcome.html, hblankA, hblankB]
      split
      · exact (fixes_ofInt id).recode_eq.symm
      · exact hAB
    | failed id reason =>
      simp only [UserOutcome.html, hblankA, hblankB]
      split
      · exact (fixes_aboutId hR (by decide +kernel) (by decide) id).recode_eq.symm
      · exact hAB

/-- If every character escapes in one code to what it escapes to in another, recoded by `R`, then
the same holds for what a text becomes with its references resolved and its tags back. -/
theorem filled_recode {A B : Recoding}
    (hAB : ∀ c, A.known c → B.known c → Html.escape (A.code c) = R.recode (Html.escape (B.code c)))
    {source : Text} (hA : A.Knows source) (hB : B.Knows source) {r : Resolution}
    (h : resolve source = .ok r) {files : List (FileTag × Option FileOutcome)}
    (hfiles : ∀ x ∈ files, ∀ f, x.2 = some (.found f) → R.Fixes f.name ∧ R.Fixes f.url)
    {users : List (Mention × Option UserOutcome)}
    (hmentions : ∀ x ∈ users, ∃ y ∈ r.mentions, y.1 = x.1)
    (hlinks : ∀ x ∈ users, ∀ id link, x.2 = some (.linked id link) → R.Fixes link) :
    (r.recode A).filled files (users.map fun x => (recodeMention A x.1, x.2)) =
      R.recode ((r.recode B).filled files (users.map fun x => (recodeMention B x.1, x.2))) := by
  have hAB {t : Text} (hA : A.Knows t) (hB : B.Knows t) :
      Html.escape (A.recode t) = R.recode (Html.escape (B.recode t)) :=
    escape_recode fun c hc => hAB c (hA c hc) (hB c hc)
  obtain ⟨htextA, htagsA, hmentionsA⟩ := knows_resolve hA h
  obtain ⟨htextB, htagsB, hmentionsB⟩ := knows_resolve hB h
  have hfile : List.Forall₂ (fun x y => id x = R.recode (id y))
      ((files.filterMap fileFragment?).map Prod.snd)
        ((files.filterMap fileFragment?).map Prod.snd) := by
    rw [List.forall₂_same]
    intro html hhtml
    obtain ⟨⟨spelled, fragment⟩, hx, rfl⟩ := List.mem_map.mp hhtml
    obtain ⟨⟨tag, outcome⟩, ho, he⟩ := List.mem_filterMap.mp hx
    cases outcome with
    | none => cases he
    | some outcome =>
      obtain ⟨rfl, rfl⟩ := Prod.mk.inj (Option.some.inj he)
      exact (FileOutcome.fixes_html hR fun f hf => hfiles _ ho f (congrArg some hf)).recode_eq.symm
  have husers : List.Forall₂ (fun x y => id x = R.recode (id y))
      (((users.map fun x => (recodeMention A x.1, x.2)).map mentionFragment).map Prod.snd)
      (((users.map fun x => (recodeMention B x.1, x.2)).map mentionFragment).map Prod.snd) := by
    simp only [List.map_map, List.forall₂_map_left_iff, List.forall₂_map_right_iff,
      List.forall₂_same]
    intro x hx
    obtain ⟨y, hy, he⟩ := hmentions x hx
    have hlabelA := (knows_contents (hmentionsA y hy)).1
    have hlabelB := (knows_contents (hmentionsB y hy)).1
    rw [he] at hlabelA hlabelB
    exact mentionFragment_recode hR hlabelA hlabelB (hAB hlabelA hlabelB) (hlinks x hx)
  have htags : List.Forall₂ (fun x y => Html.escape x = R.recode (Html.escape y))
      (r.recode A).tags.fragments (r.recode B).tags.fragments := by
    simp only [Resolution.recode, Stash.recode, List.forall₂_map_left_iff,
      List.forall₂_map_right_iff, List.forall₂_same]
    exact fun x hx => hAB (htagsA x hx) (htagsB x hx)
  have hlabel : ∀ c ∈ r.tags.label, isQuiet c = false := by
    rw [(resolve_eq_ok h).1, stashTags, Stash.stow, Stash.label_stowPieces]
    decide
  have htext : Html.escape (r.recode A).text = R.recode (Html.escape (r.recode B).text) :=
    hAB htextA htextB
  rw [Resolution.filled, unstashTags, escapeAround, htext,
    Stash.putBack_recode hR.knows (by decide) (List.rel_append hfile husers)]
  exact Stash.putBack_recode hR.knows hlabel htags _

end

@[simp] theorem recodeMention_same (m : Mention) : recodeMention same m = m := by
  simp [recodeMention, recodeSpan]

theorem Resolution.recode_same (r : Resolution) : r.recode same = r := by
  have hsame : same.recode = id := funext Recoding.recode_same
  obtain ⟨⟨label, fragments⟩, files, mentions, text⟩ := r
  simp [Resolution.recode, Stash.recode, hsame]

end Bracket

end TaskBulletin
