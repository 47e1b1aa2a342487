import TaskBulletin.Proofs.Place
import TaskBulletin.Proofs.Resolution
import TaskBulletin.Proofs.Token

/-!
# What every conversion keeps whole

When the tags are back, a body is escaped text and the anchors of files, whole ones.
The passes after that may tear the tags of links, but nothing else: at the end there
is escaped text, there are tags without attributes, and there are halves of the tags
that open links.
-/

namespace TaskBulletin

open Text Pattern

namespace Html

/-! ## Escaped text -/

theorem escaped_of_forall {t : Text} (h : ∀ c ∈ t, c ≠ '<' ∧ c ≠ '>' ∧ c ≠ '&') : Escaped t :=
  MadeOf.of_forall fun c hc => .char (h c hc)

theorem escaped_escapeChar (c : Char) : Escaped (escapeChar c) := by
  unfold escapeChar
  split
  · exact .of_part (.longer (by decide))
  · exact .of_part (.longer (by decide))
  · exact .of_part (.longer (by decide))
  · rename_i hamp hlt hgt
    exact .of_part (.char ⟨hlt, hgt, hamp⟩)

theorem escaped_escape (t : Text) : Escaped (escape t) := by
  induction t with
  | nil => exact .nil
  | cons c t ih =>
    rw [escape_cons]
    exact (escaped_escapeChar c).concat ih

theorem escapeDoubleQuotes_entity {w : Text} (hw : w ∈ entities) : escapeDoubleQuotes w = w := by
  revert w
  decide

theorem quote_notMem_escapeDoubleQuotes (t : Text) : '"' ∉ escapeDoubleQuotes t := by
  intro hm
  obtain ⟨c, -, hc⟩ := List.mem_flatMap.mp hm
  unfold escapeQuote at hc
  split at hc
  · revert hc
    decide
  · rename_i hne
    exact hne (List.mem_singleton.mp hc).symm

/-- A character that needs no escaping is one part, or the entity of a double quote. -/
theorem madeOf_escapeQuote {Longer : Text → Prop} (hl : Longer "&quot;".toList) {c : Char}
    (hc : c ≠ '<' ∧ c ≠ '>' ∧ c ≠ '&') : MadeOf (Part Longer) (escapeDoubleQuotes [c]) := by
  by_cases hq : c = '"'
  · subst hq
    exact .of_part (.longer hl)
  · rw [escapeDoubleQuotes_cons, escapeQuote_of_ne hq]
    exact .of_part (.char hc)

theorem Escaped.escapeDoubleQuotes {t : Text} (h : Escaped t) :
    Escaped (Html.escapeDoubleQuotes t) := by
  induction h with
  | nil => exact .nil
  | @append w t hw _ ih =>
    rw [escapeDoubleQuotes_append]
    refine MadeOf.concat ?_ ih
    cases hw with
    | char hc => exact madeOf_escapeQuote (by decide) hc
    | longer hw =>
      rw [escapeDoubleQuotes_entity hw]
      exact .of_part (.longer hw)

theorem Escaped.ne_angle {t : Text} (h : Escaped t) : ∀ c ∈ t, c ≠ '<' ∧ c ≠ '>' := by
  induction h with
  | nil => simp
  | @append w t hw _ ih =>
    intro c hc
    rcases List.mem_append.mp hc with hc | hc
    · cases hw with
      | char hd =>
        obtain rfl := List.mem_singleton.mp hc
        exact ⟨hd.1, hd.2.1⟩
      | longer hw =>
        obtain ⟨hl, hg, -⟩ := Place.plain_of_mem_entity hw c hc
        exact ⟨hl, hg⟩
    · exact ih c hc

theorem Escaped.anchored {t : Text} (h : Escaped t) : Anchored t := by
  refine MadeOf.expand (fun w hw => ?_) h
  cases hw with
  | char hc => exact .of_part (.char hc)
  | longer hw => exact .of_part (.longer (.entity hw))

theorem Escaped.torn {t : Text} (h : Escaped t) : Torn t := by
  refine MadeOf.expand (fun w hw => ?_) h
  cases hw with
  | char hc => exact .of_part (.char hc)
  | longer hw => exact .of_part (.longer (List.mem_append_left _ (List.mem_append_left _ hw)))

theorem torn_linkStart : Torn linkStart := .of_part (.longer (by decide))

theorem torn_linkEnd : Torn linkEnd := .of_part (.longer (by decide))

theorem torn_simpleTag {w : Text} (hw : w ∈ simpleTags) : Torn w :=
  .of_part (.longer (List.mem_append_left _ (List.mem_append_right _ hw)))

theorem Anchored.torn {t : Text} (h : Anchored t) : Torn t := by
  refine MadeOf.expand (fun w hw => ?_) h
  cases hw with
  | char hc => exact .of_part (.char hc)
  | longer hw =>
    cases hw with
    | entity hw => exact Escaped.torn (.of_part (.longer hw))
    | anchorEnd => exact torn_simpleTag (by decide)
    | link hv _ _ => exact (torn_linkStart.concat hv.torn).concat torn_linkEnd

theorem Anchored.run {t : Text} (h : Anchored t) : Place.text.run t = .text := by
  refine Place.run_madeOf (fun w hw => ?_) h
  cases hw with
  | entity hw => exact Place.run_entity hw (by decide) (by decide)
  | anchorEnd => rfl
  | @link v hv hq _ =>
    have hangle := Escaped.ne_angle hv
    exact Place.run_link fun c hc => ⟨(hangle c hc).1, (hangle c hc).2, fun he => hq (he ▸ hc)⟩

end Html

namespace Bracket

open Html

/-! ## Fragments -/

section

variable {file : Int → Except Text (Option DiskFile)} {user : Int → Except Text Text}

theorem escaped_ofInt (id : Int) : Escaped (Text.ofInt id) := by
  have hdigit (n : Nat) : ∀ c ∈ Text.ofNat n, c ≠ '<' ∧ c ≠ '>' ∧ c ≠ '&' := by
    intro c hc
    refine ⟨?_, ?_, ?_⟩
    · rintro rfl
      exact notMem_ofNat (by decide) n hc
    · rintro rfl
      exact notMem_ofNat (by decide) n hc
    · rintro rfl
      exact notMem_ofNat (by decide) n hc
  apply escaped_of_forall
  cases id with
  | ofNat n => exact hdigit n
  | negSucc n =>
    intro c hc
    rcases List.mem_cons.mp hc with rfl | hc
    · decide
    · exact hdigit (n + 1) c hc

theorem escaped_around {before after : Text}
    (hb : ∀ c ∈ before, c ≠ '<' ∧ c ≠ '>' ∧ c ≠ '&')
    (ha : ∀ c ∈ after, c ≠ '<' ∧ c ≠ '>' ∧ c ≠ '&') (id : Int) :
    Escaped (before ++ Text.ofInt id ++ after) :=
  ((escaped_of_forall hb).concat (escaped_ofInt id)).concat (escaped_of_forall ha)

theorem nul_notMem_escapeValue {t : Text} (h : '\x00' ∉ t) : '\x00' ∉ escapeValue t := by
  intro hm
  rcases mem_escapeDoubleQuotes hm with hm | hm
  · rcases mem_escape hm with hm | hm
    · exact h hm
    · revert hm
      decide
  · revert hm
    decide

theorem anchored_anchor {target : Text} (h : '\x00' ∉ target) (body : Text) :
    Anchored (anchor target body) := by
  have hlink : Anchored (linkStart ++ escapeValue target ++ linkEnd) :=
    .of_part (.longer (.link (escaped_escape target).escapeDoubleQuotes
      (quote_notMem_escapeDoubleQuotes _) (nul_notMem_escapeValue h)))
  have hend : Anchored "</a>".toList := .of_part (.longer .anchorEnd)
  have he : anchor target body =
      linkStart ++ escapeValue target ++ linkEnd ++ (escape body ++ "</a>".toList) := by
    change linkStart ++ escapeValue target ++ linkEnd ++ escape body ++ "</a>".toList = _
    rw [List.append_assoc]
  rw [he]
  exact hlink.concat ((escaped_escape body).anchored.concat hend)

theorem anchored_fileOutcome (hfile : ∀ id f, file id = .ok (some f) → '\x00' ∉ f.url) (id : Int) :
    Anchored (FileOutcome.ofAnswer id (file id)).html := by
  cases ha : file id with
  | ok answer =>
    cases answer with
    | none => exact (escaped_around (by decide) (by decide) id).anchored
    | some f => exact anchored_anchor (hfile id f ha) f.name
  | error reason => exact (escaped_around (by decide) (by decide) id).anchored

theorem anchored_userOutcome
    (huser : ∀ id link, user id = .ok link → link = [] ∨ link = Text.ofInt id) (id : Int)
    (label : Text) : Anchored ((UserOutcome.ofAnswer id (user id)).html label) := by
  cases ha : user id with
  | ok link =>
    have hunknown : UserOutcome.ofAnswer id (.ok link) = .unknown id := by
      rcases huser id link ha with rfl | rfl
      · rfl
      · simp [UserOutcome.ofAnswer]
    rw [hunknown]
    change Anchored (if Text.blank label then Text.ofInt id else escape label)
    split
    · exact (escaped_ofInt id).anchored
    · exact (escaped_escape label).anchored
  | error reason =>
    change Anchored (if Text.blank label then _ else _)
    split
    · exact (escaped_around (by decide) (by decide) id).anchored
    · exact (escaped_escape label).anchored

theorem anchored_fragments (hfile : ∀ id f, file id = .ok (some f) → '\x00' ∉ f.url)
    (huser : ∀ id link, user id = .ok link → link = [] ∨ link = Text.ofInt id) (r : Resolution) :
    ∀ x ∈ (r.fragments file user).fragments, Anchored x := by
  intro x hx
  rcases List.mem_append.mp hx with hx | hx
  · obtain ⟨y, hy, rfl⟩ := List.mem_map.mp hx
    obtain ⟨⟨tag, o⟩, ho, hfragment⟩ := List.mem_filterMap.mp hy
    obtain ⟨⟨tag', id⟩, -, he⟩ := List.mem_map.mp ho
    obtain ⟨-, rfl⟩ := Prod.mk.inj he
    cases id with
    | none => cases hfragment
    | some id =>
      obtain rfl := Option.some.inj hfragment
      exact anchored_fileOutcome hfile id
  · obtain ⟨y, hy, rfl⟩ := List.mem_map.mp hx
    obtain ⟨⟨m, o⟩, ho, rfl⟩ := List.mem_map.mp hy
    obtain ⟨⟨m', id⟩, -, he⟩ := List.mem_map.mp ho
    obtain ⟨-, rfl⟩ := Prod.mk.inj he
    cases id with
    | none => exact (escaped_escape m.content).anchored
    | some id => exact anchored_userOutcome huser id m.content

/-! ## Fragments in their places -/

theorem seam_anchored_nul : Seam (Part IsAnchored) '\x00' := by
  apply seam_part (by decide)
  intro w hw hm
  cases hw with
  | entity hw =>
    have h : ∀ w ∈ entities, '\x00' ∉ w := by decide
    exact h w hw hm
  | anchorEnd =>
    revert hm
    decide
  | @link v _ _ hn =>
    have hstart : '\x00' ∉ linkStart := by decide
    have hend : '\x00' ∉ linkEnd := by decide
    simp only [List.mem_append, hstart, hn, hend, or_self] at hm

theorem anchored_replace {token fragment t : Text} {label : Text} {k : Nat}
    (htoken : token = '\x00' :: (tokenName label k ++ ['\x00'])) (hf : Anchored fragment)
    (ht : Anchored t) : Anchored (Text.replace token fragment t) := by
  subst htoken
  refine MadeOf.rewrite (fun a h => ?_) (fun _ _ _ => hf) ht
  rw [h.exact]
  exact ⟨_, _, _, seam_anchored_nul, seam_anchored_nul, rfl⟩

theorem anchored_putBack {s : Stash} {f : Text → Text} (hf : ∀ x ∈ s.fragments, Anchored (f x))
    {t : Text} (ht : Anchored t) : Anchored (s.putBack f t) := by
  have hentries : ∀ e ∈ s.entries, (∃ k, e.1 = '\x00' :: (tokenName s.label k ++ ['\x00'])) ∧
      Anchored (f e.2) := by
    intro e he
    obtain ⟨⟨x, k⟩, hx, rfl⟩ := List.mem_map.mp he
    exact ⟨⟨k, s.token_eq k⟩, hf x (List.fst_mem_of_mem_zipIdx hx)⟩
  rw [Stash.putBack]
  generalize s.entries = entries at hentries
  induction entries with
  | nil => exact ht
  | cons e entries ih =>
    obtain ⟨⟨k, hk⟩, he⟩ := hentries e (List.mem_cons_self ..)
    exact anchored_replace hk he (ih fun e' he' => hentries e' (List.mem_cons_of_mem _ he'))

/-- With the tags back, a body is escaped text and whole anchors. -/
theorem anchored_restored (hfile : ∀ id f, file id = .ok (some f) → '\x00' ∉ f.url)
    (huser : ∀ id link, user id = .ok link → link = [] ∨ link = Text.ofInt id) (r : Resolution) :
    Anchored (r.restored file user) :=
  anchored_putBack (fun x _ => (escaped_escape x).anchored)
    (anchored_putBack (anchored_fragments hfile huser r) (escaped_escape r.text).anchored)

end

/-! ## Passes -/

theorem torn_escapeDoubleQuotes {t : Text} (h : Torn t) : Torn (escapeDoubleQuotes t) := by
  induction h with
  | nil => exact .nil
  | @append w t hw _ ih =>
    rw [escapeDoubleQuotes_append]
    refine MadeOf.concat ?_ ih
    cases hw with
    | char hc => exact madeOf_escapeQuote (by decide) hc
    | longer hw =>
      have hmem : ∀ w ∈ tornParts, escapeDoubleQuotes w ∈ tornParts := by decide
      exact .of_part (.longer (hmem w hw))

theorem torn_element (style : Style) {content : Text} (h : Torn content) :
    Torn (element style.elementName content) := by
  have hopen : '<' :: style.elementName ++ ['>'] ∈ simpleTags := by cases style <;> decide
  have hclose : '<' :: '/' :: style.elementName ++ ['>'] ∈ simpleTags := by cases style <;> decide
  have he : element style.elementName content =
      ('<' :: style.elementName ++ ['>']) ++ content ++
        ('<' :: '/' :: style.elementName ++ ['>']) := by
    simp [element]
  rw [he]
  exact ((torn_simpleTag hopen).concat h).concat (torn_simpleTag hclose)

theorem torn_anchorRaw {target body : Text} (ht : Torn target) (hb : Torn body) :
    Torn (anchorRaw target body) :=
  (((torn_linkStart.concat ht).concat torn_linkEnd).concat hb).concat (torn_simpleTag (by decide))

theorem seamed_between {α β : Type} {opener : Pattern α} (allowed : Char → Bool)
    {closer : Pattern β} (ho : opener.Begins '[') (hc : closer.Ends ']') :
    Seamed (Part (· ∈ tornParts)) (between opener allowed closer) :=
  seamed_of_begins_ends seam_torn_open seam_torn_close (by decide) (begins_between ho _ _)
    (ends_between _ _ hc)

theorem torn_rewrite_between {α β : Type} {opener : Pattern α} {allowed : Char → Bool}
    {closer : Pattern β} (hob : opener.Begins '[') (hoe : opener.Ends ']')
    (hcb : closer.Begins '[') (hce : closer.Ends ']') {f : Span α β → Text}
    (hf : ∀ s, Torn s.content → Torn (f s)) {t : Text} (h : Torn t) :
    Torn ((between opener allowed closer).rewrite f t) := by
  refine MadeOf.rewrite (seamed_between allowed hob hce) (fun s hs ha => hf s ?_) h
  exact (ha.content seam_torn_close seam_torn_open hoe hcb (reads_of_mem_hits hs)).2

theorem torn_rewrite_paired {name : Text} {f : Span Text Text → Text}
    (hf : ∀ s, Torn s.content → Torn (f s)) {t : Text} (h : Torn t) :
    Torn ((paired name).rewrite f t) :=
  torn_rewrite_between (begins_word _) (ends_word ('[' :: name)) (begins_word _)
    (ends_word ('[' :: '/' :: name)) hf h

/-- A value is torn text after the tag's head, in which no longer part begins. -/
theorem torn_value {name : Text} (hn : ∀ d ∈ "&;<>\"".toList, ∀ x ∈ name, Text.spells x d = false)
    {v : Span Text Text} (hv : (valued (name ++ ['='])).Reads v)
    (h : Torn ((valued (name ++ ['='])).spelling v)) : Torn v.content := by
  obtain ⟨hhead, -, hclose⟩ := hv.between
  have he : (valued (name ++ ['='])).spelling v = v.opener ++ v.content ++ ']' :: [] := by
    change v.opener ++ v.content ++ v.closer = _
    rw [hclose.exact]
  rw [he] at h
  have hlacks : ∀ d ∈ "&;<>\"".toList, d ∉ v.opener := by
    intro d hd
    exact lacks_head (by revert d; decide) (hn d hd) v.opener hhead
  obtain ⟨h, -⟩ := h.cut seam_torn_close
  apply h.drop
  intro c hc w hw hh
  exact loose_torn (fun hd => hlacks c hd hc) w hw (.inl hh)

theorem seamed_pairedWithValue (name : Text) :
    Seamed (Part (· ∈ tornParts)) (pairedWithValue name) :=
  seamed_between _ (begins_between (begins_word _) _ _) (ends_word ('[' :: '/' :: name))

section

variable {name : Text} (hn : ∀ d ∈ "&;<>\"".toList, ∀ x ∈ name, Text.spells x d = false)
include hn

theorem torn_valueAndContent {e : Span (Span Text Text) Text} (he : (pairedWithValue name).Reads e)
    (h : Torn ((pairedWithValue name).spelling e)) : Torn e.opener.content ∧ Torn e.content := by
  obtain ⟨hv, -, -⟩ := he.between
  obtain ⟨ho, hc⟩ := MadeOf.content seam_torn_close seam_torn_open
    (ends_between _ _ (ends_exact [] _)) (begins_word _) he h
  exact ⟨torn_value hn hv ho, hc⟩

theorem torn_rewrite_pairedWithValue {f : Span (Span Text Text) Text → Text}
    (hf : ∀ s, Torn s.opener.content → Torn s.content → Torn (f s)) {t : Text} (h : Torn t) :
    Torn ((pairedWithValue name).rewrite f t) := by
  refine MadeOf.rewrite (seamed_pairedWithValue name) (fun s hs ha => ?_) h
  obtain ⟨hv, hc⟩ := torn_valueAndContent hn (reads_of_mem_hits hs) ha
  exact hf s hv hc

end

theorem torn_listItems {content : Text} (h : Torn content) :
    ∀ item ∈ listItems content, Torn item := by
  have hmark : Seamed (Part (· ∈ tornParts)) itemMark :=
    seamed_of_begins_ends seam_torn_open seam_torn_close (by decide) (begins_exact '[' _)
      (ends_exact ['[', '*'] ']')
  intro item hi
  obtain ⟨run, hrun, rfl⟩ := List.mem_map.mp hi
  have hr : Torn run := MadeOf.split hmark h run (List.mem_filter.mp hrun).1
  exact torn_rewrite_paired (fun _ hs => hs) (MadeOf.trim (fun _ hc => loose_torn_of_isBlank hc) hr)

theorem torn_literal {t : Text} (h : ∀ c ∈ t, c ≠ '<' ∧ c ≠ '>' ∧ c ≠ '&') : Torn t :=
  (escaped_of_forall h).torn

theorem torn_numberFrom {n : Nat} {items : List Text} (h : ∀ item ∈ items, Torn item) :
    ∀ line ∈ numberFrom n items, Torn line := by
  induction items generalizing n with
  | nil => simp [numberFrom]
  | cons item items ih =>
    intro line hl
    rcases List.mem_cons.mp hl with rfl | hl
    · have hnumber : Torn (Text.ofNat n) := (escaped_ofInt n).torn
      exact (hnumber.concat (torn_literal (by decide))).concat (h item (List.mem_cons_self ..))
    · exact ih (fun i hi => h i (List.mem_cons_of_mem _ hi)) line hl

theorem torn_numberedLines {content : Text} (h : Torn content) : Torn (numberedLines content) :=
  MadeOf.intercalate (torn_literal (by decide)) (torn_numberFrom (torn_listItems h))

theorem torn_bulletLines {content : Text} (h : Torn content) : Torn (bulletLines content) := by
  apply MadeOf.intercalate (torn_literal (by decide))
  intro line hl
  obtain ⟨item, hi, rfl⟩ := List.mem_map.mp hl
  exact (torn_literal (by decide)).concat (torn_listItems h item hi)

theorem torn_flattenBlocks {t : Text} (h : Torn t) : Torn (flattenBlocks t) := by
  have hopen : "[LIST=1]".toList = '[' :: "LIST=1".toList ++ [']'] := by decide
  have hclose : "[/LIST]".toList = '[' :: "/LIST".toList ++ [']'] := by decide
  have hnumbered : Torn (numberedList.rewrite (fun list => numberedLines list.content) t) := by
    unfold numberedList
    rw [hopen, hclose]
    exact torn_rewrite_between (begins_word _) (ends_word ('[' :: "LIST=1".toList)) (begins_word _)
      (ends_word ('[' :: "/LIST".toList)) (fun _ hc => torn_numberedLines hc) h
  have hbullets : Torn (bulletList.rewrite (fun list => bulletLines list.content)
      (numberedList.rewrite (fun list => numberedLines list.content) t)) :=
    torn_rewrite_paired (fun _ hc => torn_bulletLines hc) hnumbered
  exact torn_rewrite_paired (fun _ hc => hc.concat (torn_literal (by decide))) hbullets

theorem Style.torn_render (style : Style) {t : Text} (h : Torn t) : Torn (style.render t) :=
  torn_rewrite_paired (fun _ hc => torn_element style hc) h

theorem torn_renderLinks {t : Text} (h : Torn t) : Torn (renderLinks t) := by
  have htargeted : Torn (targetedLink.rewrite
      (fun e => anchorRaw (escapeDoubleQuotes e.opener.content) e.content) t) :=
    torn_rewrite_pairedWithValue (by decide)
      (fun _ hv hc => torn_anchorRaw (torn_escapeDoubleQuotes hv) hc) h
  exact torn_rewrite_paired (fun _ hc => torn_anchorRaw (torn_escapeDoubleQuotes hc) hc) htargeted

theorem torn_renderInline {t : Text} (h : Torn t) : Torn (renderInline t) := by
  have hstyles (styles : List Style) {t : Text} (h : Torn t) :
      Torn (styles.foldl (fun t style => style.render t) t) := by
    induction styles generalizing t with
    | nil => exact h
    | cons style styles ih => exact ih (style.torn_render h)
  exact hstyles _ (torn_renderLinks (hstyles _ h))

theorem torn_unwrapUnsupported {t : Text} (h : Torn t) : Torn (unwrapUnsupported t) := by
  have himage : Torn ((paired "IMG".toList).rewrite Span.content t) :=
    torn_rewrite_paired (fun _ hc => hc) h
  have hcolor : Torn ((pairedWithValue "COLOR".toList).rewrite Span.content
      ((paired "IMG".toList).rewrite Span.content t)) :=
    torn_rewrite_pairedWithValue (by decide) (fun _ _ hc => hc) himage
  exact torn_rewrite_pairedWithValue (by decide) (fun _ _ hc => hc) hcolor

theorem torn_normalizeSpacing {t : Text} (h : Torn t) : Torn (Text.normalizeSpacing t) :=
  MadeOf.normalizeSpacing (fun _ hc => loose_torn_of_isBlank hc) (seam_torn (by decide) (by decide))
    (seam_torn (by decide) (by decide)) h

/-- The passes after the tags are back leave text, tags, and halves of link tags. -/
theorem torn_finish {t : Text} (h : Torn t) : Torn (finish t) :=
  torn_normalizeSpacing (torn_unwrapUnsupported (torn_renderInline (torn_flattenBlocks h)))

end Bracket

end TaskBulletin
