import TaskBulletin.Proofs.Token

/-!
# Fragments that hold tokens

A fragment may hold tokens of fragments that were recorded before it. As the newest
fragment goes back first, every token has been put back in the end, and what the text shows
is what it shows by reading: characters, and for each token what its fragment shows. Only a
stretch between two references that spells a token can be misread on the way, so the text
that is shown carries marks where references begin and end, to say that there is none.
-/

namespace TaskBulletin

open Pattern

/-! ## What is shown -/

/-- A character that is shown, or a mark where a reference begins or ends. -/
inductive Sign where
  | char (c : Char)
  | opens
  | closes
  deriving Repr, DecidableEq

namespace Sign

def text (signs : List Sign) : Text :=
  signs.filterMap fun
    | char c => some c
    | _ => none

@[simp] theorem text_nil : text [] = [] := rfl

@[simp] theorem text_char_cons (c : Char) (signs : List Sign) :
    text (char c :: signs) = c :: text signs :=
  rfl

@[simp] theorem text_opens_cons (signs : List Sign) : text (opens :: signs) = text signs := rfl

@[simp] theorem text_closes_cons (signs : List Sign) : text (closes :: signs) = text signs := rfl

@[simp] theorem text_append (signs others : List Sign) :
    text (signs ++ others) = text signs ++ text others :=
  List.filterMap_append

@[simp] theorem text_map_char (t : Text) : text (t.map char) = t := by
  induction t with
  | nil => rfl
  | cons c t ih => rw [List.map_cons, text_char_cons, ih]

theorem text_flatMap {α : Type} (f : α → List Sign) (xs : List α) :
    text (xs.flatMap f) = xs.flatMap fun x => text (f x) := by
  induction xs with
  | nil => rfl
  | cons x xs ih => rw [List.flatMap_cons, List.flatMap_cons, text_append, ih]

end Sign

/-- What is shown between the end of a reference and the beginning of another is never the name of
a token. -/
def Apart (label : Text) (signs : List Sign) : Prop :=
  ∀ before mid after, signs = before ++ .closes :: (mid ++ .opens :: after) →
    ∀ k, Sign.text mid ≠ tokenName label k

/-- There is no such name without one of the characters of the label. -/
theorem Apart.of_notMem {label : Text} {c : Char} (hc : c ∈ label) {signs : List Sign}
    (h : .char c ∉ signs) : Apart label signs := by
  rintro before mid after rfl k hk
  have hm : c ∈ Sign.text mid := by
    rw [hk]
    exact List.mem_append_left _ hc
  rw [Sign.text, List.mem_filterMap] at hm
  obtain ⟨sign, hs, he⟩ := hm
  cases sign with
  | char d =>
    obtain rfl : d = c := Option.some.inj he
    simp [hs] at h
  | opens => cases he
  | closes => cases he

theorem Apart.of_single (label t u v : Text) :
    Apart label (t.map .char ++ .opens :: (u.map .char ++ .closes :: v.map .char)) := by
  have hplain (t : Text) : (t.map Sign.char).Pairwise fun s s' => s = .closes → s' ≠ .opens :=
    List.pairwise_map.mpr (List.pairwise_of_forall fun _ _ h => by cases h)
  intro before mid after he k _
  have hpairs : (before ++ Sign.closes :: (mid ++ Sign.opens :: after)).Pairwise
      fun s s' => s = .closes → s' ≠ .opens := by
    rw [← he]
    simp [List.pairwise_append, hplain]
  have hlater := (List.pairwise_append.mp hpairs).2.1
  exact (List.pairwise_cons.mp hlater).1 .opens (by simp) rfl rfl

/-! ## Characters and tokens -/

/-- Characters and tokens show some signs, if a token with the number `k` may show whatever
`shown k` says. Marks may be left over from references that were put back. -/
inductive Shows (shown : Nat → List Sign → Prop) : List (Piece Nat) → List Sign → Prop
  | nil : Shows shown [] []
  | char {c : Char} {ps : List (Piece Nat)} {signs : List Sign} :
    c ≠ '\x00' → Shows shown ps signs → Shows shown (.plain c :: ps) (.char c :: signs)
  | token {k : Nat} {ps : List (Piece Nat)} {inner signs : List Sign} :
    shown k inner → Shows shown ps signs →
      Shows shown (.hit k :: ps) (.opens :: (inner ++ .closes :: signs))
  | opens {ps : List (Piece Nat)} {signs : List Sign} :
    Shows shown ps signs → Shows shown ps (.opens :: signs)
  | closes {ps : List (Piece Nat)} {signs : List Sign} :
    Shows shown ps signs → Shows shown ps (.closes :: signs)

/-- All tokens have numbers under `n`. -/
def Under (n : Nat) (ps : List (Piece Nat)) : Prop := ∀ k, .hit k ∈ ps → k < n

namespace Shows

variable {shown : Nat → List Sign → Prop} {ps qs : List (Piece Nat)} {signs others : List Sign}

theorem append (h : Shows shown ps signs) (hq : Shows shown qs others) :
    Shows shown (ps ++ qs) (signs ++ others) := by
  induction h with
  | nil => exact hq
  | char hc _ ih => exact .char hc ih
  | token hk _ ih =>
    rw [List.cons_append, List.cons_append, List.append_assoc]
    exact .token hk ih
  | opens _ ih => exact .opens ih
  | closes _ ih => exact .closes ih

theorem of_text {t : Text} (ht : '\x00' ∉ t) : Shows shown (t.map .plain) (t.map .char) := by
  induction t with
  | nil => exact .nil
  | cons c t ih =>
    rw [List.mem_cons, not_or] at ht
    exact .char (Ne.symm ht.1) (ih ht.2)

theorem exists_of_text {t : Text} (ht : '\x00' ∉ t) (f : Nat → Text) (n : Nat) :
    ∃ ps, writeWith f ps = t ∧ Shows shown ps (t.map .char) ∧ Under n ps := by
  refine ⟨t.map .plain, writeWith_map_plain f t, .of_text ht, fun k hk => ?_⟩
  obtain ⟨c, -, hc⟩ := List.mem_map.mp hk
  cases hc

theorem flatMap {α : Type} {xs : List α} {f : α → List (Piece Nat)} {g : α → List Sign}
    (h : ∀ x ∈ xs, Shows shown (f x) (g x)) : Shows shown (xs.flatMap f) (xs.flatMap g) := by
  induction xs with
  | nil => exact .nil
  | cons x xs ih =>
    rw [List.flatMap_cons, List.flatMap_cons]
    exact (h x (List.mem_cons_self ..)).append (ih fun y hy => h y (List.mem_cons_of_mem _ hy))

theorem ne_nul (h : Shows shown ps signs) : ∀ c, .plain c ∈ ps → c ≠ '\x00' := by
  induction h with
  | nil => simp
  | char hc _ ih =>
    intro d hd
    rcases List.mem_cons.mp hd with hd | hd
    · rw [Piece.plain.inj hd]
      exact hc
    · exact ih d hd
  | token _ _ ih =>
    intro d hd
    exact ih d ((List.mem_cons.mp hd).resolve_left (by simp))
  | opens _ ih => exact ih
  | closes _ ih => exact ih

theorem exists_append (h : Shows shown (ps ++ qs) signs) :
    ∃ front back, signs = front ++ back ∧ Shows shown ps front ∧ Shows shown qs back := by
  generalize hr : ps ++ qs = rs at h
  induction h generalizing ps with
  | nil =>
    obtain ⟨rfl, rfl⟩ := List.append_eq_nil_iff.mp hr
    exact ⟨[], [], rfl, .nil, .nil⟩
  | @char c rest signs hc h ih =>
    cases ps with
    | nil =>
      rw [List.nil_append] at hr
      subst hr
      exact ⟨[], _, rfl, .nil, .char hc h⟩
    | cons p ps =>
      obtain ⟨rfl, hrest⟩ := List.cons.inj hr
      obtain ⟨front, back, rfl, hf, hb⟩ := ih hrest
      exact ⟨_, back, rfl, .char hc hf, hb⟩
  | @token k rest inner signs hk h ih =>
    cases ps with
    | nil =>
      rw [List.nil_append] at hr
      subst hr
      exact ⟨[], _, rfl, .nil, .token hk h⟩
    | cons p ps =>
      obtain ⟨rfl, hrest⟩ := List.cons.inj hr
      obtain ⟨front, back, rfl, hf, hb⟩ := ih hrest
      exact ⟨_, back, by simp, .token hk hf, hb⟩
  | opens h ih =>
    obtain ⟨front, back, rfl, hf, hb⟩ := ih hr
    exact ⟨_, back, rfl, .opens hf, hb⟩
  | closes h ih =>
    obtain ⟨front, back, rfl, hf, hb⟩ := ih hr
    exact ⟨_, back, rfl, .closes hf, hb⟩

theorem exists_hit {k : Nat} (h : Shows shown (.hit k :: ps) signs) :
    ∃ stray inner back, signs = stray ++ .opens :: (inner ++ .closes :: back) ∧
      Sign.text stray = [] ∧ Shows shown ps back := by
  generalize hr : .hit k :: ps = rs at h
  induction h with
  | nil => cases hr
  | char _ _ _ => cases (List.cons.inj hr).1
  | @token j rest inner signs _ h _ =>
    obtain ⟨-, rfl⟩ := List.cons.inj hr
    exact ⟨[], inner, signs, rfl, rfl, h⟩
  | opens _ ih =>
    obtain ⟨stray, inner, back, rfl, ht, hb⟩ := ih hr
    exact ⟨_ :: stray, inner, back, rfl, ht, hb⟩
  | closes _ ih =>
    obtain ⟨stray, inner, back, rfl, ht, hb⟩ := ih hr
    exact ⟨_ :: stray, inner, back, rfl, ht, hb⟩

theorem writeWith_eq_text (h : Shows shown ps signs) (hps : Under 0 ps) (f : Nat → Text) :
    writeWith f ps = Sign.text signs := by
  induction h with
  | nil => rfl
  | char _ _ ih =>
    rw [writeWith, Sign.text_char_cons, ih fun k hk => hps k (List.mem_cons_of_mem _ hk)]
  | @token k _ _ _ _ _ _ => exact absurd (hps k (List.mem_cons_self ..)) (Nat.not_lt_zero k)
  | opens _ ih => exact ih hps
  | closes _ ih => exact ih hps

/-- Where references are apart, no run between two tokens is the name of a token. -/
theorem ne_tokenName (h : Shows shown ps signs) {label : Text} (hap : Apart label signs)
    {before after : List (Piece Nat)} {j k : Nat} {run : Text}
    (hps : ps = before ++ .hit j :: (run.map .plain ++ .hit k :: after)) (n : Nat) :
    run ≠ tokenName label n := by
  subst hps
  obtain ⟨front, back, rfl, -, hback⟩ := h.exists_append
  obtain ⟨stray, inner, rest, rfl, -, hrest⟩ := hback.exists_hit
  obtain ⟨mid, last, rfl, hmid, hlast⟩ := hrest.exists_append
  obtain ⟨stray', inner', tail, rfl, htext, -⟩ := hlast.exists_hit
  have hrun : writeWith (fun _ => []) (run.map .plain) = Sign.text mid :=
    hmid.writeWith_eq_text (fun k hk => by simp at hk) _
  rw [writeWith_map_plain] at hrun
  have hne := hap (front ++ (stray ++ .opens :: inner)) (mid ++ stray') (inner' ++ .closes :: tail)
    (by simp) n
  rwa [Sign.text_append, htext, List.append_nil, ← hrun] at hne

end Shows

/-! ## Replacing one token -/

theorem append_nul_inj {a b x y : Text} (ha : '\x00' ∉ a) (hb : '\x00' ∉ b)
    (h : a ++ '\x00' :: x = b ++ '\x00' :: y) : a = b := by
  have hfields := congrArg (fun t => (Text.fields t).1) h
  simpa [Text.fields_append ha, Text.fields_append hb, Text.fields_nul_cons] using hfields

theorem exists_run {s : Stash} {ps : List (Piece Nat)} (hps : ∀ c, .plain c ∈ ps → c ≠ '\x00')
    {name rest : Text} (hname : '\x00' ∉ name) (h : writeWith s.token ps = name ++ '\x00' :: rest) :
    ∃ k after, ps = name.map .plain ++ .hit k :: after := by
  induction ps generalizing name with
  | nil => simp [writeWith] at h
  | cons piece ps ih =>
    cases piece with
    | plain c =>
      have hc := hps c (List.mem_cons_self ..)
      cases name with
      | nil => exact absurd (List.cons.inj h).1 hc
      | cons d name =>
        obtain ⟨rfl, hrest⟩ := List.cons.inj h
        obtain ⟨k, after, rfl⟩ := ih (fun c hc => hps c (List.mem_cons_of_mem _ hc))
          (fun hm => hname (List.mem_cons_of_mem _ hm)) hrest
        exact ⟨k, after, rfl⟩
    | hit k =>
      cases name with
      | nil => exact ⟨k, ps, rfl⟩
      | cons d name =>
        rw [writeWith, Stash.token_eq] at h
        obtain ⟨rfl, -⟩ := List.cons.inj h
        exact absurd (List.mem_cons_self ..) hname

namespace Stash

variable (s : Stash) (n : Nat) (new : Text)

theorem replace_nul_cons {t : Text} (ht : ∀ rest, t ≠ tokenName s.label n ++ '\x00' :: rest) :
    Text.replace (s.token n) new ('\x00' :: t) = '\x00' :: Text.replace (s.token n) new t := by
  refine Text.replace_cons (fun rest h => ht rest ?_) new
  simpa [token_eq] using h

/-- Another token stays if the name of the token and a NUL do not follow. -/
theorem replace_append_of_ne (hl : '\x00' ∉ s.label) {k : Nat} (hk : k ≠ n) {t : Text}
    (ht : ∀ rest, t ≠ tokenName s.label n ++ '\x00' :: rest) :
    Text.replace (s.token n) new (s.token k ++ t) =
      s.token k ++ Text.replace (s.token n) new t := by
  have hname (k : Nat) : '\x00' ∉ tokenName s.label k := notMem_tokenName hl (by decide) k
  have htext : s.token k ++ t = '\x00' :: (tokenName s.label k ++ '\x00' :: t) := by
    rw [token_eq]
    simp
  have hother : ∀ rest, tokenName s.label k ++ '\x00' :: t ≠
      tokenName s.label n ++ '\x00' :: rest := by
    intro rest h
    exact hk (tokenName_inj.mp (append_nul_inj (hname k) (hname n) h))
  have hsilent : (exact (s.token n)).Silent (tokenName s.label k) := by
    rw [token_eq]
    exact (begins_exact '\x00' _).silent (hname k)
  have hinside : Text.replace (s.token n) new (tokenName s.label k ++ '\x00' :: t) =
      tokenName s.label k ++ Text.replace (s.token n) new ('\x00' :: t) :=
    rewrite_append_of_silent hsilent ..
  rw [htext, s.replace_nul_cons n new hother, hinside, s.replace_nul_cons n new ht, s.token_eq k]
  simp

/-- A token is replaced where it stands, if no run between two tokens is its name. -/
theorem replace_token (hl : '\x00' ∉ s.label) {ps : List (Piece Nat)}
    (hps : ∀ c, .plain c ∈ ps → c ≠ '\x00')
    (hruns : ∀ before j run k after, ps = before ++ .hit j :: (run.map .plain ++ .hit k :: after) →
      run ≠ tokenName s.label n) :
    Text.replace (s.token n) new (writeWith s.token ps) =
      writeWith (fun k => if k = n then new else s.token k) ps := by
  induction ps with
  | nil => exact Text.replace_nil ..
  | cons piece ps ih =>
    have hlater : ∀ c, .plain c ∈ ps → c ≠ '\x00' := fun c hc => hps c (List.mem_cons_of_mem _ hc)
    have ih := ih hlater
      fun before j run k after h => hruns (piece :: before) j run k after (congrArg (piece :: ·) h)
    cases piece with
    | plain c =>
      have hc := hps c (List.mem_cons_self ..)
      have hne : ∀ rest, c :: writeWith s.token ps ≠ s.token n ++ rest := by
        intro rest h
        rw [token_eq] at h
        exact hc (List.cons.inj h).1
      rw [writeWith, writeWith, Text.replace_cons hne, ih]
    | hit k =>
      rw [writeWith, writeWith]
      by_cases hk : k = n
      · have hne : s.token k ≠ [] := by simp [token_eq]
        rw [if_pos hk, ← hk, Text.replace_append hne, hk, ih]
      · have hfollow : ∀ rest, writeWith s.token ps ≠ tokenName s.label n ++ '\x00' :: rest := by
          intro rest h
          obtain ⟨j, after, hafter⟩ := exists_run hlater (notMem_tokenName hl (by decide) n) h
          exact hruns [] k _ j after (by rw [hafter]; rfl) rfl
        rw [if_neg hk, s.replace_append_of_ne n new hl hk hfollow, ih]

end Stash

/-! ## Putting all back -/

namespace Shows

variable {shown : Nat → List Sign → Prop} {ps : List (Piece Nat)} {signs : List Sign}
  {s : Stash} {n : Nat} {new : Text}

/-- Replacing the newest token by a text that shows what it may show changes nothing. -/
theorem exists_replaced (h : Shows shown ps signs) (hps : Under (n + 1) ps)
    (hnew : ∀ inner, shown n inner → ∃ qs, writeWith s.token qs = new ∧ Shows shown qs inner ∧
      Under n qs) :
    ∃ qs, writeWith s.token qs = writeWith (fun k => if k = n then new else s.token k) ps ∧
      Shows shown qs signs ∧ Under n qs := by
  induction h with
  | nil => exact ⟨[], rfl, .nil, fun _ hk => by cases hk⟩
  | @char c ps signs hc _ ih =>
    obtain ⟨qs, hwrite, hshows, hqs⟩ := ih fun k hk => hps k (List.mem_cons_of_mem _ hk)
    refine ⟨.plain c :: qs, by rw [writeWith, writeWith, hwrite], .char hc hshows, fun k hk => ?_⟩
    exact hqs k ((List.mem_cons.mp hk).resolve_left (by simp))
  | @token k ps inner signs hk _ ih =>
    obtain ⟨qs, hwrite, hshows, hqs⟩ := ih fun j hj => hps j (List.mem_cons_of_mem _ hj)
    by_cases hkn : k = n
    · subst hkn
      obtain ⟨rs, hrs, hinner, hunder⟩ := hnew inner hk
      refine ⟨rs ++ qs, ?_, .opens (hinner.append (.closes hshows)), fun j hj => ?_⟩
      · rw [writeWith_append, hrs, hwrite, writeWith, if_pos rfl]
      · exact (List.mem_append.mp hj).elim (hunder j) (hqs j)
    · refine ⟨.hit k :: qs, ?_, .token hk hshows, fun j hj => ?_⟩
      · rw [writeWith, writeWith, if_neg hkn, hwrite]
      · rcases List.mem_cons.mp hj with hj | hj
        · obtain rfl := Piece.hit.inj hj
          have := hps j (List.mem_cons_self ..)
          omega
        · exact hqs j hj
  | opens _ ih =>
    obtain ⟨qs, hwrite, hshows, hqs⟩ := ih hps
    exact ⟨qs, hwrite, .opens hshows, hqs⟩
  | closes _ ih =>
    obtain ⟨qs, hwrite, hshows, hqs⟩ := ih hps
    exact ⟨qs, hwrite, .closes hshows, hqs⟩

end Shows

/-- Every fragment, as `f` writes it, shows what its token may show, with older tokens in it. -/
def Stash.Meant (s : Stash) (f : Text → Text) (shown : Nat → List Sign → Prop) : Prop :=
  ∀ k fragment, s.fragments[k]? = some fragment → ∀ inner, shown k inner →
    ∃ qs, writeWith s.token qs = f fragment ∧ Shows shown qs inner ∧ Under k qs

/-- What characters and tokens show, as long as references are apart, is what is there when all
fragments are back. -/
theorem Stash.putBack_of_shows (s : Stash) (hl : '\x00' ∉ s.label) {f : Text → Text}
    {shown : Nat → List Sign → Prop} (hmeant : s.Meant f shown) {ps : List (Piece Nat)}
    {signs : List Sign} (h : Shows shown ps signs) (hps : Under s.size ps)
    (hap : Apart s.label signs) : s.putBack f (writeWith s.token ps) = Sign.text signs := by
  induction s using induction_add generalizing ps with
  | empty label => exact h.writeWith_eq_text hps _
  | add s fragment ih =>
    have hold : s.Meant f shown := by
      intro k old hk
      have hlt : k < s.fragments.length := (List.getElem?_eq_some_iff.mp hk).1
      refine hmeant k old ?_
      rw [add, List.getElem?_append_left hlt, hk]
    have hnew := hmeant s.size fragment (by simp [add, size])
    rw [size_add] at hps
    obtain ⟨qs, hwrite, hshows, hqs⟩ := h.exists_replaced hps hnew
    have hreplace := s.replace_token s.size (f fragment) hl h.ne_nul
      fun before j run k after he => h.ne_tokenName hap he _
    change (s.add fragment).putBack f (writeWith s.token ps) = _
    rw [putBack_add, nextToken, hreplace, ← ih hl hold hshows hqs hap]
    exact congrArg (s.putBack f) hwrite.symm

end TaskBulletin
