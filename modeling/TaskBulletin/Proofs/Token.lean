import TaskBulletin.Proofs.Field
import Mathlib.Data.List.Induction

/-!
# Putting stashed fragments back

A stash is put back newest fragment first, by plain replacement, so a stretch of
text between two tokens can be taken for a token itself. That happens exactly when
the stretch spells a token of the stash that is put back while the tokens around it
still stand. A text in which it never happens reads back: every token gives its
fragment. In any other text NULs are left over, since a fragment in the middle of a
misread stretch never makes a token of it.
-/

namespace TaskBulletin

def tokenName (label : Text) (k : Nat) : Text := label ++ Text.ofNat k

namespace Stash

theorem token_eq (s : Stash) (k : Nat) :
    s.token k = '\x00' :: tokenName s.label k ++ ['\x00'] := by
  simp [token, tokenName]

end Stash

theorem isDigit_of_mem_ofNat {k : Nat} {c : Char} (hc : c ∈ Text.ofNat k) : c.isDigit = true :=
  Nat.isDigit_of_mem_toDigits (by decide) (by decide) hc

theorem exists_ofInt_eq_cons (n : Int) :
    ∃ c t, Text.ofInt n = c :: t ∧ (c = '-' ∨ c.isDigit = true) := by
  cases n with
  | ofNat n =>
    obtain ⟨c, t, hn⟩ := List.exists_cons_of_ne_nil (Nat.toDigits_ne_nil (n := n) (b := 10))
    have hc : c ∈ Text.ofNat n := by
      rw [Text.ofNat, hn]
      exact List.mem_cons_self ..
    exact ⟨c, t, hn, .inr (isDigit_of_mem_ofNat hc)⟩
  | negSucc n => exact ⟨'-', _, rfl, .inl rfl⟩

theorem notMem_ofNat {c : Char} (hd : c.isDigit = false) (k : Nat) : c ∉ Text.ofNat k := by
  intro h
  rw [isDigit_of_mem_ofNat h] at hd
  cases hd

theorem ofNat_inj {j k : Nat} : Text.ofNat j = Text.ofNat k ↔ j = k := by
  constructor
  · intro h
    have h := congrArg (Nat.ofDigitChars 10 · 0) h
    simpa [Text.ofNat] using h
  · rintro rfl
    rfl

theorem tokenName_inj {label : Text} {j k : Nat} :
    tokenName label j = tokenName label k ↔ j = k := by
  simp [tokenName, ofNat_inj]

theorem notMem_tokenName {label : Text} {c : Char} (hl : c ∉ label) (hd : c.isDigit = false)
    (k : Nat) : c ∉ tokenName label k := by
  intro h
  rcases List.mem_append.mp h with h | h
  · exact hl h
  · exact notMem_ofNat hd k h

/-! ## Texts with tokens -/

/-- The fields of tokens and of the run of text that follows each of them. -/
def weave (label : Text) : List (Nat × Text) → List Text
  | [] => []
  | (k, run) :: ts => tokenName label k :: run :: weave label ts

/-- No token is misread: each has a number under `n`, and a run between two tokens
does not spell one that is put back after the `left` one and before the right one. -/
def Clear (label : Text) (n : Nat) : (left : Nat) → (run : Text) → List (Nat × Text) → Prop
  | _, _, [] => True
  | left, run, (k, next) :: ts =>
    k < n ∧ (∀ m < n, run = tokenName label m → m ≤ left ∨ m < k) ∧ Clear label n k next ts

/-- What a text with tokens says when `value` gives the meaning of each. -/
def filled (value : Nat → Text) (run : Text) (ts : List (Nat × Text)) : Text :=
  run ++ ts.flatMap fun (k, next) => value k ++ next

/-- A text made of runs and tokens of the stash, none of which is misread. -/
def Stash.ReadsBack (s : Stash) (t : Text) : Prop :=
  ∃ ts, (Text.fields t).2 = weave s.label ts ∧ Clear s.label s.size s.size (Text.fields t).1 ts

/-- Text without NULs that is part of no token name. -/
structure Opaque (label new : Text) : Prop where
  nul_notMem : '\x00' ∉ new
  ne_tokenName : ∀ before after k, before ++ new ++ after ≠ tokenName label k

/-- A text with a character that no token name has is part of none. -/
theorem Opaque.of_mem {label new : Text} (hn : '\x00' ∉ new) {c : Char} (hc : c ∈ new)
    (hl : c ∉ label) (hd : c.isDigit = false) : Opaque label new where
  nul_notMem := hn
  ne_tokenName before after k h := by
    refine notMem_tokenName hl hd k ?_
    rw [← h]
    exact List.mem_append_left _ (List.mem_append_right _ hc)

/-- The runs and tokens that are left when the token `n` gives `new`. -/
def dropToken (n : Nat) (new : Text) : Text → List (Nat × Text) → Text × List (Nat × Text)
  | run, [] => (run, [])
  | run, (k, next) :: ts =>
    if k = n then dropToken n new (run ++ new ++ next) ts
    else
      let r := dropToken n new next ts
      (run, (k, r.1) :: r.2)

section

variable {label new : Text} {n left : Nat} {run : Text} {ts : List (Nat × Text)}

/-- What stands before the first token may change as long as it is not misread. -/
theorem Clear.change (h : Clear label n left run ts) {left' : Nat} {run' : Text}
    (hrun : ∀ m < n, run' = tokenName label m → m ≤ left') : Clear label n left' run' ts := by
  cases ts with
  | nil => trivial
  | cons t ts => exact ⟨h.1, fun m hm he => .inl (hrun m hm he), h.2.2⟩

theorem Clear.merge (h : Clear label n left run ts) (hnew : Opaque label new) (left' : Nat)
    (before after : Text) : Clear label n left' (before ++ new ++ after) ts :=
  h.change fun m _ he => absurd he (hnew.ne_tokenName before after m)

theorem Clear.of_succ_of_ne {k : Nat} {next : Text}
    (h : Clear label (n + 1) left run ((k, next) :: ts)) (hk : k ≠ n) : k < n := by
  have := h.1
  omega

theorem clear_of_forall_ne (hk : ∀ t ∈ ts, t.1 < n)
    (hrun : ∀ m < n, run = tokenName label m → m ≤ left)
    (hts : ∀ next ∈ (ts.map Prod.snd).dropLast, ∀ m, next ≠ tokenName label m) :
    Clear label n left run ts := by
  induction ts generalizing left run with
  | nil => trivial
  | cons t ts ih =>
    obtain ⟨k, next⟩ := t
    refine ⟨hk (k, next) (List.mem_cons_self ..), fun m hm he => .inl (hrun m hm he), ?_⟩
    cases ts with
    | nil => trivial
    | cons t ts =>
      rw [List.map_cons, List.map_cons, List.dropLast_cons_cons] at hts
      exact ih (fun u hu => hk u (List.mem_cons_of_mem _ hu))
        (fun m _ he => absurd he (hts next (List.mem_cons_self ..) m))
        fun u hu => hts u (List.mem_cons_of_mem _ hu)

theorem replaceFields_weave (hnew : Opaque label new) (h : Clear label (n + 1) left run ts) :
    Text.replaceFields (tokenName label n) new run (weave label ts) =
      ((dropToken n new run ts).1, weave label (dropToken n new run ts).2) := by
  induction ts generalizing left run with
  | nil => rfl
  | cons t ts ih =>
    obtain ⟨k, next⟩ := t
    by_cases hk : k = n
    · subst hk
      rw [weave, Text.replaceFields_cons_name, ih (h.2.2.merge hnew left run next), dropToken,
        if_pos rfl]
    · have hname : tokenName label k ≠ tokenName label n := fun he => hk (tokenName_inj.mp he)
      have hkn := h.of_succ_of_ne hk
      rw [weave, Text.replaceFields_cons_ne hname, dropToken, if_neg hk]
      cases ts with
      | nil => rfl
      | cons t ts =>
        obtain ⟨j, last⟩ := t
        have hnext : next ≠ tokenName label n := by
          intro he
          have hj := h.2.2.1
          rcases h.2.2.2.1 n (by omega) he with h | h <;> omega
        rw [weave, Text.replaceFields_cons_ne hnext]
        have hr := ih h.2.2
        rw [weave] at hr
        rw [hr]
        rfl

theorem Clear.dropToken (hnew : Opaque label new) (h : Clear label (n + 1) left run ts) :
    Clear label n left (dropToken n new run ts).1 (dropToken n new run ts).2 := by
  induction ts generalizing left run with
  | nil => trivial
  | cons t ts ih =>
    obtain ⟨k, next⟩ := t
    by_cases hk : k = n
    · rw [TaskBulletin.dropToken, if_pos hk]
      exact ih (h.2.2.merge hnew left run next)
    · rw [TaskBulletin.dropToken, if_neg hk]
      exact ⟨h.of_succ_of_ne hk, fun m hm he => h.2.1 m (by omega) he, ih h.2.2⟩

theorem filled_dropToken {value : Nat → Text} (hv : value n = new) :
    filled value (dropToken n new run ts).1 (dropToken n new run ts).2 = filled value run ts := by
  induction ts generalizing run with
  | nil => rfl
  | cons t ts ih =>
    obtain ⟨k, next⟩ := t
    by_cases hk : k = n
    · subst hk
      rw [dropToken, if_pos rfl, ih]
      simp [filled, hv]
    · rw [dropToken, if_neg hk]
      have := @ih next
      simp only [filled, List.flatMap_cons] at this ⊢
      rw [List.append_assoc, this]
      simp

theorem Clear.filled_congr (h : Clear label n left run ts) {f g : Nat → Text}
    (hfg : ∀ k < n, f k = g k) : filled f run ts = filled g run ts := by
  induction ts generalizing left run with
  | nil => rfl
  | cons t ts ih =>
    have := ih h.2.2
    simp only [filled, List.flatMap_cons] at this ⊢
    rw [hfg _ h.1, List.append_assoc, this]
    simp

theorem Clear.nul_notMem_filled (h : Clear label n left run ts) {value : Nat → Text}
    (hrun : '\x00' ∉ run) (hts : ∀ field ∈ weave label ts, '\x00' ∉ field)
    (hv : ∀ k < n, '\x00' ∉ value k) : '\x00' ∉ filled value run ts := by
  induction ts generalizing left run with
  | nil => simpa [filled] using hrun
  | cons t ts ih =>
    obtain ⟨k, next⟩ := t
    simp only [weave, List.mem_cons, forall_eq_or_imp] at hts
    have hnext := ih h.2.2 hts.2.1 hts.2.2
    simp only [filled, List.flatMap_cons, List.mem_append, not_or] at hnext ⊢
    exact ⟨hrun, ⟨hv k h.1, hnext.1⟩, hnext.2⟩

theorem Opaque.replaceFields_ne_tokenName (hnew : Opaque label new) (before after : Text)
    (rest : List Text) (n k : Nat) :
    (Text.replaceFields (tokenName label n) new (before ++ new ++ after) rest).1 ≠
      tokenName label k := by
  intro he
  obtain ⟨more, hmore⟩ := @Text.prefix_replaceFields (tokenName label n) new
    (before ++ new ++ after) rest
  rw [he, List.append_assoc (before ++ new)] at hmore
  exact hnew.ne_tokenName before (after ++ more) k hmore

/-- If replacing a token's name gives a clear text, the text was clear. -/
theorem exists_clear_of_replaceFields (hnew : Opaque label new) {rest : List Text}
    (hts : (Text.replaceFields (tokenName label n) new run rest).2 = weave label ts)
    (h : Clear label n left (Text.replaceFields (tokenName label n) new run rest).1 ts)
    (hleft : run = tokenName label n → n ≤ left) :
    ∃ us, rest = weave label us ∧ Clear label (n + 1) left run us := by
  induction hlen : rest.length using Nat.strong_induction_on generalizing rest run left ts with
  | _ len ih =>
    subst hlen
    cases rest with
    | nil => exact ⟨[], rfl, trivial⟩
    | cons field rest =>
    cases rest with
    | nil =>
      -- A single NUL is never used up.
      rw [Text.replaceFields] at hts
      cases ts with
      | nil => cases hts
      | cons t ts => simp [weave] at hts
    | cons next rest =>
      by_cases hf : field = tokenName label n
      · subst hf
        rw [Text.replaceFields_cons_name] at hts h
        obtain ⟨us, hus, hc⟩ :=
          ih rest.length (by rw [List.length_cons, List.length_cons]; omega) hts h
          (fun he => absurd he (hnew.ne_tokenName run next n)) rfl
        refine ⟨(n, next) :: us, by rw [weave, ← hus], Nat.lt_succ_self n, ?_, ?_⟩
        · intro m hm he
          rcases Nat.lt_succ_iff_lt_or_eq.mp hm with hm | rfl
          · exact .inr hm
          · exact .inl (hleft he)
        · exact hc.change fun m hm _ => Nat.lt_succ_iff.mp hm
      · rw [Text.replaceFields_cons_ne hf] at hts h
        cases ts with
        | nil => simp [weave] at hts
        | cons t ts =>
          obtain ⟨k, mid⟩ := t
          simp only [weave, List.cons.injEq] at hts
          obtain ⟨hfst, hsnd⟩ := hts
          have hrun : ∀ m < n + 1, run = tokenName label m → m ≤ left ∨ m < k := by
            intro m hm he
            rcases Nat.lt_succ_iff_lt_or_eq.mp hm with hm | rfl
            · exact h.2.1 m hm he
            · exact .inl (hleft he)
          cases rest with
          | nil =>
            obtain ⟨rfl, -⟩ := List.cons.inj hsnd
            have hfield : field = tokenName label k := hfst
            exact ⟨[(k, next)], by rw [hfield]; rfl, Nat.lt_succ_of_lt h.1, hrun, trivial⟩
          | cons second rest =>
            by_cases hn : next = tokenName label n
            · -- The new text would stand inside the name of a token.
              subst hn
              rw [Text.replaceFields_cons_name] at hfst
              exact absurd hfst (hnew.replaceFields_ne_tokenName field second rest n k)
            · rw [Text.replaceFields_cons_ne hn] at hfst hsnd
              obtain ⟨hmid, hsnd⟩ := List.cons.inj hsnd
              have hc : Clear label n k _ ts := h.2.2
              rw [← hmid] at hc
              obtain ⟨us, hus, hu⟩ := ih (second :: rest).length (by simp) hsnd hc
                (fun he => absurd he hn) rfl
              have hfield : field = tokenName label k := hfst
              exact ⟨(k, next) :: us, by rw [weave, ← hus, hfield], Nat.lt_succ_of_lt h.1, hrun, hu⟩

end

namespace Stash

theorem notMem_token {s : Stash} {c : Char} (hn : c ≠ '\x00') (hl : c ∉ s.label)
    (hd : c.isDigit = false) (k : Nat) : c ∉ s.token k := by
  have hname : c ∉ tokenName s.label k := notMem_tokenName hl hd k
  rw [token_eq]
  simp [hn, hname]

theorem putBack_add (s : Stash) (fragment : Text) (f : Text → Text) (t : Text) :
    (s.add fragment).putBack f t = s.putBack f (Text.replace s.nextToken (f fragment) t) := by
  simp [putBack, entries, add, List.zipIdx_append, nextToken, token, size]

@[simp] theorem putBack_empty (label : Text) (f : Text → Text) (t : Text) :
    (empty label).putBack f t = t := rfl

theorem induction_add {P : Stash → Prop} (s : Stash) (empty : ∀ label, P (empty label))
    (add : ∀ (s : Stash) (fragment : Text), P s → P (s.add fragment)) : P s := by
  obtain ⟨label, fragments⟩ := s
  induction fragments using List.reverseRecOn with
  | nil => exact empty label
  | append_singleton fragments fragment ih => exact add ⟨label, fragments⟩ fragment ih

theorem mem_fragments_add {s : Stash} {fragment x : Text} :
    x ∈ (s.add fragment).fragments ↔ x ∈ s.fragments ∨ x = fragment := by
  simp [Stash.add]

/-- What the token with a given number stands for, as `f` writes it. -/
def meaning (s : Stash) (f : Text → Text) (k : Nat) : Text := f (s.fragments.getD k [])

theorem meaning_add_size (s : Stash) (fragment : Text) (f : Text → Text) :
    (s.add fragment).meaning f s.size = f fragment := by
  simp [meaning, add, size]

theorem meaning_add_of_lt {s : Stash} {k : Nat} (hk : k < s.size) (fragment : Text)
    (f : Text → Text) : (s.add fragment).meaning f k = s.meaning f k := by
  rw [size] at hk
  simp [meaning, add, List.getElem?_append_left hk]

theorem exists_meaning_eq {s : Stash} {k : Nat} (hk : k < s.size) (f : Text → Text) :
    ∃ fragment ∈ s.fragments, s.meaning f k = f fragment := by
  rw [size] at hk
  exact ⟨s.fragments[k], List.getElem_mem hk, by simp [meaning, hk]⟩

variable {f : Text → Text}

/-- In a clear text every token gives its fragment. -/
theorem putBack_of_clear (s : Stash) (hl : '\x00' ∉ s.label)
    (hf : ∀ fragment ∈ s.fragments, Opaque s.label (f fragment)) {t run : Text}
    {ts : List (Nat × Text)} {left : Nat} (ht : Text.fields t = (run, weave s.label ts))
    (hc : Clear s.label s.size left run ts) :
    s.putBack f t = filled (s.meaning f) run ts := by
  induction s using induction_add generalizing t run ts with
  | empty label =>
    cases ts with
    | nil =>
      have hj := Text.fields_join t
      rw [ht] at hj
      simpa [filled, weave] using hj.symm
    | cons t ts => exact absurd hc.1 (Nat.not_lt_zero _)
  | add s fragment ih =>
    have hnew : Opaque s.label (f fragment) := hf fragment (mem_fragments_add.mpr (.inr rfl))
    have hold : ∀ x ∈ s.fragments, Opaque s.label (f x) :=
      fun x hx => hf x (mem_fragments_add.mpr (.inl hx))
    rw [label_add, size_add] at hc
    rw [label_add] at ht hl
    have hr := Text.fields_replace (notMem_tokenName hl (by decide) s.size) hnew.nul_notMem t
    rw [ht, replaceFields_weave hnew hc, ← token_eq] at hr
    have hd := hc.dropToken hnew
    have hsame : ∀ k < s.size, s.meaning f k = (s.add fragment).meaning f k :=
      fun k hk => (meaning_add_of_lt hk fragment f).symm
    rw [putBack_add, nextToken, ih hl hold hr hd, hd.filled_congr hsame,
      filled_dropToken (meaning_add_size s fragment f)]

/-- If no NUL is left over, no token was misread. -/
theorem readsBack_of_nul_notMem (s : Stash) (hl : '\x00' ∉ s.label)
    (hf : ∀ fragment ∈ s.fragments, Opaque s.label (f fragment)) {t : Text}
    (ht : '\x00' ∉ s.putBack f t) : s.ReadsBack t := by
  induction s using induction_add generalizing t with
  | empty label => exact ⟨[], Text.nul_notMem_iff.mp ht, trivial⟩
  | add s fragment ih =>
    have hnew : Opaque s.label (f fragment) := hf fragment (mem_fragments_add.mpr (.inr rfl))
    have hold : ∀ x ∈ s.fragments, Opaque s.label (f x) :=
      fun x hx => hf x (mem_fragments_add.mpr (.inl hx))
    rw [label_add] at hl
    rw [putBack_add] at ht
    obtain ⟨ts, hts, hc⟩ := ih hl hold ht
    have hr := Text.fields_replace (notMem_tokenName hl (by decide) s.size) hnew.nul_notMem t
    rw [← token_eq] at hr
    rw [nextToken, hr] at hts hc
    obtain ⟨us, hus, hu⟩ := exists_clear_of_replaceFields hnew hts hc (fun _ => le_rfl)
    refine ⟨us, hus, ?_⟩
    rw [label_add, size_add]
    exact hu.change fun m hm _ => hm.le

theorem nul_notMem_putBack_iff (s : Stash) (hl : '\x00' ∉ s.label)
    (hf : ∀ fragment ∈ s.fragments, Opaque s.label (f fragment)) {t : Text} :
    '\x00' ∉ s.putBack f t ↔ s.ReadsBack t := by
  refine ⟨s.readsBack_of_nul_notMem hl hf, fun ⟨ts, hts, hc⟩ => ?_⟩
  rw [s.putBack_of_clear hl hf (Prod.ext rfl hts) hc]
  have hfields := Text.nul_notMem_fields t
  rw [hts] at hfields
  apply hc.nul_notMem_filled hfields.1 hfields.2
  intro k hk
  obtain ⟨fragment, hmem, he⟩ := exists_meaning_eq hk f
  rw [he]
  exact (hf fragment hmem).nul_notMem

end Stash

end TaskBulletin
