import TaskBulletin.Proofs.Alike

/-!
# Line ends of a body

A body with a carriage return before each of its line feeds is converted like the body
itself. Until the spacing is put in order the returns stand in the text, next to line
feeds that answers and rules have brought, so the two texts differ at some of their line
feeds only. Both are spelled from one text in which the line feeds of the body are marked:
the rules are applied to the marked text, and either spelling has the same line ends.
-/

namespace TaskBulletin

open Pattern Recoding

/-- Write a carriage return before every line feed. -/
def Text.withReturns (t : Text) : Text := t.flatMap fun c => if c = '\n' then ['\r', '\n'] else [c]

/-! ## Codes for line ends -/

/-- Write the line end `x` as the line end `d` and the line feeds `w`. -/
def lineEndCode (x d : Char) (w : Text) (known : Char → Prop) (hx : x ∈ ['\r', '\n'])
    (hd : d ∈ ['\r', '\n']) (hw : ∀ e ∈ w, e = '\n') (hknown : ∀ {c}, isQuiet c = false → known c) :
    Recoding where
  code c := if c = x then d :: w else [c]
  known := known
  known_of_not_quiet := hknown
  same_or_quiet {c} _ := by
    have hquiet : ∀ c ∈ ['\r', '\n'], isQuiet c = true := by decide
    split
    · rename_i hc
      subst hc
      exact .inr ⟨hquiet _ hx, d, w, rfl, hquiet d hd, fun e he => by rw [hw e he]; decide⟩
    · exact .inl rfl
  isBlank_code {c} _ e he := by
    have hblank : ∀ c ∈ ['\r', '\n'], Text.isBlank c = true := by decide
    split at he
    · rename_i hc
      subst hc
      rw [hblank _ hx]
      rcases List.mem_cons.mp he with rfl | he
      · exact hblank e hd
      · rw [hw e he]
        rfl
    · rw [List.mem_singleton.mp he]

/-- A return before every line feed of a text without returns. -/
def returnCode : Recoding :=
  lineEndCode '\n' '\r' ['\n'] (· ≠ '\r') (by decide) (by decide) (by simp) fun hc => by
    rintro rfl
    cases hc

/-- A return as a mark in place of every line feed of a text without returns. -/
def markCode : Recoding :=
  lineEndCode '\n' '\r' [] (· ≠ '\r') (by decide) (by decide) (by simp) fun hc => by
    rintro rfl
    cases hc

def spellCode (d : Char) (w : Text) (hd : d ∈ ['\r', '\n']) (hw : ∀ e ∈ w, e = '\n') : Recoding :=
  lineEndCode '\r' d w (fun _ => True) (by decide) hd hw fun _ => trivial

theorem returnCode_recode (t : Text) : returnCode.recode t = t.withReturns := rfl

theorem decodable_returnCode : returnCode.Decodable := by
  intro c d hc hd u v h
  change (if c = '\n' then ['\r', '\n'] else [c]) ++ u =
    (if d = '\n' then ['\r', '\n'] else [d]) ++ v at h
  split at h <;> split at h
  · simp_all
  · exact absurd (List.cons.inj h).1.symm hd
  · exact absurd (List.cons.inj h).1 hc
  · exact (List.cons.inj h).1

theorem keeps_line_returnCode : Keeps returnCode (· != '\n') := by
  intro c _
  change List.all (if c = '\n' then ['\r', '\n'] else [c]) (· != '\n') = (c != '\n')
  split <;> simp_all

section

variable {d : Char} {w : Text} (hd : d ∈ ['\r', '\n']) (hw : ∀ e ∈ w, e = '\n')

theorem spellCode_code_of_ne {c : Char} (hc : c ≠ '\r') : (spellCode d w hd hw).code c = [c] :=
  if_neg hc

theorem spares_spellCode : (spellCode d w hd hw).SparesRules where
  known _ := trivial
  code_markup c hc := by
    have hne : ∀ c ∈ "&<>\n".toList, c ≠ '\r' := by decide
    exact spellCode_code_of_ne hd hw (hne c hc)

theorem fixes_spellCode {t : Text} (ht : '\r' ∉ t) : (spellCode d w hd hw).Fixes t :=
  fun c hc => spellCode_code_of_ne hd hw (by rintro rfl; exact ht hc)

/-- A code that spells line feeds like the marks: escaped, its text is the spelled marked text. -/
theorem escape_code_spelled {A : Recoding} (hfeed : A.code '\n' = d :: w)
    (hsame : ∀ c, c ≠ '\n' → A.code c = [c]) {c : Char} (hc : c ≠ '\r') :
    Html.escape (A.code c) = (spellCode d w hd hw).recode (Html.escape (markCode.code c)) := by
  by_cases hn : c = '\n'
  · subst hn
    have hline : ∀ e ∈ d :: w, e ∈ ['\r', '\n'] := by
      intro e he
      rcases List.mem_cons.mp he with rfl | he
      · exact hd
      · rw [hw e he]
        decide
    have hplain : ∀ x ∈ "&<>".toList, x ∉ d :: w := by
      have hne : ∀ x ∈ "&<>".toList, x ∉ ['\r', '\n'] := by decide
      exact fun x hx hm => hne x hx (hline x hm)
    have hspelled : (spellCode d w hd hw).recode (Html.escape (markCode.code '\n')) = d :: w := by
      change (d :: w) ++ [] = d :: w
      rw [List.append_nil]
    rw [hfeed, hspelled]
    exact escape_eq_self (hplain _ (by decide)) (hplain _ (by decide)) (hplain _ (by decide))
  · have hmark : markCode.code c = [c] := if_neg hn
    have hnone : '\r' ∉ Html.escape [c] := by
      intro hm
      rcases Html.mem_escape hm with hm | hm
      · exact hc (List.mem_singleton.mp hm).symm
      · revert hm
        decide
    rw [hsame c hn, hmark, (fixes_spellCode hd hw hnone).recode_eq]

end

theorem unifyLineEnds_spelled (t : Text) :
    Text.unifyLineEnds ((spellCode '\r' ['\n'] (by decide) (by simp)).recode t) =
      Text.unifyLineEnds ((spellCode '\n' [] (by decide) (by simp)).recode t) := by
  induction t with
  | nil => rfl
  | cons c t ih =>
    by_cases hc : c = '\r'
    · subst hc
      rw [recode_cons, recode_cons]
      exact congrArg ('\n' :: ·) ih
    · rw [recode_cons, recode_cons, spellCode_code_of_ne _ _ hc, spellCode_code_of_ne _ _ hc]
      simp only [List.singleton_append, Text.unifyLineEnds_cons hc, ih]

namespace Bracket

/-! ## Conversions -/

/-- Both texts are spelled from the marked one, on which the rules act as on each of them. -/
theorem finish_filled_returnCode {source : Text} (hs : '\r' ∉ source) {r : Resolution}
    (h : resolve source = .ok r) {files : List (FileTag × Option FileOutcome)}
    (hfiles : ∀ x ∈ files, ∀ f, x.2 = some (.found f) → '\r' ∉ f.name ∧ '\r' ∉ f.url)
    {users : List (Mention × Option UserOutcome)}
    (hmentions : ∀ x ∈ users, ∃ y ∈ r.mentions, y.1 = x.1)
    (hlinks : ∀ x ∈ users, ∀ id link, x.2 = some (.linked id link) → '\r' ∉ link) :
    finish ((r.recode returnCode).filled files
      (users.map fun x => (recodeMention returnCode x.1, x.2))) =
      finish (r.filled files users) := by
  have hknown : ∀ c ∈ source, c ≠ '\r' := by
    rintro c hc rfl
    exact hs hc
  have hspelled {d : Char} {w : Text} (hd : d ∈ ['\r', '\n']) (hw : ∀ e ∈ w, e = '\n')
      {A : Recoding} (hfeed : A.code '\n' = d :: w) (hsame : ∀ c, c ≠ '\n' → A.code c = [c])
      (hA : A.Knows source) :
      (r.recode A).filled files (users.map fun x => (recodeMention A x.1, x.2)) =
        (spellCode d w hd hw).recode ((r.recode markCode).filled files
          (users.map fun x => (recodeMention markCode x.1, x.2))) :=
    filled_recode (spares_spellCode hd hw)
      (fun c _ hc => escape_code_spelled hd hw hfeed hsame hc) hA hknown h
      (fun x hx f hf => ⟨fixes_spellCode hd hw (hfiles x hx f hf).1,
        fixes_spellCode hd hw (hfiles x hx f hf).2⟩)
      hmentions fun x hx id link hl => fixes_spellCode hd hw (hlinks x hx id link hl)
  have hreturns := hspelled (d := '\r') (w := ['\n']) (A := returnCode) (by decide) (by simp) rfl
    (fun c hc => if_neg hc) hknown
  have hfeeds := hspelled (d := '\n') (w := []) (A := same) (by decide) (by simp) rfl
    (fun _ _ => rfl) (knows_same source)
  rw [Resolution.recode_same] at hfeeds
  simp only [recodeMention_same, Prod.mk.eta, List.map_id'] at hfeeds
  rw [hreturns, hfeeds, finish_eq, finish_eq, applyRules_recode (spares_spellCode ..),
    applyRules_recode (spares_spellCode ..), Text.normalizeSpacing, unifyLineEnds_spelled]
  rfl

variable {τ : Type}

/-- Lookups with a state of their own, and a transcript of all that they are asked and told. -/
def Services.transcribing (file : Int → τ → Except Text (Option DiskFile) × τ)
    (user : Int → τ → Except Text Text × τ) : Services (τ × Transcript) where
  file id s := ((file id s.1).1, (file id s.1).2, { s.2 with files := s.2.files ++ [id] })
  user id s := ((user id s.1).1, (user id s.1).2, { s.2 with users := s.2.users ++ [id] })
  report p s := (s.1, { s.2 with problems := s.2.problems ++ [p] })

/-- The problem of a body with returns: an id part is quoted from the body. -/
def Problem.withReturns : Problem → Problem
  | .invalidMention part => .invalidMention part.withReturns
  | p => p

variable {file : Int → τ → Except Text (Option DiskFile) × τ}
  {user : Int → τ → Except Text Text × τ}

theorem alike_transcribing :
    (Services.transcribing file user).Alike (.transcribing file user) returnCode
      fun s s' => s' = (s.1, { s.2 with problems := s.2.problems.map Problem.withReturns }) where
  file := by
    rintro s _ rfl id
    exact ⟨rfl, rfl⟩
  user := by
    rintro s _ rfl id
    exact ⟨rfl, rfl⟩
  report := by
    rintro s _ rfl p
    have hp : p.recode returnCode = p.withReturns := by cases p <;> rfl
    simp [Services.transcribing, hp]

/-- A body with returns before its line feeds is converted to what the body is converted to, or
fails as the body fails: the same files and users are asked for, in the same order, and the problems
are the same, but for the returns in the id part of a mention. -/
theorem convert_withReturns {source : Text} (hs : '\r' ∉ source)
    (hfile : ∀ id t f, (file id t).1 = .ok (some f) → '\r' ∉ f.name ∧ '\r' ∉ f.url)
    (huser : ∀ id t link, (user id t).1 = .ok link → '\r' ∉ link) (t : τ) :
    outcome (convert (.transcribing file user) source.withReturns (t, .empty)) =
      (outcome (convert (.transcribing file user) source (t, .empty))).map id fun (t, log) =>
        (t, { log with problems := log.problems.map Problem.withReturns }) := by
  let sv := Services.transcribing file user
  have hknown : returnCode.Knows source := by
    rintro c hc rfl
    exact hs hc
  have hsame := (@alike_transcribing τ file user).convert_recode decodable_returnCode
    keeps_line_returnCode hknown (s := (t, .empty)) rfl fun r hr =>
      finish_filled_returnCode hs hr
        (fun x hx f hf => by
          obtain ⟨id, s, ha⟩ := sv.exists_of_mem_askFiles hx hf
          exact hfile id s.1 f ha)
        (fun x hx => (sv.exists_of_mem_askUsers hx).1)
        fun x hx id link hl => by
          obtain ⟨id, s, ha⟩ := (sv.exists_of_mem_askUsers hx).2 id link hl
          exact huser id s.1 link ha
  rw [returnCode_recode] at hsame
  exact hsame.outcome_eq_map

/-- Finds a file with a name of two lines, but only the first time it is asked. -/
def findOnce : Int → Nat → Except Text (Option DiskFile) × Nat := fun id asked =>
  (.ok (if asked = 0 then some ⟨id, "a\nb".toList, "u".toList⟩ else none), asked + 1)

def knowNobodyAgain : Int → Nat → Except Text Text × Nat :=
  fun id asked => (knowNobody id, asked + 1)

/-- A list, two tags of one file and a mention whose id part is not a number. -/
theorem convert_withReturns_listAndReferences :
    '\r' ∉ "[LIST]\n[*]x\n[/LIST][DISK FILE ID=5]\n[USER=1\n2]y[/USER][DISK FILE ID=05]".toList ∧
    (∀ id t f, (findOnce id t).1 = .ok (some f) → '\r' ∉ f.name ∧ '\r' ∉ f.url) ∧
    (∀ id t link, (knowNobodyAgain id t).1 = .ok link → '\r' ∉ link) ∧
    outcome (convert (.transcribing findOnce knowNobodyAgain)
        (Text.withReturns
          "[LIST]\n[*]x\n[/LIST][DISK FILE ID=5]\n[USER=1\n2]y[/USER][DISK FILE ID=05]".toList)
        (0, .empty)) =
      (outcome (convert (.transcribing findOnce knowNobodyAgain)
          "[LIST]\n[*]x\n[/LIST][DISK FILE ID=5]\n[USER=1\n2]y[/USER][DISK FILE ID=05]".toList
          (0, .empty))).map id fun (t, log) =>
        (t, { log with problems := log.problems.map Problem.withReturns }) := by
  have hsource : '\r' ∉
      "[LIST]\n[*]x\n[/LIST][DISK FILE ID=5]\n[USER=1\n2]y[/USER][DISK FILE ID=05]".toList := by
    decide
  have hfile : ∀ id t f, (findOnce id t).1 = .ok (some f) → '\r' ∉ f.name ∧ '\r' ∉ f.url := by
    intro id t f hf
    have hfound := Except.ok.inj hf
    split at hfound
    · obtain rfl := Option.some.inj hfound
      have hname : '\r' ∉ "a\nb".toList := by decide
      have hurl : '\r' ∉ "u".toList := by decide
      exact ⟨hname, hurl⟩
    · cases hfound
  have huser : ∀ id t link, (knowNobodyAgain id t).1 = .ok link → '\r' ∉ link := by
    intro id t link hl
    obtain rfl := eq_ofInt_of_knowNobody hl
    intro hm
    have hquiet := Text.isQuiet_of_mem_ofInt hm
    revert hquiet
    decide
  exact ⟨hsource, hfile, huser, convert_withReturns hsource hfile huser 0⟩

end Bracket

end TaskBulletin
