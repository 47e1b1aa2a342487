import TaskBulletin.Proofs.Resolution

/-!
# What is asked, and what an answer can change

All references are found before the first of them is looked up, so the ids that are
asked for, and their order, are those of the body: even a lookup whose answers depend on
everything asked before cannot change them. An answer comes in as the fragment of the
reference it was given for, and the text holds only the token of that fragment. So lookups
that differ on one id give the same fragments to all references but those with that id.
-/

namespace TaskBulletin

def Stash.tokens (s : Stash) : List Text := s.entries.map Prod.fst

theorem Stash.tokens_eq (s : Stash) : s.tokens = (List.range s.size).map s.token := by
  have hnumbers : s.fragments.zipIdx.map Prod.snd = List.range s.size := by
    rw [List.zipIdx_map_snd, List.range_eq_range', size]
  rw [tokens, entries, List.map_map, ← hnumbers, List.map_map]
  rfl

namespace Bracket

/-! ## Writing down what is asked -/

section

variable {σ : Type}

def Services.logged (sv : Services σ) : Services (σ × Transcript) where
  file id s := ((sv.file id s.1).1, (sv.file id s.1).2, { s.2 with files := s.2.files ++ [id] })
  user id s := ((sv.user id s.1).1, (sv.user id s.1).2, { s.2 with users := s.2.users ++ [id] })
  report p s := (sv.report p s.1, { s.2 with problems := s.2.problems ++ [p] })

variable (sv : Services σ)

theorem asked_reportAll (problems : List Problem) (s : σ × Transcript) :
    (sv.logged.reportAll problems s).2.asked = s.2.asked := by
  induction problems generalizing s with
  | nil => rfl
  | cons p problems ih => exact ih (sv.logged.report p s)

/-- Questions that write their id at the end of a list leave all ids there, and what no question
changes stays as it was. -/
theorem askEach_notes {α β γ τ : Type} (ask : Int → τ → β × τ) (ids : τ → List Int) (kept : τ → γ)
    (hids : ∀ id s, ids (ask id s).2 = ids s ++ [id]) (hkept : ∀ id s, kept (ask id s).2 = kept s)
    (xs : List (α × Option Nat)) (s : τ) :
    ids (askEach ask xs s).2 = ids s ++ idsOf xs ∧ kept (askEach ask xs s).2 = kept s := by
  induction xs generalizing s with
  | nil => exact ⟨(List.append_nil _).symm, rfl⟩
  | cons x xs ih =>
    obtain ⟨a, id⟩ := x
    cases id with
    | none => exact ih s
    | some id =>
      obtain ⟨hrest, hsame⟩ := ih (ask id s).2
      rw [hids, List.append_assoc] at hrest
      rw [hkept] at hsame
      exact ⟨hrest, hsame⟩

theorem asked_askEach_file {α : Type} (xs : List (α × Option Nat)) (s : σ × Transcript) :
    (askEach sv.logged.fileOutcome xs s).2.2.asked = (s.2.files ++ idsOf xs, s.2.users) := by
  obtain ⟨hfiles, husers⟩ := askEach_notes sv.logged.fileOutcome (fun s => s.2.files)
    (fun s => s.2.users) (fun _ _ => rfl) (fun _ _ => rfl) xs s
  exact Prod.ext hfiles husers

theorem asked_askEach_user {α : Type} (xs : List (α × Option Nat)) (s : σ × Transcript) :
    (askEach sv.logged.userOutcome xs s).2.2.asked = (s.2.files, s.2.users ++ idsOf xs) := by
  obtain ⟨husers, hfiles⟩ := askEach_notes sv.logged.userOutcome (fun s => s.2.users)
    (fun s => s.2.files) (fun _ _ => rfl) (fun _ _ => rfl) xs s
  exact Prod.ext hfiles husers

theorem asked_askFiles (files : List (FileTag × Option Nat)) (s : σ × Transcript) :
    (sv.logged.askFiles files s).2.2.asked = (s.2.files ++ idsOf files, s.2.users) := by
  have hbefore := asked_reportAll sv (files.filterMap unnumbered?) s
  rw [Services.askFiles, asked_reportAll, asked_askEach_file]
  exact congrArg (fun log => (log.1 ++ idsOf files, log.2)) hbefore

theorem asked_askUsers (found : List (Mention × Option Nat)) (s : σ × Transcript) :
    (sv.logged.askUsers found s).2.2.asked = (s.2.files, s.2.users ++ idsOf found) := by
  have hbefore := asked_reportAll sv (found.filterMap invalid?) s
  rw [Services.askUsers, asked_reportAll, asked_askEach_user]
  exact congrArg (fun log => (log.1, log.2 ++ idsOf found)) hbefore

theorem asked_askBefore (i : Interruption) (s : σ × Transcript) :
    (sv.logged.askBefore i s).2.asked = (s.2.files ++ i.fileIds, s.2.users) := by
  rw [Services.askBefore, Interruption.fileIds]
  cases i.mentions? with
  | none =>
    rw [asked_reportAll, List.append_nil]
    rfl
  | some found =>
    rw [asked_reportAll]
    exact asked_askFiles sv i.files s

/-- Whether a conversion succeeds, and what it asks for until it ends, is found in the body. -/
theorem asked_convert (source : Text) (s : σ) :
    (outcome (convert sv.logged source (s, .empty))).map (Except.map fun _ => ()) (·.2.asked) =
      match resolve source with
      | .ok r => (.ok (), idsOf r.files, idsOf r.mentions)
      | .error i => (.error i.numeral, i.fileIds, []) := by
  rw [convert_eq_substitute, substitute_eq]
  cases resolve source with
  | error i => exact congrArg (Prod.mk _) (asked_askBefore sv i (s, .empty))
  | ok r =>
    have hfiles := asked_askFiles sv r.files (s, .empty)
    have husers := asked_askUsers sv r.mentions (sv.logged.askFiles r.files (s, .empty)).2
    obtain ⟨hf, hu⟩ := Prod.mk.inj hfiles
    rw [hf, hu] at husers
    exact congrArg (Prod.mk _) husers

/-- The tags, the text and the tokens are found in the body as well. -/
theorem tokens_substitute (source : Text) (s : σ) :
    (outcome (substitute sv source s)).1.map
        (fun x => (x.tags, x.text, x.fragments.tokens)) =
      ((resolve source).map fun r => (r.tags, r.text,
        (List.range ((numberedSpellings r.files).length + r.mentions.length)).map
          emptyFragments.token)).mapError Interruption.numeral := by
  rw [substitute_eq]
  cases resolve source with
  | error e => rfl
  | ok r =>
    have hfiles := length_askFiles sv s r.files
    have husers : (sv.askUsers r.mentions (sv.askFiles r.files s).2).1.length =
        r.mentions.length := by
      have h := congrArg List.length (spellings_askUsers sv r.mentions (sv.askFiles r.files s).2)
      rwa [List.length_map, List.length_map, List.length_map] at h
    simp only [Except.map, Except.mapError, outcome, Stash.tokens_eq, Stash.size,
      List.length_append, hfiles, List.length_map, husers]
    rfl

end

/-! ## References and their fragments -/

inductive Reference where
  | file (tag : FileTag) (id : Nat)
  | mention (m : Mention) (id : Option Nat)

namespace Reference

def asksFile (k : Int) : Reference → Prop
  | file _ id => (id : Int) = k
  | mention _ _ => False

def asksUser (k : Int) : Reference → Prop
  | file _ _ => False
  | mention _ id => ∃ n ∈ id, (n : Int) = k

variable (files : Int → Except Text (Option DiskFile)) (users : Int → Except Text Text)

def fragment : Reference → Text
  | file _ id => (FileOutcome.ofAnswer id (files id)).html
  | mention m id => (mentionFragment (m, id.map fun (id : Nat) => .ofAnswer id (users id))).2

end Reference

def Resolution.references (r : Resolution) : List Reference :=
  r.files.filterMap (fun x => x.2.map (.file x.1)) ++ r.mentions.map fun x => .mention x.1 x.2

theorem Resolution.fragments_eq (r : Resolution) (file : Int → Except Text (Option DiskFile))
    (user : Int → Except Text Text) :
    (r.fragments file user).fragments = r.references.map (Reference.fragment file user) := by
  have hfiles : ((r.fileOutcomes file).filterMap fileFragment?).map Prod.snd =
      (r.files.filterMap fun x => x.2.map (.file x.1)).map (Reference.fragment file user) := by
    rw [fileOutcomes, List.filterMap_map, List.map_filterMap, List.map_filterMap]
    congr 1
    funext ⟨tag, id⟩
    cases id <;> rfl
  have husers : ((r.userOutcomes user).map mentionFragment).map Prod.snd =
      (r.mentions.map fun x => .mention x.1 x.2).map (Reference.fragment file user) := by
    rw [userOutcomes, List.map_map, List.map_map, List.map_map]
    rfl
  rw [fragments, references, List.map_append, hfiles, husers]

def DifferOnlyAt {α : Type} (k : Int) (f g : Int → α) : Prop := ∀ id, id ≠ k → f id = g id

/-- Two stashes hold the same fragment for every reference but those that are named. -/
def AgreeBut (named : Reference → Prop) (references : List Reference) (x y : Stash) : Prop :=
  ∀ (j : Nat) (reference : Reference), references[j]? = some reference → ¬ named reference →
    x.fragments[j]? = y.fragments[j]?

section

variable {file file' : Int → Except Text (Option DiskFile)} {user user' : Int → Except Text Text}
  {k : Int} {reference : Reference}

theorem Reference.fragment_congr_file (h : DifferOnlyAt k file file')
    (hr : ¬ reference.asksFile k) :
    reference.fragment file user = reference.fragment file' user := by
  cases reference with
  | file tag id =>
    have hid : file id = file' id := h id hr
    rw [fragment, fragment, hid]
  | mention m id => rfl

theorem Reference.fragment_congr_user (h : DifferOnlyAt k user user')
    (hr : ¬ reference.asksUser k) :
    reference.fragment file user = reference.fragment file user' := by
  cases reference with
  | file tag id => rfl
  | mention m id =>
    cases id with
    | none => rfl
    | some id =>
      have hid : user id = user' id := h id fun he => hr ⟨id, rfl, he⟩
      rw [fragment, fragment, Option.map_some, Option.map_some, hid]

end

/-- Whatever the lookups answer, and even if an answer depends on what was asked before, they
are asked for the same files and users in the same order, also when the conversion fails, and the
tags, the text and the tokens are the same. Lookups that differ on one id give the same fragment
to every reference that does not ask for that id. -/
theorem answers_change_only_own_fragments (source : Text) :
    (∀ {σ τ : Type} (sv : Services σ) (sw : Services τ) (s : σ) (t : τ),
      (outcome (convert sv.logged source (s, .empty))).map (Except.map fun _ => ()) (·.2.asked) =
        (outcome (convert sw.logged source (t, .empty))).map (Except.map fun _ => ()) (·.2.asked) ∧
      (outcome (substitute sv source s)).1.map
          (fun x => (x.tags, x.text, x.fragments.tokens)) =
        (outcome (substitute sw source t)).1.map
          (fun x => (x.tags, x.text, x.fragments.tokens))) ∧
    ∀ r, resolve source = .ok r → ∀ file file' user user' k,
      ∃ x y, (substitute (.recording file user) source .empty).map Prod.fst = .ok x ∧
        (substitute (.recording file' user') source .empty).map Prod.fst = .ok y ∧
        (DifferOnlyAt k file file' → user = user' →
          AgreeBut (Reference.asksFile k) r.references x.fragments y.fragments) ∧
        (file = file' → DifferOnlyAt k user user' →
          AgreeBut (Reference.asksUser k) r.references x.fragments y.fragments) := by
  refine ⟨fun sv sw s t => ⟨?_, ?_⟩, fun r hr file file' user user' k => ?_⟩
  · rw [asked_convert, asked_convert]
  · rw [tokens_substitute, tokens_substitute]
  · refine ⟨⟨r.tags, r.text, r.fragments file user⟩, ⟨r.tags, r.text, r.fragments file' user'⟩,
      by rw [substitute_recording, hr]; rfl, by rw [substitute_recording, hr]; rfl, ?_, ?_⟩
    · rintro hfile rfl j reference hj hne
      rw [Resolution.fragments_eq, Resolution.fragments_eq, List.getElem?_map,
        List.getElem?_map, hj,
        Option.map_some, Option.map_some, Reference.fragment_congr_file hfile hne]
    · rintro rfl huser j reference hj hne
      rw [Resolution.fragments_eq, Resolution.fragments_eq, List.getElem?_map,
        List.getElem?_map, hj,
        Option.map_some, Option.map_some, Reference.fragment_congr_user huser hne]

/-- A file lookup that fails for one id and finds nothing for the others. -/
def failAt (k : Int) : Int → Except Text (Option DiskFile) := fun id =>
  if id = k then .error "late".toList else .ok none

theorem differOnlyAt_failAt (k : Int) : DifferOnlyAt k findNothing (failAt k) := by
  intro id hid
  rw [failAt, if_neg hid]
  rfl

/-- Two files, one of them also in the label of a mention. -/
def sharedFile : Text := "[DISK FILE ID=5][DISK FILE ID=6][USER=5]a[DISK FILE ID=5][/USER]".toList

theorem answers_change_only_own_fragments_sharedFile :
    ∃ r, resolve sharedFile = .ok r ∧ DifferOnlyAt 5 findNothing (failAt 5) ∧
      ∃ x y, (substitute (.recording findNothing knowNobody) sharedFile .empty).map Prod.fst =
        .ok x ∧
        (substitute (.recording (failAt 5) knowNobody) sharedFile .empty).map Prod.fst = .ok y ∧
        AgreeBut (Reference.asksFile 5) r.references x.fragments y.fragments := by
  have hok : (resolve sharedFile).toBool = true := by decide +kernel
  cases hr : resolve sharedFile with
  | error e =>
    rw [hr] at hok
    cases hok
  | ok r =>
    have hfile := differOnlyAt_failAt 5
    obtain ⟨x, y, hx, hy, hfragments, -⟩ := (answers_change_only_own_fragments sharedFile).2 r hr
      findNothing (failAt 5) knowNobody knowNobody 5
    exact ⟨r, rfl, hfile, x, y, hx, hy, hfragments hfile rfl⟩

end Bracket

end TaskBulletin
