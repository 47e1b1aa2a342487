import TaskBulletin.Bracket.Conversion
import TaskBulletin.Proofs.Reading

/-!
# What a conversion finds before it asks

The references of a body, and the text with a token for each of them, do not
depend on any answer: they are the resolution of the body. A conversion with
services that only answer fills in the fragments that the answers give, escapes
the text around them and brings the tags back. A body with an id that is too long to
be read has no resolution, but what stands before that id is found, reported and
asked for.
-/

namespace TaskBulletin

namespace Stash

/-- Put a token for each of some spellings wherever it occurs, numbered from `n`. -/
def tokensFor (label : Text) : (n : Nat) → List Text → Text → Text
  | _, [], t => t
  | n, spelled :: rest, t =>
    tokensFor label (n + 1) rest
      (Text.replace spelled ('\x00' :: label ++ Text.ofNat n ++ ['\x00']) t)

theorem exchange_eq (s : Stash) (entries : List (Text × Text)) (t : Text) :
    s.exchange entries t = (tokensFor s.label s.size (entries.map Prod.fst) t,
      ⟨s.label, s.fragments ++ entries.map Prod.snd⟩) := by
  induction entries generalizing s t with
  | nil => simp [exchange, tokensFor]
  | cons entry entries ih =>
    obtain ⟨spelled, fragment⟩ := entry
    rw [exchange, ih]
    simp [tokensFor, add, nextToken, token, size]

theorem mem_tokensFor {label : Text} {n : Nat} {ws : List Text} {t : Text} {c : Char}
    (h : c ∈ tokensFor label n ws t) : c ∈ t ∨ ∃ k, c ∈ (empty label).token k := by
  induction ws generalizing n t with
  | nil => exact .inl h
  | cons w ws ih =>
    rcases ih h with h | h
    · rcases Pattern.mem_rewrite h with h | ⟨_, _, h⟩
      · exact .inl h
      · exact .inr ⟨n, h⟩
    · exact .inr h

end Stash

namespace Bracket

/-! ## References with their ids -/

section

variable {α : Type} {read : α → Except OverlongNumeral (Option Nat)} {a : α} {l : List α}

theorem readIds_cons_of_error {e : OverlongNumeral} (h : read a = .error e) :
    readIds read (a :: l) = .error (e, []) := by
  rw [readIds, h]

theorem readIds_cons_of_ok {id : Option Nat} (h : read a = .ok id) : readIds read (a :: l) =
    ((readIds read l).map ((a, id) :: ·)).mapError fun (e, found) => (e, (a, id) :: found) := by
  rw [readIds, h]

theorem map_fst_of_readIds {xs : List (α × Option Nat)} (h : readIds read l = .ok xs) :
    xs.map Prod.fst = l := by
  induction l generalizing xs with
  | nil =>
    obtain rfl : [] = xs := Except.ok.inj h
    rfl
  | cons a l ih =>
    cases ha : read a with
    | error e =>
      rw [readIds_cons_of_error ha] at h
      cases h
    | ok id =>
      rw [readIds_cons_of_ok ha] at h
      cases hl : readIds read l with
      | error e =>
        rw [hl] at h
        cases h
      | ok ys =>
        rw [hl] at h
        obtain rfl : (a, id) :: ys = xs := Except.ok.inj h
        rw [List.map_cons, ih hl]

end

theorem mem_hits_of_fileTags {t : Text} {files : List (FileTag × Option Nat)}
    (h : fileTags t = .ok files) {x : FileTag × Option Nat} (hx : x ∈ files) :
    x.1 ∈ fileTag.hits t := by
  rw [← List.mem_eraseDups, ← map_fst_of_readIds h]
  exact List.mem_map_of_mem hx

theorem mem_hits_of_mentions {t : Text} {found : List (Mention × Option Nat)}
    (h : mentions t = .ok found) {x : Mention × Option Nat} (hx : x ∈ found) :
    x.1 ∈ mention.hits t := by
  rw [← List.mem_eraseDups, ← map_fst_of_readIds h]
  exact List.mem_map_of_mem hx

/-- What a conversion finds in a body. -/
structure Resolution where
  tags : Stash
  files : List (FileTag × Option Nat)
  mentions : List (Mention × Option Nat)
  text : Text
  deriving DecidableEq

def idsOf {α : Type} (xs : List (α × Option Nat)) : List Int :=
  xs.filterMap fun x => x.2.map Int.ofNat

def numberedSpellings (files : List (FileTag × Option Nat)) : List Text :=
  files.filterMap fun (tag, id) => id.map fun _ => fileTag.spelling tag

/-- What a conversion finds in a body before an id that is too long to be read. -/
structure Interruption where
  numeral : OverlongNumeral
  files : List (FileTag × Option Nat)
  /-- The mentions, if the id is that of a mention. -/
  mentions? : Option (List (Mention × Option Nat))
  deriving DecidableEq

def Interruption.fileIds (i : Interruption) : List Int :=
  match i.mentions? with
  | none => []
  | some _ => idsOf i.files

/-- Stash the tags of a body and find its references. -/
def resolve (source : Text) : Except Interruption Resolution := do
  let (t, tags) := stashTags emptyTags source
  let files ← (fileTags t).mapError fun (e, read) => ⟨e, read, none⟩
  let spelled := numberedSpellings files
  let t := Stash.tokensFor emptyFragments.label 0 spelled t
  let found ← (mentions t).mapError fun (e, read) => ⟨e, files, some read⟩
  let t := Stash.tokensFor emptyFragments.label spelled.length
    (found.map fun (m, _) => mention.spelling m) t
  return ⟨tags, files, found, t⟩

def withoutFiles (source : Text) (files : List (FileTag × Option Nat)) : Text :=
  Stash.tokensFor emptyFragments.label 0 (numberedSpellings files) (stashTags emptyTags source).1

theorem resolve_eq_ok {source : Text} {r : Resolution} (h : resolve source = .ok r) :
    r.tags = (stashTags emptyTags source).2 ∧
      fileTags (stashTags emptyTags source).1 = .ok r.files ∧
      mentions (withoutFiles source r.files) = .ok r.mentions ∧
      r.text = Stash.tokensFor emptyFragments.label (numberedSpellings r.files).length
        (r.mentions.map fun x => mention.spelling x.1) (withoutFiles source r.files) := by
  simp only [resolve, bind, Except.bind, pure, Except.pure] at h
  cases hf : fileTags (stashTags emptyTags source).1 with
  | error e =>
    rw [hf] at h
    cases h
  | ok files =>
    simp only [hf, Except.mapError] at h
    have hw : Stash.tokensFor emptyFragments.label 0 (numberedSpellings files)
        (stashTags emptyTags source).1 = withoutFiles source files := rfl
    rw [hw] at h
    cases hm : mentions (withoutFiles source files) with
    | error e =>
      rw [hm] at h
      cases h
    | ok found =>
      rw [hm] at h
      obtain rfl := Except.ok.inj h
      exact ⟨rfl, rfl, hm, rfl⟩

/-! ## Asking -/

theorem FileOutcome.ofAnswer_eq_found {id : Int} {answer : Except Text (Option DiskFile)}
    {f : DiskFile} (h : ofAnswer id answer = .found f) : answer = .ok (some f) := by
  rcases answer with reason | _ | found
  · cases h
  · cases h
  · obtain rfl := FileOutcome.found.inj h
    rfl

theorem UserOutcome.ofAnswer_eq_linked {id id' : Int} {answer : Except Text Text} {link : Text}
    (h : ofAnswer id answer = .linked id' link) : answer = .ok link := by
  cases answer with
  | error reason => cases h
  | ok answer =>
    rw [ofAnswer] at h
    split at h
    · cases h
    · obtain ⟨-, rfl⟩ := UserOutcome.linked.inj h
      rfl

section

variable {σ : Type} (sv : Services σ)

/-- Report the file tags without an id, look the others up, and report what failed. -/
def Services.askFiles (files : List (FileTag × Option Nat)) (s : σ) :
    List (FileTag × Option FileOutcome) × σ :=
  let s := sv.reportAll (files.filterMap unnumbered?) s
  let (outcomes, s) := askEach sv.fileOutcome files s
  (outcomes, sv.reportAll (outcomes.filterMap fun (_, o) => o.bind FileOutcome.problem?) s)

/-- Report the mentions without a valid id, look the others up, and report what failed. -/
def Services.askUsers (found : List (Mention × Option Nat)) (s : σ) :
    List (Mention × Option UserOutcome) × σ :=
  let s := sv.reportAll (found.filterMap invalid?) s
  let (outcomes, s) := askEach sv.userOutcome found s
  (outcomes, sv.reportAll (outcomes.filterMap fun (_, o) => o.bind UserOutcome.problem?) s)

/-- Report and ask for what is found before an id that is too long to be read. -/
def Services.askBefore (i : Interruption) (s : σ) : σ :=
  match i.mentions? with
  | none => sv.reportAll (i.files.filterMap unnumbered?) s
  | some found => sv.reportAll (found.filterMap invalid?) (sv.askFiles i.files s).2

/-- What does not depend on the answers is found in the things that were to be looked up. -/
theorem filterMap_askEach {α β γ : Type} {ask : Int → σ → β × σ} {f : α × Option β → Option γ}
    {g : α × Option Nat → Option γ} (hnone : ∀ a, f (a, none) = g (a, none))
    (hsome : ∀ a b id, f (a, some b) = g (a, some id)) (xs : List (α × Option Nat)) (s : σ) :
    (askEach ask xs s).1.filterMap f = xs.filterMap g := by
  induction xs generalizing s with
  | nil => rfl
  | cons x xs ih =>
    obtain ⟨a, id⟩ := x
    cases id with
    | none => simp only [askEach, List.filterMap_cons, hnone, ih]
    | some id => simp only [askEach, List.filterMap_cons, hsome a _ id, ih]

theorem spellings_askFiles (files : List (FileTag × Option Nat)) (s : σ) :
    ((sv.askFiles files s).1.filterMap fileFragment?).map Prod.fst = numberedSpellings files := by
  rw [List.map_filterMap]
  refine filterMap_askEach (fun _ => ?_) (fun _ _ _ => ?_) files _
  · rfl
  · rfl

theorem spellings_askUsers (found : List (Mention × Option Nat)) (s : σ) :
    ((sv.askUsers found s).1.map mentionFragment).map Prod.fst =
      found.map fun x => mention.spelling x.1 := by
  rw [List.map_map, ← List.filterMap_eq_map, ← List.filterMap_eq_map]
  refine filterMap_askEach (fun _ => ?_) (fun _ _ _ => ?_) found _
  · rfl
  · rfl

end

namespace Resolution

variable (r : Resolution) (file : Int → Except Text (Option DiskFile))
  (user : Int → Except Text Text)

def fileOutcomes : List (FileTag × Option FileOutcome) :=
  r.files.map fun (tag, id) => (tag, id.map fun (id : Nat) => .ofAnswer id (file id))

def userOutcomes : List (Mention × Option UserOutcome) :=
  r.mentions.map fun (m, id) => (m, id.map fun (id : Nat) => .ofAnswer id (user id))

def fragments : Stash :=
  ⟨emptyFragments.label, ((r.fileOutcomes file).filterMap fileFragment?).map Prod.snd ++
    ((r.userOutcomes user).map mentionFragment).map Prod.snd⟩

def escaped : Text := escapeAround (r.fragments file user) r.text

def restored : Text := unstashTags r.tags (r.escaped file user)

/-- What is asked and reported, after what was asked and reported before. -/
def transcript (log : Transcript) : Transcript where
  files := log.files ++ r.files.filterMap fun x => x.2.map Int.ofNat
  users := log.users ++ r.mentions.filterMap fun x => x.2.map Int.ofNat
  problems := log.problems ++ r.files.filterMap unnumbered? ++
    (r.fileOutcomes file).filterMap (fun x => x.2.bind FileOutcome.problem?) ++
    r.mentions.filterMap invalid? ++
    (r.userOutcomes user).filterMap fun x => x.2.bind UserOutcome.problem?

/-- The escaped text with what its references came to, and with its tags back in their places. -/
def filled (r : Resolution) (files : List (FileTag × Option FileOutcome))
    (users : List (Mention × Option UserOutcome)) : Text :=
  unstashTags r.tags
    (escapeAround ⟨emptyFragments.label, (files.filterMap fileFragment?).map Prod.snd ++
    (users.map mentionFragment).map Prod.snd⟩ r.text)

theorem restored_eq_filled :
    r.restored file user = r.filled (r.fileOutcomes file) (r.userOutcomes user) :=
  rfl

end Resolution

/-! ## Conversions -/

def Transcript.asked (log : Transcript) : List Int × List Int := (log.files, log.users)

/-- How a pass ends, and the state that it leaves either way. -/
def outcome {ε α σ : Type} : Except (ε × σ) (α × σ) → Except ε α × σ
  | .ok (a, s) => (.ok a, s)
  | .error (e, s) => (.error e, s)

theorem emptyFragments_size : emptyFragments.size = 0 := rfl

section

variable {σ : Type} (sv : Services σ) (source : Text) (s : σ)

/-- A body before the text is escaped: its tags are stashed, and a token stands for every
reference, with the fragments that the answers gave. -/
structure Substituted where
  tags : Stash
  text : Text
  fragments : Stash
  deriving DecidableEq

def substitute : Except (OverlongNumeral × σ) (Substituted × σ) := do
  let (t, tags) := stashTags emptyTags source
  let (t, fragments, s) ← substituteFiles sv emptyFragments t s
  let (t, fragments, s) ← substituteMentions sv fragments t s
  return (⟨tags, t, fragments⟩, s)

theorem convert_eq_substitute :
    convert sv source s = (substitute sv source s).map fun (x, s) =>
      (finish (unstashTags x.tags (escapeAround x.fragments x.text)), s) := by
  rw [convert, substitute]
  simp only [bind, Except.bind, pure, Except.pure]
  cases substituteFiles sv emptyFragments (stashTags emptyTags source).1 s with
  | error e => rfl
  | ok x => cases h : substituteMentions sv x.2.1 x.1 x.2.2 <;> simp [h, Except.map]

theorem substituteFiles_eq (fragments : Stash) (t : Text) :
    substituteFiles sv fragments t s = ((fileTags t).map fun files =>
      (Stash.tokensFor fragments.label fragments.size (numberedSpellings files) t,
        Stash.mk fragments.label (fragments.fragments ++
          ((sv.askFiles files s).1.filterMap fileFragment?).map Prod.snd),
        (sv.askFiles files s).2)).mapError fun (e, read) =>
          (e, sv.reportAll (read.filterMap unnumbered?) s) := by
  rw [substituteFiles]
  cases fileTags t with
  | error e => rfl
  | ok files =>
    have hspelled := spellings_askFiles sv files s
    change Except.ok ((fragments.exchange ((sv.askFiles files s).1.filterMap fileFragment?) t).1,
      (fragments.exchange ((sv.askFiles files s).1.filterMap fileFragment?) t).2, _) = _
    rw [Stash.exchange_eq, hspelled]
    rfl

theorem substituteMentions_eq (fragments : Stash) (t : Text) :
    substituteMentions sv fragments t s = ((mentions t).map fun found =>
      (Stash.tokensFor fragments.label fragments.size (found.map fun x => mention.spelling x.1) t,
        Stash.mk fragments.label (fragments.fragments ++
          ((sv.askUsers found s).1.map mentionFragment).map Prod.snd),
        (sv.askUsers found s).2)).mapError fun (e, read) =>
          (e, sv.reportAll (read.filterMap invalid?) s) := by
  rw [substituteMentions]
  cases mentions t with
  | error e => rfl
  | ok found =>
    have hspelled := spellings_askUsers sv found s
    change Except.ok ((fragments.exchange ((sv.askUsers found s).1.map mentionFragment) t).1,
      (fragments.exchange ((sv.askUsers found s).1.map mentionFragment) t).2, _) = _
    rw [Stash.exchange_eq, hspelled]
    rfl

theorem length_askFiles (files : List (FileTag × Option Nat)) :
    (((sv.askFiles files s).1.filterMap fileFragment?).map Prod.snd).length =
      (numberedSpellings files).length := by
  rw [← spellings_askFiles sv files s, List.length_map, List.length_map]

/-- All references are found before an answer comes in. -/
theorem substitute_eq :
    substitute sv source s = ((resolve source).map fun r =>
      let files := sv.askFiles r.files s
      let users := sv.askUsers r.mentions files.2
      (Substituted.mk r.tags r.text ⟨emptyFragments.label,
        (files.1.filterMap fileFragment?).map Prod.snd ++
          (users.1.map mentionFragment).map Prod.snd⟩, users.2)).mapError fun i =>
            (i.numeral, sv.askBefore i s) := by
  rw [substitute, resolve]
  simp only [bind, Except.bind, pure, Except.pure, substituteFiles_eq, substituteMentions_eq]
  generalize stashTags emptyTags source = stashed
  cases fileTags stashed.1 with
  | error e => rfl
  | ok files =>
    have hsize : (Stash.mk emptyFragments.label (emptyFragments.fragments ++
        ((sv.askFiles files s).1.filterMap fileFragment?).map Prod.snd)).size =
          (numberedSpellings files).length := length_askFiles sv s files
    simp only [Except.map, Except.mapError, hsize, emptyFragments_size]
    cases mentions (Stash.tokensFor emptyFragments.label 0 (numberedSpellings files) stashed.1) with
    | error e => rfl
    | ok found => rfl

/-- A conversion fills in what its references came to, and finishes the text. -/
theorem convert_eq_filled :
    convert sv source s = ((resolve source).map fun r =>
      let files := sv.askFiles r.files s
      let users := sv.askUsers r.mentions files.2
      (finish (r.filled files.1 users.1), users.2)).mapError fun i =>
        (i.numeral, sv.askBefore i s) := by
  rw [convert_eq_substitute, substitute_eq]
  cases resolve source <;> rfl

end

section

variable {file : Int → Except Text (Option DiskFile)} {user : Int → Except Text Text}

theorem reportAll_recording (problems : List Problem) (log : Transcript) :
    (Services.recording file user).reportAll problems log =
      { log with problems := log.problems ++ problems } := by
  induction problems generalizing log with
  | nil => simp [Services.reportAll]
  | cons p problems ih =>
    have hp : (Services.recording file user).reportAll (p :: problems) log =
        (Services.recording file user).reportAll problems
          { log with problems := log.problems ++ [p] } := rfl
    rw [hp, ih]
    simp

theorem fileOutcome_recording (id : Int) (log : Transcript) :
    (Services.recording file user).fileOutcome id log =
      (.ofAnswer id (file id), { log with files := log.files ++ [id] }) := rfl

theorem userOutcome_recording (id : Int) (log : Transcript) :
    (Services.recording file user).userOutcome id log =
      (.ofAnswer id (user id), { log with users := log.users ++ [id] }) := rfl

/-- Questions that answer from a table and write their ids down one by one answer all things from
the table and write all ids down. -/
theorem askEach_of_table {σ α β : Type} {ask : Int → σ → β × σ} {answer : Int → β}
    (note : List Int → σ → σ) (hask : ∀ id s, ask id s = (answer id, note [id] s))
    (hnil : ∀ s, note [] s = s) (hcons : ∀ id ids s, note ids (note [id] s) = note (id :: ids) s)
    (xs : List (α × Option Nat)) (s : σ) :
    askEach ask xs s = (xs.map fun (a, id) => (a, id.map fun (id : Nat) => answer id),
      note (xs.filterMap fun x => x.2.map Int.ofNat) s) := by
  induction xs generalizing s with
  | nil => simp [askEach, hnil]
  | cons x xs ih =>
    obtain ⟨a, id⟩ := x
    cases id with
    | none => simp [askEach, ih]
    | some id => simp [askEach, hask, ih, hcons]

theorem askEach_fileOutcome {α : Type} (xs : List (α × Option Nat)) (log : Transcript) :
    askEach (Services.recording file user).fileOutcome xs log =
      (xs.map fun (a, id) => (a, id.map fun (id : Nat) => .ofAnswer id (file id)),
        { log with files := log.files ++ xs.filterMap fun x => x.2.map Int.ofNat }) :=
  askEach_of_table (fun ids log => { log with files := log.files ++ ids })
    fileOutcome_recording (by simp) (by simp) xs log

theorem askEach_userOutcome {α : Type} (xs : List (α × Option Nat)) (log : Transcript) :
    askEach (Services.recording file user).userOutcome xs log =
      (xs.map fun (a, id) => (a, id.map fun (id : Nat) => .ofAnswer id (user id)),
        { log with users := log.users ++ xs.filterMap fun x => x.2.map Int.ofNat }) :=
  askEach_of_table (fun ids log => { log with users := log.users ++ ids })
    userOutcome_recording (by simp) (by simp) xs log

theorem asked_askBefore_recording (i : Interruption) (log : Transcript) :
    ((Services.recording file user).askBefore i log).asked =
      (log.files ++ i.fileIds, log.users) := by
  rw [Services.askBefore, Interruption.fileIds]
  cases i.mentions? with
  | none =>
    rw [reportAll_recording, List.append_nil]
    rfl
  | some found =>
    simp only [Services.askFiles, reportAll_recording, askEach_fileOutcome]
    rfl

/-- A conversion resolves the body, and only then do the answers come in. -/
theorem substitute_recording (source : Text) (log : Transcript) :
    substitute (.recording file user) source log = ((resolve source).map fun r =>
      (Substituted.mk r.tags r.text (r.fragments file user), r.transcript file user log)).mapError
        fun i => (i.numeral, (Services.recording file user).askBefore i log) := by
  rw [substitute_eq]
  cases resolve source with
  | error e => rfl
  | ok r =>
    simp only [Except.map, Except.mapError, Services.askFiles, Services.askUsers,
      reportAll_recording, askEach_fileOutcome, askEach_userOutcome]
    rfl

theorem convert_recording (source : Text) (log : Transcript) :
    convert (.recording file user) source log = ((resolve source).map fun r =>
      (finish (r.restored file user), r.transcript file user log)).mapError
        fun i => (i.numeral, (Services.recording file user).askBefore i log) := by
  rw [convert_eq_substitute, substitute_recording]
  cases resolve source <;> rfl

end

end Bracket

end TaskBulletin
