import TaskBulletin.Proofs.RecodedResolution
import TaskBulletin.Proofs.ReferencePasses

/-!
# What a conversion reports

Every reference is read once, however often it occurs, and every answer comes in once. So each
problem is reported once: a file tag without a digit and a mention without a valid id as soon as
the references of their kind are found, and a lookup that failed after the last answer.
-/

namespace TaskBulletin

namespace Pattern

variable {α : Type} {p : Pattern α} {kind : Char → Bool}

theorem silent_run {t : Text} (h : ∀ c ∈ t, kind c = false) : (run kind).Silent t := by
  induction t with
  | nil => trivial
  | cons c t ih =>
    refine ⟨fun rest => ?_, ih fun d hd => h d (List.mem_cons_of_mem _ hd)⟩
    have hc := h c (List.mem_cons_self ..)
    simp [run, hc]

theorem hits_run_eq_nil_iff {t : Text} : (run kind).hits t = [] ↔ ∀ c ∈ t, kind c = false := by
  refine ⟨fun h => ?_, fun h => hits_of_silent (silent_run h)⟩
  rw [hits] at h
  fun_induction pieces (run kind) t with
  | case1 => simp
  | case2 c cs a rest hread _ ih => cases h
  | case3 c cs hread ih =>
    have hc : kind c = false := by
      cases hc : kind c with
      | false => rfl
      | true => simp [run, hc] at hread
    intro d hd
    rcases List.mem_cons.mp hd with rfl | hd
    · exact hc
    · exact ih h d hd

theorem map_spelling_eraseDups [DecidableEq α] {t : Text} (h : ∀ a ∈ p.hits t, p.Always a) :
    (p.hits t).eraseDups.map p.spelling = ((p.hits t).map p.spelling).eraseDups :=
  (eraseDups_map_of_injOn _ fun a ha b hb => (h a ha).eq_of_spelling (h b hb)).symm

end Pattern

namespace Bracket

open Pattern

theorem isSome_fileNumber? (part : Text) : (fileNumber? part).isSome = part.any Text.isDigit := by
  rw [fileNumber?, Option.isSome_map, fileNumeral?, Bool.eq_iff_iff, Option.isSome_iff_ne_none, Ne,
    List.head?_eq_none_iff, digitRun, hits_run_eq_nil_iff]
  simp

/-! ## Writing down what happens -/

/-- What happens in a conversion: a lookup answers, or a problem is reported. -/
inductive Occurrence where
  | file (id : Int) (answer : Except Text (Option DiskFile))
  | user (id : Int) (answer : Except Text Text)
  | reported (level : LogLevel) (p : Problem)
  deriving DecidableEq

def Occurrence.report (p : Problem) : Occurrence := .reported p.entry.level p

structure Answered (ρ α : Type) where
  reference : ρ
  id : Nat
  answer : Except Text α

/-- The problem with the answer for a file, if there is one. -/
def Answered.fileReport? {ρ : Type} (a : Answered ρ (Option DiskFile)) : Option Occurrence :=
  match a.answer with
  | .ok (some _) => none
  | .ok none => some (.reported .warning (.missingFile a.id))
  | .error reason => some (.reported .error (.failedFile a.id reason))

/-- The problem with the answer for a user, if there is one. -/
def Answered.userReport? {ρ : Type} (a : Answered ρ Text) : Option Occurrence :=
  match a.answer with
  | .ok _ => none
  | .error reason => some (.reported .error (.failedUser a.id reason))

section

variable {σ : Type}

def Services.traced (sv : Services σ) : Services (σ × List Occurrence) where
  file id s := ((sv.file id s.1).1, (sv.file id s.1).2, s.2 ++ [.file id (sv.file id s.1).1])
  user id s := ((sv.user id s.1).1, (sv.user id s.1).2, s.2 ++ [.user id (sv.user id s.1).1])
  report p s := (sv.report p s.1, s.2 ++ [.report p])

variable (sv : Services σ)

theorem reportAll_traced (problems : List Problem) (s : σ × List Occurrence) :
    sv.traced.reportAll problems s = (sv.reportAll problems s.1, s.2 ++ problems.map .report) := by
  induction problems generalizing s with
  | nil => simp [Services.reportAll]
  | cons p problems ih =>
    have hstep : sv.traced.reportAll (p :: problems) s =
        sv.traced.reportAll problems (sv.traced.report p s) :=
      rfl
    rw [hstep, ih]
    simp [Services.traced, Services.reportAll]

end

section

variable {σ ρ α β : Type} (ask : Int → σ × List Occurrence → β × (σ × List Occurrence))
  {call : Int → σ → Except Text α × σ} {sort : Int → Except Text α → β}
  {occurrence : Int → Except Text α → Occurrence} {problem? : β → Option Problem}
  (hask : ∀ id s, ask id s =
    (sort id (call id s.1).1, (call id s.1).2, s.2 ++ [occurrence id (call id s.1).1]))
include hask

/-- Every reference with an id is answered once, in order; `sort` gives the outcome of an answer. -/
theorem exists_answered (xs : List (ρ × Option Nat)) (s : σ × List Occurrence) :
    ∃ (answered : List (Answered ρ α)) (s' : σ),
      (answered.map fun a => (a.reference, a.id)) = xs.filterMap (fun x => x.2.map (x.1, ·)) ∧
      (∀ a ∈ answered, ∃ s, a.answer = (call a.id s).1) ∧
      (askEach ask xs s).2 = (s', s.2 ++ answered.map fun a => occurrence a.id a.answer) ∧
      (askEach ask xs s).1.filterMap (fun x => x.2.bind problem?) =
        answered.filterMap fun a => problem? (sort a.id a.answer) := by
  induction xs generalizing s with
  | nil => exact ⟨[], s.1, rfl, by simp, by simp [askEach], rfl⟩
  | cons x xs ih =>
    obtain ⟨r, id⟩ := x
    cases id with
    | none =>
      obtain ⟨answered, s', hasked, hanswers, hstate, hproblems⟩ := ih s
      exact ⟨answered, s', hasked, hanswers, hstate, hproblems⟩
    | some id =>
      obtain ⟨answered, s', hasked, hanswers, hstate, hproblems⟩ := ih (ask id s).2
      refine ⟨⟨r, id, (call id s.1).1⟩ :: answered, s', ?_, ?_, ?_, ?_⟩
      · rw [List.map_cons, hasked]
        rfl
      · exact List.forall_mem_cons.mpr ⟨⟨s.1, rfl⟩, hanswers⟩
      · have hrest : (askEach ask ((r, some id) :: xs) s).2 = (askEach ask xs (ask id s).2).2 := rfl
        rw [hrest, hstate, hask]
        simp
      · have hrest : (askEach ask ((r, some id) :: xs) s).1 =
            (r, some (ask id s).1) :: (askEach ask xs (ask id s).2).1 := rfl
        rw [hrest, List.filterMap_cons, List.filterMap_cons, hproblems, hask]
        rfl

/-- Problems are reported, references are looked up, and then what is wrong with the answers is
reported. -/
theorem exists_pass (sv : Services σ) {late? : Answered ρ α → Option Occurrence}
    (hlate : ∀ a : Answered ρ α, (problem? (sort a.id a.answer)).map .report = late? a)
    (early : List Problem) (xs : List (ρ × Option Nat)) (s : σ × List Occurrence) :
    let asked := askEach ask xs (sv.traced.reportAll early s)
    ∃ (answered : List (Answered ρ α)) (s' : σ),
      (answered.map fun a => (a.reference, a.id)) = xs.filterMap (fun x => x.2.map (x.1, ·)) ∧
      (∀ a ∈ answered, ∃ s, a.answer = (call a.id s).1) ∧
      sv.traced.reportAll (asked.1.filterMap fun x => x.2.bind problem?) asked.2 =
        (s', s.2 ++ early.map .report ++ (answered.map fun a => occurrence a.id a.answer) ++
          answered.filterMap late?) := by
  intro asked
  obtain ⟨answered, s', hasked, hanswers, hstate, hproblems⟩ :=
    exists_answered ask hask xs (sv.traced.reportAll early s)
  have hreports :
      (answered.filterMap fun a => problem? (sort a.id a.answer)).map Occurrence.report =
      answered.filterMap late? := by
    rw [List.map_filterMap]
    exact List.filterMap_congr fun a _ => hlate a
  refine ⟨answered, sv.reportAll (answered.filterMap fun a => problem? (sort a.id a.answer)) s',
    hasked, hanswers, ?_⟩
  rw [hproblems, hstate, reportAll_traced, reportAll_traced, hreports]

end

section

variable {σ : Type} (sv : Services σ)

theorem exists_askFiles_traced (files : List (FileTag × Option Nat)) (s : σ × List Occurrence) :
    ∃ (answered : List (Answered FileTag (Option DiskFile))) (s' : σ),
      (answered.map fun a => (a.reference, a.id)) = files.filterMap (fun x => x.2.map (x.1, ·)) ∧
      (∀ a ∈ answered, ∃ s, a.answer = (sv.file a.id s).1) ∧
      (sv.traced.askFiles files s).2 = (s', s.2 ++ (files.filterMap unnumbered?).map .report ++
        (answered.map fun a => .file a.id a.answer) ++ answered.filterMap
          Answered.fileReport?) := by
  have hlate (a : Answered FileTag (Option DiskFile)) :
      (FileOutcome.ofAnswer a.id a.answer).problem?.map .report = a.fileReport? := by
    obtain ⟨tag, id, answer⟩ := a
    rcases answer with reason | _ | file <;> rfl
  exact exists_pass sv.traced.fileOutcome (fun _ _ => rfl) sv hlate _ files s

theorem exists_askUsers_traced (found : List (Mention × Option Nat)) (s : σ × List Occurrence) :
    ∃ (answered : List (Answered Mention Text)) (s' : σ),
      (answered.map fun a => (a.reference, a.id)) = found.filterMap (fun x => x.2.map (x.1, ·)) ∧
      (∀ a ∈ answered, ∃ s, a.answer = (sv.user a.id s).1) ∧
      (sv.traced.askUsers found s).2 = (s', s.2 ++ (found.filterMap invalid?).map .report ++
        (answered.map fun a => .user a.id a.answer) ++ answered.filterMap
          Answered.userReport?) := by
  have hlate (a : Answered Mention Text) :
      (UserOutcome.ofAnswer a.id a.answer).problem?.map .report = a.userReport? := by
    obtain ⟨m, id, answer⟩ := a
    cases answer with
    | error reason => rfl
    | ok link =>
      rw [UserOutcome.ofAnswer]
      split <;> rfl
  exact exists_pass sv.traced.userOutcome (fun _ _ => rfl) sv hlate _ found s

end

/-! ## The references of a text -/

section

variable {ρ : Type} {id? : ρ → Option Nat}

theorem map_answered {α : Type} {answered : List (Answered ρ α)} {rs : List ρ}
    (h : (answered.map fun a => (a.reference, a.id)) =
      (rs.map fun r => (r, id? r)).filterMap fun x => x.2.map (x.1, ·)) :
    (answered.map fun a => (a.reference, some a.id)) =
      (rs.filter fun r => (id? r).isSome).map fun r => (r, id? r) := by
  have hids : (answered.map fun a => (a.reference, some a.id)) =
      (answered.map fun a => (a.reference, a.id)).map fun x => (x.1, some x.2) := by
    rw [List.map_map]
    rfl
  rw [hids, h, List.filterMap_map, List.map_filterMap, ← List.filterMap_eq_map,
    List.filterMap_filter]
  refine List.filterMap_congr fun r _ => ?_
  cases hr : id? r <;> simp [hr]

theorem map_report_filterMap {problem? : ρ × Option Nat → Option Problem} {report : ρ → Occurrence}
    (hnone : ∀ r, (problem? (r, none)).map .report = some (report r))
    (hsome : ∀ r id, problem? (r, some id) = none) (rs : List ρ) :
    ((rs.map fun r => (r, id? r)).filterMap problem?).map .report =
      (rs.filter fun r => !(id? r).isSome).map report := by
  rw [List.filterMap_map, List.map_filterMap, ← List.filterMap_eq_map, List.filterMap_filter]
  refine List.filterMap_congr fun r _ => ?_
  cases hr : id? r <;> simp [hr, hnone, hsome]

end

/-! ## Conversions -/

/-- Each problem is reported once, in order: the distinct file tags without a digit, what is wrong
with the answers for the others, the distinct mentions without a valid id, and the lookups of the
others that failed. A file that is found, a user that is linked and a user that is not known are not
reported. -/
theorem convert_reports {σ : Type} (sv : Services σ) {source : Text} (h : ReadableIds source)
    (s : σ) : let t := (stashTags emptyTags source).1
    let tags := (fileTag.hits t).eraseDups
    let found := (mention.hits (withFileTokens t)).eraseDups
    tags.map fileTag.spelling = ((fileTag.hits t).map fileTag.spelling).eraseDups ∧
    found.map mention.spelling =
      ((mention.hits (withFileTokens t)).map mention.spelling).eraseDups ∧
    ∃ (html : Text) (s' : σ) (files : List (Answered FileTag (Option DiskFile)))
      (users : List (Answered Mention Text)),
      convert sv.traced source (s, []) = .ok (html, s',
        ((tags.filter fun tag => !tag.content.any Text.isDigit).map fun tag =>
          .reported .warning (.unnumberedFile (fileTag.spelling tag))) ++
        (files.map fun a => .file a.id a.answer) ++ files.filterMap Answered.fileReport? ++
        ((found.filter fun m => !(userNumber? m.opener.content).isSome).map fun m =>
          .reported .warning (.invalidMention m.opener.content)) ++
        (users.map fun a => .user a.id a.answer) ++ users.filterMap Answered.userReport?) ∧
      (files.map fun a => (a.reference, some a.id)) =
        (tags.filter fun tag => tag.content.any Text.isDigit).map
          (fun tag => (tag, fileNumber? tag.content)) ∧
      (users.map fun a => (a.reference, some a.id)) =
        (found.filter fun m => (userNumber? m.opener.content).isSome).map
          (fun m => (m, userNumber? m.opener.content)) ∧
      (∀ a ∈ files, ∃ s, a.answer = (sv.file a.id s).1) ∧
      ∀ a ∈ users, ∃ s, a.answer = (sv.user a.id s).1 := by
  intro t tags found
  refine ⟨map_spelling_eraseDups fun tag htag =>
    selfDelimiting_fileTag.always (reads_of_mem_hits htag),
    map_spelling_eraseDups fun m hm => selfDelimiting_mention.always (reads_of_mem_hits hm), ?_⟩
  obtain ⟨files, s₁, hfiles, hfileAnswers, hfileState⟩ :=
    exists_askFiles_traced sv (tagsWithIds t) (s, [])
  obtain ⟨users, s₂, husers, huserAnswers, huserState⟩ :=
    exists_askUsers_traced sv (mentionsWithIds (withFileTokens t))
      (sv.traced.askFiles (tagsWithIds t) (s, [])).2
  have hunnumbered : ((tagsWithIds t).filterMap unnumbered?).map Occurrence.report = _ :=
    map_report_filterMap (fun _ => rfl) (fun _ _ => rfl) tags
  have hinvalid : ((mentionsWithIds (withFileTokens t)).filterMap invalid?).map Occurrence.report =
      _ :=
    map_report_filterMap (fun _ => rfl) (fun _ _ => rfl) found
  have hnumbered := map_answered hfiles
  simp only [isSome_fileNumber?] at hunnumbered hnumbered
  have hconvert := convert_eq_filled sv.traced source (s, [])
  rw [resolve_of_readable h] at hconvert
  refine ⟨_, s₂, files, users, hconvert.trans (congrArg Except.ok (Prod.ext rfl ?_)), hnumbered,
    map_answered husers, hfileAnswers, huserAnswers⟩
  change (sv.traced.askUsers (mentionsWithIds (withFileTokens t))
    (sv.traced.askFiles (tagsWithIds t) (s, [])).2).2 = _
  rw [huserState, hfileState, hunnumbered, hinvalid, List.nil_append]
  rfl

/-- A user lookup that fails for one id and knows nobody else. -/
def refuseAt (k : Int) : Int → Except Text Text := fun id =>
  if id = k then .error "late".toList else knowNobody id

/-- References with every problem, some of them twice, and one of them in small letters. -/
def troubled : Text :=
  ["[DISK FILE ID=x]", "[DISK FILE ID=1]", "[disk file id=1]", "[DISK FILE ID=n2]",
    "[DISK FILE ID=1]",
    "[DISK FILE ID=x]", "[USER=0]a[/USER]", "[USER=3]b[/USER]", "[USER=4][/USER]",
      "[USER=3]b[/USER]",
    "[USER=0]a[/USER]"].flatMap String.toList

theorem convert_reports_troubled :
    ReadableIds troubled ∧
    ∃ (html : Text) (log : Transcript) (files : List (Answered FileTag (Option DiskFile)))
      (users : List (Answered Mention Text)),
      convert (Services.traced (.recording (failAt 2) (refuseAt 3))) troubled (.empty, []) =
        .ok (html, log,
        [.reported .warning (.unnumberedFile "[DISK FILE ID=x]".toList)] ++
        (files.map fun a => .file a.id a.answer) ++ files.filterMap Answered.fileReport? ++
        [.reported .warning (.invalidMention ['0'])] ++
        (users.map fun a => .user a.id a.answer) ++ users.filterMap Answered.userReport?) ∧
      (files.map fun a => (fileTag.spelling a.reference, some a.id)) =
        [("[DISK FILE ID=1]".toList, some 1), ("[disk file id=1]".toList, some 1),
          ("[DISK FILE ID=n2]".toList, some 2)] ∧
      (users.map fun a => (mention.spelling a.reference, some a.id)) =
        [("[USER=3]b[/USER]".toList, some 3), ("[USER=4][/USER]".toList, some 4)] ∧
      (∀ a ∈ files, a.answer = failAt 2 a.id) ∧ ∀ a ∈ users, a.answer = refuseAt 3 a.id := by
  have hids : ReadableIds troubled := ⟨by decide +kernel, by decide +kernel⟩
  obtain ⟨-, -, html, log, files, users, hok, hfiles, husers, hfileAnswers, huserAnswers⟩ :=
    convert_reports (.recording (failAt 2) (refuseAt 3)) hids .empty
  have hunnumbered : (((fileTag.hits (stashTags emptyTags troubled).1).eraseDups.filter fun tag =>
      !tag.content.any Text.isDigit).map fun tag =>
        Occurrence.reported .warning (.unnumberedFile (fileTag.spelling tag))) =
      [.reported .warning (.unnumberedFile "[DISK FILE ID=x]".toList)] := by decide +kernel
  have hinvalid :
      (((mention.hits (withFileTokens (stashTags emptyTags troubled).1)).eraseDups.filter fun m =>
      !(userNumber? m.opener.content).isSome).map fun m =>
        Occurrence.reported .warning (.invalidMention m.opener.content)) =
      [.reported .warning (.invalidMention ['0'])] := by decide +kernel
  have hspelled := congrArg (List.map fun x => (fileTag.spelling x.1, x.2)) hfiles
  have hmentioned := congrArg (List.map fun x => (mention.spelling x.1, x.2)) husers
  rw [List.map_map] at hspelled hmentioned
  rw [hunnumbered, hinvalid] at hok
  refine ⟨hids, html, log, files, users, hok, hspelled.trans (by decide +kernel),
    hmentioned.trans (by decide +kernel), fun a ha => ?_, fun a ha => ?_⟩
  · obtain ⟨_, hanswer⟩ := hfileAnswers a ha
    exact hanswer
  · obtain ⟨_, hanswer⟩ := huserAnswers a ha
    exact hanswer

end Bracket

end TaskBulletin
