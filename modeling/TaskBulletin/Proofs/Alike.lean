import TaskBulletin.Proofs.RecodedResolution

/-!
# Lookups that answer alike

Two services answer alike when they give the same answers from related states and keep
the states related, whatever problems they are told of. A text is then converted through
the one as through the other: the same is asked, in the same order, and the results are
the same. When the second service converts the text in another code, it is asked the
same as well, and what comes back is put into the recoded text.
-/

namespace TaskBulletin.Bracket

open Recoding

/-- The problem of a text in the other code. Only an id part is quoted from the text as it is. -/
def Problem.recode (R : Recoding) : Problem → Problem
  | .invalidMention part => .invalidMention (R.recode part)
  | p => p

theorem Problem.recode_same : ∀ p : Problem, p.recode same = p
  | .invalidMention part => congrArg Problem.invalidMention (Recoding.recode_same part)
  | .unnumberedFile _ => rfl
  | .missingFile _ => rfl
  | .failedFile _ _ => rfl
  | .failedUser _ _ => rfl

theorem recode_unnumbered? (R : Recoding) :
    ∀ x : FileTag × Option Nat, (unnumbered? x).map (Problem.recode R) = unnumbered? x
  | (_, none) => rfl
  | (_, some _) => rfl

theorem recode_invalid? (R : Recoding) : ∀ x : Mention × Option Nat,
    (invalid? x).map (Problem.recode R) = invalid? (recodeMention R x.1, x.2)
  | (_, none) => rfl
  | (_, some _) => rfl

theorem FileOutcome.recode_problem? (R : Recoding) :
    ∀ o : FileOutcome, o.problem?.map (Problem.recode R) = o.problem?
  | .found _ => rfl
  | .missing _ => rfl
  | .failed _ _ => rfl

theorem UserOutcome.recode_problem? (R : Recoding) :
    ∀ o : UserOutcome, o.problem?.map (Problem.recode R) = o.problem?
  | .linked _ _ => rfl
  | .unknown _ => rfl
  | .failed _ _ => rfl

variable {σ σ' : Type}

/-- Two services that answer alike; the second is told the problems in another code. -/
structure Services.Alike (sv : Services σ) (sv' : Services σ') (R : Recoding)
    (Rel : σ → σ' → Prop) : Prop where
  file : ∀ {s s'}, Rel s s' → ∀ id, (sv'.file id s').1 = (sv.file id s).1 ∧
    Rel (sv.file id s).2 (sv'.file id s').2
  user : ∀ {s s'}, Rel s s' → ∀ id, (sv'.user id s').1 = (sv.user id s).1 ∧
    Rel (sv.user id s).2 (sv'.user id s').2
  report : ∀ {s s'}, Rel s s' → ∀ p, Rel (sv.report p s) (sv'.report (p.recode R) s')

section

variable {α β : Type} {ask : Int → σ → β × σ} {ask' : Int → σ' → β × σ'} {Rel : σ → σ' → Prop}

theorem askEach_alike (h : ∀ {s s'}, Rel s s' → ∀ id, (ask' id s').1 = (ask id s).1 ∧
      Rel (ask id s).2 (ask' id s').2) (f : α → α) (xs : List (α × Option Nat)) {s : σ} {s' : σ'}
    (hs : Rel s s') :
    (askEach ask' (xs.map fun x => (f x.1, x.2)) s').1 =
        (askEach ask xs s).1.map (fun x => (f x.1, x.2)) ∧
      Rel (askEach ask xs s).2 (askEach ask' (xs.map fun x => (f x.1, x.2)) s').2 := by
  induction xs generalizing s s' with
  | nil => exact ⟨rfl, hs⟩
  | cons x xs ih =>
    obtain ⟨a, id⟩ := x
    cases id with
    | none =>
      obtain ⟨hanswers, hrest⟩ := ih hs
      exact ⟨congrArg ((f a, none) :: ·) hanswers, hrest⟩
    | some id =>
      obtain ⟨hanswer, hnext⟩ := h hs id
      obtain ⟨hanswers, hrest⟩ := ih hnext
      refine ⟨?_, hrest⟩
      simp only [List.map_cons, askEach, hanswer, hanswers]

theorem exists_of_mem_askEach {xs : List (α × Option Nat)} {s : σ} {x : α × Option β}
    (h : x ∈ (askEach ask xs s).1) :
    (∃ y ∈ xs, y.1 = x.1) ∧ ∀ b, x.2 = some b → ∃ (id : Nat) (t : σ), (ask id t).1 = b := by
  induction xs generalizing s with
  | nil => cases h
  | cons y xs ih =>
    obtain ⟨a, id⟩ := y
    have hrest {t : σ} (h : x ∈ (askEach ask xs t).1) :
        (∃ y ∈ (a, id) :: xs, y.1 = x.1) ∧
          ∀ b, x.2 = some b → ∃ (id : Nat) (t : σ), (ask id t).1 = b :=
      ⟨(ih h).1.imp fun _ hy => ⟨List.mem_cons_of_mem _ hy.1, hy.2⟩, (ih h).2⟩
    cases id with
    | none =>
      rcases List.mem_cons.mp h with rfl | h
      · exact ⟨⟨_, List.mem_cons_self .., rfl⟩, fun b hb => by cases hb⟩
      · exact hrest h
    | some id =>
      rcases List.mem_cons.mp h with rfl | h
      · refine ⟨⟨_, List.mem_cons_self .., rfl⟩, fun b hb => ⟨id, s, ?_⟩⟩
        exact Option.some.inj hb
      · exact hrest h

end

theorem Services.exists_of_mem_askFiles (sv : Services σ) {files : List (FileTag × Option Nat)}
    {s : σ} {x : FileTag × Option FileOutcome} (hx : x ∈ (sv.askFiles files s).1) {f : DiskFile}
    (hf : x.2 = some (.found f)) : ∃ (id : Int) (t : σ), (sv.file id t).1 = .ok (some f) := by
  obtain ⟨id, t, ho⟩ := (exists_of_mem_askEach hx).2 _ hf
  exact ⟨id, t, FileOutcome.ofAnswer_eq_found ho⟩

/-- A link is an answer, and every mention that was asked about was found. -/
theorem Services.exists_of_mem_askUsers (sv : Services σ) {found : List (Mention × Option Nat)}
    {s : σ} {x : Mention × Option UserOutcome} (hx : x ∈ (sv.askUsers found s).1) :
    (∃ y ∈ found, y.1 = x.1) ∧ ∀ id link, x.2 = some (.linked id link) →
      ∃ (id : Int) (t : σ), (sv.user id t).1 = .ok link := by
  obtain ⟨hfound, houtcome⟩ := exists_of_mem_askEach hx
  refine ⟨hfound, fun id link hl => ?_⟩
  obtain ⟨id, t, ho⟩ := houtcome _ hl
  exact ⟨id, t, UserOutcome.ofAnswer_eq_linked ho⟩

namespace Services.Alike

variable {sv : Services σ} {sv' : Services σ'} {R : Recoding} {Rel : σ → σ' → Prop}
  (h : sv.Alike sv' R Rel)
include h

theorem reportAll (problems : List Problem) {s : σ} {s' : σ'} (hs : Rel s s') :
    Rel (sv.reportAll problems s) (sv'.reportAll (problems.map (Problem.recode R)) s') := by
  induction problems generalizing s s' with
  | nil => exact hs
  | cons p problems ih => exact ih (h.report hs p)

theorem reportUnnumbered (files : List (FileTag × Option Nat)) {s : σ} {s' : σ'} (hs : Rel s s') :
    Rel (sv.reportAll (files.filterMap unnumbered?) s)
      (sv'.reportAll (files.filterMap unnumbered?) s') := by
  have hreported := h.reportAll (files.filterMap unnumbered?) hs
  rwa [List.map_filterMap, funext (recode_unnumbered? R)] at hreported

theorem reportInvalid (found : List (Mention × Option Nat)) {s : σ} {s' : σ'} (hs : Rel s s') :
    Rel (sv.reportAll (found.filterMap invalid?) s)
      (sv'.reportAll ((found.map fun x => (recodeMention R x.1, x.2)).filterMap invalid?) s') := by
  have hreported := h.reportAll (found.filterMap invalid?) hs
  rw [List.map_filterMap, funext (recode_invalid? R)] at hreported
  rwa [List.filterMap_map]

theorem reportProblems {ρ β : Type} {problem? : β → Option Problem}
    (hp : ∀ o, (problem? o).map (Problem.recode R) = problem? o) (answered : List (ρ × Option β))
    {s : σ} {s' : σ'} (hs : Rel s s') :
    Rel (sv.reportAll (answered.filterMap fun x => x.2.bind problem?) s)
      (sv'.reportAll (answered.filterMap fun x => x.2.bind problem?) s') := by
  have hreported := h.reportAll (answered.filterMap fun x => x.2.bind problem?) hs
  simpa only [List.map_filterMap, Option.map_bind, Function.comp_def, hp] using hreported

theorem fileOutcome {s : σ} {s' : σ'} (hs : Rel s s') (id : Int) :
    (sv'.fileOutcome id s').1 = (sv.fileOutcome id s).1 ∧
      Rel (sv.fileOutcome id s).2 (sv'.fileOutcome id s').2 :=
  ⟨congrArg (FileOutcome.ofAnswer id) (h.file hs id).1, (h.file hs id).2⟩

theorem userOutcome {s : σ} {s' : σ'} (hs : Rel s s') (id : Int) :
    (sv'.userOutcome id s').1 = (sv.userOutcome id s).1 ∧
      Rel (sv.userOutcome id s).2 (sv'.userOutcome id s').2 :=
  ⟨congrArg (UserOutcome.ofAnswer id) (h.user hs id).1, (h.user hs id).2⟩

theorem askFiles (files : List (FileTag × Option Nat)) {s : σ} {s' : σ'} (hs : Rel s s') :
    (sv'.askFiles files s').1 = (sv.askFiles files s).1 ∧
      Rel (sv.askFiles files s).2 (sv'.askFiles files s').2 := by
  have hasked := askEach_alike h.fileOutcome id files (h.reportUnnumbered files hs)
  simp only [id_eq, Prod.mk.eta, List.map_id'] at hasked
  obtain ⟨houtcomes, hasked⟩ := hasked
  refine ⟨houtcomes, ?_⟩
  simp only [Services.askFiles, houtcomes]
  exact h.reportProblems (FileOutcome.recode_problem? R) _ hasked

/-- The second service is asked about the mentions in the other code. -/
theorem askUsers (found : List (Mention × Option Nat)) {s : σ} {s' : σ'} (hs : Rel s s') :
    (sv'.askUsers (found.map fun x => (recodeMention R x.1, x.2)) s').1 =
        (sv.askUsers found s).1.map (fun x => (recodeMention R x.1, x.2)) ∧
      Rel (sv.askUsers found s).2
        (sv'.askUsers (found.map fun x => (recodeMention R x.1, x.2)) s').2 := by
  obtain ⟨houtcomes, hasked⟩ :=
    askEach_alike h.userOutcome (recodeMention R) found (h.reportInvalid found hs)
  refine ⟨houtcomes, ?_⟩
  simp only [Services.askUsers, houtcomes]
  rw [List.filterMap_map]
  exact h.reportProblems (UserOutcome.recode_problem? R) _ hasked

theorem askBefore (i : Interruption) {s : σ} {s' : σ'} (hs : Rel s s') :
    Rel (sv.askBefore i s) (sv'.askBefore (i.recode R) s') := by
  obtain ⟨numeral, files, _ | found⟩ := i
  · exact h.reportUnnumbered files hs
  · exact h.reportInvalid found (h.askFiles files hs).2

end Services.Alike

/-! ## Conversions -/

/-- The same result, or the same failure, and states that are related. -/
inductive SameResult {ε ρ : Type} (Rel : σ → σ' → Prop) :
    Except (ε × σ) (ρ × σ) → Except (ε × σ') (ρ × σ') → Prop where
  | ok {a : ρ} {s : σ} {s' : σ'} (h : Rel s s') : SameResult Rel (.ok (a, s)) (.ok (a, s'))
  | error {e : ε} {s : σ} {s' : σ'} (h : Rel s s') : SameResult Rel (.error (e, s)) (.error (e, s'))

namespace SameResult

variable {ε ρ ρ' : Type} {Rel : σ → σ' → Prop} {x : Except (ε × σ) (ρ × σ)}
  {y : Except (ε × σ') (ρ × σ')}

theorem outcome_eq_map {f : σ → σ'} (h : SameResult (fun s s' => s' = f s) x y) :
    outcome y = (outcome x).map id f := by
  cases h with
  | ok h => exact congrArg (Prod.mk _) h
  | error h => exact congrArg (Prod.mk _) h

theorem map (h : SameResult Rel x y) (f : ρ → ρ') :
    SameResult Rel (x.map fun (a, s) => (f a, s)) (y.map fun (a, s) => (f a, s)) := by
  cases h with
  | ok h => exact .ok h
  | error h => exact .error h

end SameResult

namespace Services.Alike

variable {sv : Services σ} {sv' : Services σ'} {R : Recoding} {Rel : σ → σ' → Prop}

theorem substituteFiles (h : sv.Alike sv' R Rel) (fragments : Stash) (t : Text) {s : σ} {s' : σ'}
    (hs : Rel s s') :
    SameResult Rel ((Bracket.substituteFiles sv fragments t s).map fun (t, fragments, s) =>
      ((t, fragments), s))
      ((Bracket.substituteFiles sv' fragments t s').map fun (t, fragments, s) =>
        ((t, fragments), s)) := by
  rw [substituteFiles_eq, substituteFiles_eq]
  cases fileTags t with
  | error e => exact .error (h.reportUnnumbered e.2 hs)
  | ok files =>
    obtain ⟨houtcomes, hasked⟩ := h.askFiles files hs
    simp only [Except.map, Except.mapError, houtcomes]
    exact .ok hasked

/-- A text in another code is converted to the same result if what its references came to is
finished to the same result. -/
theorem convert_recode (h : sv.Alike sv' R Rel) (hR : R.Decodable)
    (hline : Pattern.Keeps R (· != '\n')) {source : Text} (hsource : R.Knows source) {s : σ}
    {s' : σ'} (hs : Rel s s')
    (hfinish : ∀ r, resolve source = .ok r →
      finish ((r.recode R).filled (sv.askFiles r.files s).1
          ((sv.askUsers r.mentions (sv.askFiles r.files s).2).1.map fun x =>
            (recodeMention R x.1, x.2))) =
        finish (r.filled (sv.askFiles r.files s).1
          (sv.askUsers r.mentions (sv.askFiles r.files s).2).1)) :
    SameResult Rel (convert sv source s) (convert sv' (R.recode source) s') := by
  rw [convert_eq_filled, convert_eq_filled, resolve_recode hR hline hsource]
  cases hr : resolve source with
  | error i => exact .error (h.askBefore i hs)
  | ok r =>
    obtain ⟨hfiles, hasked⟩ := h.askFiles r.files hs
    obtain ⟨husers, hdone⟩ := h.askUsers r.mentions hasked
    have hfinish := hfinish r hr
    simp only [Except.map, Except.mapError, Resolution.recode] at hfinish ⊢
    rw [hfiles, husers, hfinish]
    exact .ok hdone

/-- Through services that answer alike a text is converted to the same result. -/
theorem convert (h : sv.Alike sv' same Rel) (source : Text) {s : σ} {s' : σ'} (hs : Rel s s') :
    SameResult Rel (Bracket.convert sv source s) (Bracket.convert sv' source s') := by
  have hresult := h.convert_recode (fun _ _ => fun he => (List.cons.inj he).1)
    (fun c _ => by simp [same]) (knows_same source) hs fun r _ => by simp [Resolution.recode_same]
  rwa [Recoding.recode_same] at hresult

end Services.Alike

end TaskBulletin.Bracket
