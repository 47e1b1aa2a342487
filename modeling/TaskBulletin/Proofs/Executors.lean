import Mathlib.Data.List.Basic
import Mathlib.Data.List.Induction
import TaskBulletin.Proofs.Token
import TaskBulletin.Task.Label

/-!
# The users who carry a task out

A user who is named again is not shown again. What is shown depends on the first occurrences
of the ids only, and these are looked up one after another, each once. A directory that also
writes a transcript shows the lookups and the notices of a run. Each label writes one number,
and only a number that is too long to be written makes it fail.
-/

namespace TaskBulletin

/-! ## First occurrences -/

section

variable {α : Type} [BEq α] [LawfulBEq α]

/-- The distinct members of a list, in the order of their first occurrences. -/
structure FirstOccurrences (all firsts : List α) : Prop where
  mem_iff : ∀ a, a ∈ firsts ↔ a ∈ all
  ordered : firsts.Pairwise fun a b => all.idxOf a < all.idxOf b

theorem eraseDups_concat_of_mem {l : List α} {a : α} (ha : a ∈ l) :
    (l ++ [a]).eraseDups = l.eraseDups := by
  have hnew : [a].removeAll l = [] := by simp [List.removeAll, ha]
  rw [List.eraseDups_append, hnew, List.eraseDups_nil, List.append_nil]

theorem eraseDups_concat_of_notMem {l : List α} {a : α} (ha : a ∉ l) :
    (l ++ [a]).eraseDups = l.eraseDups ++ [a] := by
  have hnew : [a].removeAll l = [a] := by simp [List.removeAll, ha]
  rw [List.eraseDups_append, hnew, List.eraseDups_cons, List.filter_nil, List.eraseDups_nil]

theorem firstOccurrences_eraseDups (l : List α) : FirstOccurrences l l.eraseDups := by
  refine ⟨fun a => List.mem_eraseDups, ?_⟩
  -- A member at the end is seen last: it is known already, or behind all that are known.
  induction l using List.reverseRecOn with
  | nil => exact List.Pairwise.nil
  | append_singleton l a ih =>
    have hplace : ∀ b ∈ l, (l ++ [a]).idxOf b = l.idxOf b := fun b hb => List.idxOf_append_of_mem hb
    have hknown : l.eraseDups.Pairwise fun b c => (l ++ [a]).idxOf b < (l ++ [a]).idxOf c := by
      refine ih.imp_of_mem fun {b c} hb hc hlt => ?_
      rw [hplace b (List.mem_eraseDups.mp hb), hplace c (List.mem_eraseDups.mp hc)]
      exact hlt
    by_cases ha : a ∈ l
    · rw [eraseDups_concat_of_mem ha]
      exact hknown
    · rw [eraseDups_concat_of_notMem ha]
      refine List.pairwise_append.mpr ⟨hknown, List.pairwise_singleton _ a, fun b hb c hc => ?_⟩
      have hb : b ∈ l := List.mem_eraseDups.mp hb
      have hlast : (l ++ [a]).idxOf a = l.length := by
        rw [List.idxOf_append_of_notMem ha, List.idxOf_cons_self, Nat.add_zero]
      rw [List.mem_singleton.mp hc, hlast, hplace b hb]
      exact List.idxOf_lt_length_of_mem hb

/-- A list with further copies of its members, each after the member it is a copy of. -/
inductive Repeated (l : List α) : List α → Prop
  | refl : Repeated l l
  | copy {before between after : List α} {a : α} :
      Repeated l (before ++ a :: (between ++ after)) →
        Repeated l (before ++ a :: (between ++ a :: after))

theorem eraseDups_copy (before between after : List α) (a : α) :
    (before ++ a :: (between ++ a :: after)).eraseDups =
      (before ++ a :: (between ++ after)).eraseDups := by
  have hcopied : before ++ a :: (between ++ a :: after) =
      (before ++ a :: between ++ [a]) ++ after := by
    simp
  have hplain : before ++ a :: (between ++ after) = (before ++ a :: between) ++ after := by simp
  have ha : a ∈ before ++ a :: between := by simp
  rw [hcopied, hplain]
  induction after using List.reverseRecOn with
  | nil => rw [List.append_nil, List.append_nil, eraseDups_concat_of_mem ha]
  | append_singleton after b ih =>
    rw [← List.append_assoc, ← List.append_assoc]
    by_cases hb : b ∈ before ++ a :: between ++ after
    · have hb' : b ∈ before ++ a :: between ++ [a] ++ after := by
        simp only [List.mem_append] at hb ⊢
        tauto
      rw [eraseDups_concat_of_mem hb, eraseDups_concat_of_mem hb', ih (by simp) (by simp)]
    · have hb' : b ∉ before ++ a :: between ++ [a] ++ after := by
        simp only [List.mem_append, List.mem_cons] at hb ⊢
        tauto
      rw [eraseDups_concat_of_notMem hb, eraseDups_concat_of_notMem hb', ih (by simp) (by simp)]

theorem Repeated.eraseDups_eq {l more : List α} (h : Repeated l more) :
    more.eraseDups = l.eraseDups := by
  induction h with
  | refl => rfl
  | copy _ ih => rw [eraseDups_copy, ih]

end

/-! ## Labels, one after another -/

namespace Task

section

variable {σ : Type}

def Directory.logged (dir : Directory σ) : Directory (σ × Transcript) where
  findUser id s :=
    ((dir.findUser id s.1).1, (dir.findUser id s.1).2, { s.2 with users := s.2.users ++ [id] })
  findTask id s :=
    ((dir.findTask id s.1).1, (dir.findTask id s.1).2, { s.2 with tasks := s.2.tasks ++ [id] })
  note n s := (dir.note n s.1, { s.2 with notices := s.2.notices ++ [n] })

/-- Looking a user up never fails. -/
def Directory.AnswersUsers (dir : Directory σ) : Prop :=
  ∀ id s, ∃ found, (dir.findUser id s).1 = .ok found

theorem Directory.AnswersUsers.logged {dir : Directory σ} (h : dir.AnswersUsers) :
    dir.logged.AnswersUsers := fun id s => h id s.1

/-- The ids of all users who are found can be written. -/
def Directory.KnowsWritable (dir : Directory σ) : Prop :=
  ∀ id s user, (dir.findUser id s).1 = .ok (some user) → Numeral.writable user.id = true

theorem Directory.KnowsWritable.logged {dir : Directory σ} (h : dir.KnowsWritable) :
    dir.logged.KnowsWritable := fun id s => h id s.1

variable (dir : Directory σ) (domain : Option Text)

/-- Users are shown one after another, from one state to another. A label that fails does not keep
the others from being made. -/
inductive Labelled : List Int → σ → List (Except Fault Text) → σ → Prop
  | nil {s : σ} : Labelled [] s [] s
  | cons {id : Int} {ids : List Int} {s s' s'' : σ} {label : Except Fault Text}
      {labels : List (Except Fault Text)} :
      userLabel dir domain id s = (label, s') → Labelled ids s' labels s'' →
        Labelled (id :: ids) s (label :: labels) s''

theorem exists_labelled (ids : List Int) (s : σ) :
    ∃ labels s', Labelled dir domain ids s labels s' := by
  induction ids generalizing s with
  | nil => exact ⟨[], s, .nil⟩
  | cons id ids ih =>
    obtain ⟨labels, s', hrest⟩ := ih (userLabel dir domain id s).2
    exact ⟨_ :: labels, s', .cons rfl hrest⟩

/-- The number that a label writes: the id of the user it links to, else the id that it is for. -/
def writtenId (id : Int) : Option User → Int
  | none => id
  | some user => if (Configuration.nonempty? domain).isSome then user.id else id

variable {dir domain} {ids : List Int} {s s' : σ} {labels : List (Except Fault Text)}

theorem exists_userLabel_eq (domain : Option Text) {id : Int} {found : Option User}
    (h : (dir.findUser id s).1 = .ok found) : ∃ label : Text → Text,
      (userLabel dir domain id s).1 = (Numeral.write (writtenId domain id found)).map label ∧
        ∀ n, ∃ c t, label (Text.ofInt n) = c :: t ∧ c ≠ 'N' := by
  have hanswer : dir.findUser id s = (.ok found, (dir.findUser id s).2) := Prod.ext h rfl
  have hsame : Numeral.write id = (Numeral.write id).map fun t => t := by
    cases Numeral.write id <;> rfl
  have hnumber (n : Int) : ∃ c t, Text.ofInt n = c :: t ∧ c ≠ 'N' := by
    obtain ⟨c, t, hn, hc⟩ := exists_ofInt_eq_cons n
    refine ⟨c, t, hn, ?_⟩
    rintro rfl
    exact absurd hc (by decide)
  rw [userLabel, hanswer]
  cases found with
  | none => exact ⟨_, hsame, hnumber⟩
  | some user =>
    dsimp only
    rw [writtenId]
    cases Configuration.nonempty? domain with
    | none => exact ⟨_, hsame, hnumber⟩
    | some domain =>
      refine ⟨fun w => Html.anchor (domain ++ "/company/personal/user/".toList ++ w) user.name, ?_,
        fun n => ⟨'<', _, rfl, by decide⟩⟩
      rw [Option.isSome_some, if_pos rfl]
      dsimp only
      rw [profileUrl]
      cases Numeral.write user.id <;> rfl

/-- A label does not begin like the text for nobody, and it fails for a long number only. -/
theorem userLabel_cases (h : dir.AnswersUsers) (domain : Option Text) (id : Int) (s : σ) :
    (∃ c t, (userLabel dir domain id s).1 = .ok (c :: t) ∧ c ≠ 'N') ∨
      (userLabel dir domain id s).1 = .error Numeral.tooLong := by
  obtain ⟨found, hfound⟩ := h id s
  obtain ⟨label, hlabel, hhead⟩ := exists_userLabel_eq domain hfound
  rw [hlabel]
  cases hid : Numeral.writable (writtenId domain id found) with
  | true =>
    obtain ⟨c, t, hct, hc⟩ := hhead (writtenId domain id found)
    rw [Numeral.write_of_writable hid]
    exact .inl ⟨c, t, congrArg Except.ok hct, hc⟩
  | false =>
    rw [Numeral.write_of_not_writable hid]
    exact .inr rfl

theorem exists_userLabel_ok (h : dir.AnswersUsers) (hknown : dir.KnowsWritable)
    (domain : Option Text) {id : Int} (hid : Numeral.writable id = true) (s : σ) :
    ∃ text, (userLabel dir domain id s).1 = .ok text := by
  obtain ⟨found, hfound⟩ := h id s
  obtain ⟨label, hlabel, -⟩ := exists_userLabel_eq domain hfound
  have hwritten : Numeral.writable (writtenId domain id found) = true := by
    cases found with
    | none => exact hid
    | some user =>
      rw [writtenId]
      split
      · exact hknown id s user hfound
      · exact hid
  rw [hlabel, Numeral.write_of_writable hwritten]
  exact ⟨_, rfl⟩

theorem Labelled.userLabels_snd (h : Labelled dir domain ids s labels s') :
    (userLabels dir domain ids s).2 = s' := by
  induction h with
  | nil => rfl
  | cons hfirst _ ih => rw [userLabels, hfirst, ← ih]

theorem userLabels_of_ok {id : Int} {text : Text} (h : userLabel dir domain id s = (.ok text, s')) :
    userLabels dir domain (id :: ids) s =
      ((userLabels dir domain ids s').1.map (text :: ·), (userLabels dir domain ids s').2) := by
  rw [userLabels, h]
  rfl

/-- All labels are made, or one of them has a number that is too long. -/
theorem Labelled.cases (h : dir.AnswersUsers) (hl : Labelled dir domain ids s labels s') :
    (∃ texts : List Text, labels = texts.map .ok ∧ userLabels dir domain ids s = (.ok texts, s')) ∨
      .error Numeral.tooLong ∈ labels ∧
        userLabels dir domain ids s = (.error Numeral.tooLong, s') := by
  induction hl with
  | nil => exact .inl ⟨[], rfl, rfl⟩
  | @cons id ids s s₁ s₂ label labels hfirst hrest ih =>
    have hlabel : (userLabel dir domain id s).1 = label := by rw [hfirst]
    rcases userLabel_cases h domain id s with ⟨c, t, hok, -⟩ | herror
    · obtain rfl := hlabel.symm.trans hok
      rcases ih with ⟨texts, rfl, hmade⟩ | ⟨hlong, hmade⟩
      · refine .inl ⟨(c :: t) :: texts, rfl, ?_⟩
        rw [userLabels_of_ok hfirst, hmade]
        rfl
      · refine .inr ⟨List.mem_cons_of_mem _ hlong, ?_⟩
        rw [userLabels_of_ok hfirst, hmade]
        rfl
    · obtain rfl := hlabel.symm.trans herror
      refine .inr ⟨List.mem_cons_self, ?_⟩
      rw [userLabels, hfirst, ← hrest.userLabels_snd]
      rfl

theorem Labelled.exists_eq_map_ok (h : dir.AnswersUsers) (hknown : dir.KnowsWritable)
    (hl : Labelled dir domain ids s labels s') (hids : ∀ id ∈ ids, Numeral.writable id = true) :
    ∃ texts : List Text, labels = texts.map .ok := by
  induction hl with
  | nil => exact ⟨[], rfl⟩
  | @cons id ids s s₁ s₂ label labels hfirst _ ih =>
    obtain ⟨hid, hids⟩ := List.forall_mem_cons.mp hids
    obtain ⟨text, htext⟩ := exists_userLabel_ok h hknown domain hid s
    obtain ⟨texts, rfl⟩ := ih hids
    rw [hfirst] at htext
    exact ⟨text :: texts, by rw [List.map_cons, ← htext]⟩

@[simp] theorem users_note (n : Notice) (s : σ × Transcript) :
    (dir.logged.note n s).2.users = s.2.users := rfl

@[simp] theorem users_noteDomain (s : σ × Transcript) :
    (noteDomain dir.logged domain s).2.users = s.2.users := by
  rw [noteDomain]
  split <;> rfl

theorem users_userLabel (id : Int) (s : σ × Transcript) :
    (userLabel dir.logged domain id s).2.2.users = s.2.users ++ [id] := by
  have hasked : (dir.logged.findUser id s).2.2.users = s.2.users ++ [id] := rfl
  rw [userLabel]
  split <;> rename_i hanswer <;> rw [hanswer] at hasked <;> simpa using hasked

theorem Labelled.users_eq {s s' : σ × Transcript} (h : Labelled dir.logged domain ids s labels s') :
    s'.2.users = s.2.users ++ ids := by
  induction h with
  | nil => rw [List.append_nil]
  | @cons id ids s s₁ s₂ label labels hfirst _ ih =>
    have hasked : s₁.2.users = s.2.users ++ [id] := by
      rw [← users_userLabel id s, hfirst]
    rw [ih, hasked, List.append_assoc, List.singleton_append]

/-! ## Nobody and somebody -/

theorem Labelled.intercalate_ne_nobody (h : dir.AnswersUsers) {texts : List Text}
    (hl : Labelled dir domain ids s (texts.map .ok) s') (hids : ids ≠ []) :
    List.intercalate ", ".toList texts ≠ nobody := by
  generalize hlabels : texts.map Except.ok = labels at hl
  cases hl with
  | nil => exact absurd rfl hids
  | @cons id _ _ _ _ label _ hfirst _ =>
    obtain ⟨text, rest, rfl, rfl, -⟩ := List.map_eq_cons_iff.mp hlabels
    rcases userLabel_cases h domain id s with ⟨c, t, hok, hc⟩ | herror
    · rw [hfirst] at hok
      obtain rfl := Except.ok.inj hok
      intro hjoin
      have hhead : (List.intercalate ", ".toList ((c :: t) :: rest)).head? = some c := by
        cases rest <;> rfl
      rw [hjoin] at hhead
      exact hc (Option.some.inj hhead).symm
    · rw [hfirst] at herror
      cases herror

end

/-- Where users are always answered for, the distinct ids are asked for in the order of their first
occurrences. If each of their labels can be made, the label for the users of a task joins them, and
it is the text for nobody exactly if there are no ids; it fails only for a number that is too long
to be written. So it does not fail if the ids, and those of the users who are found, can be written.
Further copies of an id behind its first occurrence change neither the label nor the failure, nor
the state, nor what is written down on the way. -/
theorem executorsLabel_firstOccurrences {σ : Type} (dir : Directory σ) (h : dir.AnswersUsers)
    (domain : Option Text) (ids : List Int) (s : σ) :
    ∃ result firsts s' log, FirstOccurrences ids firsts ∧
      executorsLabel dir.logged domain ids (s, {}) = (result, s', log) ∧
      (result = .ok nobody ↔ ids = []) ∧
      (ids ≠ [] → ∃ labels, Labelled dir.logged domain firsts (s, {}) labels (s', log) ∧
        ((∃ texts : List Text, labels = texts.map .ok ∧
            result = .ok (List.intercalate ", ".toList texts)) ∨
          .error Numeral.tooLong ∈ labels ∧ result = .error Numeral.tooLong)) ∧
      ((∀ id ∈ ids, Numeral.writable id = true) → dir.KnowsWritable →
        ∃ label, result = .ok label) ∧
      log.users = firsts ∧
      ∀ more, Repeated ids more →
        executorsLabel dir.logged domain more (s, {}) = (result, s', log) := by
  have hfirsts := firstOccurrences_eraseDups ids
  have hcopies : ∀ more, Repeated ids more → executorsLabel dir.logged domain more (s, {}) =
      executorsLabel dir.logged domain ids (s, {}) := by
    intro more hmore
    rw [executorsLabel, executorsLabel, hmore.eraseDups_eq]
  cases ids with
  | nil =>
    exact ⟨.ok nobody, [], _, _, hfirsts, rfl, by simp, fun hids => absurd rfl hids,
      fun _ _ => ⟨_, rfl⟩, rfl, hcopies⟩
  | cons id ids =>
    obtain ⟨labels, ⟨s', log⟩, hlabels⟩ :=
      exists_labelled dir.logged domain (id :: ids).eraseDups (s, {})
    have hrun : executorsLabel dir.logged domain (id :: ids) (s, {}) =
        ((userLabels dir.logged domain (id :: ids).eraseDups (s, {})).1.map
          (List.intercalate ", ".toList), s', log) := by
      rw [← hlabels.userLabels_snd]
      simp only [executorsLabel, List.eraseDups_cons]
    have husers : log.users = (id :: ids).eraseDups := hlabels.users_eq
    have hne : (id :: ids).eraseDups ≠ [] := by
      rw [List.eraseDups_cons]
      exact List.cons_ne_nil _ _
    rcases hlabels.cases h.logged with ⟨texts, rfl, hmade⟩ | ⟨hlong, hmade⟩
    · rw [hmade] at hrun
      have hnobody : List.intercalate ", ".toList texts ≠ nobody :=
        hlabels.intercalate_ne_nobody h.logged hne
      exact ⟨_, _, s', log, hfirsts, hrun,
        iff_of_false (fun he => hnobody (Except.ok.inj he)) (List.cons_ne_nil _ _),
        fun _ => ⟨_, hlabels, .inl ⟨texts, rfl, rfl⟩⟩, fun _ _ => ⟨_, rfl⟩, husers,
        fun more hmore => (hcopies more hmore).trans hrun⟩
    · rw [hmade] at hrun
      refine ⟨_, _, s', log, hfirsts, hrun, iff_of_false nofun (List.cons_ne_nil _ _),
        fun _ => ⟨_, hlabels, .inr ⟨hlong, rfl⟩⟩, fun hids hknown => ?_, husers,
        fun more hmore => (hcopies more hmore).trans hrun⟩
      obtain ⟨texts, rfl⟩ := hlabels.exists_eq_map_ok h.logged hknown.logged
        fun id hid => hids id (List.mem_eraseDups.mp hid)
      obtain ⟨text, -, htext⟩ := List.mem_map.mp hlong
      cases htext

def secondKnown : Directory Transcript :=
  .recording (fun id => .ok (if id = 2 then some ⟨2, "Ann".toList⟩ else none)) fun _ => .ok none

theorem executorsLabel_firstOccurrences_again :
    secondKnown.AnswersUsers ∧
      ∃ firsts s' log, FirstOccurrences [2, 1, 2] firsts ∧
        executorsLabel secondKnown.logged (some "https://a".toList) [2, 1, 2] ({}, {}) =
          (.ok "<a href=\"https://a/company/personal/user/2\">Ann</a>, 1".toList, s', log) ∧
        log.users = firsts := by
  have hanswers : secondKnown.AnswersUsers := fun id _ => ⟨_, rfl⟩
  obtain ⟨result, firsts, s', log, hfirsts, hrun, -, -, -, husers, -⟩ :=
    executorsLabel_firstOccurrences secondKnown hanswers (some "https://a".toList) [2, 1, 2] {}
  have hresult :
      (executorsLabel secondKnown.logged (some "https://a".toList) [2, 1, 2] ({}, {})).1 =
      .ok "<a href=\"https://a/company/personal/user/2\">Ann</a>, 1".toList := by decide +kernel
  rw [hrun] at hresult
  refine ⟨hanswers, firsts, s', log, hfirsts, ?_, husers⟩
  rw [hrun, ← hresult]

/-- One user with an id of 4301 digits: there is no label. -/
theorem executorsLabel_overlongId :
    secondKnown.AnswersUsers ∧
      (executorsLabel secondKnown none [Numeral.leastOverlong] {}).1 =
        .error Numeral.tooLong := by
  refine ⟨fun id _ => ⟨_, rfl⟩, ?_⟩
  have hlong := Numeral.write_of_not_writable Numeral.writable_leastOverlong
  generalize (Numeral.leastOverlong : Int) = id at hlong
  have hlabel (s : Transcript) : (userLabel secondKnown none id s).1 = .error Numeral.tooLong := by
    rw [userLabel]
    by_cases hid : id = 2
    · simp [secondKnown, Directory.recording, hid, Configuration.nonempty?, ← hlong]
    · simp [secondKnown, Directory.recording, hid, hlong]
  simp only [executorsLabel, List.eraseDups_cons, List.filter_nil, List.eraseDups_nil, userLabels,
    hlabel]
  rfl

end Task

end TaskBulletin
