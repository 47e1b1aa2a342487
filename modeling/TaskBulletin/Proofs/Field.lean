import TaskBulletin.Bracket.Stash
import TaskBulletin.Proofs.Reading

/-!
# The fields of a text

A text falls into the stretches between its NUL characters. Replacing a token,
which is a name between two NULs, is a pass over the fields: reading from the
left, a field with that name that has a NUL on both sides goes, and what stands
for it joins the fields around it. The NULs it used delimit nothing else then.
-/

namespace TaskBulletin.Text

/-- The stretch before the first NUL, and the stretches that follow each NUL. -/
def fields : Text → Text × List Text
  | [] => ([], [])
  | c :: t =>
    if c = '\x00' then ([], (fields t).1 :: (fields t).2)
    else (c :: (fields t).1, (fields t).2)

@[simp] theorem fields_nil : fields [] = ([], []) := rfl

theorem fields_nul_cons (t : Text) :
    fields ('\x00' :: t) = ([], (fields t).1 :: (fields t).2) := by
  simp [fields]

theorem fields_cons {c : Char} (hc : c ≠ '\x00') (t : Text) :
    fields (c :: t) = (c :: (fields t).1, (fields t).2) := by
  simp [fields, hc]

theorem fields_append {u : Text} (hu : '\x00' ∉ u) (t : Text) :
    fields (u ++ t) = (u ++ (fields t).1, (fields t).2) := by
  induction u with
  | nil => rfl
  | cons c u ih =>
    obtain ⟨hc, hu⟩ := not_or.mp (fun h => hu (List.mem_cons.mpr h))
    rw [List.cons_append, fields_cons (Ne.symm hc), ih hu]
    rfl

theorem fields_of_nul_notMem {t : Text} (ht : '\x00' ∉ t) : fields t = (t, []) := by
  simpa using fields_append ht []

theorem fields_join (t : Text) : (fields t).1 ++ (fields t).2.flatMap ('\x00' :: ·) = t := by
  induction t with
  | nil => rfl
  | cons c t ih =>
    by_cases hc : c = '\x00'
    · subst hc
      simpa [fields_nul_cons] using ih
    · simpa [fields_cons hc] using ih

theorem nul_notMem_iff {t : Text} : '\x00' ∉ t ↔ (fields t).2 = [] := by
  constructor
  · intro ht
    rw [fields_of_nul_notMem ht]
  · intro h
    induction t with
    | nil => simp
    | cons c t ih =>
      by_cases hc : c = '\x00'
      · simp [hc, fields_nul_cons] at h
      · rw [fields_cons hc] at h
        simpa [Ne.symm hc] using ih h

theorem nul_notMem_fields (t : Text) :
    '\x00' ∉ (fields t).1 ∧ ∀ field ∈ (fields t).2, '\x00' ∉ field := by
  induction t with
  | nil => simp
  | cons c t ih =>
    by_cases hc : c = '\x00'
    · subst hc
      simpa [fields_nul_cons] using ih
    · simpa [fields_cons hc, Ne.symm hc] using ih

/-- The fields after the token `name` was replaced; `first` is the field that is
being put together. -/
def replaceFields (name new : Text) : (first : Text) → List Text → Text × List Text
  | first, [] => (first, [])
  | first, [field] => (first, [field])
  | first, field :: next :: rest =>
    if field = name then replaceFields name new (first ++ new ++ next) rest
    else
      let r := replaceFields name new field (next :: rest)
      (first, r.1 :: r.2)

section

variable {name new : Text}

theorem replaceFields_cons_name (first next : Text) (rest : List Text) :
    replaceFields name new first (name :: next :: rest) =
      replaceFields name new (first ++ new ++ next) rest := by
  rw [replaceFields, if_pos rfl]

theorem replaceFields_cons_ne {field : Text} (h : field ≠ name) (first next : Text)
    (rest : List Text) :
    replaceFields name new first (field :: next :: rest) =
      (first, (replaceFields name new field (next :: rest)).1 ::
        (replaceFields name new field (next :: rest)).2) := by
  rw [replaceFields, if_neg h]

theorem replaceFields_append (u first : Text) (rest : List Text) :
    replaceFields name new (u ++ first) rest =
      (u ++ (replaceFields name new first rest).1, (replaceFields name new first rest).2) := by
  fun_induction replaceFields name new first rest generalizing u with
  | case1 => rfl
  | case2 => rfl
  | case3 first next rest ih =>
    rw [replaceFields_cons_name]
    simpa only [List.append_assoc] using ih u
  | case4 first field next rest h r _ => rw [replaceFields_cons_ne h]

theorem prefix_replaceFields (first : Text) (rest : List Text) :
    first <+: (replaceFields name new first rest).1 := by
  have h := @replaceFields_append name new first [] rest
  rw [List.append_nil] at h
  rw [h]
  exact List.prefix_append ..

theorem fields_replace (hname : '\x00' ∉ name) (hnew : '\x00' ∉ new) (t : Text) :
    fields (Text.replace ('\x00' :: name ++ ['\x00']) new t) =
      replaceFields name new (fields t).1 (fields t).2 := by
  induction h : t.length using Nat.strong_induction_on generalizing t with
  | _ n ih =>
    subst h
    cases t with
    | nil => simp [replaceFields]
    | cons c t =>
      have iht := ih t.length (by simp) t rfl
      by_cases hc : c = '\x00'
      · subst hc
        rw [fields_nul_cons]
        by_cases htok : ∃ rest, t = name ++ '\x00' :: rest
        · obtain ⟨rest, rfl⟩ := htok
          have ihr := ih rest.length (by simp; omega) rest rfl
          rw [fields_append hname, fields_nul_cons, List.append_nil, replaceFields_cons_name,
            List.nil_append, replaceFields_append, ← ihr]
          have heq : '\x00' :: (name ++ '\x00' :: rest) =
              ('\x00' :: name ++ ['\x00']) ++ rest := by simp
          rw [heq, replace_append (by simp), fields_append hnew]
        · have hne : ∀ rest, '\x00' :: t ≠ ('\x00' :: name ++ ['\x00']) ++ rest := by
            intro rest heq
            exact htok ⟨rest, by simpa using heq⟩
          rw [replace_cons hne, fields_nul_cons, iht]
          cases hf : (fields t).2 with
          | nil => rfl
          | cons next rest =>
            have hfirst : (fields t).1 ≠ name := by
              intro hfirst
              refine htok ⟨next ++ rest.flatMap ('\x00' :: ·), ?_⟩
              conv_lhs => rw [← fields_join t, hf, hfirst]
              simp
            rw [replaceFields_cons_ne hfirst]
      · have hne : ∀ rest, c :: t ≠ ('\x00' :: name ++ ['\x00']) ++ rest := by
          intro rest heq
          exact hc (List.cons.inj heq).1
        rw [replace_cons hne, fields_cons hc, fields_cons hc, iht]
        exact (replaceFields_append [c] _ _).symm

end

end TaskBulletin.Text
