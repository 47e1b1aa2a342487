import TaskBulletin.Proofs.Rereading
import TaskBulletin.Proofs.Resolution
import Mathlib.Data.List.Basic

/-!
# Texts in segments

A text is often known as a row of segments, each of which a pattern reads whole or reads
nowhere in. The matches of such a text are its segments, and to put tokens for some of
the matches is to put them for whole segments: no match reaches over a seam, and none is
found inside a token that was put before.
-/

namespace TaskBulletin

theorem Stash.stow_of_forall_skip {α : Type} {p : Pattern α} {skip : Text → Bool} {t : Text}
    (h : ∀ a ∈ p.hits t, skip (p.spelling a) = true) (s : Stash) : s.stow p skip t = (t, s) := by
  have ht := p.writeWith_spelling_pieces t
  simp only [Pattern.mem_hits_iff] at h
  rw [← ht, stow]
  conv_rhs => rw [← ht]
  rw [ht]
  generalize p.pieces t = ps at h ⊢
  induction ps with
  | nil => rfl
  | cons piece ps ih =>
    have ih := ih fun a ha => h a (List.mem_cons_of_mem _ ha)
    cases piece with
    | plain c => rw [stowPieces, ih, Pattern.writeWith]
    | hit a => rw [stowPieces, if_pos (h a (List.mem_cons_self ..)), ih, Pattern.writeWith]

namespace Pattern

variable {α ι : Type} {p : Pattern α}

/-- The pattern reads this wherever it is spelled, whatever follows. -/
def Always (p : Pattern α) (a : α) : Prop := ∀ rest, p.read (p.spelling a ++ rest) = some (a, rest)

theorem SelfDelimiting.always (hp : p.SelfDelimiting) {a : α} (h : p.Reads a) : p.Always a := by
  obtain ⟨t, rest, h⟩ := h
  exact hp h

theorem silent_flatMap {f : ι → Text} {xs : List ι} (h : ∀ x ∈ xs, p.Silent (f x)) :
    p.Silent (xs.flatMap f) := by
  induction xs with
  | nil => trivial
  | cons x xs ih =>
    rw [List.flatMap_cons]
    exact (h x (List.mem_cons_self ..)).append (ih fun y hy => h y (List.mem_cons_of_mem _ hy))

/-- Where the pattern reads nowhere, the spelling of no match is found. -/
theorem Silent.exact {t : Text} (ht : p.Silent t) {a : α} (ha : p.Always a) :
    (Pattern.exact (p.spelling a)).Silent t := by
  induction t with
  | nil => trivial
  | cons c t ih =>
    refine ⟨fun rest => read_exact_eq_none fun u hu => ?_, ih ht.2⟩
    have hread := ht.1 rest
    rw [hu, ha u] at hread
    cases hread

/-- The spelling of one match is not found in another, if the pattern reads nothing inside it. -/
theorem Always.silent_exact {a b : α} (ha : p.Always a) (hb : p.Always b) (hne : b ≠ a)
    (hinside : p.Silent (p.spelling b).tail) :
    (Pattern.exact (p.spelling a)).Silent (p.spelling b) := by
  cases hs : p.spelling b with
  | nil => trivial
  | cons c t =>
    rw [hs] at hinside
    refine ⟨fun rest => read_exact_eq_none fun u hu => ?_, hinside.exact ha⟩
    have hread := hb rest
    rw [hs, List.cons_append, hu, ha u] at hread
    exact hne (Prod.mk.inj (Option.some.inj hread)).1.symm

/-- How a pattern takes the segments of a text: `whole?` says what it reads a segment as. -/
structure Segments (p : Pattern α) (text : ι → Text) (whole? : ι → Option α) (xs : List ι) :
    Prop where
  spelled : ∀ x ∈ xs, ∀ a, whole? x = some a → text x = p.spelling a
  always : ∀ x ∈ xs, ∀ a, whole? x = some a → p.Always a
  inside : ∀ x ∈ xs, ∀ a, whole? x = some a → p.Silent (p.spelling a).tail
  silent : ∀ x ∈ xs, whole? x = none → p.Silent (text x)

namespace Segments

variable {text : ι → Text} {whole? : ι → Option α} {xs : List ι}

theorem tail {x : ι} (h : p.Segments text whole? (x :: xs)) : p.Segments text whole? xs where
  spelled y hy := h.spelled y (List.mem_cons_of_mem _ hy)
  always y hy := h.always y (List.mem_cons_of_mem _ hy)
  inside y hy := h.inside y (List.mem_cons_of_mem _ hy)
  silent y hy := h.silent y (List.mem_cons_of_mem _ hy)

theorem hits_flatMap (h : p.Segments text whole? xs) :
    p.hits (xs.flatMap text) = xs.filterMap whole? := by
  induction xs with
  | nil => exact hits_nil p
  | cons x xs ih =>
    have hx := List.mem_cons_self (a := x) (l := xs)
    cases hw : whole? x with
    | none =>
      rw [List.flatMap_cons, hits_append_of_silent (h.silent x hx hw), ih h.tail,
        List.filterMap_cons_none hw]
    | some a =>
      have hread := h.always x hx a hw (xs.flatMap text)
      rw [List.flatMap_cons, h.spelled x hx a hw, hits, pieces_of_read p hread,
        List.filterMap_cons_some hw, ← ih h.tail]
      rfl

theorem silent_exact (h : p.Segments text whole? xs) {a : α} (ha : p.Always a) {x : ι} (hx : x ∈ xs)
    (hne : whole? x ≠ some a) : (Pattern.exact (p.spelling a)).Silent (text x) := by
  cases hw : whole? x with
  | none => exact (h.silent x hx hw).exact ha
  | some b =>
    rw [h.spelled x hx b hw]
    refine ha.silent_exact (h.always x hx b hw) ?_ (h.inside x hx b hw)
    rintro rfl
    exact hne hw

variable [DecidableEq α]

/-- To replace a match is to replace the segments that are read as it. -/
theorem replace_flatMap (h : p.Segments text whole? xs) {a : α} (ha : p.Always a) (new : Text) :
    Text.replace (p.spelling a) new (xs.flatMap text) =
      xs.flatMap fun x => if whole? x = some a then new else text x := by
  induction xs with
  | nil => exact Text.replace_nil ..
  | cons x xs ih =>
    have hx := List.mem_cons_self (a := x) (l := xs)
    rw [List.flatMap_cons, List.flatMap_cons, ← ih h.tail]
    by_cases hw : whole? x = some a
    · rw [if_pos hw, h.spelled x hx a hw]
      exact Text.replace_append (p.spelling_ne_nil (ha [])) ..
    · rw [if_neg hw]
      exact rewrite_append_of_silent (h.silent_exact ha hx hw) ..

/-- With a segment replaced by something that is not read, there are segments again. -/
theorem replaced (h : p.Segments text whole? xs) (a : α) {new : Text} (hnew : p.Silent new) :
    p.Segments (fun x => if whole? x = some a then new else text x)
      (fun x => if whole? x = some a then none else whole? x) xs := by
  have hsome {x : ι} {b : α} (hb : (if whole? x = some a then none else whole? x) = some b) :
      whole? x ≠ some a ∧ whole? x = some b := by
    split at hb
    · cases hb
    · exact ⟨‹_›, hb⟩
  constructor
  · intro x hx b hb
    obtain ⟨hne, hb⟩ := hsome hb
    rw [if_neg hne]
    exact h.spelled x hx b hb
  · intro x hx b hb
    exact h.always x hx b (hsome hb).2
  · intro x hx b hb
    exact h.inside x hx b (hsome hb).2
  · intro x hx hnone
    by_cases ha : whole? x = some a
    · rw [if_pos ha]
      exact hnew
    · rw [if_neg ha] at hnone
      rw [if_neg ha]
      exact h.silent x hx hnone

/-- A segment, or the token put for it if it is read as one of some matches. -/
def exchanged (token : Nat → Text) (found : List α) (segment : Text) : Option α → Text
  | some a => if a ∈ found then token (found.idxOf a) else segment
  | none => segment

/-- To exchange some matches is to exchange the first, and then the others. -/
theorem exchanged_cons (token : Nat → Text) (a : α) (found : List α) (segment : Text)
    (w : Option α) :
    exchanged token (a :: found) segment w =
      exchanged (fun k => token (k + 1)) found (if w = some a then token 0 else segment)
        (if w = some a then none else w) := by
  by_cases ha : w = some a
  · rw [if_pos ha, if_pos ha, ha, exchanged, if_pos (List.mem_cons_self ..), List.idxOf_cons_self]
    rfl
  · rw [if_neg ha, if_neg ha]
    cases w with
    | none => rfl
    | some b =>
      have hb : b ≠ a := fun h => ha (congrArg some h)
      rw [exchanged, exchanged, List.idxOf_cons_ne _ (Ne.symm hb)]
      simp only [List.mem_cons, hb, false_or]

theorem tokensFor_flatMap (h : p.Segments text whole? xs) {label : Text} {found : List α}
    (hfound : ∀ a ∈ found, p.Always a) (htoken : ∀ k, p.Silent ((Stash.empty label).token k))
    (n : Nat) :
    Stash.tokensFor label n (found.map p.spelling) (xs.flatMap text) =
      xs.flatMap fun x =>
        exchanged (fun k => (Stash.empty label).token (n + k)) found (text x) (whole? x) := by
  induction found generalizing text whole? n with
  | nil =>
    refine List.flatMap_congr fun x _ => ?_
    cases whole? x <;> rfl
  | cons a found ih =>
    have hstep : Stash.tokensFor label n ((a :: found).map p.spelling) (xs.flatMap text) =
        Stash.tokensFor label (n + 1) (found.map p.spelling)
          (Text.replace (p.spelling a) ((Stash.empty label).token n) (xs.flatMap text)) := rfl
    rw [hstep, h.replace_flatMap (hfound a (List.mem_cons_self ..)),
      ih (h.replaced a (htoken n)) fun b hb => hfound b (List.mem_cons_of_mem _ hb)]
    refine List.flatMap_congr fun x _ => ?_
    rw [exchanged_cons]
    simp only [Nat.add_zero, Nat.add_assoc, Nat.add_comm 1]

end Segments

end Pattern

end TaskBulletin
