import TaskBulletin.Proofs.Spelling
import TaskBulletin.Bracket.Conversion
import Mathlib.Data.List.Induction

/-!
# Texts made of parts

A text may be a concatenation of parts of some kind: characters, and longer parts
that no pass cuts. A character that stands in no longer part is a seam. A pass whose
matches begin and end with seams leaves a text of parts, if it makes parts of each
match; so do splitting, joining and trimming.
-/

namespace TaskBulletin.Text

open Pattern

inductive MadeOf (Part : Text → Prop) : Text → Prop
  | nil : MadeOf Part []
  | append {w t : Text} : Part w → MadeOf Part t → MadeOf Part (w ++ t)

/-- A part by itself that stands in no other part. -/
structure Seam (Part : Text → Prop) (c : Char) : Prop where
  part : Part [c]
  eq_of_mem : ∀ w, Part w → c ∈ w → w = [c]

section

variable {Part Whole : Text → Prop} {c : Char} {t u v : Text}

namespace MadeOf

theorem of_part (h : Part t) : MadeOf Part t := by
  rw [← List.append_nil t]
  exact .append h .nil

theorem concat (ht : MadeOf Part t) (hu : MadeOf Part u) : MadeOf Part (t ++ u) := by
  induction ht with
  | nil => exact hu
  | append hw _ ih =>
    rw [List.append_assoc]
    exact .append hw ih

theorem cons (hc : Part [c]) (ht : MadeOf Part t) : MadeOf Part (c :: t) :=
  .append hc ht

theorem expand (h : ∀ w, Whole w → MadeOf Part w) (ht : MadeOf Whole t) : MadeOf Part t := by
  induction ht with
  | nil => exact .nil
  | append hw _ ih => exact (h _ hw).concat ih

theorem of_forall (h : ∀ c ∈ t, Part [c]) : MadeOf Part t := by
  induction t with
  | nil => exact .nil
  | cons c t ih =>
    exact .cons (h c (List.mem_cons_self ..)) (ih fun d hd => h d (List.mem_cons_of_mem _ hd))

theorem cut (hc : Seam Part c) (h : MadeOf Part (u ++ c :: v)) : MadeOf Part u ∧ MadeOf Part v := by
  generalize ht : u ++ c :: v = t at h
  induction h generalizing u with
  | nil => simp at ht
  | @append w t hw h ih =>
    rcases List.append_eq_append_iff.mp ht with ⟨x, rfl, hx⟩ | ⟨x, rfl, hx⟩
    · cases x with
      | nil =>
        obtain ⟨-, hv⟩ := ih (u := []) hx
        rw [List.append_nil] at hw
        exact ⟨.of_part hw, hv⟩
      | cons d x =>
        obtain ⟨rfl, rfl⟩ := List.cons.inj hx
        have he := hc.eq_of_mem _ hw (by simp)
        cases u with
        | nil =>
          obtain ⟨-, rfl⟩ := List.cons.inj he
          exact ⟨.nil, h⟩
        | cons e u => simp at he
    · obtain ⟨hu, hv⟩ := ih hx.symm
      exact ⟨.append hw hu, hv⟩

/-- A character that stands in parts as their first begins a part wherever it stands. -/
theorem cut_head (hc : ∀ w, Part w → c ∉ w.tail) (h : MadeOf Part (u ++ c :: v)) :
    ∃ w t, Part (c :: w) ∧ v = w ++ t ∧ MadeOf Part u ∧ MadeOf Part t := by
  generalize hs : u ++ c :: v = s at h
  induction h generalizing u with
  | nil => simp at hs
  | @append w t hw h ih =>
    rcases List.append_eq_append_iff.mp hs with ⟨x, hx, hx'⟩ | ⟨x, rfl, hx⟩
    · cases x with
      | nil =>
        obtain ⟨w', t', hpart, hv, -, hrest⟩ := ih (u := []) hx'
        rw [List.append_nil] at hx
        exact ⟨w', t', hpart, hv, hx ▸ .of_part hw, hrest⟩
      | cons d x =>
        obtain ⟨rfl, rfl⟩ := List.cons.inj hx'
        rw [hx] at hw
        cases u with
        | nil => exact ⟨x, t, hw, rfl, .nil, h⟩
        | cons e u =>
          have hm : c ∈ (e :: u ++ c :: x).tail := by simp
          exact absurd hm (hc _ hw)
    · obtain ⟨w', t', hpart, hv, hu, hrest⟩ := ih hx.symm
      exact ⟨w', t', hpart, hv, .append hw hu, hrest⟩

/-- A character that begins no longer part can be taken off in front. -/
theorem tail (hc : ∀ w, Part w → w.head? = some c → w = [c]) (h : MadeOf Part (c :: t)) :
    MadeOf Part t := by
  generalize ht : c :: t = u at h
  induction h with
  | nil => cases ht
  | @append w u hw h ih =>
    cases w with
    | nil => exact ih ht
    | cons d w =>
      obtain ⟨rfl, rfl⟩ := List.cons.inj ht
      obtain ⟨-, rfl⟩ := List.cons.inj (hc _ hw rfl)
      exact h

theorem drop (hu : ∀ c ∈ u, ∀ w, Part w → w.head? = some c → w = [c]) (h : MadeOf Part (u ++ t)) :
    MadeOf Part t := by
  induction u with
  | nil => exact h
  | cons c u ih =>
    exact ih (fun d hd => hu d (List.mem_cons_of_mem _ hd)) (h.tail (hu c (List.mem_cons_self ..)))

/-- A character that ends no longer part can be taken off at the end. -/
theorem init (hc : ∀ w, Part w → w.getLast? = some c → w = [c]) (h : MadeOf Part (t ++ [c])) :
    MadeOf Part t := by
  generalize ht : t ++ [c] = u at h
  induction h generalizing t with
  | nil => simp at ht
  | @append w u hw h ih =>
    rcases List.append_eq_append_iff.mp ht with ⟨x, rfl, hx⟩ | ⟨x, rfl, hx⟩
    · cases x with
      | nil =>
        rw [List.append_nil] at hw
        exact .of_part hw
      | cons d x =>
        obtain ⟨rfl, hnil⟩ := List.cons.inj hx
        obtain ⟨rfl, rfl⟩ := List.append_eq_nil_iff.mp hnil.symm
        have he := hc _ hw (by simp)
        cases t with
        | nil => exact .nil
        | cons e t => simp at he
    · exact .append hw (ih hx.symm)

end MadeOf

/-! ## Trimming -/

/-- A character that neither begins nor ends a longer part. -/
def Loose (Part : Text → Prop) (c : Char) : Prop :=
  ∀ w, Part w → w.head? = some c ∨ w.getLast? = some c → w = [c]

namespace MadeOf

theorem dropWhile (hl : ∀ c, isBlank c = true → Loose Part c) (h : MadeOf Part t) :
    MadeOf Part (t.dropWhile isBlank) := by
  induction t with
  | nil => exact h
  | cons c t ih =>
    rw [List.dropWhile_cons]
    split
    · rename_i hc
      exact ih (h.tail fun w hw hh => hl c hc w hw (.inl hh))
    · exact h

theorem trimEnd (hl : ∀ c, isBlank c = true → Loose Part c) (h : MadeOf Part t) :
    MadeOf Part (trimEnd t) := by
  induction t using List.reverseRecOn with
  | nil => exact h
  | append_singleton t c ih =>
    unfold Text.trimEnd
    rw [List.reverse_append, List.reverse_singleton, List.singleton_append, List.dropWhile_cons]
    split
    · rename_i hc
      exact ih (h.init fun w hw hh => hl c hc w hw (.inr hh))
    · simpa using h

theorem trim (hl : ∀ c, isBlank c = true → Loose Part c) (h : MadeOf Part t) :
    MadeOf Part (trim t) :=
  (h.dropWhile hl).trimEnd hl

theorem limitLineFeeds (hn : Seam Part '\n') (h : MadeOf Part t) (seen : Nat) :
    MadeOf Part (limitLineFeeds seen t) := by
  induction h generalizing seen with
  | nil => exact .nil
  | @append w t hw _ ih =>
    by_cases hm : '\n' ∈ w
    · obtain rfl := hn.eq_of_mem w hw hm
      rw [List.singleton_append, Text.limitLineFeeds, if_pos rfl]
      split
      · exact .cons hn.part (ih _)
      · exact ih seen
    · cases w with
      | nil => exact ih seen
      | cons d w =>
        rw [limitLineFeeds_append (by simp) hm]
        exact .append hw (ih 0)

theorem unifyLineEnds (hn : Seam Part '\n') (hr : Seam Part '\r') (h : MadeOf Part t) :
    MadeOf Part (unifyLineEnds t) := by
  induction h with
  | nil => exact .nil
  | @append w t hw _ ih =>
    by_cases hm : '\r' ∈ w
    · obtain rfl := hr.eq_of_mem w hw hm
      rw [List.singleton_append, unifyLineEnds_return]
      refine .cons hn.part ?_
      split
      · rename_i hh
        obtain ⟨u, rfl⟩ := List.head?_eq_some_iff.mp hh
        rw [unifyLineEnds_cons (by decide)] at ih
        exact (ih.cut (u := []) hn).2
      · exact ih
    · rw [unifyLineEnds_append hm]
      exact .append hw ih

theorem normalizeSpacing (hl : ∀ c, isBlank c = true → Loose Part c) (hn : Seam Part '\n')
    (hr : Seam Part '\r') (h : MadeOf Part t) : MadeOf Part (normalizeSpacing t) :=
  ((h.unifyLineEnds hn hr).limitLineFeeds hn 0).trim hl

end MadeOf

/-! ## Passes -/

def Seamed {α : Type} (Part : Text → Prop) (p : Pattern α) : Prop :=
  ∀ a, p.Reads a → ∃ c m d, Seam Part c ∧ Seam Part d ∧ p.spelling a = c :: (m ++ [d])

variable {α : Type} {p : Pattern α} {f : α → Text}

theorem seamed_of_begins_ends {d : Char} (hc : Seam Part c) (hd : Seam Part d) (hne : c ≠ d)
    (hb : p.Begins c) (he : p.Ends d) : Seamed Part p := by
  intro a h
  obtain ⟨m, hm⟩ := hb.exists_spelling h
  obtain ⟨n, hn⟩ := he a h
  rw [hm] at hn
  cases n with
  | nil => exact absurd (List.cons.inj hn).1 hne
  | cons e n =>
    obtain ⟨-, rfl⟩ := List.cons.inj hn
    exact ⟨c, n, d, hc, hd, hm⟩

/-- A list of pieces is a run of characters, or begins with a run and a match. -/
theorem pieces_induction {motive : List (Piece α) → Prop}
    (run : ∀ w : Text, motive (w.map .plain))
    (hit : ∀ (w : Text) a ps, motive ps → motive (w.map .plain ++ .hit a :: ps))
    (ps : List (Piece α)) : motive ps := by
  suffices h : ∀ w : Text, motive (w.map .plain ++ ps) from h []
  induction ps with
  | nil =>
    intro w
    rw [List.append_nil]
    exact run w
  | cons piece ps ih =>
    intro w
    cases piece with
    | plain c =>
      have h := ih (w ++ [c])
      rwa [List.map_append, List.append_assoc] at h
    | hit a => exact hit w a ps (ih [])

namespace MadeOf

theorem cut_spelling {a : α} {rest : Text}
    (hs : ∃ c m d, Seam Part c ∧ Seam Part d ∧ p.spelling a = c :: (m ++ [d]))
    (h : MadeOf Part (u ++ (p.spelling a ++ rest))) :
    MadeOf Part u ∧ MadeOf Part (p.spelling a) ∧ MadeOf Part rest := by
  obtain ⟨c, m, d, hc, hd, he⟩ := hs
  rw [he, List.cons_append, List.append_assoc, List.singleton_append] at h
  obtain ⟨hu, h⟩ := h.cut hc
  obtain ⟨hm, hrest⟩ := h.cut hd
  rw [he]
  exact ⟨hu, .cons hc.part (hm.concat (.of_part hd.part)), hrest⟩

theorem writeWith {ps : List (Piece α)}
    (hs : ∀ a, .hit a ∈ ps → ∃ c m d, Seam Part c ∧ Seam Part d ∧ p.spelling a = c :: (m ++ [d]))
    (hf : ∀ a, .hit a ∈ ps → MadeOf Part (p.spelling a) → MadeOf Part (f a))
    (h : MadeOf Part (writeWith p.spelling ps)) : MadeOf Part (writeWith f ps) := by
  induction ps using pieces_induction with
  | run w =>
    rw [writeWith_map_plain] at h ⊢
    exact h
  | hit w a ps ih =>
    rw [writeWith_append, writeWith_map_plain, Pattern.writeWith] at h ⊢
    have ha : .hit a ∈ w.map .plain ++ .hit a :: ps := by simp
    have hmem {b : α} (hb : .hit b ∈ ps) : .hit b ∈ w.map .plain ++ .hit a :: ps :=
      List.mem_append_right _ (List.mem_cons_of_mem _ hb)
    obtain ⟨hw, hspelled, hrest⟩ := h.cut_spelling (hs a ha)
    exact hw.concat ((hf a ha hspelled).concat
      (ih (fun b hb => hs b (hmem hb)) (fun b hb => hf b (hmem hb)) hrest))

/-- A pass leaves a text of parts. -/
theorem rewrite (hp : Seamed Part p)
    (hf : ∀ a ∈ p.hits t, MadeOf Part (p.spelling a) → MadeOf Part (f a)) (h : MadeOf Part t) :
    MadeOf Part (p.rewrite f t) := by
  rw [← p.writeWith_spelling_pieces t] at h
  exact h.writeWith (fun a ha => hp a (reads_of_mem_pieces ha)) fun a ha =>
    hf a (mem_hits_iff.mpr ha)

theorem content {β γ : Type} {opener : Pattern β} {allowed : Char → Bool} {closer : Pattern γ}
    {d : Char} (hc : Seam Part c) (hd : Seam Part d) (ho : opener.Ends c) (hb : closer.Begins d)
    {s : Span β γ} (hs : (between opener allowed closer).Reads s)
    (h : MadeOf Part ((between opener allowed closer).spelling s)) :
    MadeOf Part (opener.spelling s.opener) ∧ MadeOf Part s.content := by
  obtain ⟨hopen, -, hclose⟩ := hs.between
  obtain ⟨m, hm⟩ := ho _ hopen
  obtain ⟨n, hn⟩ := hb.exists_spelling hclose
  have he : (between opener allowed closer).spelling s = m ++ c :: (s.content ++ d :: n) := by
    rw [spelling_between, hm, hn, List.append_assoc, List.append_assoc, List.singleton_append]
  rw [he] at h
  obtain ⟨hmm, h⟩ := h.cut hc
  obtain ⟨hcontent, -⟩ := h.cut hd
  rw [hm]
  exact ⟨hmm.concat (.of_part hc.part), hcontent⟩

theorem split (hp : Seamed Part p) (h : MadeOf Part t) : ∀ run ∈ p.split t, MadeOf Part run := by
  have hread := fun a (ha : .hit a ∈ p.pieces t) => hp a (reads_of_mem_pieces ha)
  rw [← p.writeWith_spelling_pieces t] at h
  rw [Pattern.split]
  generalize p.pieces t = ps at h hread
  induction ps using pieces_induction with
  | run w =>
    have hr : runsOf (w.map .plain : List (Piece α)) = [w] := by
      have hr := @runsOf_map_plain_append α w []
      simpa [runsOf] using hr
    rw [writeWith_map_plain] at h
    rw [hr]
    intro run hrun
    rw [List.mem_singleton.mp hrun]
    exact h
  | hit w a ps ih =>
    rw [writeWith_append, writeWith_map_plain, Pattern.writeWith] at h
    obtain ⟨hw, -, hrest⟩ := h.cut_spelling (hread a (by simp))
    have ih := ih hrest fun b hb => hread b (List.mem_append_right _ (List.mem_cons_of_mem _ hb))
    intro run hrun
    rw [runsOf_map_plain_append, runsOf, List.modifyHead_cons, List.append_nil] at hrun
    rcases List.mem_cons.mp hrun with rfl | hrun
    · exact hw
    · exact ih run hrun

theorem intercalate {sep : Text} (hs : MadeOf Part sep) {ts : List Text}
    (h : ∀ t ∈ ts, MadeOf Part t) : MadeOf Part (List.intercalate sep ts) := by
  induction ts with
  | nil => exact .nil
  | cons t ts ih =>
    have ht := h t (List.mem_cons_self ..)
    have hts := ih fun u hu => h u (List.mem_cons_of_mem _ hu)
    cases ts with
    | nil => rwa [List.intercalate_singleton]
    | cons u us =>
      rw [List.intercalate_cons_cons]
      exact (ht.concat hs).concat hts

end MadeOf

end

end TaskBulletin.Text
