import TaskBulletin.Text.Basic

/-!
# Escaping for chat HTML

Text needs three characters escaped: the ampersand and both angle brackets. A
value between double quotes needs the double quote escaped as well. Each
character is written on its own, so escaping distributes over concatenation and
nothing it writes is escaped a second time.
-/

namespace TaskBulletin.Html

def escapeChar : Char → Text
  | '&' => "&amp;".toList
  | '<' => "&lt;".toList
  | '>' => "&gt;".toList
  | c => [c]

def escape (t : Text) : Text := t.flatMap escapeChar

def escapeQuote : Char → Text
  | '"' => "&quot;".toList
  | c => [c]

/-- Escape only double quotes, for a value that is escaped already otherwise. -/
def escapeDoubleQuotes (t : Text) : Text := t.flatMap escapeQuote

/-- Escape a plain value for use between double quotes. -/
def escapeValue (t : Text) : Text := escapeDoubleQuotes (escape t)

/-- An element without attributes. -/
def element (name content : Text) : Text :=
  '<' :: name ++ '>' :: content ++ '<' :: '/' :: name ++ ['>']

/-- An anchor whose target and body are HTML already. -/
def anchorRaw (target body : Text) : Text :=
  "<a href=\"".toList ++ target ++ "\">".toList ++ body ++ "</a>".toList

/-- An anchor from a plain target and a plain body. -/
def anchor (target body : Text) : Text := anchorRaw (escapeValue target) (escape body)

@[simp] theorem escape_nil : escape [] = [] := rfl

@[simp] theorem escape_append (t u : Text) : escape (t ++ u) = escape t ++ escape u :=
  List.flatMap_append

@[simp] theorem escapeDoubleQuotes_append (t u : Text) :
    escapeDoubleQuotes (t ++ u) = escapeDoubleQuotes t ++ escapeDoubleQuotes u :=
  List.flatMap_append

theorem escapeChar_of_ne {c : Char} (hamp : c ≠ '&') (hlt : c ≠ '<') (hgt : c ≠ '>') :
    escapeChar c = [c] := by
  unfold escapeChar
  split
  · exact absurd rfl hamp
  · exact absurd rfl hlt
  · exact absurd rfl hgt
  · rfl

/-- The names of the entities that escaping writes. -/
def entityNames : List Text := ["amp", "lt", "gt"].map String.toList

/-- An escaped character is an entity, or the character as it is. -/
theorem escapeChar_cases (c : Char) :
    (c ∉ ['&', '<', '>'] ∧ escapeChar c = [c]) ∨
      c ∈ ['&', '<', '>'] ∧ ∃ name ∈ entityNames, escapeChar c = '&' :: (name ++ [';']) := by
  by_cases hc : c ∈ ['&', '<', '>']
  · have hentity : ∀ c ∈ ['&', '<', '>'], ∃ name ∈ entityNames,
        escapeChar c = '&' :: (name ++ [';']) := by decide
    exact .inr ⟨hc, hentity c hc⟩
  · simp only [List.mem_cons, List.not_mem_nil, or_false, not_or] at hc
    exact .inl ⟨by simpa using hc, escapeChar_of_ne hc.1 hc.2.1 hc.2.2⟩

theorem escapeQuote_of_ne {c : Char} (hc : c ≠ '"') : escapeQuote c = [c] := by
  unfold escapeQuote
  split
  · exact absurd rfl hc
  · rfl

theorem escape_cons (c : Char) (t : Text) : escape (c :: t) = escapeChar c ++ escape t :=
  List.flatMap_cons

theorem escapeDoubleQuotes_cons (c : Char) (t : Text) :
    escapeDoubleQuotes (c :: t) = escapeQuote c ++ escapeDoubleQuotes t :=
  List.flatMap_cons

theorem escapeDoubleQuotes_of_notMem {t : Text} (ht : '"' ∉ t) : escapeDoubleQuotes t = t := by
  induction t with
  | nil => rfl
  | cons c t ih =>
    rw [List.mem_cons, not_or] at ht
    rw [escapeDoubleQuotes_cons, escapeQuote_of_ne (Ne.symm ht.1), ih ht.2]
    rfl

/-- Escaping adds the characters of three entities. -/
theorem mem_escape {t : Text} {c : Char} (h : c ∈ escape t) : c ∈ t ∨ c ∈ "&ampltg;".toList := by
  obtain ⟨d, hd, hc⟩ := List.mem_flatMap.mp h
  rcases escapeChar_cases d with ⟨-, he⟩ | ⟨-, name, hn, he⟩
  · rw [he, List.mem_singleton] at hc
    rw [hc]
    exact .inl hd
  · have hentity : ∀ name ∈ entityNames, '&' :: (name ++ [';']) ⊆ "&ampltg;".toList := by decide
    rw [he] at hc
    exact .inr (hentity name hn hc)

theorem ne_angle_of_mem_escape {t : Text} {c : Char} (h : c ∈ escape t) : c ≠ '<' ∧ c ≠ '>' := by
  obtain ⟨d, -, hc⟩ := List.mem_flatMap.mp h
  rcases escapeChar_cases d with ⟨hd, he⟩ | ⟨-, name, hn, he⟩
  · rw [he, List.mem_singleton] at hc
    simp only [List.mem_cons, not_or] at hd
    rw [hc]
    exact ⟨hd.2.1, hd.2.2.1⟩
  · have hentity : ∀ name ∈ entityNames, ∀ c ∈ '&' :: (name ++ [';']), c ≠ '<' ∧ c ≠ '>' := by
      decide
    rw [he] at hc
    exact hentity name hn c hc

theorem mem_escape_of_mem {t : Text} {c : Char} (h : c ∈ t) (hc : escapeChar c = [c]) :
    c ∈ escape t := by
  refine List.mem_flatMap.mpr ⟨c, h, ?_⟩
  rw [hc]
  exact List.mem_singleton_self c

theorem mem_escapeDoubleQuotes {t : Text} {c : Char} (h : c ∈ escapeDoubleQuotes t) :
    c ∈ t ∨ c ∈ "&quot;".toList := by
  obtain ⟨d, hd, hc⟩ := List.mem_flatMap.mp h
  unfold escapeQuote at hc
  split at hc
  · exact .inr hc
  · rw [List.mem_singleton] at hc
    rw [hc]
    exact .inl hd

theorem ne_angle_of_mem_escapeValue {t : Text} {c : Char} (h : c ∈ escapeValue t) :
    c ≠ '<' ∧ c ≠ '>' := by
  rcases mem_escapeDoubleQuotes h with h | h
  · exact ne_angle_of_mem_escape h
  · have hentity : ∀ c ∈ "&quot;".toList, c ≠ '<' ∧ c ≠ '>' := by decide
    exact hentity c h

end TaskBulletin.Html
