import Mathlib.Tactic.SplitIfs
import TaskBulletin.Configuration.Basic
import TaskBulletin.Proofs.Trimming

/-!
# The address of the portal

An address is trimmed before the slashes at its end are dropped. So it begins with a web
scheme and does not end in a slash, but a blank that stood before the slashes is at the end
of the address now, which is then not in normal form.
-/

namespace TaskBulletin

namespace Text

/-! ## What is left after dropping a character from the end -/

theorem exists_append_replicate (c : Char) (t : Text) :
    ∃ k, t = t.rdropWhile (· == c) ++ List.replicate k c ∧
      (t.rdropWhile (· == c)).getLast? ≠ some c := by
  have hrun : t.rtakeWhile (· == c) = List.replicate (t.rtakeWhile (· == c)).length c := by
    rw [List.eq_replicate_iff]
    exact ⟨rfl, fun d hd => by simpa using List.mem_rtakeWhile_imp hd⟩
  refine ⟨_, by rw [← hrun, List.rdropWhile_append_rtakeWhile], fun h => ?_⟩
  obtain ⟨hne, hlast⟩ := List.mem_getLast?_eq_getLast (Option.mem_def.mpr h)
  exact List.rdropWhile_last_not (· == c) t hne (beq_iff_eq.mpr hlast.symm)

end Text

namespace Configuration

open Text

def HasScheme (d : Text) : Prop := "http://".toList <+: d ∨ "https://".toList <+: d

/-- An address with a web scheme, without blanks around it and without a slash at its end. -/
structure NormalAddress (d : Text) : Prop where
  scheme : HasScheme d
  head : ∀ c ∈ d.head?, isBlank c = false
  last : ∀ c ∈ d.getLast?, isBlank c = false ∧ c ≠ '/'

/-- Once trimmed, the text ends in slashes, and before the first of them stands a blank. -/
def BlankBeforeSlashes (t : Text) : Prop :=
  ∃ u b k, isBlank b = true ∧ trim t = u ++ b :: List.replicate (k + 1) '/'

theorem domainNormalForm_eq_some_iff {t d : Text} : domainNormalForm t = .ok (some d) ↔
    (trim t).rdropWhile (· == '/') = d ∧ HasScheme d := by
  rw [List.rdropWhile, domainNormalForm]
  generalize ((trim t).reverse.dropWhile (· == '/')).reverse = stored
  have hscheme : ("http://".toList.isPrefixOf stored || "https://".toList.isPrefixOf stored) =
      true ↔ HasScheme stored := by
    rw [Bool.or_eq_true, List.isPrefixOf_iff_prefix, List.isPrefixOf_iff_prefix, HasScheme]
  have hempty : HasScheme stored → stored.isEmpty = false := by
    rintro (⟨u, rfl⟩ | ⟨u, rfl⟩) <;> rfl
  constructor
  · intro h
    split_ifs at h with hnil hs
    · cases h
    · cases h
      exact ⟨rfl, hscheme.mp hs⟩
  · rintro ⟨rfl, hs⟩
    rw [if_neg (by simp [hempty hs]), if_pos (hscheme.mpr hs)]

theorem HasScheme.head?_eq {d : Text} (h : HasScheme d) : d.head? = some 'h' := by
  rcases h with ⟨u, rfl⟩ | ⟨u, rfl⟩ <;> rfl

section

variable {t d : Text}

theorem HasScheme.not_isBlank_head (h : HasScheme d) : ∀ c ∈ d.head?, isBlank c = false := by
  intro c hc
  rw [h.head?_eq, Option.mem_some_iff] at hc
  rw [← hc]
  decide

/-- A stored address ends in a blank exactly if the blank stood before the slashes that were
dropped. -/
theorem isBlank_last_iff (h : domainNormalForm t = .ok (some d)) :
    (∃ b ∈ d.getLast?, isBlank b = true) ↔ BlankBeforeSlashes t := by
  obtain ⟨hd, -⟩ := domainNormalForm_eq_some_iff.mp h
  obtain ⟨k, htrim, -⟩ := exists_append_replicate '/' (trim t)
  rw [hd] at htrim
  constructor
  · rintro ⟨b, hb, hblank⟩
    obtain ⟨u, hu⟩ := List.getLast?_eq_some_iff.mp hb
    cases k with
    | zero =>
      -- Nothing was dropped, and a trimmed text does not end in a blank.
      rw [List.replicate_zero, List.append_nil] at htrim
      rw [← htrim] at hb
      rw [not_isBlank_of_mem_getLast?_trim hb] at hblank
      cases hblank
    | succ k =>
      refine ⟨u, b, k, hblank, ?_⟩
      rw [htrim, hu, List.append_assoc, List.singleton_append]
  · rintro ⟨u, b, k, hblank, hslashes⟩
    have hslash : (b == '/') = false := by
      rw [beq_eq_false_iff_ne]
      rintro rfl
      exact absurd hblank (by decide)
    have hstored : d = u ++ [b] := by
      have hrun : trim t = (u ++ [b]) ++ List.replicate (k + 1) '/' := by
        rw [hslashes, List.append_assoc, List.singleton_append]
      rw [← hd, hrun, rdropWhile_append_of_pos (by simp),
        List.rdropWhile_concat_neg _ _ _ (by simpa using hslash)]
    refine ⟨b, ?_, hblank⟩
    rw [hstored]
    exact List.getLast?_concat

theorem last_ne_slash (h : domainNormalForm t = .ok (some d)) : d.getLast? ≠ some '/' := by
  obtain ⟨hd, -⟩ := domainNormalForm_eq_some_iff.mp h
  obtain ⟨k, -, hlast⟩ := exists_append_replicate '/' (trim t)
  rw [hd] at hlast
  exact hlast

theorem normalAddress_iff (h : domainNormalForm t = .ok (some d)) :
    NormalAddress d ↔ ¬ BlankBeforeSlashes t := by
  obtain ⟨-, hscheme⟩ := domainNormalForm_eq_some_iff.mp h
  rw [← isBlank_last_iff h]
  constructor
  · rintro hnormal ⟨b, hb, hblank⟩
    rw [(hnormal.last b hb).1] at hblank
    cases hblank
  · intro hlast
    refine ⟨hscheme, hscheme.not_isBlank_head, fun c hc => ⟨?_, ?_⟩⟩
    · exact Bool.eq_false_iff.mpr fun hblank => hlast ⟨c, hc, hblank⟩
    · rintro rfl
      exact last_ne_slash h hc

theorem domainNormalForm_eq_self_iff : domainNormalForm d = .ok (some d) ↔ NormalAddress d := by
  constructor
  · intro h
    rw [normalAddress_iff h, ← isBlank_last_iff h]
    obtain ⟨hd, -⟩ := domainNormalForm_eq_some_iff.mp h
    obtain ⟨k, htrim, -⟩ := exists_append_replicate '/' (trim d)
    rw [hd] at htrim
    -- Trimming an address makes it no longer, so nothing was trimmed.
    have hself : trim d = d := by
      have hlength := congrArg List.length htrim
      have hle := length_trim_le d
      rw [List.length_append, List.length_replicate] at hlength
      have hk : k = 0 := by omega
      rw [htrim, hk, List.replicate_zero, List.append_nil]
    rintro ⟨b, hb, hblank⟩
    rw [← hself] at hb
    rw [not_isBlank_of_mem_getLast?_trim hb] at hblank
    cases hblank
  · intro h
    rw [domainNormalForm_eq_some_iff, trim_eq_self h.head fun c hc => (h.last c hc).1]
    refine ⟨List.rdropWhile_eq_self_iff.mpr fun hne hslash => ?_, h.scheme⟩
    exact (h.last _ (List.getLast_mem_getLast? hne)).2 (beq_iff_eq.mp hslash)

end

/-! ## The address of a configuration -/

theorem domain_of_readWith {read : Readers} {given : Setting → Option Value} {c : Configuration}
    (h : readWith read given = .ok c) : readOr (given .domain) none readDomain = .ok c.domain := by
  rw [readWith] at h
  split at h
  · rename_i hdomain _ _ _ _ _ _
    cases h
    exact hdomain
  · cases h

theorem exists_webhookUrl?_eq {c : Configuration} {d url : Text} (hd : c.domain = some d)
    (h : c.webhookUrl? = some url) : ∃ rest, url = d ++ "/rest/".toList ++ rest := by
  simp only [webhookUrl?, Option.bind_eq_bind, Option.bind_eq_some_iff, hd] at h
  obtain ⟨domain, hdomain, user, -, token, -, hurl⟩ := h
  have hsame : domain = d := by
    cases d with
    | nil => cases hdomain
    | cons b d => exact (Option.some.inj hdomain).symm
  refine ⟨user ++ ['/'] ++ token ++ ['/'], ?_⟩
  rw [← Option.some.inj hurl, hsame]
  simp only [List.append_assoc]

/-- However the other settings are read, an address that is stored has a web scheme, does not begin
with a blank and does not end in a slash, and the address that calls are sent to goes on behind it.
It does not end in a blank either, and it is left as it is when it is read again, exactly if no
blank stood before the slashes that were dropped from its end. -/
theorem domain_normal_iff {read : Readers} {given : Setting → Option Value} {c : Configuration}
    {t : Text} (hgiven : given .domain = some (.text t)) (hc : readWith read given = .ok c) :
    ∀ d, c.domain = some d →
      HasScheme d ∧ (∀ b ∈ d.head?, isBlank b = false) ∧ d.getLast? ≠ some '/' ∧
        (∀ url, c.webhookUrl? = some url → ∃ rest, url = d ++ "/rest/".toList ++ rest) ∧
        (NormalAddress d ↔ ¬ BlankBeforeSlashes t) ∧
        (domainNormalForm d = .ok (some d) ↔ ¬ BlankBeforeSlashes t) := by
  intro d hd
  have hread : domainNormalForm t = .ok (some d) := by
    have hdomain := domain_of_readWith hc
    rw [hgiven, hd] at hdomain
    exact hdomain
  obtain ⟨-, hscheme⟩ := domainNormalForm_eq_some_iff.mp hread
  have hnormal := normalAddress_iff hread
  refine ⟨hscheme, hscheme.not_isBlank_head, last_ne_slash hread,
    fun url => exists_webhookUrl?_eq hd, hnormal, ?_⟩
  rw [domainNormalForm_eq_self_iff, hnormal]

def givenWebhook (t : Text) : Setting → Option Value
  | .domain => some (.text t)
  | .webhookUser => some (.text ['1'])
  | .token => some (.text ['k'])
  | _ => none

theorem exists_ofGiven_givenWebhook {t : Text} {domain : Option Text}
    (h : domainNormalForm t = .ok domain) :
    ∃ c, ofGiven (givenWebhook t) = .ok c ∧ c.domain = domain ∧ c.webhookUser = some ['1'] ∧
      c.token = some ['k'] := by
  have hread : readOr (givenWebhook t .domain) none readDomain = .ok domain := h
  refine ⟨⟨domain, some ['1'], some ['k'], defaultTimeout, defaultBodyLength, .info, false⟩,
    ?_, rfl, rfl, rfl⟩
  simp only [ofGiven, readWith, hread]
  rfl

def paddedAddress : Text := " https://a.example// ".toList

theorem domain_normal_iff_padded :
    ∃ c, ofGiven (givenWebhook paddedAddress) = .ok c ∧ c.domain = some "https://a.example".toList ∧
      ¬ BlankBeforeSlashes paddedAddress ∧
      domainNormalForm "https://a.example".toList = .ok (some "https://a.example".toList) := by
  have hread : domainNormalForm paddedAddress = .ok (some "https://a.example".toList) := rfl
  obtain ⟨c, hc, hdomain, -, -⟩ := exists_ofGiven_givenWebhook hread
  obtain ⟨-, -, -, -, -, hagain⟩ := domain_normal_iff rfl hc _ hdomain
  have hself : domainNormalForm "https://a.example".toList =
    .ok (some "https://a.example".toList) := rfl
  exact ⟨c, hc, hdomain, hagain.mp hself, hself⟩

/-- A blank before the last slash is stored, stands in the address of calls, and is dropped when the
stored address is read again. -/
theorem domain_not_normal_blankBeforeSlash :
    ∃ c, ofGiven (givenWebhook "https://a.example /".toList) = .ok c ∧
      c.domain = some "https://a.example ".toList ∧ ¬ NormalAddress "https://a.example ".toList ∧
      c.webhookUrl? = some "https://a.example /rest/1/k/".toList ∧
      domainNormalForm "https://a.example ".toList = .ok (some "https://a.example".toList) := by
  have hread : domainNormalForm "https://a.example /".toList =
    .ok (some "https://a.example ".toList) := rfl
  obtain ⟨c, hc, hdomain, huser, htoken⟩ := exists_ofGiven_givenWebhook hread
  refine ⟨c, hc, hdomain, fun hnormal => ?_, ?_, rfl⟩
  · exact absurd (hnormal.last ' ' (by decide)).1 (by decide)
  · rw [webhookUrl?, token?, hdomain, huser, htoken]
    decide

end Configuration

end TaskBulletin
