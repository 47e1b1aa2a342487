import TaskBulletin.Proofs.RecodedResolution
import TaskBulletin.Proofs.StandIn

/-!
# Every special character is escaped once

A conversion is run on a text and on the text with stand-ins for the ampersand
and the angle brackets. Both runs find the same references and ask the same
questions, and the first result is the second with the entities revealed: no
pass escapes a character twice or leaves one unescaped.
-/

namespace TaskBulletin

open Pattern Recoding

namespace StandIns

variable {S : StandIns}

theorem decodable_hideCode : S.hideCode.Decodable := by
  intro c d hc hd u v h
  have hcd : S.hideChar c = S.hideChar d := (List.cons.inj h).1
  rw [← S.unhideChar_hideChar hc, hcd, S.unhideChar_hideChar hd]

end StandIns

namespace Bracket

section

variable (S : StandIns)

def hideMention (m : Mention) : Mention :=
  recodeSpan S.hideCode (recodeSpan S.hideCode id id) id m

/-- The resolution with everything of the text hidden. -/
def Resolution.hide (r : Resolution) : Resolution where
  tags := r.tags.recode S.hideCode
  files := r.files
  mentions := r.mentions.map fun x => (hideMention S x.1, x.2)
  text := S.hide r.text

theorem Resolution.recode_hideCode (r : Resolution) : r.recode S.hideCode = r.hide S := by
  rw [Resolution.recode, S.hideCode_recode]
  rfl

theorem fileIds_recode (R : Recoding) (i : Interruption) : (i.recode R).fileIds = i.fileIds := by
  obtain ⟨numeral, files, _ | found⟩ := i <;> rfl

end

variable {S : StandIns} {file : Int → Except Text (Option DiskFile)} {user : Int → Except Text Text}

theorem avoids_ofInt (n : Int) : S.Avoids (Text.ofInt n) :=
  S.hideCode_knows.mp (knows_of_not_quiet fun _ hc => Text.isQuiet_of_mem_ofInt hc)

/-- What is written without private-use characters stays as it is when stand-ins are revealed. -/
theorem spares_revealCode : S.revealCode.SparesMarkup where
  known _ := trivial
  code_markup c hc := by
    have hp : ∀ c ∈ "&<>\n".toList, isPrivateUse c = false := by decide
    exact S.revealChar_of_not_isStandIn (StandIns.not_isStandIn (hp c hc))
  code_lineEnd x hx := by
    have hp : ∀ c ∈ ['\r', '\n'], isPrivateUse c = false := by decide
    exact S.revealChar_of_not_isStandIn (StandIns.not_isStandIn (hp x hx))
  notMem_code x hx c hc := by
    have he : ∀ w ∈ ["&amp;", "&lt;", "&gt;"].map String.toList, ∀ x ∈ ['\r', '\n'], x ∉ w := by
      decide
    change x ∉ S.revealChar c
    rcases S.revealChar_cases c with ⟨-, h⟩ | ⟨-, h⟩ | ⟨-, h⟩ | ⟨-, h⟩
    · rw [h]
      exact he _ (by simp) x hx
    · rw [h]
      exact he _ (by simp) x hx
    · rw [h]
      exact he _ (by simp) x hx
    · rw [h, List.mem_singleton]
      exact Ne.symm hc

theorem resolve_hide {source : Text} (hs : S.Avoids source) :
    resolve (S.hide source) = ((resolve source).map (Resolution.hide S)).mapError
      (Interruption.recode S.hideCode) := by
  have hhide : Resolution.hide S = Resolution.recode S.hideCode :=
    funext fun r => (Resolution.recode_hideCode S r).symm
  rw [← S.hideCode_recode, hhide]
  exact resolve_recode S.decodable_hideCode S.keeps_line_hideCode (S.hideCode_knows.mpr hs)

/-- The restored text is the restored text of the hidden resolution, revealed. -/
theorem restored_hide {source : Text} (hs : S.Avoids source) {r : Resolution}
    (h : resolve source = .ok r)
    (hfile : ∀ id f, file id = .ok (some f) → S.Avoids f.name ∧ S.Avoids f.url)
    (huser : ∀ id link, user id = .ok link → S.Avoids link) :
    r.restored file user = S.reveal ((r.hide S).restored file user) := by
  have hescape (c : Char) (_ : same.known c) (hc : S.hideCode.known c) :
      Html.escape (same.code c) = S.revealCode.recode (Html.escape (S.hideCode.code c)) := by
    have hsingle (d : Char) : Html.escape [d] = Html.escapeChar d := List.flatMap_singleton ..
    change Html.escape [c] = S.reveal (Html.escape [S.hideChar c])
    rw [hsingle, hsingle, S.reveal_escape_hideChar hc]
  have hfiles (x) (hx : x ∈ r.fileOutcomes file) (f : DiskFile) (hf : x.2 = some (.found f)) :
      S.revealCode.Fixes f.name ∧ S.revealCode.Fixes f.url := by
    obtain ⟨⟨tag, id⟩, -, rfl⟩ := List.mem_map.mp hx
    obtain ⟨id, -, ho⟩ := Option.map_eq_some_iff.mp hf
    have hfound := hfile id f (FileOutcome.ofAnswer_eq_found ho)
    exact ⟨S.fixes_revealCode hfound.1, S.fixes_revealCode hfound.2⟩
  have hlinks (x) (hx : x ∈ r.userOutcomes user) (id : Int) (link : Text)
      (hl : x.2 = some (.linked id link)) : S.revealCode.Fixes link := by
    obtain ⟨⟨m, id⟩, -, rfl⟩ := List.mem_map.mp hx
    obtain ⟨id, -, ho⟩ := Option.map_eq_some_iff.mp hl
    exact S.fixes_revealCode (huser id link (UserOutcome.ofAnswer_eq_linked ho))
  have hmentions (x) (hx : x ∈ r.userOutcomes user) : ∃ y ∈ r.mentions, y.1 = x.1 := by
    obtain ⟨y, hy, rfl⟩ := List.mem_map.mp hx
    exact ⟨y, hy, rfl⟩
  have hfilled := filled_recode (spares_revealCode (S := S)).toSparesRules hescape
    (knows_same source) (S.hideCode_knows.mpr hs) h hfiles hmentions hlinks
  have husers : (r.hide S).userOutcomes user =
      (r.userOutcomes user).map fun x => (recodeMention S.hideCode x.1, x.2) := by
    simp only [Resolution.userOutcomes, Resolution.hide, List.map_map]
    rfl
  rw [Resolution.recode_same, Resolution.recode_hideCode] at hfilled
  simp only [recodeMention_same, Prod.mk.eta, List.map_id'] at hfilled
  rw [Resolution.restored_eq_filled, Resolution.restored_eq_filled, husers]
  exact hfilled

/-- What is converted from a text is what is converted from the hidden text, with the
entities revealed, and the same files and users are asked for, also by a conversion that fails. -/
theorem convert_eq_reveal_convert_hide (S : StandIns) {source : Text} (hs : S.Avoids source)
    (hfile : ∀ id f, file id = .ok (some f) → S.Avoids f.name ∧ S.Avoids f.url)
    (huser : ∀ id link, user id = .ok link → S.Avoids link) :
    (outcome (convert (.recording file user) source .empty)).map id Transcript.asked =
      (outcome (convert (.recording file user) (S.hide source) .empty)).map
        (Except.map S.reveal) Transcript.asked := by
  rw [convert_recording, convert_recording, resolve_hide hs]
  cases h : resolve source with
  | error i =>
    simp only [Except.map, Except.mapError, outcome, Prod.map_apply, id_eq,
      asked_askBefore_recording, fileIds_recode]
    rfl
  | ok r =>
    have hfinish := finish_recode (spares_revealCode (S := S)) ((r.hide S).restored file user)
    rw [S.revealCode_recode, S.revealCode_recode] at hfinish
    have husers : (r.hide S).mentions.filterMap (fun x => x.2.map Int.ofNat) =
        r.mentions.filterMap fun x => x.2.map Int.ofNat := by
      rw [Resolution.hide, List.filterMap_map]
      rfl
    simp only [Except.map, Except.mapError, outcome, Prod.map_apply, id_eq, Transcript.asked,
      restored_hide hs h hfile huser, hfinish, Resolution.transcript, husers]
    rfl

/-- A link with an escaped target, a mention with a label and a file with a name. -/
theorem convert_hide_link_mention_file :
    StandIns.first.Avoids "[URL=a&b][B]x<y[/B][/URL][USER=0]R&D[/USER][DISK FILE ID=n3]".toList ∧
      (outcome (convert
          (.recording (fun id => .ok (some ⟨id, "a>b".toList, "u?v&w".toList⟩)) knowNobody)
          "[URL=a&b][B]x<y[/B][/URL][USER=0]R&D[/USER][DISK FILE ID=n3]".toList .empty)).map
        id Transcript.asked =
      (outcome (convert
          (.recording (fun id => .ok (some ⟨id, "a>b".toList, "u?v&w".toList⟩)) knowNobody)
          (StandIns.first.hide
            "[URL=a&b][B]x<y[/B][/URL][USER=0]R&D[/USER][DISK FILE ID=n3]".toList) .empty)).map
        (Except.map StandIns.first.reveal) Transcript.asked := by
  have hsource : StandIns.first.Avoids
      "[URL=a&b][B]x<y[/B][/URL][USER=0]R&D[/USER][DISK FILE ID=n3]".toList := by
    decide +kernel
  have hname : StandIns.first.Avoids "a>b".toList := by decide +kernel
  have hurl : StandIns.first.Avoids "u?v&w".toList := by decide +kernel
  refine ⟨hsource,
    convert_eq_reveal_convert_hide _ hsource (fun id f hf => ?_) fun id link hl => ?_⟩
  · obtain rfl := Option.some.inj (Except.ok.inj hf)
    exact ⟨hname, hurl⟩
  · obtain rfl := eq_ofInt_of_knowNobody hl
    exact avoids_ofInt id

end Bracket

end TaskBulletin
