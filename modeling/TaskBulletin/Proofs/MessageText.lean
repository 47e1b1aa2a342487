import TaskBulletin.Message
import TaskBulletin.Proofs.Nesting
import TaskBulletin.Proofs.PlainBody
import TaskBulletin.Proofs.ReadBack

/-!
# The text of a message

A message of which nothing is HTML already is written with escaped text and three elements,
each around a text that is not empty. Such HTML is nested by its grammar, it is empty exactly
if its text is, and a reader who drops the tags and puts the meant character for each entity
gets the text again. So the chunks that are dropped are those without text.
-/

namespace TaskBulletin

/-! ## Simple HTML -/

namespace Html

open Pattern

/-- HTML in which all angle brackets are those of elements with the given names and no attributes,
one beside or inside another. -/
inductive Nested (names : List Text) : Text → Prop
  | text {t : Text} : (∀ c ∈ t, c ≠ '<' ∧ c ≠ '>') → Nested names t
  | element {name content : Text} :
      name ∈ names → Nested names content → Nested names (element name content)
  | append {t u : Text} : Nested names t → Nested names u → Nested names (t ++ u)

/-- HTML that writes a plain text with escapes, and with elements around parts of it that are not
empty. -/
inductive Writes (names : List Text) : (html plain : Text) → Prop
  | text (t : Text) : Writes names (escape t) t
  | element {name html plain : Text} :
      name ∈ names → plain ≠ [] → Writes names html plain → Writes names (element name html) plain
  | append {html html' plain plain' : Text} : Writes names html plain → Writes names html' plain' →
      Writes names (html ++ html') (plain ++ plain')

/-- The name of an element, spelled as the tag reads it, opens that element. -/
structure Opens (name : Text) : Prop where
  isName : IsName name
  tagRole_eq : tagRole name = .opens name

theorem read_openingTag {name : Text} (h : IsName name) (rest : Text) :
    tag.read ('<' :: (name ++ '>' :: rest)) = some (⟨['<'], name, ['>']⟩, rest) := by
  refine read_tag_eq_some_iff.mpr ⟨rfl, rfl, h.ne_nil, fun c hc => ?_, rfl⟩
  rw [bne_iff_ne]
  rintro rfl
  exact h.angle_notMem hc

variable {names : List Text} {html plain : Text}

namespace Writes

theorem nested (h : Writes names html plain) : Nested names html := by
  induction h with
  | text t => exact .text fun c hc => ne_angle_of_mem_escape hc
  | element hname _ _ ih => exact .element hname ih
  | append _ _ ih ih' => exact .append ih ih'

theorem eq_nil_iff (h : Writes names html plain) : html = [] ↔ plain = [] := by
  induction h with
  | text t => exact escape_eq_nil_iff
  | element _ hne _ _ => exact iff_of_false (List.cons_ne_nil _ _) hne
  | append _ _ ih ih' => rw [List.append_eq_nil_iff, List.append_eq_nil_iff, ih, ih']

/-- The tags are read one by one, whatever follows, and what is between them is the text. -/
theorem exists_pieces (hnames : ∀ name ∈ names, Opens name) (h : Writes names html plain) :
    ∃ ps, (∀ rest, tag.pieces (html ++ rest) = ps ++ tag.pieces rest) ∧
      plainText ps = escape plain ∧ Balanced (rolesOf ps) := by
  induction h with
  | text t =>
    have hangle : '<' ∉ escape t := fun hm => (ne_angle_of_mem_escape hm).1 rfl
    refine ⟨(escape t).map .plain, fun rest => ?_, plainText_map_plain _, ?_⟩
    · exact pieces_append_of_silent (begins_tag.silent hangle) rest
    · rw [rolesOf_map_plain]
      exact balanced_nil
  | @element name html plain hname _ _ ih =>
    obtain ⟨ps, hpieces, htext, hroles⟩ := ih
    have hn := hnames name hname
    refine ⟨.hit ⟨['<'], name, ['>']⟩ :: (ps ++ [.hit (closingSpan name)]), fun rest => ?_, ?_, ?_⟩
    · have hwhole : Html.element name html ++ rest =
          '<' :: (name ++ '>' :: (html ++ (closingTag name ++ rest))) := by
        simp [Html.element, closingTag]
      rw [hwhole, pieces_of_read _ (read_openingTag hn.isName _), hpieces,
        pieces_of_read _ (read_closingTag hn.isName rest)]
      simp
    · simp [htext]
    · rw [rolesOf_hit, rolesOf_append, rolesOf_hit, rolesOf_nil, hn.tagRole_eq, closingSpan,
        tagRole_closingTag hn.isName]
      exact hroles.element name
  | append _ _ ih ih' =>
    obtain ⟨ps, hpieces, htext, hroles⟩ := ih
    obtain ⟨ps', hpieces', htext', hroles'⟩ := ih'
    refine ⟨ps ++ ps', fun rest => ?_, ?_, ?_⟩
    · rw [List.append_assoc, hpieces, hpieces', List.append_assoc]
    · rw [plainText_append, htext, htext', escape_append]
    · rw [rolesOf_append]
      exact hroles.append hroles'

theorem wellNested (hnames : ∀ name ∈ names, Opens name) (h : Writes names html plain) :
    WellNested html := by
  obtain ⟨ps, hpieces, -, hroles⟩ := h.exists_pieces hnames
  apply wellNested_of_balanced
  have hwhole := hpieces []
  rw [List.append_nil, pieces_nil, List.append_nil] at hwhole
  rw [tagRoles, hwhole]
  exact hroles

theorem stripTags_eq (hnames : ∀ name ∈ names, Opens name) (h : Writes names html plain) :
    stripTags html = escape plain := by
  obtain ⟨ps, hpieces, htext, -⟩ := h.exists_pieces hnames
  have hwhole := hpieces []
  rw [List.append_nil, pieces_nil, List.append_nil] at hwhole
  rw [stripTags, rewrite, hwhole]
  exact htext

theorem intercalate {sep : Text} (hsep : escape sep = sep) {htmls plains : List Text}
    (h : List.Forall₂ (Writes names) htmls plains) :
    Writes names (List.intercalate sep htmls) (List.intercalate sep plains) := by
  have hseparator : Writes names sep sep := by
    have hwrites : Writes names (escape sep) sep := .text sep
    rwa [hsep] at hwrites
  induction h with
  | nil => exact .text []
  | cons hfirst hrest ih =>
    cases hrest with
    | nil => rwa [List.intercalate_singleton, List.intercalate_singleton]
    | cons _ _ =>
      rw [List.intercalate_cons_cons, List.intercalate_cons_cons]
      exact (hfirst.append hseparator).append ih

theorem filter {htmls plains : List Text} (h : List.Forall₂ (Writes names) htmls plains) :
    List.Forall₂ (Writes names) (htmls.filter fun t => !t.isEmpty)
      (plains.filter fun t => !t.isEmpty) := by
  induction h with
  | nil => exact .nil
  | @cons html plain htmls plains hfirst _ ih =>
    have hempty : html.isEmpty = plain.isEmpty := by
      rw [Bool.eq_iff_iff, List.isEmpty_iff, List.isEmpty_iff]
      exact hfirst.eq_nil_iff
    rw [List.filter_cons, List.filter_cons, hempty]
    split
    · exact .cons hfirst ih
    · exact ih

end Writes

end Html

/-! ## Messages without raw parts -/

namespace Message

open Html

/-- A part that is not there, or empty. -/
def Missing (t : Option Text) : Prop := t = none ∨ t = some []

/-- Nothing of the message is HTML already. -/
structure Plain (m : Message) : Prop where
  raw : Missing m.raw
  header : Missing m.header
  title : Missing m.title
  sections : ∀ s ∈ m.sections, Missing s.raw

/-- The title of a section, if it has one, and its lines, each on a line. -/
def sectionText (s : Section) : Text := List.intercalate ['\n'] (part id s.title ++ s.lines)

def metadataLineText (field : Text × Value) : Text := field.1 ++ ": ".toList ++ field.2.print

def metadataText (metadata : Assignments Value) : Text :=
  List.intercalate ['\n'] (metadata.map metadataLineText)

/-- The plain chunks of a message that are not empty, one blank line apart. -/
def plainText (m : Message) : Text :=
  List.intercalate "\n\n".toList
    ((part id m.emphasis ++ m.sections.map sectionText ++ [metadataText m.metadata] ++
      part id m.footer).filter fun chunk => !chunk.isEmpty)

def styleNames : List Text := ["i", "u", "b"].map String.toList

theorem opens_styleNames : ∀ name ∈ styleNames, Opens name := by
  have hnames : ∀ name ∈ styleNames, (name ≠ [] ∧ (∀ c ∈ name, c.isAlphanum = true) ∧
      Text.lowerAscii name = name) ∧ tagRole name = .opens name := by decide +kernel
  intro name hname
  obtain ⟨⟨hne, halphanum, hlower⟩, hrole⟩ := hnames name hname
  exact ⟨⟨hne, halphanum, hlower⟩, hrole⟩

theorem Missing.part_eq {t : Option Text} (h : Missing t) (write : Text → Text) :
    part write t = [] := by
  rcases h with rfl | rfl <;> rfl

theorem forall₂_part {name : Text} (hname : name ∈ styleNames) (t : Option Text) :
    List.Forall₂ (Writes styleNames) (part (fun u => element name (escape u)) t) (part id t) := by
  cases t with
  | none => exact .nil
  | some t =>
    cases t with
    | nil => exact .nil
    | cons c t => exact .cons (.element hname (List.cons_ne_nil c t) (.text _)) .nil

theorem forall₂_lines (lines : List Text) :
    List.Forall₂ (Writes styleNames) (lines.map escape) lines := by
  induction lines with
  | nil => exact .nil
  | cons line lines ih => exact .cons (.text line) ih

theorem part_eq (write : Text → Text) (t : Option Text) :
    part write t = [] ∨ ∃ u, part write t = [write u] := by
  cases t with
  | none => exact .inl rfl
  | some t =>
    cases t with
    | nil => exact .inl rfl
    | cons c t => exact .inr ⟨c :: t, rfl⟩

/-- The lines of a section are joined before the title is put above them, and a section without
either has no chunk. -/
theorem filter_sectionChunk {s : Section} (hs : Missing s.raw) :
    (sectionChunk s).filter (fun t => !t.isEmpty) =
      [List.intercalate ['\n'] (part underlined s.title ++ s.lines.map escape)].filter fun t =>
        !t.isEmpty := by
  rw [sectionChunk, hs.part_eq, List.append_nil]
  rcases part_eq underlined s.title with htitle | ⟨title, htitle⟩
  · rw [htitle]
    cases s.lines with
    | nil => rfl
    | cons line lines => simp [sectionLines]
  · rw [htitle]
    cases s.lines with
    | nil => rfl
    | cons line lines => simp [sectionLines, List.intercalate_cons_cons]

theorem forall₂_section {s : Section} (hs : Missing s.raw) :
    List.Forall₂ (Writes styleNames) ((sectionChunk s).filter fun t => !t.isEmpty)
      ([sectionText s].filter fun t => !t.isEmpty) := by
  have hunderlined : ['u'] ∈ styleNames := by decide
  have htitle : List.Forall₂ (Writes styleNames) (part underlined s.title) (part id s.title) :=
    forall₂_part hunderlined s.title
  rw [filter_sectionChunk hs]
  exact Writes.filter
    (.cons (.intercalate rfl (List.rel_append htitle (forall₂_lines s.lines))) .nil)

theorem forall₂_sections {sections : List Section} (h : ∀ s ∈ sections, Missing s.raw) :
    List.Forall₂ (Writes styleNames) ((sections.flatMap sectionChunk).filter fun t => !t.isEmpty)
      ((sections.map sectionText).filter fun t => !t.isEmpty) := by
  induction sections with
  | nil => exact .nil
  | cons s sections ih =>
    have hrest := ih fun s hs => h s (List.mem_cons_of_mem _ hs)
    have hsplit : (s :: sections).map sectionText = [sectionText s] ++ sections.map sectionText :=
      rfl
    rw [List.flatMap_cons, List.filter_append, hsplit, List.filter_append]
    exact List.rel_append (forall₂_section (h s (List.mem_cons_self ..))) hrest

def Writable (m : Message) : Prop := ∀ field ∈ m.metadata, field.2.writable = true

theorem exists_metadataLine {field : Text × Value} (h : field.2.writable = true) :
    ∃ html, metadataLine field = .ok html ∧
      Writes styleNames html (metadataLineText field) := by
  have hbold : ['b'] ∈ styleNames := by decide
  have hkey : Writes styleNames (bold (field.1 ++ [':'])) (field.1 ++ [':']) :=
    .element hbold (by simp) (.text _)
  have hvalue : Writes styleNames (escape (' ' :: field.2.print)) (' ' :: field.2.print) := .text _
  have hline : metadataLineText field = (field.1 ++ [':']) ++ ' ' :: field.2.print := by
    simp [metadataLineText]
  rw [metadataLine, Value.write_of_writable h, hline]
  exact ⟨_, rfl, hkey.append hvalue⟩

theorem exists_metadataLines {metadata : Assignments Value}
    (h : ∀ field ∈ metadata, field.2.writable = true) :
    ∃ lines, metadata.mapM metadataLine = .ok lines ∧
      List.Forall₂ (Writes styleNames) lines (metadata.map metadataLineText) := by
  induction metadata with
  | nil => exact ⟨[], rfl, .nil⟩
  | cons field metadata ih =>
    obtain ⟨hfield, hrest⟩ := List.forall_mem_cons.mp h
    obtain ⟨line, hline, hwrites⟩ := exists_metadataLine hfield
    obtain ⟨lines, hlines, hwritten⟩ := ih hrest
    rw [List.mapM_cons, hline, hlines]
    exact ⟨line :: lines, rfl, .cons hwrites hwritten⟩

theorem metadataLines_of_not_writable {metadata : Assignments Value}
    (h : ∃ field ∈ metadata, field.2.writable = false) :
    metadata.mapM metadataLine = .error Numeral.tooLong := by
  induction metadata with
  | nil => simp at h
  | cons field metadata ih =>
    rw [List.mapM_cons]
    cases hfield : field.2.writable with
    | false =>
      rw [metadataLine, Value.write_of_not_writable hfield]
      rfl
    | true =>
      obtain ⟨line, hline, -⟩ := exists_metadataLine hfield
      have hrest : ∃ field ∈ metadata, field.2.writable = false := by
        simpa [hfield] using h
      rw [hline, ih hrest]
      rfl

theorem exists_metadataChunk {metadata : Assignments Value}
    (h : ∀ field ∈ metadata, field.2.writable = true) :
    ∃ chunk, metadataChunk metadata = .ok chunk ∧
      List.Forall₂ (Writes styleNames) (chunk.filter fun t => !t.isEmpty)
        ([metadataText metadata].filter fun t => !t.isEmpty) := by
  cases metadata with
  | nil => exact ⟨[], rfl, .nil⟩
  | cons field metadata =>
    obtain ⟨lines, hlines, hwritten⟩ := exists_metadataLines h
    refine ⟨[List.intercalate ['\n'] lines], ?_,
      Writes.filter (.cons (.intercalate rfl hwritten) .nil)⟩
    rw [metadataChunk, List.isEmpty_cons, if_neg Bool.false_ne_true, hlines]
    rfl

theorem metadataChunk_of_not_writable {metadata : Assignments Value}
    (h : ∃ field ∈ metadata, field.2.writable = false) :
    metadataChunk metadata = .error Numeral.tooLong := by
  cases metadata with
  | nil => simp at h
  | cons field metadata =>
    rw [metadataChunk, List.isEmpty_cons, if_neg Bool.false_ne_true,
      metadataLines_of_not_writable h]
    rfl

theorem Plain.exists_writes {m : Message} (h : m.Plain) (hm : m.Writable) :
    ∃ html, m.html = .ok html ∧ Writes styleNames html m.plainText := by
  have hitalic : ['i'] ∈ styleNames := by decide
  have hpart (t : Option Text) :
      List.Forall₂ (Writes styleNames) ((part italic t).filter fun t => !t.isEmpty)
        ((part id t).filter fun t => !t.isEmpty) := Writes.filter (forall₂_part hitalic t)
  obtain ⟨metadata, hmetadata, hwritten⟩ := exists_metadataChunk hm
  rw [html, h.raw.part_eq, chunks, h.header.part_eq, h.title.part_eq, hmetadata, plainText]
  refine ⟨_, rfl, .intercalate rfl ?_⟩
  simp only [List.nil_append, List.filter_append]
  exact List.rel_append (List.rel_append (List.rel_append (hpart m.emphasis)
    (forall₂_sections h.sections)) hwritten) (hpart m.footer)

theorem Plain.html_of_not_writable {m : Message} (h : m.Plain) (hm : ¬ m.Writable) :
    m.html = .error Numeral.tooLong := by
  have hlong : ∃ field ∈ m.metadata, field.2.writable = false := by
    simpa [Writable] using hm
  rw [html, h.raw.part_eq, chunks, metadataChunk_of_not_writable hlong]
  rfl

/-- Whatever a message of which nothing is HTML says, as long as it lists no number that is too long
to be written: its HTML has no angle brackets but those of properly nested elements for emphasis,
titles and keys, and without its tags and with its entities decoded it is the plain text of the
message. A message that lists such a number has no HTML. -/
theorem html_of_plain (m : Message) (h : m.Plain) :
    (m.Writable → ∃ html, m.html = .ok html ∧ Nested styleNames html ∧ WellNested html ∧
        decode textEntities (stripTags html) = m.plainText) ∧
      (¬ m.Writable → m.html = .error Numeral.tooLong) := by
  refine ⟨fun hm => ?_, h.html_of_not_writable⟩
  obtain ⟨html, hhtml, hwrites⟩ := h.exists_writes hm
  have hdecoded : decode textEntities (escape m.plainText) = m.plainText :=
    decode_escape (List.forall_mem_nil _) m.plainText
  refine ⟨html, hhtml, hwrites.nested, hwrites.wellNested opens_styleNames, ?_⟩
  rw [hwrites.stripTags_eq opens_styleNames, hdecoded]

/-- Every field looks like markup, and one section has nothing but an empty line. -/
def lookalikes : Message where
  header := some []
  emphasis := some "<i>&amp;".toList
  sections := [{ lines := [[]] }, { title := some "</u>".toList, lines := ["a < b".toList, []] }]
  metadata := [("<b>".toList, .text "&lt;".toList)]
  footer := some "</i>".toList

theorem html_of_plain_lookalikes :
    lookalikes.Plain ∧ lookalikes.Writable ∧
      ∃ html, lookalikes.html = .ok html ∧ Nested styleNames html ∧ WellNested html ∧
        decode textEntities (stripTags html) =
          "<i>&amp;\n\n</u>\na < b\n\n\n<b>: &lt;\n\n</i>".toList := by
  have hplain : lookalikes.Plain :=
    { raw := .inl rfl, header := .inr rfl, title := .inl rfl
      sections := fun s hs => by
        rcases List.mem_cons.mp hs with rfl | hs
        · exact .inl rfl
        · rw [List.mem_singleton.mp hs]
          exact .inl rfl }
  have hwritable : lookalikes.Writable := fun field hfield => by
    rw [List.mem_singleton.mp hfield]
    rfl
  obtain ⟨html, hhtml, hnested, hwell, hdecoded⟩ := (html_of_plain lookalikes hplain).1 hwritable
  refine ⟨hplain, hwritable, html, hhtml, hnested, hwell, ?_⟩
  rw [hdecoded]
  decide

def listing (n : Int) : Message where
  metadata := [("n".toList, .int n)]

theorem plain_listing (n : Int) : (listing n).Plain where
  raw := .inl rfl
  header := .inl rfl
  title := .inl rfl
  sections := List.forall_mem_nil _

theorem writable_listing_iff {n : Int} : (listing n).Writable ↔ Numeral.writable n = true := by
  simp [Writable, listing, Value.writable]

/-- A number of 4301 digits keeps a message from having any HTML. -/
theorem html_listing_overlong :
    (listing Numeral.leastOverlong).Plain ∧
      ∀ html, (listing Numeral.leastOverlong).html ≠ .ok html := by
  have hplain := plain_listing Numeral.leastOverlong
  have hlong := Numeral.writable_leastOverlong
  generalize (Numeral.leastOverlong : Int) = n at hplain hlong ⊢
  have hwritable : ¬ (listing n).Writable := by
    rw [writable_listing_iff, hlong]
    exact Bool.false_ne_true
  refine ⟨hplain, fun html hhtml => ?_⟩
  rw [hplain.html_of_not_writable hwritable] at hhtml
  cases hhtml

end Message

end TaskBulletin
