import TaskBulletin.Proofs.CallEnding
import Mathlib.Tactic.SplitIfs

/-!
# Missing files and broken answers

A file is missing only if the portal says so, in an answer that is no server error and whose
body is an object: by one of two error codes, or without an error by a result that is absent or
empty. It is found only if the result of such an answer describes it. Every other exchange is a
failure, so that neither an outage nor a malformed answer is taken for a missing file, and no
missing file for a failure. The failure for a malformed answer names the file, and an id that is
too long to be written makes it a failure of another kind.
-/

namespace TaskBulletin.Portal

open TaskBulletin.Bracket (DiskFile)

/-! ## Values that can be written -/

theorem writable_of_lookup {key : String} {fields : Body} {v : Value}
    (h : (Value.object fields).writable = true) (hv : Value.lookup key fields = some v) :
    v.writable = true := by
  induction fields with
  | nil => cases hv
  | cons field fields ih =>
    obtain ⟨name, w⟩ := field
    obtain ⟨hw, hrest⟩ := Bool.and_eq_true_iff.mp h
    rw [Value.lookup, List.find?_cons] at hv
    split at hv
    · obtain rfl : w = v := Option.some.inj hv
      exact hw
    · exact ih hrest hv

/-! ## Results that describe a file -/

/-- The whole number that a value is read as. -/
inductive WholeNumber : Value → Int → Prop
  | int (n : Int) : WholeNumber (.int n) n
  | bool (b : Bool) : WholeNumber (.bool b) (if b then 1 else 0)
  | text {t : Text} {n : Int} (h : Numeral.readInt? t = some n) : WholeNumber (.text t) n
  | float {x : Float} {n : Int} (h : (Binary64.parts x).truncate? = some n) :
    WholeNumber (.float x) n

def Infinite (v : Value) : Prop :=
  ∃ x negative, v = .float x ∧ Binary64.parts x = .infinite negative

/-- The result of a call is an object that describes a file. -/
def Describes (result : Value) (file : DiskFile) : Prop :=
  ∃ fields id name url, result = .object fields ∧
    Value.lookup "ID" fields = some id ∧ WholeNumber id file.id ∧
    Value.lookup "NAME" fields = some name ∧ name.write = .ok file.name ∧
    Value.lookup "DOWNLOAD_URL" fields = some url ∧ url.write = .ok file.url

theorem Describes.holds {result : Value} {file : DiskFile} (h : Describes result file) :
    result.holds = true := by
  obtain ⟨fields, id, _, _, rfl, hid, -⟩ := h
  cases fields with
  | nil => cases hid
  | cons field fields => rfl

/-- The result of a call is an object with an infinite number for an id. -/
def HasInfiniteId (result : Value) : Prop :=
  ∃ fields id, result = .object fields ∧ Value.lookup "ID" fields = some id ∧ Infinite id

theorem readId_of_not_infinite {v : Value} (h : ¬ Infinite v) :
    ∃ id?, readId v = .ok id? ∧ ∀ n, id? = some n ↔ WholeNumber v n := by
  cases v with
  | int m =>
    refine ⟨some m, rfl, fun n => ⟨?_, ?_⟩⟩
    · rintro ⟨⟩
      exact .int m
    · rintro ⟨⟩
      rfl
  | bool b =>
    refine ⟨some (if b then 1 else 0), rfl, fun n => ⟨?_, ?_⟩⟩
    · rintro ⟨⟩
      exact .bool b
    · rintro ⟨⟩
      rfl
  | text t =>
    refine ⟨Numeral.readInt? t, rfl, fun n => ⟨.text, ?_⟩⟩
    rintro ⟨⟩
    assumption
  | float x =>
    have hread : readId (.float x) = .ok (Binary64.parts x).truncate? := by
      unfold readId
      dsimp only
      split
      · rename_i negative hx
        exact absurd ⟨x, negative, rfl, hx⟩ h
      · rfl
    refine ⟨_, hread, fun n => ⟨.float, ?_⟩⟩
    rintro ⟨⟩
    assumption
  | null => exact ⟨none, rfl, fun n => ⟨nofun, nofun⟩⟩
  | list items => exact ⟨none, rfl, fun n => ⟨nofun, nofun⟩⟩
  | object fields => exact ⟨none, rfl, fun n => ⟨nofun, nofun⟩⟩

/-- A result is read as the file that it describes, if it describes one. -/
theorem readFile_of_not_hasInfiniteId {v : Value} (h : ¬ HasInfiniteId v)
    (hwritable : v.writable = true) :
    ∃ file?, readFile v = .ok file? ∧ ∀ f, file? = some f ↔ Describes v f := by
  unfold Describes
  cases v with
  | object fields =>
    unfold readFile
    dsimp only
    cases hid : Value.lookup "ID" fields with
    | none => exact ⟨none, rfl, by simp [hid]⟩
    | some id =>
      have hfinite : ¬ Infinite id := fun hi => h ⟨fields, id, rfl, hid, hi⟩
      obtain ⟨id?, hread, hwhole⟩ := readId_of_not_infinite hfinite
      have hwrite {key : String} {w : Value} (hw : Value.lookup key fields = some w) :
          w.write = .ok w.print :=
        Value.write_of_writable (writable_of_lookup hwritable hw)
      dsimp only
      rw [hread]
      refine ⟨_, rfl, fun f => ?_⟩
      simp only [Option.bind_eq_bind, Option.bind_eq_some_iff, hwhole, Option.pure_def,
        Option.some.injEq]
      constructor
      · rintro ⟨n, hn, name, hname, url, hurl, rfl⟩
        exact ⟨fields, id, name, url, rfl, hid, hn, hname, hwrite hname, hurl, hwrite hurl⟩
      · rintro ⟨fields', id', name, url, hobject, hid', hn, hname, hfname, hurl, hfurl⟩
        obtain rfl := Value.object.inj hobject
        obtain rfl := Option.some.inj (hid.symm.trans hid')
        rw [hwrite hname] at hfname
        rw [hwrite hurl] at hfurl
        exact ⟨f.id, hn, name, hname, url, hurl, by rw [Except.ok.inj hfname, Except.ok.inj hfurl]⟩
  | _ => exact ⟨none, rfl, by simp⟩

/-! ## What an exchange says of a file -/

namespace Exchange

def TimedOut (x : Exchange) : Prop := ∃ f, x.fault? = some f ∧ f.kind.isTimeout = true

/-- The exchange brought this object, with a status that is no server error. -/
def Brought (x : Exchange) (body : Body) : Prop := x.status < 500 ∧ x.object? = some body

def SaysMissing (x : Exchange) : Prop :=
  ∃ body, x.Brought body ∧
    ((∃ error, Value.lookup "error" body = some error ∧
        (error.print = "ERROR_NOT_FOUND".toList ∨ error.print = "NOT_FOUND".toList)) ∨
      (Value.lookup "error" body = none ∧
        ∀ result, Value.lookup "result" body = some result → result.holds = false))

def SaysFound (x : Exchange) (file : DiskFile) : Prop :=
  ∃ body result, x.Brought body ∧ Value.lookup "error" body = none ∧
    Value.lookup "result" body = some result ∧ Describes result file

/-- The portal brings a result, and it describes no file. -/
def BringsMalformed (x : Exchange) : Prop :=
  ∃ body result, x.Brought body ∧ Value.lookup "error" body = none ∧
    Value.lookup "result" body = some result ∧ result.holds = true ∧ ∀ f, ¬ Describes result f

/-- The portal brings a malformed result, and the failure for it cannot name the file: the id that
was asked for is too long to be written. -/
def CannotName (x : Exchange) (id : Int) : Prop :=
  x.BringsMalformed ∧ Numeral.writable id = false

/-- The object of an answer has a result with an infinite number for an id. -/
def BringsInfiniteId (x : Exchange) : Prop :=
  ∃ body result, x.object? = some body ∧ Value.lookup "result" body = some result ∧
    HasInfiniteId result

/-- A call fails for a timeout exactly if there was one, and for the portal or the way to it
otherwise. -/
def FailsWith (x : Exchange) (e : CallError) : Prop :=
  (x.TimedOut ∧ ∃ method, e = .timedOut method) ∨ (¬ x.TimedOut ∧ e.details?.isSome)

theorem Brought.unique {x : Exchange} {body body' : Body} (h : x.Brought body)
    (h' : x.Brought body') : body = body' :=
  Option.some.inj (h.2.symm.trans h'.2)

theorem Brought.exists_iff {x : Exchange} {body : Body} (h : x.Brought body) {p : Body → Prop} :
    (∃ b, x.Brought b ∧ p b) ↔ p body := by
  constructor
  · rintro ⟨b, hb, hp⟩
    rwa [h.unique hb]
  · exact fun hp => ⟨body, h, hp⟩

theorem writable_of_object? {x : Exchange} {body : Body} (h : x.object? = some body) :
    (Value.object body).writable = true := by
  unfold object? at h
  split at h
  · obtain rfl := Option.some.inj h
    assumption
  · cases h

theorem Brought.saysMissing_iff {x : Exchange} {body : Body} (h : x.Brought body) :
    x.SaysMissing ↔
      (∃ error, Value.lookup "error" body = some error ∧
        (error.print = "ERROR_NOT_FOUND".toList ∨ error.print = "NOT_FOUND".toList)) ∨
      (Value.lookup "error" body = none ∧
        ∀ result, Value.lookup "result" body = some result → result.holds = false) :=
  h.exists_iff

theorem Brought.saysFound_iff {x : Exchange} {body : Body} (h : x.Brought body) {f : DiskFile} :
    x.SaysFound f ↔ ∃ result, Value.lookup "error" body = none ∧
      Value.lookup "result" body = some result ∧ Describes result f := by
  simp only [SaysFound, exists_and_left]
  exact h.exists_iff

theorem Brought.bringsMalformed_iff {x : Exchange} {body : Body} (h : x.Brought body) :
    x.BringsMalformed ↔ ∃ result, Value.lookup "error" body = none ∧
      Value.lookup "result" body = some result ∧ result.holds = true ∧
        ∀ f, ¬ Describes result f := by
  simp only [BringsMalformed, exists_and_left]
  exact h.exists_iff

theorem BringsMalformed.not_saysMissing {x : Exchange} (h : x.BringsMalformed) :
    ¬ x.SaysMissing := by
  obtain ⟨body, result, hbody, herror, hresult, hholds, -⟩ := h
  rw [hbody.saysMissing_iff, herror]
  rintro (⟨_, hnone, -⟩ | ⟨-, hempty⟩)
  · cases hnone
  · rw [hempty result hresult] at hholds
    cases hholds

theorem BringsMalformed.not_saysFound {x : Exchange} (h : x.BringsMalformed) (f : DiskFile) :
    ¬ x.SaysFound f := by
  obtain ⟨body, result, hbody, -, hresult, -, hnot⟩ := h
  rw [hbody.saysFound_iff, hresult]
  rintro ⟨_, -, ⟨⟩, hf⟩
  exact hnot f hf

theorem Brought.fault?_eq_none {x : Exchange} {body : Body} (h : x.Brought body) :
    x.fault? = none := by
  obtain ⟨-, ho⟩ := h
  unfold object? at ho
  split at ho
  · rfl
  · cases ho

theorem Brought.not_serverError {x : Exchange} {body : Body} (h : x.Brought body) :
    ¬ 500 ≤ x.status := by
  have := h.1
  omega

theorem Brought.ending_of_error {x : Exchange} {body : Body} (h : x.Brought body) {error : Value}
    (herror : Value.lookup "error" body = some error) :
    x.ending = .refused x.status error.print := by
  simp [ending, h.fault?_eq_none, h.not_serverError, h.2, herror]

theorem Brought.ending_of_no_error {x : Exchange} {body : Body} (h : x.Brought body)
    (herror : Value.lookup "error" body = none) : x.ending = .body body := by
  simp [ending, h.fault?_eq_none, h.not_serverError, h.2, herror]

theorem Brought.not_timedOut {x : Exchange} {body : Body} (h : x.Brought body) : ¬ x.TimedOut := by
  rintro ⟨f, hf, -⟩
  rw [h.fault?_eq_none] at hf
  cases hf

theorem ending_of_not_brought {x : Exchange} (h : ∀ body, ¬ x.Brought body) :
    (x.TimedOut ∧ x.ending = .timeout) ∨
      (¬ x.TimedOut ∧ ∃ status, x.ending = .refused status []) := by
  have htimeout : x.TimedOut ↔ (x.fault?.any fun f => f.kind.isTimeout) = true := by
    simp [TimedOut, Option.any_eq_true]
  unfold ending
  by_cases ht : x.TimedOut
  · left
    exact ⟨ht, if_pos (htimeout.mp ht)⟩
  · right
    refine ⟨ht, ?_⟩
    rw [if_neg (fun hany => ht (htimeout.mpr hany))]
    split_ifs with hc hs
    · exact ⟨0, rfl⟩
    · exact ⟨x.status, rfl⟩
    · cases ho : x.object? with
      | none => exact ⟨x.status, rfl⟩
      | some body => exact absurd ⟨by omega, ho⟩ (h body)

end Exchange

/-! ## What a call for a file comes back with -/

/-- An error with the status and code of a documented ending means a missing file exactly if the
code says so. -/
theorem meansAbsent_of_refused {e : CallError} {status : Int} {code : Text}
    (h : endingOf? (.error e) = some (.refused status code)) :
    e.details?.isSome ∧ e.meansAbsent = CallError.absenceCodes.contains code := by
  cases e with
  | timedOut method => cases h
  | fault f => cases h
  | timingKind kind => cases h
  | infiniteId => cases h
  | network method reason =>
    obtain ⟨⟩ := h
    exact ⟨rfl, rfl⟩
  | httpStatus method status =>
    obtain ⟨⟩ := h
    exact ⟨rfl, rfl⟩
  | rejected method status code description =>
    obtain ⟨⟩ := h
    exact ⟨rfl, rfl⟩
  | malformedFile id =>
    obtain ⟨⟩ := h
    exact ⟨rfl, rfl⟩

theorem fileOfCall_of_timeout (id : Int) {r : Except CallError Body}
    (h : endingOf? r = some .timeout) : ∃ method, fileOfCall id r = .error (.timedOut method) := by
  cases r with
  | ok body => cases h
  | error e =>
    cases e with
    | timedOut method => exact ⟨method, rfl⟩
    | _ => cases h

theorem fileOfCall_of_refused (id : Int) {r : Except CallError Body} {status : Int} {code : Text}
    (h : endingOf? r = some (.refused status code)) :
    (code ∈ CallError.absenceCodes ∧ fileOfCall id r = .ok none) ∨
      code ∉ CallError.absenceCodes ∧ ∃ e, fileOfCall id r = .error e ∧ e.details?.isSome := by
  cases r with
  | ok body => cases h
  | error e =>
    obtain ⟨hdetails, habsent⟩ := meansAbsent_of_refused h
    unfold fileOfCall
    dsimp only
    rw [habsent]
    by_cases hc : code ∈ CallError.absenceCodes
    · left
      exact ⟨hc, if_pos (by simpa using hc)⟩
    · right
      exact ⟨hc, e, if_neg (by simpa using hc), hdetails⟩

theorem eq_ok_of_body {r : Except CallError Body} {body : Body}
    (h : endingOf? r = some (.body body)) : r = .ok body := by
  cases r with
  | ok b =>
    obtain ⟨⟩ := h
    rfl
  | error e => cases e <;> cases h

theorem malformed_of_writable {id : Int} (h : Numeral.writable id = true) :
    malformed id = .malformedFile (Text.ofInt id) := by
  rw [malformed, Numeral.write_of_writable h]

theorem malformed_of_not_writable {id : Int} (h : Numeral.writable id = false) :
    malformed id = .fault Numeral.tooLong := by
  rw [malformed, Numeral.write_of_not_writable h]

/-- An exchange says one thing of a file, and `r` is what a call for it comes back with. -/
inductive TellsFile (x : Exchange) (id : Int) : Except CallError (Option DiskFile) → Prop
  | missing (h : x.SaysMissing) (hfound : ∀ f, ¬ x.SaysFound f) : TellsFile x id (.ok none)
  | found {f : DiskFile} (h : ∀ g, f = g ↔ x.SaysFound g) (hmissing : ¬ x.SaysMissing) :
    TellsFile x id (.ok (some f))
  | broken {e : CallError} (h : x.FailsWith e) (hmissing : ¬ x.SaysMissing)
    (hfound : ∀ f, ¬ x.SaysFound f) (hmalformed : ¬ x.BringsMalformed) : TellsFile x id (.error e)
  | malformed (h : x.BringsMalformed) (htime : ¬ x.TimedOut) :
    TellsFile x id (.error (malformed id))

theorem tellsFile_of_not_brought {x : Exchange} (h : ∀ body, ¬ x.Brought body) (id : Int)
    {r : Except CallError Body} (hr : endingOf? r = some x.ending) :
    TellsFile x id (fileOfCall id r) := by
  have hmissing : ¬ x.SaysMissing := by
    rintro ⟨body, hbody, -⟩
    exact h body hbody
  have hfound (f : DiskFile) : ¬ x.SaysFound f := by
    rintro ⟨body, _, hbody, -⟩
    exact h body hbody
  have hmalformed : ¬ x.BringsMalformed := by
    rintro ⟨body, _, hbody, -⟩
    exact h body hbody
  rcases Exchange.ending_of_not_brought h with ⟨ht, hx⟩ | ⟨ht, status, hx⟩
  · obtain ⟨method, hfile⟩ := fileOfCall_of_timeout id (hr.trans (congrArg some hx))
    rw [hfile]
    exact .broken (.inl ⟨ht, method, rfl⟩) hmissing hfound hmalformed
  · rcases fileOfCall_of_refused id (hr.trans (congrArg some hx)) with
      ⟨hc, -⟩ | ⟨-, e, hfile, he⟩
    · exact absurd hc (by decide)
    · rw [hfile]
      exact .broken (.inr ⟨ht, he⟩) hmissing hfound hmalformed

/-- An answer with an error says that the file is missing exactly if the error's code does. -/
theorem tellsFile_of_error {x : Exchange} {body : Body} (h : x.Brought body) {error : Value}
    (herror : Value.lookup "error" body = some error) (id : Int) {r : Except CallError Body}
    (hr : endingOf? r = some x.ending) : TellsFile x id (fileOfCall id r) := by
  have hfound (f : DiskFile) : ¬ x.SaysFound f := by
    rw [h.saysFound_iff, herror]
    rintro ⟨_, hnone, -⟩
    cases hnone
  have hmalformed : ¬ x.BringsMalformed := by
    rw [h.bringsMalformed_iff, herror]
    rintro ⟨_, hnone, -⟩
    cases hnone
  have hmissing : x.SaysMissing ↔ error.print ∈ CallError.absenceCodes := by
    rw [h.saysMissing_iff, herror]
    simp [CallError.absenceCodes]
  have hx : x.ending = .refused x.status error.print := h.ending_of_error herror
  rcases fileOfCall_of_refused id (hr.trans (congrArg some hx)) with
    ⟨hc, hfile⟩ | ⟨hc, e, hfile, he⟩
  · rw [hfile]
    exact .missing (hmissing.mpr hc) hfound
  · rw [hfile]
    exact .broken (.inr ⟨h.not_timedOut, he⟩) (fun hm => hc (hmissing.mp hm)) hfound hmalformed

theorem tellsFile_of_result {x : Exchange} {body : Body} (h : x.Brought body)
    (herror : Value.lookup "error" body = none) (hid : ¬ x.BringsInfiniteId) (id : Int) :
    TellsFile x id (fileOfCall id (.ok body)) := by
  unfold fileOfCall
  dsimp only
  cases hr : (Value.lookup "result" body).filter Value.holds with
  | none =>
    have hempty (result : Value) (hresult : Value.lookup "result" body = some result) :
        result.holds = false := by
      simpa [hresult] using hr
    refine .missing ?_ fun f => ?_
    · rw [h.saysMissing_iff]
      exact .inr ⟨herror, hempty⟩
    · rw [h.saysFound_iff]
      rintro ⟨result, -, hresult, hf⟩
      exact absurd hf.holds (by simp [hempty result hresult])
  | some result =>
    obtain ⟨hresult, hholds⟩ := Option.filter_eq_some_iff.mp hr
    have hfound (f : DiskFile) : x.SaysFound f ↔ Describes result f := by
      rw [h.saysFound_iff, hresult]
      simp [herror]
    obtain ⟨file?, hread, hfile⟩ := readFile_of_not_hasInfiniteId (v := result)
      (fun hinfinite => hid ⟨body, result, h.2, hresult, hinfinite⟩)
      (writable_of_lookup (Exchange.writable_of_object? h.2) hresult)
    dsimp only
    rw [hread]
    cases file? with
    | none =>
      refine .malformed (h.bringsMalformed_iff.mpr ⟨result, herror, hresult, hholds, fun f => ?_⟩)
        h.not_timedOut
      rw [← hfile]
      nofun
    | some file =>
      refine .found (fun g => ?_) fun hmissing => ?_
      · rw [hfound, ← hfile, Option.some.injEq]
      · rcases h.saysMissing_iff.mp hmissing with ⟨_, hnone, -⟩ | ⟨-, hempty⟩
        · rw [herror] at hnone
          cases hnone
        · rw [hempty result hresult] at hholds
          cases hholds

/-- What a call for a file comes back with is read off the exchange, if nothing unforeseen is
raised, the answer is not oddly timed and its file has no infinite number for an id. -/
theorem tellsFile_file (network : Network) (c : Connection) (id : Int)
    (hforeseen : (network c.sent).Foreseen) (htimed : ¬ (network c.sent).OddlyTimed)
    (hid : ¬ (network c.sent).BringsInfiniteId) :
    TellsFile (network c.sent) id (c.file network id).1 := by
  have hending :
      endingOf? (settle fileMethod (network c.sent)).1 = some (network c.sent).ending := by
    rcases settle_ending fileMethod hforeseen with ⟨hending, -⟩ | ⟨-, hodd⟩
    · exact hending
    · exact absurd hodd htimed
  have hfile : (c.file network id).1 = fileOfCall id (settle fileMethod (network c.sent)).1 := by
    rw [← call_eq_settle network c fileMethod (.object [("id".toList, .int id)])]
    rfl
  rw [hfile]
  by_cases hbrought : ∃ body, (network c.sent).Brought body
  · obtain ⟨body, hbody⟩ := hbrought
    cases herror : Value.lookup "error" body with
    | some error => exact tellsFile_of_error hbody herror id hending
    | none =>
      have hx : (network c.sent).ending = .body body := hbody.ending_of_no_error herror
      rw [eq_ok_of_body (hending.trans (congrArg some hx))]
      exact tellsFile_of_result hbody herror hid id
  · exact tellsFile_of_not_brought (not_exists.mp hbrought) id hending

/-- When nothing unforeseen is raised, no timing is odd and no file has an infinite number for an
id, a file is missing exactly if the portal says so and found exactly if the portal describes it.
In every other case the call fails: for a timeout if there was one, else for the portal or the way
to it, unless the failure cannot name the file; then it fails for the id that is too long. -/
theorem file_missing_found_or_broken (network : Network) (c : Connection) (id : Int)
    (hforeseen : (network c.sent).Foreseen) (htimed : ¬ (network c.sent).OddlyTimed)
    (hid : ¬ (network c.sent).BringsInfiniteId) :
    ((c.file network id).1 = .ok none ↔ (network c.sent).SaysMissing) ∧
      (∀ f, (c.file network id).1 = .ok (some f) ↔ (network c.sent).SaysFound f) ∧
      (¬ (network c.sent).SaysMissing → (∀ f, ¬ (network c.sent).SaysFound f) →
        ¬ (network c.sent).CannotName id →
        ∃ e, (c.file network id).1 = .error e ∧ (network c.sent).FailsWith e) ∧
      ((network c.sent).CannotName id →
        (c.file network id).1 = .error (.fault Numeral.tooLong)) := by
  have htells := tellsFile_file network c id hforeseen htimed hid
  generalize (c.file network id).1 = r at htells
  cases htells with
  | missing h hfound =>
    exact ⟨by simp [h], by simp [hfound], fun hmissing => absurd h hmissing,
      fun hlong => absurd h hlong.1.not_saysMissing⟩
  | found h hmissing =>
    exact ⟨by simp [hmissing], by simp [h], fun _ hfound => absurd ((h _).mp rfl) (hfound _),
      fun hlong => absurd ((h _).mp rfl) (hlong.1.not_saysFound _)⟩
  | broken h hmissing hfound hmalformed =>
    exact ⟨by simp [hmissing], by simp [hfound], fun _ _ _ => ⟨_, rfl, h⟩,
      fun hlong => absurd hlong.1 hmalformed⟩
  | malformed h htime =>
    refine ⟨by simp [h.not_saysMissing], by simp [h.not_saysFound], fun _ _ hnames => ?_,
      fun hlong => by rw [malformed_of_not_writable hlong.2]⟩
    have hid : Numeral.writable id = true := by
      rw [← Bool.not_eq_false]
      exact fun hid => hnames ⟨h, hid⟩
    exact ⟨_, rfl, .inr ⟨htime, by rw [malformed_of_writable hid]; rfl⟩⟩

/-- An answer that describes a file, with the id in a text. -/
def describedFile : Exchange :=
  accepted
    (.object [("result".toList, .object [("ID".toList, .text " +1_2 ".toList),
      ("NAME".toList, .text "plan".toList), ("DOWNLOAD_URL".toList, .null)])])
    (by decide)

theorem file_missing_found_or_broken_described :
    (describedFile.Foreseen ∧ ¬ describedFile.OddlyTimed ∧ ¬ describedFile.BringsInfiniteId) ∧
      ((freshConnection.file (fun _ => describedFile) 7).1 =
          .ok (some ⟨12, "plan".toList, "None".toList⟩) ↔
        describedFile.SaysFound ⟨12, "plan".toList, "None".toList⟩) ∧
      (freshConnection.file (fun _ => describedFile) 7).1 =
        .ok (some ⟨12, "plan".toList, "None".toList⟩) := by
  have htimed : ¬ describedFile.OddlyTimed := by
    rintro ⟨body, v, hbody, htime, -⟩
    obtain ⟨⟩ := hbody
    cases htime
  have hid : ¬ describedFile.BringsInfiniteId := by
    rintro ⟨body, result, hbody, hresult, fields, id, hfields, hid, x, negative, hx, -⟩
    obtain ⟨⟩ := hbody
    obtain ⟨⟩ := hresult
    obtain ⟨⟩ := hfields
    obtain ⟨⟩ := hid
    cases hx
  have htells :=
    file_missing_found_or_broken (fun _ => describedFile) freshConnection 7 trivial htimed hid
  exact ⟨⟨trivial, htimed, hid⟩, htells.2.1 _, rfl⟩

def textResult : Exchange :=
  accepted (.object [("result".toList, .text "plan".toList)]) (by decide)

theorem textResult_bringsMalformed : textResult.BringsMalformed := by
  refine ⟨_, .text "plan".toList, ⟨by decide, rfl⟩, rfl, rfl, rfl, fun f => ?_⟩
  rintro ⟨fields, _, _, _, hobject, -⟩
  cases hobject

/-- A malformed result for an id of 4301 digits: the file is neither missing nor found, and the call
does not fail for the portal or the way to it. -/
theorem file_not_broken_overlongId :
    (textResult.Foreseen ∧ ¬ textResult.OddlyTimed ∧ ¬ textResult.BringsInfiniteId) ∧
      ¬ textResult.SaysMissing ∧ (∀ f, ¬ textResult.SaysFound f) ∧
      ∀ e, (freshConnection.file (fun _ => textResult) Numeral.leastOverlong).1 = .error e →
        ¬ textResult.FailsWith e := by
  have htimed : ¬ textResult.OddlyTimed := by
    rintro ⟨body, v, hbody, htime, -⟩
    obtain ⟨⟩ := hbody
    cases htime
  have hid : ¬ textResult.BringsInfiniteId := by
    rintro ⟨body, result, hbody, hresult, fields, id, hfields, -⟩
    obtain ⟨⟩ := hbody
    obtain ⟨⟩ := hresult
    cases hfields
  have hbrings := textResult_bringsMalformed
  refine ⟨⟨trivial, htimed, hid⟩, hbrings.not_saysMissing, hbrings.not_saysFound, fun e he => ?_⟩
  have hfile : (freshConnection.file (fun _ => textResult) Numeral.leastOverlong).1 =
      .error (malformed Numeral.leastOverlong) := rfl
  rw [hfile, malformed_of_not_writable Numeral.writable_leastOverlong] at he
  obtain rfl := Except.error.inj he
  rintro (⟨⟨f, hf, -⟩, -⟩ | ⟨-, hdetails⟩)
  · cases hf
  · cases hdetails

end TaskBulletin.Portal
